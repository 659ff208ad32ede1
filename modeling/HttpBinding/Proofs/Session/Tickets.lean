import Mathlib.Data.List.Induction
import Mathlib.Data.List.Nodup
import HttpBinding.Proofs.Session.Ledger

/-!
# HttpBinding.Proofs.Session.Tickets

Whom a ticket removes.

Each session numbers its observers on its own, so a ticket is a number that means something to every
session. There may be any number of sessions here, and whoever has a ticket may hand it to any of
them. Design points:

* `Standing` says by what was done to a session that an observer is there: it was added under the
  ticket, and since then neither was the ticket given to that session nor did the session end.
* The observers of a session are those that stand (`mem_observers_iff`), each under a ticket of its
  own (`Ticketed`), so a ticket removes one observer at most.
* Nothing in this says which session has given the ticket out. A ticket of another session is taken
  for the session's own one of that number (`foreign_ticket_removes`).
-/

namespace HttpBinding

/-- The observers of a session have tickets of their own, and tickets to come are new. -/
structure Session.Ticketed {ο : Type} (s : Session ο) : Prop where
  distinct : (s.observers.map Prod.fst).Nodup
  issued : ∀ e ∈ s.observers, e.1 < s.nextTicket

namespace Ledger

variable {ο : Type}

/-! ### Several sessions -/

/-- Sessions that have just begun. -/
def startAll (ids : Nat → StreamId) (terms : Nat → Terms) (sinks : Nat → Sink) : Nat → Ledger ο :=
  fun k => start (ids k) (terms k) (sinks k)

/-- Lets one thing happen to one of the sessions. -/
def stepAt (ls : Nat → Ledger ο) (d : Nat × Session.Deed ο) : Nat → Ledger ο :=
  fun k => if k = d.1 then (ls k).step d.2 else ls k

/-- Lets things happen to the sessions, one after the other. -/
def playAt (ls : Nat → Ledger ο) (past : List (Nat × Session.Deed ο)) : Nat → Ledger ο :=
  past.foldl stepAt ls

/-- Nothing among the deeds takes the observer with the ticket away from the session `k`, which had
ended before them if `ended`. -/
def Spared (k ticket : Nat) (ended : Bool) (deeds : List (Nat × Session.Deed ο)) : Prop :=
  (k, .unobserve ticket) ∉ deeds ∧ (ended = true ∨ ∀ shutdown, (k, .close shutdown) ∉ deeds)

/-- The observer was added to the session `k`, which gave the ticket for it. Since then that ticket
was not given to the session, and the session has not ended. -/
def Standing (ls : Nat → Ledger ο) (k : Nat) (past : List (Nat × Session.Deed ο)) (ticket : Nat)
    (o : ο) : Prop :=
  ∃ before later, past = before ++ (k, .observe o) :: later ∧
    ((playAt ls before k).session.observe o).1 = ticket ∧
    Spared k ticket (playAt ls before k).session.closed later

variable {ls : Nat → Ledger ο} {past : List (Nat × Session.Deed ο)} {k j ticket : Nat} {o : ο}
variable {d : Nat × Session.Deed ο}

theorem playAt_concat (ls : Nat → Ledger ο) (past : List (Nat × Session.Deed ο))
    (d : Nat × Session.Deed ο) : playAt ls (past ++ [d]) = stepAt (playAt ls past) d := by
  simp [playAt]

theorem stepAt_self (ls : Nat → Ledger ο) (k : Nat) (d : Session.Deed ο) :
    stepAt ls (k, d) k = (ls k).step d := by
  simp [stepAt]

theorem stepAt_of_ne (hne : j ≠ k) (d : Session.Deed ο) : stepAt ls (j, d) k = ls k := by
  simp [stepAt, Ne.symm hne]

/-! ### What a deed does to the observers -/

theorem observers_step (l : Ledger ο) (d : Session.Deed ο) :
    (l.step d).session.observers =
      match d with
      | .observe o => l.session.observers ++ [(l.session.nextTicket, o)]
      | .unobserve ticket => l.session.observers.filter fun e => e.1 != ticket
      | .close _ => if l.session.closed then l.session.observers else []
      | _ => l.session.observers := by
  cases d with
  | enter rid secure past poll now => exact (Session.fits_accept ..).observers
  | deliver stanza => exact (Session.fits_deliver ..).observers
  | release => exact (Session.fits_release _).observers
  | close shutdown =>
      show (l.session.close shutdown).session.observers = _
      rcases Session.close_cases l.session shutdown with ⟨hc, heq⟩ | ⟨hc, heq⟩ <;> simp [heq, hc]
  | depart | observe | unobserve => rfl

theorem nextTicket_step (l : Ledger ο) (d : Session.Deed ο) :
    (l.step d).session.nextTicket =
      match d with
      | .observe _ => l.session.nextTicket + 1
      | _ => l.session.nextTicket := by
  cases d with
  | enter rid secure past poll now => exact (Session.fits_accept ..).nextTicket
  | deliver stanza => exact (Session.fits_deliver ..).nextTicket
  | release => exact (Session.fits_release _).nextTicket
  | close shutdown =>
      show (l.session.close shutdown).session.nextTicket = _
      rcases Session.close_cases l.session shutdown with ⟨-, heq⟩ | ⟨-, heq⟩ <;> rw [heq]
  | depart | observe | unobserve => rfl

theorem closed_step (l : Ledger ο) (d : Session.Deed ο) :
    (l.step d).session.closed =
      match d with
      | .close _ => true
      | _ => l.session.closed := by
  cases d with
  | enter rid secure past poll now => exact (Session.fits_accept ..).closed
  | deliver stanza => exact (Session.fits_deliver ..).closed
  | release => exact (Session.fits_release _).closed
  | close shutdown => exact l.session.closed_close shutdown
  | depart | observe | unobserve => rfl

/-! ### Tickets -/

theorem ticketed_step {l : Ledger ο} (h : l.session.Ticketed) (d : Session.Deed ο) :
    (l.step d).session.Ticketed := by
  have hkept : ∀ {s : Session ο}, s.observers.Sublist l.session.observers →
      s.nextTicket = l.session.nextTicket → s.Ticketed := fun hsub hnext =>
    ⟨(hsub.map _).nodup h.distinct, fun e he => hnext ▸ h.issued e (hsub.subset he)⟩
  have hobservers := l.observers_step d
  have hnext := l.nextTicket_step d
  cases d with
  | observe o =>
      refine ⟨?_, fun e he => ?_⟩
      · -- the ticket was never given before
        rw [hobservers, List.map_append, List.nodup_append]
        refine ⟨h.distinct, by simp, fun a ha b hb => ?_⟩
        obtain ⟨e, he, rfl⟩ := List.mem_map.mp ha
        obtain rfl : b = l.session.nextTicket := by simpa using hb
        exact Nat.ne_of_lt (h.issued e he)
      · rw [hobservers] at he
        rw [hnext]
        rcases List.mem_append.mp he with he | he
        · exact Nat.lt_succ_of_lt (h.issued e he)
        · obtain rfl := List.mem_singleton.mp he
          exact Nat.lt_succ_self _
  | unobserve ticket => exact hkept (hobservers ▸ List.filter_sublist) hnext
  | close shutdown =>
      refine hkept (hobservers ▸ ?_) hnext
      dsimp only
      split
      · exact .refl _
      · exact List.nil_sublist _
  | enter | deliver | release | depart => exact hkept (hobservers ▸ .refl _) hnext

theorem ticketed_playAt (ids : Nat → StreamId) (terms : Nat → Terms) (sinks : Nat → Sink)
    (past : List (Nat × Session.Deed ο)) (k : Nat) :
    (playAt (startAll ids terms sinks) past k).session.Ticketed := by
  induction past using List.reverseRecOn with
  | nil => exact ⟨List.nodup_nil, by simp [playAt, startAll, start]⟩
  | append_singleton past d ih =>
      obtain ⟨j, d⟩ := d
      rw [playAt_concat]
      by_cases hj : j = k
      · subst hj
        rw [stepAt_self]
        exact ticketed_step ih d
      · rwa [stepAt_of_ne hj]

/-! ### Who stands -/

/-- A session has ended if it had ended before or was ended since. -/
theorem closed_playAt_append (ls : Nat → Ledger ο) (before deeds : List (Nat × Session.Deed ο))
    (k : Nat) :
    (playAt ls (before ++ deeds) k).session.closed = true ↔
      (playAt ls before k).session.closed = true ∨ ∃ shutdown, (k, .close shutdown) ∈ deeds := by
  induction deeds using List.reverseRecOn with
  | nil => simp
  | append_singleton deeds d ih =>
      obtain ⟨j, d⟩ := d
      rw [← List.append_assoc, playAt_concat]
      by_cases hj : j = k
      · subst hj
        rw [stepAt_self, closed_step]
        cases d <;> simp [ih]
      · rw [stepAt_of_ne hj, ih]
        simp [Ne.symm hj]

/-- The session of an observer that stands is open or ended as it was when the observer came. -/
theorem Spared.closed_eq {before later : List (Nat × Session.Deed ο)}
    (h : Spared k ticket (playAt ls before k).session.closed later) :
    (playAt ls (before ++ (k, .observe o) :: later) k).session.closed =
      (playAt ls before k).session.closed := by
  rw [Bool.eq_iff_iff, closed_playAt_append]
  refine ⟨?_, .inl⟩
  rintro (hc | ⟨shutdown, hmem⟩)
  · exact hc
  · exact h.2.resolve_right fun hnone => hnone shutdown (by simpa using hmem)

/-- What is added last, or was added before and is spared, has been added and is spared. -/
theorem standing_concat_iff :
    Standing ls k (past ++ [d]) ticket o ↔
      (d = (k, .observe o) ∧ ((playAt ls past k).session.observe o).1 = ticket) ∨
      ∃ before later, past = before ++ (k, .observe o) :: later ∧
        ((playAt ls before k).session.observe o).1 = ticket ∧
        Spared k ticket (playAt ls before k).session.closed (later ++ [d]) := by
  constructor
  · rintro ⟨before, later, heq, hticket, hspared⟩
    rcases List.eq_nil_or_concat later with rfl | ⟨later, e, rfl⟩
    · obtain ⟨rfl, heq⟩ := List.append_inj' heq rfl
      exact .inl ⟨by simpa using heq, hticket⟩
    · rw [List.concat_eq_append] at heq hspared
      rw [← List.cons_append, ← List.append_assoc] at heq
      obtain ⟨rfl, heq⟩ := List.append_inj' heq rfl
      obtain rfl : d = e := by simpa using heq
      exact .inr ⟨before, later, rfl, hticket, hspared⟩
  · rintro (⟨rfl, hticket⟩ | ⟨before, later, rfl, hticket, hspared⟩)
    · exact ⟨past, [], rfl, hticket, by simp [Spared]⟩
    · exact ⟨before, later ++ [d], by simp, hticket, hspared⟩

theorem spared_concat_iff {ended : Bool} {later : List (Nat × Session.Deed ο)} :
    Spared k ticket ended (later ++ [d]) ↔
      Spared k ticket ended later ∧ d ≠ (k, .unobserve ticket) ∧
        (ended = true ∨ ∀ shutdown, d ≠ (k, .close shutdown)) := by
  cases ended
  · simp only [Spared, List.mem_append, List.mem_singleton, Bool.false_eq_true, false_or, not_or,
      forall_and, ne_comm (a := d)]
    exact and_and_and_comm
  · simp [Spared, ne_comm (a := d)]

/-- Most deeds leave everybody standing, and one that adds an observer adds to them. -/
theorem standing_concat_of_spared (hremoved : d ≠ (k, .unobserve ticket))
    (hended : ∀ shutdown, d ≠ (k, .close shutdown)) :
    Standing ls k (past ++ [d]) ticket o ↔
      (d = (k, .observe o) ∧ ((playAt ls past k).session.observe o).1 = ticket) ∨
      Standing ls k past ticket o := by
  have hspared : ∀ ended later,
      Spared k ticket ended (later ++ [d]) ↔ Spared k ticket ended later := fun _ _ =>
    spared_concat_iff.trans (and_iff_left ⟨hremoved, .inr hended⟩)
  rw [standing_concat_iff]
  simp only [hspared, Standing]

theorem not_standing_concat_unobserve :
    ¬Standing ls k (past ++ [(k, .unobserve ticket)]) ticket o := by
  rw [standing_concat_iff]
  rintro (⟨heq, -⟩ | ⟨before, later, -, -, hspared⟩)
  · simp at heq
  · exact (spared_concat_iff.mp hspared).2.1 rfl

/-- Only the first end of a session sends its observers away. -/
theorem standing_concat_close (shutdown : Bool) :
    Standing ls k (past ++ [(k, .close shutdown)]) ticket o ↔
      Standing ls k past ticket o ∧ (playAt ls past k).session.closed = true := by
  rw [standing_concat_iff]
  constructor
  · rintro (⟨heq, -⟩ | ⟨before, later, rfl, hticket, hspared⟩)
    · simp at heq
    · obtain ⟨hspared, -, hended⟩ := spared_concat_iff.mp hspared
      refine ⟨⟨before, later, rfl, hticket, hspared⟩, ?_⟩
      rw [hspared.closed_eq]
      exact hended.resolve_right fun hnone => hnone shutdown rfl
  · rintro ⟨⟨before, later, rfl, hticket, hspared⟩, hc⟩
    rw [hspared.closed_eq] at hc
    exact .inr ⟨before, later, rfl, hticket,
      spared_concat_iff.mpr ⟨hspared, by simp, .inl hc⟩⟩

/-- **The observers of a session are those that stand.** -/
theorem mem_observers_iff (hnew : ∀ k, (ls k).session.observers = []) :
    (ticket, o) ∈ (playAt ls past k).session.observers ↔ Standing ls k past ticket o := by
  induction past using List.reverseRecOn with
  | nil => simp [playAt, hnew, Standing]
  | append_singleton past d ih =>
      obtain ⟨j, d⟩ := d
      rw [playAt_concat]
      by_cases hj : j = k
      · subst hj
        rw [stepAt_self, observers_step]
        cases d with
        | observe o' =>
            rw [standing_concat_of_spared (by simp) (by simp), ← ih, or_comm]
            simp [Session.observe, and_comm, eq_comm]
        | unobserve ticket' =>
            by_cases heq : ticket' = ticket
            · subst heq
              simp [not_standing_concat_unobserve]
            · rw [standing_concat_of_spared (by simp [heq]) (by simp), ← ih]
              simp [Ne.symm heq]
        | close shutdown =>
            rw [standing_concat_close, ← ih]
            cases hc : (playAt ls past j).session.closed <;> simp
        | enter | deliver | release | depart =>
            rw [standing_concat_of_spared (by simp) (by simp), ← ih]
            simp
      · rw [stepAt_of_ne hj, standing_concat_of_spared (by simp [hj]) (by simp [hj]), ih]
        simp [hj]

/-! ### Removal -/

variable {s : Session ο}

theorem unobserve_fst_iff : (s.unobserve ticket).1 = true ↔ ∃ o, (ticket, o) ∈ s.observers := by
  simp [Session.unobserve]

/-- Where nobody has the ticket, nobody is removed. -/
theorem unobserve_of_none (h : ∀ o, (ticket, o) ∉ s.observers) :
    s.unobserve ticket = (false, s) := by
  have hfound : (s.unobserve ticket).1 = false := by
    rw [← Bool.not_eq_true, unobserve_fst_iff]
    rintro ⟨o, ho⟩
    exact h o ho
  have hkept : s.observers.filter (fun e => e.1 != ticket) = s.observers := by
    refine List.filter_eq_self.mpr fun e he => ?_
    rw [bne_iff_ne]
    rintro rfl
    exact h e.2 he
  refine Prod.ext hfound ?_
  simp only [Session.unobserve, hkept]

/-- The observer with the ticket is removed, and the others keep their order. -/
theorem unobserve_of_mem (hs : s.Ticketed) (h : (ticket, o) ∈ s.observers) :
    ∃ front back, s.observers = front ++ (ticket, o) :: back ∧
      s.unobserve ticket = (true, { s with observers := front ++ back }) := by
  obtain ⟨front, back, heq⟩ := List.append_of_mem h
  have hfree : ticket ∉ (front ++ back).map Prod.fst := by
    have hdistinct := hs.distinct
    rw [heq, List.map_append, List.map_cons, List.nodup_middle, List.nodup_cons,
      ← List.map_append] at hdistinct
    exact hdistinct.1
  have hothers : ∀ e ∈ front ++ back, (e.1 != ticket) = true := by
    intro e he
    rw [bne_iff_ne]
    rintro rfl
    exact hfree (List.mem_map_of_mem he)
  have hkept : s.observers.filter (fun e => e.1 != ticket) = front ++ back := by
    rw [heq, List.filter_append, List.filter_cons_of_neg (by simp), ← List.filter_append,
      List.filter_eq_self.mpr hothers]
  refine ⟨front, back, heq, Prod.ext (unobserve_fst_iff.mpr ⟨o, h⟩) ?_⟩
  simp only [Session.unobserve, hkept]

/-- **A ticket removes the observer that the session has under that number.** Whatever was done to
any number of sessions: a session that is given a ticket, whoever gave that ticket out, says that it
removed an observer exactly if it has itself given a ticket of that number to an observer, was not
given that number since, and has not ended since. Then it removes this observer, and the others keep
their order. Otherwise nothing about it changes. -/
theorem removal_by_number (ids : Nat → StreamId) (terms : Nat → Terms) (sinks : Nat → Sink)
    (past : List (Nat × Session.Deed ο)) (k ticket : Nat) :
    let ls := startAll ids terms sinks
    let s := (playAt ls past k).session
    ((s.unobserve ticket).1 = true ↔ ∃ o, Standing ls k past ticket o) ∧
    (∀ o, Standing ls k past ticket o → ∃ front back,
      s.observers = front ++ (ticket, o) :: back ∧
        s.unobserve ticket = (true, { s with observers := front ++ back })) ∧
    ((∀ o, ¬Standing ls k past ticket o) → s.unobserve ticket = (false, s)) := by
  intro ls s
  have hmem : ∀ {o}, (ticket, o) ∈ s.observers ↔ Standing ls k past ticket o :=
    mem_observers_iff fun _ => rfl
  refine ⟨?_, fun o ho => ?_, fun hnone => ?_⟩
  · rw [unobserve_fst_iff]
    exact exists_congr fun _ => hmem
  · exact unobserve_of_mem (ticketed_playAt ids terms sinks past k) (hmem.mpr ho)
  · exact unobserve_of_none fun o ho => hnone o (hmem.mp ho)

/-- Not every session refuses the tickets of others: of two sessions with one observer each, the
second removes its own observer for the ticket that the first has given out. -/
theorem foreign_ticket_removes :
    ¬∀ (past before later : List (Nat × Session.Deed Nat)) (j k o : Nat), j ≠ k →
      past = before ++ (j, .observe o) :: later →
      let ls := startAll (fun _ => ⟨"a"⟩) (fun _ => {}) fun _ => .recorded
      let s := (playAt ls past k).session
      s.unobserve ((playAt ls before j).session.observe o).1 = (false, s) := by
  intro h
  have hrefused := h [(0, .observe 10), (1, .observe 20)] [] [(1, .observe 20)] 0 1 10 (by decide) rfl
  exact absurd hrefused (by decide)

end Ledger

end HttpBinding
