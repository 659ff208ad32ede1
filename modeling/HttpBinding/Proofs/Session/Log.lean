import HttpBinding.Proofs.Session.Stage

/-!
# HttpBinding.Proofs.Session.Log

What an observer has heard of a session accounts for what the session holds.

The `log` of an observer lists the events that it has heard of. `Tallies` says that a list of
events leads from one queue of request numbers to another: it opens and closes as many exchanges
of each number as the difference asks for, and it never closes one that was not there. Every
operation on an open session reports events that tally with its queue before and after
(`tallies_enrol`, `tallies_deliver`, `tallies_release`), and `Accounted` carries this through a run,
with the events counted that the observer has yet to hear of.

While observers hear of an operation nothing about the queue changes (`Frozen`), so each of them
sees the number held at its end.
-/

namespace HttpBinding

/-! ### Events that tally with a queue -/

/-- The events lead from a queue of request numbers to another one. -/
structure Tallies (before : List Nat) (events : List Event) (after : List Nat) : Prop where
  balance : ∀ rid, before.count rid + events.count (.opened rid) =
    after.count rid + events.count (.closed rid)
  /-- Only what is there is closed. -/
  covered : ∀ p, p <+: events → ∀ rid,
    p.count (.closed rid) ≤ before.count rid + p.count (.opened rid)

namespace Tallies

variable {a b c : List Nat} {es fs : List Event}

theorem refl (a : List Nat) : Tallies a [] a :=
  ⟨fun _ => rfl, fun p hp rid => by simp [List.prefix_nil.mp hp]⟩

theorem append (h : Tallies a es b) (h' : Tallies b fs c) : Tallies a (es ++ fs) c := by
  refine ⟨fun rid => ?_, fun p hp rid => ?_⟩
  · have hes := h.balance rid
    have hfs := h'.balance rid
    simp only [List.count_append]
    omega
  · obtain ⟨rest, hrest⟩ := hp
    rcases List.append_eq_append_iff.mp hrest with ⟨more, hes, -⟩ | ⟨more, hp, hfs⟩
    · exact h.covered p ⟨more, hes.symm⟩ rid
    · -- the prefix goes beyond the first part
      have hes := h.balance rid
      have hmore := h'.covered more ⟨rest, hfs.symm⟩ rid
      simp only [hp, List.count_append]
      omega

theorem opened (a : List Nat) (rid : Nat) : Tallies a [.opened rid] (a ++ [rid]) := by
  refine ⟨fun r => ?_, fun p hp r => ?_⟩
  · by_cases hr : rid = r <;> simp [List.count_append, hr]
  · have hnone : p.count (.closed r) ≤ [Event.opened rid].count (.closed r) :=
      hp.sublist.count_le _
    simp only [List.count_singleton] at hnone
    simp at hnone
    omega

end Tallies

namespace Session

variable {ο : Type}

theorem count_closed_closures (xs : List Exchange) (rid : Nat) :
    (closures xs).count (.closed rid) = (xs.map Exchange.rid).count rid := by
  induction xs with
  | nil => rfl
  | cons x xs ih =>
      simp only [closures, List.map_cons] at ih ⊢
      simp [List.count_cons, ih]

theorem count_opened_closures (xs : List Exchange) (rid : Nat) :
    (closures xs).count (.opened rid) = 0 := by
  simp [closures, List.count_eq_zero]

/-- Closures lead to the queue without what is closed. -/
theorem tallies_closures (xs : List Exchange) {before after : List Nat}
    (h : ∀ rid, before.count rid = (xs.map Exchange.rid).count rid + after.count rid) :
    Tallies before (closures xs) after := by
  refine ⟨fun rid => ?_, fun p hp rid => ?_⟩
  · rw [count_closed_closures, count_opened_closures, h]
    omega
  · have hle : p.count (.closed rid) ≤ (closures xs).count (.closed rid) :=
      hp.sublist.count_le _
    rw [count_closed_closures] at hle
    rw [h]
    omega

theorem tallies_abandoned (held : List Exchange) :
    Tallies (held.map Exchange.rid) (closures (abandoned held))
      ((waiting held).map Exchange.rid) :=
  tallies_closures _ fun rid => (count_abandoned_add_waiting Exchange.close_rid held rid).symm

theorem tallies_release (s : Session ο) :
    Tallies (s.held.map Exchange.rid) s.release.events
      (s.release.session.held.map Exchange.rid) := by
  rcases release_cases s with ⟨-, heq⟩ | ⟨-, heq⟩ <;> rw [heq]
  · exact .refl _
  · exact tallies_abandoned s.held

theorem tallies_deliver (s : Session ο) (stanza : Stanza) :
    Tallies (s.held.map Exchange.rid) (s.deliver stanza).events
      ((s.deliver stanza).session.held.map Exchange.rid) := by
  rcases deliver_cases s stanza with
    ⟨-, heq⟩ | ⟨-, pre, x, post, hheld, -, -, heq⟩ | ⟨-, -, heq⟩ <;> rw [heq]
  · exact .refl _
  · refine tallies_closures _ fun rid => ?_
    simp only [publish_held, hheld, List.map_append, map_map_of_kept Exchange.rid_spent,
      List.map_cons, List.map_nil, Exchange.rid_answered, List.count_append, List.count_cons,
      List.count_nil]
    omega
  · refine tallies_closures _ fun rid => ?_
    simp [map_map_of_kept Exchange.rid_spent, -List.map_map]

theorem tallies_enrol (s : Session ο) (x : Exchange) :
    Tallies (s.held.map Exchange.rid) (s.enrol x).events
      ((s.enrol x).session.held.map Exchange.rid) := by
  have hgone := tallies_abandoned s.held
  rcases enrol_cases s x with ⟨-, heq⟩ | ⟨-, -, heq⟩ | ⟨-, -, heq⟩ <;> rw [heq]
  · obtain ⟨n, hn⟩ : ∃ n, n = excess s.terms.bound (waiting s.held) := ⟨_, rfl⟩
    rw [← hn]
    have hpushed : Tallies ((waiting s.held).map Exchange.rid)
        (closures (((waiting s.held).take n).map fun y => y.closeWith .empty))
        (((waiting s.held).drop n).map Exchange.rid) := by
      refine tallies_closures _ fun rid => ?_
      rw [map_map_of_kept fun y => y.closeWith_rid .empty, ← List.count_append, ← List.map_append,
        List.take_append_drop]
    have hopened := Tallies.opened (((waiting s.held).drop n).map Exchange.rid) x.rid
    simpa using (hgone.append hpushed).append hopened
  · -- what carries the buffer away is opened and closed at once
    have hclosed : Tallies ((waiting s.held).map Exchange.rid ++ [x.rid])
        (closures [x]) ((waiting s.held).map Exchange.rid) :=
      tallies_closures _ fun rid => by
        simp only [List.count_append, List.map_cons, List.map_nil]
        omega
    exact hgone.append ((Tallies.opened _ x.rid).append hclosed)
  · exact hgone

theorem tallies_accept (s : Session ο) (x : Exchange) (poll : Bool) (now : Nat) :
    Tallies (s.held.map Exchange.rid) (s.accept x poll now).events
      ((s.accept x poll now).session.held.map Exchange.rid) := by
  rcases accept_cases s x poll now with ⟨fault, p, heq⟩ | ⟨-, p, heq⟩ <;> rw [heq]
  · exact .refl _
  · exact tallies_enrol { s with lastPoll := p } x

end Session

/-! ### What an observer hears -/

/-- The event that the observer `o` hears of with a notice. -/
def Notice.eventFor {ο : Type} [DecidableEq ο] (o : ο) : Notice ο → Option Event
  | .event e p => if p = o then some e else none
  | _ => none

/-- The observer `o` hears of the end with a notice. -/
def Notice.isEndFor {ο : Type} [DecidableEq ο] (o : ο) : Notice ο → Bool
  | .ended p => p = o
  | _ => false

/-- Nothing is done about the observer `o`, which has the ticket. -/
def Beat.Spares {ο : Type} (o : ο) (ticket : Nat) (b : Beat ο) : Prop :=
  b ≠ .deed (.observe o) ∧ b ≠ .deed (.unobserve ticket)

namespace Stage

variable {ο α : Type}

/-- The events that observers are to hear of because of a deed. -/
def eventsOf (t : Stage ο) : Session.Deed ο → List Event
  | .enter rid secure past poll now =>
    (t.session.accept ((Exchange.fresh t.entered rid secure).after past) poll now).events
  | .deliver stanza => (t.session.deliver stanza).events
  | .release => t.session.release.events
  | _ => []

/-- The calls to which a deed leads on an open session: each event goes to every observer in
turn before the next one does; the end goes to every observer after the buffer was handed on. -/
def noticesOf (t : Stage ο) : Session.Deed ο → List (Notice ο)
  | .close _ =>
    t.session.buffer.map .handedOn ++ t.session.observers.map fun p => .ended p.2
  | d => (t.eventsOf d).flatMap fun e => t.session.observers.map fun p => .event e p.2

section

variable [DecidableEq ο]

/-- The events that the observer `o` has heard of. -/
def log (o : ο) (t : Stage ο) : List Event :=
  t.heard.filterMap fun e => e.notice.eventFor o

/-- The events that the observer `o` has yet to hear of. -/
def news (o : ο) (t : Stage ο) : List Event := t.due.filterMap (Notice.eventFor o)

/-- How often the observer `o` has heard of the end. -/
def endings (o : ο) (t : Stage ο) : Nat := t.heard.countP fun e => e.notice.isEndFor o

end

/-! ### Nothing happens to the queue while observers hear -/

/-- From `u` to `v` calls were made, observers came and went, and requesters left. -/
structure Frozen (u v : Stage ο) : Prop where
  shown : v.session.shown = u.session.shown
  length : v.session.held.length = u.session.held.length
  heard : ∃ new, v.heard = u.heard ++ new ∧ new.map Hearing.notice ++ v.due = u.due ∧
    ∀ e ∈ new, e.session.shown = u.session.shown

/-- Nothing was called, and the queue is as long as it was. -/
theorem Frozen.of_eq {u v : Stage ο} (hshown : v.session.shown = u.session.shown)
    (hlength : v.session.held.length = u.session.held.length) (hheard : v.heard = u.heard)
    (hdue : v.due = u.due) : u.Frozen v :=
  ⟨hshown, hlength, [], by simp [hheard], by simp [hdue], by simp⟩

theorem Frozen.trans {u v w : Stage ο} (h : u.Frozen v) (h' : v.Frozen w) : u.Frozen w := by
  obtain ⟨new, hheard, hdue, hnew⟩ := h.heard
  obtain ⟨new', hheard', hdue', hnew'⟩ := h'.heard
  refine ⟨h'.shown.trans h.shown, h'.length.trans h.length, new ++ new', ?_, ?_, fun e he => ?_⟩
  · rw [hheard', hheard, List.append_assoc]
  · rw [List.map_append, List.append_assoc, hdue', hdue]
  · rcases List.mem_append.mp he with he | he
    · exact hnew e he
    · exact (hnew' e he).trans h.shown

theorem frozen_call (t : Stage ο) : t.Frozen t.call := by
  unfold call
  split
  · exact .of_eq rfl rfl rfl rfl
  · rename_i notice due hdue
    exact ⟨rfl, rfl, [⟨notice, t.session⟩], rfl, by simp [hdue], by simp⟩

theorem frozen_step (t : Stage ο) {b : Beat ο} (hb : b.isOperation = false) :
    t.Frozen (t.step b) := by
  cases b with
  | call => exact t.frozen_call
  | deed d =>
      simp only [step]
      split
      · exact .of_eq rfl rfl rfl rfl
      · cases d with
        | enter | deliver | release | close => cases hb
        | depart key => exact .of_eq rfl (List.length_map ..) rfl rfl
        | observe | unobserve => exact .of_eq rfl rfl rfl rfl

theorem frozen_play (t : Stage ο) {beats : List (Beat ο)}
    (hbeats : ∀ b ∈ beats, b.isOperation = false) : t.Frozen (t.play beats) := by
  induction beats generalizing t with
  | nil => exact .of_eq rfl rfl rfl rfl
  | cons b beats ih =>
      exact (t.frozen_step (hbeats b (by simp))).trans
        (ih (t.step b) fun c hc => hbeats c (by simp [hc]))

/-! ### The calls of an operation -/

theorem calls_of_silent {r : Report ο α} (hevents : r.events = []) (discharged : List ο) :
    r.calls discharged = r.failedOver.map .handedOn ++ discharged.map .ended := by
  simp [Report.calls, Report.notices, hevents]

theorem calls_of_open {r : Report ο α} (hnone : r.failedOver = []) :
    r.calls [] = r.events.flatMap fun e => r.session.observers.map fun p => .event e p.2 := by
  simp [Report.calls, Report.notices, hnone, List.map_flatMap, Function.comp_def]

/-- An open session hands nothing on when it admits or sends something. -/
theorem failedOver_accept (s : Session ο) (x : Exchange) (poll : Bool) (now : Nat) :
    (s.accept x poll now).failedOver = [] := by
  rcases Session.accept_cases s x poll now with ⟨fault, p, heq⟩ | ⟨-, p, heq⟩ <;> rw [heq]
  rcases Session.enrol_cases { s with lastPoll := p } x with
    ⟨-, heq⟩ | ⟨-, -, heq⟩ | ⟨-, -, heq⟩ <;> rw [heq]

theorem failedOver_deliver {s : Session ο} (hopen : s.closed = false) (stanza : Stanza) :
    (s.deliver stanza).failedOver = [] := by
  rcases Session.deliver_cases s stanza with
    ⟨hc, -⟩ | ⟨-, pre, x, post, -, -, -, heq⟩ | ⟨-, -, heq⟩
  · rw [hopen] at hc
    cases hc
  · rw [heq]
  · rw [heq]

theorem failedOver_release (s : Session ο) : s.release.failedOver = [] := by
  rcases Session.release_cases s with ⟨-, heq⟩ | ⟨-, heq⟩ <;> rw [heq]

/-- On an open session that is not busy, exactly the notices of a deed are due after it. -/
theorem due_perform {t : Stage ο} (hopen : t.session.closed = false) (hquiet : t.due = [])
    (d : Session.Deed ο) : (t.perform d).due = t.noticesOf d := by
  cases d with
  | enter rid secure past poll now =>
      obtain ⟨x, hx⟩ : ∃ x, x = (Exchange.fresh t.entered rid secure).after past := ⟨_, rfl⟩
      have hfits := t.session.fits_accept x poll now
      simp only [perform, absorb, noticesOf, eventsOf, hquiet, List.append_nil, ← hx,
        calls_of_open (failedOver_accept ..), hfits.observers]
  | deliver stanza =>
      have hfits := t.session.fits_deliver stanza
      simp only [perform, absorb, noticesOf, eventsOf, hquiet, List.append_nil,
        calls_of_open (failedOver_deliver hopen stanza), hfits.observers]
  | release =>
      have hfits := t.session.fits_release
      simp only [perform, absorb, noticesOf, eventsOf, hquiet, List.append_nil,
        calls_of_open (failedOver_release _), hfits.observers]
  | close shutdown =>
      rcases Session.close_cases t.session shutdown with ⟨hc, -⟩ | ⟨-, heq⟩
      · rw [hopen] at hc
        cases hc
      · simp only [perform, absorb, noticesOf, hquiet, List.append_nil, heq]
        rw [calls_of_silent rfl, List.map_map]
        rfl
  | depart key => exact hquiet
  | observe o | unobserve ticket => exact hquiet

/-- Only a stage where no call is due lets an operation on an open session begin. -/
theorem quiet_of_not_busy {t : Stage ο} (hopen : t.session.closed = false)
    (hfree : t.isBusy = false) : t.due = [] := by
  simpa [isBusy, hopen] using hfree

/-- Nothing has to wait on a stage where no call is due. -/
theorem step_deed_of_quiet {t : Stage ο} (hquiet : t.due = []) (d : Session.Deed ο) :
    t.step (.deed d) = t.perform d := by
  have hdefers : t.defers d = false := by
    cases d <;> simp [defers, isBusy, isHandingOn, hquiet]
  simp [step, hdefers]

/-- Every observer hears of all events of a deed in turn, and sees the number held at its end. -/
theorem heard_of_deed {t : Stage ο} (hsound : t.session.Sound) (hopen : t.session.closed = false)
    (hquiet : t.due = []) (d : Session.Deed ο) {during : List (Beat ο)}
    (hduring : ∀ b ∈ during, b.isOperation = false) :
    ∃ new, ((t.step (.deed d)).play during).heard = t.heard ++ new ∧
      new.map Hearing.notice ++ ((t.step (.deed d)).play during).due = t.noticesOf d ∧
      ∀ e ∈ new, e.session.shown.held =
        ((t.step (.deed d)).play during).session.held.length := by
  rw [step_deed_of_quiet hquiet]
  have hfrozen := (t.perform d).frozen_play hduring
  obtain ⟨new, hheard, hdue, hnew⟩ := hfrozen.heard
  rw [due_perform hopen hquiet] at hdue
  rw [heard_perform] at hheard
  refine ⟨new, hheard, hdue, fun e he => ?_⟩
  rw [hnew e he, (sound_perform hsound d).shown, hfrozen.length]

/-! ### An ended session is silent -/

/-- An ended session makes no calls but to hand on what it can no longer send. -/
theorem due_perform_of_closed {t : Stage ο} (hc : t.session.closed = true)
    (d : Session.Deed ο) :
    ∃ stanzas : List Stanza, (t.perform d).due = stanzas.map .handedOn ++ t.due := by
  cases d with
  | enter rid secure past poll now =>
      obtain ⟨x, hx⟩ : ∃ x, x = (Exchange.fresh t.entered rid secure).after past := ⟨_, rfl⟩
      have hfits := t.session.fits_accept x poll now
      refine ⟨[], ?_⟩
      simp only [perform, absorb, ← hx, calls_of_silent (hfits.silent hc), failedOver_accept]
      rfl
  | deliver stanza =>
      have hfits := t.session.fits_deliver stanza
      refine ⟨(t.session.deliver stanza).failedOver, ?_⟩
      simp only [perform, absorb, calls_of_silent (hfits.silent hc), List.map_nil,
        List.append_nil]
  | release =>
      have hfits := t.session.fits_release
      refine ⟨[], ?_⟩
      simp only [perform, absorb, calls_of_silent (hfits.silent hc), failedOver_release]
      rfl
  | close shutdown =>
      refine ⟨[], ?_⟩
      rcases Session.close_cases t.session shutdown with ⟨-, heq⟩ | ⟨hopen, -⟩
      · simp only [perform, absorb, heq]
        rfl
      · rw [hc] at hopen
        cases hopen
  | depart key => exact ⟨[], rfl⟩
  | observe o | unobserve ticket => exact ⟨[], rfl⟩

theorem closed_perform_of_closed {t : Stage ο} (hc : t.session.closed = true)
    (d : Session.Deed ο) : (t.perform d).session.closed = true := by
  cases d with
  | enter rid secure past poll now => exact (Session.fits_accept ..).closed.trans hc
  | deliver stanza => exact (Session.fits_deliver ..).closed.trans hc
  | release => exact (Session.fits_release _).closed.trans hc
  | close shutdown => exact t.session.closed_close shutdown
  | depart | observe | unobserve => exact hc

section

variable [DecidableEq ο] {o : ο} {ticket : Nat} {t : Stage ο}

theorem filterMap_eventFor_handedOn (stanzas : List Stanza) :
    (stanzas.map Notice.handedOn).filterMap (Notice.eventFor o) = [] := by
  simp [List.filterMap_eq_nil_iff, Notice.eventFor]

theorem countP_isEndFor_handedOn (stanzas : List Stanza) :
    (stanzas.map Notice.handedOn).countP (Notice.isEndFor o) = 0 := by
  simp [List.countP_eq_zero, Notice.isEndFor]

theorem log_perform (t : Stage ο) (d : Session.Deed ο) : (t.perform d).log o = t.log o := by
  rw [log, heard_perform, log]

theorem endings_perform (t : Stage ο) (d : Session.Deed ο) :
    (t.perform d).endings o = t.endings o := by
  rw [endings, heard_perform, endings]

/-- A call takes one notice from what is to be heard to what was heard. -/
theorem log_append_news_call (t : Stage ο) :
    t.call.log o ++ t.call.news o = t.log o ++ t.news o := by
  unfold call
  split
  · rfl
  · rename_i notice due hdue
    cases hevent : notice.eventFor o <;>
      simp [log, news, hdue, hevent]

theorem ends_call (t : Stage ο) :
    t.call.endings o + t.call.due.countP (Notice.isEndFor o) =
      t.endings o + t.due.countP (Notice.isEndFor o) := by
  unfold call
  split
  · rfl
  · rename_i notice due hdue
    simp only [endings, hdue, List.countP_append, List.countP_cons, List.countP_nil]
    omega

/-! ### The log of an observer accounts for the queue -/

/-- Who is enlisted once hears of each event once. -/
theorem filterMap_eventFor_event {observers : List (Nat × ο)}
    (h : observers.filter (fun p => p.2 = o) = [(ticket, o)]) (e : Event) :
    (observers.map fun p => Notice.event e p.2).filterMap (Notice.eventFor o) = [e] := by
  have hall : ∀ ps : List (Nat × ο),
      (ps.map fun p => Notice.event e p.2).filterMap (Notice.eventFor o) =
        (ps.filter fun p => p.2 = o).map fun _ => e := by
    intro ps
    induction ps with
    | nil => rfl
    | cons p ps ih =>
        by_cases hp : p.2 = o <;> simp [Notice.eventFor, hp, ← ih]
  rw [hall, h]
  rfl

/-- The news that a deed brings to an observer of an open session are its events. -/
theorem filterMap_eventFor_events {observers : List (Nat × ο)}
    (h : observers.filter (fun p => p.2 = o) = [(ticket, o)]) (events : List Event) :
    (events.flatMap fun e => observers.map fun p => Notice.event e p.2).filterMap
      (Notice.eventFor o) = events := by
  induction events with
  | nil => rfl
  | cons e events ih =>
      rw [List.flatMap_cons, List.filterMap_append, filterMap_eventFor_event h, ih]
      rfl

theorem countP_isEndFor_events (observers : List (Nat × ο)) (events : List Event) :
    (events.flatMap fun e => observers.map fun p => Notice.event e p.2).countP
      (Notice.isEndFor o) = 0 := by
  simp only [List.countP_eq_zero, List.mem_flatMap, List.mem_map]
  rintro notice ⟨e, -, p, -, rfl⟩
  simp [Notice.isEndFor]

/-- Who is enlisted once hears of the end once. -/
theorem countP_isEndFor_ended {observers : List (Nat × ο)}
    (h : observers.filter (fun p => p.2 = o) = [(ticket, o)]) :
    (observers.map fun p => Notice.ended p.2).countP (Notice.isEndFor o) = 1 := by
  rw [List.countP_map, List.countP_eq_length_filter]
  exact congrArg List.length h

/-- What the observer `o`, which has the ticket, has heard of and is to hear of accounts for what
the session holds. It hears of the end once, and of nothing after that. -/
structure Accounted (o : ο) (ticket : Nat) (t : Stage ο) : Prop where
  enlisted : t.session.closed = false →
    t.session.observers.filter (fun p => p.2 = o) = [(ticket, o)]
  tallies : t.session.closed = false →
    Tallies [] (t.log o ++ t.news o) (t.session.held.map Exchange.rid)
  covered : ∀ p, p <+: t.log o ++ t.news o → ∀ rid,
    p.count (.closed rid) ≤ p.count (.opened rid)
  silent : t.session.closed = true → t.news o = []
  ends : t.endings o + t.due.countP (Notice.isEndFor o) = if t.session.closed then 1 else 0

theorem accounted_start (id : StreamId) (terms : Terms) (sink : Sink)
    {observers : List (Nat × ο)} (nextTicket : Nat)
    (henlisted : observers.filter (fun p => p.2 = o) = [(ticket, o)]) :
    (start id terms sink observers nextTicket).Accounted o ticket :=
  ⟨fun _ => henlisted, fun _ => .refl _, fun p hp _ => by
    obtain rfl : p = [] := List.prefix_nil.mp hp
    exact Nat.le_refl 0, fun _ => rfl, rfl⟩

/-- Of the exchanges only their request numbers matter, of the observers only `o`. -/
theorem Accounted.of_eq {t' : Stage ο} (h : t.Accounted o ticket)
    (hclosed : t'.session.closed = t.session.closed)
    (hobservers : t'.session.observers.filter (fun p => p.2 = o) =
      t.session.observers.filter fun p => p.2 = o)
    (hrids : t'.session.held.map Exchange.rid = t.session.held.map Exchange.rid)
    (hdue : t'.due = t.due) (hheard : t'.heard = t.heard) : t'.Accounted o ticket := by
  have hlog : t'.log o = t.log o := by rw [log, hheard, log]
  have hnews : t'.news o = t.news o := by rw [news, hdue, news]
  refine ⟨?_, ?_, ?_, ?_, ?_⟩
  · rw [hclosed, hobservers]; exact h.enlisted
  · rw [hclosed, hlog, hnews, hrids]; exact h.tallies
  · rw [hlog, hnews]; exact h.covered
  · rw [hclosed, hnews]; exact h.silent
  · rw [hclosed, hdue, endings, hheard]; exact h.ends

theorem Accounted.call (h : t.Accounted o ticket) : t.call.Accounted o ticket := by
  refine ⟨?_, ?_, ?_, fun hc => ?_, ?_⟩
  · rw [session_call]; exact h.enlisted
  · rw [session_call, log_append_news_call]; exact h.tallies
  · rw [log_append_news_call]; exact h.covered
  · rw [session_call] at hc
    have hnone := h.silent hc
    unfold Stage.call
    split
    · exact hnone
    · rename_i notice due hdue
      rw [news, hdue] at hnone
      exact List.filterMap_eq_nil_iff.mpr fun n hn =>
        List.filterMap_eq_nil_iff.mp hnone n (List.mem_cons_of_mem _ hn)
  · rw [session_call, ends_call]; exact h.ends

/-- An operation on an open session whose events tally with the queue. -/
theorem Accounted.absorb {r : Report ο α} (h : t.Accounted o ticket)
    (hopen : t.session.closed = false) (hquiet : t.due = []) (hfits : r.Fits t.session)
    (hnone : r.failedOver = [])
    (htallies : Tallies (t.session.held.map Exchange.rid) r.events
      (r.session.held.map Exchange.rid)) : (t.absorb r []).Accounted o ticket := by
  have hdue : (t.absorb r []).due =
      r.events.flatMap fun e => t.session.observers.map fun p => .event e p.2 := by
    simp only [Stage.absorb, hquiet, List.append_nil, calls_of_open hnone, hfits.observers]
  have hnews : (t.absorb r []).news o = r.events := by
    rw [news, hdue, filterMap_eventFor_events (h.enlisted hopen)]
  have hbefore := h.tallies hopen
  rw [show t.news o = [] by rw [news, hquiet]; rfl, List.append_nil] at hbefore
  have hafter : Tallies [] ((t.absorb r []).log o ++ (t.absorb r []).news o)
      (r.session.held.map Exchange.rid) := by
    rw [hnews]
    exact hbefore.append htallies
  have hclosed : (t.absorb r []).session.closed = false := hfits.closed.trans hopen
  refine ⟨fun _ => ?_, fun _ => hafter, fun p hp rid => ?_, fun hc => ?_, ?_⟩
  · show r.session.observers.filter _ = _
    rw [hfits.observers]
    exact h.enlisted hopen
  · simpa using hafter.covered p hp rid
  · rw [hclosed] at hc
    cases hc
  · have hends := h.ends
    rw [hopen, hquiet] at hends
    rw [hclosed, hdue, countP_isEndFor_events]
    exact hends

/-- The end is due once, and no exchange that was held is reported. -/
theorem Accounted.close (h : t.Accounted o ticket) (hopen : t.session.closed = false)
    (hquiet : t.due = []) (shutdown : Bool) :
    (t.perform (.close shutdown)).Accounted o ticket := by
  have hdue := due_perform hopen hquiet (.close shutdown)
  have hclosed : (t.perform (.close shutdown)).session.closed = true :=
    t.session.closed_close shutdown
  have hnews : (t.perform (.close shutdown)).news o = [] := by
    rw [news, hdue]
    simp [noticesOf, Notice.eventFor, List.filterMap_eq_nil_iff]
  have hnone : t.news o = [] := by rw [news, hquiet]; rfl
  refine ⟨fun hc => ?_, fun hc => ?_, ?_, fun _ => hnews, ?_⟩
  · rw [hclosed] at hc
    cases hc
  · rw [hclosed] at hc
    cases hc
  · have hcovered := h.covered
    rw [hnone] at hcovered
    rw [log_perform, hnews]
    exact hcovered
  · have hends := h.ends
    rw [hopen, hquiet] at hends
    rw [hclosed, hdue, endings_perform]
    simp only [noticesOf, List.countP_append, countP_isEndFor_handedOn,
      countP_isEndFor_ended (h.enlisted hopen)]
    simp only [List.countP_nil] at hends
    simpa using hends

/-- Nothing more is reported of an ended session. -/
theorem Accounted.ended (h : t.Accounted o ticket) (hc : t.session.closed = true)
    (d : Session.Deed ο) : (t.perform d).Accounted o ticket := by
  obtain ⟨stanzas, hdue⟩ := due_perform_of_closed hc d
  have hclosed := closed_perform_of_closed hc d
  have hnews : (t.perform d).news o = t.news o := by
    rw [news, hdue, List.filterMap_append, filterMap_eventFor_handedOn, news]
    rfl
  refine ⟨fun ho => ?_, fun ho => ?_, ?_, fun _ => hnews.trans (h.silent hc), ?_⟩
  · rw [hclosed] at ho
    cases ho
  · rw [hclosed] at ho
    cases ho
  · rw [log_perform, hnews]
    exact h.covered
  · have hends := h.ends
    rw [hc] at hends
    rw [hclosed, endings_perform, hdue, List.countP_append, countP_isEndFor_handedOn, Nat.zero_add]
    exact hends

theorem Accounted.perform (h : t.Accounted o ticket) {d : Session.Deed ο}
    (hspares : Beat.Spares o ticket (.deed d)) (hfree : t.defers d = false) :
    (t.perform d).Accounted o ticket := by
  cases hopen : t.session.closed with
  | true => exact h.ended hopen d
  | false =>
      cases d with
      | enter rid secure past poll now =>
          obtain ⟨x, hx⟩ : ∃ x, x = (Exchange.fresh t.entered rid secure).after past := ⟨_, rfl⟩
          have hafter := h.absorb hopen (quiet_of_not_busy hopen hfree)
            (t.session.fits_accept x poll now) (failedOver_accept ..)
            (t.session.tallies_accept x poll now)
          refine hafter.of_eq ?_ ?_ ?_ ?_ ?_ <;> rw [hx] <;> rfl
      | deliver stanza =>
          exact h.absorb hopen (quiet_of_not_busy hopen hfree) (t.session.fits_deliver stanza)
            (failedOver_deliver hopen stanza) (t.session.tallies_deliver stanza)
      | release =>
          exact h.absorb hopen (quiet_of_not_busy hopen hfree) t.session.fits_release
            (failedOver_release _) t.session.tallies_release
      | close shutdown => exact h.close hopen (quiet_of_not_busy hopen hfree) shutdown
      | depart key =>
          refine h.of_eq rfl rfl ?_ rfl rfl
          refine Session.map_map_of_kept (fun x => ?_) t.session.held
          split <;> rfl
      | observe p =>
          have hne : p ≠ o := fun heq => hspares.1 (by rw [heq])
          refine h.of_eq rfl ?_ rfl rfl rfl
          simp [Stage.perform, Session.observe, hne]
      | unobserve other =>
          have hne : ticket ≠ other := fun heq => hspares.2 (by rw [heq])
          have hone := h.enlisted hopen
          have hswap : (t.session.observers.filter fun p => p.1 != other).filter
              (fun p => p.2 = o) =
                (t.session.observers.filter fun p => p.2 = o).filter fun p => p.1 != other := by
            simp only [List.filter_filter, Bool.and_comm]
          refine h.of_eq rfl (hswap.trans ?_) rfl rfl rfl
          rw [hone]
          simp [hne]

theorem Accounted.step (h : t.Accounted o ticket) {b : Beat ο} (hspares : b.Spares o ticket) :
    (t.step b).Accounted o ticket := by
  cases b with
  | call => exact h.call
  | deed d =>
      simp only [Stage.step]
      cases hfree : t.defers d with
      | true => exact h
      | false => exact h.perform hspares hfree

theorem Accounted.play (h : t.Accounted o ticket) {beats : List (Beat ο)}
    (hspares : ∀ b ∈ beats, b.Spares o ticket) : (t.play beats).Accounted o ticket := by
  induction beats generalizing t with
  | nil => exact h
  | cons b beats ih =>
      exact ih (h.step (hspares b (by simp))) fun c hc => hspares c (by simp [hc])

/-- Once the session has ended, nothing is added to the log. -/
theorem Accounted.play_of_closed (h : t.Accounted o ticket) (hc : t.session.closed = true)
    (later : List (Beat ο)) :
    (t.play later).Accounted o ticket ∧ (t.play later).session.closed = true ∧
      (t.play later).log o = t.log o := by
  refine play_induction
    (P := fun v => v.Accounted o ticket ∧ v.session.closed = true ∧ v.log o = t.log o)
    (fun v hv => ?_) (fun v d hv _ => ?_) ⟨h, hc, rfl⟩ later
  · obtain ⟨hv, hvc, hlog⟩ := hv
    have hcall : v.call.session.closed = true := by rw [session_call]; exact hvc
    have hsame := v.log_append_news_call (o := o)
    rw [hv.silent hvc, hv.call.silent hcall, List.append_nil, List.append_nil] at hsame
    exact ⟨hv.call, hcall, hsame.trans hlog⟩
  · obtain ⟨hv, hvc, hlog⟩ := hv
    exact ⟨hv.ended hvc d, closed_perform_of_closed hvc d, (v.log_perform d).trans hlog⟩

/-- **What an observer has heard accounts for what is held.** Let an observer be enlisted once from
the beginning on, while others come and go, also in the middle of operations. At no point of its
log was a request closed more often than opened. Whenever all have heard of what was done on an
open session:

* the requests opened in the log are those closed in it together with those held;
* a further deed makes every observer that is there hear of each of its events in turn, whatever
  happens meanwhile but for operations, and all of them see the number held at its end;
* the end adds nothing to the log, then or later, and is heard of once. -/
theorem log_accounts_for_queue (id : StreamId) (terms : Terms) (sink : Sink)
    (observers : List (Nat × ο)) (nextTicket : Nat) (o : ο) (ticket : Nat)
    (beats : List (Beat ο)) (henlisted : observers.filter (fun p => p.2 = o) = [(ticket, o)])
    (hspares : ∀ b ∈ beats, b.Spares o ticket) :
    let t := (start id terms sink observers nextTicket).play beats
    (∀ p, p <+: t.log o → ∀ rid, p.count (.closed rid) ≤ p.count (.opened rid)) ∧
    (t.session.closed = false → t.due = [] →
      (∀ rid, (t.log o).count (.opened rid) =
        (t.log o).count (.closed rid) + (t.session.held.map Exchange.rid).count rid) ∧
      (∀ d during, (∀ b ∈ during, b.isOperation = false) →
        let v := (t.step (.deed d)).play during
        ∃ new, v.heard = t.heard ++ new ∧ new.map Hearing.notice ++ v.due = t.noticesOf d ∧
          ∀ e ∈ new, e.session.shown.held = v.session.held.length) ∧
      ∀ shutdown later,
        let v := (t.step (.deed (.close shutdown))).play later
        t.endings o = 0 ∧ v.log o = t.log o ∧ (v.due = [] → v.endings o = 1)) := by
  intro t
  have h : t.Accounted o ticket := (accounted_start id terms sink nextTicket henlisted).play hspares
  have hsound : t.session.Sound :=
    ((upright_start id terms sink observers nextTicket).play beats).sound
  refine ⟨fun p hp => h.covered p (hp.trans (List.prefix_append ..)), fun hopen hquiet =>
    ⟨fun rid => ?_, fun d during hduring => heard_of_deed hsound hopen hquiet d hduring,
      fun shutdown later => ?_⟩⟩
  · have hbalance := (h.tallies hopen).balance rid
    rw [show t.news o = [] by rw [news, hquiet]; rfl, List.append_nil] at hbalance
    simp only [List.count_nil, Nat.zero_add] at hbalance
    omega
  · have hends := h.ends
    rw [hopen, hquiet] at hends
    rw [step_deed_of_quiet hquiet]
    obtain ⟨hafter, hclosed, hlog⟩ := (h.close hopen hquiet shutdown).play_of_closed
      (t.session.closed_close shutdown) later
    refine ⟨hends, hlog.trans (t.log_perform _), fun hdone => ?_⟩
    have honce := hafter.ends
    rw [hclosed, hdone] at honce
    exact honce

end

/-- Under a bound of one a second request pushes out the first. Of two observers one leaves while
they hear of it. -/
def observerLeaves : List (Beat Nat) :=
  [.deed (.enter 1 false [] false 0), .call, .call, .deed (.enter 2 false [] false 0), .call,
    .deed (.unobserve 1), .call, .call, .call]

/-- The observer that stayed has heard of the first request as opened and closed, and of the
second, which is held, as opened. -/
theorem log_of_observer_that_stays :
    let t := (start ⟨"a"⟩ { hold := some 1 } .recorded [(0, 7), (1, 8)] 2).play observerLeaves
    t.log 7 = [.opened 1, .closed 1, .opened 2] ∧ t.session.closed = false ∧ t.due = [] ∧
    (∀ b ∈ observerLeaves, b.Spares 7 0) ∧
    ∀ rid, (t.log 7).count (.opened rid) =
      (t.log 7).count (.closed rid) + (t.session.held.map Exchange.rid).count rid := by
  have hspares : ∀ b ∈ observerLeaves, b.Spares 7 0 := by
    simp [observerLeaves, Beat.Spares]
  have hopen : ((start ⟨"a"⟩ { hold := some 1 } .recorded [(0, 7), (1, 8)] 2).play
      observerLeaves).session.closed = false := by decide
  have hquiet : ((start ⟨"a"⟩ { hold := some 1 } .recorded [(0, 7), (1, 8)] 2).play
      observerLeaves).due = [] := by decide
  refine ⟨by decide, hopen, hquiet, hspares, ?_⟩
  exact ((log_accounts_for_queue ⟨"a"⟩ { hold := some 1 } .recorded [(0, 7), (1, 8)] 2 7 0
    observerLeaves (by decide) hspares).2 hopen hquiet).1

end Stage

end HttpBinding
