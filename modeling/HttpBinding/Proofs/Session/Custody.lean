import HttpBinding.Proofs.Session.Stage

/-!
# HttpBinding.Proofs.Session.Custody

No request that was admitted is forgotten, and none is answered twice.

A session lets go of an exchange in five places: when nobody waits for it, when the bound pushes it
out, when it takes a stanza, when it cannot take one, and when the session ends. `Parts` says what
all of these have in common: if the exchange waited for an answer and its requester listened, it
has one now. `Report.Keeps` says the same of a whole operation, together with the fact that every
exchange is either still held or let go, once.

`Custody` is the invariant of a run. The law (`admitted_held_or_answered`) follows from it for every
request that could be answered when it came in and whose requester did not leave.
-/

namespace HttpBinding

/-! ### Exchanges that wait for an answer -/

/-- The exchange waits for an answer, and so does its requester unless it gave notice. -/
structure Exchange.Waits (x : Exchange) : Prop where
  pending : x.phase = .pending
  present : x.hasSender = true
  vacant : x.mailbox = .vacant
  candid : x.departed = !x.listening

namespace Exchange

/-- A requester that stops listening gives notice, and only then. -/
theorem candid_act {x : Exchange} (h : x.departed = !x.listening) (a : Act) :
    (x.act a).departed = !(x.act a).listening := by
  cases a with
  | deliver body => simp only [act, deliver]; split <;> exact h
  | close => simp only [act, close]; split <;> exact h
  | closeWith body => simp only [act, closeWith]; split <;> exact h
  | compress | drop => exact h
  | take => simp only [act, take]; split <;> exact h
  | depart => rfl
  | leave => simp only [act, leave, take]; split <;> rfl

theorem candid_after {x : Exchange} (h : x.departed = !x.listening) (acts : List Act) :
    (x.after acts).departed = !(x.after acts).listening := by
  induction acts generalizing x with
  | nil => exact h
  | cons a acts ih => exact ih (candid_act h a)

/-- An exchange that can be answered when it is brought in waits for that, whatever was done to it
before. -/
theorem waits_of_isAnswerable {key rid : Nat} {secure : Bool} {past : List Act}
    (h : ((fresh key rid secure).after past).isAnswerable = true) :
    ((fresh key rid secure).after past).Waits := by
  have hconsistent := (consistent_fresh key rid secure).after past
  have hpresent : ((fresh key rid secure).after past).hasSender = true := by
    simp only [isAnswerable, Bool.and_eq_true] at h
    exact h.1.2
  exact ⟨hconsistent.pending hpresent, hpresent, hconsistent.vacant hpresent,
    candid_after rfl past⟩

theorem Waits.bind {x : Exchange} (h : x.Waits) (id : StreamId) : (x.bind id).Waits :=
  ⟨h.pending, h.present, h.vacant, h.candid⟩

theorem Waits.depart {x : Exchange} (h : x.Waits) : x.depart.Waits :=
  ⟨h.pending, h.present, h.vacant, rfl⟩

theorem Waits.isAnswerable_eq {x : Exchange} (h : x.Waits) : x.isAnswerable = x.listening := by
  simp [isAnswerable, h.pending, h.present]

theorem Waits.isAbandoned_eq {x : Exchange} (h : x.Waits) : x.isAbandoned = !x.listening := by
  simp [isAbandoned, h.present, h.candid]

@[simp] theorem listening_close (x : Exchange) : x.close.listening = x.listening := by
  unfold close; split <;> rfl

@[simp] theorem listening_closeWith (x : Exchange) (b : Body) :
    (x.closeWith b).listening = x.listening := by
  unfold closeWith; split <;> rfl

end Exchange

namespace Session

variable {ο : Type}

/-- A session with these terms, ended or not, may answer a request with `body`: with stanzas, with
nothing if a bound pushes requests out, and with the end if it has ended. -/
def Answers (s : Session ο) : Body → Prop
  | .delivery stanzas => stanzas ≠ []
  | .empty => s.terms.bound ≠ none
  | .terminate _ => s.closed = true
  | .creation _ | .literal _ => False

theorem Answers.mono {s t : Session ο} (hterms : t.terms = s.terms)
    (hclosed : s.closed = true → t.closed = true) {b : Body} (h : s.Answers b) : t.Answers b := by
  cases b with
  | delivery stanzas => exact h
  | empty =>
      show t.terms.bound ≠ none
      rw [hterms]
      exact h
  | terminate condition => exact hclosed h
  | creation c => exact h
  | literal text => exact h

/-- The session has let go of `x`, which is `y` since: whoever waited for an answer has one. -/
structure Parts (s : Session ο) (x y : Exchange) : Prop where
  key : y.key = x.key
  listening : y.listening = x.listening
  answered : x.Waits → x.listening = true → ∃ r, y.mailbox = .holding r ∧ s.Answers r.body

variable {s : Session ο} {x : Exchange}

/-- An exchange that cannot be answered has no one who listens. -/
theorem parts_spent (h : x.isAnswerable = false) : s.Parts x x.spent := by
  refine ⟨rfl, rfl, fun hw hl => ?_⟩
  rw [hw.isAnswerable_eq, hl] at h
  cases h

/-- An exchange that is abandoned has no one who listens. -/
theorem parts_close (h : x.isAbandoned = true) : s.Parts x x.close := by
  refine ⟨x.close_key, x.listening_close, fun hw hl => ?_⟩
  rw [hw.isAbandoned_eq, hl] at h
  cases h

theorem parts_answered {b : Body} (hb : s.Answers b) : s.Parts x (x.answered b) :=
  ⟨rfl, rfl, fun _ _ => ⟨_, rfl, hb⟩⟩

/-- A last body reaches whoever listens. -/
theorem parts_closeWith {b : Body} (hb : s.Answers b) : s.Parts x (x.closeWith b) := by
  refine ⟨x.closeWith_key b, x.listening_closeWith b, fun hw hl => ?_⟩
  have ha : x.isAnswerable = true := hw.isAnswerable_eq.trans hl
  simp only [Exchange.closeWith, ha, if_true]
  exact ⟨_, rfl, hb⟩

theorem parts_of_mem_abandoned {held : List Exchange} {y : Exchange} (hy : y ∈ abandoned held) :
    ∃ x ∈ held, s.Parts x y := by
  obtain ⟨x, hx, rfl⟩ := List.mem_map.mp hy
  obtain ⟨hheld, habandoned⟩ := List.mem_filter.mp hx
  exact ⟨x, hheld, parts_close habandoned⟩

end Session

/-! ### Operations -/

/-- An operation accounts for the exchanges `before` that it could get at: each is held or let go
now, and those that were let go have parted from the session, unless they were `refused`. -/
structure Report.Keeps {ο α : Type} (before : List Exchange) (refused : Nat → Prop)
    (r : Report ο α) : Prop where
  keys : ((r.session.held ++ r.released).map Exchange.key).Perm (before.map Exchange.key)
  held : ∀ y ∈ r.session.held, ∃ x ∈ before,
    y.key = x.key ∧ y.listening = x.listening ∧ (x.Waits → y.Waits)
  released : ∀ y ∈ r.released, refused y.key ∨ ∃ x ∈ before, r.session.Parts x y

namespace Session

variable {ο : Type}

/-- What stays in a queue was there before. -/
theorem stays_of_sublist {before after : List Exchange} (h : after.Sublist before) :
    ∀ y ∈ after, ∃ x ∈ before,
      y.key = x.key ∧ y.listening = x.listening ∧ (x.Waits → y.Waits) :=
  fun y hy => ⟨y, h.subset hy, rfl, rfl, fun hw => hw⟩

theorem keeps_release (s : Session ο) : s.release.Keeps s.held fun _ => False := by
  rcases release_cases s with ⟨-, heq⟩ | ⟨-, heq⟩ <;> rw [heq]
  · exact ⟨by simp, stays_of_sublist (.refl _), by simp⟩
  · refine ⟨List.perm_iff_count.mpr fun k => ?_, stays_of_sublist List.filter_sublist,
      fun y hy => Or.inr (parts_of_mem_abandoned hy)⟩
    have hcount := count_abandoned_add_waiting Exchange.close_key s.held k
    simp only [publish_held, List.map_append, List.count_append]
    omega

theorem keeps_deliver (s : Session ο) (stanza : Stanza) :
    (s.deliver stanza).Keeps s.held fun _ => False := by
  rcases deliver_cases s stanza with
    ⟨-, heq⟩ | ⟨-, pre, x, post, hheld, hpre, -, heq⟩ | ⟨-, hnone, heq⟩ <;> rw [heq]
  · exact ⟨by simp, stays_of_sublist (.refl _), by simp⟩
  · -- those in front of the first that can be answered are used up
    rw [hheld]
    refine ⟨?_, stays_of_sublist ?_, fun y hy => Or.inr ?_⟩
    · have hperm : (post ++ (pre ++ [x])).Perm (pre ++ x :: post) := by
        have hswap : (post ++ (pre ++ [x])).Perm (pre ++ [x] ++ post) := List.perm_append_comm
        simpa using hswap
      have hkeys := hperm.map Exchange.key
      simp only [List.map_append] at hkeys
      simp only [publish_held, List.map_append, map_map_of_kept Exchange.key_spent]
      exact hkeys
    · exact (List.sublist_cons_self x post).trans (List.sublist_append_right pre _)
    · rcases List.mem_append.mp hy with hy | hy
      · obtain ⟨z, hz, rfl⟩ := List.mem_map.mp hy
        exact ⟨z, by simp [hz], parts_spent (hpre z hz)⟩
      · obtain rfl := List.mem_singleton.mp hy
        exact ⟨x, by simp, parts_answered (by simp [Answers])⟩
  · refine ⟨by simp [map_map_of_kept Exchange.key_spent, -List.map_map], by simp,
      fun y hy => Or.inr ?_⟩
    obtain ⟨z, hz, rfl⟩ := List.mem_map.mp hy
    exact ⟨z, hz, parts_spent (hnone z hz)⟩

theorem keeps_close (s : Session ο) (shutdown : Bool) :
    (s.close shutdown).Keeps s.held fun _ => False := by
  rcases close_cases s shutdown with ⟨-, heq⟩ | ⟨-, heq⟩ <;> rw [heq]
  · exact ⟨by simp, stays_of_sublist (.refl _), by simp⟩
  · refine ⟨by simp [map_map_of_kept fun x => x.closeWith_key _, -List.map_map], by simp,
      fun y hy => Or.inr ?_⟩
    obtain ⟨z, hz, rfl⟩ := List.mem_map.mp hy
    exact ⟨z, hz, parts_closeWith rfl⟩

/-- Only a bound pushes exchanges out. -/
theorem bound_ne_none_of_mem {bound : Option Nat} {held : List Exchange} {z : Exchange}
    (hz : z ∈ held.take (excess bound held)) : bound ≠ none := by
  intro hnone
  subst hnone
  simp [excess] at hz

/-- When `x` comes in, those who left are let go first; what is left to account for are those who
wait, and `x`. -/
theorem keeps_of_waiting {α : Type} {s : Session ο} {x : Exchange} {refused : Nat → Prop}
    {r : Report ο α} {more : List Exchange} (hreleased : r.released = abandoned s.held ++ more)
    (hkeys : ((r.session.held ++ more).map Exchange.key).Perm
      ((waiting s.held ++ [x]).map Exchange.key))
    (hheld : ∀ y ∈ r.session.held, ∃ z ∈ waiting s.held ++ [x],
      y.key = z.key ∧ y.listening = z.listening ∧ (z.Waits → y.Waits))
    (hmore : ∀ y ∈ more, refused y.key ∨ ∃ z ∈ waiting s.held ++ [x], r.session.Parts z y) :
    r.Keeps (s.held ++ [x]) refused := by
  have hwaiting : (waiting s.held ++ [x]).Sublist (s.held ++ [x]) :=
    List.filter_sublist.append (.refl _)
  refine ⟨List.perm_iff_count.mpr fun k => ?_, fun y hy => ?_, fun y hy => ?_⟩
  · have hall := count_abandoned_add_waiting Exchange.close_key s.held k
    have hrest := hkeys.count_eq k
    rw [hreleased]
    simp only [List.map_append, List.count_append] at hrest ⊢
    omega
  · obtain ⟨z, hz, hsame⟩ := hheld y hy
    exact ⟨z, hwaiting.subset hz, hsame⟩
  · rw [hreleased] at hy
    rcases List.mem_append.mp hy with hy | hy
    · obtain ⟨z, hz, hparts⟩ := parts_of_mem_abandoned hy
      exact Or.inr ⟨z, List.mem_append_left _ hz, hparts⟩
    · rcases hmore y hy with hlost | ⟨z, hz, hparts⟩
      · exact Or.inl hlost
      · exact Or.inr ⟨z, hwaiting.subset hz, hparts⟩

theorem keeps_enrol (s : Session ο) (x : Exchange) :
    (s.enrol x).Keeps (s.held ++ [x]) fun k => k = x.key ∧ (s.enrol x).answer.isOk = false := by
  have hstay : (waiting s.held).Sublist (waiting s.held ++ [x]) := List.sublist_append_left ..
  rcases enrol_cases s x with ⟨-, heq⟩ | ⟨hb, -, heq⟩ | ⟨-, -, heq⟩ <;> rw [heq]
  · -- held: the bound may push others out
    refine keeps_of_waiting rfl (List.perm_iff_count.mpr fun k => ?_) (fun y hy => ?_)
      fun y hy => Or.inr ?_
    · have hsplit := congrArg (fun xs => (xs.map Exchange.key).count k)
        (List.take_append_drop (excess s.terms.bound (waiting s.held)) (waiting s.held))
      simp only [publish_held, List.map_append, List.count_append,
        map_map_of_kept fun y => y.closeWith_key _, List.map_cons, List.map_nil,
        Exchange.key_bind] at hsplit ⊢
      omega
    · rcases List.mem_append.mp hy with hy | hy
      · exact stays_of_sublist ((List.drop_sublist ..).trans hstay) y hy
      · obtain rfl := List.mem_singleton.mp hy
        exact ⟨x, by simp, rfl, rfl, fun hw => hw.bind _⟩
    · obtain ⟨z, hz, rfl⟩ := List.mem_map.mp hy
      exact ⟨z, hstay.subset (List.take_subset _ _ hz),
        parts_closeWith (bound_ne_none_of_mem hz)⟩
  · -- the buffer goes with it
    refine keeps_of_waiting rfl (by simp [Exchange.answered]) (stays_of_sublist hstay)
      fun y hy => Or.inr ?_
    obtain rfl := List.mem_singleton.mp hy
    exact ⟨x, by simp, rfl, rfl, fun _ _ => ⟨_, rfl, hb⟩⟩
  · refine keeps_of_waiting rfl (by simp [Exchange.drop]) (stays_of_sublist hstay)
      fun y hy => Or.inl ?_
    obtain rfl := List.mem_singleton.mp hy
    exact ⟨rfl, rfl⟩

theorem keeps_accept (s : Session ο) (x : Exchange) (poll : Bool) (now : Nat) :
    (s.accept x poll now).Keeps (s.held ++ [x])
      fun k => k = x.key ∧ (s.accept x poll now).answer.isOk = false := by
  rcases accept_cases s x poll now with ⟨fault, p, heq⟩ | ⟨-, p, heq⟩ <;> rw [heq]
  · refine ⟨by simp [Exchange.drop], stays_of_sublist (List.sublist_append_left s.held [x]),
      fun y hy => ?_⟩
    obtain rfl := List.mem_singleton.mp hy
    exact Or.inl ⟨rfl, rfl⟩
  · exact keeps_enrol { s with lastPoll := p } x

end Session

/-! ### Runs -/

namespace Stage

variable {ο α : Type}

/-- The exchanges of admitted requests, after the beats `past`. -/
structure Custody (past : List (Beat ο)) (t : Stage ο) : Prop where
  /-- No exchange is in two places. -/
  distinct : ((t.session.held ++ t.released).map Exchange.key).Nodup
  numbered : ∀ x ∈ t.session.held ++ t.released, x.key < t.entered
  known : ∀ key ∈ t.admitted, key ∈ (t.session.held ++ t.released).map Exchange.key
  listens : ∀ x ∈ t.session.held ++ t.released, x.key ∈ t.admitted →
    .deed (.depart x.key) ∉ past → x.listening = true
  waits : ∀ x ∈ t.session.held, x.key ∈ t.admitted → x.Waits
  answered : ∀ x ∈ t.released, x.key ∈ t.admitted → x.listening = true →
    ∃ r, x.mailbox = .holding r ∧ t.session.Answers r.body

variable {past : List (Beat ο)} {t : Stage ο}

theorem custody_start (id : StreamId) (terms : Terms) (sink : Sink)
    (observers : List (Nat × ο)) (nextTicket : Nat) :
    (start id terms sink observers nextTicket).Custody [] :=
  ⟨by simp [start], by simp [start], by simp [start], by simp [start], by simp [start],
    by simp [start]⟩

/-- What happens later does not bring a requester back. -/
theorem Custody.later (h : t.Custody past) (more : List (Beat ο)) : t.Custody (past ++ more) :=
  ⟨h.distinct, h.numbered, h.known,
    fun x hx hadm hstays => h.listens x hx hadm fun hmem =>
      hstays (List.mem_append_left more hmem),
    h.waits, h.answered⟩

/-- Only the exchanges and the number of those that came matter. -/
theorem Custody.of_eq {t' : Stage ο} (h : t.Custody past)
    (hheld : t'.session.held = t.session.held) (hterms : t'.session.terms = t.session.terms)
    (hclosed : t'.session.closed = t.session.closed) (hreleased : t'.released = t.released)
    (hentered : t'.entered = t.entered) (hadmitted : t'.admitted = t.admitted) :
    t'.Custody past := by
  refine ⟨?_, ?_, ?_, ?_, ?_, ?_⟩
  · rw [hheld, hreleased]; exact h.distinct
  · rw [hheld, hreleased, hentered]; exact h.numbered
  · rw [hheld, hreleased, hadmitted]; exact h.known
  · rw [hheld, hreleased, hadmitted]; exact h.listens
  · rw [hheld, hadmitted]; exact h.waits
  · rw [hreleased, hadmitted]
    intro x hx hadm hlistens
    obtain ⟨r, hr, hanswers⟩ := h.answered x hx hadm hlistens
    exact ⟨r, hr, hanswers.mono hterms (by simp [hclosed])⟩

/-- The stage on which `x` waits behind the others for what becomes of it. -/
def queue (t : Stage ο) (x : Exchange) (admitted : List Nat) : Stage ο :=
  { t with
    session := { t.session with held := t.session.held ++ [x] }
    entered := t.entered + 1
    admitted }

/-- A new exchange joins the queue, and counts as admitted only if it can still be answered. -/
theorem Custody.queue (h : t.Custody past) {x : Exchange} (hkey : x.key = t.entered)
    {admitted : List Nat} (hadmitted : admitted = t.admitted ∨
      admitted = t.entered :: t.admitted ∧ x.Waits ∧ x.listening = true) :
    (t.queue x admitted).Custody past := by
  have hold : ∀ y ∈ t.session.held ++ t.released, y.key ∈ admitted → y.key ∈ t.admitted := by
    intro y hy hadm
    rcases hadmitted with rfl | ⟨rfl, -⟩
    · exact hadm
    · have hlt := h.numbered y hy
      exact (List.mem_cons.mp hadm).resolve_left (by omega)
  have hnew : x.key ∈ admitted → x.Waits ∧ x.listening = true := by
    intro hadm
    rcases hadmitted with rfl | ⟨-, hx⟩
    · obtain ⟨y, hy, hykey⟩ := List.mem_map.mp (h.known _ hadm)
      have hlt := h.numbered y hy
      omega
    · exact hx
  have hperm : (t.session.held ++ [x] ++ t.released).Perm
      (x :: (t.session.held ++ t.released)) := by
    rw [List.append_assoc]
    exact List.perm_middle
  refine ⟨(hperm.map Exchange.key).nodup_iff.mpr (List.nodup_cons.mpr ⟨fun hx => ?_, h.distinct⟩),
    fun y hy => ?_, fun key hadm => (hperm.map Exchange.key).mem_iff.mpr ?_,
    fun y hy hadm hstays => ?_, fun y hy hadm => ?_, fun y hy hadm hlistens => ?_⟩
  · obtain ⟨y, hy, hykey⟩ := List.mem_map.mp hx
    have hlt := h.numbered y hy
    omega
  · rcases List.mem_cons.mp (hperm.mem_iff.mp hy) with rfl | hy
    · show y.key < t.entered + 1
      omega
    · exact Nat.lt_succ_of_lt (h.numbered y hy)
  · rcases hadmitted with rfl | ⟨rfl, -⟩
    · exact List.mem_cons_of_mem _ (h.known key hadm)
    · rcases List.mem_cons.mp hadm with rfl | hadm
      · exact List.mem_cons.mpr (Or.inl hkey.symm)
      · exact List.mem_cons_of_mem _ (h.known key hadm)
  · rcases List.mem_cons.mp (hperm.mem_iff.mp hy) with rfl | hy
    · exact (hnew hadm).2
    · exact h.listens y hy (hold y hy hadm) hstays
  · rcases List.mem_append.mp hy with hy | hy
    · exact h.waits y hy (hold y (List.mem_append_left _ hy) hadm)
    · obtain rfl := List.mem_singleton.mp hy
      exact (hnew hadm).1
  · exact h.answered y hy (hold y (List.mem_append_right _ hy) hadm) hlistens

/-- An operation that accounts for all exchanges keeps custody of them. -/
theorem Custody.absorb (h : t.Custody past) {refused : Nat → Prop} {r : Report ο α}
    (hkeeps : r.Keeps t.session.held refused) (hterms : r.session.terms = t.session.terms)
    (hclosed : t.session.closed = true → r.session.closed = true)
    (hrefused : ∀ key ∈ t.admitted, ¬refused key) (discharged : List ο) :
    (t.absorb r discharged).Custody past := by
  have hperm : ((r.session.held ++ (t.released ++ r.released)).map Exchange.key).Perm
      ((t.session.held ++ t.released).map Exchange.key) := by
    have hkeys := hkeeps.keys.append_right (t.released.map Exchange.key)
    refine List.Perm.trans ?_ (by simpa using hkeys)
    simp only [List.map_append]
    exact List.Perm.append_left _ List.perm_append_comm
  -- every exchange was there before, and listened if it listens
  have horigin : ∀ y ∈ r.session.held ++ (t.released ++ r.released), y.key ∈ t.admitted →
      ∃ x ∈ t.session.held ++ t.released, y.key = x.key ∧ y.listening = x.listening := by
    intro y hy hadm
    rcases List.mem_append.mp hy with hy | hy
    · obtain ⟨x, hx, hkey, hlistening, -⟩ := hkeeps.held y hy
      exact ⟨x, List.mem_append_left _ hx, hkey, hlistening⟩
    · rcases List.mem_append.mp hy with hy | hy
      · exact ⟨y, List.mem_append_right _ hy, rfl, rfl⟩
      · obtain ⟨x, hx, hparts⟩ := (hkeeps.released y hy).resolve_left (hrefused _ hadm)
        exact ⟨x, List.mem_append_left _ hx, hparts.key, hparts.listening⟩
  refine ⟨hperm.nodup_iff.mpr h.distinct, fun y hy => ?_,
    fun key hadm => hperm.mem_iff.mpr (h.known key hadm), fun y hy hadm hstays => ?_,
    fun y hy hadm => ?_, fun y hy hadm hlistens => ?_⟩
  · obtain ⟨x, hx, hkey⟩ := List.mem_map.mp (hperm.mem_iff.mp (List.mem_map_of_mem hy))
    show y.key < t.entered
    rw [← hkey]
    exact h.numbered x hx
  · obtain ⟨x, hx, hkey, hlistening⟩ := horigin y hy hadm
    rw [hlistening]
    exact h.listens x hx (hkey ▸ hadm) (hkey ▸ hstays)
  · obtain ⟨x, hx, hkey, -, hwaits⟩ := hkeeps.held y hy
    exact hwaits (h.waits x hx (hkey ▸ hadm))
  · rcases List.mem_append.mp hy with hy | hy
    · obtain ⟨resp, hresp, hanswers⟩ := h.answered y hy hadm hlistens
      exact ⟨resp, hresp, hanswers.mono hterms hclosed⟩
    · obtain ⟨x, hx, hparts⟩ := (hkeeps.released y hy).resolve_left (hrefused _ hadm)
      exact hparts.answered (h.waits x hx (hparts.key ▸ hadm))
        (hparts.listening.symm.trans hlistens)

theorem Custody.depart (h : t.Custody past) (key : Nat) :
    (t.depart key).Custody (past ++ [.deed (.depart key)]) := by
  obtain ⟨g, hg⟩ : ∃ g : Exchange → Exchange,
      g = fun x => if x.key = key then x.depart else x := ⟨_, rfl⟩
  have hkey : ∀ x, (g x).key = x.key := by
    intro x
    rw [hg]
    dsimp only
    split <;> rfl
  have hother : ∀ x, x.key ≠ key → g x = x := fun x hne => by simp [hg, hne]
  have hall : (t.depart key).session.held ++ (t.depart key).released =
      (t.session.held ++ t.released).map g := by
    rw [List.map_append, hg]
    rfl
  have hkeys : ((t.session.held ++ t.released).map g).map Exchange.key =
      (t.session.held ++ t.released).map Exchange.key :=
    Session.map_map_of_kept hkey _
  refine ⟨?_, ?_, ?_, ?_, fun y hy hadm => ?_, fun y hy hadm hlistens => ?_⟩
  · rw [hall, hkeys]
    exact h.distinct
  · rw [hall]
    intro y hy
    obtain ⟨x, hx, rfl⟩ := List.mem_map.mp hy
    rw [hkey]
    exact h.numbered x hx
  · rw [hall, hkeys]
    exact h.known
  · -- who has not left after this deed is somebody else
    rw [hall]
    intro y hy hadm hstays
    obtain ⟨x, hx, rfl⟩ := List.mem_map.mp hy
    rw [hkey] at hadm hstays
    simp only [List.mem_append, List.mem_singleton, Beat.deed.injEq, Session.Deed.depart.injEq,
      not_or] at hstays
    rw [hother x hstays.2]
    exact h.listens x hx hadm hstays.1
  · obtain ⟨x, hx, hgx⟩ := List.mem_map.mp hy
    have hw : x.key ∈ t.admitted → x.Waits := h.waits x hx
    rw [← hgx] at hadm ⊢
    split at hadm <;> rename_i heq
    · rw [if_pos heq]
      exact (hw hadm).depart
    · rw [if_neg heq]
      exact hw hadm
  · obtain ⟨x, hx, hgx⟩ := List.mem_map.mp hy
    by_cases heq : x.key = key
    · rw [← hgx, if_pos heq] at hlistens
      cases hlistens
    · rw [if_neg heq] at hgx
      subst hgx
      exact h.answered x hx hadm hlistens

theorem Custody.enter (h : t.Custody past) (rid : Nat) (secure : Bool)
    (acts : List Exchange.Act) (poll : Bool) (now : Nat) :
    (t.perform (.enter rid secure acts poll now)).Custody past := by
  obtain ⟨x, hx⟩ : ∃ x, x = (Exchange.fresh t.entered rid secure).after acts := ⟨_, rfl⟩
  have hkey : x.key = t.entered := by simp [hx, Exchange.fresh]
  obtain ⟨admitted, hadmitted⟩ : ∃ admitted, admitted =
      if (t.session.accept x poll now).answer.isOk && x.isAnswerable then t.entered :: t.admitted
      else t.admitted := ⟨_, rfl⟩
  have hqueued : (t.queue x admitted).Custody past := by
    refine h.queue hkey ?_
    rw [hadmitted]
    split
    · rename_i hin
      have hfit : x.isAnswerable = true := by
        rw [Bool.and_eq_true] at hin
        exact hin.2
      have hw : x.Waits := by
        rw [hx] at hfit ⊢
        exact Exchange.waits_of_isAnswerable hfit
      exact Or.inr ⟨rfl, hw, hw.isAnswerable_eq.symm.trans hfit⟩
    · exact Or.inl rfl
  have hrefused : ∀ key ∈ admitted,
      ¬(key = x.key ∧ (t.session.accept x poll now).answer.isOk = false) := by
    intro key hadm hlost
    obtain ⟨rfl, hfailed⟩ := hlost
    rw [hadmitted, hfailed] at hadm
    obtain ⟨y, hy, hykey⟩ := List.mem_map.mp (h.known _ hadm)
    have hlt := h.numbered y hy
    omega
  have hfits := t.session.fits_accept x poll now
  have hafter := hqueued.absorb (t.session.keeps_accept x poll now) hfits.terms
    (fun hc => hfits.closed.trans hc) hrefused []
  simp only [perform, ← hx, ← hadmitted]
  exact hafter

/-- Every deed but a departure keeps custody, and a departure does so for those who stay. -/
theorem Custody.perform (h : t.Custody past) (d : Session.Deed ο) :
    (t.perform d).Custody (past ++ [.deed d]) := by
  cases d with
  | enter rid secure acts poll now => exact (h.enter rid secure acts poll now).later _
  | deliver stanza =>
      have hfits := t.session.fits_deliver stanza
      exact (h.absorb (t.session.keeps_deliver stanza) hfits.terms
        (fun hc => hfits.closed.trans hc) (fun _ _ hno => hno) []).later _
  | release =>
      have hfits := t.session.fits_release
      exact (h.absorb t.session.keeps_release hfits.terms (fun hc => hfits.closed.trans hc)
        (fun _ _ hno => hno) []).later _
  | close shutdown =>
      exact (h.absorb (t.session.keeps_close shutdown) (t.terms_perform (.close shutdown))
        (fun _ => t.session.closed_close shutdown) (fun _ _ hno => hno) _).later _
  | depart key => exact h.depart key
  | observe o | unobserve ticket =>
      refine Custody.later ?_ _
      exact h.of_eq rfl rfl rfl rfl rfl rfl

theorem Custody.step (h : t.Custody past) (b : Beat ο) : (t.step b).Custody (past ++ [b]) := by
  cases b with
  | call =>
      refine Custody.later ?_ _
      simp only [Stage.step, Stage.call]
      split
      · exact h
      · exact h.of_eq rfl rfl rfl rfl rfl rfl
  | deed d =>
      simp only [Stage.step]
      split
      · exact h.later _
      · exact h.perform d

theorem Custody.play (h : t.Custody past) (beats : List (Beat ο)) :
    (t.play beats).Custody (past ++ beats) :=
  play_past_induction (P := fun past t => t.Custody past) (fun _ _ b ht => ht.step b) h beats

/-! ### What was let go stays as it is -/

/-- An exchange that was let go is touched by nobody but its requester, who may leave. -/
theorem released_step (t : Stage ο) (b : Beat ο) {x : Exchange} (hx : x ∈ t.released) :
    ∃ y ∈ (t.step b).released, y.key = x.key ∧ y.mailbox = x.mailbox := by
  have hkeep : x ∈ t.released → ∃ y ∈ t.released, y.key = x.key ∧ y.mailbox = x.mailbox :=
    fun hx => ⟨x, hx, rfl, rfl⟩
  have hmore : ∀ more : List Exchange,
      ∃ y ∈ t.released ++ more, y.key = x.key ∧ y.mailbox = x.mailbox :=
    fun more => ⟨x, List.mem_append_left more hx, rfl, rfl⟩
  cases b with
  | call =>
      simp only [step, call]
      split <;> exact hkeep hx
  | deed d =>
      simp only [step]
      split
      · exact hkeep hx
      · cases d with
        | enter | deliver | release | close => exact hmore _
        | observe | unobserve => exact hkeep hx
        | depart key =>
            refine ⟨_, List.mem_map_of_mem hx, ?_, ?_⟩ <;> split <;> rfl

theorem released_play (t : Stage ο) (beats : List (Beat ο)) {x : Exchange}
    (hx : x ∈ t.released) :
    ∃ y ∈ (t.play beats).released, y.key = x.key ∧ y.mailbox = x.mailbox := by
  induction beats generalizing t x with
  | nil => exact ⟨x, hx, rfl, rfl⟩
  | cons b beats ih =>
      obtain ⟨y, hy, hkey, hmailbox⟩ := released_step t b hx
      obtain ⟨z, hz, hzkey, hzmailbox⟩ := ih (t.step b) hy
      exact ⟨z, hz, hzkey.trans hkey, hzmailbox.trans hmailbox⟩

/-! ### Where an exchange is -/

/-- The exchanges with a key that are held. -/
def heldAs (t : Stage ο) (key : Nat) : List Exchange :=
  t.session.held.filter fun x => x.key == key

/-- The exchanges with a key that were let go. -/
def releasedAs (t : Stage ο) (key : Nat) : List Exchange :=
  t.released.filter fun x => x.key == key

/-- A list with a key for each exchange has only one exchange with a key. -/
theorem filter_key_eq {xs : List Exchange} (hd : (xs.map Exchange.key).Nodup) {x : Exchange}
    (hx : x ∈ xs) : xs.filter (fun y => y.key == x.key) = [x] := by
  induction xs with
  | nil => cases hx
  | cons y ys ih =>
      rw [List.map_cons, List.nodup_cons] at hd
      rcases List.mem_cons.mp hx with rfl | hx
      · have hnone : ys.filter (fun y => y.key == x.key) = [] :=
          List.filter_eq_nil_iff.mpr fun z hz heq =>
            hd.1 (List.mem_map.mpr ⟨z, hz, by simpa using heq⟩)
        simp [hnone]
      · have hne : y.key ≠ x.key := fun heq => hd.1 (heq ▸ List.mem_map_of_mem hx)
        simpa [hne] using ih hd.2 hx

theorem Custody.heldAs_append_releasedAs (h : t.Custody past) {x : Exchange}
    (hx : x ∈ t.session.held ++ t.released) :
    t.heldAs x.key ++ t.releasedAs x.key = [x] := by
  rw [heldAs, releasedAs, ← List.filter_append]
  exact filter_key_eq h.distinct hx

theorem Custody.of_held (h : t.Custody past) {x : Exchange} (hx : x ∈ t.session.held) :
    t.heldAs x.key = [x] ∧ t.releasedAs x.key = [] := by
  have hmem : x ∈ t.heldAs x.key := List.mem_filter.mpr ⟨hx, by simp⟩
  rcases List.append_eq_singleton_iff.mp
    (h.heldAs_append_releasedAs (List.mem_append_left _ hx)) with ⟨hnone, -⟩ | hone
  · rw [hnone] at hmem
    cases hmem
  · exact hone

theorem Custody.of_released (h : t.Custody past) {x : Exchange} (hx : x ∈ t.released) :
    t.heldAs x.key = [] ∧ t.releasedAs x.key = [x] := by
  have hmem : x ∈ t.releasedAs x.key := List.mem_filter.mpr ⟨hx, by simp⟩
  rcases List.append_eq_singleton_iff.mp
    (h.heldAs_append_releasedAs (List.mem_append_right _ hx)) with hone | ⟨-, hnone⟩
  · exact hone
  · rw [hnone] at hmem
    cases hmem

/-- **No request is forgotten, and none is answered twice.** Whatever happens to a session and
around it: a request that was admitted while it could be answered, and whose requester did not
leave since, is held once and waits for its answer, or it is not held and its requester has been
given one answer, which stays the only one whatever happens later. The answer brings stanzas, or
is empty because there is a bound, or tells of the end of the session. Its requester never learns
that there will be none. -/
theorem admitted_held_or_answered (id : StreamId) (terms : Terms) (sink : Sink)
    (observers : List (Nat × ο)) (nextTicket : Nat) (beats : List (Beat ο)) (key : Nat)
    (hadmitted : key ∈ ((start id terms sink observers nextTicket).play beats).admitted)
    (hstays : .deed (.depart key) ∉ beats) :
    let t := (start id terms sink observers nextTicket).play beats
    (∃ x, t.heldAs key = [x] ∧ t.releasedAs key = [] ∧ x.mailbox = .vacant ∧
      x.outcome? = none) ∨
    (∃ x r, t.heldAs key = [] ∧ t.releasedAs key = [x] ∧ x.mailbox = .holding r ∧
      x.outcome? = some (.ok r) ∧ t.session.Answers r.body ∧
      ∀ later, ∃ y, (t.play later).heldAs key = [] ∧ (t.play later).releasedAs key = [y] ∧
        y.mailbox = .holding r) := by
  intro t
  have h : t.Custody beats := (custody_start id terms sink observers nextTicket).play beats
  obtain ⟨x, hx, rfl⟩ := List.mem_map.mp (h.known key hadmitted)
  have hlistens : x.listening = true := h.listens x hx hadmitted hstays
  rcases List.mem_append.mp hx with hx | hx
  · left
    have hw := h.waits x hx hadmitted
    obtain ⟨hheld, hreleased⟩ := h.of_held hx
    exact ⟨x, hheld, hreleased, hw.vacant, by simp [Exchange.outcome?, hw.vacant, hw.present]⟩
  · right
    obtain ⟨r, hr, hanswers⟩ := h.answered x hx hadmitted hlistens
    obtain ⟨hheld, hreleased⟩ := h.of_released hx
    refine ⟨x, r, hheld, hreleased, hr, by simp [Exchange.outcome?, hr], hanswers,
      fun later => ?_⟩
    obtain ⟨y, hy, hkey, hmailbox⟩ := released_play t later hx
    have hlater := (h.play later).of_released hy
    rw [hkey] at hlater
    exact ⟨y, hlater.1, hlater.2, hmailbox.trans hr⟩

/-- Two requests are brought in. -/
def twoRequests : List (Beat Nat) :=
  [.deed (.enter 1 false [] false 0), .deed (.enter 2 false [] false 0)]

/-- Under a bound of one the second request pushes out the first, which has its answer then. -/
theorem first_of_two_answered :
    let t := (start ⟨"a"⟩ { hold := some 1 } .recorded [] 0).play twoRequests
    0 ∈ t.admitted ∧ .deed (.depart 0) ∉ twoRequests ∧
    ∃ x r, t.heldAs 0 = [] ∧ t.releasedAs 0 = [x] ∧ x.mailbox = .holding r ∧
      x.outcome? = some (.ok r) ∧ t.session.Answers r.body ∧
      ∀ later, ∃ y, (t.play later).heldAs 0 = [] ∧ (t.play later).releasedAs 0 = [y] ∧
        y.mailbox = .holding r := by
  have hadmitted :
      0 ∈ ((start ⟨"a"⟩ { hold := some 1 } .recorded [] 0).play twoRequests).admitted := by
    decide
  have hstays : .deed (.depart 0) ∉ twoRequests := by simp [twoRequests]
  refine ⟨hadmitted, hstays, ?_⟩
  rcases admitted_held_or_answered ⟨"a"⟩ { hold := some 1 } .recorded [] 0 twoRequests 0 hadmitted
    hstays with ⟨x, hheld, -⟩ | hanswered
  · have hnone : ((start ⟨"a"⟩ { hold := some 1 } .recorded [] 0).play twoRequests).heldAs 0 =
        [] := by decide
    rw [hnone] at hheld
    cases hheld
  · exact hanswered

end Stage

end HttpBinding
