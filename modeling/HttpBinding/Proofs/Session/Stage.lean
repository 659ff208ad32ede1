import HttpBinding.Proofs.Session.Ledger

/-!
# HttpBinding.Proofs.Session.Stage

A session while those around it act, also in the middle of its operations.

An operation changes a session at once, but the calls that it leads to are made one after the
other: observers hear of events or of the end, and the sink is given stanzas. On a `Stage` these
calls are `due` until they are made, and whoever is called may act before the next one is made.
A `Beat` is one call or one deed, so a list of beats is a run with everything that happens between
operations and inside calls. Design points:

* An open session is busy while calls are due: it is locked until all observers have heard, so
  operations have to wait. Observers may come and go meanwhile, and requesters may leave.
* A session that has ended is not locked. Whoever is called may perform any operation on it, and
  the calls that this leads to come before those that were due already.
* A stage keeps the exchanges that the session has let go, since their requesters may still leave.

`Sound` holds on every stage (`Upright.play`), so it holds whenever somebody can look at the
session.
-/

namespace HttpBinding

/-- One call that a session makes on somebody else. -/
inductive Notice (ο : Type) where
  /-- An observer hears of an event. -/
  | event (e : Event) (o : ο)
  /-- An observer hears of the end of the session. -/
  | ended (o : ο)
  /-- The sink is given a stanza that is handed on. -/
  | handedOn (stanza : Stanza)
deriving DecidableEq, Repr

/-- A call that was made. -/
structure Hearing (ο : Type) where
  notice : Notice ο
  /-- The session at the time of the call. -/
  session : Session ο
deriving DecidableEq, Repr

/-- The calls that an operation leads to, in order, where `discharged` are the observers that hear
of the end. -/
def Report.calls {ο α : Type} (r : Report ο α) (discharged : List ο) : List (Notice ο) :=
  r.failedOver.map .handedOn ++ (r.notices.map fun n => .event n.1 n.2) ++ discharged.map .ended

/-- A session with those who have to do with it. -/
structure Stage (ο : Type) where
  session : Session ο
  /-- How many exchanges were brought in. The next one gets this number as its key. -/
  entered : Nat := 0
  /-- The keys of the exchanges that could still be answered when they were admitted. -/
  admitted : List Nat := []
  /-- The exchanges that the session has let go, as they are now. -/
  released : List Exchange := []
  /-- The calls that are still to be made. -/
  due : List (Notice ο) := []
  /-- The calls that were made, in order. -/
  heard : List (Hearing ο) := []
deriving DecidableEq, Repr

/-- One thing that happens on a stage. -/
inductive Beat (ο : Type) where
  /-- The next call that is due is made. -/
  | call
  | deed (d : Session.Deed ο)

/-- The beat is an operation on the session. -/
def Beat.isOperation {ο : Type} : Beat ο → Bool
  | .deed (.enter ..) | .deed (.deliver _) | .deed .release | .deed (.close _) => true
  | _ => false

namespace Stage

variable {ο α : Type}

/-- The stage of a session that has just begun, with the observers that it has from the start. -/
def start (id : StreamId) (terms : Terms) (sink : Sink) (observers : List (Nat × ο))
    (nextTicket : Nat) : Stage ο where
  session := { id, terms, sink, observers, nextTicket }

/-- An open session is locked while observers hear of its events. -/
def isBusy (t : Stage ο) : Bool := !t.session.closed && !t.due.isEmpty

/-- Stanzas are being given to the sink. -/
def isHandingOn (t : Stage ο) : Bool :=
  match t.due with
  | .handedOn _ :: _ => true
  | _ => false

/-- A deed cannot be done now. A busy session performs no operation, and a sink does not change who
observes the session. -/
def defers (t : Stage ο) : Session.Deed ο → Bool
  | .enter .. | .deliver _ | .release | .close _ => t.isBusy
  | .observe _ | .unobserve _ => t.isHandingOn
  | .depart _ => false

/-- Puts what an operation has done into effect; its calls are due next. -/
def absorb (t : Stage ο) (r : Report ο α) (discharged : List ο) : Stage ο :=
  { t with
    session := r.session
    released := t.released ++ r.released
    due := r.calls discharged ++ t.due }

/-- The requester of an exchange stops waiting, wherever the exchange is. -/
def depart (t : Stage ο) (key : Nat) : Stage ο :=
  { t with
    session := t.session.depart key
    released := t.released.map fun x => if x.key = key then x.depart else x }

/-- Does a deed. -/
def perform (t : Stage ο) : Session.Deed ο → Stage ο
  | .enter rid secure past poll now =>
    let x := (Exchange.fresh t.entered rid secure).after past
    let r := t.session.accept x poll now
    { t.absorb r [] with
      entered := t.entered + 1
      admitted := if r.answer.isOk && x.isAnswerable then t.entered :: t.admitted else t.admitted }
  | .deliver stanza => t.absorb (t.session.deliver stanza) []
  | .release => t.absorb t.session.release []
  | .close shutdown => t.absorb (t.session.close shutdown) (t.session.close shutdown).answer
  | .depart key => t.depart key
  | .observe o => { t with session := (t.session.observe o).2 }
  | .unobserve ticket => { t with session := (t.session.unobserve ticket).2 }

/-- Makes the next call that is due. -/
def call (t : Stage ο) : Stage ο :=
  match t.due with
  | [] => t
  | notice :: due => { t with due, heard := t.heard ++ [⟨notice, t.session⟩] }

/-- Lets one thing happen; a deed that cannot be done now is not done. -/
def step (t : Stage ο) : Beat ο → Stage ο
  | .call => t.call
  | .deed d => if t.defers d then t else t.perform d

/-- Lets things happen, one after the other. -/
def play (t : Stage ο) (beats : List (Beat ο)) : Stage ο := beats.foldl step t

theorem play_append (t : Stage ο) (beats more : List (Beat ο)) :
    t.play (beats ++ more) = (t.play beats).play more :=
  List.foldl_append

/-- A property that survives every call and every deed survives every run. -/
theorem play_induction {P : Stage ο → Prop} (hcall : ∀ t, P t → P t.call)
    (hperform : ∀ t d, P t → t.defers d = false → P (t.perform d)) {t : Stage ο} (h : P t)
    (beats : List (Beat ο)) : P (t.play beats) := by
  refine List.foldlRecOn beats step h fun t ht b _ => ?_
  cases b with
  | call => exact hcall t ht
  | deed d =>
      simp only [step]
      cases hd : t.defers d with
      | true => exact ht
      | false => exact hperform t d ht hd

/-- A property of what has happened and what it has led to survives every run if it survives every
beat. -/
theorem play_past_induction {P : List (Beat ο) → Stage ο → Prop}
    (hstep : ∀ past t b, P past t → P (past ++ [b]) (t.step b)) {past : List (Beat ο)}
    {t : Stage ο} (h : P past t) (beats : List (Beat ο)) : P (past ++ beats) (t.play beats) := by
  induction beats generalizing past t with
  | nil => simpa [play] using h
  | cons b beats ih =>
      have hrest := ih (hstep past t b h)
      rw [List.append_assoc] at hrest
      exact hrest

/-! ### Whoever is called finds the session sound -/

theorem session_call (t : Stage ο) : t.call.session = t.session := by
  unfold call; split <;> rfl

theorem released_call (t : Stage ο) : t.call.released = t.released := by
  unfold call; split <;> rfl

/-- The terms stay as they were agreed on. -/
theorem terms_perform (t : Stage ο) (d : Session.Deed ο) :
    (t.perform d).session.terms = t.session.terms := by
  cases d with
  | enter rid secure past poll now => exact (Session.fits_accept ..).terms
  | deliver stanza => exact (Session.fits_deliver ..).terms
  | release => exact (Session.fits_release _).terms
  | close shutdown =>
      show (t.session.close shutdown).session.terms = t.session.terms
      rcases Session.close_cases t.session shutdown with ⟨-, heq⟩ | ⟨-, heq⟩ <;> rw [heq]
  | depart | observe | unobserve => rfl

theorem sound_perform {t : Stage ο} (h : t.session.Sound) (d : Session.Deed ο) :
    (t.perform d).session.Sound := by
  cases d with
  | enter rid secure past poll now => exact h.accept ..
  | deliver stanza => exact h.deliver stanza
  | release => exact h.release
  | close shutdown => exact h.close shutdown
  | depart key => exact h.map_held _
  | observe o | unobserve ticket => exact h.of_eq rfl rfl rfl rfl rfl

/-- The session is sound and keeps its terms, now and whenever a call was made. -/
structure Upright (terms : Terms) (t : Stage ο) : Prop where
  agreed : t.session.terms = terms
  sound : t.session.Sound
  heard : ∀ e ∈ t.heard, e.session.terms = terms ∧ e.session.Sound

theorem heard_perform (t : Stage ο) (d : Session.Deed ο) : (t.perform d).heard = t.heard := by
  cases d <;> rfl

theorem Upright.perform {terms : Terms} {t : Stage ο} (h : t.Upright terms)
    (d : Session.Deed ο) : (t.perform d).Upright terms := by
  refine ⟨(t.terms_perform d).trans h.agreed, sound_perform h.sound d, ?_⟩
  rw [heard_perform]
  exact h.heard

theorem Upright.call {terms : Terms} {t : Stage ο} (h : t.Upright terms) :
    t.call.Upright terms := by
  refine ⟨by rw [session_call]; exact h.agreed, by rw [session_call]; exact h.sound, ?_⟩
  unfold Stage.call
  split
  · exact h.heard
  · intro e he
    rcases List.mem_append.mp he with he | he
    · exact h.heard e he
    · obtain rfl := List.mem_singleton.mp he
      exact ⟨h.agreed, h.sound⟩

theorem Upright.play {terms : Terms} {t : Stage ο} (h : t.Upright terms)
    (beats : List (Beat ο)) : (t.play beats).Upright terms :=
  play_induction (fun _ ht => ht.call) (fun _ d ht _ => ht.perform d) h beats

theorem sound_start (id : StreamId) (terms : Terms) (sink : Sink) (observers : List (Nat × ο))
    (nextTicket : Nat) : (start id terms sink observers nextTicket).session.Sound :=
  (Session.sound_new id terms sink).of_eq rfl rfl rfl rfl rfl

theorem upright_start (id : StreamId) (terms : Terms) (sink : Sink)
    (observers : List (Nat × ο)) (nextTicket : Nat) :
    (start id terms sink observers nextTicket).Upright terms :=
  ⟨rfl, sound_start .., by simp [start]⟩

/-- **A session is sound whenever somebody can look at it.** After any run, and at each call made
in the course of it: nothing is buffered while something is held, the bound agreed on is kept,
what observers may read agrees with the session, and an ended session is empty. -/
theorem sound_at_every_call (id : StreamId) (terms : Terms) (sink : Sink)
    (observers : List (Nat × ο)) (nextTicket : Nat) (beats : List (Beat ο)) :
    let t := (start id terms sink observers nextTicket).play beats
    (t.session.terms = terms ∧ t.session.Sound) ∧
    ∀ e ∈ t.heard, e.session.terms = terms ∧ e.session.Sound := by
  have h := (upright_start id terms sink observers nextTicket).play beats
  exact ⟨⟨h.agreed, h.sound⟩, h.heard⟩

end Stage

end HttpBinding
