import HttpBinding.Proofs.Hub.Steps

/-!
# HttpBinding.Proofs.Hub.Echoes

What may be written down while an operation on a session is under way.

An operation writes down what recorders hear and do, what is handed on, that the server is told of
an end, and what the server demands. That is all, however deep the calls go: a recorder may end its
session, the server may demand the end of it in any call, and the end of one session may be demanded
while another one ends. In particular only the registry's service gives stanzas to the server
(`Note.isSend`).

None of this asks for a hub that is in order, so the lemmas have no hypotheses but those about the
notes themselves. The recursion is that of `closeWithin`.
-/

namespace HttpBinding

/-- The note is one that an operation on a session may lead to. -/
def Note.isEcho : Note → Bool
  | .closed _ | .demand .. | .failover _ | .heard .. | .acted .. => true
  | _ => false

/-- The note says that the server was given a stanza of the client. -/
def Note.isSend : Note → Bool
  | .send _ => true
  | _ => false

theorem Note.isSend_of_isEcho {note : Note} (h : note.isEcho = true) : note.isSend = false := by
  cases note <;> first | rfl | cases h

namespace Hub

variable {h h' h'' : Hub}

/-- From `h` to `h'` nothing was written down but echoes, and no time has passed. -/
structure Echoes (h h' : Hub) : Prop where
  now : h'.now = h.now
  notes : ∃ es, h'.journal = h.journal ++ es ∧ ∀ e ∈ es, e.note.isEcho = true

theorem Echoes.of_eq (hnow : h'.now = h.now) (hjournal : h'.journal = h.journal) : Echoes h h' :=
  ⟨hnow, [], by rw [hjournal, List.append_nil], by simp⟩

theorem Echoes.refl (h : Hub) : Echoes h h := .of_eq rfl rfl

theorem Echoes.trans (he : Echoes h h') (he' : Echoes h' h'') : Echoes h h'' := by
  obtain ⟨es, hes, hecho⟩ := he.notes
  obtain ⟨more, hmore, hecho'⟩ := he'.notes
  refine ⟨he'.now.trans he.now, es ++ more, by rw [hmore, hes, List.append_assoc],
    fun e hmem => ?_⟩
  rcases List.mem_append.mp hmem with hmem | hmem
  · exact hecho e hmem
  · exact hecho' e hmem

theorem Echoes.foldl {α : Type} {f : Hub → α → Hub} (hf : ∀ h a, Echoes h (f h a))
    (as : List α) (h : Hub) : Echoes h (as.foldl f h) := by
  induction as generalizing h with
  | nil => exact .refl h
  | cons a as ih => exact (hf h a).trans (ih (f h a))

theorem echoes_write (h : Hub) (id : StreamId) {note : Note} (hecho : note.isEcho = true) :
    Echoes h (h.write id note) :=
  ⟨rfl, _, rfl, by simpa using hecho⟩

theorem echoes_arm (h : Hub) (t k : Nat) : Echoes h (h.arm t k) := by
  obtain ⟨timers, ready, parked, heq⟩ := arm_eq h t k
  rw [heq]
  exact .of_eq rfl rfl

theorem echoes_cancel (h : Hub) (t k : Nat) : Echoes h (h.cancel t k) := by
  obtain ⟨timers, ready, parked, heq⟩ := cancel_eq h t k
  rw [heq]
  exact .of_eq rfl rfl

theorem echoes_absorb {α : Type} (h : Hub) (k : Nat) (r : Report Observer α) :
    Echoes h (h.absorb k r) := by
  have hset : Echoes h { h.setSession k r.session with loose := h.loose ++ r.released } :=
    .of_eq rfl rfl
  have hwoken := hset.trans (Echoes.foldl
    (f := fun b (x : Exchange) => b.wake (Job.awaitsAnswer x.key)) (fun _ _ => .of_eq rfl rfl)
    r.released _)
  unfold absorb
  split
  · exact hwoken.trans (Echoes.foldl (fun b _ => echoes_write b _ rfl) _ _)
  · exact hwoken

/-! ### Recorders -/

theorem echoes_writeHeard (h : Hub) (k : Nat) (occasion : Occasion) (label : String)
    (rid : Option Nat) : Echoes h (h.writeHeard k occasion label rid) := by
  unfold writeHeard
  split
  · exact .refl h
  · exact echoes_write h _ rfl

theorem echoes_byTimer {f : Hub → Nat → Nat → Hub} (hf : ∀ h t k, Echoes h (f h t k)) (h : Hub)
    (timer session : String) : Echoes h (h.byTimer timer session f).1 := by
  unfold byTimer
  split
  · exact hf ..
  · exact .refl h

theorem echoes_ifEnded {α : Type} (h : Hub) (k : Nat) (op : Session Observer → Report Observer α)
    (answer : α → Answer) : Echoes h (h.ifEnded k op answer).1 := by
  unfold ifEnded
  split
  · exact .refl h
  · split
    · exact echoes_absorb ..
    · exact .refl h

theorem echoes_act (h : Hub) (k : Nat) (a : Action) : Echoes h (h.act k a).1 := by
  cases a with
  | remove label =>
      simp only [act, removeRecorder]
      split <;> exact .of_eq rfl rfl
  | add label =>
      simp only [act, addRecorder]
      split <;> exact .of_eq rfl rfl
  | deliver | release | close => exact echoes_ifEnded ..
  | enter rid poll =>
      have htaken : Echoes h ((h.newExchange rid true).1.takeLoose h.nextExchange) :=
        .of_eq rfl rfl
      exact htaken.trans (echoes_ifEnded ..)
  | arm timer session => exact echoes_byTimer echoes_arm ..
  | cancel timer session => exact echoes_byTimer echoes_cancel ..

theorem echoes_actAll (h : Hub) (k : Nat) (occasion : Occasion) (label : String)
    (actions : List (Occasion × Action)) : Echoes h (h.actAll k occasion label actions) := by
  refine Echoes.foldl (fun b a => ?_) actions h
  have hdone := echoes_act b k a.2
  split
  · split
    · rename_i heq _
      rw [heq] at hdone
      exact hdone.trans (echoes_write _ _ rfl)
    · rename_i heq _
      rw [heq] at hdone
      exact hdone
  · exact .refl b

theorem echoes_recorder (h : Hub) (k : Nat) (occasion : Occasion) (label : String)
    (rid : Option Nat) (actions : List (Occasion × Action)) :
    Echoes h ((h.writeHeard k occasion label rid).actAll k occasion label actions) :=
  (echoes_writeHeard ..).trans (echoes_actAll ..)

theorem echoes_hear (k : Nat) (h : Hub) (notice : Event × Observer) :
    Echoes h (hear k h notice) := by
  obtain ⟨e, o⟩ := notice
  cases o with
  | silent => exact .refl h
  | steward =>
      cases e with
      | opened rid => exact echoes_cancel ..
      | closed rid =>
          simp only [hear]
          split
          · exact echoes_arm ..
          · exact .refl h
  | recorder label actions => exact echoes_recorder ..

/-! ### Operations -/

theorem echoes_conclude {α : Type} (h : Hub) (k : Nat) (r : Report Observer α) :
    Echoes h (h.conclude k r) :=
  (echoes_absorb h k r).trans (Echoes.foldl (echoes_hear k) ..)

theorem echoes_accept (h : Hub) (k : Nat) (x : Exchange) (poll : Bool) :
    Echoes h (h.accept k x poll).1 := by
  have htaken : Echoes h (h.takeLoose x.key) := .of_eq rfl rfl
  unfold accept
  split
  · exact .refl h
  · exact htaken.trans (echoes_conclude ..)

theorem echoes_push (h : Hub) (id : StreamId) (stanza : Stanza) :
    Echoes h (h.push id stanza).1 := by
  unfold push
  split
  · exact .refl h
  · simp only [deliver]
    split
    · exact .refl h
    · exact echoes_conclude ..

section

variable {close : Hub → Nat → Bool → Hub} (hclose : ∀ h k shutdown, Echoes h (close h k shutdown))

include hclose

theorem echoes_meet (h : Hub) (id : StreamId) (d : Demand) : Echoes h (h.meet close id d).1 := by
  cases d with
  | deliver stanza =>
      have hpushed := echoes_push h id stanza
      simp only [meet]
      split <;> rename_i heq <;> rw [heq] at hpushed <;> exact hpushed
  | close =>
      simp only [meet, closeIdWith]
      split
      · exact .refl h
      · exact hclose ..

/-- Whatever the server demands in a call, if it can have sessions ended by `close`. -/
theorem echoes_consult (h : Hub) (id : StreamId) (c : Call) :
    Echoes h (h.consult close id c) := by
  have hcounted : Echoes h { h with calls := h.calls + 1 } := .of_eq rfl rfl
  exact hcounted.trans
    (Echoes.foldl (fun b d => (echoes_meet hclose b id d).trans (echoes_write _ _ rfl)) ..)

theorem echoes_hearEnd (k : Nat) (h : Hub) (o : Observer) : Echoes h (hearEnd close k h o) := by
  unfold hearEnd
  split
  · rename_i s _
    have hgone : Echoes h (h.unregister s.id k) := .of_eq rfl rfl
    have hstopped := hgone.trans (echoes_cancel _ registryTimer k)
    exact (hstopped.trans (echoes_write _ _ rfl)).trans (echoes_consult hclose ..)
  · exact echoes_recorder ..
  · exact .refl h

end

theorem echoes_closeWithin (depth : Nat) (h : Hub) (k : Nat) (shutdown : Bool) :
    Echoes h (closeWithin depth h k shutdown) := by
  induction depth generalizing h k shutdown with
  | zero => exact .refl h
  | succ depth ih =>
      unfold closeWithin
      split
      · exact .refl h
      · exact (echoes_absorb ..).trans (Echoes.foldl (echoes_hearEnd ih k) ..)

/-- Whatever the server demands in a call, and whatever comes of that. -/
theorem echoes_call (h : Hub) (id : StreamId) (c : Call) : Echoes h (h.call id c) :=
  echoes_consult (fun b _ _ => echoes_closeWithin _ b _ _) h id c

/-! ### Stanzas for the server -/

/-- What the server was given, in order, with the time and the identifier of the session. -/
def sent (h : Hub) : List Entry := h.journal.filter fun e => e.note.isSend

theorem Echoes.sent (he : Echoes h h') : h'.sent = h.sent := by
  obtain ⟨es, hes, hecho⟩ := he.notes
  have hnone : es.filter (fun e => e.note.isSend) = [] := by
    rw [List.filter_eq_nil_iff]
    intro e hmem
    simp [Note.isSend_of_isEcho (hecho e hmem)]
  rw [Hub.sent, hes, List.filter_append, hnone, List.append_nil, Hub.sent]

end Hub

end HttpBinding
