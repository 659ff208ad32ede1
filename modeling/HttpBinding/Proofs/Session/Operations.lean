import HttpBinding.Session
import HttpBinding.Proofs.Exchange

/-!
# HttpBinding.Proofs.Session.Operations

What each operation on a session can do.

Each operation has one lemma that lists its outcomes as whole reports (`deliver_cases`,
`accept_cases`, `enrol_cases`, `release_cases`, `close_cases`); later proofs go through these
lists and do not open the operations again. Where a queue is offered a body, the list goes by the
first exchange of the queue that can be answered (`answerable_split`).
-/

namespace HttpBinding

namespace Session

variable {ο : Type}

/-! ### Offering a body to a queue -/

/-- A queue without an exchange that can be answered is used up. -/
theorem offer_of_none {body : Body} {held : List Exchange}
    (h : ∀ x ∈ held, x.isAnswerable = false) :
    offer body held = ⟨held.map Exchange.spent, none, []⟩ := by
  induction held with
  | nil => rfl
  | cons x xs ih =>
      have hx : x.isAnswerable = false := h x (by simp)
      have hxs := ih fun y hy => h y (by simp [hy])
      simp [offer, Exchange.deliver_of_not_answerable hx, hxs]

/-- The first exchange that can be answered takes the body; those before it are used up. -/
theorem offer_of_split {body : Body} {pre post : List Exchange} {x : Exchange}
    (hpre : ∀ y ∈ pre, y.isAnswerable = false) (hx : x.isAnswerable = true) :
    offer body (pre ++ x :: post) =
      ⟨pre.map Exchange.spent, some (x.answered body), post⟩ := by
  induction pre with
  | nil => simp [offer, Exchange.deliver_of_answerable hx]
  | cons y ys ih =>
      have hy : y.isAnswerable = false := hpre y (by simp)
      have hys := ih fun z hz => hpre z (by simp [hz])
      simp [offer, Exchange.deliver_of_not_answerable hy, hys]

/-- A queue either has a first exchange that can be answered, or none. -/
theorem answerable_split (held : List Exchange) :
    (∀ x ∈ held, x.isAnswerable = false) ∨
      ∃ pre x post, held = pre ++ x :: post ∧ (∀ y ∈ pre, y.isAnswerable = false) ∧
        x.isAnswerable = true := by
  cases hf : held.find? Exchange.isAnswerable with
  | none =>
      left
      intro x hx
      simpa using List.find?_eq_none.mp hf x hx
  | some x =>
      obtain ⟨hx, pre, post, rfl, hpre⟩ := List.find?_eq_some_iff_append.mp hf
      exact Or.inr ⟨pre, x, post, rfl, fun y hy => by simpa using hpre y hy, hx⟩

/-! ### Events -/

@[simp] theorem closures_eq_nil {xs : List Exchange} : closures xs = [] ↔ xs = [] := by
  simp [closures]

/-- Events that only report exchanges as closed end with such a report. -/
theorem closures_eq_append {xs : List Exchange} (h : xs ≠ []) :
    ∃ es rid, closures xs = es ++ [.closed rid] := by
  obtain ⟨ys, y, rfl⟩ := List.eq_nil_or_concat xs |>.resolve_left h
  exact ⟨closures ys, y.rid, by simp [closures]⟩

@[simp] theorem length_abandoned_add_waiting (held : List Exchange) :
    (abandoned held).length + (waiting held).length = held.length := by
  induction held with
  | nil => rfl
  | cons x xs ih =>
      simp only [abandoned, waiting, List.length_map] at ih ⊢
      cases hx : x.isAbandoned <;> simp [hx] <;> omega

/-- What a change to exchanges does not touch is the same all along the queue. -/
theorem map_map_of_kept {β : Type} {f : Exchange → β} {g : Exchange → Exchange}
    (hkept : ∀ x, f (g x) = f x) (held : List Exchange) : (held.map g).map f = held.map f := by
  rw [List.map_map]
  exact List.map_congr_left fun x _ => hkept x

/-- A queue is split into those who left and those who wait, whatever is counted. -/
theorem count_abandoned_add_waiting {β : Type} [BEq β] {f : Exchange → β}
    (hf : ∀ x, f x.close = f x) (held : List Exchange) (b : β) :
    ((abandoned held).map f).count b + ((waiting held).map f).count b = (held.map f).count b := by
  induction held with
  | nil => rfl
  | cons x xs ih =>
      simp only [abandoned, waiting, List.map_map] at ih ⊢
      cases hx : x.isAbandoned <;> simp [hx, hf, List.count_cons] <;> omega

/-- If nobody has left, everybody waits. -/
theorem length_waiting_of_abandoned_nil {held : List Exchange} (h : abandoned held = []) :
    (waiting held).length = held.length := by
  have hlen := length_abandoned_add_waiting held
  rw [h] at hlen
  simpa using hlen

/-! ### What the operations can do -/

/-- A delivery is handed on by an ended session; otherwise it goes with the first exchange that
can be answered, and is buffered if there is none. -/
theorem deliver_cases (s : Session ο) (stanza : Stanza) :
    (s.closed = true ∧
      s.deliver stanza = { answer := .failover, session := s, failedOver := [stanza] }) ∨
    (s.closed = false ∧ ∃ pre x post, s.held = pre ++ x :: post ∧
      (∀ y ∈ pre, y.isAnswerable = false) ∧ x.isAnswerable = true ∧
      s.deliver stanza =
        { answer := .sent x.rid
          session := publish { s with held := post }
          events := closures (pre.map Exchange.spent ++ [x.answered (.delivery [stanza])])
          released := pre.map Exchange.spent ++ [x.answered (.delivery [stanza])] }) ∨
    (s.closed = false ∧ (∀ y ∈ s.held, y.isAnswerable = false) ∧
      s.deliver stanza =
        { answer := .buffered
          session := publish { s with held := [], buffer := s.buffer ++ [stanza] }
          events := closures (s.held.map Exchange.spent)
          released := s.held.map Exchange.spent }) := by
  cases hc : s.closed with
  | true => exact Or.inl ⟨rfl, by simp [deliver, hc]⟩
  | false =>
      right
      rcases answerable_split s.held with hnone | ⟨pre, x, post, heq, hpre, hx⟩
      · exact Or.inr ⟨rfl, hnone, by simp [deliver, hc, offer_of_none hnone]⟩
      · refine Or.inl ⟨rfl, pre, x, post, heq, hpre, hx, ?_⟩
        simp [deliver, hc, heq, offer_of_split hpre hx]

/-- What becomes of an exchange that passed all checks: it is held, or it carries the buffer
away, or its requester has gone and the buffer stays. -/
theorem enrol_cases (s : Session ο) (x : Exchange) :
    (s.buffer = [] ∧
      s.enrol x =
        { answer := .ok ()
          session := publish { s with
            held := (waiting s.held).drop (excess s.terms.bound (waiting s.held)) ++
              [x.bind s.id] }
          events := closures (abandoned s.held) ++
            closures (((waiting s.held).take (excess s.terms.bound (waiting s.held))).map
              fun y => y.closeWith .empty) ++ [.opened x.rid]
          released := abandoned s.held ++
            ((waiting s.held).take (excess s.terms.bound (waiting s.held))).map
              fun y => y.closeWith .empty }) ∨
    (s.buffer ≠ [] ∧ x.isAnswerable = true ∧
      s.enrol x =
        { answer := .ok ()
          session := publish { s with held := waiting s.held, buffer := [] }
          events := closures (abandoned s.held) ++ [.opened x.rid, .closed x.rid]
          released := abandoned s.held ++ [(x.bind s.id).answered (.delivery s.buffer)] }) ∨
    (s.buffer ≠ [] ∧ x.isAnswerable = false ∧
      s.enrol x =
        { answer := .error (.consumed x.rid)
          session := publish { s with held := waiting s.held }
          events := closures (abandoned s.held)
          released := abandoned s.held ++ [(x.bind s.id).spent.drop] }) := by
  by_cases hb : s.buffer = []
  · exact Or.inl ⟨hb, by simp [enrol, hb]⟩
  · have hb' : s.buffer.isEmpty = false := by simpa using hb
    right
    cases hx : x.isAnswerable with
    | true =>
        have hx' : (x.bind s.id).isAnswerable = true := hx
        refine Or.inl ⟨hb, rfl, ?_⟩
        simp [enrol, hb', Exchange.deliver_of_answerable hx']
    | false =>
        have hx' : (x.bind s.id).isAnswerable = false := hx
        refine Or.inr ⟨hb, rfl, ?_⟩
        simp [enrol, hb', Exchange.deliver_of_not_answerable hx']

/-- An ended session refuses whatever is brought in. -/
theorem accept_of_closed {s : Session ο} (hc : s.closed = true) (x : Exchange) (poll : Bool)
    (now : Nat) :
    s.accept x poll now =
      { answer := .error (.sessionClosed s.id), session := s, released := [x.drop] } := by
  unfold accept
  rw [if_pos hc]

/-- An admission is refused at once, with at most the time of the last poll changed, or it gets
as far as `enrol`. -/
theorem accept_cases (s : Session ο) (x : Exchange) (poll : Bool) (now : Nat) :
    (∃ fault p, s.accept x poll now =
      { answer := .error fault, session := { s with lastPoll := p }, released := [x.drop] }) ∨
    (s.closed = false ∧ ∃ p, s.accept x poll now = { s with lastPoll := p }.enrol x) := by
  unfold accept
  split
  · exact Or.inl ⟨_, s.lastPoll, rfl⟩
  · rename_i hc
    have hp : ∃ p, (if poll then { s with lastPoll := some now } else s) =
        { s with lastPoll := p } := by
      cases poll
      · exact ⟨s.lastPoll, rfl⟩
      · exact ⟨some now, rfl⟩
    obtain ⟨p, hp⟩ := hp
    simp only [hp]
    split
    · exact Or.inl ⟨_, p, rfl⟩
    · split
      · exact Or.inl ⟨_, p, rfl⟩
      · exact Or.inr ⟨by simpa using hc, p, rfl⟩

/-- Letting go of those who left reports each of them. -/
theorem release_cases (s : Session ο) :
    (s.closed = true ∧ s.release = { answer := 0, session := s }) ∨
    (s.closed = false ∧ s.release =
      { answer := (abandoned s.held).length
        session := publish { s with held := waiting s.held }
        events := closures (abandoned s.held)
        released := abandoned s.held }) := by
  cases hc : s.closed with
  | true => exact Or.inl ⟨rfl, by simp [release, hc]⟩
  | false => exact Or.inr ⟨rfl, by simp [release, hc]⟩

/-- The end of a session empties it. -/
theorem close_cases (s : Session ο) (shutdown : Bool) :
    (s.closed = true ∧ s.close shutdown = { answer := [], session := s }) ∨
    (s.closed = false ∧ s.close shutdown =
      { answer := s.observers.map Prod.snd
        session := { s with
          held := [], buffer := [], closed := true, shown := ⟨0, true⟩, observers := [] }
        released := s.held.map fun x => x.closeWith (.terminate (condition shutdown))
        failedOver := s.buffer }) := by
  cases hc : s.closed with
  | true => exact Or.inl ⟨rfl, by simp [close, hc]⟩
  | false => exact Or.inr ⟨rfl, by simp [close, hc]⟩

end Session

end HttpBinding
