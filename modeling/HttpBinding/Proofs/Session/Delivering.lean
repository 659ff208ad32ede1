import Mathlib.Data.List.TakeWhile
import HttpBinding.Proofs.Session.Coherent

/-!
# HttpBinding.Proofs.Session.Delivering

What a delivery does, exactly.

A delivery takes exchanges off the front of the queue until one of them carries the stanza. It does
not ask who waits; it only sees which attempts fail. Since the exchanges of a session are coherent,
the attempts that fail are those for which nobody waits: the front of the queue
(`takeWhile isAbandoned`) is used up, the exchange that follows is answered, and what is behind it
is not touched (`delivery_by_queue`).
-/

namespace HttpBinding

namespace Session

variable {ο : Type} {s : Session ο}

/-! ### What is left of a queue -/

@[simp] theorem closures_append (xs ys : List Exchange) :
    closures (xs ++ ys) = closures xs ++ closures ys :=
  List.map_append

/-- What is done to exchanges does not show in the events that report them as closed. -/
theorem closures_map {f : Exchange → Exchange} (hf : ∀ x, (f x).rid = x.rid)
    (xs : List Exchange) : closures (xs.map f) = closures xs := by
  simp [closures, hf]

/-- A queue is split at the first exchange for which somebody waits. -/
theorem span_abandoned {held pre post : List Exchange} {x : Exchange}
    (heq : held = pre ++ x :: post) (hpre : ∀ y ∈ pre, y.isAbandoned = true)
    (hx : x.isAbandoned = false) :
    held.takeWhile Exchange.isAbandoned = pre ∧
      held.dropWhile Exchange.isAbandoned = x :: post := by
  subst heq
  rw [List.takeWhile_append_of_pos hpre, List.dropWhile_append_of_pos hpre]
  simp [hx]

/-! ### The three outcomes -/

/-- The stanza went with `x`: those in front of it, for whom nobody waited, were let go, and those
behind it were left alone. -/
structure SentWith (s : Session ο) (stanza : Stanza) (front : List Exchange) (x : Exchange)
    (behind : List Exchange) (r : Report ο Delivery) : Prop where
  queue : s.held = front ++ x :: behind
  gone : ∀ y ∈ front, y.isAbandoned = true
  waits : x.isAbandoned = false
  answer : r.answer = .sent x.rid
  session : r.session = publish { s with held := behind }
  /-- Nothing was buffered before, and nothing is now. -/
  buffer : s.buffer = []
  events : r.events = closures (front ++ [x])
  released : r.released.map Exchange.key = (front ++ [x]).map Exchange.key
  /-- The requester of `x` has been given the stanza, and nobody else has been given anything. -/
  mailboxes : r.released.map Exchange.mailbox =
    front.map Exchange.mailbox ++ [.holding ⟨.delivery [stanza], x.compression⟩]
  vacant : x.mailbox = .vacant
  used : ∀ y ∈ r.released, y.hasSender = false
  failedOver : r.failedOver = []

/-- The stanza waits behind those that waited before it, and nothing is held any more. -/
structure Buffered (s : Session ο) (stanza : Stanza) (r : Report ο Delivery) : Prop where
  gone : ∀ y ∈ s.held, y.isAbandoned = true
  answer : r.answer = .buffered
  session : r.session = publish { s with held := [], buffer := s.buffer ++ [stanza] }
  events : r.events = closures s.held
  released : r.released.map Exchange.key = s.held.map Exchange.key
  /-- Nobody has been given anything. -/
  mailboxes : r.released.map Exchange.mailbox = s.held.map Exchange.mailbox
  used : ∀ y ∈ r.released, y.hasSender = false
  failedOver : r.failedOver = []

/-- What a delivery does is decided by the first exchange of the queue for which somebody waits. -/
theorem WellKept.deliver (h : s.WellKept) (hopen : s.closed = false) (stanza : Stanza) :
    match s.held.dropWhile Exchange.isAbandoned with
    | x :: behind => s.SentWith stanza (s.held.takeWhile Exchange.isAbandoned) x behind
        (s.deliver stanza)
    | [] => s.Buffered stanza (s.deliver stanza) := by
  -- an attempt fails exactly if nobody waits
  have hfails : ∀ y ∈ s.held, y.isAnswerable = false → y.isAbandoned = true := by
    intro y hy hno
    rw [(h.coherent y hy).isAnswerable_eq] at hno
    simpa using hno
  rcases deliver_cases s stanza with
    ⟨hc, -⟩ | ⟨-, pre, x, post, hheld, hpre, hx, heq⟩ | ⟨-, hnone, heq⟩
  · rw [hopen] at hc
    cases hc
  · have hxmem : x ∈ s.held := by simp [hheld]
    have hgone : ∀ y ∈ pre, y.isAbandoned = true := fun y hy =>
      hfails y (by simp [hheld, hy]) (hpre y hy)
    have hwaits : x.isAbandoned = false := by
      rw [(h.coherent x hxmem).isAnswerable_eq] at hx
      simpa using hx
    obtain ⟨htake, hdrop⟩ := span_abandoned hheld hgone hwaits
    rw [hdrop, htake, heq]
    refine ⟨hheld, hgone, hwaits, rfl, rfl, ?_, ?_, ?_, ?_, (h.coherent x hxmem).vacant hwaits,
      ?_, rfl⟩
    · exact h.sound.apart.resolve_right (by simp [hheld])
    · rw [closures_append, closures_map Exchange.rid_spent, closures_append]
      rfl
    · simp
    · simp [Exchange.answered]
    · intro y hy
      rcases List.mem_append.mp hy with hy | hy
      · obtain ⟨z, -, rfl⟩ := List.mem_map.mp hy
        rfl
      · obtain rfl := List.mem_singleton.mp hy
        rfl
  · have hgone : ∀ y ∈ s.held, y.isAbandoned = true := fun y hy => hfails y hy (hnone y hy)
    rw [List.dropWhile_eq_nil_iff.mpr hgone, heq]
    refine ⟨hgone, rfl, rfl, closures_map Exchange.rid_spent _, ?_, ?_, ?_, rfl⟩
    · exact map_map_of_kept Exchange.key_spent _
    · exact map_map_of_kept Exchange.mailbox_spent _
    · intro y hy
      obtain ⟨z, -, rfl⟩ := List.mem_map.mp hy
      rfl

/-- The scan takes exchanges off the front of the queue, each of them once, and keeps the order. -/
theorem released_append_held_deliver (s : Session ο) (stanza : Stanza) :
    ((s.deliver stanza).released ++ (s.deliver stanza).session.held).map Exchange.key =
      s.held.map Exchange.key := by
  rcases deliver_cases s stanza with
    ⟨-, heq⟩ | ⟨-, pre, x, post, hheld, -, -, heq⟩ | ⟨-, -, heq⟩ <;> rw [heq]
  · rfl
  · simp [hheld]
  · simp

end Session

namespace Stage

variable {ο : Type}

/-- On a session that has ended, a delivery leads to one call of the sink and to nothing else. -/
theorem step_deliver_of_closed {t : Stage ο} (hc : t.session.closed = true) (stanza : Stanza) :
    t.step (.deed (.deliver stanza)) = { t with due := .handedOn stanza :: t.due } := by
  have hfree : t.defers (.deliver stanza) = false := by simp [defers, isBusy, hc]
  simp [step, hfree, perform, absorb, Session.deliver, hc, Report.calls, Report.notices]

/-- **A delivery goes by the queue.** After any run, a stanza that is given to an open session goes
with the oldest exchange for which somebody waits: its requester is given the stanza, those in front
of it are let go without an answer, those behind it stay as they are, and observers hear of each
exchange that is gone, in order. If nobody waits, all are let go and the stanza is buffered behind
the others. A session that has ended hands the stanza on, once, and stays as it is. In any case
each exchange is tried at most once, and the order of the queue is kept. -/
theorem delivery_by_queue (id : StreamId) (terms : Terms) (sink : Sink)
    (observers : List (Nat × ο)) (nextTicket : Nat) (beats : List (Beat ο)) (stanza : Stanza) :
    let t := (start id terms sink observers nextTicket).play beats
    let s := t.session
    let r := s.deliver stanza
    (match s.closed, s.held.dropWhile Exchange.isAbandoned with
      | true, _ =>
        r = { answer := .failover, session := s, failedOver := [stanza] } ∧
          t.step (.deed (.deliver stanza)) = { t with due := .handedOn stanza :: t.due }
      | false, x :: behind =>
        s.SentWith stanza (s.held.takeWhile Exchange.isAbandoned) x behind r
      | false, [] => s.Buffered stanza r) ∧
    (r.released ++ r.session.held).map Exchange.key = s.held.map Exchange.key := by
  intro t s r
  refine ⟨?_, s.released_append_held_deliver stanza⟩
  have hkept : s.WellKept := wellKept_play id terms sink observers nextTicket beats
  cases hc : s.closed with
  | true => exact ⟨by simp [r, Session.deliver, hc], step_deliver_of_closed hc stanza⟩
  | false =>
      have hdone := hkept.deliver hc stanza
      cases hq : s.held.dropWhile Exchange.isAbandoned with
      | nil | cons =>
          rw [hq] at hdone
          exact hdone

/-- The requester of the oldest exchange has left, so the next one carries the stanza. -/
example :
    (((start ⟨"a"⟩ {} .recorded ([] : List (Nat × Nat)) 0).play
      [.deed (.enter 1 false [] false 0), .deed (.enter 2 false [] false 0),
        .deed (.depart 0)]).session.deliver ⟨"m"⟩).answer = .sent 2 := by
  decide

end Stage

end HttpBinding
