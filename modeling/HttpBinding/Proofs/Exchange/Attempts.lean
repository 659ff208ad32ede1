import HttpBinding.Proofs.Exchange.Handover

/-!
# HttpBinding.Proofs.Exchange.Attempts

What an attempt to answer leaves behind when it fails.

An attempt fails if the exchange was used before or if its requester has gone. The sender is used up
in either case, but the phase is another matter: an exchange that waited for a body is closed, and
any other one stays as it is. So the phase after a failure tells how the exchange came to be used,
and a delivery is never forgotten (`phase_after_eq_delivered_iff`).
-/

namespace HttpBinding.Exchange

/-- One of the acts is an attempt to hand over a body, and it succeeds. A last body does not count,
since the exchange is closed with it. -/
def Delivers (x : Exchange) (acts : List Act) : Prop :=
  ∃ before body later, acts = before ++ .deliver body :: later ∧
    ((x.after before).deliver body).1 = .ok ()

/-! ### Deliveries -/

theorem not_delivers_nil (x : Exchange) : ¬x.Delivers [] := by
  rintro ⟨before, body, later, heq, -⟩
  simp at heq

/-- A delivery is made by the first act or by a later one. -/
theorem delivers_cons_iff (x : Exchange) (a : Act) (acts : List Act) :
    x.Delivers (a :: acts) ↔
      (∃ body, a = .deliver body ∧ (x.deliver body).1 = .ok ()) ∨ (x.act a).Delivers acts := by
  constructor
  · rintro ⟨before, body, later, heq, hok⟩
    cases before with
    | nil =>
        obtain ⟨rfl, -⟩ := List.cons.inj heq
        exact .inl ⟨body, rfl, hok⟩
    | cons b before =>
        obtain ⟨rfl, rfl⟩ := List.cons.inj heq
        exact .inr ⟨before, body, later, rfl, hok⟩
  · rintro (⟨body, rfl, hok⟩ | ⟨before, body, later, rfl, hok⟩)
    · exact ⟨[], body, acts, rfl, hok⟩
    · exact ⟨a :: before, body, later, rfl, hok⟩

/-- What was waiting is closed by an attempt that fails, and nothing else becomes of it. -/
theorem phase_spent_eq_delivered_iff (x : Exchange) :
    x.spent.phase = .delivered ↔ x.phase = .delivered := by
  simp only [spent]
  split
  · rename_i hwaits
    simp [hwaits.1]
  · rfl

/-- Only a delivery makes an exchange a delivered one, and it is one for good. -/
theorem phase_act_eq_delivered_iff (x : Exchange) (a : Act) :
    (x.act a).phase = .delivered ↔
      x.phase = .delivered ∨ ∃ body, a = .deliver body ∧ (x.deliver body).1 = .ok () := by
  cases a with
  | deliver body =>
      cases ha : x.isAnswerable with
      | true => simp [act, deliver_of_answerable ha, answered]
      | false => simp [act, deliver_of_not_answerable ha, phase_spent_eq_delivered_iff]
  | closeWith body =>
      have hused : x.isAnswerable = true → x.phase ≠ .delivered := by
        intro ha
        simp only [isAnswerable, Bool.and_eq_true, beq_iff_eq] at ha
        simp [ha.1.1]
      cases ha : x.isAnswerable with
      | true => simpa [act, closeWith, ha] using hused ha
      | false => simp [act, closeWith, ha, phase_spent_eq_delivered_iff]
  | close =>
      simp only [act, close]
      split
      · rename_i hwaits
        simp [hwaits]
      · simp
  | take =>
      simp only [act, take]
      split <;> simp
  | leave =>
      simp only [act, leave, take, depart]
      split <;> simp
  | compress | drop | depart => simp [act, compress, drop, depart]

/-- A delivery is never forgotten. -/
theorem phase_after_eq_delivered_iff (x : Exchange) (acts : List Act) :
    (x.after acts).phase = .delivered ↔ x.phase = .delivered ∨ x.Delivers acts := by
  induction acts generalizing x with
  | nil => simp [after, not_delivers_nil]
  | cons a acts ih =>
      show ((x.act a).after acts).phase = .delivered ↔ _
      rw [ih, phase_act_eq_delivered_iff, delivers_cons_iff, or_assoc]

/-! ### Failures -/

theorem deliver_eq_error_iff (x : Exchange) (body : Body) :
    (x.deliver body).1 = .error (.consumed x.rid) ↔ x.isAnswerable = false := by
  cases ha : x.isAnswerable with
  | true => simp [deliver_of_answerable ha]
  | false => simp [deliver_of_not_answerable ha]

/-- After an attempt that failed the exchange does not wait for a body, unless it was let go. -/
theorem phase_spent_ne_pending {x : Exchange} (h : x.hasSender = true ↔ x.phase = .pending) :
    x.spent.phase ≠ .pending := by
  simp only [spent, h, and_self]
  split
  · simp
  · assumption

section Fresh

variable {acts : List Act}

/-- Unless the server half is let go, a new exchange has its sender as long as it waits. -/
theorem hasSender_after_fresh_iff (key rid : Nat) (secure : Bool) (hkept : .drop ∉ acts) :
    ((fresh key rid secure).after acts).hasSender = true ↔
      ((fresh key rid secure).after acts).phase = .pending := by
  have hnew : (fresh key rid secure).hasSender = true ↔
      (fresh key rid secure).phase = .pending ∧ ¬False := by simp [fresh]
  simpa [hkept] using hasSender_after_iff hnew acts

/-- What a new exchange needs for an answer: that it waits, and that its requester does. -/
theorem isAnswerable_after_fresh_iff (key rid : Nat) (secure : Bool) (hkept : .drop ∉ acts) :
    ((fresh key rid secure).after acts).isAnswerable = true ↔
      ((fresh key rid secure).after acts).phase = .pending ∧ .leave ∉ acts ∧ .depart ∉ acts := by
  have hnew : (fresh key rid secure).listening = true := rfl
  have hlistening := listening_after_iff (fresh key rid secure) acts
  simp only [hnew, true_and] at hlistening
  simp [isAnswerable, hasSender_after_fresh_iff key rid secure hkept, hlistening]

end Fresh

/-- **What a failure leaves behind.** Whatever the two sides of a new exchange have done, as long as
the server half was not let go: an attempt to hand over a body fails exactly if the exchange does not
wait for one any more or its requester has gone. After the failure the exchange is closed, unless a
body was delivered before; then it stays delivered. -/
theorem failure_closes_iff (key rid : Nat) (secure : Bool) (acts : List Act)
    (hkept : .drop ∉ acts) (body : Body) :
    let new := fresh key rid secure
    let x := new.after acts
    ((x.deliver body).1 = .error (.consumed rid) ↔
      x.phase ≠ .pending ∨ .leave ∈ acts ∨ .depart ∈ acts) ∧
    ((x.deliver body).1 = .error (.consumed rid) →
      ((x.deliver body).2.phase = .closed ↔ ¬new.Delivers acts) ∧
      ((x.deliver body).2.phase = .delivered ↔ new.Delivers acts)) := by
  intro new x
  have hsender := hasSender_after_fresh_iff key rid secure hkept
  have hanswerable := isAnswerable_after_fresh_iff key rid secure hkept
  have hfails : (x.deliver body).1 = .error (.consumed rid) ↔ ¬x.isAnswerable = true := by
    have hrid : x.rid = rid := new.rid_after acts
    rw [← hrid, deliver_eq_error_iff, Bool.not_eq_true]
  have hdelivered : x.phase = .delivered ↔ new.Delivers acts := by
    have hnew : new.phase ≠ .delivered := by simp [new, fresh]
    exact (new.phase_after_eq_delivered_iff acts).trans (or_iff_right hnew)
  refine ⟨?_, fun hfailed => ?_⟩
  · rw [hfails, hanswerable]
    grind
  · have hspent := x.phase_spent_eq_delivered_iff.trans hdelivered
    rw [deliver_of_not_answerable (Bool.eq_false_iff.mpr (hfails.mp hfailed))]
    refine ⟨?_, hspent⟩
    -- it is closed or delivered, since it does not wait any more
    have hdone : x.spent.phase ≠ .pending := phase_spent_ne_pending hsender
    rw [← hspent]
    cases hphase : x.spent.phase <;> simp_all

/-- Closed with a last body that was taken, and then left: the next attempt finds it closed. -/
theorem closed_after_last_body :
    let acts : List Act := [.compress .optional, .closeWith (.terminate none), .take, .depart]
    let x := (fresh 0 3 false).after acts
    .drop ∉ acts ∧ (x.deliver .empty).1 = .error (.consumed 3) ∧
      (x.deliver .empty).2.phase = .closed := by
  intro acts x
  have hkept : .drop ∉ acts := by decide
  obtain ⟨hfails, hphase⟩ := failure_closes_iff 0 3 false acts hkept .empty
  have hfailed := hfails.mpr (.inl (by decide))
  refine ⟨hkept, hfailed, (hphase hfailed).1.mpr ?_⟩
  simp [acts, delivers_cons_iff, not_delivers_nil]

/-- Not every attempt that fails leaves the exchange closed: after a delivery, the second attempt
leaves it delivered. -/
theorem second_attempt_leaves_delivered :
    ¬∀ (key rid : Nat) (secure : Bool) (acts : List Act) (body : Body), .drop ∉ acts →
      let x := (fresh key rid secure).after acts
      (x.deliver body).1 = .error (.consumed rid) → (x.deliver body).2.phase = .closed := by
  intro h
  have hclosed := h 0 7 true [.deliver (.literal "<body/>")] (.literal "<body/>") (by decide) rfl
  cases hclosed

end HttpBinding.Exchange
