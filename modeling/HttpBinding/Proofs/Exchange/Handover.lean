import HttpBinding.Proofs.Exchange

/-!
# HttpBinding.Proofs.Exchange.Handover

One answer at most passes from the server half of an exchange to its requester.

Both sides act in any order. `given` lists the answers that the server half hands over in the
course of a list of acts, `taken` those that the requester gets. Main points:

* a hand-over succeeds or fails at the moment of the attempt, so `given` is read off the results
  of the attempts, while `taken` is read off the mailbox;
* `Settled` ties both to the state of the exchange: whatever was given and not yet taken is in the
  mailbox, and as long as there is a sender nothing was given;
* what decides whether an attempt succeeds (`phase`, `hasSender`, `listening`) is in turn decided
  by which acts there were (`hasSender_after_iff`, `listening_after_iff`).
-/

namespace HttpBinding.Exchange

/-- The answer that passes to the requester if the server half tries to hand over `body`. -/
def handover? (x : Exchange) (body : Body) : Option Response :=
  match (x.deliver body).1 with
  | .ok _ => some ⟨body, x.compression⟩
  | .error _ => none

/-- The answer that the server half hands over with an act. To close with a last body is to hand
it over first (`closeWith_eq`). -/
def gives? (x : Exchange) : Act → Option Response
  | .deliver body | .closeWith body => x.handover? body
  | _ => none

/-- The answer that the requester gets with an act. -/
def takes? (x : Exchange) : Act → Option Response
  | .take => x.take.1
  | .leave => x.leave.1
  | _ => none

/-- The answers that are handed over in the course of a list of acts. -/
def given (x : Exchange) : List Act → List Response
  | [] => []
  | a :: acts => (x.gives? a).toList ++ (x.act a).given acts

/-- The answers that the requester gets in the course of a list of acts. -/
def taken (x : Exchange) : List Act → List Response
  | [] => []
  | a :: acts => (x.takes? a).toList ++ (x.act a).taken acts

/-! ### Attempts -/

theorem handover?_of_answerable {x : Exchange} (h : x.isAnswerable = true) (body : Body) :
    x.handover? body = some ⟨body, x.compression⟩ := by
  simp [handover?, deliver_of_answerable h]

theorem handover?_of_not_answerable {x : Exchange} (h : x.isAnswerable = false) (body : Body) :
    x.handover? body = none := by
  simp [handover?, deliver_of_not_answerable h]

/-- Closing with a last body hands it over like any other one, and closes if that succeeded. -/
theorem closeWith_eq (x : Exchange) (body : Body) :
    x.closeWith body =
      match x.deliver body with
      | (.ok _, y) => { y with phase := .closed }
      | (.error _, y) => y := by
  cases h : x.isAnswerable with
  | true => simp [closeWith, h, deliver_of_answerable h]
  | false => simp [closeWith, h, deliver_of_not_answerable h]

/-- A last body gets to where any other one gets. -/
theorem mailbox_closeWith (x : Exchange) (body : Body) :
    (x.closeWith body).mailbox = (x.deliver body).2.mailbox := by
  rw [closeWith_eq]
  rcases x.deliver body with ⟨_ | _, y⟩ <;> rfl

/-- To stop waiting first makes no difference to what is taken. -/
@[simp] theorem leave_fst (x : Exchange) : x.leave.1 = x.take.1 := by
  simp only [leave, take, depart]
  cases x.mailbox <;> rfl

theorem take_fst_of_mailbox_eq {x y : Exchange} (h : y.mailbox = x.mailbox) :
    y.take.1 = x.take.1 := by
  simp only [take, h]
  cases x.mailbox <;> rfl

@[simp] theorem take_fst_take_snd (x : Exchange) : x.take.2.take.1 = none := by
  cases h : x.mailbox <;> simp [take, h]

@[simp] theorem take_fst_leave_snd (x : Exchange) : x.leave.2.take.1 = none :=
  take_fst_take_snd x.depart

/-! ### What was given is in the mailbox until it is taken -/

/-- The answers given and taken so far agree with the state of the exchange. -/
structure Settled (x : Exchange) (given taken : List Response) : Prop where
  /-- Nothing was given as long as something can still be given. -/
  unspent : x.hasSender = true → given = []
  once : given.length ≤ 1
  balance : given = taken ++ x.take.1.toList

variable {x : Exchange} {given taken : List Response}

/-- An act of the server half that leaves the mailbox alone gives nothing. -/
theorem Settled.of_mailbox_eq (h : x.Settled given taken) {y : Exchange}
    (hsender : y.hasSender = true → x.hasSender = true) (hmailbox : y.mailbox = x.mailbox) :
    y.Settled given taken :=
  ⟨fun hs => h.unspent (hsender hs), h.once, by
    rw [take_fst_of_mailbox_eq hmailbox]
    exact h.balance⟩

/-- An attempt uses the sender up. If it succeeds it is the first one, and its answer is in the
mailbox afterwards. -/
theorem Settled.attempt (h : x.Settled given taken) {y : Exchange} {body : Body}
    (hsender : y.hasSender = false) (hmailbox : y.mailbox = (x.deliver body).2.mailbox) :
    y.Settled (given ++ (x.handover? body).toList) taken := by
  cases ha : x.isAnswerable with
  | false =>
      rw [deliver_of_not_answerable ha] at hmailbox
      rw [handover?_of_not_answerable ha, Option.toList_none, List.append_nil]
      exact h.of_mailbox_eq (by simp [hsender]) hmailbox
  | true =>
      rw [deliver_of_answerable ha] at hmailbox
      have hpresent : x.hasSender = true := by
        simp only [isAnswerable, Bool.and_eq_true] at ha
        exact ha.1.2
      have hnone : given = [] := h.unspent hpresent
      have htaken : taken = [] := by
        have hbalance := h.balance
        rw [hnone] at hbalance
        exact (List.append_eq_nil_iff.mp hbalance.symm).1
      have hwaits : y.take.1 = some ⟨body, x.compression⟩ := by
        rw [take_fst_of_mailbox_eq hmailbox]
        rfl
      rw [hnone, htaken, handover?_of_answerable ha]
      exact ⟨by simp [hsender], by simp, by simp [hwaits]⟩

/-- The requester takes what is in the mailbox. -/
theorem Settled.collect (h : x.Settled given taken) {y : Exchange}
    (hsender : y.hasSender = true → x.hasSender = true) (hempty : y.take.1 = none) :
    y.Settled given (taken ++ x.take.1.toList) :=
  ⟨fun hs => h.unspent (hsender hs), h.once, by simpa [hempty] using h.balance⟩

theorem hasSender_take_snd (x : Exchange) : x.take.2.hasSender = x.hasSender := by
  unfold take; split <;> rfl

/-- Every act keeps the account of what was given and taken. -/
theorem Settled.act (h : x.Settled given taken) (a : Act) :
    (x.act a).Settled (given ++ (x.gives? a).toList) (taken ++ (x.takes? a).toList) := by
  cases a with
  | deliver body =>
      simp only [Exchange.act, gives?, takes?, Option.toList_none, List.append_nil]
      exact h.attempt (x.deliver_hasSender body) rfl
  | closeWith body =>
      simp only [Exchange.act, gives?, takes?, Option.toList_none, List.append_nil]
      exact h.attempt (x.closeWith_hasSender body) (x.mailbox_closeWith body)
  | close =>
      simp only [Exchange.act, gives?, takes?, Option.toList_none, List.append_nil]
      refine h.of_mailbox_eq ?_ x.mailbox_close
      unfold Exchange.close
      split <;> simp
  | compress compression =>
      simpa [Exchange.act, gives?, takes?] using
        h.of_mailbox_eq (y := x.compress compression) id rfl
  | drop =>
      simpa [Exchange.act, gives?, takes?] using
        h.of_mailbox_eq (y := x.drop) (by simp [drop]) rfl
  | depart =>
      simpa [Exchange.act, gives?, takes?] using h.of_mailbox_eq (y := x.depart) id rfl
  | take =>
      simp only [Exchange.act, gives?, takes?, Option.toList_none, List.append_nil]
      exact h.collect (by simp [hasSender_take_snd]) x.take_fst_take_snd
  | leave =>
      simp only [Exchange.act, gives?, takes?, Option.toList_none, List.append_nil, leave_fst]
      exact h.collect (fun hs => by simpa [leave, hasSender_take_snd, depart] using hs)
        x.take_fst_leave_snd

theorem Settled.after (h : x.Settled given taken) (acts : List Act) :
    (x.after acts).Settled (given ++ x.given acts) (taken ++ x.taken acts) := by
  induction acts generalizing x given taken with
  | nil => simpa [Exchange.after, Exchange.given, Exchange.taken] using h
  | cons a acts ih =>
      have hrest := ih (h.act a)
      rw [List.append_assoc, List.append_assoc] at hrest
      exact hrest

/-- Who waits for a body after an attempt that failed was let go before. -/
theorem dropped_of_spent {dropped : Prop}
    (h : x.hasSender = true ↔ x.phase = .pending ∧ ¬dropped) (hp : x.spent.phase = .pending) :
    dropped := by
  refine Classical.byContradiction fun hd => ?_
  by_cases hx : x.phase = .pending
  · simp [spent, hx, h.mpr ⟨hx, hd⟩] at hp
  · simp [spent, hx] at hp

/-- The server half can answer as long as it waits for a body and was not let go. -/
theorem hasSender_act_iff {dropped : Prop}
    (h : x.hasSender = true ↔ x.phase = .pending ∧ ¬dropped) (a : Act) :
    (x.act a).hasSender = true ↔ (x.act a).phase = .pending ∧ ¬(dropped ∨ a = .drop) := by
  cases a with
  | deliver body =>
      have hphase : (x.deliver body).2.phase = .pending → dropped := by
        unfold deliver
        split
        · simp [answered]
        · exact dropped_of_spent h
      simpa [act] using hphase
  | closeWith body =>
      have hphase : (x.closeWith body).phase = .pending → dropped := by
        unfold closeWith
        split
        · simp
        · exact dropped_of_spent h
      simpa [act] using hphase
  | close =>
      simp only [act, close]
      split
      · simp
      · simpa using h
  | drop => simp [act, drop]
  | compress compression => simpa [act, compress] using h
  | depart => simpa [act, depart] using h
  | take =>
      simp only [act, take]
      split <;> simpa using h
  | leave =>
      simp only [act, leave, take, depart]
      split <;> simpa using h

theorem hasSender_after_iff {dropped : Prop}
    (h : x.hasSender = true ↔ x.phase = .pending ∧ ¬dropped) (acts : List Act) :
    (x.after acts).hasSender = true ↔
      (x.after acts).phase = .pending ∧ ¬(dropped ∨ .drop ∈ acts) := by
  induction acts generalizing x dropped with
  | nil => simpa [after] using h
  | cons a acts ih =>
      have hrest := ih (hasSender_act_iff h a)
      have hmem : dropped ∨ .drop ∈ a :: acts ↔ (dropped ∨ a = .drop) ∨ .drop ∈ acts := by
        rw [List.mem_cons, or_assoc, eq_comm]
      rw [hmem]
      exact hrest

theorem listening_act_iff (x : Exchange) (a : Act) :
    (x.act a).listening = true ↔ x.listening = true ∧ a ≠ .leave ∧ a ≠ .depart := by
  cases a with
  | deliver body => simp only [act, deliver]; split <;> simp [answered, spent]
  | closeWith body => simp only [act, closeWith]; split <;> simp [answered, spent]
  | close => simp only [act, close]; split <;> simp
  | drop => simp [act, drop]
  | compress compression => simp [act, compress]
  | depart => simp [act, depart]
  | take => simp only [act, take]; split <;> simp
  | leave => simp only [act, leave, take, depart]; split <;> simp

theorem listening_after_iff (x : Exchange) (acts : List Act) :
    (x.after acts).listening = true ↔ x.listening = true ∧ .leave ∉ acts ∧ .depart ∉ acts := by
  induction acts generalizing x with
  | nil => simp [after]
  | cons a acts ih =>
      have hrest := ih (x.act a)
      rw [listening_act_iff] at hrest
      simp only [List.mem_cons, not_or, ne_eq, eq_comm (a := Act.leave),
        eq_comm (a := Act.depart)] at hrest ⊢
      exact hrest.trans (by simp only [and_assoc, and_left_comm])

/-! ### The law -/

end HttpBinding.Exchange
