import HttpBinding.Exchange

/-!
# HttpBinding.Proofs.Exchange

What both sides can do with one exchange, in any order, and what stays true of it.

An `Act` is one thing that one of the two sides does; `after` plays a list of them. The invariant
`Consistent` ties the server half to the mailbox: as long as there is a sender nothing was handed
over, so a body that is handed over never replaces another one.

`newsSince` compares two states of an exchange: the stanzas that came into the mailbox between
them. Everything that is said elsewhere about what a session has handed to its client is said in
these terms.
-/

namespace HttpBinding

/-- One thing that one of the two sides of an exchange does. -/
inductive Exchange.Act where
  /-- The server half tries to hand over a body. -/
  | deliver (body : Body)
  | close
  | closeWith (body : Body)
  | compress (compression : Compression)
  /-- The server lets go of its half. -/
  | drop
  /-- The requester takes the answer if it is there. -/
  | take
  /-- The requester lets go of its half, or gives up after its wait. -/
  | depart
  /-- The requester stops waiting and takes the answer if it is there. -/
  | leave
deriving DecidableEq, Repr

namespace Exchange

/-- The exchange of a request that has just come in. -/
def fresh (key rid : Nat) (secure : Bool) : Exchange := { key, rid, secure }

/-- The exchange after one side has acted. -/
def act (x : Exchange) : Act → Exchange
  | .deliver body => (x.deliver body).2
  | .close => x.close
  | .closeWith body => x.closeWith body
  | .compress compression => x.compress compression
  | .drop => x.drop
  | .take => x.take.2
  | .depart => x.depart
  | .leave => x.leave.2

/-- The exchange after a list of acts. -/
def after (x : Exchange) (acts : List Act) : Exchange := acts.foldl act x

/-! ### An exchange keeps its identity -/

/-- Everything that is decided when a request comes in. -/
def identity (x : Exchange) : Nat × Nat × Bool := (x.key, x.rid, x.secure)

@[simp] theorem identity_act (x : Exchange) (a : Act) : (x.act a).identity = x.identity := by
  cases a with
  | deliver body => simp only [act, deliver]; split <;> rfl
  | close => simp only [act, close]; split <;> rfl
  | closeWith body => simp only [act, closeWith]; split <;> rfl
  | take => simp only [act, take]; split <;> rfl
  | leave => simp only [act, leave, take]; split <;> rfl
  | _ => rfl

@[simp] theorem identity_after (x : Exchange) (acts : List Act) :
    (x.after acts).identity = x.identity := by
  induction acts generalizing x with
  | nil => rfl
  | cons a acts ih => exact (ih (x.act a)).trans (x.identity_act a)

@[simp] theorem key_after (x : Exchange) (acts : List Act) : (x.after acts).key = x.key :=
  congrArg Prod.fst (x.identity_after acts)

@[simp] theorem rid_after (x : Exchange) (acts : List Act) : (x.after acts).rid = x.rid :=
  congrArg (fun i => i.2.1) (x.identity_after acts)

@[simp] theorem secure_after (x : Exchange) (acts : List Act) :
    (x.after acts).secure = x.secure :=
  congrArg (fun i => i.2.2) (x.identity_after acts)

theorem after_append (x : Exchange) (acts more : List Act) :
    x.after (acts ++ more) = (x.after acts).after more :=
  List.foldl_append

/-! ### Attempts to answer -/

theorem deliver_of_answerable {x : Exchange} (h : x.isAnswerable = true) (b : Body) :
    x.deliver b = (.ok (), x.answered b) := by
  simp [deliver, h]

theorem deliver_of_not_answerable {x : Exchange} (h : x.isAnswerable = false) (b : Body) :
    x.deliver b = (.error (.consumed x.rid), x.spent) := by
  simp [deliver, h]

@[simp] theorem key_bind (x : Exchange) (id : StreamId) : (x.bind id).key = x.key := rfl

@[simp] theorem rid_bind (x : Exchange) (id : StreamId) : (x.bind id).rid = x.rid := rfl

@[simp] theorem key_spent (x : Exchange) : x.spent.key = x.key := rfl

@[simp] theorem rid_spent (x : Exchange) : x.spent.rid = x.rid := rfl

@[simp] theorem mailbox_spent (x : Exchange) : x.spent.mailbox = x.mailbox := rfl

@[simp] theorem key_answered (x : Exchange) (b : Body) : (x.answered b).key = x.key := rfl

@[simp] theorem rid_answered (x : Exchange) (b : Body) : (x.answered b).rid = x.rid := rfl

@[simp] theorem closeWith_hasSender (x : Exchange) (b : Body) :
    (x.closeWith b).hasSender = false := by
  unfold closeWith; split <;> rfl

@[simp] theorem mailbox_close (x : Exchange) : x.close.mailbox = x.mailbox := by
  unfold close; split <;> rfl

/-! ### The server half and the mailbox -/

/-- Nothing was handed over as long as the server can still hand something over. -/
structure Consistent (x : Exchange) : Prop where
  pending : x.hasSender = true → x.phase = .pending
  vacant : x.hasSender = true → x.mailbox = .vacant

theorem consistent_fresh (key rid : Nat) (secure : Bool) : (fresh key rid secure).Consistent :=
  ⟨fun _ => rfl, fun _ => rfl⟩

/-- Once the sender is gone there is nothing left to keep in agreement. -/
theorem Consistent.of_no_sender {x : Exchange} (h : x.hasSender = false) : x.Consistent :=
  ⟨fun hs => by simp [h] at hs, fun hs => by simp [h] at hs⟩

theorem Consistent.bind {x : Exchange} (h : x.Consistent) (id : StreamId) :
    (x.bind id).Consistent :=
  ⟨h.pending, h.vacant⟩

theorem Consistent.depart {x : Exchange} (h : x.Consistent) : x.depart.Consistent :=
  ⟨h.pending, h.vacant⟩

theorem Consistent.take {x : Exchange} (h : x.Consistent) : x.take.2.Consistent := by
  unfold Exchange.take
  split
  · rename_i r hr
    refine ⟨h.pending, fun hs => ?_⟩
    have hv : x.mailbox = .vacant := h.vacant hs
    rw [hv] at hr
    cases hr
  · exact h

theorem Consistent.act {x : Exchange} (h : x.Consistent) (a : Act) : (x.act a).Consistent := by
  cases a with
  | deliver body => exact .of_no_sender (x.deliver_hasSender body)
  | close =>
      simp only [Exchange.act, Exchange.close]
      split
      · exact .of_no_sender rfl
      · exact h
  | closeWith body => exact .of_no_sender (x.closeWith_hasSender body)
  | compress compression => exact ⟨h.pending, h.vacant⟩
  | drop => exact .of_no_sender rfl
  | take => exact h.take
  | depart => exact h.depart
  | leave => exact h.depart.take

theorem Consistent.after {x : Exchange} (h : x.Consistent) (acts : List Act) :
    (x.after acts).Consistent := by
  induction acts generalizing x with
  | nil => exact h
  | cons a acts ih => exact ih (h.act a)

theorem Consistent.vacant_of_answerable {x : Exchange} (h : x.Consistent)
    (ha : x.isAnswerable = true) : x.mailbox = .vacant := by
  simp only [isAnswerable, Bool.and_eq_true] at ha
  exact h.vacant ha.1.2

/-! ### What came into the mailbox -/

/-- The stanzas that came into the mailbox between two states of an exchange. -/
def newsSince (before after : Exchange) : List Stanza :=
  match before.mailbox, after.mailbox with
  | .vacant, .holding r => r.body.stanzas
  | _, _ => []

/-- Nothing came if the mailbox is as it was. -/
theorem newsSince_of_mailbox_eq {x y : Exchange} (h : y.mailbox = x.mailbox) :
    newsSince x y = [] := by
  unfold newsSince
  rw [h]
  cases x.mailbox <;> rfl

theorem newsSince_answered {x : Exchange} (h : x.mailbox = .vacant) (b : Body) :
    newsSince x (x.answered b) = b.stanzas := by
  simp [newsSince, answered, h]

/-- A last body without stanzas brings no news. -/
theorem newsSince_closeWith {x : Exchange} {b : Body} (h : b.stanzas = []) :
    newsSince x (x.closeWith b) = [] := by
  unfold closeWith
  split
  · cases hm : x.mailbox <;> simp [newsSince, answered, hm, h]
  · exact newsSince_of_mailbox_eq rfl

end Exchange

end HttpBinding
