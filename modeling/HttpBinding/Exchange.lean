import HttpBinding.Body
import HttpBinding.Fault

/-!
# HttpBinding.Exchange

One HTTP request and its answer.

An exchange has two halves. The *server* half may hand over one body, or be closed or let go
without one. The *requester* half takes the answer, or stops waiting. Both halves are kept in
one value, so that what one side can still do is read off what the other side has done:

* a body is handed over only while the exchange is `pending`, its sender is still there and the
  requester still listens;
* whatever comes of the attempt, the sender is used up by it;
* an answer that was handed over waits in the `mailbox` until the requester takes it, also when
  the requester stops waiting first.
-/

namespace HttpBinding

/-- Whether an answer may be compressed. -/
inductive Compression where
  | disabled
  | optional
deriving DecidableEq, Repr, Inhabited

/-- What the requester receives. -/
structure Response where
  body : Body
  compression : Compression := .disabled
deriving DecidableEq, Repr

/-- How far the server half has come. -/
inductive Phase where
  /-- Waiting for a body. -/
  | pending
  /-- A body was handed over. -/
  | delivered
  /-- Over: closed without a body, after its last body, or because the requester had gone. -/
  | closed
deriving DecidableEq, Repr, Inhabited

/-- Where the answer is. -/
inductive Mailbox where
  /-- Nothing was handed over. -/
  | vacant
  /-- An answer waits to be taken. -/
  | holding (response : Response)
  /-- The answer was taken. -/
  | emptied
deriving DecidableEq, Repr

/-- One request together with its answer. -/
structure Exchange where
  /-- Tells this exchange from all others. -/
  key : Nat
  /-- The number that the client gave to the request. -/
  rid : Nat
  /-- The request came over a secure channel. -/
  secure : Bool
  compression : Compression := .disabled
  phase : Phase := .pending
  /-- The session to which the exchange belongs. -/
  boundTo : Option StreamId := none
  /-- The server can still hand over an answer. -/
  hasSender : Bool := true
  mailbox : Mailbox := .vacant
  /-- The requester would still take an answer. -/
  listening : Bool := true
  /-- The requester has given notice that it stopped waiting. -/
  departed : Bool := false
deriving DecidableEq, Repr

namespace Exchange

/-! ### The server half -/

/-- Nobody waits for an answer that could still be given. -/
def isAbandoned (x : Exchange) : Bool := x.departed || !x.hasSender || !x.listening

/-- Ties the exchange to a session. -/
def bind (x : Exchange) (id : StreamId) : Exchange := { x with boundTo := some id }

/-- Sets whether the answer may be compressed. -/
def compress (x : Exchange) (compression : Compression) : Exchange := { x with compression }

/-- A body handed over now would reach the requester. -/
def isAnswerable (x : Exchange) : Bool := x.phase == .pending && x.hasSender && x.listening

/-- The exchange with `body` in the mailbox. -/
def answered (x : Exchange) (body : Body) : Exchange :=
  { x with hasSender := false, phase := .delivered, mailbox := .holding ⟨body, x.compression⟩ }

/-- The exchange after an attempt that failed: if it was waiting for a body it is closed now. -/
def spent (x : Exchange) : Exchange :=
  { x with
    hasSender := false
    phase := if x.phase = .pending ∧ x.hasSender then .closed else x.phase }

/-- Hands over `body` as the answer. Fails if the exchange was used before or if the requester
no longer listens. -/
def deliver (x : Exchange) (body : Body) : Except Fault Unit × Exchange :=
  if x.isAnswerable then (.ok (), x.answered body) else (.error (.consumed x.rid), x.spent)

/-- Gives the exchange up without an answer. -/
def close (x : Exchange) : Exchange :=
  if x.phase = .pending then { x with hasSender := false, phase := .closed } else x

/-- Hands over a last body if that is possible, and closes. -/
def closeWith (x : Exchange) (body : Body) : Exchange :=
  if x.isAnswerable then { x.answered body with phase := .closed } else x.spent

/-- The server lets go of its half. -/
def drop (x : Exchange) : Exchange := { x with hasSender := false }

/-! ### The requester half -/

/-- Takes the answer if it is there. -/
def take (x : Exchange) : Option Response × Exchange :=
  match x.mailbox with
  | .holding response => (some response, { x with mailbox := .emptied })
  | _ => (none, x)

/-- Stops waiting. An answer that was handed over before stays in the mailbox. -/
def depart (x : Exchange) : Exchange := { x with listening := false, departed := true }

/-- Stops waiting and takes the answer if it is there. -/
def leave (x : Exchange) : Option Response × Exchange := x.depart.take

/-- What waiting for the answer comes to, if that is settled already: the answer, or the fault
that there will be none. -/
def outcome? (x : Exchange) : Option (Except Fault Response) :=
  match x.mailbox with
  | .holding response => some (.ok response)
  | _ => if x.hasSender then none else some (.error (.unanswered x.rid))

/-- What a requester is given whose wait ended without an answer. -/
def expired : Response := ⟨.empty, .disabled⟩

/-! ### What an attempt to answer comes to -/

@[simp] theorem deliver_key (x : Exchange) (b : Body) : (x.deliver b).2.key = x.key := by
  unfold deliver; split <;> rfl

@[simp] theorem deliver_rid (x : Exchange) (b : Body) : (x.deliver b).2.rid = x.rid := by
  unfold deliver; split <;> rfl

@[simp] theorem deliver_hasSender (x : Exchange) (b : Body) :
    (x.deliver b).2.hasSender = false := by
  unfold deliver; split <;> rfl

@[simp] theorem closeWith_key (x : Exchange) (b : Body) : (x.closeWith b).key = x.key := by
  unfold closeWith; split <;> rfl

@[simp] theorem closeWith_rid (x : Exchange) (b : Body) : (x.closeWith b).rid = x.rid := by
  unfold closeWith; split <;> rfl

@[simp] theorem close_key (x : Exchange) : x.close.key = x.key := by
  unfold close; split <;> rfl

@[simp] theorem close_rid (x : Exchange) : x.close.rid = x.rid := by
  unfold close; split <;> rfl

end Exchange

end HttpBinding
