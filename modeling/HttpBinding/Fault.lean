import HttpBinding.StreamId

/-!
# HttpBinding.Fault

Why a request, a delivery or a session was refused.

A fault concerns one request or one session and never the whole process. Each has a text, the
HTTP status that answers it, and the question whether the session has to end because of it.
-/

namespace HttpBinding

/-- The reasons for a refusal. -/
inductive Fault where
  /-- The client broke a rule of the binding. -/
  | policy (text : String) (status : Nat) (endsSession : Bool)
  /-- The exchange was answered or closed before, or its requester has gone. -/
  | consumed (rid : Nat)
  /-- The exchange ended without an answer. -/
  | unanswered (rid : Nat)
  /-- No session is registered under the identifier. -/
  | unknownSession (id : StreamId)
  /-- The session has ended. -/
  | sessionClosed (id : StreamId)
  /-- Every identifier tried was taken. -/
  | idsExhausted (attempts : Nat)
deriving DecidableEq, Repr

namespace Fault

/-! ### Statuses -/

/-- A broken rule. -/
def forbidden : Nat := 403
/-- An unknown or ended session. -/
def notFound : Nat := 404
/-- An exchange that is over. -/
def gone : Nat := 410
/-- No session can be opened now. -/
def serviceUnavailable : Nat := 503

/-- An open channel was used on a session that began on a secure one. -/
def insecureConnection : Fault :=
  .policy ("Session was started from secure connection, all connections on this " ++
    "session must be secured.") forbidden false

/-- Two polls came closer together than the session allows; the session has to end. -/
def pollingTooFrequent : Fault := .policy "Too frequent polling" forbidden true

/-- The text shown for a fault. -/
def message : Fault → String
  | .policy text _ _ => text
  | .consumed rid => s!"connection {rid} was already delivered to or closed"
  | .unanswered rid => s!"connection {rid} closed without a response"
  | .unknownSession id => s!"session not found: {id}"
  | .sessionClosed id => s!"session {id} is closed"
  | .idsExhausted attempts => s!"could not allocate an unused stream id after {attempts} attempts"

/-- The HTTP status that answers a fault. -/
def status : Fault → Nat
  | .policy _ status _ => status
  | .consumed _ | .unanswered _ => gone
  | .unknownSession _ | .sessionClosed _ => notFound
  | .idsExhausted _ => serviceUnavailable

/-- The session has to be ended because of the fault. -/
def endsSession : Fault → Bool
  | .policy _ _ ends => ends
  | _ => false

/-- The fault is a broken rule of the binding. -/
def isPolicy : Fault → Bool
  | .policy .. => true
  | _ => false

end Fault

end HttpBinding
