import HttpBinding.Hub.Service
import HttpBinding.Hub.Work

/-!
# HttpBinding.Script.Step

The steps of a script: what users of the binding do, with everything called by name.
-/

namespace HttpBinding.Script

/-- One step. -/
inductive Step where
  /-- A client's first request. If `gone`, its requester leaves before it is answered. -/
  | create (name requester : String) (rid : Nat) (secure : Bool) (request : Request)
      (gone : Bool)
  | lookup (id : StreamId)
  | resolve (id : StreamId)
  /-- A further request of a client. -/
  | forward (session requester : String) (rid : Nat) (secure : Bool) (payload : List Stanza)
  /-- A stanza for the client behind an identifier. -/
  | push (id : StreamId) (stanza : Stanza)
  | closeId (id : StreamId)
  | shutdown
  | stats
  | newTimer (timer : String)
  | arm (timer session : String)
  | cancel (timer session : String)
  | cancelAll (timer : String)
  | isArmed (timer : String) (id : StreamId)
  /-- A session that is not registered. -/
  | newSession (name : String) (id : StreamId) (terms : Terms)
  | info (session : String)
  | enter (session connection : String) (poll : Bool)
  | deliver (session : String) (stanza : Stanza)
  | release (session : String)
  | close (session : String) (shutdown : Bool)
  | listen (session label : String) (actions : List (Occasion × Action))
  | listenSilently (session : String)
  | unlisten (session label : String)
  /-- A new exchange, with names for both halves. -/
  | connect (connection requester : String) (rid : Nat) (secure : Bool)
  | answer (connection : String) (text : String)
  | closeConnection (connection : String)
  | closeConnectionWith (connection : String) (text : String)
  | compress (connection : String) (compression : Compression)
  | inspect (connection : String)
  | dropConnection (connection : String)
  | take (requester : String)
  | leave (requester : String)
  | abandon (requester : String)
  /-- Looks for the answer once, and stops waiting. -/
  | receive (requester : String)
  /-- Waits for the answer. -/
  | respond (requester : String) (millis : Nat)
  /-- Waits for the answer in the background. -/
  | respondLater (requester : String) (millis : Nat)
  | settle
  | advance (millis : Nat)

end HttpBinding.Script
