import HttpBinding.Session

/-!
# HttpBinding.Hub.Server

The messaging server behind the binding, as far as sessions have to do with it.

The server is told when a session begins and ends, is asked for its features, and is given the
stanzas of the client. During each of these calls it may in turn demand something for the
session in question; `Server.demands` says what. A server may remember the calls it has had, so
its demands depend on how many there were; `Server.react` is enough for one without a memory.
-/

namespace HttpBinding

/-- A call to the messaging server about one session. -/
inductive Call where
  | created
  | features
  | send (stanza : Stanza)
  | closed
deriving DecidableEq, Repr

/-- What the server may demand during a call. -/
inductive Demand where
  /-- Send a stanza to the client. -/
  | deliver (stanza : Stanza)
  /-- End the session. -/
  | close
deriving DecidableEq, Repr

/-- The messaging server. -/
structure Server where
  /-- The features it offers, as XML. -/
  features : String := ""
  /-- Whether the answer that begins a session may be compressed. -/
  compression : Compression := .disabled
  /-- What it demands during a call, whatever went before. -/
  react : StreamId → Call → List Demand := fun _ _ => []
  /-- What it demands during a call, after so many calls before. -/
  demands : Nat → StreamId → Call → List Demand := fun _ => react

instance : Inhabited Server := ⟨{}⟩

end HttpBinding
