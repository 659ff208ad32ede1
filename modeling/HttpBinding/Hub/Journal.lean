import HttpBinding.Hub.Observer
import HttpBinding.Hub.Server

/-!
# HttpBinding.Hub.Journal

What a hub writes down: answers, and notes of what was heard and called.

Entries are written in the order in which things happen. `Journal.sorted` puts them in order of
time and identifier, and leaves entries about one session at one time as they are.
-/

namespace HttpBinding

/-- How many sessions there are. -/
structure Stats where
  total : Nat
  /-- Sessions that hold an exchange. -/
  connected : Nat
  /-- Sessions that hold none. -/
  idle : Nat
deriving DecidableEq, Repr

/-- What an operation answers. -/
inductive Answer where
  | done
  | nothing
  | truth (b : Bool)
  | number (n : Nat)
  | fault (f : Fault)
  | delivery (d : Delivery)
  | response (r : Response)
  /-- There is no answer yet. -/
  | waiting
  /-- A name stands for nothing. -/
  | noHandle
  | session (s : Session Observer)
  | exchange (x : Exchange)
  /-- What came of an attempt to answer an exchange, and the exchange after it. -/
  | attempt (result : Except Fault Unit) (x : Exchange)
  /-- A request was taken in. -/
  | accepted (rid : Nat)
  /-- The names of a session. -/
  | names (names : List String)
  | stats (s : Stats)
  /-- Whether a countdown counts for an identifier, and whether none does for any. -/
  | armed (armed noneArmed : Bool)

/-- Nothing to report, or a fault. -/
def Answer.ofExcept : Except Fault Unit → Answer
  | .ok _ => .done
  | .error f => .fault f

/-- Something worth writing down. -/
inductive Note where
  | created
  | features (wait : Nat) (hold : Option Nat) (language : String) (secure : Bool)
  | send (stanza : Stanza)
  /-- The server was told of the end; whether a session is registered under the identifier. -/
  | closed (registered : Bool)
  /-- The server demanded something during a call. -/
  | demand (call : Call) (demand : Demand) (answer : Answer)
  /-- A stanza was handed on. -/
  | failover (stanza : Stanza)
  /-- A recorder heard of something, and what it saw then: how many exchanges are held, whether
  the session has ended, and whether its countdown runs. -/
  | heard (occasion : Occasion) (label : String) (rid : Option Nat) (held : Nat) (closed : Bool)
      (armed : Option Bool)
  /-- A recorder acted. -/
  | acted (label : String) (action : Action) (answer : Answer)
  /-- A requester that waited in the background has its answer. -/
  | response (name : String) (r : Response)

/-- A note with its time and the identifier of the session. -/
structure Entry where
  time : Nat
  about : String
  note : Note

/-- An entry comes before another one. -/
def Entry.le (a b : Entry) : Bool :=
  decide (a.time < b.time) || (a.time == b.time && decide (a.about ≤ b.about))

/-- The entries in order of time and identifier. -/
def Journal.sorted (entries : List Entry) : List Entry := entries.mergeSort Entry.le

end HttpBinding
