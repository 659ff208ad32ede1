import HttpBinding.Session

/-!
# HttpBinding.Hub.Observer

Who observes the sessions of a hub.

The hub's own observer, the *steward*, keeps the registry and the countdowns in step with a
session. A *recorder* writes down what it hears, and may then act on the session or on a table
of countdowns; what it does is part of its description, so a hub with its observers is plain
data. Sessions, tables and recorders are called by the names under which a script knows them.
-/

namespace HttpBinding

/-- What an observer can hear of. -/
inductive Occasion where
  | opened
  | closed
  /-- The session has ended. -/
  | ended
deriving DecidableEq, Repr

/-- The occasion of an event. -/
def Event.occasion : Event → Occasion
  | .opened _ => .opened
  | .closed _ => .closed

/-- The request number of an event. -/
def Event.rid : Event → Nat
  | .opened rid | .closed rid => rid

/-- What a recorder may do when it has heard of something. -/
inductive Action where
  /-- Removes the recorder added last under a label. -/
  | remove (label : String)
  /-- Adds a recorder that only writes down what it hears. -/
  | add (label : String)
  /-- Sends a stanza to the client. -/
  | deliver (stanza : Stanza)
  /-- Brings in a secure exchange whose requester has gone already. -/
  | enter (rid : Nat) (poll : Bool)
  /-- Ends the session because the server goes away. -/
  | close
  /-- Lets go of the exchanges for which nobody waits. -/
  | release
  /-- Starts the countdown for a session. -/
  | arm (timer session : String)
  /-- Stops the countdown for a session. -/
  | cancel (timer session : String)
deriving DecidableEq, Repr

/-- An observer of a session. -/
inductive Observer where
  | steward
  /-- Pays no attention. -/
  | silent
  | recorder (label : String) (actions : List (Occasion × Action))
deriving DecidableEq, Repr

/-- How many countdowns an observer can start when it hears of one thing. -/
def Observer.weight : Observer → Nat
  | .steward => 1
  | .silent => 0
  | .recorder _ actions => actions.length

end HttpBinding
