import HttpBinding.Countdowns
import HttpBinding.Hub.Journal
import HttpBinding.Settings

/-!
# HttpBinding.Hub

All that one process has to do with the binding: its sessions, exchanges, countdowns, and the
work that waits to be done, under a clock that only moves when it is told to.

Design points:

* Sessions are known by their place in `sessions`. An exchange is in exactly one place: a session
  holds it, or it is `loose`, that is, not yet with a session or let go by one.
* The registry maps identifiers to sessions. The first table of countdowns belongs to it.
* Background work is a queue of jobs that are `ready` to take their turn, and the jobs that are
  `parked` until something happens. A job that is woken goes to the end of the queue.
* A session is *referred to* by its names, by the registry, and by the jobs of its countdowns, also
  of those that were stopped, until the job has had its last turn. A session to which nothing
  refers any more is given up (`reclaim`).
-/

namespace HttpBinding

/-- Work that is done in the background. -/
inductive Job where
  /-- Waits until the requester of an exchange has gone, and then has its session let go of
  what nobody waits for. -/
  | watch (session exchange : Nat)
  /-- Waits for the end of a countdown for a session, and then ends that session. -/
  | evict (timer generation session : Nat)
  /-- Waits for the answer to an exchange, at most until the deadline. -/
  | respond (name : String) (exchange deadline : Nat)
deriving DecidableEq, Repr

/-- The job waits for the answer to an exchange. -/
def Job.awaitsAnswer (key : Nat) : Job → Bool
  | .respond _ x _ => x == key
  | _ => false

/-- The job waits for the requester of an exchange to go. -/
def Job.awaitsDeparture (key : Nat) : Job → Bool
  | .watch _ x => x == key
  | _ => false

/-- The job refers to a session. -/
def Job.refersTo (k : Nat) : Job → Bool
  | .evict _ _ session => session == k
  | _ => false

/-- The job waits for the end of a countdown that does not run any more, where `c` is the table
`t` of countdowns. -/
def Job.isStopped (t : Nat) (c : Countdowns) : Job → Bool
  | .evict timer generation _ => timer == t && (c.find? generation).isNone
  | _ => false

/-- What names stand for. The latest meaning of a name comes first. -/
structure Names where
  sessions : List (String × Nat) := []
  connections : List (String × Nat) := []
  requesters : List (String × Nat) := []
  timers : List (String × Nat) := []
  /-- The ticket of the recorder added last under a label. -/
  recorders : List (String × Nat) := []
deriving DecidableEq, Repr

/-- The process. -/
structure Hub where
  /-- The time in milliseconds. -/
  now : Nat := 0
  /-- Sessions are created and registered here. -/
  managed : Bool := false
  settings : Settings := {}
  server : Server := {}
  /-- How many calls the server has had. -/
  calls : Nat := 0
  /-- Where stanzas go that are handed on by the sessions created here. -/
  sink : Sink := .recorded
  /-- The identifiers for new sessions, in the order in which they are drawn. -/
  ids : Nat → StreamId := fun _ => ⟨""⟩
  /-- How many identifiers were drawn. -/
  drawn : Nat := 0
  sessions : List (Session Observer) := []
  loose : List Exchange := []
  nextExchange : Nat := 0
  registry : List (StreamId × Nat) := []
  timers : List Countdowns := [{}]
  ready : List Job := []
  parked : List Job := []
  journal : List Entry := []
  names : Names := {}

namespace Hub

instance : Inhabited Hub := ⟨{}⟩

/-- The table of countdowns that belongs to the registry. -/
def registryTimer : Nat := 0

/-! ### Sessions and the journal -/

def session? (h : Hub) (k : Nat) : Option (Session Observer) := h.sessions[k]?

def setSession (h : Hub) (k : Nat) (s : Session Observer) : Hub :=
  { h with sessions := h.sessions.set k s }

/-- The session registered under an identifier. -/
def lookup (h : Hub) (id : StreamId) : Option Nat := h.registry.lookup id

/-- Writes a note down. -/
def write (h : Hub) (id : StreamId) (note : Note) : Hub :=
  { h with journal := h.journal ++ [⟨h.now, id.text, note⟩] }

/-! ### Jobs -/

/-- Puts a job at the end of the queue. -/
def spawn (h : Hub) (job : Job) : Hub := { h with ready := h.ready ++ [job] }

/-- Moves the parked jobs that meet a condition to the end of the queue. -/
def wake (h : Hub) (p : Job → Bool) : Hub :=
  { h with
    ready := h.ready ++ h.parked.filter p
    parked := h.parked.filter fun j => !p j }

/-! ### Countdowns -/

def timer (h : Hub) (t : Nat) : Countdowns := h.timers.getD t {}

/-- Replaces a table of countdowns; the jobs of countdowns that were stopped are woken to take
their last turn. -/
def setTimer (h : Hub) (t : Nat) (c : Countdowns) : Hub :=
  { h with timers := h.timers.set t c }.wake (Job.isStopped t c)

/-- Starts the countdown for a session anew. -/
def arm (h : Hub) (t k : Nat) : Hub :=
  match h.session? k with
  | none => h
  | some s =>
    let c := h.timer t
    let h := h.setTimer t (c.arm s.id k s.shown.closed h.now s.terms.inactivityTimeout)
    if s.shown.closed then h else h.spawn (.evict t c.next k)

/-- Stops the countdown for a session. -/
def cancel (h : Hub) (t k : Nat) : Hub :=
  match h.session? k with
  | none => h
  | some s => h.setTimer t ((h.timer t).cancel s.id)

/-! ### Exchanges -/

/-- The exchange with a key, wherever it is. -/
def exchange? (h : Hub) (key : Nat) : Option Exchange :=
  (h.loose ++ h.sessions.flatMap Session.held).find? fun x => x.key == key

/-- Changes the exchange with a key, wherever it is. -/
def mapExchange (h : Hub) (key : Nat) (f : Exchange → Exchange) : Hub :=
  let g (x : Exchange) := if x.key == key then f x else x
  { h with
    loose := h.loose.map g
    sessions := h.sessions.map fun s => { s with held := s.held.map g } }

/-- Makes a new exchange, which is loose at first. -/
def newExchange (h : Hub) (rid : Nat) (secure : Bool) : Hub × Exchange :=
  let x : Exchange := { key := h.nextExchange, rid, secure }
  ({ h with loose := h.loose ++ [x], nextExchange := h.nextExchange + 1 }, x)

/-- The server half of an exchange acts; a requester that can learn of an answer or of the end
is woken. -/
def serve (h : Hub) (key : Nat) (f : Exchange → Exchange) : Hub :=
  let h := h.mapExchange key f
  match h.exchange? key with
  | some x => if x.hasSender then h else h.wake (Job.awaitsAnswer key)
  | none => h

/-- The requester of an exchange stops waiting; whoever watches for that is woken. -/
def departRequester (h : Hub) (key : Nat) : Hub :=
  (h.mapExchange key Exchange.depart).wake (Job.awaitsDeparture key)

/-- Takes a loose exchange out of the hub, to be given to a session. -/
def takeLoose (h : Hub) (key : Nat) : Hub :=
  { h with loose := h.loose.filter fun x => x.key != key }

/-- Puts what an operation on a session has done into effect, except for telling observers: the
session is replaced, the exchanges it let go are loose, their requesters are woken, and stanzas
are handed on. -/
def absorb {α : Type} (h : Hub) (k : Nat) (r : Report Observer α) : Hub :=
  let h := { h.setSession k r.session with loose := h.loose ++ r.released }
  let h := r.released.foldl (fun h x => h.wake (Job.awaitsAnswer x.key)) h
  match r.session.sink with
  | .recorded =>
    r.failedOver.foldl (fun h stanza => h.write r.session.id (.failover stanza)) h
  | .discarded => h

/-! ### Sessions to which nothing refers -/

/-- Something refers to a session. -/
def isReferredTo (h : Hub) (k : Nat) : Bool :=
  h.names.sessions.any (fun e => e.2 == k) || h.registry.any (fun e => e.2 == k) ||
    (h.ready ++ h.parked).any (Job.refersTo k)

/-- Gives a session up if nothing refers to it any more. -/
def reclaim (h : Hub) (k : Nat) : Hub :=
  match h.session? k with
  | none => h
  | some s => if h.isReferredTo k then h else h.absorb k s.giveUp

end Hub

end HttpBinding
