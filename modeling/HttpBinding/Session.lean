import HttpBinding.Exchange

/-!
# HttpBinding.Session

One client's session: it outlives the many short exchanges that carry it.

A session *holds* exchanges until there is something to answer them with, and *buffers* stanzas
while it holds none. Design points:

* Every operation is a function on the session that gives a `Report`: the answer to the caller,
  the session afterwards, the events that observers are to hear, the exchanges that left the
  session, and the stanzas that can no longer reach the client. Nothing is called back from
  inside an operation.
* What observers may read while they hear of an event (`Shown`) is published when the operation
  has done its work, so they see the number held at its end.
* The bound on held exchanges is `Terms.bound`: a bound of zero is no bound.
-/

namespace HttpBinding

/-! ### Terms -/

/-- What client and server agreed on when the session began. Durations are in milliseconds,
except `wait`, which is in seconds. -/
structure Terms where
  /-- How long a request may be held before it is answered. -/
  wait : Nat := 60
  /-- How many requests may be held at once, as it was agreed. -/
  hold : Option Nat := none
  language : String := "en"
  /-- The session began on a secure channel. -/
  secure : Bool := false
  /-- The time to keep between two polls. -/
  pollingInterval : Nat := 0
  /-- The time of silence after which the session is ended. -/
  inactivityTimeout : Nat := 1800000
deriving DecidableEq, Repr

/-- The bound that is kept: agreeing on zero is agreeing on no bound. -/
def Terms.bound (t : Terms) : Option Nat := t.hold.filter fun h => 0 < h

/-! ### Events and reports -/

/-- What observers hear about the exchanges of an open session. -/
inductive Event where
  | opened (rid : Nat)
  | closed (rid : Nat)
deriving DecidableEq, Repr

/-- Where a stanza for the client went. -/
inductive Delivery where
  /-- It answered the held exchange with this request number. -/
  | sent (rid : Nat)
  /-- No exchange could carry it; it waits for the next one. -/
  | buffered
  /-- The session has ended; it was handed on. -/
  | failover
deriving DecidableEq, Repr

/-- What observers may read of a session at any time. -/
structure Shown where
  /-- How many exchanges are held. -/
  held : Nat := 0
  closed : Bool := false
deriving DecidableEq, Repr

/-- What becomes of stanzas that can no longer reach the client. -/
inductive Sink where
  | recorded
  | discarded
deriving DecidableEq, Repr, Inhabited

/-- The state of a session with observers of type `ο`. -/
structure Session (ο : Type) where
  id : StreamId
  terms : Terms := {}
  /-- Where stanzas go that are handed on. -/
  sink : Sink := .recorded
  /-- The exchanges held, the oldest first. -/
  held : List Exchange := []
  /-- The stanzas that wait for an exchange, the oldest first. -/
  buffer : List Stanza := []
  /-- When the client polled last, whether the poll was granted or not. -/
  lastPoll : Option Nat := none
  closed : Bool := false
  shown : Shown := {}
  /-- The observers with their tickets, in the order in which they were added. -/
  observers : List (Nat × ο) := []
  /-- The ticket of the next observer. -/
  nextTicket : Nat := 0
deriving DecidableEq, Repr

/-- What an operation on a session has done. -/
structure Report (ο α : Type) where
  answer : α
  session : Session ο
  /-- What the observers are to hear, in order. -/
  events : List Event := []
  /-- The exchanges that the session no longer holds, in the order in which it let them go. -/
  released : List Exchange := []
  /-- The stanzas that are handed on because the session has ended, in order. -/
  failedOver : List Stanza := []

/-- The calls that an operation makes on observers: each event goes to every observer that was
there when the first one was told, in order. -/
def Report.notices {ο α : Type} (r : Report ο α) : List (Event × ο) :=
  r.events.flatMap fun e => r.session.observers.map fun o => (e, o.2)

namespace Session

variable {ο : Type}

/-- Shows observers the state that the session is in. -/
def publish (s : Session ο) : Session ο :=
  { s with shown := { s.shown with held := s.held.length } }

/-! ### Observers -/

/-- Adds an observer and gives its ticket. -/
def observe (s : Session ο) (o : ο) : Nat × Session ο :=
  (s.nextTicket, { s with
    observers := s.observers ++ [(s.nextTicket, o)]
    nextTicket := s.nextTicket + 1 })

/-- Removes the observer with a ticket; tells whether there was one. -/
def unobserve (s : Session ο) (ticket : Nat) : Bool × Session ο :=
  (s.observers.any fun o => o.1 == ticket,
    { s with observers := s.observers.filter fun o => o.1 != ticket })

/-! ### Admission -/

/-- The exchanges of a queue for which somebody waits. -/
def waiting (held : List Exchange) : List Exchange := held.filter fun x => !x.isAbandoned

/-- The exchanges of a queue for which nobody waits any more, closed. -/
def abandoned (held : List Exchange) : List Exchange :=
  (held.filter Exchange.isAbandoned).map Exchange.close

/-- The events that report exchanges as closed. -/
def closures (xs : List Exchange) : List Event := xs.map fun x => .closed x.rid

/-- How many of `held` have to go before one more can be added under a bound. -/
def excess (bound : Option Nat) (held : List Exchange) : Nat :=
  match bound with
  | some h => held.length + 1 - h
  | none => 0

/-- Whether a poll at time `now` comes too early. -/
def pollsTooEarly (s : Session ο) (now : Nat) : Bool :=
  match s.lastPoll with
  | some previous => now - previous < s.terms.pollingInterval
  | none => false

/-- Takes in an exchange that passed all checks: it carries away the buffer if there is one, and
is held otherwise. -/
def enrol (s : Session ο) (x : Exchange) : Report ο (Except Fault Unit) :=
  let x := x.bind s.id
  let gone := abandoned s.held
  let held := waiting s.held
  if s.buffer.isEmpty then
    let n := excess s.terms.bound held
    let pushedOut := (held.take n).map fun y => y.closeWith .empty
    { answer := .ok ()
      session := publish { s with held := held.drop n ++ [x] }
      events := closures gone ++ closures pushedOut ++ [.opened x.rid]
      released := gone ++ pushedOut }
  else
    match x.deliver (.delivery s.buffer) with
    | (.ok _, x) =>
      { answer := .ok ()
        session := publish { s with held, buffer := [] }
        events := closures gone ++ [.opened x.rid, .closed x.rid]
        released := gone ++ [x] }
    | (.error fault, x) =>
      { answer := .error fault
        session := publish { s with held }
        events := closures gone
        released := gone ++ [x.drop] }

/-- Admits an exchange at time `now`. A poll that follows the previous one too closely is
refused with a fault that ends the session; every poll of an open session counts as one,
whatever comes of it. A session that began on a secure channel takes secure exchanges only.
An exchange that is refused is let go. -/
def accept (s : Session ο) (x : Exchange) (poll : Bool) (now : Nat) :
    Report ο (Except Fault Unit) :=
  if s.closed then
    { answer := .error (.sessionClosed s.id), session := s, released := [x.drop] }
  else
    let polled := if poll then { s with lastPoll := some now } else s
    if poll && s.pollsTooEarly now then
      { answer := .error .pollingTooFrequent, session := polled, released := [x.drop] }
    else if s.terms.secure && !x.secure then
      { answer := .error .insecureConnection, session := polled, released := [x.drop] }
    else
      polled.enrol x

/-! ### Delivery -/

/-- What became of offering a body to a queue. -/
structure Offer where
  /-- The exchanges that could not carry it, in order. -/
  passed : List Exchange
  /-- The exchange that took it. -/
  taken : Option Exchange
  /-- The exchanges behind that one. -/
  rest : List Exchange
deriving DecidableEq, Repr

/-- Offers a body to the exchanges of a queue, the oldest first, until one takes it. -/
def offer (body : Body) : List Exchange → Offer
  | [] => ⟨[], none, []⟩
  | x :: xs =>
    match x.deliver body with
    | (.ok _, x) => ⟨[], some x, xs⟩
    | (.error _, x) =>
      let o := offer body xs
      { o with passed := x :: o.passed }

/-- Sends a stanza to the client: with the oldest exchange that can carry it, or else with the
next one to be admitted. A session that has ended hands the stanza on. -/
def deliver (s : Session ο) (stanza : Stanza) : Report ο Delivery :=
  if s.closed then
    { answer := .failover, session := s, failedOver := [stanza] }
  else
    let o := offer (.delivery [stanza]) s.held
    match o.taken with
    | some x =>
      { answer := .sent x.rid
        session := publish { s with held := o.rest }
        events := closures (o.passed ++ [x])
        released := o.passed ++ [x] }
    | none =>
      { answer := .buffered
        session := publish { s with held := o.rest, buffer := s.buffer ++ [stanza] }
        events := closures o.passed
        released := o.passed }

/-! ### Release and end -/

/-- Lets go of the exchanges for which nobody waits any more, and tells how many there were. -/
def release (s : Session ο) : Report ο Nat :=
  if s.closed then { answer := 0, session := s }
  else
    let gone := abandoned s.held
    { answer := gone.length
      session := publish { s with held := waiting s.held }
      events := closures gone
      released := gone }

/-- The reason given to clients when the session ends. -/
def condition (shutdown : Bool) : Option String :=
  if shutdown then some Body.systemShutdown else none

/-- Ends the session: held exchanges are told so, buffered stanzas are handed on, and the
observers are discharged. The answer lists the observers that are to hear of the end. Ending
a session again does nothing. -/
def close (s : Session ο) (shutdown : Bool) : Report ο (List ο) :=
  if s.closed then { answer := [], session := s }
  else
    { answer := s.observers.map Prod.snd
      session := { s with
        held := []
        buffer := []
        closed := true
        shown := ⟨0, true⟩
        observers := [] }
      released := s.held.map fun x => x.closeWith (.terminate (condition shutdown))
      failedOver := s.buffer }

/-- Gives the session up without ending it: the exchanges it holds are let go without an answer,
what it buffers is lost, and nobody is told. -/
def giveUp (s : Session ο) : Report ο Unit where
  answer := ()
  session := publish { s with held := [], buffer := [] }
  released := s.held.map Exchange.drop

/-! ### Views -/

@[simp] theorem publish_held (s : Session ο) : s.publish.held = s.held := rfl
@[simp] theorem publish_buffer (s : Session ο) : s.publish.buffer = s.buffer := rfl
@[simp] theorem publish_closed (s : Session ο) : s.publish.closed = s.closed := rfl
@[simp] theorem publish_observers (s : Session ο) : s.publish.observers = s.observers := rfl
@[simp] theorem publish_shown_held (s : Session ο) : s.publish.shown.held = s.held.length := rfl

@[simp] theorem offer_nil (body : Body) : offer body [] = ⟨[], none, []⟩ := rfl

/-- The end of a session is final. -/
@[simp] theorem closed_close (s : Session ο) (shutdown : Bool) :
    (s.close shutdown).session.closed = true := by
  unfold close
  split <;> simp_all

theorem close_of_closed {s : Session ο} (h : s.closed = true) (shutdown : Bool) :
    (s.close shutdown).session = s ∧ (s.close shutdown).answer = [] := by
  simp [close, h]

end Session

end HttpBinding
