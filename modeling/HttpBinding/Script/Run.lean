import HttpBinding.Script.Step

/-!
# HttpBinding.Script.Run

Running scripts on a hub.

A step that uses a name which stands for nothing answers so and changes nothing. A name that is
given again stands for the new thing; a half of an exchange that loses its name is let go, and so is
a session to which nothing else refers. After each step the run shows the answer, what was written
down, and the state of all that has a name.
-/

namespace HttpBinding.Script

open HttpBinding (Hub)

/-- How the registry's table of countdowns is called. -/
def registryTimerName : String := "manager"

/-- Gives a name to something, instead of what it stood for before. -/
def rename (names : List (String × Nat)) (name : String) (key : Nat) : List (String × Nat) :=
  (name, key) :: names.filter fun e => e.1 != name

/-- Takes a name away. -/
def forget (names : List (String × Nat)) (name : String) : List (String × Nat) :=
  names.filter fun e => e.1 != name

/-! ### Names -/

/-- Gives a name to a session. -/
def nameSession (h : Hub) (name : String) (k : Nat) : Hub :=
  let before := h.names.sessions.lookup name
  let h := { h with names := { h.names with sessions := rename h.names.sessions name k } }
  before.elim h h.reclaim

/-- Gives a name to the server half of an exchange. -/
def nameConnection (h : Hub) (name : String) (key : Nat) : Hub :=
  let h := match h.names.connections.lookup name with
    | some old => h.serve old Exchange.drop
    | none => h
  { h with names := { h.names with connections := rename h.names.connections name key } }

/-- Gives a name to the requester of an exchange. -/
def nameRequester (h : Hub) (name : String) (key : Nat) : Hub :=
  let h := match h.names.requesters.lookup name with
    | some old => h.departRequester old
    | none => h
  { h with names := { h.names with requesters := rename h.names.requesters name key } }

/-- The server half of an exchange has no name any more. -/
def forgetConnection (h : Hub) (name : String) : Hub :=
  { h with names := { h.names with connections := forget h.names.connections name } }

/-- The requester of an exchange has no name any more. -/
def forgetRequester (h : Hub) (name : String) : Hub :=
  { h with names := { h.names with requesters := forget h.names.requesters name } }

/-- Does something with the session of a name. -/
def withSession (h : Hub) (name : String) (f : Nat → Session Observer → Hub × Answer) :
    Hub × Answer :=
  match h.names.sessions.lookup name with
  | none => (h, .noHandle)
  | some k =>
    match h.session? k with
    | none => (h, .noHandle)
    | some s => f k s

/-- Does something with the exchange that a name in a list stands for. -/
def withExchange (h : Hub) (names : List (String × Nat)) (name : String)
    (f : Exchange → Hub × Answer) : Hub × Answer :=
  match (names.lookup name).bind h.exchange? with
  | none => (h, .noHandle)
  | some x => f x

/-- Does something with the table of countdowns of a name. -/
def withTimer (h : Hub) (name : String) (f : Nat → Hub × Answer) : Hub × Answer :=
  match h.names.timers.lookup name with
  | none => (h, .noHandle)
  | some t => f t

/-- Does something with the registry, if there is one. -/
def withRegistry (h : Hub) (f : Unit → Hub × Answer) : Hub × Answer :=
  if h.managed then f () else (h, .noHandle)

/-- The server half of a named exchange acts; the answer shows the exchange afterwards. -/
def serveNamed (h : Hub) (name : String) (f : Exchange → Exchange) : Hub × Answer :=
  withExchange h h.names.connections name fun x =>
    let h := h.serve x.key f
    (h, ((h.exchange? x.key).map .exchange).getD .noHandle)

/-! ### Steps -/

/-- A session with the state in which it is. -/
def showSession (h : Hub) (k : Nat) : Answer := ((h.session? k).map .session).getD .noHandle

/-- What a look for the answer gives. -/
def received : Option Response → Answer
  | some r => .response r
  | none => .nothing

/-- A step of the registry's service. -/
def serviceStep (h : Hub) : Step → Hub × Answer
  | .create name requester rid secure request gone =>
    let (h, x) := h.newExchange rid secure
    let h := if gone then h.departRequester x.key else nameRequester h requester x.key
    match h.create request x.key with
    | (h, .ok k) =>
      let h := nameSession h name k
      (h, showSession h k)
    | (h, .error fault) => (h, .fault fault)
  | .lookup id =>
    (h, match h.lookup id with
      | none => .nothing
      | some k => .names ((h.names.sessions.reverse.filter fun e => e.2 == k).map Prod.fst))
  | .resolve id =>
    (h, match h.lookup id with
      | none => .fault (.unknownSession id)
      | some k => showSession h k)
  | .forward session requester rid secure payload =>
    withSession h session fun k _ =>
      match h.forward rid k secure payload with
      | (h, .ok key) => (nameRequester h requester key, .accepted rid)
      | (h, .error fault) => (h, .fault fault)
  | .push id stanza =>
    match h.push id stanza with
    | (h, .ok delivery) => (h, .delivery delivery)
    | (h, .error fault) => (h, .fault fault)
  | .closeId id =>
    let (h, result) := h.closeId id
    (h, .ofExcept result)
  | .shutdown => (h.shutdown, .done)
  | .stats => (h, .stats h.stats)
  | _ => (h, .noHandle)

/-- A step about tables of countdowns. -/
def timerStep (h : Hub) : Step → Hub × Answer
  | .newTimer timer =>
    let t := h.timers.length
    ({ h with
        timers := h.timers ++ [{}]
        names := { h.names with timers := rename h.names.timers timer t } }, .done)
  | .arm timer session =>
    withTimer h timer fun t => withSession h session fun k _ => (h.arm t k, .done)
  | .cancel timer session =>
    withTimer h timer fun t => withSession h session fun k _ => (h.cancel t k, .done)
  | .cancelAll timer =>
    withTimer h timer fun t => (h.setTimer t (h.timer t).cancelAll, .done)
  | .isArmed timer id =>
    withTimer h timer fun t =>
      (h, .armed ((h.timer t).isArmed id) ((h.timer t).size == 0))
  | _ => (h, .noHandle)

/-- A step about one session. -/
def sessionStep (h : Hub) : Step → Hub × Answer
  | .newSession name id terms =>
    let k := h.sessions.length
    let h := nameSession (h.addSession { id, terms }) name k
    (h, showSession h k)
  | .info session => withSession h session fun k _ => (h, showSession h k)
  | .enter session connection poll =>
    withSession h session fun k _ =>
      withExchange h h.names.connections connection fun x =>
        let (h, result) := (forgetConnection h connection).accept k x poll
        (h, .ofExcept result)
  | .deliver session stanza =>
    withSession h session fun k _ =>
      let (h, delivery) := h.deliver k stanza
      (h, .delivery delivery)
  | .release session =>
    withSession h session fun k _ =>
      let (h, n) := h.release k
      (h, .number n)
  | .close session shutdown => withSession h session fun k _ => (h.close k shutdown, .done)
  | .listen session label actions =>
    withSession h session fun k _ => (h.addRecorder k label (.recorder label actions), .done)
  | .listenSilently session =>
    withSession h session fun k s => (h.setSession k (s.observe .silent).2, .done)
  | .unlisten session label =>
    withSession h session fun k _ =>
      let (h, found) := h.removeRecorder k label
      (h, found.elim .noHandle .truth)
  | _ => (h, .noHandle)

/-- A step about one exchange. -/
def exchangeStep (h : Hub) : Step → Hub × Answer
  | .connect connection requester rid secure =>
    let (h, x) := h.newExchange rid secure
    (nameRequester (nameConnection h connection x.key) requester x.key, .exchange x)
  | .answer connection text =>
    withExchange h h.names.connections connection fun x =>
      let (result, after) := x.deliver (.literal text)
      (h.serve x.key fun _ => after, .attempt result after)
  | .closeConnection connection => serveNamed h connection Exchange.close
  | .closeConnectionWith connection text =>
    serveNamed h connection fun x => x.closeWith (.literal text)
  | .compress connection compression =>
    serveNamed h connection fun x => x.compress compression
  | .inspect connection => serveNamed h connection id
  | .dropConnection connection =>
    withExchange h h.names.connections connection fun x =>
      (forgetConnection (h.serve x.key Exchange.drop) connection, .done)
  | .take requester =>
    withExchange h h.names.requesters requester fun x =>
      (h.mapExchange x.key fun x => x.take.2, received x.take.1)
  | .leave requester =>
    withExchange h h.names.requesters requester fun x =>
      ((h.departRequester x.key).mapExchange x.key fun x => x.take.2, received x.leave.1)
  | .abandon requester =>
    withExchange h h.names.requesters requester fun x =>
      (forgetRequester (h.departRequester x.key) requester, .done)
  | .receive requester =>
    withExchange h h.names.requesters requester fun x =>
      (forgetRequester (h.departRequester x.key) requester,
        match x.outcome? with
        | some (.ok r) => .response r
        | some (.error fault) => .fault fault
        | none => .waiting)
  | .respond requester millis =>
    withExchange h h.names.requesters requester fun x =>
      let (h, r) := (forgetRequester h requester).respond x.key millis
      (h, .response r)
  | .respondLater requester millis =>
    withExchange h h.names.requesters requester fun x =>
      ((forgetRequester h requester).spawn (.respond requester x.key (h.now + millis)), .done)
  | _ => (h, .noHandle)

/-- A step on a hub, and what it answers. -/
def step (h : Hub) : Step → Hub × Answer
  | .settle => (h.settle, .done)
  | .advance millis =>
    let h := h.advance millis
    (h, .number h.now)
  | s@(.create ..) | s@(.lookup ..) | s@(.resolve ..) | s@(.forward ..) | s@(.push ..)
  | s@(.closeId ..) | s@.shutdown | s@.stats => withRegistry h fun _ => serviceStep h s
  | s@(.newTimer ..) | s@(.arm ..) | s@(.cancel ..) | s@(.cancelAll ..) | s@(.isArmed ..) =>
    timerStep h s
  | s@(.newSession ..) | s@(.info ..) | s@(.enter ..) | s@(.deliver ..) | s@(.release ..)
  | s@(.close ..) | s@(.listen ..) | s@(.listenSilently ..) | s@(.unlisten ..) =>
    sessionStep h s
  | s => exchangeStep h s

/-! ### Runs -/

/-- What is shown after a step. -/
structure Shot where
  answer : Answer
  /-- What was written down during the step. -/
  journal : List Entry
  /-- Each named session: how many exchanges it holds, how many stanzas it buffers, and whether
  it has ended. -/
  sessions : List (String × Nat × Nat × Bool)
  /-- Each named table of countdowns, and for how many identifiers a countdown counts. -/
  timers : List (String × Nat)
  /-- How many sessions are registered, if there is a registry. -/
  registered : Option Nat

/-- Shows a hub after a step. -/
def shoot (h : Hub) (answer : Answer) : Shot where
  answer := answer
  journal := Journal.sorted h.journal
  sessions := h.names.sessions.filterMap fun e =>
    (h.session? e.2).map fun s => (e.1, s.shown.held, s.buffer.length, s.shown.closed)
  timers := h.names.timers.map fun e => (e.1, (h.timer e.2).size)
  registered := if h.managed then some h.registry.length else none

/-- Runs steps on a hub, one after the other. -/
def run : Hub → List Step → List Shot
  | _, [] => []
  | h, s :: steps =>
    let (h, answer) := step { h with journal := [] } s
    shoot h answer :: run h steps

/-- A hub on which nothing has happened, without a registry. -/
def bare : Hub := {}

/-- A hub on which nothing has happened, with a registry. -/
def withService (settings : Settings) (server : Server) (sink : Sink) (ids : Nat → StreamId) :
    Hub where
  managed := true
  settings := settings
  server := server
  sink := sink
  ids := ids
  names := { timers := [(registryTimerName, Hub.registryTimer)] }

end HttpBinding.Script
