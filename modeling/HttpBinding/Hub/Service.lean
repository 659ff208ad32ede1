import HttpBinding.Hub.Closing
import HttpBinding.Request

/-!
# HttpBinding.Hub.Service

The registry's service: new sessions, further requests, and the end of everything.

A session begins with the first identifier drawn that is not taken, out of at most `maxDraws`.
It is registered before the server hears of it, and its steward observes it only after that. The
client may be gone before it is told; then the session stays until its countdown ends.
-/

namespace HttpBinding.Hub

/-- How many identifiers are drawn for one session at most. -/
def maxDraws : Nat := 8

/-- The seconds for which a request may be held if the client does not say. -/
def defaultWait : Nat := 60

/-- The number of requests that may be held if the client does not say. -/
def defaultHold : Nat := 1

/-- Draws identifiers until one is not taken, at most so many; gives the number of identifiers
drawn afterwards, and the one that is not taken. -/
def draw (h : Hub) : Nat → Nat → Nat × Option StreamId
  | 0, drawn => (drawn, none)
  | draws + 1, drawn =>
    let id := h.ids drawn
    if (h.lookup id).isSome then h.draw draws (drawn + 1) else (drawn + 1, some id)

/-- The terms of a session that a request asks for. -/
def termsFor (h : Hub) (request : Request) (secure : Bool) : Terms where
  wait := request.count "wait" defaultWait
  hold := request.hold defaultHold
  language := request.language
  secure := secure
  pollingInterval := h.settings.pollingMillis
  inactivityTimeout := h.settings.inactivityMillis

/-- Adds a session to the hub. -/
def addSession (h : Hub) (s : Session Observer) : Hub := { h with sessions := h.sessions ++ [s] }

/-- The answer that begins a session. -/
def creation (h : Hub) (s : Session Observer) : Creation where
  id := s.id
  requests := h.settings.maxRequests
  inactivity := s.terms.inactivityTimeout / 1000
  polling := h.settings.pollingInterval
  wait := s.terms.wait
  features := h.server.features

/-- Adds the steward to a session. -/
def addSteward (h : Hub) (k : Nat) : Hub :=
  match h.session? k with
  | none => h
  | some s => h.setSession k (s.observe .steward).2

/-- Begins a session under a free identifier, with the exchange `key` to answer on. -/
def begin (h : Hub) (id : StreamId) (terms : Terms) (key : Nat) : Hub :=
  let k := h.sessions.length
  let s : Session Observer := { id, terms, sink := h.sink }
  let h := { h.addSession s with registry := (id, k) :: h.registry }
  let h := (h.write id .created).call id .created
  let h := h.addSteward k
  let h := h.write id (.features s.terms.wait s.terms.bound s.terms.language s.terms.secure)
  let h := h.call id .features
  let body : Body := .creation (h.creation s)
  let h := h.serve key fun x => ((x.bind id).deliver body).2
  h.arm registryTimer k

/-- Begins a session with the first request of a client, on a loose exchange; gives its place. -/
def create (h : Hub) (request : Request) (key : Nat) : Hub × Except Fault Nat :=
  let secure := (h.exchange? key).any Exchange.secure
  let terms := h.termsFor request secure
  let h := h.serve key fun x => x.compress h.server.compression
  let k := h.sessions.length
  match h.draw maxDraws h.drawn with
  | (drawn, some id) => ({ h with drawn }.begin id terms key, .ok k)
  | (drawn, none) => ({ h with drawn }.serve key Exchange.drop, .error (.idsExhausted maxDraws))

/-- Gives a further request to a session, and passes its stanzas on to the server; gives the key
of the exchange. A request without stanzas is a poll. -/
def forward (h : Hub) (rid k : Nat) (secure : Bool) (payload : List Stanza) :
    Hub × Except Fault Nat :=
  let (h, x) := h.newExchange rid secure
  match h.accept k x payload.isEmpty with
  | (h, .error fault) => (h.departRequester x.key, .error fault)
  | (h, .ok _) =>
    let h := h.spawn (.watch k x.key)
    let id := ((h.session? k).map Session.id).getD default
    (payload.foldl (fun h stanza => (h.write id (.send stanza)).call id (.send stanza)) h,
      .ok x.key)

/-- Ends every registered session because the server goes away, and stops all countdowns. -/
def shutdown (h : Hub) : Hub :=
  let h := (h.registry.map Prod.snd).foldl (fun h k => h.close k true) h
  h.setTimer registryTimer (h.timer registryTimer).cancelAll

/-- How many registered sessions there are, and how many of them hold an exchange. -/
def stats (h : Hub) : Stats :=
  let connected := h.registry.countP fun e => (h.session? e.2).any fun s => 0 < s.shown.held
  { total := h.registry.length, connected, idle := h.registry.length - connected }

end HttpBinding.Hub
