import HttpBinding.Hub.Hearing

/-!
# HttpBinding.Hub.Closing

The end of sessions, and what the messaging server demands when it hears of it.

When a session ends, its steward takes it off the registry, stops its countdown and tells the
server, which may demand the end of the session that is registered under the identifier then.
Such ends are inside one another, but each of them ends one session more, so there are never more
of them than there are sessions; that number bounds the recursion.
-/

namespace HttpBinding.Hub

/-- Sends a stanza to the client of the session registered under an identifier. -/
def push (h : Hub) (id : StreamId) (stanza : Stanza) : Hub × Except Fault Delivery :=
  match h.lookup id with
  | none => (h, .error (.unknownSession id))
  | some k =>
    let (h, delivery) := h.deliver k stanza
    (h, .ok delivery)

/-- Does to the session registered under an identifier what `close` does to a session that the
server wants ended. -/
def closeIdWith (close : Hub → Nat → Bool → Hub) (h : Hub) (id : StreamId) :
    Hub × Except Fault Unit :=
  match h.lookup id with
  | none => (h, .error (.unknownSession id))
  | some k => (close h k false, .ok ())

/-- Meets one demand of the server. -/
def meet (close : Hub → Nat → Bool → Hub) (h : Hub) (id : StreamId) : Demand → Hub × Answer
  | .deliver stanza =>
    match h.push id stanza with
    | (h, .ok delivery) => (h, .delivery delivery)
    | (h, .error fault) => (h, .fault fault)
  | .close =>
    let (h, result) := closeIdWith close h id
    (h, .ofExcept result)

/-- Meets what the server demands during a call, one demand after the other. -/
def consult (close : Hub → Nat → Bool → Hub) (h : Hub) (id : StreamId) (call : Call) : Hub :=
  (h.server.demands h.calls id call).foldl
    (fun h demand =>
      let (h, answer) := h.meet close id demand
      h.write id (.demand call demand answer))
    { h with calls := h.calls + 1 }

/-- Takes the session `k` off the registry if it is the one registered under `id`. -/
def unregister (h : Hub) (id : StreamId) (k : Nat) : Hub :=
  { h with registry := h.registry.filter fun e => e != (id, k) }

/-- An observer hears of the end of a session. -/
def hearEnd (close : Hub → Nat → Bool → Hub) (k : Nat) (h : Hub) (o : Observer) : Hub :=
  match o, h.session? k with
  | .steward, some s =>
    let h := (h.unregister s.id k).cancel registryTimer k
    let h := h.write s.id (.closed (h.lookup s.id).isSome)
    h.consult close s.id .closed
  | .recorder label actions, _ =>
    (h.writeHeard k .ended label none).actAll k .ended label actions
  | _, _ => h

/-- Ends a session, where at most `depth` ends may be inside one another. -/
def closeWithin : Nat → Hub → Nat → Bool → Hub
  | 0, h, _, _ => h
  | depth + 1, h, k, shutdown =>
    match h.session? k with
    | none => h
    | some s =>
      let r := s.close shutdown
      r.answer.foldl (hearEnd (closeWithin depth) k) (h.absorb k r)

/-- Ends a session; `shutdown` tells its client that the server goes away. -/
def close (h : Hub) (k : Nat) (shutdown : Bool) : Hub :=
  closeWithin (h.sessions.length + 1) h k shutdown

/-- Ends the session registered under an identifier. -/
def closeId (h : Hub) (id : StreamId) : Hub × Except Fault Unit := closeIdWith close h id

/-- Calls the server about a session and meets its demands. -/
def call (h : Hub) (id : StreamId) (c : Call) : Hub := h.consult close id c

end HttpBinding.Hub
