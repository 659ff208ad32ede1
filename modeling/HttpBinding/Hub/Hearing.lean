import HttpBinding.Hub

/-!
# HttpBinding.Hub.Hearing

Operations on sessions whose observers hear of the exchanges opened and closed by them.

Observers are told after the operation has done its work. The session is busy until all of them
have heard, so what a recorder may do then is limited: it can change who observes the session
and start or stop countdowns, but what it wants of the session itself is left undone. Only an
ended session answers at once, and then no observer hears of anything, so telling observers never
leads to telling observers.
-/

namespace HttpBinding.Hub

/-- Whether the registry's countdown runs for an identifier, if there is a registry. -/
def armed? (h : Hub) (id : StreamId) : Option Bool :=
  if h.managed then some ((h.timer registryTimer).isArmed id) else none

/-- Writes down what a recorder has heard. -/
def writeHeard (h : Hub) (k : Nat) (occasion : Occasion) (label : String) (rid : Option Nat) :
    Hub :=
  match h.session? k with
  | none => h
  | some s =>
    h.write s.id (.heard occasion label rid s.shown.held s.shown.closed (h.armed? s.id))

/-- Adds an observer to a session under a label. -/
def addRecorder (h : Hub) (k : Nat) (label : String) (o : Observer) : Hub :=
  match h.session? k with
  | none => h
  | some s =>
    let (ticket, s) := s.observe o
    let h := h.setSession k s
    { h with names := { h.names with recorders := (label, ticket) :: h.names.recorders } }

/-- Removes the observer added last under a label from a session. -/
def removeRecorder (h : Hub) (k : Nat) (label : String) : Hub × Option Bool :=
  match h.names.recorders.lookup label, h.session? k with
  | some ticket, some s =>
    let (found, s) := s.unobserve ticket
    (h.setSession k s, some found)
  | _, _ => (h, none)

/-- Does something with a table of countdowns and a session that are known by name; the answer
is how many countdowns count then, or nothing if one of the names stands for nothing. -/
def byTimer (h : Hub) (timer session : String) (f : Hub → Nat → Nat → Hub) : Hub × Answer :=
  match h.names.timers.lookup timer, h.names.sessions.lookup session with
  | some t, some k =>
    let h := f h t k
    (h, .number (h.timer t).size)
  | _, _ => (h, .nothing)

/-- Performs an operation on an ended session; a session that is busy does not answer. -/
def ifEnded {α : Type} (h : Hub) (k : Nat) (op : Session Observer → Report Observer α)
    (answer : α → Answer) : Hub × Option Answer :=
  match h.session? k with
  | none => (h, none)
  | some s =>
    if s.closed then
      let r := op s
      (h.absorb k r, some (answer r.answer))
    else (h, none)

/-- What a recorder of the session `k` does, and what comes of it; `none` if the session is
busy. -/
def act (h : Hub) (k : Nat) : Action → Hub × Option Answer
  | .remove label =>
    let (h, found) := h.removeRecorder k label
    (h, some (found.elim .nothing .truth))
  | .add label => (h.addRecorder k label (.recorder label []), some .done)
  | .arm timer session =>
    let (h, answer) := h.byTimer timer session arm
    (h, some answer)
  | .cancel timer session =>
    let (h, answer) := h.byTimer timer session cancel
    (h, some answer)
  | .deliver stanza => h.ifEnded k (·.deliver stanza) .delivery
  | .release => h.ifEnded k (·.release) .number
  | .close => h.ifEnded k (·.close true) fun _ => .done
  | .enter rid poll =>
    let (h, x) := h.newExchange rid true
    let now := h.now
    (h.takeLoose x.key).ifEnded k (·.accept x.depart poll now) .ofExcept

/-- A recorder does what it does on an occasion, and each act is written down. -/
def actAll (h : Hub) (k : Nat) (occasion : Occasion) (label : String)
    (actions : List (Occasion × Action)) : Hub :=
  actions.foldl
    (fun h a =>
      if a.1 = occasion then
        match h.act k a.2, h.session? k with
        | (h, some answer), some s => h.write s.id (.acted label a.2 answer)
        | (h, _), _ => h
      else h)
    h

/-- An observer hears of an event. The steward stops the countdown when an exchange is opened,
and starts it anew when one is closed and none is held any more. -/
def hear (k : Nat) (h : Hub) (notice : Event × Observer) : Hub :=
  match notice.2 with
  | .silent => h
  | .steward =>
    match notice.1 with
    | .opened _ => h.cancel registryTimer k
    | .closed _ =>
      if (h.session? k).any fun s => s.shown.held = 0 then h.arm registryTimer k else h
  | .recorder label actions =>
    (h.writeHeard k notice.1.occasion label (some notice.1.rid)).actAll k
      notice.1.occasion label actions

/-- Puts what an operation has done into effect, and tells the observers. -/
def conclude {α : Type} (h : Hub) (k : Nat) (r : Report Observer α) : Hub :=
  r.notices.foldl (hear k) (h.absorb k r)

/-- Gives an exchange to a session. -/
def accept (h : Hub) (k : Nat) (x : Exchange) (poll : Bool) : Hub × Except Fault Unit :=
  match h.session? k with
  | none => (h, .ok ())
  | some s =>
    let r := s.accept x poll h.now
    ((h.takeLoose x.key).conclude k r, r.answer)

/-- Sends a stanza to the client of a session. -/
def deliver (h : Hub) (k : Nat) (stanza : Stanza) : Hub × Delivery :=
  match h.session? k with
  | none => (h, .failover)
  | some s =>
    let r := s.deliver stanza
    (h.conclude k r, r.answer)

/-- Has a session let go of the exchanges for which nobody waits. -/
def release (h : Hub) (k : Nat) : Hub × Nat :=
  match h.session? k with
  | none => (h, 0)
  | some s =>
    let r := s.release
    (h.conclude k r, r.answer)

end HttpBinding.Hub
