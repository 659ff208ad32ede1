import HttpBinding.Hub.Closing

/-!
# HttpBinding.Hub.Work

Work in the background, and the clock.

Jobs take turns in the order in which they became ready. A job that cannot go on is parked until
something happens that lets it go on: a requester goes, an answer arrives, its time comes, or its
countdown is stopped. So a job takes two turns at most. The job of a countdown refers to its
session; with the last turn of the job, a session to which nothing else refers is given up.

`settle` lets jobs take turns until none is ready. `advance` moves the clock from one deadline to
the next, and lets all work be done at each of them. `respond` does so as well, until a
requester that waits for its answer has something to react to.

New jobs are only started by observers, when they hear that an exchange was let go or a session
ended; each exchange that is held and each session can be heard of once by each observer. So
`workBound` bounds the number of turns that can be taken before a client does something again.
-/

namespace HttpBinding.Hub

/-- The time at which a parked job is woken, whatever happens. -/
def deadline? (h : Hub) : Job → Option Nat
  | .watch _ _ => none
  | .evict t generation _ => ((h.timer t).find? generation).map Countdown.deadline
  | .respond _ _ deadline => some deadline

/-- Puts a job aside until it is woken. -/
def park (h : Hub) (job : Job) : Hub := { h with parked := h.parked ++ [job] }

/-- The requester of an exchange is done with it and has been given `r`. -/
def finishResponse (h : Hub) (name : String) (key : Nat) (r : Response) : Hub :=
  (h.departRequester key).write ⟨""⟩ (.response name r)

/-- A job takes its turn. A client is taken to wait until all work that was started or has come due
has had its turn: a countdown counts from the call that started it, and one that is stopped does not
come to its end any more, even if its deadline has come and only the turn of its job has not. -/
def turn (h : Hub) (job : Job) : Hub :=
  match job with
  | .watch k key =>
    if (h.exchange? key).any Exchange.departed then (h.release k).1 else h.park job
  | .evict t generation k =>
    match (h.timer t).find? generation with
    | none => h.reclaim k
    | some c =>
      if c.deadline ≤ h.now then
        let h := h.close c.target false
        (h.setTimer t ((h.timer t).retire c)).reclaim k
      else h.park job
  | .respond name key deadline =>
    match (h.exchange? key).bind Exchange.outcome? with
    | some (.ok r) => h.finishResponse name key r
    | some (.error _) => h.finishResponse name key Exchange.expired
    | none => if deadline ≤ h.now then h.finishResponse name key Exchange.expired else h.park job

/-- A bound on the turns that can be taken until nothing is left to do. -/
def workBound (h : Hub) : Nat :=
  let jobs := h.ready.length + h.parked.length
  let held := (h.sessions.flatMap Session.held).length
  let weight := (h.sessions.flatMap Session.observers).foldl (fun n o => n + o.2.weight) 0
  2 * (jobs + (held + h.sessions.length) * weight) + 1

/-- Lets at most so many jobs take their turn. -/
def settleWithin : Nat → Hub → Hub
  | 0, h => h
  | turns + 1, h =>
    match h.ready with
    | [] => h
    | job :: ready => settleWithin turns ({ h with ready }.turn job)

/-- Lets jobs take turns until none is ready. -/
def settle (h : Hub) : Hub := settleWithin h.workBound h

/-- The first deadline of a parked job. -/
def nextDeadline? (h : Hub) : Option Nat := (h.parked.filterMap h.deadline?).min?

/-- Moves the clock on and wakes the jobs whose time has come. -/
def moveTo (h : Hub) (time : Nat) : Hub :=
  let h := { h with now := time }
  h.wake fun job => (h.deadline? job).any (· ≤ time)

/-- Moves the clock to `target`, with all work done at each deadline on the way; at most so many
deadlines are stopped at. -/
def advanceWithin : Nat → Nat → Hub → Hub
  | 0, target, h => { h with now := target }
  | stops + 1, target, h =>
    match h.nextDeadline? with
    | none => { h with now := target }
    | some d =>
      if d ≤ target then advanceWithin stops target (h.moveTo d).settle
      else { h with now := target }

/-- Lets time pass, with all work done that is due. -/
def advance (h : Hub) (millis : Nat) : Hub :=
  let h := h.settle
  (advanceWithin h.workBound (h.now + millis) h).settle

/-- Lets time pass until an exchange has come to something or until `left` milliseconds are over,
whichever is first, with all work done on the way. At the end of that time itself the wait is over
before other work is done. -/
def awaitFor (key left : Nat) (h : Hub) : Hub × Response :=
  match (h.exchange? key).bind Exchange.outcome? with
  | some (.ok r) => (h, r)
  | some (.error _) => (h, Exchange.expired)
  | none =>
    match h.nextDeadline? with
    | some d =>
      if h.now < d ∧ d < h.now + left then awaitFor key (left - (d - h.now)) (h.moveTo d).settle
      else (h.moveTo (h.now + left), Exchange.expired)
    | none => (h.moveTo (h.now + left), Exchange.expired)
termination_by left
decreasing_by omega

/-- The requester of an exchange waits for its answer, at most so long. -/
def respond (h : Hub) (key millis : Nat) : Hub × Response :=
  let (h, r) := awaitFor key millis h.settle
  ((h.departRequester key).settle, r)

end HttpBinding.Hub
