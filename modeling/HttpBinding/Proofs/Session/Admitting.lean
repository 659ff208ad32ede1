import HttpBinding.Proofs.Session.Delivering

/-!
# HttpBinding.Proofs.Session.Admitting

What a successful admission does, exactly.

An admission first lets go of those for whom nobody waits. Then it either gives the newcomer what
was buffered, or adds it to the queue and cuts the queue from the front until the bound is kept.
The definition may cut any number of exchanges. That it cuts at most one, and none if somebody had
left, is a fact about the sessions that there are: their queues keep the bound, also with those who
left counted in (`Sound.pushedOut`).
-/

namespace HttpBinding

namespace Session

variable {ο : Type} {s : Session ο} {x : Exchange}

/-! ### Cutting a queue to the bound -/

/-- The newest exchanges of a queue, as many as a bound allows. -/
def newest (bound : Option Nat) (queue : List Exchange) : List Exchange :=
  match bound with
  | some h => queue.drop (queue.length - h)
  | none => queue

/-- To make room for one more is to keep the newest. -/
theorem drop_excess_append (t : Terms) (held : List Exchange) (x : Exchange) :
    held.drop (excess t.bound held) ++ [x] = newest t.bound (held ++ [x]) := by
  cases hb : t.bound with
  | none => simp [excess, newest]
  | some b =>
      have hpos := Terms.bound_pos hb
      have hle : held.length + 1 - b ≤ held.length := by omega
      simp [excess, newest, List.drop_append_of_le_length hle]

/-- Those who left do not count, and if there are any, there is room. -/
theorem Sound.excess_waiting_le (h : s.Sound) :
    excess s.terms.bound (waiting s.held) ≤ 1 ∧
      ((∃ y ∈ s.held, y.isAbandoned = true) → excess s.terms.bound (waiting s.held) = 0) := by
  cases hb : s.terms.bound with
  | none => exact ⟨Nat.zero_le 1, fun _ => rfl⟩
  | some b =>
      have hbound := h.bounded b hb
      have hlen := length_abandoned_add_waiting s.held
      simp only [excess]
      refine ⟨by omega, fun hleft => ?_⟩
      obtain ⟨y, hy, hgone⟩ := hleft
      have hpos : 0 < (abandoned s.held).length :=
        List.length_pos_of_mem (List.mem_map_of_mem (List.mem_filter.mpr ⟨hy, hgone⟩))
      omega

/-- At most the oldest one is pushed out. -/
theorem Sound.pushedOut (h : s.Sound) :
    ∃ cut : Option Exchange,
      (waiting s.held).take (excess s.terms.bound (waiting s.held)) = cut.toList ∧
      (∀ y ∈ cut, (waiting s.held).head? = some y) ∧
      ((∃ y ∈ s.held, y.isAbandoned = true) → cut = none) := by
  obtain ⟨hle, hnone⟩ := h.excess_waiting_le
  rcases Nat.le_one_iff_eq_zero_or_eq_one.mp hle with hn | hn
  · exact ⟨none, by simp [hn], by simp, fun _ => rfl⟩
  · refine ⟨(waiting s.held).head?, ?_, fun y hy => hy, fun hleft => ?_⟩
    · rw [hn]
      cases waiting s.held <;> rfl
    · rw [hnone hleft] at hn
      cases hn

/-! ### The two outcomes -/

/-- The newcomer is held. The queue consists of those who wait, with the newcomer at the end, and
is cut to the bound: `cut` is what had to go, the oldest of those who wait if there is anything. -/
structure TakesIn (s : Session ο) (x : Exchange) (lastPoll : Option Nat)
    (cut : Option Exchange) (r : Report ο (Except Fault Unit)) : Prop where
  answer : r.answer = .ok ()
  queue : cut.toList ++ r.session.held = waiting s.held ++ [x.bind s.id]
  bound : r.session.held = newest s.terms.bound (waiting s.held ++ [x.bind s.id])
  session : r.session = publish { s with held := r.session.held, lastPoll }
  oldest : ∀ y ∈ cut, (waiting s.held).head? = some y ∧ y.mailbox = .vacant
  /-- Nobody who waits has to go while there is somebody who left. -/
  spared : (∃ y ∈ s.held, y.isAbandoned = true) → cut = none
  events : r.events = closures (s.held.filter Exchange.isAbandoned) ++ closures cut.toList ++
    [.opened x.rid]
  released : r.released.map Exchange.key =
    (s.held.filter Exchange.isAbandoned ++ cut.toList).map Exchange.key
  /-- Who is cut off is given an empty answer, and nobody else is given anything. -/
  mailboxes : r.released.map Exchange.mailbox =
    (s.held.filter Exchange.isAbandoned).map Exchange.mailbox ++
      cut.toList.map fun y => .holding ⟨.empty, y.compression⟩
  used : ∀ y ∈ r.released, y.hasSender = false
  failedOver : r.failedOver = []

/-- The newcomer carries the whole buffer away in one answer, and nothing is held or buffered. -/
structure CarriesAway (s : Session ο) (x : Exchange) (lastPoll : Option Nat)
    (r : Report ο (Except Fault Unit)) : Prop where
  answer : r.answer = .ok ()
  idle : s.held = []
  session : r.session = publish { s with held := [], buffer := [], lastPoll }
  events : r.events = [.opened x.rid, .closed x.rid]
  released : r.released.map Exchange.key = [x.key]
  mailboxes : r.released.map Exchange.mailbox = [.holding ⟨.delivery s.buffer, x.compression⟩]
  vacant : x.mailbox = .vacant
  used : ∀ y ∈ r.released, y.hasSender = false
  failedOver : r.failedOver = []

/-- The time of the last poll after an exchange was brought in. -/
def polledAt (s : Session ο) (poll : Bool) (now : Nat) : Option Nat :=
  if poll then some now else s.lastPoll

/-- What passes all checks gets as far as `enrol`. -/
theorem accept_of_passed {poll : Bool} {now : Nat} (hopen : s.closed = false)
    (hpoll : (poll && s.pollsTooEarly now) = false)
    (hsecure : (s.terms.secure && !x.secure) = false) :
    s.accept x poll now = { s with lastPoll := s.polledAt poll now }.enrol x := by
  have hstill : ¬s.closed = true := by simp [hopen]
  simp only [accept, if_neg hstill, hpoll, hsecure, Bool.false_eq_true, if_false]
  cases poll <;> rfl

/-- A poll that comes too early is refused, and noted. -/
theorem accept_of_tooEarly {poll : Bool} {now : Nat} (hopen : s.closed = false)
    (hpoll : (poll && s.pollsTooEarly now) = true) :
    s.accept x poll now =
      { answer := .error .pollingTooFrequent
        session := { s with lastPoll := s.polledAt poll now }
        released := [x.drop] } := by
  have hstill : ¬s.closed = true := by simp [hopen]
  simp only [accept, if_neg hstill, hpoll, if_true]
  cases poll <;> rfl

/-- Those who left are closed, and keep what they were given before. -/
theorem mailbox_abandoned (held : List Exchange) :
    (abandoned held).map Exchange.mailbox =
      (held.filter Exchange.isAbandoned).map Exchange.mailbox :=
  map_map_of_kept Exchange.mailbox_close _

theorem WellKept.hasSender_abandoned (h : s.WellKept) :
    ∀ y ∈ abandoned s.held, y.hasSender = false := by
  intro y hy
  obtain ⟨z, hz, rfl⟩ := List.mem_map.mp hy
  exact (h.coherent z (List.mem_filter.mp hz).1).hasSender_close

/-- With nothing buffered, who is admitted is held. -/
theorem WellKept.takesIn (h : s.WellKept) (hbuffer : s.buffer = []) (x : Exchange)
    (lastPoll : Option Nat) :
    ∃ cut, s.TakesIn x lastPoll cut ({ s with lastPoll }.enrol x) := by
  obtain ⟨cut, hcut, holdest, hspared⟩ := h.sound.pushedOut
  -- who is cut off waits, so the empty answer arrives
  have hlive : ∀ y ∈ cut, y.Coherent ∧ y.isAbandoned = false := by
    intro y hy
    have hmem : y ∈ waiting s.held := List.mem_of_mem_head? (holdest y hy)
    obtain ⟨hheld, hwaits⟩ := List.mem_filter.mp hmem
    exact ⟨h.coherent y hheld, by simpa using hwaits⟩
  have hsplit := List.take_append_drop (excess s.terms.bound (waiting s.held)) (waiting s.held)
  rcases enrol_cases { s with lastPoll } x with ⟨-, heq⟩ | ⟨hb, -⟩ | ⟨hb, -⟩
  · refine ⟨cut, ?_⟩
    rw [heq]
    simp only [hcut] at hsplit ⊢
    refine ⟨rfl, ?_, drop_excess_append s.terms (waiting s.held) (x.bind s.id), rfl,
      fun y hy => ⟨holdest y hy, (hlive y hy).1.vacant (hlive y hy).2⟩, hspared, ?_, ?_, ?_, ?_,
      rfl⟩
    · rw [publish_held, ← List.append_assoc, hsplit]
    · rw [closures_map (fun y => y.closeWith_rid _), abandoned, closures_map Exchange.close_rid]
    · rw [List.map_append, List.map_append, map_map_of_kept fun y => y.closeWith_key _,
        abandoned, map_map_of_kept Exchange.close_key]
    · rw [List.map_append, mailbox_abandoned, List.map_map]
      refine congrArg _ (List.map_congr_left fun y hy => ?_)
      obtain ⟨hcoherent, hwaits⟩ := hlive y (Option.mem_toList.mp hy)
      simp [Exchange.closeWith, hcoherent.isAnswerable_of_waits hwaits, Exchange.answered]
    · intro y hy
      rcases List.mem_append.mp hy with hy | hy
      · exact h.hasSender_abandoned y hy
      · obtain ⟨z, -, rfl⟩ := List.mem_map.mp hy
        exact z.closeWith_hasSender _
  · exact absurd hbuffer hb
  · exact absurd hbuffer hb

/-- With something buffered, who waits carries it away. -/
theorem WellKept.carriesAway (h : s.WellKept) (hbuffer : s.buffer ≠ []) (hx : x.Coherent)
    (hwaits : x.isAbandoned = false) (lastPoll : Option Nat) :
    s.CarriesAway x lastPoll ({ s with lastPoll }.enrol x) := by
  have hidle : s.held = [] := h.sound.apart.resolve_left hbuffer
  have hnobody : waiting s.held = [] ∧ abandoned s.held = [] := by simp [hidle, waiting, abandoned]
  rcases enrol_cases { s with lastPoll } x with ⟨hb, -⟩ | ⟨-, -, heq⟩ | ⟨-, hlost, -⟩
  · exact absurd hb hbuffer
  · rw [heq]
    simp only [hnobody]
    refine ⟨rfl, hidle, rfl, rfl, rfl, rfl, hx.vacant hwaits, fun y hy => ?_, rfl⟩
    obtain rfl := List.mem_singleton.mp hy
    rfl
  · rw [hx.isAnswerable_of_waits hwaits] at hlost
    cases hlost

/-- Who passes the checks is refused only if nobody waits for what is buffered. -/
theorem answer_enrol_ok_iff (s : Session ο) (hx : x.Coherent) :
    (s.enrol x).answer = .ok () ↔ s.buffer = [] ∨ x.isAbandoned = false := by
  have hanswerable := hx.isAnswerable_eq
  rcases enrol_cases s x with ⟨hb, heq⟩ | ⟨hb, ha, heq⟩ | ⟨hb, ha, heq⟩
  · simp [heq, hb]
  · simp_all
  · simp_all

end Session

namespace Stage

variable {ο : Type}

/-- **An admission goes by the queue and the buffer.** After any run, let an exchange pass the
checks of an open session. If nothing is buffered it is held behind those who wait, and the queue is
cut from the front to the bound: at most one exchange has to go, the oldest, and it is answered with
an empty body. Those for whom nobody waited go first, and if there are any, nobody else has to go.
If something is buffered and somebody waits for the exchange, it carries everything away at once.
In all other cases it is refused. -/
theorem admission_by_queue (id : StreamId) (terms : Terms) (sink : Sink)
    (observers : List (Nat × ο)) (nextTicket : Nat) (beats : List (Beat ο))
    (key rid : Nat) (secure : Bool) (past : List Exchange.Act) (poll : Bool) (now : Nat)
    (hopen : ((start id terms sink observers nextTicket).play beats).session.closed = false)
    (hpoll : (poll &&
      ((start id terms sink observers nextTicket).play beats).session.pollsTooEarly now) = false)
    (hsecure : (terms.secure && !secure) = false) :
    let s := ((start id terms sink observers nextTicket).play beats).session
    let x := (Exchange.fresh key rid secure).after past
    let r := s.accept x poll now
    (s.buffer = [] → ∃ cut, s.TakesIn x (s.polledAt poll now) cut r) ∧
    (s.buffer ≠ [] → x.isAbandoned = false → s.CarriesAway x (s.polledAt poll now) r) ∧
    (r.answer = .ok () ↔ s.buffer = [] ∨ x.isAbandoned = false) := by
  intro s x r
  have hkept : s.WellKept := wellKept_play id terms sink observers nextTicket beats
  have hx : x.Coherent := Exchange.coherent_after key rid secure past
  have hterms : s.terms = terms :=
    ((upright_start id terms sink observers nextTicket).play beats).agreed
  have hsafe : (s.terms.secure && !x.secure) = false := by
    rw [hterms, Exchange.secure_after]
    exact hsecure
  have hr : r = { s with lastPoll := s.polledAt poll now }.enrol x :=
    Session.accept_of_passed hopen hpoll hsafe
  rw [hr]
  exact ⟨fun hb => hkept.takesIn hb x _, fun hb hwaits => hkept.carriesAway hb hx hwaits _,
    Session.answer_enrol_ok_iff _ hx⟩

/-- Under a bound of one a second request is held in place of the first, and a request that finds a
stanza buffered carries it away. -/
theorem second_held_and_stanza_carried :
    (let s := ((start ⟨"a"⟩ { hold := some 1 } .recorded ([] : List (Nat × Nat)) 0).play
        [.deed (.enter 1 false [] false 0)]).session
      let x := (Exchange.fresh 1 2 false).after []
      s.closed = false ∧ s.buffer = [] ∧ ∃ cut, s.TakesIn x none cut (s.accept x false 0)) ∧
    (let s := ((start ⟨"a"⟩ { hold := some 1 } .recorded ([] : List (Nat × Nat)) 0).play
        [.deed (.deliver ⟨"m"⟩)]).session
      let x := (Exchange.fresh 0 1 false).after []
      s.closed = false ∧ s.buffer = [⟨"m"⟩] ∧ s.CarriesAway x (some 5) (s.accept x true 5)) := by
  refine ⟨⟨rfl, rfl, ?_⟩, rfl, rfl, ?_⟩
  · exact (admission_by_queue ⟨"a"⟩ { hold := some 1 } .recorded [] 0
      [.deed (.enter 1 false [] false 0)] 1 2 false [] false 0 rfl rfl rfl).1 rfl
  · exact (admission_by_queue ⟨"a"⟩ { hold := some 1 } .recorded [] 0
      [.deed (.deliver ⟨"m"⟩)] 0 1 false [] true 5 rfl rfl rfl).2.1 (List.cons_ne_nil _ _) rfl

end Stage

end HttpBinding
