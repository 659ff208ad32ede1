import HttpBinding.Proofs.Hub.Work
import HttpBinding.Script.Run

/-!
# HttpBinding.Proofs.Hub.Moves

Everything that can happen to a hub with a registry, in any order.

A `Move` is one call on the registry or on one of its sessions, one thing that happens to an
exchange, one turn of a job of the queue, or some time that passes. Jobs may take their turns in
any order and whenever they want, so `play` covers every order of background work. Nobody starts
or stops a countdown by hand, and the steward is never removed from a session.

`Moved` sums up what a move can do. It is proved once for every move (`InStep.move`), and all that
is said elsewhere about runs follows from it by induction over the moves.
-/

namespace HttpBinding

/-- One thing that happens to a hub. -/
inductive Move where
  /-- A request comes in; its exchange is loose at first. -/
  | connect (rid : Nat) (secure : Bool)
  /-- A client's first request, on a loose exchange. -/
  | create (request : Request) (key : Nat)
  /-- A further request of a client. -/
  | forward (rid k : Nat) (secure : Bool) (payload : List Stanza)
  /-- A stanza for the client behind an identifier. -/
  | push (id : StreamId) (stanza : Stanza)
  | closeId (id : StreamId)
  | shutdown
  /-- A loose exchange is given to a session. -/
  | enter (k key : Nat) (poll : Bool)
  | deliver (k : Nat) (stanza : Stanza)
  | release (k : Nat)
  | close (k : Nat) (shutdown : Bool)
  | listen (k : Nat) (label : String) (actions : List (Occasion × Action))
  | listenSilently (k : Nat)
  | unlisten (k : Nat) (label : String)
  /-- One of the two sides of an exchange acts. The server half acts only while it is loose. -/
  | exchange (key : Nat) (a : Exchange.Act)
  /-- A requester waits in the background, at most so long. -/
  | await (name : String) (key millis : Nat)
  /-- A job of the queue takes its turn. -/
  | turn (i : Nat)
  | pass (millis : Nat)

namespace Hub

/-- The loose exchange with a key. -/
def loose? (h : Hub) (key : Nat) : Option Exchange := h.loose.find? fun x => x.key == key

/-- One of the two sides of an exchange acts. -/
def actOn (h : Hub) (key : Nat) : Exchange.Act → Hub
  | .depart => h.departRequester key
  | .take => h.mapExchange key fun x => x.take.2
  | .leave => (h.departRequester key).mapExchange key fun x => x.take.2
  | a => if (h.loose? key).isSome then h.serve key fun x => x.act a else h

/-- What happens to the hub. -/
def move (h : Hub) : Move → Hub
  | .connect rid secure => (h.newExchange rid secure).1
  | .create request key => if (h.loose? key).isSome then (h.create request key).1 else h
  | .forward rid k secure payload =>
    if (h.session? k).isSome then (h.forward rid k secure payload).1 else h
  | .push id stanza => (h.push id stanza).1
  | .closeId id => (h.closeId id).1
  | .shutdown => h.shutdown
  | .enter k key poll =>
    match h.loose? key with
    | some x => (h.accept k x poll).1
    | none => h
  | .deliver k stanza => (h.deliver k stanza).1
  | .release k => (h.release k).1
  | .close k shutdown => h.close k shutdown
  | .listen k label actions => h.addRecorder k label (.recorder label actions)
  | .listenSilently k =>
    match h.session? k with
    | some s => h.setSession k (s.observe .silent).2
    | none => h
  | .unlisten k label => (h.removeRecorder k label).1
  | .exchange key a => h.actOn key a
  | .await name key millis => h.spawn (.respond name key (h.now + millis))
  | .turn i =>
    match h.ready[i]? with
    | some job => { h with ready := h.ready.eraseIdx i }.turn job
    | none => h
  | .pass millis => h.moveTo (h.now + millis)

/-- Lets things happen, one after the other. -/
def play (h : Hub) (ms : List Move) : Hub := ms.foldl move h

/-! ### What moves do to one session -/

/-- The session on which the move performs an operation, and the events that its observers hear
of. What the server demands in turn is not counted: it demands something of a session only if the
request that it is called about was admitted, and then there are events of that already. -/
def operation? (h : Hub) : Move → Option (Nat × List Event)
  | .forward rid k secure payload =>
    (h.session? k).map fun s =>
      (k, (s.accept (Exchange.fresh h.nextExchange rid secure) payload.isEmpty h.now).events)
  | .enter k key poll =>
    (h.loose? key).bind fun x => (h.session? k).map fun s => (k, (s.accept x poll h.now).events)
  | .push id stanza =>
    (h.lookup id).bind fun k => (h.session? k).map fun s => (k, (s.deliver stanza).events)
  | .deliver k stanza => (h.session? k).map fun s => (k, (s.deliver stanza).events)
  | .release k => (h.session? k).map fun s => (k, s.release.events)
  | .turn i =>
    match h.ready[i]? with
    | some (.watch k key) =>
      if (h.exchange? key).any Exchange.departed then
        (h.session? k).map fun s => (k, s.release.events)
      else none
    | _ => none
  | _ => none

/-- The events that observers of the session `k` hear of because of a move. -/
def reports (h : Hub) (k : Nat) (m : Move) : List Event :=
  match h.operation? m with
  | some (j, events) => if j = k then events else []
  | none => []

/-- The move ends the session `k`, not because its countdown has come to its end. -/
def ends (h : Hub) (k : Nat) : Move → Bool
  | .close j _ => decide (j = k)
  | .closeId id => decide (h.lookup id = some k)
  | .shutdown => true
  | _ => false

/-- The sessions that begin with a move only to be ended in the call that announces them. -/
def stillbornBy (h : Hub) : Move → List Nat
  | .create _ key => if (h.loose? key).isSome then h.stillborn else []
  | _ => []

/-- What a move has done to the hub. -/
structure Moved (still : List Nat) (m : Move) (h h' : Hub) : Prop where
  inStep : InStep still h'
  now : h.now ≤ h'.now
  /-- The end of a session is final. -/
  final : ∀ k g, h.gist? k = some g → g.closed = true → h'.gist? k = some g
  /-- A session that has nothing to do with a move does not notice it, unless its countdown comes
  to its end. -/
  spares : ∀ k g, h.gist? k = some g → g.closed = false → h.reports k m = [] →
    h.ends k m = false → Spares k h h' ∨
      ∃ c ∈ h.running, c.target = k ∧ c.deadline ≤ h.now ∧ h'.gist? k = some g.ended
  /-- A session that is new or has reported something has a fresh countdown if it holds
  nothing. -/
  fresh : ∀ k g, h'.gist? k = some g → h.reports k m ≠ [] ∨ k = h.sessions.length →
    Fresh k (h.now + g.timeout) h'

variable {still : List Nat} {h h' : Hub} {m : Move} {k : Nat}

theorem reports_of_none (hop : h.operation? m = none) (k : Nat) : h.reports k m = [] := by
  simp [reports, hop]

/-- No session begins in the course of a call. -/
theorem Course.ne_of_gist? {g : Gist} (hc : Course h h') (hg : h'.gist? k = some g) :
    k ≠ h.sessions.length := by
  rw [← hc.sessions]
  exact Nat.ne_of_lt (lt_of_gist? hg)

/-- A move that performs no operation on a session, but may end sessions. -/
theorem Course.moved (hc : Course h h') (hi : InStep still h') (hop : h.operation? m = none)
    (hspares : ∀ k g, h.gist? k = some g → h.ends k m = false → Spares k h h' ∨
      ∃ c ∈ h.running, c.target = k ∧ c.deadline ≤ h.now ∧ h'.gist? k = some g.ended) :
    Moved still m h h' := by
  refine ⟨hi, Nat.le_of_eq hc.now.symm, hc.final,
    fun k g hg _ _ hends => hspares k g hg hends, fun k g hg hr => ?_⟩
  rcases hr with hr | hnew
  · exact absurd (reports_of_none hop k) hr
  · exact absurd hnew (hc.ne_of_gist? hg)

theorem Beside.moved (hb : Beside h h') (hi : InStep still h') (hop : h.operation? m = none) :
    Moved still m h h' :=
  hb.toCourse.moved hi hop fun k _ _ _ => Or.inl (hb.spares k)

/-- A move that does nothing. -/
theorem InStep.moved_of_eq (hi : InStep still h) (heq : h' = h) (hop : h.operation? m = none) :
    Moved still m h h' := by
  rw [heq]
  exact (Beside.refl h).moved hi hop

/-- A call about one session that begins with an operation on it. -/
theorem Serves.moved {s : Session Observer} {events : List Event}
    (hserves : Serves still k h h') (hs : h.session? k = some s)
    (hop : h.operation? m = some (k, events)) (hquiet : events = [] → Beside h h')
    (hloud : events ≠ [] → Fresh k (h.now + s.terms.inactivityTimeout) h') :
    Moved still m h h' := by
  have hconf := hserves.confined
  have hself : h.reports k m = events := by simp [reports, hop]
  have hother : ∀ j, j ≠ k → h.reports j m = [] := fun j hj => by simp [reports, hop, Ne.symm hj]
  refine ⟨hserves.inStep, Nat.le_of_eq hconf.now.symm, hconf.final, fun j g _ _ hr _ => ?_,
    fun j g hg hr => ?_⟩
  · -- a quiet operation spares even its own session
    by_cases hj : j = k
    · rw [hj, hself] at hr
      exact Or.inl ((hquiet hr).spares j)
    · exact Or.inl (hconf.spares j hj)
  · rcases hr with hr | rfl
    · by_cases hj : j = k
      · subst hj
        obtain ⟨g', hg', -, htimeout⟩ := hconf.identity j _ (gist?_of_session? hs)
        rw [hg] at hg'
        obtain rfl := Option.some.inj hg'
        rw [htimeout]
        exact hloud (hself ▸ hr)
      · exact absurd (hother j hj) hr
    · exact absurd rfl (hconf.ne_of_gist? hg)

/-- An operation on a session that does not end it. -/
theorem Handled.moved {α : Type} {s : Session Observer} {r : Report Observer α}
    (hi : InStep still h) (hs : h.session? k = some s) (hd : Handled still k s r h h')
    (hop : h.operation? m = some (k, r.events)) : Moved still m h h' :=
  (hd.serves hi hs).moved hs hop hd.quiet hd.fresh_of_loud

/-- The end of a session that is not due to its countdown. -/
theorem Ended.moved (hd : Ended still k h h') (hends : h.ends k m = true)
    (hop : h.operation? m = none) : Moved still m h h' := by
  refine hd.confined.moved hd.inStep hop fun j g _ hnot => Or.inl (hd.confined.spares j ?_)
  intro hj
  rw [hj, hends] at hnot
  cases hnot

/-! ### One move after the other -/

theorem InStep.moved_forward (hi : InStep still h) (rid k : Nat) (secure : Bool)
    (payload : List Stanza) :
    Moved still (.forward rid k secure payload) h (h.move (.forward rid k secure payload)) := by
  cases hs : h.session? k with
  | none => exact hi.moved_of_eq (by simp [move, hs]) (by simp [operation?, hs])
  | some s =>
      have hmove : h.move (.forward rid k secure payload) =
          (h.forward rid k secure payload).1 := by simp [move, hs]
      obtain ⟨hserves, hquiet, hloud⟩ := hi.forward hs rid secure payload
      rw [hmove]
      exact hserves.moved hs (by simp [operation?, hs]) hquiet hloud

theorem InStep.moved_deliver (hi : InStep still h) (k : Nat) (stanza : Stanza) :
    Moved still (.deliver k stanza) h (h.move (.deliver k stanza)) := by
  cases hs : h.session? k with
  | none => exact hi.moved_of_eq (by simp [move, Hub.deliver, hs]) (by simp [operation?, hs])
  | some s => exact (hi.deliver hs stanza).moved hi hs (by simp [operation?, hs])

theorem InStep.moved_release (hi : InStep still h) (k : Nat) :
    Moved still (.release k) h (h.move (.release k)) := by
  cases hs : h.session? k with
  | none => exact hi.moved_of_eq (by simp [move, Hub.release, hs]) (by simp [operation?, hs])
  | some s => exact (hi.release hs).moved hi hs (by simp [operation?, hs])

theorem InStep.moved_enter (hi : InStep still h) (k key : Nat) (poll : Bool) :
    Moved still (.enter k key poll) h (h.move (.enter k key poll)) := by
  cases hx : h.loose? key with
  | none => exact hi.moved_of_eq (by simp [move, hx]) (by simp [operation?, hx])
  | some x =>
      have hmove : h.move (.enter k key poll) = (h.accept k x poll).1 := by simp [move, hx]
      rw [hmove]
      cases hs : h.session? k with
      | none => exact hi.moved_of_eq (by simp [Hub.accept, hs]) (by simp [operation?, hx, hs])
      | some s => exact (hi.accept hs x poll).moved hi hs (by simp [operation?, hs, hx])

/-- A registered session is there. -/
theorem InStep.session?_of_lookup (hi : InStep still h) {id : StreamId}
    (hl : h.lookup id = some k) : ∃ s, h.session? k = some s := by
  obtain ⟨g, hg, -⟩ := hi.sane.real _ (hi.sane.lookup_eq_some_iff.mp hl)
  obtain ⟨s, hs, -⟩ := session?_of_gist? hg
  exact ⟨s, hs⟩

theorem InStep.moved_push (hi : InStep still h) (id : StreamId) (stanza : Stanza) :
    Moved still (.push id stanza) h (h.move (.push id stanza)) := by
  cases hl : h.lookup id with
  | none => exact hi.moved_of_eq (by simp [move, Hub.push, hl]) (by simp [operation?, hl])
  | some k =>
      obtain ⟨s, hs⟩ := hi.session?_of_lookup hl
      have hmove : h.move (.push id stanza) = (h.deliver k stanza).1 := by
        simp [move, Hub.push, hl]
      rw [hmove]
      exact (hi.deliver hs stanza).moved hi hs (by simp [operation?, hs, hl])

theorem InStep.moved_close (hi : InStep still h) (k : Nat) (shutdown : Bool) :
    Moved still (.close k shutdown) h (h.move (.close k shutdown)) :=
  (hi.close k shutdown).moved (by simp [ends]) rfl

theorem InStep.moved_closeId (hi : InStep still h) (id : StreamId) :
    Moved still (.closeId id) h (h.move (.closeId id)) := by
  cases hl : h.lookup id with
  | none => exact hi.moved_of_eq (by simp [move, Hub.closeId, closeIdWith, hl]) rfl
  | some k =>
      have hmove : h.move (.closeId id) = h.close k false := by
        simp [move, Hub.closeId, closeIdWith, hl]
      rw [hmove]
      exact (hi.close k false).moved (by simp [ends, hl]) rfl

theorem InStep.moved_shutdown (hi : InStep still h) :
    Moved still .shutdown h (h.move .shutdown) := by
  obtain ⟨hin, hcourse, -⟩ := hi.shutdown
  refine hcourse.moved hin rfl fun k g _ hends => ?_
  cases hends

theorem InStep.moved_create (hi : InStep still h) (request : Request) (key : Nat) :
    Moved (still ++ h.stillbornBy (.create request key)) (.create request key) h
      (h.move (.create request key)) := by
  cases hx : (h.loose? key).isSome with
  | false =>
      have hsame : h.move (.create request key) = h := by simp [move, hx]
      have hempty : h.stillbornBy (.create request key) = [] := by simp [stillbornBy, hx]
      rw [hsame, hempty, List.append_nil]
      exact hi.moved_of_eq rfl rfl
  | true =>
      have hmove : h.move (.create request key) = (h.create request key).1 := by simp [move, hx]
      have hborn : h.stillbornBy (.create request key) = h.stillborn := by
        simp [stillbornBy, hx]
      have hbegun := hi.create request key
      rw [hmove, hborn]
      refine ⟨hbegun.inStep, Nat.le_of_eq hbegun.now.symm, fun k g hg _ => ?_,
        fun k g hg _ _ _ => Or.inl (hbegun.spares k (lt_of_gist? hg)), fun k g hg hr => ?_⟩
      · rw [(hbegun.spares k (lt_of_gist? hg)).gist]
        exact hg
      · rcases hr with hr | rfl
        · exact absurd (reports_of_none rfl k) hr
        · rw [hbegun.newcomer g hg]
          exact hbegun.fresh

/-! ### Turns -/

/-- What happens after a job was taken off the queue happens to the whole hub. -/
theorem Moved.untake {rest : List Job} {m' : Move}
    (hm : Moved still m' { h with ready := rest } h')
    (hr : ∀ k, h.reports k m = { h with ready := rest }.reports k m')
    (he : ∀ k, { h with ready := rest }.ends k m' = false) : Moved still m h h' := by
  refine ⟨hm.inStep, hm.now, hm.final, fun k g hg hopen hq _ => ?_, fun k g hg hl => ?_⟩
  · rcases hm.spares k g hg hopen ((hr k).symm.trans hq) (he k) with hs | hended
    · exact Or.inl ((spares_take h rest k).trans hs)
    · exact Or.inr hended
  · exact hm.fresh k g hg (hl.imp (fun hl => by rw [← hr k]; exact hl) id)

/-- The turn of a job that does nothing about a session. -/
theorem Beside.moved_turn {rest : List Job} (hb : Beside { h with ready := rest } h')
    (hi : InStep still h') (hop : h.operation? m = none) : Moved still m h h' := by
  have hm : Moved still (.pass 0) { h with ready := rest } h' := hb.moved hi rfl
  refine hm.untake (fun k => ?_) fun k => rfl
  rw [reports_of_none hop, reports_of_none rfl]

theorem InStep.moved_respond (hi : InStep still h) {i : Nat} {name : String}
    {key deadline : Nat} (hjob : h.ready[i]? = some (.respond name key deadline)) :
    Moved still (.turn i) h
      ({ h with ready := h.ready.eraseIdx i }.turn (.respond name key deadline)) := by
  have htaken := hi.take_of_ne_evict (leaves_eraseIdx hjob) (by simp)
  have hb := beside_respond { h with ready := h.ready.eraseIdx i } name key deadline
  exact hb.moved_turn (htaken.beside hb) (by simp [operation?, hjob])

/-- A job takes its turn after it has come off the queue. -/
theorem move_turn {i : Nat} {job : Job} (hjob : h.ready[i]? = some job) :
    h.move (.turn i) = { h with ready := h.ready.eraseIdx i }.turn job := by
  simp [move, hjob]

theorem move_turn_of_none {i : Nat} (hjob : h.ready[i]? = none) : h.move (.turn i) = h := by
  simp [move, hjob]

/-- The turn of a watch is a release if the requester has gone. -/
theorem InStep.moved_watch (hi : InStep still h) {i k key : Nat}
    (hjob : h.ready[i]? = some (.watch k key)) :
    Moved still (.turn i) h ({ h with ready := h.ready.eraseIdx i }.turn (.watch k key)) := by
  obtain ⟨h₁, hh₁⟩ : ∃ h₁ : Hub, h₁ = { h with ready := h.ready.eraseIdx i } := ⟨_, rfl⟩
  have htaken : InStep still h₁ := hh₁ ▸ hi.take_of_ne_evict (leaves_eraseIdx hjob) (by simp)
  have hsession : h₁.session? k = h.session? k := by
    rw [hh₁]
    rfl
  cases hgone : (h.exchange? key).any Exchange.departed with
  | false =>
      have hb := beside_park h₁ (.watch k key)
      rw [turn_watch_of_stays hgone]
      subst hh₁
      exact hb.moved_turn (htaken.beside hb) (by simp [operation?, hjob, hgone])
  | true =>
      have hmoved := htaken.moved_release k
      have hreports : ∀ j, h.reports j (.turn i) = h₁.reports j (.release k) := by
        intro j
        simp [reports, operation?, hjob, hgone, hsession]
      rw [turn_watch_of_departed hgone]
      subst hh₁
      exact hmoved.untake hreports fun j => rfl

/-- The turn of a countdown's job ends its session, or nothing happens to any session. -/
theorem InStep.moved_evict (hi : InStep still h) {i t generation k : Nat}
    (hjob : h.ready[i]? = some (.evict t generation k)) :
    Moved still (.turn i) h
      ({ h with ready := h.ready.eraseIdx i }.turn (.evict t generation k)) := by
  have hl := leaves_eraseIdx hjob
  have hop : h.operation? (.turn i) = none := by simp [operation?, hjob]
  cases hfind : (h.timer t).find? generation with
  | none =>
      obtain ⟨hin, hb⟩ := hi.turn_stopped hl hfind
      exact hb.moved_turn hin hop
  | some c =>
      obtain ⟨rfl, hc, rfl⟩ := hi.sane.of_find? hfind
      by_cases hdue : c.deadline ≤ h.now
      · obtain ⟨hin, hconf, hended⟩ := hi.turn_ends hc hl hdue
        have hmoved : Moved still (.pass 0) { h with ready := h.ready.eraseIdx i }
            ({ h with ready := h.ready.eraseIdx i }.turn
              (.evict registryTimer c.generation k)) := by
          refine hconf.moved hin rfl fun j g hg _ => ?_
          by_cases hj : j = c.target
          · subst hj
            exact Or.inr ⟨c, hc, rfl, hdue, hended g hg⟩
          · exact Or.inl (hconf.spares j hj)
        refine hmoved.untake (fun j => ?_) fun j => rfl
        rw [reports_of_none hop, reports_of_none rfl]
      · obtain ⟨hin, hb⟩ := hi.turn_waits hc hl (Nat.lt_of_not_le hdue)
        exact hb.moved_turn hin hop

theorem InStep.moved_turn (hi : InStep still h) (i : Nat) :
    Moved still (.turn i) h (h.move (.turn i)) := by
  cases hjob : h.ready[i]? with
  | none => exact hi.moved_of_eq (move_turn_of_none hjob) (by simp [operation?, hjob])
  | some job =>
      rw [move_turn hjob]
      cases job with
      | respond name key deadline => exact hi.moved_respond hjob
      | watch k key => exact hi.moved_watch hjob
      | evict t generation k => exact hi.moved_evict hjob

theorem InStep.moved_pass (hi : InStep still h) (millis : Nat) :
    Moved still (.pass millis) h (h.move (.pass millis)) := by
  have hspares := spares_moveTo h (h.now + millis)
  refine ⟨hi.moveTo _, Nat.le_add_right h.now millis, fun k g hg _ => (hspares k).gist.trans hg,
    fun k g _ _ _ _ => Or.inl (hspares k), fun k g hg hr => ?_⟩
  rcases hr with hr | rfl
  · exact absurd (reports_of_none rfl k) hr
  · exact absurd (lt_of_gist? ((hspares _).gist.symm.trans hg)) (Nat.lt_irrefl _)

theorem beside_actOn (h : Hub) (key : Nat) (a : Exchange.Act) : Beside h (h.actOn key a) := by
  have hserve : Beside h (if (h.loose? key).isSome then h.serve key fun x => x.act a else h) := by
    split
    · exact beside_serve ..
    · exact .refl h
  cases a with
  | depart => exact beside_departRequester h key
  | take => exact beside_mapExchange h key _
  | leave => exact (beside_departRequester h key).trans (beside_mapExchange _ key _)
  | deliver | close | closeWith | compress | drop => exact hserve

theorem InStep.moved_listenSilently (hi : InStep still h) (k : Nat) :
    Moved still (.listenSilently k) h (h.move (.listenSilently k)) := by
  cases hs : h.session? k with
  | none => exact hi.moved_of_eq (by simp [move, hs]) rfl
  | some s =>
      have hmove : h.move (.listenSilently k) = h.setSession k (s.observe .silent).2 := by
        simp [move, hs]
      have hb := beside_observe hs (o := .silent) (by simp)
      rw [hmove]
      exact hb.moved (hi.beside hb) rfl

/-- The only operation of a turn is to let go of those who left. -/
theorem of_operation?_turn {i j : Nat} {events : List Event}
    (hop : h.operation? (.turn i) = some (j, events)) :
    ∃ s, h.session? j = some s ∧ events = s.release.events := by
  cases hjob : h.ready[i]? with
  | none => simp [operation?, hjob] at hop
  | some job =>
      cases job with
      | respond name key deadline => simp [operation?, hjob] at hop
      | evict t generation k => simp [operation?, hjob] at hop
      | watch k key =>
          cases hs : h.session? k with
          | none => simp [operation?, hjob, hs] at hop
          | some s =>
              simp only [operation?, hjob, hs, Option.map_some] at hop
              split at hop
              · obtain ⟨rfl, rfl⟩ : k = j ∧ s.release.events = events := by simpa using hop
                exact ⟨s, hs, rfl⟩
              · cases hop

/-- **Every move keeps the hub in step.** -/
theorem InStep.move (hi : InStep still h) (m : Move) :
    Moved (still ++ h.stillbornBy m) m h (h.move m) := by
  have hquiet : ∀ m, h.stillbornBy m = [] → Moved still m h (h.move m) →
      Moved (still ++ h.stillbornBy m) m h (h.move m) := by
    intro m hnone hm
    rw [hnone, List.append_nil]
    exact hm
  have hbeside : ∀ m, h.stillbornBy m = [] → h.operation? m = none → Beside h (h.move m) →
      Moved (still ++ h.stillbornBy m) m h (h.move m) := by
    intro m hnone hop hb
    exact hquiet m hnone (hb.moved (hi.beside hb) hop)
  cases m with
  | connect rid secure => exact hbeside _ rfl rfl (beside_newExchange h rid secure)
  | create request key => exact hi.moved_create request key
  | forward rid k secure payload => exact hquiet _ rfl (hi.moved_forward rid k secure payload)
  | push id stanza => exact hquiet _ rfl (hi.moved_push id stanza)
  | closeId id => exact hquiet _ rfl (hi.moved_closeId id)
  | shutdown => exact hquiet _ rfl hi.moved_shutdown
  | enter k key poll => exact hquiet _ rfl (hi.moved_enter k key poll)
  | deliver k stanza => exact hquiet _ rfl (hi.moved_deliver k stanza)
  | release k => exact hquiet _ rfl (hi.moved_release k)
  | close k shutdown => exact hquiet _ rfl (hi.moved_close k shutdown)
  | listen k label actions =>
      exact hbeside _ rfl rfl (beside_addRecorder h k label (by simp))
  | listenSilently k => exact hquiet _ rfl (hi.moved_listenSilently k)
  | unlisten k label => exact hbeside _ rfl rfl (beside_removeRecorder hi.sane.tidy k label)
  | exchange key a => exact hbeside _ rfl rfl (beside_actOn h key a)
  | await name key millis => exact hbeside _ rfl rfl (beside_spawn h _)
  | turn i => exact hquiet _ rfl (hi.moved_turn i)
  | pass millis => exact hquiet _ rfl (hi.moved_pass millis)

/-! ### Runs -/

/-- The sessions that began in a run only to be ended in the call that announced them. -/
def stillbornIn (h : Hub) : List Move → List Nat
  | [] => []
  | m :: ms => h.stillbornBy m ++ (h.move m).stillbornIn ms

theorem inStep_start (settings : Settings) (server : Server) (sink : Sink)
    (ids : Nat → StreamId) : InStep [] (Script.withService settings server sink ids) := by
  refine ⟨⟨⟨rfl, rfl, by simp [Script.withService], by simp [Script.withService],
    by simp [Script.withService]⟩, Countdowns.regular_empty, List.nodup_nil,
    by simp [Script.withService], fun c hc => ?_⟩, by simp, fun j g hg => ?_⟩
  · have hnone : (Script.withService settings server sink ids).running = [] := rfl
    rw [hnone] at hc
    cases hc
  · have hlt := lt_of_gist? hg
    exact absurd hlt (Nat.not_lt_zero j)

/-- **The registry and the countdowns are in step after every run.** -/
theorem InStep.play (hi : InStep still h) (ms : List Move) :
    InStep (still ++ h.stillbornIn ms) (h.play ms) := by
  -- the list of sessions that stay registered grows with the run
  induction ms generalizing still h with
  | nil => simpa [stillbornIn, Hub.play] using hi
  | cons m ms ih =>
      have hrest := ih (hi.move m).inStep
      rw [List.append_assoc] at hrest
      exact hrest

/-- The hub has come out of a run that began with an empty registry. -/
def Reachable (h : Hub) : Prop :=
  ∃ settings server sink ids ms, h = (Script.withService settings server sink ids).play ms

theorem Reachable.inStep (hr : h.Reachable) : ∃ still, InStep still h := by
  obtain ⟨settings, server, sink, ids, ms, rfl⟩ := hr
  exact ⟨_, (inStep_start settings server sink ids).play ms⟩

end Hub

end HttpBinding
