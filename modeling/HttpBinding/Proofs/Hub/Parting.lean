import HttpBinding.Proofs.Hub.Happenings
import HttpBinding.Proofs.Hub.View

/-!
# HttpBinding.Proofs.Hub.Parting

What the end of one session leaves behind.

When an open session ends, the exchanges that it holds are told so and let go, its buffer is handed on,
and its observers hear of the end one after the other. Two kinds of notes bear witness to that: the
stanzas that are handed on, and the steward's call of the server. `parting` lists them in their order:
the buffer comes first, and after it whatever the observers do. There is one steward at most, so the
server is called once (`Reachable.oneSteward`).
-/

namespace HttpBinding

/-- The note says that a stanza was handed on. -/
def Note.isFailover : Note → Bool
  | .failover _ => true
  | _ => false

/-- The note says that the server was told of the end of a session. -/
def Note.isClosed : Note → Bool
  | .closed _ => true
  | _ => false

/-- The stanza that a recorder sends when it hears of the end. -/
def lastWord? : Occasion × Action → Option Stanza
  | (.ended, .deliver stanza) => some stanza
  | _ => none

/-- The stanzas that an observer sends when it hears of the end. -/
def Observer.lastWords : Observer → List Stanza
  | .recorder _ actions => actions.filterMap lastWord?
  | _ => []

/-- The notes about stanzas that are handed on. -/
def Sink.takes (sink : Sink) (stanzas : List Stanza) : List Note :=
  if sink = .recorded then stanzas.map Note.failover else []

/-- The notes that come of an observer's hearing of the end. -/
def Observer.parting (sink : Sink) : Observer → List Note
  | .steward => [.closed false]
  | o => sink.takes o.lastWords

namespace Session

/-- The stanzas that the observers of a session send when they hear of its end. -/
def lastWords (s : Session Observer) : List Stanza := s.observers.flatMap fun o => o.2.lastWords

/-- The notes that come of the end of an open session. -/
def parting (s : Session Observer) : List Note :=
  s.sink.takes s.buffer ++ s.observers.flatMap fun o => o.2.parting s.sink

end Session

/-! ### What is noted at the end of a session -/

theorem Sink.takes_append (sink : Sink) (stanzas more : List Stanza) :
    sink.takes (stanzas ++ more) = sink.takes stanzas ++ sink.takes more := by
  cases sink <;> simp [Sink.takes]

theorem Sink.filter_takes (sink : Sink) (stanzas : List Stanza) :
    (sink.takes stanzas).filter Note.isFailover = sink.takes stanzas ∧
      (sink.takes stanzas).filter Note.isClosed = [] := by
  cases sink <;> simp [Sink.takes, Note.isFailover, Note.isClosed]

theorem Observer.filter_parting (sink : Sink) (o : Observer) :
    (o.parting sink).filter Note.isFailover = sink.takes o.lastWords ∧
      (o.parting sink).filter Note.isClosed =
        List.replicate (if o = .steward then 1 else 0) (.closed false) := by
  cases o with
  | steward => cases sink <;> exact ⟨rfl, rfl⟩
  | silent => exact sink.filter_takes _
  | recorder label actions => exact sink.filter_takes _

/-- The buffer is handed on in order, and after it what observers send. -/
theorem Session.failovers_parting (s : Session Observer) :
    s.parting.filter Note.isFailover = s.sink.takes (s.buffer ++ s.lastWords) := by
  have hwords : ∀ os : List (Nat × Observer),
      (os.flatMap fun o => o.2.parting s.sink).filter Note.isFailover =
        s.sink.takes (os.flatMap fun o => o.2.lastWords) := by
    intro os
    induction os with
    | nil => cases s.sink <;> rfl
    | cons o os ih =>
        rw [List.flatMap_cons, List.filter_append, ih, (o.2.filter_parting s.sink).1,
          ← Sink.takes_append, List.flatMap_cons]
  rw [Session.parting, List.filter_append, (s.sink.filter_takes s.buffer).1, hwords,
    ← Sink.takes_append]
  rfl

/-- The server is told as often as there are stewards. -/
theorem Session.closures_parting (s : Session Observer) :
    s.parting.filter Note.isClosed =
      List.replicate ((s.observers.map Prod.snd).count .steward) (.closed false) := by
  have htold : ∀ os : List (Nat × Observer),
      (os.flatMap fun o => o.2.parting s.sink).filter Note.isClosed =
        List.replicate ((os.map Prod.snd).count .steward) (.closed false) := by
    intro os
    induction os with
    | nil => rfl
    | cons o os ih =>
        rw [List.flatMap_cons, List.filter_append, ih, (o.2.filter_parting s.sink).2,
          List.replicate_append_replicate, List.map_cons, List.count_cons, Nat.add_comm]
        simp
  rw [Session.parting, List.filter_append, (s.sink.filter_takes s.buffer).2, List.nil_append, htold]

namespace Hub

variable {q : Note → Bool} {p : String → Prop} {k : Nat} {id : StreamId} {h h' : Hub}
  {s : Session Observer} {aloof : Nat → Prop}

/-! ### The steward is there once -/

/-- No session has two stewards. -/
def OneSteward (h : Hub) : Prop :=
  ∀ s ∈ h.sessions, (s.observers.map Prod.snd).count .steward ≤ 1

theorem OneSteward.of_eq (ho : h.OneSteward) (hsessions : h'.sessions = h.sessions) :
    h'.OneSteward := by
  unfold OneSteward
  rw [hsessions]
  exact ho

/-- A session may be replaced by one that has no more stewards. -/
theorem OneSteward.setSession (ho : h.OneSteward) (hs : h.session? k = some s)
    {t : Session Observer} (hcount : (t.observers.map Prod.snd).count .steward ≤
      (s.observers.map Prod.snd).count .steward) : (h.setSession k t).OneSteward := by
  intro u hu
  rcases List.mem_or_eq_of_mem_set hu with hu | rfl
  · exact ho u hu
  · exact Nat.le_trans hcount (ho s (mem_sessions hs))

/-- Whatever becomes of exchanges, the observers stay. -/
theorem OneSteward.mapExchange (ho : h.OneSteward) (key : Nat) (f : Exchange → Exchange) :
    (h.mapExchange key f).OneSteward := by
  intro u hu
  obtain ⟨s, hs, rfl⟩ := List.mem_map.mp hu
  exact ho s hs

theorem OneSteward.trifle (ho : h.OneSteward) (ht : Trifle p k id h h') : h'.OneSteward := by
  cases ht with
  | note | count | label | wake | unregister | visit => exact ho.of_eq rfl
  | observe hs hne => exact ho.setSession hs (by simp [Session.observe, hne])
  | unobserve hs =>
      exact ho.setSession hs ((List.filter_sublist.map Prod.snd).count_le _)
  | cancel =>
      obtain ⟨timers, ready, parked, heq⟩ := cancel_eq h registryTimer k
      rw [heq]
      exact ho.of_eq rfl

theorem OneSteward.step (ho : h.OneSteward) (hs : Step k id h h') : h'.OneSteward := by
  cases hs with
  | operate hs hop =>
      exact (ho.setSession hs ((hop.observers.map Prod.snd).count_le _)).of_eq rfl
  | aside ha =>
      cases ha with
      | trifle ht => exact ho.trifle ht
      | arm =>
          obtain ⟨timers, ready, parked, heq⟩ := arm_eq h registryTimer k
          rw [heq]
          exact ho.of_eq rfl

theorem OneSteward.happening (ho : h.OneSteward) (ha : Happening aloof h h') : h'.OneSteward := by
  cases ha with
  | step hs => exact ho.step hs
  | connect | draw | spawn | unqueue | wait | cancelAll | pass => exact ho.of_eq rfl
  | begin id hs hobservers journal calls =>
      intro u hu
      rcases List.mem_append.mp hu with hu | hu
      · exact ho u hu
      · obtain rfl := List.mem_singleton.mp hu
        simp [hobservers]
  | serve | take => exact ho.mapExchange _ _
  | depart key =>
      have hleft : (h.mapExchange key Exchange.depart).OneSteward := ho.mapExchange _ _
      exact hleft.of_eq rfl
  | enter _ hs hx poll =>
      rename_i k s x
      have hsame := (s.fits_accept x poll h.now).observers
      exact (ho.setSession hs (Nat.le_of_eq (by rw [hsame]))).of_eq rfl

theorem OneSteward.happenings (ho : h.OneSteward) (ha : Happenings aloof h h') : h'.OneSteward :=
  ha.keep (fun hstep ho => ho.happening hstep) ho

/-- After every run, each session has one steward at most. -/
theorem InStep.oneSteward_play {still : List Nat} (hi : InStep still h) (hh : h.Orderly)
    (ho : h.OneSteward) (ms : List Move) : (h.play ms).OneSteward := by
  induction ms generalizing still h with
  | nil => exact ho
  | cons m ms ih =>
      exact ih (hi.move m).inStep (hh.move hi m) (ho.happenings (hi.pieces hh m))

theorem Reachable.oneSteward (hr : h.Reachable) : h.OneSteward := by
  obtain ⟨settings, server, sink, ids, ms, rfl⟩ := hr
  refine (inStep_start settings server sink ids).oneSteward_play (orderly_start ..) ?_ ms
  intro s hs
  cases hs

/-- An open session has its steward. -/
theorem InStep.count_steward {still : List Nat} (hi : InStep still h) (ho : h.OneSteward)
    (hs : h.session? k = some s) (hopen : s.closed = false) :
    (s.observers.map Prod.snd).count .steward = 1 := by
  have hatt : s.gist.attended = true := hi.attended hs hopen
  obtain ⟨o, hmem, heq⟩ : ∃ o ∈ s.observers, o.2 = Observer.steward := by
    simpa [Session.gist] using hatt
  have hpos : 0 < (s.observers.map Prod.snd).count .steward :=
    List.count_pos_iff.mpr (List.mem_map.mpr ⟨o, hmem, heq⟩)
  have hle := ho s (mem_sessions hs)
  omega

/-! ### While observers hear of the end -/

theorem Trifle.now (ht : Trifle p k id h h') : h'.now = h.now := by
  cases ht with
  | note | count | label | observe | unobserve | wake | unregister | visit => rfl
  | cancel =>
      obtain ⟨timers, ready, parked, heq⟩ := cancel_eq h registryTimer k
      rw [heq]

theorem Trifles.now (ht : Trifles p k id h h') : h'.now = h.now :=
  ht.keep (P := fun b => b.now = h.now) (fun hstep hb => hstep.now.trans hb) rfl

/-- The session `k` has ended, and its observers are being told. -/
structure Over (k : Nat) (id : StreamId) (sink : Sink) (now : Nat) (h : Hub) : Prop
    extends Scene k id h where
  ended : ∃ s, h.session? k = some s ∧ s.closed = true ∧ s.sink = sink
  now_eq : h.now = now

variable {sink : Sink} {now : Nat}

theorem Trifles.over (ht : Trifles p k id h h') (hover : Over k id sink now h) :
    Over k id sink now h' := by
  obtain ⟨s, hs, hc, hsink⟩ := hover.ended
  obtain ⟨observers, nextTicket, hs'⟩ := ht.asides.recast hs
  exact ⟨ht.scene hover.toScene, ⟨_, hs', hc, hsink⟩, ht.now.trans hover.now_eq⟩

/-- The notes `q` among some notes, as they are written at the time `now`. -/
def entries (q : Note → Bool) (now : Nat) (id : StreamId) (notes : List Note) : List Entry :=
  (notes.filter q).map fun note => ⟨now, id.text, note⟩

theorem entries_append (notes more : List Note) :
    entries q now id (notes ++ more) = entries q now id notes ++ entries q now id more := by
  simp [entries]

theorem log_write (h : Hub) (id : StreamId) (note : Note) :
    (h.write id note).log q id = h.log q id ++ entries q h.now id [note] := by
  rw [log_write_self]
  cases hnote : q note <;> simp [entries, hnote]

theorem log_foldl_write (h : Hub) (id : StreamId) (notes : List Note) :
    (notes.foldl (fun b note => b.write id note) h).log q id =
      h.log q id ++ entries q h.now id notes := by
  induction notes generalizing h with
  | nil => exact (List.append_nil _).symm
  | cons note notes ih =>
      have hcons : entries q h.now id (note :: notes) =
          entries q h.now id [note] ++ entries q h.now id notes := entries_append [note] notes
      rw [List.foldl_cons, ih, log_write, List.append_assoc, hcons]
      rfl

/-- What a report adds to the notes is what is handed on. -/
theorem log_absorb {α : Type} (hs : h.session? k = some s) {r : Report Observer α}
    (hid : r.session.id = id) :
    (h.absorb k r).log q id = h.log q id ++ entries q h.now id (r.session.sink.takes r.failedOver) := by
  have hwritten : ∀ (notes : List Note) (v : View), (notes.foldl (View.write q id) v).log =
      v.log ++ entries q v.now id notes := by
    intro notes
    induction notes with
    | nil => exact fun v => (List.append_nil _).symm
    | cons note notes ih =>
        intro v
        rw [List.foldl_cons, ih]
        cases hnote : q note <;> simp [View.write, entries, hnote]
  have hview : (h.absorb k r).view q (fun _ => false) k id = _ := view_absorb hs hid
  have hlog := congrArg View.log hview
  rw [hwritten] at hlog
  exact hlog

/-- The notes `q` are among those that bear witness to the end of a session. -/
def Witnesses (q : Note → Bool) : Prop :=
  ∀ note, note.isFailover = false → note.isClosed = false → q note = false

theorem Witnesses.entries_eq_nil (hq : Witnesses q) {note : Note} (hfailover : note.isFailover = false)
    (hclosed : note.isClosed = false) : entries q now id [note] = [] := by
  simp [entries, hq note hfailover hclosed]

/-- A recorder of an ended session can do nothing that is heard of but send stanzas. -/
theorem log_act (hover : Over k id sink now h) (a : Action) :
    (h.act k a).1.log q id =
      h.log q id ++ entries q now id (sink.takes (lastWord? (.ended, a)).toList) := by
  obtain ⟨s, hs, hc, rfl⟩ := hover.ended
  obtain rfl : s.id = id := hover.id_eq hs
  obtain rfl := hover.now_eq
  have hnone : h.log q s.id = h.log q s.id ++ entries q h.now s.id (s.sink.takes []) := by
    simp [entries, Sink.takes]
  cases a with
  | remove label =>
      refine Eq.trans ?_ hnone
      simp only [act, removeRecorder]
      split <;> rfl
  | add label =>
      refine Eq.trans ?_ hnone
      simp only [act, addRecorder, hs]
      rfl
  | arm timer session | cancel timer session =>
      refine Eq.trans ?_ hnone
      simp only [act, byTimer_of_unnamed hover.unnamed]
  | deliver stanza =>
      have hr : s.deliver stanza = { answer := .failover, session := s, failedOver := [stanza] } := by
        simp [Session.deliver, hc]
      simp only [act, ifEnded, hs, hc, if_true]
      rw [log_absorb hs (by rw [hr]), hr]
      rfl
  | release =>
      have hr : s.release = { answer := 0, session := s } := by simp [Session.release, hc]
      simp only [act, ifEnded, hs, hc, if_true]
      rw [log_absorb hs (by rw [hr]), hr]
      rfl
  | close =>
      have hr : s.close true = { answer := [], session := s } := by simp [Session.close, hc]
      simp only [act, ifEnded, hs, hc, if_true]
      rw [log_absorb hs (by rw [hr]), hr]
      rfl
  | enter rid poll =>
      have hs' : ((h.newExchange rid true).1.takeLoose h.nextExchange).session? k = some s := hs
      have hact : (h.act k (.enter rid poll)).1 =
          (((h.newExchange rid true).1.takeLoose h.nextExchange).ifEnded k
            (·.accept (Exchange.fresh h.nextExchange rid true).depart poll h.now)
            .ofExcept).1 := rfl
      have hr : s.accept (Exchange.fresh h.nextExchange rid true).depart poll h.now =
          { answer := .error (.sessionClosed s.id)
            session := s
            released := [(Exchange.fresh h.nextExchange rid true).depart.drop] } := by
        simp [Session.accept, hc]
      rw [hact]
      simp only [ifEnded, hs', hc, if_true]
      rw [log_absorb hs' (by rw [hr]), hr]
      rfl

theorem Witnesses.log_actAll (hq : Witnesses q) (hover : Over k id sink now h) (label : String)
    (actions : List (Occasion × Action)) :
    (h.actAll k .ended label actions).log q id =
      h.log q id ++ entries q now id (sink.takes (actions.filterMap lastWord?)) := by
  induction actions generalizing h with
  | nil => simp [actAll, entries, Sink.takes]
  | cons a actions ih =>
      have hcons : h.actAll k .ended label (a :: actions) =
          (h.actAll k .ended label [a]).actAll k .ended label actions := rfl
      have htrifles : Trifles (fun _ => True) k id h (h.actAll k .ended label [a]) :=
        trifles_actAll hover.toPlaced label (by simp)
      have hone : (h.actAll k .ended label [a]).log q id =
          h.log q id ++ entries q now id (sink.takes (lastWord? a).toList) := by
        obtain ⟨occasion, action⟩ := a
        by_cases hoccasion : occasion = .ended
        · subst hoccasion
          obtain ⟨s, hs, -, -⟩ := hover.ended
          obtain rfl : s.id = id := hover.id_eq hs
          have hact := log_act (q := q) hover action
          rcases hdone : h.act k action with ⟨h₁, answer⟩
          rw [hdone] at hact
          simp only [actAll, List.foldl_cons, List.foldl_nil, if_true, hdone, hs]
          cases answer with
          | none => exact hact
          | some answer =>
              rw [log_write, hq.entries_eq_nil rfl rfl, List.append_nil]
              exact hact
        · have hnone : lastWord? (occasion, action) = none := by
            cases occasion <;> first | rfl | exact absurd rfl hoccasion
          simp [actAll, hoccasion, hnone, entries, Sink.takes]
      rw [hcons, ih (htrifles.over hover), hone, List.append_assoc, ← entries_append]
      congr 2
      cases hword : lastWord? a <;> cases sink <;> simp [Sink.takes, hword]

/-- What an observer leaves in the notes when it hears of the end. -/
theorem Witnesses.log_hearEnd (hq : Witnesses q) (hover : Over k id sink now h)
    (close : Hub → Nat → Bool → Hub) (o : Observer) :
    (hearEnd close k h o).log q id = h.log q id ++ entries q now id (o.parting sink) := by
  obtain ⟨s, hs, -, -⟩ := hover.ended
  obtain rfl : s.id = id := hover.id_eq hs
  cases o with
  | silent => simp [hearEnd, Observer.parting, Observer.lastWords, entries, Sink.takes]
  | recorder label actions =>
      have hheard : Trifles (fun _ => True) k s.id h (h.writeHeard k .ended label none) :=
        trifles_writeHeard hover.toPlaced ..
      have hnoted : (h.writeHeard k .ended label none).log q s.id = h.log q s.id := by
        simp only [writeHeard, hs]
        rw [log_write, hq.entries_eq_nil rfl rfl, List.append_nil]
      show ((h.writeHeard k .ended label none).actAll k .ended label actions).log q s.id = _
      rw [hq.log_actAll (hheard.over hover), hnoted]
      rfl
  | steward =>
      obtain ⟨hnone, -⟩ := hover.toScene.removed q fun _ => false
      obtain ⟨h₁, hh₁⟩ : ∃ h₁, h₁ = (h.unregister s.id k).cancel registryTimer k := ⟨_, rfl⟩
      rw [← hh₁] at hnone
      have hsame : h₁.log q s.id = h.log q s.id ∧ h₁.now = now := by
        obtain ⟨timers, ready, parked, heq⟩ := cancel_eq (h.unregister s.id k) registryTimer k
        rw [hh₁, heq]
        exact ⟨rfl, hover.now_eq⟩
      have hdemands : ∀ (ds : List Demand) (t : Nat), entries q t s.id (ds.map fun d =>
          Note.demand .closed d (.fault (.unknownSession s.id))) = [] := by
        intro ds t
        simp only [entries, List.map_eq_nil_iff, List.filter_eq_nil_iff, List.mem_map]
        rintro note ⟨d, -, rfl⟩
        rw [hq _ rfl rfl]
        simp
      simp only [hearEnd, hs, ← hh₁, lookup_eq_none hnone, Option.isSome_none]
      rw [consult_of_unknown (h := h₁.write s.id (.closed false)) close hnone .closed,
        log_foldl_write, hdemands, List.append_nil]
      show (h₁.write s.id (.closed false)).log q s.id = _
      rw [log_write, hsame.1, hsame.2]
      rfl

theorem Witnesses.log_foldl_hearEnd (hq : Witnesses q) (hover : Over k id sink now h)
    (close : Hub → Nat → Bool → Hub) (os : List Observer) :
    (os.foldl (hearEnd close k) h).log q id =
      h.log q id ++ entries q now id (os.flatMap (Observer.parting sink)) := by
  induction os generalizing h with
  | nil => exact (List.append_nil _).symm
  | cons o os ih =>
      have htrifles : Trifles (fun _ => True) k id h (hearEnd close k h o) :=
        trifles_hearEnd hover.toPlaced hover.sole close fun _ _ _ _ _ _ _ _ => trivial
      rw [List.foldl_cons, ih (htrifles.over hover), hq.log_hearEnd hover close o, List.flatMap_cons,
        entries_append, List.append_assoc]

/-! ### The end of an open session -/

/-- Everything is in place for the session `k` to end, which is `s`. -/
theorem InStep.scene {still : List Nat} (hi : InStep still h) (hs : h.session? k = some s)
    (hopen : s.closed = false) : Scene k s.id h :=
  ⟨hi.placed hs, hi.sole_of_open hs hopen, hi.sane.tidy.oneTable⟩

/-- After the operation itself the end of an open session consists of trifles. -/
theorem Scene.trifles_close (hscene : Scene k id h) (hs : h.session? k = some s) (shutdown : Bool) :
    Trifles (fun _ => True) k id { h.setSession k (s.close shutdown).session with
      loose := h.loose ++ (s.close shutdown).released } (h.close k shutdown) := by
  obtain rfl := hscene.id_eq hs
  exact Hub.trifles_close hs hscene.unnamed hscene.sole
    (fun _ _ _ _ _ _ _ _ _ _ => trivial) shutdown

/-- **The end of an open session is noted in full**: what it buffered is handed on in order, then
comes what its observers do. -/
theorem Witnesses.log_close (hq : Witnesses q) (hscene : Scene k id h) (hs : h.session? k = some s)
    (hopen : s.closed = false) (shutdown : Bool) :
    (h.close k shutdown).log q id = h.log q id ++ entries q h.now id s.parting := by
  obtain rfl : s.id = id := hscene.id_eq hs
  have hcases := (s.close_cases shutdown).resolve_left (by simp [hopen])
  have hid : (s.close shutdown).session.id = s.id := (operates_close s shutdown).id
  have hsink : (s.close shutdown).session.sink = s.sink := (operates_close s shutdown).sink
  have hset : Scene k s.id { h.setSession k (s.close shutdown).session with
      loose := h.loose ++ (s.close shutdown).released } :=
    ⟨(hscene.toPlaced.setSession hid).of_eq rfl rfl, hscene.sole, hscene.oneTable⟩
  have hover : Over k s.id s.sink h.now (h.absorb k (s.close shutdown)) := by
    have htrifles := trifles_absorb (p := fun _ => True) h k (s.close shutdown)
    rw [hid] at htrifles
    exact htrifles.over ⟨hset, ⟨_, session?_setSession_self hs _, s.closed_close shutdown, hsink⟩, rfl⟩
  rw [close_eq_foldl hs, hq.log_foldl_hearEnd hover, log_absorb hs hid, hsink, List.append_assoc,
    ← entries_append]
  congr 2
  rw [hcases.2]
  simp [Session.parting, List.flatMap_map]

/-- The session that has ended holds and buffers nothing. -/
theorem Scene.session?_close (hscene : Scene k id h) (hs : h.session? k = some s)
    (hopen : s.closed = false) (shutdown : Bool) :
    ∃ t, (h.close k shutdown).session? k = some t ∧ t.closed = true ∧ t.held = [] ∧
      t.buffer = [] := by
  have hcases := (s.close_cases shutdown).resolve_left (by simp [hopen])
  obtain ⟨observers, nextTicket, ht⟩ := (hscene.trifles_close hs shutdown).asides.recast
    (session?_setSession_self hs _)
  refine ⟨_, ht, ?_⟩
  rw [hcases.2]
  exact ⟨rfl, rfl, rfl⟩

/-- Each exchange that the session held is loose afterwards and was told of the end. -/
theorem Scene.loose_close (hscene : Scene k id h) (ho : h.Orderly) (hs : h.session? k = some s)
    (hopen : s.closed = false) (shutdown : Bool) {x : Exchange} (hx : x ∈ s.held) :
    x.closeWith (.terminate (Session.condition shutdown)) ∈ (h.close k shutdown).loose := by
  have hcases := (s.close_cases shutdown).resolve_left (by simp [hopen])
  have hrest := (hscene.trifles_close hs shutdown).asides.steps
  have hstep : Step k id h _ := .operate hs (operates_close s shutdown)
  have hset := (ho.step hstep).orderly
  refine hset.loose_steps hrest (List.mem_append_right _ ?_)
  rw [hcases.2]
  exact List.mem_map_of_mem hx

end Hub

end HttpBinding
