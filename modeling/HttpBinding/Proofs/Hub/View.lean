import HttpBinding.Proofs.Hub.Orderly

/-!
# HttpBinding.Proofs.Hub.View

What the end of one session depends on, and what it leaves alone.

A `View` is what those who hear of the end of a session can see of the hub, together with what was
written about the session. Two facts about it are all that is needed to put the ends of several
sessions in any order:

* the end of one session does not change the view of another (`view_close_of_ne`);
* what the end of a session makes of its view depends on that view only (`view_close_congr`).

Observers are removed by the labels under which they were added, and all sessions share the labels. So
a view shows the meaning of some labels only (`ls`), and others may change it in what is not shown.
A server may remember its calls, so what it demands can depend on the order of the calls. All that it
demands about a session which is off the registry comes to nothing but notes, and a view may leave
these out (`q`).
-/

namespace HttpBinding

/-- What those who hear of the end of a session can see of the hub, and what was written about it. -/
structure View where
  now : Nat
  managed : Bool
  server : Server
  session : Option (Session Observer)
  armed : Bool
  ticket : String → Option Nat
  log : List Entry

/-- A note about a session with the identifier `id` is written, if it is one of the notes `q`. -/
def View.write (q : Note → Bool) (id : StreamId) (v : View) (note : Note) : View :=
  { v with log := v.log ++ if q note then [⟨v.now, id.text, note⟩] else [] }

namespace Hub

/-- The notes `q` about a session with the identifier `id`, with their times. -/
def log (q : Note → Bool) (h : Hub) (id : StreamId) : List Entry :=
  h.journal.filter fun e => e.about == id.text && q e.note

/-- What can be seen from the session `k`, which has the identifier `id`, where only the labels `ls`
are in use and only the notes `q` count. -/
def view (q : Note → Bool) (ls : String → Bool) (k : Nat) (id : StreamId) (h : Hub) : View where
  now := h.now
  managed := h.managed
  server := h.server
  session := h.session? k
  armed := (h.timer registryTimer).isArmed id
  ticket label := if ls label then h.names.recorders.lookup label else none
  log := h.log q id

/-- The session `k` is there with the identifier `id`, which nobody else has, and there is one table
of countdowns. -/
structure Scene (k : Nat) (id : StreamId) (h : Hub) : Prop extends Placed k id h where
  sole : Sole k id h
  oneTable : h.timers.length = 1

variable {q : Note → Bool} {ls : String → Bool} {p : String → Prop} {k j : Nat}
  {id other : StreamId} {h h' g g' : Hub} {s : Session Observer}

theorem Trifle.oneTable (ht : Trifle p k id h h') (hone : h.timers.length = 1) :
    h'.timers.length = 1 := by
  cases ht with
  | note | count | label | observe | unobserve | wake | unregister | visit => exact hone
  | cancel =>
      unfold Hub.cancel
      split
      · exact hone
      · simp [Hub.setTimer, Hub.wake, hone]

theorem Trifle.server (ht : Trifle p k id h h') : h'.server = h.server := by
  cases ht with
  | note | count | label | observe | unobserve | wake | unregister | visit => rfl
  | cancel =>
      obtain ⟨timers, ready, parked, heq⟩ := cancel_eq h registryTimer k
      rw [heq]

theorem Trifles.server (ht : Trifles p k id h h') : h'.server = h.server :=
  ht.keep (P := fun b => b.server = h.server) (fun hstep hb => hstep.server.trans hb) rfl

theorem Trifles.scene (ht : Trifles p k id h h') (hs : Scene k id h) : Scene k id h' :=
  ⟨ht.placed hs.toPlaced, ht.sole hs.sole, ht.keep Trifle.oneTable hs.oneTable⟩

theorem Steps.scene (hsteps : Steps k id h h') (hs : Scene k id h) : Scene k id h' := by
  refine ⟨hsteps.placed hs.toPlaced, hsteps.sole hs.sole, ?_⟩
  refine hsteps.keep (P := fun b => b.timers.length = 1) (fun hstep hone => ?_) hs.oneTable
  cases hstep with
  | operate => exact hone
  | aside ha =>
      cases ha with
      | trifle ht => exact ht.oneTable hone
      | arm =>
          unfold Hub.arm
          split
          · exact hone
          · dsimp only
            split <;> simpa [Hub.setTimer, Hub.wake, Hub.spawn] using hone

theorem log_write_self (h : Hub) (id : StreamId) (note : Note) :
    (h.write id note).log q id =
      h.log q id ++ if q note then [⟨h.now, id.text, note⟩] else [] := by
  simp only [log, Hub.write, List.filter_append, List.filter_singleton, beq_self_eq_true,
    Bool.true_and, Bool.cond_eq_ite]

theorem text_ne (hne : other ≠ id) : (other.text == id.text) = false := by
  rw [beq_eq_false_iff_ne]
  intro heq
  cases other
  cases id
  exact hne (congrArg StreamId.mk heq)

theorem log_write_of_ne (h : Hub) (hne : other ≠ id) (note : Note) :
    (h.write other note).log q id = h.log q id := by
  simp [log, Hub.write, text_ne hne]

theorem view_write (h : Hub) (note : Note) :
    (h.write id note).view q ls k id = (h.view q ls k id).write q id note := by
  simp only [view, log_write_self]
  rfl

theorem view_setSession (hs : h.session? k = some s) (t : Session Observer) :
    (h.setSession k t).view q ls k id = { h.view q ls k id with session := some t } := by
  simp only [view, session?_setSession_self hs]
  rfl

theorem view_wake (h : Hub) (r : Job → Bool) : (h.wake r).view q ls k id = h.view q ls k id := rfl

theorem Scene.timer_cancel (hs : Scene k id h) :
    (h.cancel registryTimer k).timer registryTimer = (h.timer registryTimer).cancel id := by
  obtain ⟨s, ht, rfl⟩ := hs.session
  simp only [Hub.cancel, ht]
  exact timer_setTimer_of_oneTable hs.oneTable _

theorem Scene.view_cancel (hs : Scene k id h) :
    (h.cancel registryTimer k).view q ls k id = { h.view q ls k id with armed := false } := by
  have htimer := hs.timer_cancel
  obtain ⟨timers, ready, parked, heq⟩ := cancel_eq h registryTimer k
  rw [heq] at htimer ⊢
  simp only [view, htimer, Countdowns.isArmed_cancel_self]
  rfl

/-! ### Others -/

/-- A trifle about another session does not change the view, if no label in use gets a meaning. -/
theorem Trifle.view (ht : Trifle p j other h h') (hs : Scene j other h) (hj : j ≠ k)
    (hne : other ≠ id) (hp : ∀ label, p label → ls label = false) :
    h'.view q ls k id = h.view q ls k id := by
  have hsame : h'.session? k = h.session? k := ht.session? (Ne.symm hj)
  cases ht with
  | note note =>
      simp only [Hub.view, log_write_of_ne h hne]
      rfl
  | count | wake | unregister | visit => rfl
  | observe | unobserve =>
      simp only [Hub.view, hsame]
      rfl
  | @label new hnew ticket =>
      simp only [Hub.view, View.mk.injEq, true_and]
      refine ⟨rfl, rfl, ?_, rfl⟩
      funext label
      split
      · rename_i hin
        have hother : (label == new) = false := by
          rw [beq_eq_false_iff_ne]
          rintro rfl
          rw [hp label hnew] at hin
          cases hin
        simp [List.lookup_cons, hother]
      · rfl
  | cancel =>
      have htimer := hs.timer_cancel
      obtain ⟨timers, ready, parked, heq⟩ := cancel_eq h registryTimer j
      rw [heq] at htimer ⊢
      simp only [Hub.view, htimer, Countdowns.isArmed_cancel_of_ne _ (Ne.symm hne)]
      rfl

theorem Trifles.view (ht : Trifles p j other h h') (hs : Scene j other h) (hj : j ≠ k)
    (hne : other ≠ id) (hp : ∀ label, p label → ls label = false) :
    h'.view q ls k id = h.view q ls k id := by
  have hboth : Scene j other h' ∧ h'.view q ls k id = h.view q ls k id := by
    refine ht.keep (P := fun b => Scene j other b ∧ b.view q ls k id = h.view q ls k id) ?_
      ⟨hs, rfl⟩
    intro a b hstep hb
    exact ⟨hstep.trifles.scene hb.1, (hstep.view hb.1 hj hne hp).trans hb.2⟩
  exact hboth.2

/-! ### The same session in two hubs -/

theorem view_foldl_write (q : Note → Bool) (ls : String → Bool) (k : Nat) (id : StreamId) (h : Hub)
    (notes : List Note) :
    (notes.foldl (fun b note => b.write id note) h).view q ls k id =
      notes.foldl (View.write q id) (h.view q ls k id) := by
  induction notes generalizing h with
  | nil => rfl
  | cons note notes ih => rw [List.foldl_cons, ih, view_write, List.foldl_cons]

/-- A report is seen by the session it leaves, and by what is handed on. -/
theorem view_absorb {α : Type} (hs : h.session? k = some s) {r : Report Observer α}
    (hid : r.session.id = id) :
    (h.absorb k r).view q ls k id =
      (if r.session.sink = .recorded then r.failedOver.map Note.failover else []).foldl
        (View.write q id) { h.view q ls k id with session := some r.session } := by
  have hwoken : ∀ (xs : List Exchange) (b : Hub),
      (xs.foldl (fun h x => h.wake (Job.awaitsAnswer x.key)) b).view q ls k id =
        b.view q ls k id := by
    intro xs
    induction xs with
    | nil => exact fun _ => rfl
    | cons x xs ih => exact fun b => (ih _).trans (view_wake b _)
  have hset : ({ h.setSession k r.session with loose := h.loose ++ r.released } : Hub).view
      q ls k id = { h.view q ls k id with session := some r.session } :=
    view_setSession hs r.session
  unfold absorb
  rw [hid]
  cases r.session.sink with
  | recorded =>
      have hwritten := view_foldl_write q ls k id
        (r.released.foldl (fun h x => h.wake (Job.awaitsAnswer x.key))
          { h.setSession k r.session with loose := h.loose ++ r.released })
        (r.failedOver.map Note.failover)
      rw [List.foldl_map, hwoken, hset] at hwritten
      exact hwritten
  | discarded => exact (hwoken _ _).trans hset

/-- A label gets a meaning. -/
theorem view_label (h : Hub) (label : String) (ticket : Nat) :
    ({ h with names := { h.names with recorders := (label, ticket) :: h.names.recorders } } :
      Hub).view q ls k id =
    { h.view q ls k id with
      ticket := fun other =>
        if ls other && other == label then some ticket else (h.view q ls k id).ticket other } := by
  simp only [Hub.view, View.mk.injEq, true_and]
  refine ⟨rfl, rfl, ?_, rfl⟩
  funext other
  cases hin : ls other <;> cases heq : other == label <;> simp [List.lookup_cons, heq]

/-- What can be seen in one hub can be seen in another one. -/
theorem session?_of_view (hv : h.view q ls k id = g.view q ls k id)
    (hs : h.session? k = some s) : g.session? k = some s :=
  (congrArg View.session hv).symm.trans hs

theorem ifEnded_congr {α : Type} (hv : h.view q ls k id = g.view q ls k id)
    (hs : h.session? k = some s) {op : Session Observer → Report Observer α}
    (hid : s.closed = true → (op s).session.id = id) (answer : α → Answer) :
    (h.ifEnded k op answer).2 = (g.ifEnded k op answer).2 ∧
      (h.ifEnded k op answer).1.view q ls k id = (g.ifEnded k op answer).1.view q ls k id := by
  have hgs := session?_of_view hv hs
  simp only [ifEnded, hs, hgs]
  split
  · rename_i hc
    refine ⟨rfl, ?_⟩
    rw [view_absorb hs (hid hc), view_absorb hgs (hid hc), hv]
  · exact ⟨rfl, hv⟩

/-- What a recorder does, and what comes of it, depends on the view only. -/
theorem act_congr (hs : Scene k id h) (hg : Scene k id g)
    (hv : h.view q ls k id = g.view q ls k id) {a : Action}
    (hls : ∀ label, a = .remove label → ls label = true) :
    (h.act k a).2 = (g.act k a).2 ∧ (h.act k a).1.view q ls k id = (g.act k a).1.view q ls k id := by
  obtain ⟨s, ht, hid⟩ := hs.session
  have hgt := session?_of_view hv ht
  cases a with
  | remove label =>
      have hticket := congrFun (congrArg View.ticket hv) label
      simp only [Hub.view, hls label rfl, if_true] at hticket
      simp only [act, removeRecorder, hticket, ht, hgt]
      cases g.names.recorders.lookup label with
      | none => exact ⟨rfl, hv⟩
      | some ticket =>
          refine ⟨rfl, ?_⟩
          show (h.setSession k _).view q ls k id = (g.setSession k _).view q ls k id
          rw [view_setSession ht, view_setSession hgt, hv]
  | add label =>
      simp only [act, addRecorder, ht, hgt]
      refine ⟨trivial, ?_⟩
      show ({ h.setSession k _ with names := _ } : Hub).view q ls k id =
        ({ g.setSession k _ with names := _ } : Hub).view q ls k id
      rw [view_label, view_label, view_setSession ht, view_setSession hgt, hv]
  | arm timer session | cancel timer session =>
      simp only [act, byTimer_of_unnamed hs.unnamed, byTimer_of_unnamed hg.unnamed]
      exact ⟨trivial, hv⟩
  | deliver stanza =>
      exact ifEnded_congr hv ht (fun hc => by simp [Session.deliver, hc, hid]) _
  | release => exact ifEnded_congr hv ht (fun hc => by simp [Session.release, hc, hid]) _
  | close => exact ifEnded_congr hv ht (fun hc => by simp [Session.close, hc, hid]) _
  | enter rid poll =>
      -- the two exchanges may have different keys, but both are turned away at once
      have hturned : ∀ b : Hub, b.session? k = some s → b.view q ls k id = h.view q ls k id →
          (b.act k (.enter rid poll)).2 =
              (if s.closed then some (.fault (.sessionClosed s.id)) else none) ∧
            (b.act k (.enter rid poll)).1.view q ls k id = h.view q ls k id := by
        intro b hb hbv
        have hbs : ((b.newExchange rid true).1.takeLoose b.nextExchange).session? k = some s := hb
        have hact : b.act k (.enter rid poll) =
            ((b.newExchange rid true).1.takeLoose b.nextExchange).ifEnded k
              (·.accept (Exchange.fresh b.nextExchange rid true).depart poll b.now)
              .ofExcept := rfl
        rw [hact]
        simp only [ifEnded, hbs]
        split
        · rename_i hc
          have hr : s.accept (Exchange.fresh b.nextExchange rid true).depart poll b.now =
              { answer := .error (.sessionClosed s.id)
                session := s
                released := [(Exchange.fresh b.nextExchange rid true).depart.drop] } := by
            simp [Session.accept, hc]
          refine ⟨?_, ?_⟩
          · rw [hr]
            rfl
          · have hself : { b.view q ls k id with session := some s } = b.view q ls k id := by
              simp only [Hub.view, hb]
            rw [view_absorb hbs (by rw [hr]; exact hid), hr]
            simp only [List.map_nil, ite_self, List.foldl_nil]
            exact hself.trans hbv
        · exact ⟨rfl, hbv⟩
      obtain ⟨hanswer, hview⟩ := hturned h ht rfl
      obtain ⟨hanswer', hview'⟩ := hturned g hgt hv.symm
      exact ⟨hanswer.trans hanswer'.symm, hview.trans hview'.symm⟩

theorem writeHeard_congr (hs : Scene k id h) (hv : h.view q ls k id = g.view q ls k id)
    (occasion : Occasion) (label : String) (rid : Option Nat) :
    (h.writeHeard k occasion label rid).view q ls k id =
      (g.writeHeard k occasion label rid).view q ls k id := by
  obtain ⟨s, ht, rfl⟩ := hs.session
  have hgt := session?_of_view hv ht
  have harmed : h.armed? s.id = g.armed? s.id := by
    have hmanaged : h.managed = g.managed := congrArg View.managed hv
    have hrun : (h.timer registryTimer).isArmed s.id = (g.timer registryTimer).isArmed s.id :=
      congrArg View.armed hv
    simp only [armed?, hmanaged, hrun]
  simp only [writeHeard, ht, hgt, view_write, hv, harmed]

theorem actAll_congr (hs : Scene k id h) (hg : Scene k id g)
    (hv : h.view q ls k id = g.view q ls k id) (label : String)
    {actions : List (Occasion × Action)}
    (hls : ∀ a ∈ actions, a.1 = .ended → ∀ old, a.2 = .remove old → ls old = true) :
    (h.actAll k .ended label actions).view q ls k id =
      (g.actAll k .ended label actions).view q ls k id := by
  induction actions generalizing h g with
  | nil => exact hv
  | cons a actions ih =>
      have hrest : ∀ b ∈ actions, b.1 = .ended → ∀ old, b.2 = .remove old → ls old = true :=
        fun b hb => hls b (List.mem_cons_of_mem a hb)
      have hcons : ∀ b : Hub, b.actAll k .ended label (a :: actions) =
          (b.actAll k .ended label [a]).actAll k .ended label actions := fun _ => rfl
      have hscene : ∀ {b : Hub}, Scene k id b → Scene k id (b.actAll k .ended label [a]) := by
        intro b hb
        have htrifles : Trifles (fun _ => True) k id b (b.actAll k .ended label [a]) :=
          trifles_actAll hb.toPlaced label (by simp)
        exact htrifles.scene hb
      rw [hcons, hcons]
      refine ih (hscene hs) (hscene hg) ?_ hrest
      by_cases hoccasion : a.1 = .ended
      · obtain ⟨hanswer, hview⟩ := act_congr hs hg hv (hls a (by simp) hoccasion)
        obtain ⟨s, ht, rfl⟩ := hs.session
        have hgt := session?_of_view hv ht
        rcases hhact : h.act k a.2 with ⟨h₁, answer⟩
        rcases hgact : g.act k a.2 with ⟨g₁, other⟩
        rw [hhact, hgact] at hanswer hview
        obtain rfl : answer = other := hanswer
        simp only [actAll, List.foldl_cons, List.foldl_nil, hoccasion, if_true, hhact, hgact, ht,
          hgt]
        cases answer with
        | none => exact hview
        | some answer =>
            rw [view_write, view_write]
            exact congrArg (View.write q s.id · _) hview
      · simpa [actAll, hoccasion] using hv

/-- Demands about an identifier that is not registered come to notes of that. -/
theorem consult_of_unknown (close : Hub → Nat → Bool → Hub) (hnone : ∀ j, (id, j) ∉ h.registry)
    (c : Call) :
    h.consult close id c =
      ((h.server.demands h.calls id c).map fun d =>
        Note.demand c d (.fault (.unknownSession id))).foldl
        (fun b note => b.write id note) { h with calls := h.calls + 1 } := by
  have hmeet : ∀ (b : Hub) (d : Demand), (∀ j, (id, j) ∉ b.registry) →
      b.meet close id d = (b, .fault (.unknownSession id)) := by
    intro b d hb
    have hlookup := lookup_eq_none hb
    cases d with
    | deliver stanza => simp [Hub.meet, push, hlookup]
    | close => simp [Hub.meet, closeIdWith, hlookup, Answer.ofExcept]
  have hfold : ∀ (ds : List Demand) (b : Hub), (∀ j, (id, j) ∉ b.registry) →
      ds.foldl (fun b d => (b.meet close id d).1.write id (.demand c d (b.meet close id d).2)) b =
        (ds.map fun d => Note.demand c d (.fault (.unknownSession id))).foldl
          (fun b note => b.write id note) b := by
    intro ds
    induction ds with
    | nil => exact fun _ _ => rfl
    | cons d ds ih =>
        intro b hb
        simp only [List.map_cons, List.foldl_cons, hmeet b d hb]
        exact ih _ hb
  exact hfold _ { h with calls := h.calls + 1 } hnone

/-- The demands are not looked at, or the server does not remember how often it was called. -/
def Forgetful (q : Note → Bool) (server : Server) : Prop :=
  (∀ call d answer, q (.demand call d answer) = false) ∨
    ∀ m n, server.demands m = server.demands n

theorem consult_congr (hv : h.view q ls k id = g.view q ls k id) (hq : Forgetful q h.server)
    (close close' : Hub → Nat → Bool → Hub) (hnone : ∀ j, (id, j) ∉ h.registry)
    (hnone' : ∀ j, (id, j) ∉ g.registry) (c : Call) :
    (h.consult close id c).view q ls k id = (g.consult close' id c).view q ls k id := by
  rw [consult_of_unknown close hnone, consult_of_unknown close' hnone', view_foldl_write,
    view_foldl_write]
  show List.foldl _ (h.view q ls k id) _ = List.foldl _ (g.view q ls k id) _
  rw [hv]
  rcases hq with hhidden | hsame
  · -- none of these notes counts
    have hskip : ∀ (ds : List Demand) (v : View), (ds.map fun d =>
        Note.demand c d (.fault (.unknownSession id))).foldl (View.write q id) v = v := by
      intro ds
      induction ds with
      | nil => exact fun _ => rfl
      | cons d ds ih =>
          intro v
          have hnote : v.write q id (.demand c d (.fault (.unknownSession id))) = v := by
            simp [View.write, hhidden]
          rw [List.map_cons, List.foldl_cons, hnote]
          exact ih v
    rw [hskip, hskip]
  · have hserver : h.server = g.server := congrArg View.server hv
    rw [hsame h.calls g.calls, hserver]

/-- The labels that an observer uses to remove others when it hears of the end are all in use. -/
def Removes (ls : String → Bool) (o : Observer) : Prop :=
  ∀ label actions, o = .recorder label actions →
    ∀ a ∈ actions, a.1 = .ended → ∀ old, a.2 = .remove old → ls old = true

/-- The steward takes the session off the registry and stops its countdown; nobody is registered under
the identifier then. -/
theorem Scene.removed (hs : Scene k id h) (q : Note → Bool) (ls : String → Bool) :
    (∀ j, (id, j) ∉ ((h.unregister id k).cancel registryTimer k).registry) ∧
      ((h.unregister id k).cancel registryTimer k).view q ls k id =
        { h.view q ls k id with armed := false } := by
  have hoff : Trifles (fun _ => True) k id h (h.unregister id k) := Trifle.unregister.trifles
  refine ⟨?_, (hoff.scene hs).view_cancel⟩
  intro j hj
  rw [registry_cancel] at hj
  obtain ⟨hmem, hne⟩ := List.mem_filter.mp hj
  rw [hs.sole j hmem] at hne
  simp at hne

theorem hearEnd_congr (hs : Scene k id h) (hg : Scene k id g)
    (hv : h.view q ls k id = g.view q ls k id) (hq : Forgetful q h.server)
    (close close' : Hub → Nat → Bool → Hub) {o : Observer} (hls : Removes ls o) :
    (hearEnd close k h o).view q ls k id = (hearEnd close' k g o).view q ls k id := by
  obtain ⟨s, ht, hid⟩ := hs.session
  have hgt := session?_of_view hv ht
  cases o with
  | silent => simpa [hearEnd, ht, hgt] using hv
  | recorder label actions =>
      have hheard := writeHeard_congr hs hv .ended label none
      have hscene : ∀ {b : Hub}, Scene k id b → Scene k id (b.writeHeard k .ended label none) := by
        intro b hb
        have htrifles : Trifles (fun _ => True) k id b (b.writeHeard k .ended label none) :=
          trifles_writeHeard hb.toPlaced ..
        exact htrifles.scene hb
      exact actAll_congr (hscene hs) (hscene hg) hheard label (hls label actions rfl)
  | steward =>
      obtain ⟨h₁, hh₁⟩ : ∃ h₁, h₁ = (h.unregister id k).cancel registryTimer k := ⟨_, rfl⟩
      obtain ⟨g₁, hg₁⟩ : ∃ g₁, g₁ = (g.unregister id k).cancel registryTimer k := ⟨_, rfl⟩
      obtain ⟨hnone, hview⟩ := hs.removed q ls
      obtain ⟨hnone', hview'⟩ := hg.removed q ls
      rw [← hh₁] at hnone hview
      rw [← hg₁] at hnone' hview'
      have hsame : h₁.view q ls k id = g₁.view q ls k id := by
        rw [hview, hview', hv]
      have hserver : h₁.server = h.server := congrArg View.server hview
      simp only [hearEnd, ht, hgt, hid, ← hh₁, ← hg₁, lookup_eq_none hnone, lookup_eq_none hnone']
      refine consult_congr (h := h₁.write id _) (g := g₁.write id _) ?_ ?_ close close' hnone hnone'
        .closed
      · rw [view_write, view_write, hsame]
      · show Forgetful q h₁.server
        rw [hserver]
        exact hq

/-- The observers are told of the end in the same order, and none of them can tell the hubs apart. -/
theorem foldl_hearEnd_congr (hs : Scene k id h) (hg : Scene k id g)
    (hv : h.view q ls k id = g.view q ls k id) (hq : Forgetful q h.server)
    (close close' : Hub → Nat → Bool → Hub) {os : List Observer} (hls : ∀ o ∈ os, Removes ls o) :
    (os.foldl (hearEnd close k) h).view q ls k id =
      (os.foldl (hearEnd close' k) g).view q ls k id := by
  induction os generalizing h g with
  | nil => exact hv
  | cons o os ih =>
      have hstep : ∀ {b : Hub} (close : Hub → Nat → Bool → Hub), Scene k id b →
          Trifles (fun _ => True) k id b (hearEnd close k b o) := fun close hb =>
        trifles_hearEnd hb.toPlaced hb.sole close fun _ _ _ _ _ _ _ _ => trivial
      have hnext := hearEnd_congr hs hg hv hq close close' (hls o (by simp))
      refine ih ((hstep close hs).scene hs) ((hstep close' hg).scene hg) hnext ?_
        fun o' ho' => hls o' (List.mem_cons_of_mem o ho')
      rw [(hstep close hs).server]
      exact hq

/-- When a session has ended and its observers have not heard of it yet, the scene is the same. -/
theorem Scene.absorb_close (hs : Scene k id h) (ht : h.session? k = some s) (shutdown : Bool) :
    Scene k id (h.absorb k (s.close shutdown)) ∧
      (h.absorb k (s.close shutdown)).server = h.server := by
  have hid : (s.close shutdown).session.id = id :=
    (operates_close s shutdown).id.trans (hs.id_eq ht)
  have htrifles := trifles_absorb (p := fun _ => True) h k (s.close shutdown)
  rw [hid] at htrifles
  refine ⟨htrifles.scene ⟨(hs.toPlaced.setSession hid).of_eq rfl rfl, hs.sole, hs.oneTable⟩, ?_⟩
  exact htrifles.server

/-- **What the end of a session makes of its view depends on that view only.** -/
theorem view_close_congr (hs : Scene k id h) (hg : Scene k id g)
    (hv : h.view q ls k id = g.view q ls k id) (hq : Forgetful q h.server)
    (ht : h.session? k = some s) (hls : ∀ o ∈ s.observers, Removes ls o.2) (shutdown : Bool) :
    (h.close k shutdown).view q ls k id = (g.close k shutdown).view q ls k id := by
  have hid : (s.close shutdown).session.id = id :=
    (operates_close s shutdown).id.trans (hs.id_eq ht)
  have hgt := session?_of_view hv ht
  obtain ⟨hscene, hserver⟩ := hs.absorb_close ht shutdown
  obtain ⟨hscene', -⟩ := hg.absorb_close hgt shutdown
  rw [close_eq_foldl ht, close_eq_foldl hgt]
  refine foldl_hearEnd_congr hscene hscene' ?_ (hserver ▸ hq) _ _ fun o ho => ?_
  · rw [view_absorb ht hid, view_absorb hgt hid, hv]
  · obtain ⟨e, he, rfl⟩ := mem_answer_close ho
    exact hls e he

/-- **The end of a session does not change the view of another one.** -/
theorem view_close_of_ne (hs : Scene j other h) (ht : h.session? j = some s) (hj : j ≠ k)
    (hne : other ≠ id) (hmine : ∀ o ∈ s.observers, Labels p o.2)
    (hp : ∀ label, p label → ls label = false) (shutdown : Bool) :
    (h.close j shutdown).view q ls k id = h.view q ls k id := by
  obtain rfl : s.id = other := hs.id_eq ht
  have hrest := trifles_close ht hs.unnamed hs.sole hmine shutdown
  have hset : Scene j s.id { h.setSession j (s.close shutdown).session with
      loose := h.loose ++ (s.close shutdown).released } :=
    ⟨(hs.toPlaced.setSession (operates_close s shutdown).id).of_eq rfl rfl, hs.sole, hs.oneTable⟩
  refine (hrest.view hset hj hne hp).trans ?_
  have hsame : (h.setSession j (s.close shutdown).session).session? k = h.session? k := by
    simp [session?_setSession, hj]
  show (h.setSession j (s.close shutdown).session).view q ls k id = _
  simp only [view, hsame]
  rfl

end Hub

end HttpBinding
