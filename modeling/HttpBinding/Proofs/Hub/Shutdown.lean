import HttpBinding.Proofs.Hub.Frame
import HttpBinding.Proofs.Hub.Parting

/-!
# HttpBinding.Proofs.Hub.Shutdown

The end of all sessions, in any order.

The registry is walked in some order, and with each session that ends it changes. Still each session
ends as if it were the only one: those before it do not change what it can see (`view_close_of_ne`),
what its end comes to depends on nothing else (`view_close_congr`), and those after it leave it alone.
So the list of sessions is split at the one in question, and what is true after its own end is true
after the end of all.

Observers are known by labels which all sessions share. An observer that removes what an observer of
another session has added acts on a session that it was not called for; `KeepApart` rules that out.
-/

namespace HttpBinding

/-- The label under which a recorder adds another one when it hears of the end. -/
def added? : Occasion × Action → Option String
  | (.ended, .add label) => some label
  | _ => none

/-- The label under which a recorder removes another one when it hears of the end. -/
def removed? : Occasion × Action → Option String
  | (.ended, .remove label) => some label
  | _ => none

/-- The labels that an observer gives a meaning when it hears of the end. -/
def Observer.added : Observer → List String
  | .recorder _ actions => actions.filterMap added?
  | _ => []

/-- The labels that an observer uses when it hears of the end. -/
def Observer.removed : Observer → List String
  | .recorder _ actions => actions.filterMap removed?
  | _ => []

namespace Hub

/-- Ends sessions, one after the other, because the server goes away. -/
def endAll (h : Hub) (ks : List Nat) : Hub := ks.foldl (fun h k => h.close k true) h

/-- Ends sessions in the given order because the server goes away, and stops all countdowns. -/
def shutdownIn (h : Hub) (ks : List Nat) : Hub :=
  (h.endAll ks).setTimer registryTimer ((h.endAll ks).timer registryTimer).cancelAll

/-- No observer removes, when it hears of the end of its session, what an observer of another session
may have added when it heard of the end. -/
def KeepApart (h : Hub) : Prop :=
  ∀ j k s t, j ≠ k → h.session? j = some s → h.session? k = some t →
    ∀ o ∈ s.observers, ∀ label ∈ o.2.added, ∀ o' ∈ t.observers, label ∉ o'.2.removed

/-- What the end of everything has come to for the session `k`, which was `s` before. -/
structure SentOff (h h' : Hub) (k : Nat) (s : Session Observer) : Prop where
  /-- It has ended, and holds and buffers nothing any more. -/
  ended : ∃ t, h'.session? k = some t ∧ t.closed = true ∧ t.held = [] ∧ t.buffer = []
  /-- Each exchange was told why. -/
  closed : ∀ x ∈ s.held,
    h'.exchange? x.key = some (x.closeWith (.terminate (some Body.systemShutdown)))
  /-- A requester that waits has had no answer before, finds this one, and gets no other. -/
  answered : ∀ x ∈ s.held, x.isAbandoned = false → x.mailbox = .vacant ∧
    ∃ y, h'.exchange? x.key = some y ∧ y.hasSender = false ∧
      y.mailbox = .holding ⟨.terminate (some Body.systemShutdown), x.compression⟩
  /-- The buffer was handed on, each stanza once and in order; the observers' last words came after
  it. -/
  handedOn : h'.log Note.isFailover s.id = h.log Note.isFailover s.id ++
    (s.sink.takes (s.buffer ++ s.lastWords)).map fun note => ⟨h.now, s.id.text, note⟩
  /-- The server was told once. -/
  told : h'.log Note.isClosed s.id = h.log Note.isClosed s.id ++
    [⟨h.now, s.id.text, .closed false⟩]

/-- The hubs `a` and `b`, which have both come from `h`, are alike: so are their sessions, their
registries, their countdowns, the exchanges that `h` had, the jobs, and what was noted about each
session. -/
structure Alike (h a b : Hub) : Prop where
  sessions : a.sessions = b.sessions
  registry : a.registry = b.registry
  timers : a.timers = b.timers
  now : a.now = b.now
  exchanges : ∀ x ∈ h.exchanges, a.exchange? x.key = b.exchange? x.key
  jobs : (a.ready ++ a.parked).Perm (b.ready ++ b.parked)
  logs : ∀ q id, Forgetful q h.server → a.log q id = b.log q id

variable {q : Note → Bool} {ls : String → Bool} {p : String → Prop} {k j : Nat}
  {id : StreamId} {h h' : Hub} {s t : Session Observer} {still ks : List Nat}

/-! ### What the end of a session does not change -/

/-- What no end of a session changes: the time, how many countdowns there were, and the jobs as a
whole. -/
structure Lasting (h h' : Hub) : Prop where
  now : h'.now = h.now
  next : (h'.timer registryTimer).next = (h.timer registryTimer).next
  jobs : (h'.ready ++ h'.parked).Perm (h.ready ++ h.parked)

theorem Lasting.refl (h : Hub) : Lasting h h := ⟨rfl, rfl, .refl _⟩

theorem Lasting.trans {a b c : Hub} (hab : Lasting a b) (hbc : Lasting b c) : Lasting a c :=
  ⟨hbc.now.trans hab.now, hbc.next.trans hab.next, hbc.jobs.trans hab.jobs⟩

theorem Trifle.lasting (ht : Trifle p k id h h') (hone : h.timers.length = 1) : Lasting h h' := by
  cases ht with
  | note | count | label | observe | unobserve | unregister | visit => exact ⟨rfl, rfl, .refl _⟩
  | wake r => exact ⟨rfl, rfl, perm_wake h r⟩
  | cancel =>
      unfold Hub.cancel
      split
      · exact .refl h
      · refine ⟨rfl, ?_, perm_wake _ _⟩
        rw [timer_setTimer_of_oneTable hone]
        rfl

theorem Trifles.lasting (ht : Trifles p k id h h') (hone : h.timers.length = 1) :
    Lasting h h' := by
  have hboth : h'.timers.length = 1 ∧ Lasting h h' := by
    refine ht.keep (P := fun b => b.timers.length = 1 ∧ Lasting h b) ?_ ⟨hone, .refl h⟩
    intro a b hstep ha
    exact ⟨hstep.oneTable ha.1, ha.2.trans (hstep.lasting ha.1)⟩
  exact hboth.2

theorem Scene.lasting_close (hscene : Scene k id h) (hs : h.session? k = some s)
    (shutdown : Bool) : Lasting h (h.close k shutdown) := by
  have hset : Lasting h { h.setSession k (s.close shutdown).session with
      loose := h.loose ++ (s.close shutdown).released } :=
    ⟨rfl, rfl, .refl _⟩
  exact hset.trans ((hscene.trifles_close hs shutdown).lasting hscene.oneTable)

/-! ### One session after the other -/

/-- The sessions `ks` are there and open, and each is in the list once. -/
structure Due (h : Hub) (ks : List Nat) : Prop where
  nodup : ks.Nodup
  there : ∀ k ∈ ks, ∃ s, h.session? k = some s ∧ s.closed = false

theorem endAll_append (h : Hub) (ks more : List Nat) :
    h.endAll (ks ++ more) = (h.endAll ks).endAll more :=
  List.foldl_append

/-- What each of the ends keeps, they keep together. Each session is as it was at the beginning when
its turn comes. -/
theorem InStep.endAll_keep {P : Hub → Prop} (hi : InStep still h) (ho : h.Orderly)
    (hd : Due h ks)
    (hP : ∀ b j s, j ∈ ks → InStep still b → b.Orderly → h.session? j = some s →
      b.session? j = some s → s.closed = false → P b → P (b.close j true)) (hh : P h) :
    P (h.endAll ks) := by
  have hgeneral : ∀ (js : List Nat) (b : Hub), js.Nodup → (∀ j ∈ js, j ∈ ks) → InStep still b →
      b.Orderly → (∀ j ∈ js, b.session? j = h.session? j) → P b → P (b.endAll js) := by
    intro js
    induction js with
    | nil => exact fun b _ _ _ _ _ hb => hb
    | cons j js ih =>
        intro b hnodup hsub hib hob hsame hb
        obtain ⟨hnot, hnodup⟩ := List.nodup_cons.mp hnodup
        obtain ⟨s, hs, hopen⟩ := hd.there j (hsub j (by simp))
        have hbs : b.session? j = some s := (hsame j (by simp)).trans hs
        obtain ⟨id, hsteps⟩ := hib.steps_close j true
        refine ih (b.close j true) hnodup (fun i hi => hsub i (List.mem_cons_of_mem j hi))
          (hib.close j true).inStep (hob.steps hsteps).orderly ?_
          (hP b j s (hsub j (by simp)) hib hob hs hbs hopen hb)
        intro i hmem
        have hne : i ≠ j := fun heq => hnot (heq ▸ hmem)
        rw [hsteps.session? hne]
        exact hsame i (List.mem_cons_of_mem j hmem)
  exact hgeneral ks h hd.nodup (fun _ hj => hj) hi ho (fun _ _ => rfl) hh

theorem InStep.endAll (hi : InStep still h) (ks : List Nat) : InStep still (h.endAll ks) :=
  (hi.foldl_close ks true).1

theorem InStep.orderly_endAll (hi : InStep still h) (ho : h.Orderly) (hd : Due h ks) :
    (h.endAll ks).Orderly := by
  refine hi.endAll_keep ho hd ?_ ho
  intro b j s _ hib hob _ _ _ _
  exact (hib.steps_close j true).elim fun _ hsteps => (hob.steps hsteps).orderly

theorem InStep.session?_endAll (hi : InStep still h) (ho : h.Orderly) (hd : Due h ks)
    (hk : k ∉ ks) : (h.endAll ks).session? k = h.session? k := by
  refine hi.endAll_keep (P := fun b => b.session? k = h.session? k) ho hd ?_ rfl
  intro b j s hj hib _ _ _ _ hb
  obtain ⟨id, hsteps⟩ := hib.steps_close j true
  have hne : k ≠ j := fun heq => hk (heq ▸ hj)
  exact (hsteps.session? hne).trans hb

theorem InStep.loose_endAll (hi : InStep still h) (ho : h.Orderly) (hd : Due h ks)
    {x : Exchange} (hx : x ∈ h.loose) : x ∈ (h.endAll ks).loose := by
  refine hi.endAll_keep (P := fun b => x ∈ b.loose) ho hd ?_ hx
  intro b j s _ hib hob _ _ _ hb
  exact (hib.steps_close j true).elim fun _ hsteps => hob.loose_steps hsteps hb

theorem InStep.lasting_endAll (hi : InStep still h) (ho : h.Orderly) (hd : Due h ks) :
    Lasting h (h.endAll ks) := by
  refine hi.endAll_keep (P := Lasting h) ho hd ?_ (.refl h)
  intro b j s _ hib _ _ hs hopen hb
  exact hb.trans ((hib.scene hs hopen).lasting_close hs true)

/-- The ends of other sessions do not change the view. -/
theorem InStep.view_endAll (hi : InStep still h) (ho : h.Orderly) (hd : Due h ks) (hk : k ∉ ks)
    (hid : ∀ j ∈ ks, ∀ s, h.session? j = some s → s.id ≠ id)
    (hlabels : ∀ j ∈ ks, ∀ s, h.session? j = some s →
      ∀ o ∈ s.observers, Labels (fun label => ls label = false) o.2) :
    (h.endAll ks).view q ls k id = h.view q ls k id := by
  refine hi.endAll_keep (P := fun b => b.view q ls k id = h.view q ls k id) ho hd ?_ rfl
  intro b j s hj hib _ hs hbs hopen hb
  have hne : j ≠ k := fun heq => hk (heq ▸ hj)
  exact (view_close_of_ne (hib.scene hbs hopen) hbs hne (hid j hj s hs) (hlabels j hj s hs)
    (fun _ hp => hp) true).trans hb

/-- The list of sessions is split at one of them: `before` is the hub when that session's turn comes,
and `after` the hub when it has ended. -/
structure Turn (still : List Nat) (h : Hub) (ks : List Nat) (k : Nat) (s : Session Observer)
    (pre post : List Nat) (before after : Hub) : Prop where
  split : ks = pre ++ k :: post
  before_eq : before = h.endAll pre
  after_eq : after = before.close k true
  rest : after.endAll post = h.endAll ks
  notBefore : k ∉ pre
  notAfter : k ∉ post
  inStep : InStep still before
  orderly : before.Orderly
  session : before.session? k = some s
  scene : Scene k s.id before
  due : Due h pre
  inStep_after : InStep still after
  orderly_after : after.Orderly
  due_after : Due after post
  session_after : ∀ j ∈ post, after.session? j = h.session? j

theorem InStep.turnOf (hi : InStep still h) (ho : h.Orderly) (hd : Due h ks) (hk : k ∈ ks)
    (hs : h.session? k = some s) :
    ∃ pre post before after, Turn still h ks k s pre post before after := by
  obtain ⟨pre, post, rfl⟩ := List.append_of_mem hk
  have hopen : s.closed = false := by
    obtain ⟨t, ht, hopen⟩ := hd.there k hk
    rw [hs] at ht
    obtain rfl := Option.some.inj ht
    exact hopen
  have hnodup := hd.nodup
  rw [List.nodup_append] at hnodup
  obtain ⟨hpre, hkpost, hdisjoint⟩ := hnodup
  obtain ⟨hknot, hpost⟩ := List.nodup_cons.mp hkpost
  have hkpre : k ∉ pre := fun hmem => hdisjoint k hmem k (by simp) rfl
  have hdpre : Due h pre := ⟨hpre, fun j hj => hd.there j (List.mem_append_left _ hj)⟩
  have hib := hi.endAll pre
  have hob := hi.orderly_endAll ho hdpre
  have hbs : (h.endAll pre).session? k = some s := (hi.session?_endAll ho hdpre hkpre).trans hs
  obtain ⟨id, hsteps⟩ := hib.steps_close k true
  -- those that come later are still as they were
  have hlater : ∀ j ∈ post, ((h.endAll pre).close k true).session? j = h.session? j := by
    intro j hj
    have hne : j ≠ k := fun heq => hknot (heq ▸ hj)
    rw [hsteps.session? hne]
    exact hi.session?_endAll ho hdpre fun hmem =>
      hdisjoint j hmem j (List.mem_cons_of_mem k hj) rfl
  refine ⟨pre, post, _, _, rfl, rfl, rfl, ?_, hkpre, hknot, hib, hob, hbs, hib.scene hbs hopen,
    hdpre, (hib.close k true).inStep, (hob.steps hsteps).orderly, ⟨hpost, fun j hj => ?_⟩, hlater⟩
  · rw [endAll_append]
    rfl
  · rw [hlater j hj]
    exact hd.there j (List.mem_append_right _ (List.mem_cons_of_mem k hj))

section

variable {pre post : List Nat} {before after : Hub}

theorem Turn.isOpen (ht : Turn still h ks k s pre post before after) (hd : Due h ks)
    (hs : h.session? k = some s) : s.closed = false := by
  obtain ⟨t, hopen, hc⟩ := hd.there k (by rw [ht.split]; simp)
  rw [hs] at hopen
  obtain rfl := Option.some.inj hopen
  exact hc

/-- Nothing of what can be seen from the session has changed before its turn comes, and nothing changes
after its end. -/
theorem Turn.views (ht : Turn still h ks k s pre post before after) (q : Note → Bool)
    {ls : String → Bool} (hi : InStep still h) (ho : h.Orderly) (hd : Due h ks)
    (hs : h.session? k = some s)
    (hlabels : ∀ j ∈ ks, j ≠ k → ∀ t, h.session? j = some t →
      ∀ o ∈ t.observers, Labels (fun label => ls label = false) o.2) :
    before.view q ls k s.id = h.view q ls k s.id ∧
      (h.endAll ks).view q ls k s.id = after.view q ls k s.id := by
  have hopen := ht.isOpen hd hs
  have hpre : ∀ j ∈ pre, j ∈ ks ∧ j ≠ k := fun j hj =>
    ⟨by rw [ht.split]; simp [hj], fun heq => ht.notBefore (heq ▸ hj)⟩
  have hpost : ∀ j ∈ post, j ∈ ks ∧ j ≠ k := fun j hj =>
    ⟨by rw [ht.split]; simp [hj], fun heq => ht.notAfter (heq ▸ hj)⟩
  have hother : ∀ j ∈ ks, j ≠ k → ∀ t, h.session? j = some t → t.id ≠ s.id := by
    intro j hj hne t hjt
    obtain ⟨t', hjt', htopen⟩ := hd.there j hj
    rw [hjt] at hjt'
    obtain rfl := Option.some.inj hjt'
    exact hi.id_ne hs hopen hjt htopen hne
  refine ⟨?_, ?_⟩
  · rw [ht.before_eq]
    exact hi.view_endAll ho ht.due ht.notBefore (fun j hj => hother j (hpre j hj).1 (hpre j hj).2)
      fun j hj => hlabels j (hpre j hj).1 (hpre j hj).2
  · rw [← ht.rest]
    refine ht.inStep_after.view_endAll ht.orderly_after ht.due_after ht.notAfter ?_ ?_
    · intro j hj t hjt
      rw [ht.session_after j hj] at hjt
      exact hother j (hpost j hj).1 (hpost j hj).2 t hjt
    · intro j hj t hjt
      rw [ht.session_after j hj] at hjt
      exact hlabels j (hpost j hj).1 (hpost j hj).2 t hjt

/-- **What the end of all sessions adds to the notes about one of them is what its own end adds.** -/
theorem Turn.log (ht : Turn still h ks k s pre post before after) (hi : InStep still h)
    (ho : h.Orderly) (hd : Due h ks) (hs : h.session? k = some s) (hq : Witnesses q) :
    (h.endAll ks).log q s.id = h.log q s.id ++ entries q h.now s.id s.parting := by
  have hlabels : ∀ j ∈ ks, j ≠ k → ∀ t, h.session? j = some t →
      ∀ o ∈ t.observers, Labels (fun label => (fun _ => false) label = false) o.2 :=
    fun _ _ _ _ _ _ _ _ _ _ _ _ _ _ _ => rfl
  obtain ⟨hbefore, hafter⟩ := ht.views q hi ho hd hs hlabels
  have hlog : before.log q s.id = h.log q s.id := congrArg View.log hbefore
  have hnow : before.now = h.now := congrArg View.now hbefore
  have hown := hq.log_close ht.scene ht.session (ht.isOpen hd hs) true
  rw [← ht.after_eq, hlog, hnow] at hown
  exact (congrArg View.log hafter).trans hown

theorem Turn.session?_endAll (ht : Turn still h ks k s pre post before after)
    (hd : Due h ks) (hs : h.session? k = some s) :
    ∃ t, (h.endAll ks).session? k = some t ∧ t.closed = true ∧ t.held = [] ∧ t.buffer = [] := by
  have hown := ht.scene.session?_close ht.session (ht.isOpen hd hs) true
  rw [← ht.rest, ht.inStep_after.session?_endAll ht.orderly_after ht.due_after ht.notAfter,
    ht.after_eq]
  exact hown

theorem Turn.loose_endAll (ht : Turn still h ks k s pre post before after) (hd : Due h ks)
    (hs : h.session? k = some s) {x : Exchange} (hx : x ∈ s.held) :
    x.closeWith (.terminate (some Body.systemShutdown)) ∈ (h.endAll ks).loose := by
  have hown := ht.scene.loose_close ht.orderly ht.session (ht.isOpen hd hs) true hx
  rw [← ht.after_eq] at hown
  rw [← ht.rest]
  exact ht.inStep_after.loose_endAll ht.orderly_after ht.due_after hown

/-- The session is off the registry. -/
theorem Turn.not_listed (ht : Turn still h ks k s pre post before after) (hd : Due h ks)
    (hs : h.session? k = some s) : (s.id, k) ∉ (h.endAll ks).registry := by
  have hopen : s.gist.closed = false := ht.isOpen hd hs
  have hended := (ht.inStep.close k true).gist s.gist (gist?_of_session? ht.session)
  rw [← ht.after_eq, hopen] at hended
  have hkept := ht.inStep_after.kept k s.gist.ended hended
  intro hmem
  rw [← ht.rest] at hmem
  have hlisted := (ht.inStep_after.foldl_close post true).2.registry.subset hmem
  have hatt := hkept.listed.mp hlisted
  cases hatt

end

/-! ### The end of everything -/

/-- All sessions that are registered are open, and they are to end in the order `ks`. -/
structure Closing (still : List Nat) (h : Hub) (ks : List Nat) : Prop where
  inStep : InStep still h
  orderly : h.Orderly
  oneSteward : h.OneSteward
  due : Due h ks
  perm : ks.Perm (h.registry.map Prod.snd)

/-- An entry is under the identifier of its session. -/
theorem InStep.id_of_listed (hi : InStep still h) {e : StreamId × Nat} (he : e ∈ h.registry)
    (hs : h.session? e.2 = some s) : s.id = e.1 := by
  obtain ⟨g, hg, hid⟩ := hi.sane.real e he
  rw [gist?_of_session? hs] at hg
  obtain rfl := Option.some.inj hg
  exact hid

theorem Reachable.closing (hr : h.Reachable)
    (hopen : ∀ e ∈ h.registry, ∃ s, h.session? e.2 = some s ∧ s.closed = false)
    (hks : ks.Perm (h.registry.map Prod.snd)) : ∃ still, Closing still h ks := by
  obtain ⟨still, hi⟩ := hr.inStep
  -- no session has two identifiers, so none is in the list twice
  have hnodup : (h.registry.map Prod.snd).Nodup := by
    refine List.Nodup.map_on ?_ (List.Nodup.of_map Prod.fst hi.sane.keys)
    intro e he e' he' heq
    obtain ⟨s, hs, -⟩ := hopen e he
    exact Prod.ext ((hi.id_of_listed he hs).symm.trans (hi.id_of_listed he' (heq ▸ hs))) heq
  refine ⟨still, hi, hr.orderly.1, hr.oneSteward, ⟨hks.nodup_iff.mpr hnodup, fun k hk => ?_⟩, hks⟩
  obtain ⟨e, he, rfl⟩ := List.mem_map.mp (hks.mem_iff.mp hk)
  exact hopen e he

namespace Closing

theorem mem_of_listed (hc : Closing still h ks) {e : StreamId × Nat} (he : e ∈ h.registry) :
    e.2 ∈ ks :=
  hc.perm.mem_iff.mpr (List.mem_map_of_mem he)

theorem mem_of_open (hc : Closing still h ks) (hs : h.session? k = some s)
    (hopen : s.closed = false) : k ∈ ks := by
  have hkept := hc.inStep.kept k s.gist (gist?_of_session? hs)
  exact hc.mem_of_listed (hkept.listed.mpr (hc.inStep.attended hs hopen))

theorem turnOf (hc : Closing still h ks) (hk : k ∈ ks) (hs : h.session? k = some s) :
    ∃ pre post before after, Turn still h ks k s pre post before after :=
  hc.inStep.turnOf hc.orderly hc.due hk hs

theorem session?_of_not_mem (hc : Closing still h ks) (hk : k ∉ ks) :
    (h.endAll ks).session? k = h.session? k :=
  hc.inStep.session?_endAll hc.orderly hc.due hk

/-- No session is left open. -/
theorem all_closed (hc : Closing still h ks) {g : Gist} (hg : (h.endAll ks).gist? k = some g) :
    g.closed = true := by
  obtain ⟨t, ht, rfl⟩ := session?_of_gist? hg
  by_cases hk : k ∈ ks
  · obtain ⟨s, hs, -⟩ := hc.due.there k hk
    obtain ⟨pre, post, before, after, hturn⟩ := hc.turnOf hk hs
    obtain ⟨t', ht', hclosed, -⟩ := hturn.session?_endAll hc.due hs
    rw [ht] at ht'
    obtain rfl := Option.some.inj ht'
    exact hclosed
  · rw [hc.session?_of_not_mem hk] at ht
    cases hopen : t.closed with
    | true => exact hopen
    | false => exact absurd (hc.mem_of_open ht hopen) hk

theorem running_eq_nil (hc : Closing still h ks) : (h.endAll ks).running = [] :=
  (hc.inStep.endAll ks).running_eq_nil fun _ _ hg => hc.all_closed hg

theorem registry_eq_nil (hc : Closing still h ks) : (h.endAll ks).registry = [] := by
  refine List.eq_nil_iff_forall_not_mem.mpr fun e he => ?_
  have hbefore := (hc.inStep.foldl_close ks true).2.registry.subset he
  have hk := hc.mem_of_listed hbefore
  obtain ⟨s, hs, -⟩ := hc.due.there e.2 hk
  obtain ⟨pre, post, before, after, hturn⟩ := hc.turnOf hk hs
  refine hturn.not_listed hc.due hs ?_
  rw [hc.inStep.id_of_listed hbefore hs]
  exact he

/-- The countdowns are all stopped, and only how many there were is remembered. -/
theorem timers_eq (hc : Closing still h ks) :
    (h.shutdownIn ks).timers = [⟨[], [], (h.timer registryTimer).next⟩] := by
  have hone := (hc.inStep.endAll ks).sane.tidy.oneTable
  obtain ⟨c, hcs⟩ := List.length_eq_one_iff.mp hone
  have hnext := (hc.inStep.lasting_endAll hc.orderly hc.due).next
  have hrunning := hc.running_eq_nil
  have htimer : (h.endAll ks).timer registryTimer = c := by simp [timer, registryTimer, hcs]
  rw [Hub.running, htimer] at hrunning
  rw [htimer] at hnext
  show (h.endAll ks).timers.set registryTimer ((h.endAll ks).timer registryTimer).cancelAll = _
  rw [htimer, hcs, ← hnext]
  simp [registryTimer, Countdowns.cancelAll, hrunning]

/-- Exchanges are where they were after the last end. -/
theorem exchange?_of_loose (hc : Closing still h ks) {x : Exchange}
    (hx : x ∈ (h.endAll ks).loose) : (h.shutdownIn ks).exchange? x.key = some x := by
  have horderly := hc.inStep.orderly_endAll hc.orderly hc.due
  exact horderly.exchange?_eq_some_iff.mpr ⟨mem_exchanges_of_loose hx, rfl⟩

theorem sentOff (hc : Closing still h ks) (hk : k ∈ ks) (hs : h.session? k = some s) :
    SentOff h (h.shutdownIn ks) k s := by
  obtain ⟨pre, post, before, after, hturn⟩ := hc.turnOf hk hs
  have hopen := hturn.isOpen hc.due hs
  have hsent : ∀ x ∈ s.held, (h.shutdownIn ks).exchange? x.key =
      some (x.closeWith (.terminate (some Body.systemShutdown))) := by
    intro x hx
    have hfound := hc.exchange?_of_loose (hturn.loose_endAll hc.due hs hx)
    rw [Exchange.closeWith_key] at hfound
    exact hfound
  have hlog : ∀ {q}, Witnesses q → (h.shutdownIn ks).log q s.id =
      h.log q s.id ++ entries q h.now s.id s.parting := fun hq =>
    hturn.log hc.inStep hc.orderly hc.due hs hq
  refine ⟨hturn.session?_endAll hc.due hs, hsent, ?_, ?_, ?_⟩
  · intro x hx hwaits
    have hconsistent := hc.orderly.consistent x (mem_exchanges_of_held hs hx)
    obtain ⟨⟨-, hsender⟩, hlistens⟩ : (x.departed = false ∧ x.hasSender = true) ∧
        x.listening = true := by simpa [Exchange.isAbandoned] using hwaits
    have hanswerable : x.isAnswerable = true := by
      simp [Exchange.isAnswerable, hconsistent.pending hsender, hsender, hlistens]
    refine ⟨hconsistent.vacant_of_answerable hanswerable, _, hsent x hx, ?_, ?_⟩
    · simp [Exchange.closeWith, hanswerable, Exchange.answered]
    · simp [Exchange.closeWith, hanswerable, Exchange.answered]
  · rw [hlog fun note hfailover _ => hfailover, entries, s.failovers_parting]
  · rw [hlog fun note _ hclosed => hclosed, entries, s.closures_parting,
      hc.inStep.count_steward hc.oneSteward hs hopen]
    rfl

/-- Nothing is noted about anybody else. -/
theorem log_of_ne (hc : Closing still h ks)
    (hid : ∀ k ∈ ks, ∀ s, h.session? k = some s → s.id ≠ id) :
    (h.shutdownIn ks).log q id = h.log q id := by
  have hnot : h.sessions.length ∉ ks := by
    intro hmem
    obtain ⟨s, hs, -⟩ := hc.due.there _ hmem
    simp [session?] at hs
  have hview : (h.endAll ks).view q (fun _ => false) h.sessions.length id = _ :=
    hc.inStep.view_endAll hc.orderly hc.due hnot hid fun _ _ _ _ _ _ _ _ _ _ _ _ _ _ => rfl
  exact congrArg View.log hview

/-- An exchange of before is loose, as it was or told of the end. -/
theorem exchange?_eq (hc : Closing still h ks) {x : Exchange} (hx : x ∈ h.exchanges) :
    (x ∈ h.loose → (h.shutdownIn ks).exchange? x.key = some x) ∧
      (x ∉ h.loose → (h.shutdownIn ks).exchange? x.key =
        some (x.closeWith (.terminate (some Body.systemShutdown)))) := by
  refine ⟨fun hloose => ?_, fun hnot => ?_⟩
  · exact hc.exchange?_of_loose (hc.inStep.loose_endAll hc.orderly hc.due hloose)
  · obtain ⟨s, hmem, hheld⟩ := List.mem_flatMap.mp ((List.mem_append.mp hx).resolve_left hnot)
    obtain ⟨k, hs⟩ : ∃ k, h.session? k = some s := List.mem_iff_getElem?.mp hmem
    have hopen : s.closed = false := by
      cases hclosed : s.closed with
      | false => rfl
      | true =>
          rw [((hc.inStep.sane.tidy.sound s hmem).ended hclosed).1] at hheld
          cases hheld
    exact (hc.sentOff (hc.mem_of_open hs hopen) hs).closed x hheld

theorem jobs_perm (hc : Closing still h ks) :
    ((h.shutdownIn ks).ready ++ (h.shutdownIn ks).parked).Perm (h.ready ++ h.parked) :=
  (perm_wake _ _).trans (hc.inStep.lasting_endAll hc.orderly hc.due).jobs

end Closing

/-! ### Any order -/

/-- The labels that the observers of a session use when they hear of its end. -/
def labelsUsed (s : Session Observer) (label : String) : Bool :=
  s.observers.any fun o => o.2.removed.contains label

theorem removes_labelsUsed {o : Nat × Observer} (ho : o ∈ s.observers) :
    Removes (labelsUsed s) o.2 := by
  rintro label actions heq ⟨occasion, action⟩ ha rfl old rfl
  refine List.any_eq_true.mpr ⟨o, ho, List.contains_iff_mem.mpr ?_⟩
  rw [heq]
  exact List.mem_filterMap.mpr ⟨_, ha, rfl⟩

theorem KeepApart.labels (hkeep : h.KeepApart) (hne : j ≠ k) (ht : h.session? j = some t)
    (hs : h.session? k = some s) {o : Nat × Observer} (ho : o ∈ t.observers) :
    Labels (fun label => labelsUsed s label = false) o.2 := by
  rintro label actions heq ⟨occasion, action⟩ ha rfl new rfl
  have hadded : new ∈ o.2.added := by
    rw [heq]
    exact List.mem_filterMap.mpr ⟨_, ha, rfl⟩
  refine List.any_eq_false.mpr fun o' ho' => ?_
  rw [List.contains_iff_mem]
  exact hkeep j k t s hne ht hs o ho new hadded o' ho'

namespace Closing

variable {still' ks' : List Nat}

/-- **Each session ends as if it were the only one to end.** -/
theorem view_eq (hc : Closing still h ks) (hkeep : h.KeepApart) (hk : k ∈ ks)
    (hs : h.session? k = some s) (hq : Forgetful q h.server) :
    (h.endAll ks).view q (labelsUsed s) k s.id = (h.close k true).view q (labelsUsed s) k s.id := by
  obtain ⟨pre, post, before, after, hturn⟩ := hc.turnOf hk hs
  have hopen := hturn.isOpen hc.due hs
  obtain ⟨hbefore, hafter⟩ := hturn.views q hc.inStep hc.orderly hc.due hs
    fun j _ hne t ht o ho => hkeep.labels hne ht hs ho
  have hown := view_close_congr (hc.inStep.scene hs hopen) hturn.scene hbefore.symm hq hs
    (fun o ho => removes_labelsUsed ho) true
  rw [hafter, hturn.after_eq]
  exact hown.symm

theorem alike (hc : Closing still h ks) (hc' : Closing still' h ks') (hkeep : h.KeepApart) :
    Alike h (h.shutdownIn ks) (h.shutdownIn ks') := by
  have hsame : ∀ k, k ∈ ks ↔ k ∈ ks' := fun k => (hc.perm.trans hc'.perm.symm).mem_iff
  have hview : ∀ q, Forgetful q h.server → ∀ k ∈ ks, ∀ s, h.session? k = some s →
      (h.endAll ks).view q (labelsUsed s) k s.id = (h.endAll ks').view q (labelsUsed s) k s.id := by
    intro q hq k hk s hs
    exact (hc.view_eq hkeep hk hs hq).trans (hc'.view_eq hkeep ((hsame k).mp hk) hs hq).symm
  refine ⟨List.ext_getElem? fun k => ?_, ?_, hc.timers_eq.trans hc'.timers_eq.symm, ?_,
    fun x hx => ?_, hc.jobs_perm.trans hc'.jobs_perm.symm, fun q id hq => ?_⟩
  · show (h.endAll ks).session? k = (h.endAll ks').session? k
    by_cases hk : k ∈ ks
    · obtain ⟨s, hs, -⟩ := hc.due.there k hk
      have hnone : Forgetful (fun _ => false) h.server := Or.inl fun _ _ _ => rfl
      exact congrArg View.session (hview _ hnone k hk s hs)
    · rw [hc.session?_of_not_mem hk, hc'.session?_of_not_mem fun hk' => hk ((hsame k).mpr hk')]
  · exact hc.registry_eq_nil.trans hc'.registry_eq_nil.symm
  · exact (hc.inStep.lasting_endAll hc.orderly hc.due).now.trans
      (hc'.inStep.lasting_endAll hc'.orderly hc'.due).now.symm
  · by_cases hloose : x ∈ h.loose
    · rw [(hc.exchange?_eq hx).1 hloose, (hc'.exchange?_eq hx).1 hloose]
    · rw [(hc.exchange?_eq hx).2 hloose, (hc'.exchange?_eq hx).2 hloose]
  · by_cases hone : ∃ k ∈ ks, ∃ s, h.session? k = some s ∧ s.id = id
    · obtain ⟨k, hk, s, hs, rfl⟩ := hone
      exact congrArg View.log (hview q hq k hk s hs)
    · have hother : ∀ k ∈ ks, ∀ s, h.session? k = some s → s.id ≠ id := fun k hk s hs heq =>
        hone ⟨k, hk, s, hs, heq⟩
      rw [hc.log_of_ne hother, hc'.log_of_ne fun k hk => hother k ((hsame k).mpr hk)]

end Closing

/-- **The end of everything is complete and does not depend on the order of the registry.** Where all
registered sessions are open, in whatever order they are ended: every one of them is sent off, the
registry is empty and so is the table of countdowns; and if the observers of different sessions keep
apart, any two orders come to the same. -/
theorem shutdown_complete_in_any_order (hr : h.Reachable)
    (hopen : ∀ e ∈ h.registry, ∃ s, h.session? e.2 = some s ∧ s.closed = false)
    (hks : ks.Perm (h.registry.map Prod.snd)) :
    h.shutdown = h.shutdownIn (h.registry.map Prod.snd) ∧
    (∀ e ∈ h.registry, ∀ s, h.session? e.2 = some s → SentOff h (h.shutdownIn ks) e.2 s) ∧
    (h.shutdownIn ks).registry = [] ∧
    ((h.shutdownIn ks).timer registryTimer).table = [] ∧ (h.shutdownIn ks).running = [] ∧
    ∀ ks' : List Nat, ks'.Perm (h.registry.map Prod.snd) → h.KeepApart →
      Alike h (h.shutdownIn ks) (h.shutdownIn ks') := by
  obtain ⟨still, hc⟩ := hr.closing hopen hks
  have htimer : (h.shutdownIn ks).timer registryTimer =
      ⟨[], [], (h.timer registryTimer).next⟩ := by
    rw [timer, hc.timers_eq]
    rfl
  refine ⟨rfl, fun e he s hs => hc.sentOff (hc.mem_of_listed he) hs, hc.registry_eq_nil, ?_, ?_, ?_⟩
  · rw [htimer]
  · rw [running, htimer]
  · intro ks' hks' hkeep
    obtain ⟨still', hc'⟩ := hr.closing hopen hks'
    exact hc.alike hc' hkeep

/-- Two sessions: the first holds a request, and the second buffers a stanza. -/
def holdingAndBuffering : Hub :=
  (Script.withService {} {} .recorded fun n => if n = 0 then ⟨"a"⟩ else ⟨"b"⟩).play
    [.connect 1 false, .create {} 0, .forward 2 0 false [], .connect 1 false, .create {} 2,
      .deliver 1 ⟨"<late/>"⟩]

/-- The request is answered and the stanza is handed on, whichever session ends first. -/
theorem both_sent_off :
    holdingAndBuffering.registry.map Prod.snd = [1, 0] ∧
    holdingAndBuffering.KeepApart ∧
    (∃ s, holdingAndBuffering.session? 0 = some s ∧ s.held.map Exchange.rid = [2] ∧
      SentOff holdingAndBuffering (holdingAndBuffering.shutdownIn [0, 1]) 0 s) ∧
    (∃ s, holdingAndBuffering.session? 1 = some s ∧ s.buffer = [⟨"<late/>"⟩] ∧
      SentOff holdingAndBuffering (holdingAndBuffering.shutdownIn [0, 1]) 1 s) ∧
    (holdingAndBuffering.shutdownIn [0, 1]).registry = [] ∧
    Alike holdingAndBuffering (holdingAndBuffering.shutdownIn [0, 1])
      (holdingAndBuffering.shutdownIn [1, 0]) := by
  have hreachable : holdingAndBuffering.Reachable := ⟨_, _, _, _, _, rfl⟩
  have hregistry : holdingAndBuffering.registry = [(⟨"b"⟩, 1), (⟨"a"⟩, 0)] := by decide
  obtain ⟨s, hs, hheld, hsopen⟩ : ∃ s, holdingAndBuffering.session? 0 = some s ∧
      s.held.map Exchange.rid = [2] ∧ s.closed = false := by
    refine ⟨_, rfl, ?_, ?_⟩ <;> decide
  obtain ⟨t, ht, hbuffer, htopen⟩ : ∃ s, holdingAndBuffering.session? 1 = some s ∧
      s.buffer = [⟨"<late/>"⟩] ∧ s.closed = false := by
    refine ⟨_, rfl, ?_, ?_⟩ <;> decide
  have hopen : ∀ e ∈ holdingAndBuffering.registry, ∃ s,
      holdingAndBuffering.session? e.2 = some s ∧ s.closed = false := by
    rw [hregistry]
    simp [hs, ht, hsopen, htopen]
  -- nobody but the stewards observes the sessions
  have hquiet : ∀ s ∈ holdingAndBuffering.sessions, ∀ o ∈ s.observers, o.2.added = [] := by decide
  have hkeep : holdingAndBuffering.KeepApart := by
    intro j k u v _ hu _ o ho label hlabel
    rw [hquiet u (mem_sessions hu) o ho] at hlabel
    cases hlabel
  have horder : [0, 1].Perm (holdingAndBuffering.registry.map Prod.snd) := by
    rw [hregistry]
    exact .swap 1 0 []
  obtain ⟨-, hsent, hempty, -, -, halike⟩ := shutdown_complete_in_any_order hreachable hopen horder
  rw [hregistry] at hsent halike
  refine ⟨by rw [hregistry]; rfl, hkeep, ⟨s, hs, hheld, hsent (⟨"a"⟩, 0) (by simp) s hs⟩,
    ⟨t, ht, hbuffer, hsent (⟨"b"⟩, 1) (by simp) t ht⟩, hempty, halike [1, 0] (.refl _) hkeep⟩

end Hub

end HttpBinding
