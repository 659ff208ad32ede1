import HttpBinding.Proofs.Hub.Still

/-!
# HttpBinding.Proofs.Hub.Unfolding

Every function of a hub has a chronicle.

`Unfolds` goes through the functions one by one, as they call one another. What observers do when
they hear of an exchange never touches the registry (`Murmurs`). The end of a session does, in the
turn of its steward; then nothing is registered under the identifier any more, so whatever the
server demands in that call comes to nothing, and no end leads to another (`unfolds_close`).
-/

namespace HttpBinding.Hub

variable {h h' h'' : Hub} {k t : Nat} {s s' : Session Observer} {id : StreamId}

/-! ### Unfolding -/

/-- What happens has a chronicle. -/
def Unfolds (h h' : Hub) : Prop := h.Fit → h'.Fit ∧ ∃ marks, Chronicle h marks h'

/-- What happens has a chronicle, and the registry stays as it is. -/
def Murmurs (h h' : Hub) : Prop := Unfolds h h' ∧ h'.registry = h.registry

theorem Unfolds.refl (h : Hub) : Unfolds h h := fun hf => ⟨hf, [], .refl h⟩

theorem Unfolds.trans (hu : Unfolds h h') (hu' : Unfolds h' h'') : Unfolds h h'' := by
  intro hf
  obtain ⟨hf', marks, hc⟩ := hu hf
  obtain ⟨hf'', marks', hc'⟩ := hu' hf'
  exact ⟨hf'', marks ++ marks', hc.trans hc'⟩

theorem Murmurs.unfolds (hm : Murmurs h h') : Unfolds h h' := hm.1

theorem Murmurs.refl (h : Hub) : Murmurs h h := ⟨.refl h, rfl⟩

theorem Murmurs.trans (hm : Murmurs h h') (hm' : Murmurs h' h'') : Murmurs h h'' :=
  ⟨hm.1.trans hm'.1, hm'.2.trans hm.2⟩

theorem Still.murmurs (hs : Still h h') : Murmurs h h' :=
  ⟨fun hf => ⟨hs.fit hf, [], .deed (.calm hs.calm)⟩, hs.calm.registry⟩

theorem Still.unfolds (hs : Still h h') : Unfolds h h' := hs.murmurs.unfolds

theorem Unfolds.foldl {α : Type} {f : Hub → α → Hub} (hf : ∀ h a, Unfolds h (f h a))
    (as : List α) (h : Hub) : Unfolds h (as.foldl f h) := by
  induction as generalizing h with
  | nil => exact .refl h
  | cons a as ih => exact (hf h a).trans (ih (f h a))

theorem Murmurs.foldl {α : Type} {f : Hub → α → Hub} (hf : ∀ h a, Murmurs h (f h a))
    (as : List α) (h : Hub) : Murmurs h (as.foldl f h) := by
  induction as generalizing h with
  | nil => exact .refl h
  | cons a as ih => exact (hf h a).trans (ih (f h a))

theorem Unfolds.sessions (hu : Unfolds h h') (hf : h.Fit) (hs : h.session? k = some s) :
    ∃ s', h'.session? k = some s' ∧ s.Persists s' := by
  obtain ⟨-, marks, hc⟩ := hu hf
  exact hc.sessions hs

/-! ### Countdowns -/

theorem length_setTimer (h : Hub) (t : Nat) (c : Countdowns) :
    (h.setTimer t c).timers.length = h.timers.length := by
  simp [setTimer, wake]

theorem Fit.setTimer (hf : h.Fit) (t : Nat) (c : Countdowns) : (h.setTimer t c).Fit :=
  hf.of_attended (Nat.le_of_eq (length_setTimer h t c).symm) rfl rfl (.of_eq rfl)

theorem murmurs_cancel (h : Hub) (t k : Nat) : Murmurs h (h.cancel t k) := by
  refine ⟨fun hf => ?_, registry_cancel h t k⟩
  cases hs : h.session? k with
  | none =>
      have hsame : h.cancel t k = h := by simp [Hub.cancel, hs]
      rw [hsame]
      exact ⟨hf, [], .refl h⟩
  | some s =>
      refine ⟨?_, _, .deed (.cancel t hs)⟩
      simp only [Hub.cancel, hs]
      exact hf.setTimer ..

/-- Countdowns are only started in tables that are there. -/
theorem murmurs_arm (ht : h.Fit → t < h.timers.length) (k : Nat) : Murmurs h (h.arm t k) := by
  refine ⟨fun hf => ?_, registry_arm h t k⟩
  cases hs : h.session? k with
  | none =>
      have hsame : h.arm t k = h := by simp [Hub.arm, hs]
      rw [hsame]
      exact ⟨hf, [], .refl h⟩
  | some s =>
      refine ⟨?_, _, .deed (.arm (ht hf) hs)⟩
      simp only [Hub.arm, hs]
      split
      · exact hf.setTimer ..
      · exact (hf.setTimer ..).of_attended (Nat.le_refl _) rfl rfl (.of_eq rfl)

theorem murmurs_steward (h : Hub) (k : Nat) : Murmurs h (h.arm registryTimer k) :=
  murmurs_arm (fun hf => hf.registryTable) k

/-- A named table is there. -/
theorem Fit.lt_of_lookup (hf : h.Fit) {name : String} (ht : h.names.timers.lookup name = some t) :
    t < h.timers.length := by
  obtain ⟨l₁, l₂, heq, -⟩ := List.lookup_eq_some_iff.mp ht
  exact hf.named (name, t) (by simp [heq])

theorem murmurs_byTimer {f : Hub → Nat → Nat → Hub}
    (hf : ∀ h t k, (h.Fit → t < h.timers.length) → Murmurs h (f h t k)) (h : Hub)
    (timer session : String) : Murmurs h (h.byTimer timer session f).1 := by
  unfold byTimer
  split
  · rename_i t k ht _
    exact hf h t k fun hfit => hfit.lt_of_lookup ht
  · exact .refl h

/-! ### What observers do -/

/-- An ended session answers, and stays as it is. -/
theorem murmurs_ifEnded {α : Type} (h : Hub) (k : Nat) (answer : α → Answer)
    {op : Session Observer → Report Observer α}
    (hop : ∀ s, s.closed = true → (op s).session = s) :
    Murmurs h (h.ifEnded k op answer).1 := by
  unfold ifEnded
  split
  · exact .refl h
  · rename_i s hs
    split
    · rename_i hc
      have hsame := hop s hc
      have hp : s.Persists (op s).session := by
        rw [hsame]
        exact .refl s
      exact (still_absorb hs hp (Nat.le_of_eq (by rw [hsame]))).murmurs
    · exact .refl h

theorem murmurs_act (h : Hub) (k : Nat) (a : Action) : Murmurs h (h.act k a).1 := by
  cases a with
  | remove label => exact (still_removeRecorder h k label).murmurs
  | add label => exact (still_addRecorder h k label (by simp)).murmurs
  | arm timer session => exact murmurs_byTimer (fun _ _ k ht => murmurs_arm ht k) h timer session
  | cancel timer session =>
      exact murmurs_byTimer (fun h t k _ => murmurs_cancel h t k) h timer session
  | deliver stanza =>
      exact murmurs_ifEnded h k _ fun s hc => session_deliver_of_closed hc stanza
  | release => exact murmurs_ifEnded h k _ fun s hc => session_release_of_closed hc
  | close => exact murmurs_ifEnded h k _ fun s hc => (s.close_of_closed hc true).1
  | enter rid poll =>
      have hnew : Still h ((h.newExchange rid true).1.takeLoose (h.newExchange rid true).2.key) :=
        (still_newExchange ..).trans (still_takeLoose ..)
      exact hnew.murmurs.trans
        (murmurs_ifEnded _ k _ fun s hc => session_accept_of_closed hc _ poll _)

theorem murmurs_actAll (h : Hub) (k : Nat) (occasion : Occasion) (label : String)
    (actions : List (Occasion × Action)) : Murmurs h (h.actAll k occasion label actions) := by
  refine Murmurs.foldl (fun b a => ?_) actions h
  have hact := murmurs_act b k a.2
  split
  · split
    · rename_i heq _
      rw [heq] at hact
      exact hact.trans (still_write _ _ rfl).murmurs
    · rename_i heq _
      rw [heq] at hact
      exact hact
  · exact .refl b

theorem murmurs_hear (k : Nat) (h : Hub) (notice : Event × Observer) :
    Murmurs h (hear k h notice) := by
  obtain ⟨e, o⟩ := notice
  cases o with
  | silent => exact .refl h
  | recorder label actions => exact (still_writeHeard ..).murmurs.trans (murmurs_actAll ..)
  | steward =>
      cases e with
      | opened rid => exact murmurs_cancel ..
      | closed rid =>
          simp only [hear]
          split
          · exact murmurs_steward h k
          · exact .refl h

/-! ### Operations that do not end a session -/

theorem murmurs_conclude {α : Type} (hs : h.session? k = some s) {r : Report Observer α}
    (hfits : r.Fits s) : Murmurs h (h.conclude k r) :=
  (still_absorb_of_fits hs hfits).murmurs.trans (.foldl (murmurs_hear k) _ _)

theorem murmurs_accept (h : Hub) (k : Nat) (x : Exchange) (poll : Bool) :
    Murmurs h (h.accept k x poll).1 := by
  unfold Hub.accept
  split
  · exact .refl h
  · rename_i s hs
    have hs' : (h.takeLoose x.key).session? k = some s := hs
    exact (still_takeLoose h x.key).murmurs.trans
      (murmurs_conclude hs' (s.fits_accept x poll h.now))

theorem murmurs_deliver (h : Hub) (k : Nat) (stanza : Stanza) :
    Murmurs h (h.deliver k stanza).1 := by
  unfold Hub.deliver
  split
  · exact .refl h
  · rename_i s hs
    exact murmurs_conclude hs (s.fits_deliver stanza)

theorem murmurs_release (h : Hub) (k : Nat) : Murmurs h (h.release k).1 := by
  unfold Hub.release
  split
  · exact .refl h
  · rename_i s hs
    exact murmurs_conclude hs s.fits_release

theorem murmurs_push (h : Hub) (id : StreamId) (stanza : Stanza) :
    Murmurs h (h.push id stanza).1 := by
  unfold push
  split
  · exact .refl h
  · exact murmurs_deliver ..

/-! ### The end of a session -/

/-- What is taken off the registry was all that was registered under its identifier. -/
theorem not_mem_unregister (hkeys : (h.registry.map Prod.fst).Nodup) (hmem : (id, k) ∈ h.registry)
    (j : Nat) : (id, j) ∉ (h.unregister id k).registry := by
  intro hj
  obtain ⟨hj, hne⟩ := List.mem_filter.mp hj
  have heq : j = k := by
    have hfound := (lookup_iff_mem hkeys).mpr hj
    rw [(lookup_iff_mem hkeys).mpr hmem] at hfound
    exact (Option.some.inj hfound).symm
  simp [heq] at hne

/-- A session that has ended may be taken off the registry. -/
theorem Fit.unregister (hf : h.Fit) (hs : h.session? k = some s) (hended : s.closed = true) :
    (h.unregister s.id k).Fit where
  registryTable := hf.registryTable
  named := hf.named
  keys := (List.filter_sublist.map Prod.fst).nodup hf.keys
  attended := by
    intro j u hu hopen hpos
    refine List.mem_filter.mpr ⟨hf.attended j u hu hopen hpos, ?_⟩
    have hne : j ≠ k := by
      rintro rfl
      have hsame : s = u := Option.some.inj (hs.symm.trans hu)
      rw [← hsame, hended] at hopen
      cases hopen
    simp [hne]
  single := hf.single

theorem still_consult_of_unknown (close : Hub → Nat → Bool → Hub)
    (hnone : ∀ j, (id, j) ∉ h.registry) (c : Call) : Still h (h.consult close id c) := by
  rw [consult_of_unknown close hnone c, List.foldl_map]
  have hcounted : Still h { h with calls := h.calls + 1 } :=
    .of_eq rfl rfl rfl rfl rfl rfl rfl rfl
  exact hcounted.trans (Still.foldl (fun b d => still_write b id rfl) _ _)

/-- The steward of a session that has ended takes it off the registry and tells the server, which
cannot get at the session any more. -/
theorem unfolds_hearEnd_steward (close : Hub → Nat → Bool → Hub) (hs : h.session? k = some s)
    (hended : s.closed = true) (hmem : (s.id, k) ∈ h.registry) :
    Unfolds h (hearEnd close k h .steward) := by
  intro hf
  obtain ⟨h₁, hh₁⟩ : ∃ h₁, h₁ = ((h.unregister s.id k).cancel registryTimer k).write s.id
      (.closed ((h.unregister s.id k).lookup s.id).isSome) := ⟨_, rfl⟩
  have hlookup : ((h.unregister s.id k).cancel registryTimer k).lookup s.id =
      (h.unregister s.id k).lookup s.id := by
    rw [lookup, registry_cancel]
    rfl
  have hear : hearEnd close k h .steward = h₁.consult close s.id .closed := by
    simp only [hearEnd, hs, hlookup, hh₁]
  have htold : Deed h [.cancel registryTimer s.id,
      .closed s.id k s.closed ((h.unregister s.id k).lookup s.id)] h₁ := by
    rw [hh₁]
    exact .closed hs hended hmem
  have hregistry : h₁.registry = (h.unregister s.id k).registry := by
    rw [hh₁]
    exact registry_cancel ..
  have hfit : h₁.Fit := by
    have hcancelled := (murmurs_cancel (h.unregister s.id k) registryTimer k).1
      (hf.unregister hs hended)
    rw [hh₁]
    exact hcancelled.1.of_attended (Nat.le_refl _) rfl rfl (.of_eq rfl)
  have hasked : Unfolds h₁ (h₁.consult close s.id .closed) := by
    refine (still_consult_of_unknown close (fun j => ?_) .closed).unfolds
    rw [hregistry]
    exact not_mem_unregister hf.keys hmem j
  obtain ⟨hfit', marks, hc⟩ := hasked hfit
  rw [hear]
  exact ⟨hfit', _, (Chronicle.deed htold).trans hc⟩

/-- The observers of a session that has ended hear of it. -/
theorem unfolds_foldl_hearEnd (close : Hub → Nat → Bool → Hub) {os : List Observer}
    (hs : h.session? k = some s) (hended : s.closed = true) (hcount : os.count .steward ≤ 1)
    (hmem : .steward ∈ os → (s.id, k) ∈ h.registry) :
    Unfolds h (os.foldl (hearEnd close k) h) := by
  induction os generalizing h s with
  | nil => exact .refl h
  | cons o os ih =>
      -- the steward comes once, so the registry is as it was when its turn comes
      obtain ⟨hstep, hlater⟩ : Unfolds h (hearEnd close k h o) ∧
          (.steward ∈ os → (hearEnd close k h o).registry = h.registry) := by
        cases o with
        | silent =>
            have hsame : hearEnd close k h .silent = h := by simp [hearEnd]
            rw [hsame]
            exact ⟨.refl h, fun _ => rfl⟩
        | recorder label actions =>
            have hheard : Murmurs h
                ((h.writeHeard k .ended label none).actAll k .ended label actions) :=
              (still_writeHeard ..).murmurs.trans (murmurs_actAll ..)
            exact ⟨hheard.unfolds, fun _ => hheard.2⟩
        | steward =>
            refine ⟨unfolds_hearEnd_steward close hs hended (hmem (by simp)), fun hagain => ?_⟩
            have hpos : 0 < os.count .steward := List.count_pos_iff.mpr hagain
            rw [List.count_cons_self] at hcount
            omega
      have hcount' : os.count .steward ≤ 1 :=
        Nat.le_trans (List.count_le_count_cons) hcount
      intro hf
      obtain ⟨s', hs', hp⟩ := hstep.sessions hf hs
      refine (hstep.trans (ih hs' (hp.closed hended) hcount' fun hin => ?_)) hf
      rw [hp.id, hlater hin]
      exact hmem (by simp [hin])

/-- First the session is ended, and then its observers hear of it. -/
theorem close_unfolds (hs : h.session? k = some s) (shutdown : Bool) :
    ∃ b u, Still h b ∧ b.session? k = some u ∧ u.closed = true ∧
      (h.Fit → Unfolds b (h.close k shutdown)) := by
  obtain ⟨r, hr⟩ : ∃ r, r = s.close shutdown := ⟨_, rfl⟩
  have hended : r.session.closed = true := by
    rw [hr]
    exact s.closed_close shutdown
  have hclose : h.close k shutdown =
      r.answer.foldl (hearEnd (closeWithin h.sessions.length) k) (h.absorb k r) := by
    rw [hr]
    exact close_eq_foldl hs shutdown
  obtain ⟨hp, hle, htold⟩ : s.Persists r.session ∧ r.session.stewards ≤ s.stewards ∧
      (r.answer = [] ∨ (s.closed = false ∧ r.answer = s.observers.map Prod.snd)) := by
    rw [hr]
    rcases s.close_cases shutdown with ⟨-, heq⟩ | ⟨hopen, heq⟩ <;> rw [heq]
    · exact ⟨.refl s, Nat.le_refl _, .inl rfl⟩
    · exact ⟨⟨rfl, rfl, fun _ => rfl⟩, by simp [Session.stewards], .inr ⟨hopen, rfl⟩⟩
  have habsorbed : Still h (h.absorb k r) := still_absorb hs hp hle
  have hset : (h.setSession k r.session).session? k = some r.session :=
    session?_setSession_self hs _
  obtain ⟨u, hu, hpu⟩ := (still_absorb_rest h k r).calm.sessions k r.session hset
  refine ⟨h.absorb k r, u, habsorbed, hu, hpu.closed hended, fun hf => ?_⟩
  rw [hclose]
  rcases htold with hnobody | ⟨hopen, hobservers⟩
  · rw [hnobody]
    exact .refl _
  · have hcount : r.answer.count .steward = s.stewards := by
      rw [hobservers]
      rfl
    refine unfolds_foldl_hearEnd _ hu (hpu.closed hended) ?_ fun hin => ?_
    · rw [hcount]
      exact hf.single k s hs hopen
    · have hpos : 0 < s.stewards := by
        rw [← hcount]
        exact List.count_pos_iff.mpr hin
      rw [hpu.id, hp.id, habsorbed.calm.registry]
      exact hf.attended k s hs hopen hpos

theorem unfolds_close (h : Hub) (k : Nat) (shutdown : Bool) : Unfolds h (h.close k shutdown) := by
  cases hs : h.session? k with
  | none =>
      have hsame : h.close k shutdown = h := by simp [Hub.close, closeWithin, hs]
      rw [hsame]
      exact .refl h
  | some s =>
      obtain ⟨b, u, hended, -, -, hheard⟩ := close_unfolds hs shutdown
      exact fun hf => (hended.unfolds.trans (hheard hf)) hf

/-- The session has ended then. -/
theorem Fit.closed_close (hf : h.Fit) (k : Nat) (shutdown : Bool) :
    ∀ s, (h.close k shutdown).session? k = some s → s.closed = true := by
  intro s' hs'
  cases hs : h.session? k with
  | none =>
      have hsame : h.close k shutdown = h := by simp [Hub.close, closeWithin, hs]
      rw [hsame, hs] at hs'
      cases hs'
  | some s =>
      obtain ⟨b, u, hended, hu, hc, hheard⟩ := close_unfolds hs shutdown
      obtain ⟨v, hv, hp⟩ := (hheard hf).sessions (hended.fit hf) hu
      obtain rfl := Option.some.inj (hv.symm.trans hs')
      exact hp.closed hc

/-! ### What the server demands -/

theorem unfolds_closeId (h : Hub) (id : StreamId) : Unfolds h (h.closeId id).1 := by
  unfold closeId closeIdWith
  split
  · exact .refl h
  · exact unfolds_close h _ false

theorem unfolds_meet (h : Hub) (id : StreamId) (d : Demand) :
    Unfolds h (h.meet Hub.close id d).1 := by
  cases d with
  | deliver stanza =>
      have hpush := murmurs_push h id stanza
      simp only [Hub.meet]
      split <;> rename_i heq <;> rw [heq] at hpush <;> exact hpush.unfolds
  | close => exact unfolds_closeId h id

theorem unfolds_call (h : Hub) (id : StreamId) (c : Call) : Unfolds h (h.call id c) := by
  have hcounted : Still h { h with calls := h.calls + 1 } :=
    .of_eq rfl rfl rfl rfl rfl rfl rfl rfl
  refine hcounted.unfolds.trans (Unfolds.foldl (fun b d => ?_) _ _)
  have hnoted := still_write (b.meet Hub.close id d).1 id
    (show (Note.demand c d (b.meet Hub.close id d).2).isLifecycle = false from rfl)
  exact (unfolds_meet b id d).trans hnoted.unfolds

/-! ### The service of the registry -/

/-- A session is registered under a free identifier. -/
theorem unfolds_announce (hfree : ∀ j, (s.id, j) ∉ h.registry) (hnone : s.stewards = 0) :
    Unfolds h (h.announce s) := by
  refine fun hf => ⟨?_, _, .deed (.created hfree)⟩
  have hadded : (h.addSession s).Fit := (still_addSession h hnone).fit hf
  refine ⟨hadded.registryTable, hadded.named, ?_, fun j u hu hopen hpos => ?_, hadded.single⟩
  · refine List.nodup_cons.mpr ⟨fun hmem => ?_, hf.keys⟩
    obtain ⟨e, he, heq⟩ := List.mem_map.mp hmem
    have hid : e.1 = s.id := heq
    exact hfree e.2 (hid ▸ he)
  · exact List.mem_cons_of_mem _ (hadded.attended j u hu hopen hpos)

/-- A registered session that nobody observes may get a steward. -/
theorem unfolds_addSteward (hs : h.session? k = some s) (hnobody : s.observers = [])
    (hmem : (s.id, k) ∈ h.registry) : Unfolds h (h.addSteward k) := by
  have hset : h.addSteward k = h.setSession k (s.observe .steward).2 := by
    simp only [addSteward, hs]
  have hobserved : (s.observe .steward).2.stewards = 1 := by
    simp [Session.stewards, Session.observe, hnobody]
  -- the other sessions stay as they are
  have hcases : ∀ j u, (h.addSteward k).session? j = some u →
      (j = k ∧ u = (s.observe .steward).2) ∨ h.session? j = some u := by
    intro j u hu
    rw [hset] at hu
    by_cases hj : k = j
    · subst hj
      rw [session?_setSession_self hs] at hu
      exact .inl ⟨rfl, (Option.some.inj hu).symm⟩
    · rw [session?_setSession, if_neg hj] at hu
      exact .inr hu
  have hcalm : Calm h (h.addSteward k) := by
    rw [hset]
    refine .of_eq rfl rfl rfl rfl rfl rfl fun j u hu => ?_
    by_cases hj : k = j
    · subst hj
      obtain rfl := Option.some.inj (hs.symm.trans hu)
      exact ⟨_, session?_setSession_self hs _, rfl, rfl, fun hc => hc⟩
    · exact ⟨u, by rw [session?_setSession, if_neg hj, hu], .refl u⟩
  refine fun hf => ⟨?_, [], .deed (.calm hcalm)⟩
  have hregistry : (h.addSteward k).registry = h.registry := hcalm.registry
  have hnames : (h.addSteward k).names = h.names := by
    rw [hset]
    rfl
  refine ⟨Nat.lt_of_lt_of_le hf.registryTable hcalm.tables, fun e he => ?_, hregistry ▸ hf.keys,
    fun j u hu hopen hpos => ?_, fun j u hu hopen => ?_⟩
  · exact Nat.lt_of_lt_of_le (hf.named e (hnames ▸ he)) hcalm.tables
  · rw [hregistry]
    rcases hcases j u hu with ⟨rfl, rfl⟩ | hu
    · exact hmem
    · exact hf.attended j u hu hopen hpos
  · rcases hcases j u hu with ⟨rfl, rfl⟩ | hu
    · exact Nat.le_of_eq hobserved
    · exact hf.single j u hu hopen

/-- Halfway through its beginning, a new session is there with its terms, and what comes before and
what comes after have a chronicle each. -/
theorem unfolds_newborn (hf : h.Fit) (hfree : h.lookup id = none) (terms : Terms) (key : Nat) :
    ∃ (h₂ : Hub) (s : Session Observer), h₂.session? h.sessions.length = some s ∧
      s.terms = terms ∧ Unfolds h h₂ ∧ Unfolds h₂ (h.begin id terms key) := by
  obtain ⟨s, hs⟩ : ∃ s : Session Observer, s = { id, terms, sink := h.sink } := ⟨_, rfl⟩
  have hunheard : Unheard s.id terms false s := by
    rw [hs]
    exact ⟨rfl, rfl, rfl, rfl, rfl, rfl, Session.sound_new id terms h.sink⟩
  have hid : s.id = id := by rw [hs]
  have hnew : ∀ j, (s.id, j) ∉ h.registry := by
    intro j hj
    rw [hid] at hj
    rw [lookup, (lookup_iff_mem hf.keys).mpr hj] at hfree
    cases hfree
  have hannounced : Unfolds h (h.announce s) :=
    unfolds_announce hnew (by rw [Session.stewards, hunheard.observers]; rfl)
  -- nobody observes the session until the server has been told
  obtain ⟨t, journal, hcalled, ht⟩ := call_withNewborn h
    (h.journal ++ [⟨h.now, s.id.text, .created⟩]) h.calls hunheard .created
  have htold : Unfolds h ((h.announce s).call s.id .created) :=
    hannounced.trans (unfolds_call _ _ _)
  obtain ⟨h₁, hh₁⟩ : ∃ h₁, h₁ = (h.announce s).call s.id .created := ⟨_, rfl⟩
  have hh₁' : h₁ = h.withNewborn s.id t journal (h.calls + 1) := hh₁.trans hcalled
  have hattended : Unfolds h₁ (h₁.addSteward h.sessions.length) := by
    rw [hh₁']
    refine unfolds_addSteward session?_withNewborn ht.observers ?_
    rw [ht.id]
    exact List.mem_cons_self
  obtain ⟨h₂, hh₂⟩ : ∃ h₂, h₂ = h₁.addSteward h.sessions.length := ⟨_, rfl⟩
  have hwelcomed : Unfolds h₂ (h₂.welcome s key) := by
    have hnoted : Still h₂ (h₂.write s.id (.features s.terms.wait s.terms.bound s.terms.language
        s.terms.secure)) := still_write h₂ s.id rfl
    exact (hnoted.unfolds.trans (unfolds_call _ _ _)).trans (still_serve ..).unfolds
  have hbegin : h.begin id terms key =
      (h₂.welcome s key).arm registryTimer h.sessions.length := by
    rw [hh₂, hh₁, hs]
    rfl
  have hthere : h₂.session? h.sessions.length = some (t.observe .steward).2 := by
    rw [hh₂, hh₁', addSteward_withNewborn]
    exact session?_withNewborn
  rw [← hh₁] at htold
  rw [← hh₂] at hattended
  rw [hbegin]
  exact ⟨h₂, _, hthere, ht.terms, htold.trans hattended,
    hwelcomed.trans (murmurs_steward ..).unfolds⟩

theorem unfolds_begin (hfree : h.lookup id = none) (terms : Terms) (key : Nat) :
    Unfolds h (h.begin id terms key) := by
  intro hf
  obtain ⟨h₂, s, -, -, hborn, hbegun⟩ := unfolds_newborn hf hfree terms key
  exact (hborn.trans hbegun) hf

theorem unfolds_create (h : Hub) (request : Request) (key : Nat) :
    Unfolds h (h.create request key).1 := by
  obtain ⟨h₁, hh₁⟩ : ∃ h₁, h₁ = h.serve key fun x => x.compress h.server.compression := ⟨_, rfl⟩
  have hcompressed : Still h h₁ := by
    rw [hh₁]
    exact still_serve ..
  simp only [Hub.create, ← hh₁]
  cases hd : h₁.draw maxDraws h₁.drawn with
  | mk drawn id =>
      have hdrawn : Still h { h₁ with drawn } :=
        hcompressed.trans (.of_eq rfl rfl rfl rfl rfl rfl rfl rfl)
      cases id with
      | none => exact (hdrawn.trans (still_serve ..)).unfolds
      | some id =>
          have hfree : h₁.lookup id = none := lookup_of_draw hd
          have hfree' : { h₁ with drawn }.lookup id = none := hfree
          exact hdrawn.unfolds.trans (unfolds_begin hfree' _ key)

theorem unfolds_forward (h : Hub) (rid k : Nat) (secure : Bool) (payload : List Stanza) :
    Unfolds h (h.forward rid k secure payload).1 := by
  obtain ⟨h₁, x, hnew⟩ : ∃ h₁ x, h.newExchange rid secure = (h₁, x) := ⟨_, _, rfl⟩
  have hconnected : Still h h₁ := by
    have hstill := still_newExchange h rid secure
    rw [hnew] at hstill
    exact hstill
  obtain ⟨h₂, answer, haccept⟩ : ∃ h₂ answer, h₁.accept k x payload.isEmpty = (h₂, answer) :=
    ⟨_, _, rfl⟩
  have hadmitted : Unfolds h h₂ := by
    have hmurmurs := murmurs_accept h₁ k x payload.isEmpty
    rw [haccept] at hmurmurs
    exact hconnected.unfolds.trans hmurmurs.unfolds
  simp only [Hub.forward, hnew, haccept]
  cases answer with
  | error fault => exact hadmitted.trans (still_departRequester ..).unfolds
  | ok _ =>
      have hwatched : Still h₂ (h₂.spawn (.watch k x.key)) := still_spawn h₂ rfl
      refine (hadmitted.trans hwatched.unfolds).trans (Unfolds.foldl (fun b stanza => ?_) _ _)
      have hnoted : ∀ id, Still b (b.write id (.send stanza)) := fun id => still_write b id rfl
      exact (hnoted _).unfolds.trans (unfolds_call _ _ _)

theorem unfolds_cancelAll (h : Hub) (t : Nat) :
    Unfolds h (h.setTimer t (h.timer t).cancelAll) :=
  fun hf => ⟨hf.setTimer .., _, .deed (.cancelAll t)⟩

theorem unfolds_shutdown (h : Hub) : Unfolds h h.shutdown := by
  have hclosed : Unfolds h ((h.registry.map Prod.snd).foldl (fun h k => h.close k true) h) :=
    .foldl (fun b k => unfolds_close b k true) _ h
  exact hclosed.trans (unfolds_cancelAll _ _)

/-! ### Background work and the clock -/

theorem still_finishResponse (h : Hub) (name : String) (key : Nat) (r : Response) :
    Still h (h.finishResponse name key r) :=
  (still_departRequester h key).trans (still_write _ _ rfl)

theorem still_respond (h : Hub) (name : String) (key deadline : Nat) :
    Still h (h.turn (.respond name key deadline)) := by
  simp only [turn]
  split
  · exact still_finishResponse ..
  · exact still_finishResponse ..
  · split
    · exact still_finishResponse ..
    · exact still_park h rfl

/-- The turn of a job whose time has come brings the countdown to its end. -/
theorem evict_unfolds {g : Nat} {rest : List Job} {c : Countdown} (hf : h.Fit)
    (hready : h.ready.Perm (.evict t g k :: rest)) (hfind : (h.timer t).find? g = some c)
    (hdue : c.deadline ≤ h.now) :
    ({ h with ready := rest }.turn (.evict t g k)).Fit ∧
      ∃ marks, Chronicle h (.due t c :: marks) ({ h with ready := rest }.turn (.evict t g k)) ∧
        .finish t c ∈ marks := by
  have hf₁ : { h with ready := rest }.Fit := hf.of_attended (Nat.le_refl _) rfl rfl (.of_eq rfl)
  obtain ⟨h₁, hh₁⟩ : ∃ h₁, h₁ = { h with ready := rest }.close c.target false := ⟨_, rfl⟩
  have hturn : { h with ready := rest }.turn (.evict t g k) =
      (h₁.setTimer t ((h₁.timer t).retire c)).reclaim k := by
    have hfind' : ({ h with ready := rest }.timer t).find? g = some c := hfind
    have hdue' : c.deadline ≤ { h with ready := rest }.now := hdue
    simp only [turn, hfind', hdue', if_true, hh₁]
  obtain ⟨hf₂, marks, hc⟩ := unfolds_close { h with ready := rest } c.target false hf₁
  have hended := hf₁.closed_close c.target false
  rw [← hh₁] at hf₂ hc hended
  have hreclaimed := still_reclaim (h₁.setTimer t ((h₁.timer t).retire c)) k
  have hcalm : Chronicle _ [] _ := .deed (.calm hreclaimed.calm)
  rw [hturn]
  refine ⟨hreclaimed.fit (hf₂.setTimer t _), marks ++ [.finish t c], ?_, by simp⟩
  have hall := (Chronicle.evict hready hfind hdue hc hended).trans hcalm
  rwa [List.append_nil] at hall

/-- The job of a countdown has its turn after it has come off the queue. -/
theorem unfolds_evict {g : Nat} {rest : List Job} (hready : h.ready.Perm (.evict t g k :: rest)) :
    Unfolds h ({ h with ready := rest }.turn (.evict t g k)) := by
  intro hf
  have hf₁ : { h with ready := rest }.Fit := hf.of_attended (Nat.le_refl _) rfl rfl (.of_eq rfl)
  cases hfind : (h.timer t).find? g with
  | none =>
      have hturn : { h with ready := rest }.turn (.evict t g k) =
          { h with ready := rest }.reclaim k := by
        have hfind' : ({ h with ready := rest }.timer t).find? g = none := hfind
        simp only [turn, hfind']
      rw [hturn]
      have hgone : Chronicle h [] { h with ready := rest } := .deed (.gone hready hfind)
      obtain ⟨hf₂, marks, hc⟩ := (still_reclaim { h with ready := rest } k).unfolds hf₁
      exact ⟨hf₂, _, hgone.trans hc⟩
  | some c =>
      rcases Nat.lt_or_ge h.now c.deadline with hearly | hdue
      · have hturn : { h with ready := rest }.turn (.evict t g k) =
            { h with ready := rest }.park (.evict t g k) := by
          have hfind' : ({ h with ready := rest }.timer t).find? g = some c := hfind
          simp only [turn, hfind', Nat.not_le.mpr hearly, if_false]
        rw [hturn]
        exact ⟨hf₁.of_attended (Nat.le_refl _) rfl rfl (.of_eq rfl), _,
          .deed (.wait hready hfind hearly)⟩
      · obtain ⟨hf₂, marks, hc, -⟩ := evict_unfolds hf hready hfind hdue
        exact ⟨hf₂, _, hc⟩

/-- A job has its turn after it has come off the queue. -/
theorem unfolds_turn {i : Nat} {job : Job} (hi : h.ready[i]? = some job) :
    Unfolds h ({ h with ready := h.ready.eraseIdx i }.turn job) := by
  cases job with
  | evict t g k => exact unfolds_evict (perm_eraseIdx hi)
  | respond name key deadline =>
      exact ((still_unqueue hi rfl).trans (still_respond ..)).unfolds
  | watch k key =>
      refine (still_unqueue hi rfl).unfolds.trans ?_
      simp only [turn]
      split
      · exact (murmurs_release ..).unfolds
      · exact (still_park _ rfl).unfolds

theorem unfolds_pass (h : Hub) (millis : Nat) : Unfolds h (h.moveTo (h.now + millis)) := by
  refine fun hf => ⟨?_, _, .deed (.pass (Nat.le_add_right ..))⟩
  exact hf.of_attended (Nat.le_refl _) rfl rfl (.of_eq rfl)

end HttpBinding.Hub
