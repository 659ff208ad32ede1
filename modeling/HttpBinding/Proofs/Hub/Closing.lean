import HttpBinding.Proofs.Hub.Operations

/-!
# HttpBinding.Proofs.Hub.Closing

The end of a session, and the demands of the server.

When the steward hears of the end it takes the session off the registry before it tells the
server, so nothing that the server demands then finds a session (`beside_consult_of_unknown`).
This is why the recursion of `closeWithin` never goes deeper than one level, and why the end of
one session is confined to it (`Underway.close`, `InStep.close`).

During all other calls the server finds the session in question, and what it demands is one of the
operations that are known to keep the hub in step (`InStep.call`).
-/

namespace HttpBinding.Hub

variable {still : List Nat} {h h₀ : Hub} {k : Nat} {g : Gist}

/-! ### Demands that find no session -/

theorem lookup_eq_none {id : StreamId} (hnone : ∀ j, (id, j) ∉ h.registry) :
    h.lookup id = none := by
  refine List.lookup_eq_none_iff.mpr fun e he => ?_
  rw [bne_iff_ne]
  rintro rfl
  exact hnone e.2 he

/-- A demand about an identifier that is not registered comes to nothing. -/
theorem meet_of_unknown (close : Hub → Nat → Bool → Hub) {id : StreamId}
    (hnone : h.lookup id = none) (d : Demand) : (h.meet close id d).1 = h := by
  cases d with
  | deliver stanza => simp [meet, push, hnone]
  | close => simp [meet, closeIdWith, hnone]

theorem beside_count (h : Hub) : Beside h { h with calls := h.calls + 1 } :=
  .of_eq rfl rfl rfl rfl rfl rfl rfl

theorem beside_consult_of_unknown (close : Hub → Nat → Bool → Hub) {id : StreamId}
    (hnone : ∀ j, (id, j) ∉ h.registry) (c : Call) : Beside h (h.consult close id c) := by
  -- no demand adds an entry, so the identifier stays unknown from one demand to the next
  refine List.foldlRecOn (motive := fun b => Beside h b) _ _ (beside_count h) ?_
  intro b hb d _
  have hlookup : b.lookup id = none :=
    lookup_eq_none fun j hj => hnone j (hb.registry.subset hj)
  have hmeet := meet_of_unknown close hlookup d
  refine hb.trans ?_
  have hwrite := beside_write b id (.demand c d (b.meet close id d).2)
  simpa [hmeet] using hwrite

/-! ### The steward hears of the end -/

/-- The session `k` is not registered, and no countdown runs for it. -/
def Gone (k : Nat) (id : StreamId) (h : Hub) : Prop := (id, k) ∉ h.registry ∧ Stopped k h

theorem Beside.gone {h' : Hub} (hb : Beside h h') {id : StreamId} (hg : Gone k id h) :
    Gone k id h' :=
  ⟨fun hmem => hg.1 (hb.registry.subset hmem), (hb.spares k).stopped_iff.mpr hg.2⟩

theorem confined_unregister (h : Hub) (id : StreamId) (k : Nat) :
    Confined k h (h.unregister id k) := by
  refine ⟨⟨rfl, fun ht => ht.of_eq rfl rfl rfl, fun hr => hr, List.filter_sublist, rfl,
    ⟨[], (List.append_nil _).symm⟩, fun _ hjob => Or.inl hjob,
    fun _ g hg => ⟨g, hg, rfl, rfl⟩, fun _ _ hg _ => hg⟩,
    fun j hj => ⟨rfl, fun id' => ?_, fun _ _ => Iff.rfl⟩⟩
  simp [unregister, hj]

/-- The steward takes the session off the registry and stops its countdown. -/
theorem Underway.remove (hu : Underway still k g h₀ h) :
    Underway still k g h₀ ((h.unregister g.id k).cancel registryTimer k) ∧
      Gone k g.id ((h.unregister g.id k).cancel registryTimer k) := by
  have hsane := hu.others.sane
  have hoff := confined_unregister h g.id k
  have htidy : (h.unregister g.id k).Tidy := hoff.tidy hsane.tidy
  have hreg : ((h.unregister g.id k).timer registryTimer).Regular := hsane.regular
  have hgist : (h.unregister g.id k).gist? k = some g := hu.gist
  have hown : Owned k g.id (h.unregister g.id k) := hu.owned
  have hconf := hoff.trans (confined_cancel htidy hreg hgist hown)
  have hstop : Stopped k ((h.unregister g.id k).cancel registryTimer k) := by
    intro c hc
    exact ((mem_running_cancel htidy hreg hgist hown).mp hc).2
  refine ⟨⟨hu.confined.trans hconf,
    hconf.others hu.others fun c hc ht => absurd ht (hstop c hc), ?_, fun j hj => ?_⟩, ?_, hstop⟩
  · rw [gist?_cancel]
    exact hgist
  · exact hu.sole j (hconf.registry.subset hj)
  · rw [registry_cancel]
    simp [unregister]

theorem Underway.steward (hu : Underway still k g h₀ h) (close : Hub → Nat → Bool → Hub) :
    Underway still k g h₀ (hearEnd close k h .steward) ∧
      Gone k g.id (hearEnd close k h .steward) := by
  obtain ⟨s, hs, hgist⟩ := session?_of_gist? hu.gist
  have hid : s.id = g.id := congrArg Gist.id hgist
  obtain ⟨hremoved, hgone⟩ := hu.remove
  simp only [hearEnd, hs, hid]
  obtain ⟨h₁, hh₁⟩ : ∃ h₁, h₁ = (h.unregister g.id k).cancel registryTimer k := ⟨_, rfl⟩
  rw [← hh₁] at hremoved hgone ⊢
  have hnote := beside_write h₁ g.id (.closed (h₁.lookup g.id).isSome)
  -- no other session has the identifier, and this one has just lost it
  have hunknown : ∀ j, (g.id, j) ∉ (h₁.write g.id (.closed (h₁.lookup g.id).isSome)).registry := by
    intro j hj
    obtain rfl := hremoved.sole j (hnote.registry.subset hj)
    exact hgone.1 (hnote.registry.subset hj)
  have hb := hnote.trans (beside_consult_of_unknown close hunknown .closed)
  exact ⟨hremoved.beside hb, hb.gone hgone⟩

theorem Underway.hearEnd (hu : Underway still k g h₀ h) (close : Hub → Nat → Bool → Hub)
    (o : Observer) : Underway still k g h₀ (hearEnd close k h o) := by
  by_cases ho : o = .steward
  · rw [ho]
    exact (hu.steward close).1
  · exact hu.beside (beside_hearEnd hu.others.sane.tidy close k ho)

theorem Underway.gone_hearEnd (hu : Underway still k g h₀ h) (close : Hub → Nat → Bool → Hub)
    (o : Observer) (hgone : Gone k g.id h) : Gone k g.id (Hub.hearEnd close k h o) := by
  by_cases ho : o = .steward
  · rw [ho]
    exact (hu.steward close).2
  · exact (beside_hearEnd hu.others.sane.tidy close k ho).gone hgone

/-! ### The end of a session -/

/-- Nothing is left to keep of a session that is gone. -/
theorem Underway.inStep_of_gone (hu : Underway still k g.ended h₀ h) (hstill : k ∉ still)
    (hgone : Gone k g.id h) : InStep still h := by
  refine hu.others.inStep fun g' hg' => ?_
  rw [hu.gist] at hg'
  obtain rfl := Option.some.inj hg'
  refine ⟨fun hopen => ?_, ⟨fun hk => absurd hk hstill, fun hatt => ?_⟩,
    ⟨fun hmem => absurd hmem hgone.1, fun hatt => ?_⟩,
    fun c hc ht => absurd ht (hgone.2 c hc), ⟨?_, fun hopen => ?_⟩⟩
  · cases hopen
  · cases hatt.2
  · cases hatt
  · intro hrun
    obtain ⟨c, hc, ht⟩ := hrun
    exact absurd ht (hgone.2 c hc)
  · cases hopen.1

/-- An attended session ends: it is taken off the registry, its countdown is stopped, and nothing
else changes. -/
theorem Underway.close (hu : Underway still k g h₀ h) (hlisted : (g.id, k) ∈ h.registry)
    (hopen : g.closed = false) (hatt : g.attended = true) (depth : Nat) (shutdown : Bool) :
    Underway still k g.ended h₀ (closeWithin (depth + 1) h k shutdown) ∧
      Gone k g.id (closeWithin (depth + 1) h k shutdown) := by
  obtain ⟨s, hs, rfl⟩ := session?_of_gist? hu.gist
  have hsopen : s.closed = false := hopen
  obtain ⟨r, hr⟩ : ∃ r, r = s.close shutdown := ⟨_, rfl⟩
  have hcases := (Session.close_cases s shutdown).resolve_left (by simp [hsopen])
  rw [← hr] at hcases
  have hgist : r.session.gist = s.gist.ended := by
    rw [hcases.2]
    rfl
  have hconf : Confined k h (h.absorb k r) := by
    refine confined_absorb hs ?_ ?_ (fun hc => absurd hc (by simp [hsopen])) ?_ ?_
    · rw [hcases.2]
    · rw [hcases.2]
    · intro hsound
      rw [hr]
      exact hsound.close shutdown
    · intro hstaffed
      rw [hcases.2]
      exact ⟨hstaffed.begun, by simp⟩
  have hunder : Underway still k s.gist.ended h₀ (h.absorb k r) := by
    refine ⟨hu.confined.trans hconf, hu.others.absorb hu.gist hlisted hconf, ?_, fun j hj => ?_⟩
    · rw [gist?_absorb hs, hgist]
    · exact hu.sole j (hconf.registry.subset hj)
  have hsteward : Observer.steward ∈ r.answer := by
    obtain ⟨o, ho, heq⟩ : ∃ o ∈ s.observers, o.2 = Observer.steward := by
      simpa [Session.gist] using hatt
    rw [hcases.2]
    exact List.mem_map.mpr ⟨o, ho, heq⟩
  have hend : closeWithin (depth + 1) h k shutdown =
      r.answer.foldl (Hub.hearEnd (closeWithin depth) k) (h.absorb k r) := by
    simp only [closeWithin, hs, ← hr]
  rw [hend]
  -- each observer keeps the session underway, and it is gone once the steward has heard
  have hkeep := fun b o (hb : Underway still k (s.gist.ended) h₀ b) =>
    hb.hearEnd (closeWithin depth) o
  exact ⟨List.foldlRecOn r.answer _ hunder fun b hb o _ => hkeep b o hb,
    foldl_establishes (P := Underway still k (s.gist.ended) h₀) (Q := Gone k s.id) hkeep
      (fun b o hb hq => hb.gone_hearEnd (closeWithin depth) o hq)
      (fun b hb => (hb.steward (closeWithin depth)).2) hsteward hunder⟩

/-- What the end of a session has done to the hub. -/
structure Ended (still : List Nat) (k : Nat) (h h' : Hub) : Prop where
  inStep : InStep still h'
  confined : Confined k h h'
  /-- The session has ended; if it had not ended before, its steward has left it. -/
  gist : ∀ g, h.gist? k = some g →
    h'.gist? k = some (if g.closed then g else g.ended)

theorem InStep.close (hi : InStep still h) (k : Nat) (shutdown : Bool) :
    Ended still k h (h.close k shutdown) := by
  unfold Hub.close
  cases hs : h.session? k with
  | none =>
      have hsame : closeWithin (h.sessions.length + 1) h k shutdown = h := by
        simp [closeWithin, hs]
      rw [hsame]
      refine ⟨hi, .refl k h, fun g hg => ?_⟩
      simp [gist?, hs] at hg
  | some s =>
      have hgs : ∀ g, h.gist? k = some g → s.gist = g := by
        intro g hg
        rw [gist?_of_session? hs] at hg
        exact Option.some.inj hg
      cases hc : s.closed with
      | true =>
          have hsame : closeWithin (h.sessions.length + 1) h k shutdown =
              h.absorb k (s.close shutdown) := by
            simp [closeWithin, hs, (s.close_of_closed hc shutdown).2]
          have hb := beside_absorb_of_eq hs (s.close_of_closed hc shutdown).1
          rw [hsame]
          refine ⟨hi.beside hb, hb.confined k, fun g hg => ?_⟩
          have hclosed : g.closed = true := by
            rw [← hgs g hg]
            exact hc
          rw [(hb.spares k).gist, hg]
          simp [hclosed]
      | false =>
          have hkept := hi.kept k s.gist (gist?_of_session? hs)
          have hatt := hi.attended hs hc
          have hlisted : (s.gist.id, k) ∈ h.registry := hkept.listed.mpr hatt
          have hbegin : Underway still k s.gist h h :=
            ⟨.refl k h, hi.others k, gist?_of_session? hs,
              fun _ hj => hi.sane.eq_of_listed hj hlisted⟩
          obtain ⟨hunder, hgone⟩ := hbegin.close hlisted hc hatt h.sessions.length shutdown
          refine ⟨hunder.inStep_of_gone (hkept.not_still hc) hgone, hunder.confined, fun g hg => ?_⟩
          have hopen : g.closed = false := by
            rw [← hgs g hg]
            exact hc
          rw [hunder.gist, hgs g hg]
          simp [hopen]

/-! ### What the server demands -/

/-- If the session `k` is open and holds nothing, a countdown runs for it until `deadline`. -/
def Fresh (k deadline : Nat) (h : Hub) : Prop :=
  ∀ g, h.gist? k = some g → g.closed = false → g.held = 0 → Ticking k deadline h

/-- What a call about the session `k` has done to the hub. -/
structure Serves (still : List Nat) (k : Nat) (h h' : Hub) : Prop where
  inStep : InStep still h'
  confined : Confined k h h'
  /-- A countdown that was just started is as good as one started now. -/
  fresh : ∀ g, h.gist? k = some g →
    Fresh k (h.now + g.timeout) h → Fresh k (h.now + g.timeout) h'

theorem InStep.serves_of_beside (hi : InStep still h) {h' : Hub} (hb : Beside h h') (k : Nat) :
    Serves still k h h' := by
  refine ⟨hi.beside hb, hb.confined k, fun g _ hfresh g' hg' hopen hheld => ?_⟩
  rw [(hb.spares k).gist] at hg'
  exact (hb.spares k).ticking_iff.mpr (hfresh g' hg' hopen hheld)

/-- A countdown that is fresh after one part of a call is still fresh after the rest of it. -/
theorem Serves.fresh_after {a b c : Hub} (hbc : Serves still k b c) (hab : Confined k a b)
    (hg : a.gist? k = some g) (hfresh : Fresh k (a.now + g.timeout) b) :
    Fresh k (a.now + g.timeout) c := by
  obtain ⟨g', hg', -, htimeout⟩ := hab.identity k g hg
  have hend := hbc.fresh g' hg'
  rw [hab.now, htimeout] at hend
  exact hend hfresh

theorem Serves.trans {a b c : Hub} (hab : Serves still k a b) (hbc : Serves still k b c) :
    Serves still k a c :=
  ⟨hbc.inStep, hab.confined.trans hbc.confined,
    fun g hg hfresh => hbc.fresh_after hab.confined hg (hab.fresh g hg hfresh)⟩

/-- After an operation that reported something the countdown is fresh. -/
theorem Handled.fresh_of_loud {α : Type} {s : Session Observer} {r : Report Observer α}
    {h' : Hub} (hd : Handled still k s r h h') (hloud : r.events ≠ []) :
    Fresh k (h.now + s.terms.inactivityTimeout) h' := by
  intro g hg _ hheld
  rw [hd.gist] at hg
  obtain rfl := Option.some.inj hg
  exact hd.idle hloud (List.length_eq_zero_iff.mp hheld)

theorem Handled.serves {α : Type} {s : Session Observer} {r : Report Observer α} {h' : Hub}
    (hi : InStep still h) (hs : h.session? k = some s) (hd : Handled still k s r h h') :
    Serves still k h h' := by
  by_cases hloud : r.events = []
  · exact hi.serves_of_beside (hd.quiet hloud) k
  · refine ⟨hd.inStep, hd.confined, fun g hg _ => ?_⟩
    rw [gist?_of_session? hs] at hg
    obtain rfl := Option.some.inj hg
    exact hd.fresh_of_loud hloud

theorem Ended.serves {h' : Hub} (hd : Ended still k h h') : Serves still k h h' := by
  refine ⟨hd.inStep, hd.confined, fun g hg _ g' hg' hopen => ?_⟩
  rw [hd.gist g hg] at hg'
  obtain rfl := Option.some.inj hg'
  cases hc : g.closed <;> simp [hc, Gist.ended] at hopen

theorem InStep.push (hi : InStep still h) {id : StreamId}
    (hsole : ∀ j, (id, j) ∈ h.registry → j = k) (stanza : Stanza) :
    Serves still k h (h.push id stanza).1 := by
  cases hl : h.lookup id with
  | none =>
      simp only [Hub.push, hl]
      exact hi.serves_of_beside (.refl h) k
  | some j =>
      have hj := hi.sane.lookup_eq_some_iff.mp hl
      obtain rfl := hsole j hj
      obtain ⟨g, hg, -⟩ := hi.sane.real _ hj
      obtain ⟨s, hs, -⟩ := session?_of_gist? hg
      simp only [Hub.push, hl]
      exact (hi.deliver hs stanza).serves hi hs

theorem InStep.closeId (hi : InStep still h) {id : StreamId}
    (hsole : ∀ j, (id, j) ∈ h.registry → j = k) : Serves still k h (h.closeId id).1 := by
  cases hl : h.lookup id with
  | none =>
      simp only [Hub.closeId, closeIdWith, hl]
      exact hi.serves_of_beside (.refl h) k
  | some j =>
      obtain rfl := hsole j (hi.sane.lookup_eq_some_iff.mp hl)
      simp only [Hub.closeId, closeIdWith, hl]
      exact (hi.close j false).serves

/-- A demand of the server about the session `k`. -/
theorem InStep.meet (hi : InStep still h) {id : StreamId}
    (hsole : ∀ j, (id, j) ∈ h.registry → j = k) (d : Demand) :
    Serves still k h (h.meet Hub.close id d).1 := by
  cases d with
  | deliver stanza =>
      have hpush := hi.push hsole stanza
      simp only [Hub.meet]
      split <;> rename_i heq <;> rw [heq] at hpush <;> exact hpush
  | close => exact hi.closeId hsole

/-- Whatever the server demands during a call about a session, it is confined to that session. -/
theorem InStep.call (hi : InStep still h) {id : StreamId}
    (hsole : ∀ j, (id, j) ∈ h.registry → j = k) (c : Call) :
    Serves still k h (h.call id c) := by
  refine List.foldlRecOn (motive := fun b => Serves still k h b) _ _
    (hi.serves_of_beside (beside_count h) k) ?_
  intro b hb d _
  have hsole' : ∀ j, (id, j) ∈ b.registry → j = k := fun j hj =>
    hsole j (hb.confined.registry.subset hj)
  have hmeet := hb.inStep.meet hsole' d
  have hnote := beside_write (b.meet Hub.close id d).1 id
    (.demand c d (b.meet Hub.close id d).2)
  exact hb.trans (hmeet.trans (hmeet.inStep.serves_of_beside hnote k))

end HttpBinding.Hub
