import HttpBinding.Proofs.Hub.Moves

/-!
# HttpBinding.Proofs.Hub.Registry

What the registry and its table of countdowns say after any run.

* The registry finds the open sessions under their identifiers, and no others but those that the
  server ended in the call that announced them (`registry_holds_open_sessions`). Since a look-up
  gives at most one session, no two open sessions have the same identifier, and none is ever
  registered in the place of another.
* A countdown runs for the open sessions that hold nothing, and for no others
  (`countdowns_for_idle_sessions`).

Both are read off the invariant `InStep`, which every run keeps (`InStep.play`).
-/

namespace HttpBinding.Hub

variable {still : List Nat} {h : Hub} {k : Nat}

/-! ### The registry -/

theorem InStep.lookup_iff (hi : InStep still h) {id : StreamId} :
    h.lookup id = some k ↔
      ∃ s, h.session? k = some s ∧ s.id = id ∧ (s.closed = false ∨ k ∈ still) := by
  rw [hi.sane.lookup_eq_some_iff]
  constructor
  · intro hmem
    obtain ⟨g, hg, hid⟩ := hi.sane.real _ hmem
    obtain ⟨s, hs, rfl⟩ := session?_of_gist? hg
    have hkept := hi.kept k s.gist hg
    have hgid : s.gist.id = id := hid
    have hatt : s.gist.attended = true := by
      rw [← hgid] at hmem
      exact hkept.listed.mp hmem
    refine ⟨s, hs, hid, ?_⟩
    cases hc : s.closed with
    | false => exact Or.inl rfl
    | true => exact Or.inr (hkept.still.mpr ⟨hc, hatt⟩)
  · intro hfound
    obtain ⟨s, hs, rfl, hopen⟩ := hfound
    have hkept := hi.kept k s.gist (gist?_of_session? hs)
    refine hkept.listed.mpr ?_
    rcases hopen with hopen | hstill
    · exact hkept.attended hopen
    · exact (hkept.still.mp hstill).2

/-- A session that ended before its steward came is found although it has ended. -/
theorem InStep.lookup_of_still (hi : InStep still h) (hk : k ∈ still) :
    ∃ s, h.session? k = some s ∧ s.closed = true ∧ h.lookup s.id = some k := by
  obtain ⟨s, hs⟩ : ∃ s, h.session? k = some s :=
    ⟨_, List.getElem?_eq_getElem (hi.begun k hk)⟩
  have hkept := hi.kept k s.gist (gist?_of_session? hs)
  exact ⟨s, hs, (hkept.still.mp hk).1, hi.lookup_iff.mpr ⟨s, hs, rfl, Or.inr hk⟩⟩

/-- **The registry after any run.** It finds the open sessions under their identifiers. Of those
that have ended it finds the ones that the server ended in the call that announced them, and it
finds them for ever. -/
theorem registry_holds_open_sessions (settings : Settings) (server : Server) (sink : Sink)
    (ids : Nat → StreamId) (ms : List Move) (id : StreamId) (k : Nat) :
    let start := Script.withService settings server sink ids
    let h := start.play ms
    (h.lookup id = some k ↔
      ∃ s, h.session? k = some s ∧ s.id = id ∧ (s.closed = false ∨ k ∈ start.stillbornIn ms)) ∧
    (k ∈ start.stillbornIn ms →
      ∃ s, h.session? k = some s ∧ s.closed = true ∧ h.lookup s.id = some k) := by
  have hi := (inStep_start settings server sink ids).play ms
  rw [List.nil_append] at hi
  exact ⟨hi.lookup_iff, fun hk => hi.lookup_of_still hk⟩

/-- A server that ends every session in the call that announces it. -/
def hastyServer : Server where
  react := fun _ call => if call = .created then [.close] else []

/-- The first session of that server has ended, and it is registered. -/
theorem ended_and_registered :
    let h := (Script.withService {} hastyServer .recorded fun _ => ⟨"a"⟩).play
      [.connect 1 false, .create {} 0]
    h.lookup ⟨"a"⟩ = some 0 ∧ (h.session? 0).map Session.closed = some true := by
  decide

/-! ### The countdowns -/

/-- Nobody can have seen that the session ended or that it holds an exchange. -/
def idle (s : Session Observer) : Bool := !s.shown.closed && s.shown.held == 0

theorem Tidy.idle_iff (ht : h.Tidy) {s : Session Observer} (hs : h.session? k = some s) :
    idle s = true ↔ s.gist.closed = false ∧ s.gist.held = 0 := by
  have hshown := (ht.sound s (mem_sessions hs)).shown
  simp [idle, hshown, Session.gist]

/-- A countdown runs for exactly the idle sessions. -/
theorem InStep.running_iff (hi : InStep still h) :
    (∃ c ∈ h.running, c.target = k) ↔ ∃ s, h.session? k = some s ∧ idle s = true := by
  constructor
  · intro hrun
    obtain ⟨c, hc, rfl⟩ := hrun
    obtain ⟨g, hg, -⟩ := hi.sane.real _ (hi.sane.known c hc)
    obtain ⟨s, hs, rfl⟩ := session?_of_gist? hg
    exact ⟨s, hs, (hi.sane.tidy.idle_iff hs).mpr ((hi.kept c.target _ hg).timed.mp ⟨c, hc, rfl⟩)⟩
  · intro hfound
    obtain ⟨s, hs, hidle⟩ := hfound
    exact (hi.kept k _ (gist?_of_session? hs)).timed.mpr ((hi.sane.tidy.idle_iff hs).mp hidle)

theorem InStep.isArmed_iff (hi : InStep still h) {id : StreamId} :
    (h.timer registryTimer).isArmed id = true ↔
      ∃ k s, h.session? k = some s ∧ s.id = id ∧ idle s = true := by
  rw [hi.sane.regular.isArmed_iff]
  constructor
  · intro hrun
    obtain ⟨c, hc, hid⟩ := hrun
    obtain ⟨s, hs, hidle⟩ := hi.running_iff.mp ⟨c, hc, rfl⟩
    have hsid : c.id = s.id := hi.sane.id_eq hc (gist?_of_session? hs)
    exact ⟨c.target, s, hs, hsid.symm.trans hid, hidle⟩
  · intro hfound
    obtain ⟨k, s, hs, rfl, hidle⟩ := hfound
    obtain ⟨c, hc, rfl⟩ := hi.running_iff.mpr ⟨s, hs, hidle⟩
    exact ⟨c, hc, hi.sane.id_eq hc (gist?_of_session? hs)⟩

/-- Under the identifier of an open session no other one can be idle. -/
theorem InStep.isArmed_of_open (hi : InStep still h) {s : Session Observer}
    (hs : h.session? k = some s) (hopen : s.closed = false) :
    (h.timer registryTimer).isArmed s.id = idle s := by
  rw [Bool.eq_iff_iff, hi.isArmed_iff]
  constructor
  · intro hfound
    obtain ⟨j, t, ht, hid, hidle⟩ := hfound
    have htopen : t.closed = false := ((hi.sane.tidy.idle_iff ht).mp hidle).1
    have hfirst := hi.lookup_iff.mpr ⟨t, ht, hid, Or.inl htopen⟩
    have hsecond := hi.lookup_iff.mpr ⟨s, hs, rfl, Or.inl hopen⟩
    rw [hfirst] at hsecond
    obtain rfl := Option.some.inj hsecond
    rw [hs] at ht
    obtain rfl := Option.some.inj ht
    exact hidle
  · intro hidle
    exact ⟨k, s, hs, rfl, hidle⟩

/-- No two countdowns run for the same session. -/
theorem Sane.nodup_targets (hs : h.Sane) : (h.running.map Countdown.target).Nodup := by
  refine List.Nodup.map_on (fun c hc d hd heq => ?_) (List.Nodup.of_map _ hs.regular.single)
  obtain ⟨g, hg, -⟩ := hs.real _ (hs.known c hc)
  have hcid : c.id = g.id := hs.id_eq hc hg
  have hdid : d.id = g.id := hs.id_eq hd (heq ▸ hg)
  exact hs.regular.eq_of_id hc hd (hcid.trans hdid.symm)

/-- There are as many countdowns as idle sessions: both are listed by the places of the sessions. -/
theorem InStep.size_eq (hi : InStep still h) :
    (h.timer registryTimer).size = h.sessions.countP idle := by
  have hplaces : ((h.sessions.zipIdx.filter fun e => idle e.1).map Prod.snd).Nodup := by
    have hall : (h.sessions.zipIdx.map Prod.snd).Nodup := by
      rw [List.zipIdx_map_snd]
      exact List.nodup_range'
    exact (List.filter_sublist.map Prod.snd).nodup hall
  -- neither list has a place twice, and they have the same places
  have hperm : (h.running.map Countdown.target).Perm
      ((h.sessions.zipIdx.filter fun e => idle e.1).map Prod.snd) := by
    refine (List.perm_ext_iff_of_nodup hi.sane.nodup_targets hplaces).mpr fun k => ?_
    rw [List.mem_map, hi.running_iff, List.mem_map]
    constructor
    · intro hfound
      obtain ⟨s, hs, hidle⟩ := hfound
      exact ⟨(s, k), List.mem_filter.mpr ⟨List.mk_mem_zipIdx_iff_getElem?.mpr hs, hidle⟩, rfl⟩
    · intro hplace
      obtain ⟨⟨s, j⟩, hmem, rfl⟩ := hplace
      obtain ⟨hs, hidle⟩ := List.mem_filter.mp hmem
      exact ⟨s, List.mk_mem_zipIdx_iff_getElem?.mp hs, hidle⟩
  have hcount : (h.sessions.zipIdx.filter fun e => idle e.1).length = h.sessions.countP idle := by
    rw [← List.countP_eq_length_filter]
    conv_rhs => rw [← List.zipIdx_map_fst 0 h.sessions, List.countP_map]
    rfl
  calc (h.timer registryTimer).size = (h.running.map Countdown.target).length := by
        rw [hi.sane.regular.size_eq, List.length_map]
        rfl
    _ = h.sessions.countP idle := by
        rw [hperm.length_eq, List.length_map, hcount]

/-- **The table of countdowns after any run.** A countdown counts for an identifier exactly if
there is an open session of that identifier which holds nothing, and there are as many countdowns
as there are such sessions. -/
theorem countdowns_for_idle_sessions (settings : Settings) (server : Server) (sink : Sink)
    (ids : Nat → StreamId) (ms : List Move) :
    let h := (Script.withService settings server sink ids).play ms
    (∀ id, (h.timer registryTimer).isArmed id = true ↔
      ∃ k s, h.session? k = some s ∧ s.id = id ∧ s.shown.closed = false ∧ s.shown.held = 0) ∧
    (h.timer registryTimer).size =
      h.sessions.countP fun s => !s.shown.closed && s.shown.held == 0 := by
  have hi := (inStep_start settings server sink ids).play ms
  refine ⟨fun id => ?_, hi.size_eq⟩
  rw [hi.isArmed_iff]
  simp [idle]

end HttpBinding.Hub
