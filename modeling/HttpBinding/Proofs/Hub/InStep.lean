import HttpBinding.Proofs.Hub.Recorders

/-!
# HttpBinding.Proofs.Hub.InStep

The invariant of a hub with a registry.

`Kept` says of one session that its entry in the registry and its countdown are what they have to
be: it is registered as long as its steward observes it, and a countdown runs for it exactly while
it is open and holds nothing. `Sane` says what is left to say of the registry and the table of
countdowns as wholes. `InStep` is both, for all sessions.

Design points:

* A session that ended before its steward came keeps its steward, and its entry, for ever. The
  invariant carries the list `still` of these sessions.
* While a call works on the session `k`, all that can be said of `k` is `Midway`; the others are
  kept all along (`Others`).
* With `Confined.others`, what is true of the others survives every step that is confined to `k`.
-/

namespace HttpBinding.Hub

/-! ### Definitions -/

/-- The job of a countdown waits for it to end: it is ready, or it is parked until then. -/
def HasJob (h : Hub) (c : Countdown) : Prop :=
  .evict registryTimer c.generation c.target ∈ h.ready ∨
    (.evict registryTimer c.generation c.target ∈ h.parked ∧ h.now < c.deadline)

/-- No countdown runs for the session `k`. -/
def Stopped (k : Nat) (h : Hub) : Prop := ∀ c ∈ h.running, c.target ≠ k

/-- A countdown for the session `k` runs until `deadline`. -/
def Ticking (k deadline : Nat) (h : Hub) : Prop :=
  ∃ c ∈ h.running, c.target = k ∧ c.deadline = deadline

/-- What runs for the session `k` has its job. -/
def Wound (k : Nat) (h : Hub) : Prop := ∀ c ∈ h.running, c.target = k → h.HasJob c

/-- What is true of the registry and the table of countdowns as wholes. -/
structure Sane (h : Hub) : Prop where
  tidy : h.Tidy
  regular : (h.timer registryTimer).Regular
  /-- No two sessions are registered under one identifier. -/
  keys : (h.registry.map Prod.fst).Nodup
  /-- Only sessions are registered, and under their own identifiers. -/
  real : ∀ e ∈ h.registry, ∃ g, h.gist? e.2 = some g ∧ g.id = e.1
  /-- Countdowns only run for registered sessions. -/
  known : ∀ c ∈ h.running, (c.id, c.target) ∈ h.registry

/-- The entry and the countdown of the session `k` are what they have to be. -/
structure Kept (still : List Nat) (h : Hub) (k : Nat) (g : Gist) : Prop where
  attended : g.closed = false → g.attended = true
  still : k ∈ still ↔ g.closed = true ∧ g.attended = true
  listed : (g.id, k) ∈ h.registry ↔ g.attended = true
  wound : Wound k h
  timed : (∃ c ∈ h.running, c.target = k) ↔ g.closed = false ∧ g.held = 0

/-- The registry and the countdowns are in step with all sessions but `k`. -/
structure Others (still : List Nat) (k : Nat) (h : Hub) : Prop where
  sane : h.Sane
  begun : ∀ j ∈ still, j < h.sessions.length
  kept : ∀ j g, j ≠ k → h.gist? j = some g → Kept still h j g

/-- The registry and the countdowns are in step with the sessions. -/
structure InStep (still : List Nat) (h : Hub) : Prop where
  sane : h.Sane
  begun : ∀ j ∈ still, j < h.sessions.length
  kept : ∀ j g, h.gist? j = some g → Kept still h j g

/-! ### What stays true -/

theorem Course.hasJob {h h' : Hub} (hc : Course h h') {c : Countdown} (hj : h.HasJob c) :
    h'.HasJob c := by
  obtain ⟨more, hmore⟩ := hc.ready
  rcases hj with hready | ⟨hparked, hlt⟩
  · left
    rw [hmore]
    exact List.mem_append_left more hready
  · rcases hc.parked _ hparked with hp | hr
    · exact Or.inr ⟨hp, by rw [hc.now]; exact hlt⟩
    · exact Or.inl hr

theorem Spares.stopped_iff {j : Nat} {h h' : Hub} (hs : Spares j h h') :
    Stopped j h' ↔ Stopped j h := by
  constructor
  · intro hst c hc ht
    exact hst c ((hs.running c ht).mpr hc) ht
  · intro hst c hc ht
    exact hst c ((hs.running c ht).mp hc) ht

theorem Spares.ticking_iff {j d : Nat} {h h' : Hub} (hs : Spares j h h') :
    Ticking j d h' ↔ Ticking j d h := by
  constructor
  · intro hrun
    obtain ⟨c, hc, ht, hd⟩ := hrun
    exact ⟨c, (hs.running c ht).mp hc, ht, hd⟩
  · intro hrun
    obtain ⟨c, hc, ht, hd⟩ := hrun
    exact ⟨c, (hs.running c ht).mpr hc, ht, hd⟩

theorem Spares.wound {j : Nat} {h h' : Hub} (hs : Spares j h h') (hc : Course h h')
    (hw : Wound j h) : Wound j h' := by
  intro c hrun ht
  exact hc.hasJob (hw c ((hs.running c ht).mp hrun) ht)

/-- Whether a countdown runs for a session does not change where it is spared. -/
theorem Spares.runs_iff {j : Nat} {h h' : Hub} (hs : Spares j h h') :
    (∃ c ∈ h'.running, c.target = j) ↔ ∃ c ∈ h.running, c.target = j := by
  constructor
  · intro hrun
    obtain ⟨c, hc, ht⟩ := hrun
    exact ⟨c, (hs.running c ht).mp hc, ht⟩
  · intro hrun
    obtain ⟨c, hc, ht⟩ := hrun
    exact ⟨c, (hs.running c ht).mpr hc, ht⟩

/-- A session that is spared is kept if what runs for it still has its job. -/
theorem Kept.of_spares {still : List Nat} {h h' : Hub} {j : Nat} {g : Gist}
    (hk : Kept still h j g) (hs : Spares j h h') (hw : Wound j h') : Kept still h' j g :=
  ⟨hk.attended, hk.still, (hs.listed g.id).trans hk.listed, hw, hs.runs_iff.trans hk.timed⟩

theorem Kept.spared {still : List Nat} {h h' : Hub} {j : Nat} {g : Gist}
    (hk : Kept still h j g) (hc : Course h h') (hs : Spares j h h') : Kept still h' j g :=
  hk.of_spares hs (hs.wound hc hk.wound)

/-- A session that is still open did not end before its steward came. -/
theorem Kept.not_still {still : List Nat} {h : Hub} {k : Nat} {g : Gist}
    (hk : Kept still h k g) (hopen : g.closed = false) : k ∉ still := by
  intro hmem
  have hclosed := (hk.still.mp hmem).1
  rw [hopen] at hclosed
  cases hclosed

/-- Only the sessions, the entries, the tables and the names matter. -/
theorem Sane.of_eq {h h' : Hub} (hs : h.Sane) (hsessions : h'.sessions = h.sessions)
    (hregistry : h'.registry = h.registry) (htimers : h'.timers = h.timers)
    (hnames : h'.names = h.names) : h'.Sane := by
  have hgist : ∀ k, h'.gist? k = h.gist? k := fun k => by simp [gist?, session?, hsessions]
  have htimer : h'.timer registryTimer = h.timer registryTimer := by simp [timer, htimers]
  refine ⟨hs.tidy.of_eq htimers hnames hsessions, ?_, ?_, fun e he => ?_, fun c hc => ?_⟩
  · rw [htimer]
    exact hs.regular
  · rw [hregistry]
    exact hs.keys
  · rw [hregistry] at he
    rw [hgist]
    exact hs.real e he
  · rw [Hub.running, htimer] at hc
    rw [hregistry]
    exact hs.known c hc

/-- A step that is confined to one session keeps the registry and the countdowns sane if what
runs for that session afterwards is known. -/
theorem Confined.sane {k : Nat} {h h' : Hub} (hc : Confined k h h') (hsane : h.Sane)
    (hknown : ∀ c ∈ h'.running, c.target = k → (c.id, k) ∈ h'.registry) : h'.Sane := by
  refine ⟨hc.tidy hsane.tidy, hc.regular hsane.regular,
    (hc.registry.map Prod.fst).nodup hsane.keys, fun e he => ?_, fun c hrun => ?_⟩
  · obtain ⟨g, hg, hid⟩ := hsane.real e (hc.registry.subset he)
    obtain ⟨g', hg', hid', -⟩ := hc.identity e.2 g hg
    exact ⟨g', hg', hid'.trans hid⟩
  · -- a countdown for another session ran before, and its entry is still there
    by_cases ht : c.target = k
    · rw [ht]
      exact hknown c hrun ht
    · have hs := hc.spares c.target ht
      exact (hs.listed c.id).mpr (hsane.known c ((hs.running c rfl).mp hrun))

theorem Confined.others {still : List Nat} {k : Nat} {h h' : Hub} (hc : Confined k h h')
    (ho : Others still k h)
    (hknown : ∀ c ∈ h'.running, c.target = k → (c.id, k) ∈ h'.registry) :
    Others still k h' := by
  refine ⟨hc.sane ho.sane hknown, ?_, fun j g hj hg => ?_⟩
  · rw [hc.sessions]
    exact ho.begun
  · rw [(hc.spares j hj).gist] at hg
    exact (ho.kept j g hj hg).spared hc.toCourse (hc.spares j hj)

theorem Beside.known {h h' : Hub} (hb : Beside h h') (hsane : h.Sane) (k : Nat) :
    ∀ c ∈ h'.running, c.target = k → (c.id, k) ∈ h'.registry := by
  rintro c hrun rfl
  have hs := hb.spares c.target
  exact (hs.listed c.id).mpr (hsane.known c ((hs.running c rfl).mp hrun))

theorem InStep.others {still : List Nat} {h : Hub} (hi : InStep still h) (k : Nat) :
    Others still k h :=
  ⟨hi.sane, hi.begun, fun j g _ hg => hi.kept j g hg⟩

theorem Others.inStep {still : List Nat} {k : Nat} {h : Hub} (ho : Others still k h)
    (hk : ∀ g, h.gist? k = some g → Kept still h k g) : InStep still h := by
  refine ⟨ho.sane, ho.begun, fun j g hg => ?_⟩
  by_cases hj : j = k
  · subst hj
    exact hk g hg
  · exact ho.kept j g hj hg

/-- What happens beside the sessions keeps everything in step. -/
theorem InStep.beside {still : List Nat} {h h' : Hub} (hi : InStep still h) (hb : Beside h h') :
    InStep still h' := by
  refine ⟨(hb.confined 0).sane hi.sane (hb.known hi.sane 0), ?_, fun j g hg => ?_⟩
  · rw [hb.sessions]
    exact hi.begun
  · rw [(hb.spares j).gist] at hg
    exact (hi.kept j g hg).spared hb.toCourse (hb.spares j)

/-- In a registry without double keys every entry is found. -/
theorem lookup_iff_mem {registry : List (StreamId × Nat)}
    (hkeys : (registry.map Prod.fst).Nodup) {id : StreamId} {k : Nat} :
    registry.lookup id = some k ↔ (id, k) ∈ registry := by
  induction registry with
  | nil => simp
  | cons e es ih =>
      obtain ⟨other, j⟩ := e
      rw [List.map_cons, List.nodup_cons] at hkeys
      have hfresh : ∀ i, (other, i) ∉ es := fun i hi =>
        hkeys.1 (List.mem_map.mpr ⟨(other, i), hi, rfl⟩)
      rw [List.lookup_cons, List.mem_cons]
      cases heq : id == other with
      | true =>
          obtain rfl : id = other := by simpa using heq
          simp [hfresh, eq_comm]
      | false =>
          have hne : id ≠ other := by simpa using heq
          simp [hne, ih hkeys.2]

/-- A session whose identifier is registered for it is found under that identifier. -/
theorem Sane.lookup_eq_some_iff {h : Hub} (hsane : h.Sane) {id : StreamId} {k : Nat} :
    h.lookup id = some k ↔ (id, k) ∈ h.registry :=
  lookup_iff_mem hsane.keys

/-- No two sessions are registered under one identifier. -/
theorem Sane.eq_of_listed {h : Hub} (hsane : h.Sane) {id : StreamId} {j k : Nat}
    (hj : (id, j) ∈ h.registry) (hk : (id, k) ∈ h.registry) : j = k := by
  have hj' := hsane.lookup_eq_some_iff.mpr hj
  have hk' := hsane.lookup_eq_some_iff.mpr hk
  rw [hj'] at hk'
  exact Option.some.inj hk'

/-- What runs for a session runs for its identifier. -/
theorem Sane.id_eq {h : Hub} (hsane : h.Sane) {c : Countdown} (hc : c ∈ h.running) {g : Gist}
    (hg : h.gist? c.target = some g) : c.id = g.id := by
  obtain ⟨g', hg', hid⟩ := hsane.real _ (hsane.known c hc)
  rw [hg] at hg'
  obtain rfl := Option.some.inj hg'
  exact hid.symm

end HttpBinding.Hub
