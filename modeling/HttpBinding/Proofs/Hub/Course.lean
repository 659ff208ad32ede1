import HttpBinding.Hub.Closing
import HttpBinding.Proofs.Countdowns
import HttpBinding.Proofs.Session.Sound

/-!
# HttpBinding.Proofs.Hub.Course

How the state of a hub changes in the course of one call.

A call runs through many small steps, and most of them have nothing to do with who is registered
or which countdown runs: notes are written, exchanges change hands, recorders come and go. The
relations of this module say so once, for every step.

Design points:

* A session is seen through its `Gist`: what the registry and the countdowns have to agree with.
* `Course h h'` is what every step keeps, wherever it works: the time, what has been decided
  (identifiers, timeouts, ends), and the work that waits to be done.
* `Spares j h h'` says that a session `j`, its entry and its countdowns are as they were.
* A step is `Beside` the sessions if it spares all of them, and `Confined` to one of them if it
  spares the others. Both are closed under composition, so a call is followed step by step.
-/

namespace HttpBinding

/-! ### The gist of a session -/

/-- What the registry and the countdowns have to agree with. -/
structure Gist where
  id : StreamId
  timeout : Nat
  closed : Bool
  /-- How many exchanges are held. -/
  held : Nat
  /-- The steward observes the session. -/
  attended : Bool
deriving DecidableEq, Repr

/-- The gist of a session that has ended in the presence of its steward. -/
def Gist.ended (g : Gist) : Gist := { g with closed := true, held := 0, attended := false }

namespace Session

/-- The gist of a session. -/
def gist (s : Session Observer) : Gist where
  id := s.id
  timeout := s.terms.inactivityTimeout
  closed := s.closed
  held := s.held.length
  attended := s.observers.any fun o => decide (o.2 = .steward)

/-- The steward has the first ticket, and no other observer ever gets it. -/
structure Staffed (s : Session Observer) : Prop where
  begun : 0 < s.nextTicket
  first : ∀ o ∈ s.observers, o.2 = .steward → o.1 = 0

/-- An observer that is not the steward does not change the gist. -/
theorem gist_observe (s : Session Observer) {o : Observer} (ho : o ≠ .steward) :
    (s.observe o).2.gist = s.gist := by
  simp [gist, observe, ho]

theorem Staffed.observe {s : Session Observer} (h : s.Staffed) {o : Observer}
    (ho : o ≠ .steward) : (s.observe o).2.Staffed := by
  refine ⟨Nat.succ_pos _, fun p hp heq => ?_⟩
  rcases List.mem_append.mp hp with hp | hp
  · exact h.first p hp heq
  · obtain rfl := List.mem_singleton.mp hp
    exact absurd heq ho

/-- Who does not have the first ticket is not the steward. -/
theorem Staffed.gist_unobserve {s : Session Observer} (h : s.Staffed) {ticket : Nat}
    (ht : 0 < ticket) : (s.unobserve ticket).2.gist = s.gist := by
  simp only [gist, unobserve, Gist.mk.injEq, true_and]
  rw [Bool.eq_iff_iff, List.any_eq_true, List.any_eq_true]
  constructor
  · intro hany
    obtain ⟨o, ho, heq⟩ := hany
    exact ⟨o, (List.mem_filter.mp ho).1, heq⟩
  · intro hany
    obtain ⟨o, ho, heq⟩ := hany
    -- the steward has ticket zero, so it is not the one that goes
    have hzero : o.1 = 0 := h.first o ho (by simpa using heq)
    refine ⟨o, List.mem_filter.mpr ⟨ho, ?_⟩, heq⟩
    simp only [hzero, bne_iff_ne]
    omega

theorem Staffed.unobserve {s : Session Observer} (h : s.Staffed) (ticket : Nat) :
    (s.unobserve ticket).2.Staffed :=
  ⟨h.begun, fun o ho => h.first o (List.mem_filter.mp ho).1⟩

end Session

namespace Hub

/-- The gist of the session `k`. -/
def gist? (h : Hub) (k : Nat) : Option Gist := (h.session? k).map Session.gist

/-- The countdowns that run in the table of the registry. -/
def running (h : Hub) : List Countdown := (h.timer registryTimer).running

theorem gist?_of_session? {h : Hub} {k : Nat} {s : Session Observer}
    (hs : h.session? k = some s) : h.gist? k = some s.gist := by
  simp [gist?, hs]

theorem session?_of_gist? {h : Hub} {k : Nat} {g : Gist} (hg : h.gist? k = some g) :
    ∃ s, h.session? k = some s ∧ s.gist = g := by
  simpa [gist?] using hg

theorem lt_of_gist? {h : Hub} {k : Nat} {g : Gist} (hg : h.gist? k = some g) :
    k < h.sessions.length := by
  obtain ⟨s, hs, -⟩ := session?_of_gist? hg
  exact (List.getElem?_eq_some_iff.mp hs).1

theorem mem_sessions {h : Hub} {k : Nat} {s : Session Observer} (hs : h.session? k = some s) :
    s ∈ h.sessions :=
  List.mem_of_getElem? hs

/-! ### What is true of every hub with a registry -/

/-- The parts of a hub that have nothing to do with time. Nobody but the registry has a table of
countdowns or knows a session by name, so a recorder cannot start or stop countdowns. -/
structure Tidy (h : Hub) : Prop where
  oneTable : h.timers.length = 1
  unnamed : h.names.sessions = []
  tickets : ∀ e ∈ h.names.recorders, 0 < e.2
  sound : ∀ s ∈ h.sessions, s.Sound
  staffed : ∀ s ∈ h.sessions, s.Staffed

/-- Only the tables, the names and the sessions matter. -/
theorem Tidy.of_eq {h h' : Hub} (ht : h.Tidy) (htimers : h'.timers = h.timers)
    (hnames : h'.names = h.names) (hsessions : h'.sessions = h.sessions) : h'.Tidy := by
  refine ⟨?_, ?_, ?_, ?_, ?_⟩
  · rw [htimers]
    exact ht.oneTable
  · rw [hnames]
    exact ht.unnamed
  · rw [hnames]
    exact ht.tickets
  · rw [hsessions]
    exact ht.sound
  · rw [hsessions]
    exact ht.staffed

/-! ### Relations between two states -/

/-- What every step in the course of a call keeps. -/
structure Course (h h' : Hub) : Prop where
  now : h'.now = h.now
  tidy : h.Tidy → h'.Tidy
  regular : (h.timer registryTimer).Regular → (h'.timer registryTimer).Regular
  registry : h'.registry.Sublist h.registry
  sessions : h'.sessions.length = h.sessions.length
  /-- Work that is ready keeps its place. -/
  ready : ∃ more, h'.ready = h.ready ++ more
  /-- Work that is parked is not lost. -/
  parked : ∀ job ∈ h.parked, job ∈ h'.parked ∨ job ∈ h'.ready
  identity : ∀ k g, h.gist? k = some g →
    ∃ g', h'.gist? k = some g' ∧ g'.id = g.id ∧ g'.timeout = g.timeout
  /-- The end of a session is final. -/
  final : ∀ k g, h.gist? k = some g → g.closed = true → h'.gist? k = some g

/-- The session `j` is as it was, as far as the registry and the countdowns are concerned. -/
structure Spares (j : Nat) (h h' : Hub) : Prop where
  gist : h'.gist? j = h.gist? j
  listed : ∀ id, (id, j) ∈ h'.registry ↔ (id, j) ∈ h.registry
  running : ∀ c, c.target = j → (c ∈ h'.running ↔ c ∈ h.running)

/-- A step that spares all sessions. -/
structure Beside (h h' : Hub) : Prop extends Course h h' where
  spares : ∀ j, Spares j h h'

/-- A step that spares all sessions but one. -/
structure Confined (k : Nat) (h h' : Hub) : Prop extends Course h h' where
  spares : ∀ j, j ≠ k → Spares j h h'

theorem Course.trans {a b c : Hub} (h : Course a b) (h' : Course b c) : Course a c := by
  -- all but the queues and the identities is transitive as it stands
  refine ⟨h'.now.trans h.now, fun ht => h'.tidy (h.tidy ht), fun hr => h'.regular (h.regular hr),
    h'.registry.trans h.registry, h'.sessions.trans h.sessions, ?_, fun job hjob => ?_,
    fun k g hg => ?_, fun k g hg hc => h'.final k g (h.final k g hg hc) hc⟩
  · obtain ⟨more, hmore⟩ := h.ready
    obtain ⟨more', hmore'⟩ := h'.ready
    exact ⟨more ++ more', by rw [hmore', hmore, List.append_assoc]⟩
  · obtain ⟨more, hmore⟩ := h'.ready
    rcases h.parked job hjob with hp | hr
    · exact h'.parked job hp
    · exact Or.inr (by rw [hmore]; exact List.mem_append_left more hr)
  · obtain ⟨g', hg', hid, htimeout⟩ := h.identity k g hg
    obtain ⟨g'', hg'', hid', htimeout'⟩ := h'.identity k g' hg'
    exact ⟨g'', hg'', hid'.trans hid, htimeout'.trans htimeout⟩

theorem Spares.refl (j : Nat) (h : Hub) : Spares j h h :=
  ⟨rfl, fun _ => Iff.rfl, fun _ _ => Iff.rfl⟩

theorem Spares.trans {j : Nat} {a b c : Hub} (h : Spares j a b) (h' : Spares j b c) :
    Spares j a c :=
  ⟨h'.gist.trans h.gist, fun id => (h'.listed id).trans (h.listed id),
    fun d hd => (h'.running d hd).trans (h.running d hd)⟩

/-- Nothing is changed but notes, loose exchanges and counters. -/
theorem Beside.of_eq {h h' : Hub} (hnow : h'.now = h.now) (hsessions : h'.sessions = h.sessions)
    (hregistry : h'.registry = h.registry) (htimers : h'.timers = h.timers)
    (hready : h'.ready = h.ready) (hparked : h'.parked = h.parked)
    (hnames : h'.names = h.names) : Beside h h' := by
  have hgist : ∀ k, h'.gist? k = h.gist? k := fun k => by simp [gist?, session?, hsessions]
  have htimer : h'.timer registryTimer = h.timer registryTimer := by simp [timer, htimers]
  refine ⟨⟨hnow, fun ht => ht.of_eq htimers hnames hsessions, fun hr => htimer ▸ hr, ?_, ?_,
    ⟨[], ?_⟩, fun job hjob => Or.inl (hparked ▸ hjob),
    fun k g hg => ⟨g, (hgist k).trans hg, rfl, rfl⟩,
    fun k g hg _ => (hgist k).trans hg⟩, fun j => ⟨hgist j, fun id => ?_, fun c _ => ?_⟩⟩
  · exact hregistry ▸ List.Sublist.refl _
  · rw [hsessions]
  · simp [hready]
  · rw [hregistry]
  · simp [Hub.running, htimer]

theorem Beside.refl (h : Hub) : Beside h h := .of_eq rfl rfl rfl rfl rfl rfl rfl

theorem Beside.trans {a b c : Hub} (h : Beside a b) (h' : Beside b c) : Beside a c :=
  ⟨h.toCourse.trans h'.toCourse, fun j => (h.spares j).trans (h'.spares j)⟩

theorem Beside.confined {a b : Hub} (h : Beside a b) (k : Nat) : Confined k a b :=
  ⟨h.toCourse, fun j _ => h.spares j⟩

theorem Confined.refl (k : Nat) (h : Hub) : Confined k h h := (Beside.refl h).confined k

theorem Confined.trans {k : Nat} {a b c : Hub} (h : Confined k a b) (h' : Confined k b c) :
    Confined k a c :=
  ⟨h.toCourse.trans h'.toCourse, fun j hj => (h.spares j hj).trans (h'.spares j hj)⟩

/-- What each of many steps keeps beside the sessions, all of them do. -/
theorem Beside.foldl {α : Type} {f : Hub → α → Hub} (hf : ∀ h a, Beside h (f h a)) (as : List α)
    (h : Hub) : Beside h (as.foldl f h) := by
  induction as generalizing h with
  | nil => exact .refl h
  | cons a as ih => exact (hf h a).trans (ih (f h a))

/-! ### Notes and jobs -/

theorem beside_write (h : Hub) (id : StreamId) (note : Note) : Beside h (h.write id note) :=
  .of_eq rfl rfl rfl rfl rfl rfl rfl

theorem beside_writeHeard (h : Hub) (k : Nat) (occasion : Occasion) (label : String)
    (rid : Option Nat) : Beside h (h.writeHeard k occasion label rid) := by
  unfold writeHeard
  split
  · exact .refl h
  · exact beside_write ..

/-- Jobs may be added and woken at any time. -/
theorem Beside.of_jobs {h : Hub} {ready parked more : List Job} (hready : ready = h.ready ++ more)
    (hparked : ∀ job ∈ h.parked, job ∈ parked ∨ job ∈ ready) :
    Beside h { h with ready, parked } :=
  ⟨⟨rfl, fun ht => ht.of_eq rfl rfl rfl, id, List.Sublist.refl _, rfl, ⟨more, hready⟩, hparked,
    fun _ g hg => ⟨g, hg, rfl, rfl⟩, fun _ _ hg _ => hg⟩,
    fun _ => ⟨rfl, fun _ => Iff.rfl, fun _ _ => Iff.rfl⟩⟩

theorem beside_spawn (h : Hub) (job : Job) : Beside h (h.spawn job) :=
  .of_jobs rfl fun _ hjob => Or.inl hjob

theorem beside_wake (h : Hub) (p : Job → Bool) : Beside h (h.wake p) := by
  refine .of_jobs rfl fun job hjob => ?_
  cases hp : p job with
  | true => exact Or.inr (List.mem_append_right _ (List.mem_filter.mpr ⟨hjob, hp⟩))
  | false => exact Or.inl (List.mem_filter.mpr ⟨hjob, by simp [hp]⟩)

/-! ### Exchanges -/

theorem beside_newExchange (h : Hub) (rid : Nat) (secure : Bool) :
    Beside h (h.newExchange rid secure).1 :=
  .of_eq rfl rfl rfl rfl rfl rfl rfl

theorem beside_takeLoose (h : Hub) (key : Nat) : Beside h (h.takeLoose key) :=
  .of_eq rfl rfl rfl rfl rfl rfl rfl

/-- Both sides of an exchange can act without changing how many are held. -/
theorem beside_mapExchange (h : Hub) (key : Nat) (f : Exchange → Exchange) :
    Beside h (h.mapExchange key f) := by
  have hsession : ∀ k, (h.mapExchange key f).session? k =
      (h.session? k).map fun s =>
        { s with held := s.held.map fun x => if x.key == key then f x else x } := fun k => by
    simp [mapExchange, session?]
  have hgist : ∀ k, (h.mapExchange key f).gist? k = h.gist? k := fun k => by
    unfold gist?
    rw [hsession]
    cases h.session? k <;> simp [Session.gist]
  refine ⟨⟨rfl, fun ht => ⟨ht.oneTable, ht.unnamed, ht.tickets, fun s hs => ?_, fun s hs => ?_⟩,
    id, List.Sublist.refl _, ?_, ⟨[], (List.append_nil _).symm⟩, fun _ hjob => Or.inl hjob,
    fun k g hg => ⟨g, (hgist k).trans hg, rfl, rfl⟩, fun k g hg _ => (hgist k).trans hg⟩,
    fun j => ⟨hgist j, fun _ => Iff.rfl, fun _ _ => Iff.rfl⟩⟩
  · obtain ⟨t, ht', rfl⟩ := List.mem_map.mp hs
    exact (ht.sound t ht').map_held _
  · obtain ⟨t, ht', rfl⟩ := List.mem_map.mp hs
    have hstaffed := ht.staffed t ht'
    exact ⟨hstaffed.begun, hstaffed.first⟩
  · simp [mapExchange]

theorem beside_serve (h : Hub) (key : Nat) (f : Exchange → Exchange) :
    Beside h (h.serve key f) := by
  have hmap := beside_mapExchange h key f
  simp only [serve]
  split
  · split
    · exact hmap
    · exact hmap.trans (beside_wake ..)
  · exact hmap

theorem beside_departRequester (h : Hub) (key : Nat) : Beside h (h.departRequester key) :=
  (beside_mapExchange h key _).trans (beside_wake ..)

/-! ### Replacing a session -/

theorem session?_setSession (h : Hub) (k j : Nat) (s : Session Observer) :
    (h.setSession k s).session? j =
      if k = j then (if j < h.sessions.length then some s else none) else h.session? j := by
  simp only [session?, setSession, List.getElem?_set]
  split
  · rename_i hkj
    subst hkj
    rfl
  · rfl

theorem gist?_setSession_of_ne (h : Hub) {k j : Nat} (s : Session Observer) (hj : j ≠ k) :
    (h.setSession k s).gist? j = h.gist? j := by
  simp [gist?, session?_setSession, Ne.symm hj]

theorem session?_setSession_self {h : Hub} {k : Nat} {s : Session Observer}
    (hs : h.session? k = some s) (t : Session Observer) :
    (h.setSession k t).session? k = some t := by
  have hlt : k < h.sessions.length := (List.getElem?_eq_some_iff.mp hs).1
  simp [session?_setSession, hlt]

theorem gist?_setSession_self {h : Hub} {k : Nat} {s : Session Observer}
    (hs : h.session? k = some s) (t : Session Observer) :
    (h.setSession k t).gist? k = some t.gist :=
  gist?_of_session? (session?_setSession_self hs t)

/-- A session may be replaced by one with the same identity, as long as an end stays an end. -/
theorem confined_setSession {h : Hub} {k : Nat} {s t : Session Observer}
    (hs : h.session? k = some s) (hid : t.id = s.id)
    (htimeout : t.terms.inactivityTimeout = s.terms.inactivityTimeout)
    (hfinal : s.closed = true → t.gist = s.gist) (hsound : s.Sound → t.Sound)
    (hstaffed : s.Staffed → t.Staffed) : Confined k h (h.setSession k t) := by
  have hself := gist?_setSession_self hs t
  -- what is known of the place `k` is known of the session that stood there
  have hgs : ∀ g, h.gist? k = some g → s.gist = g := fun g hg => by
    rw [gist?_of_session? hs] at hg
    exact Option.some.inj hg
  refine ⟨⟨rfl, fun ht => ⟨ht.oneTable, ht.unnamed, ht.tickets, fun r hr => ?_, fun r hr => ?_⟩,
    id, List.Sublist.refl _, ?_, ⟨[], (List.append_nil _).symm⟩, fun _ hjob => Or.inl hjob,
    fun j g hg => ?_, fun j g hg hc => ?_⟩,
    fun j hj => ⟨gist?_setSession_of_ne h t hj, fun _ => Iff.rfl, fun _ _ => Iff.rfl⟩⟩
  · rcases List.mem_or_eq_of_mem_set hr with hr | rfl
    · exact ht.sound r hr
    · exact hsound (ht.sound s (mem_sessions hs))
  · rcases List.mem_or_eq_of_mem_set hr with hr | rfl
    · exact ht.staffed r hr
    · exact hstaffed (ht.staffed s (mem_sessions hs))
  · simp [setSession]
  · by_cases hj : j = k
    · subst hj
      refine ⟨t.gist, hself, ?_, ?_⟩ <;> rw [← hgs g hg]
      · exact hid
      · exact htimeout
    · exact ⟨g, (gist?_setSession_of_ne h t hj).trans hg, rfl, rfl⟩
  · -- a session that has ended already is replaced by one that cannot be told from it
    by_cases hj : j = k
    · subst hj
      have heq := hgs g hg
      rw [hself, hfinal (by rw [← heq] at hc; exact hc), heq]
    · exact (gist?_setSession_of_ne h t hj).trans hg

/-- Nobody takes notice of a session being replaced by one with the same gist. -/
theorem beside_setSession {h : Hub} {k : Nat} {s t : Session Observer}
    (hs : h.session? k = some s) (hgist : t.gist = s.gist) (hsound : s.Sound → t.Sound)
    (hstaffed : s.Staffed → t.Staffed) : Beside h (h.setSession k t) := by
  have hconf := confined_setSession hs (congrArg Gist.id hgist) (congrArg Gist.timeout hgist)
    (fun _ => hgist) hsound hstaffed
  refine ⟨hconf.toCourse, fun j => ?_⟩
  by_cases hj : j = k
  · subst hj
    refine ⟨?_, fun _ => Iff.rfl, fun _ _ => Iff.rfl⟩
    rw [gist?_setSession_self hs, hgist, gist?_of_session? hs]
  · exact hconf.spares j hj

end Hub

end HttpBinding
