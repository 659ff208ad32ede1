import HttpBinding.Proofs.Hub.Moves
import HttpBinding.Proofs.Hub.Orderly

/-!
# HttpBinding.Proofs.Hub.Happenings

Moves taken apart into small things that happen.

A move may be a long call. `Happening` lists the small things that moves consist of: the small steps
of calls about one session, and what happens to exchanges, jobs, countdowns and the clock apart from
them. An invariant that survives each of them survives every move (`InStep.happenings`), so hubs stay
orderly and labelled (`Reachable.orderly`, `Reachable.labelled`).

Two happenings are of interest to a session by themselves: it admits an exchange, or one of its watches
comes off the queue. Sessions can be set aside for which neither happens; a move that concerns none of
these is made of happenings that do not concern them either.
-/

namespace HttpBinding.Hub

open Relation

variable {k : Nat} {id : StreamId} {h h' h'' : Hub} {key : Nat} {aloof : Nat → Prop}

/-- The exchange `x` is given to the session `k`, which is `s` before; nobody has been told. -/
def admission (h : Hub) (k : Nat) (s : Session Observer) (x : Exchange) (poll : Bool) : Hub :=
  { (h.takeLoose x.key).setSession k (s.accept x poll h.now).session with
    loose := (h.takeLoose x.key).loose ++ (s.accept x poll h.now).released }

/-- One small thing that happens to a hub, where the sessions that are `aloof` admit nothing and
none of their watches comes off the queue. -/
inductive Happening (aloof : Nat → Prop) (h : Hub) : Hub → Prop where
  | step {k : Nat} {id : StreamId} {h' : Hub} (hs : Step k id h h') : Happening aloof h h'
  /-- A request comes in. -/
  | connect (rid : Nat) (secure : Bool) : Happening aloof h (h.newExchange rid secure).1
  | draw (drawn : Nat) : Happening aloof h { h with drawn }
  /-- A session begins that holds nothing, and has nobody but its steward. -/
  | begin (id : StreamId) {s : Session Observer} (hs : s.held = [])
      (hobservers : s.observers.map Prod.snd = [.steward]) (journal : List Entry) (calls : Nat) :
      Happening aloof h (h.withNewborn id s journal calls)
  /-- The server half of a loose exchange acts. -/
  | serve {x : Exchange} (hx : x ∈ h.loose) {f : Exchange → Exchange}
      (hf : ∀ y : Exchange, y.Served (f y)) : Happening aloof h (h.mapExchange x.key f)
  | depart (key : Nat) : Happening aloof h (h.departRequester key)
  | take (key : Nat) : Happening aloof h (h.mapExchange key fun x => x.take.2)
  | enter {k : Nat} (hk : ¬aloof k) {s : Session Observer} (hs : h.session? k = some s)
      {x : Exchange} (hx : x ∈ h.loose) (poll : Bool) : Happening aloof h (h.admission k s x poll)
  /-- A job is added that is not the job of a countdown. -/
  | spawn {job : Job} (hjob : ∀ t generation k, job ≠ .evict t generation k) :
    Happening aloof h (h.spawn job)
  /-- A job comes off the queue. -/
  | unqueue {i : Nat} {job : Job} (hjob : h.ready[i]? = some job)
      (haloof : ∀ k key, job = .watch k key → ¬aloof k) :
    Happening aloof h { h with ready := h.ready.eraseIdx i }
  /-- A job has had its turn and goes on to wait; if it watches a requester, that one is there. -/
  | wait {i : Nat} {job : Job} (hjob : h.ready[i]? = some job)
      (hstays : ∀ k key, job = .watch k key → (h.exchange? key).any Exchange.departed = false) :
    Happening aloof h ({ h with ready := h.ready.eraseIdx i }.park job)
  | cancelAll : Happening aloof h (h.setTimer registryTimer (h.timer registryTimer).cancelAll)
  | pass (time : Nat) : Happening aloof h (h.moveTo time)

/-- Any number of happenings, one after the other. -/
def Happenings (aloof : Nat → Prop) : Hub → Hub → Prop := ReflTransGen (Happening aloof)

theorem Happenings.refl (h : Hub) : Happenings aloof h h := ReflTransGen.refl

theorem Happenings.trans (ha : Happenings aloof h h') (hb : Happenings aloof h' h'') :
    Happenings aloof h h'' :=
  ReflTransGen.trans ha hb

theorem Happening.happenings (ha : Happening aloof h h') : Happenings aloof h h' := .single ha

theorem Steps.happenings (hs : Steps k id h h') : Happenings aloof h h' :=
  ReflTransGen.mono (fun _ _ hstep => Happening.step hstep) h h' hs

theorem Asides.happenings (ha : Asides k id h h') : Happenings aloof h h' := ha.steps.happenings

theorem Trifles.happenings {p : String → Prop} (ht : Trifles p k id h h') :
    Happenings aloof h h' :=
  ht.asides.happenings

/-- Jobs may be woken at any time. -/
theorem happenings_wake (h : Hub) (q : Job → Bool) : Happenings aloof h (h.wake q) := by
  have hwoken : Trifle (fun _ => True) 0 default h (h.wake q) := .wake q
  exact hwoken.trifles.happenings

theorem happenings_write (h : Hub) (id : StreamId) (note : Note) :
    Happenings aloof h (h.write id note) := by
  have hnoted : Trifle (fun _ => True) 0 id h (h.write id note) := .note note
  exact hnoted.trifles.happenings

/-- What every happening keeps, all of them do. -/
theorem Happenings.keep {P : Hub → Prop} (hP : ∀ {a b}, Happening aloof a b → P a → P b)
    (ha : Happenings aloof h h') (hh : P h) : P h' := by
  induction ha with
  | refl => exact hh
  | tail _ hstep ih => exact hP hstep ih

/-! ### Exchanges stay in order -/

theorem Orderly.connect (ho : h.Orderly) (rid : Nat) (secure : Bool) :
    Carries h (h.newExchange rid secure).1 := by
  refine ho.enlarge (x := Exchange.fresh h.nextExchange rid secure) rfl
    (Exchange.consistent_fresh ..) ?_ rfl
  show (h.loose ++ [_] ++ h.sessions.flatMap Session.held).Perm _
  rw [List.append_assoc]
  exact List.perm_middle

/-- An exchange occurs once among the loose ones. -/
theorem Orderly.takeLoose_perm (ho : h.Orderly) {x : Exchange} (hx : x ∈ h.loose) :
    ((h.takeLoose x.key).loose ++ [x]).Perm h.loose := by
  have hdistinct : (h.loose.map Exchange.key).Nodup :=
    ((List.sublist_append_left h.loose _).map Exchange.key).nodup ho.distinct
  have hsplit := List.filter_append_perm (fun y : Exchange => y.key == x.key) h.loose
  rw [Stage.filter_key_eq hdistinct hx] at hsplit
  exact List.perm_append_comm.trans hsplit

/-- A session that admits an exchange takes it off the loose ones. -/
theorem Orderly.admission (ho : h.Orderly) {s : Session Observer} (hs : h.session? k = some s)
    {x : Exchange} (hx : x ∈ h.loose) (poll : Bool) : Carries h (h.admission k s x poll) := by
  obtain ⟨before, after, heq, hset⟩ := exchanges_setSession (h := h.takeLoose x.key) hs
  have hkeeps := s.keeps_accept x poll h.now
  have hafter : (h.admission k s x poll).exchanges =
      (h.takeLoose x.key).loose ++ (s.accept x poll h.now).released ++
        (before ++ (s.accept x poll h.now).session.held ++ after) := hset _ _
  have hbefore : h.exchanges = h.loose ++ (before ++ s.held ++ after) := by
    have hflat := List.append_cancel_left heq
    show h.loose ++ h.sessions.flatMap Session.held = _
    rw [← hflat]
    rfl
  have hloose := (ho.takeLoose_perm hx).map Exchange.key
  refine ho.rearrange ?_ ?_ (Nat.le_refl _)
  · rw [hafter, hbefore]
    refine List.perm_iff_count.mpr fun n => ?_
    have hcount := hkeeps.keys.count_eq n
    have hcount' := hloose.count_eq n
    simp only [List.map_append, List.count_append, List.map_cons, List.map_nil] at hcount hcount' ⊢
    omega
  · rw [hafter, hbefore]
    intro y hy
    simp only [List.mem_append] at hy
    have hstays : ∀ y ∈ (s.accept x poll h.now).session.held ++ (s.accept x poll h.now).released,
        ∃ z ∈ h.loose ++ (before ++ s.held ++ after), z.Served y := by
      intro y hy
      obtain ⟨z, hz, hzy⟩ := s.serves_accept x poll h.now y hy
      refine ⟨z, ?_, hzy⟩
      rcases List.mem_append.mp hz with hz | hz
      · simp [hz]
      · obtain rfl := List.mem_singleton.mp hz
        exact List.mem_append_left _ hx
    rcases hy with (hy | hy) | (hy | hy) | hy
    · exact ⟨y, List.mem_append_left _ (List.mem_filter.mp hy).1, .refl y⟩
    · exact hstays y (by simp [hy])
    · exact ⟨y, by simp [hy], .refl y⟩
    · exact hstays y (by simp [hy])
    · exact ⟨y, by simp [hy], .refl y⟩

theorem Orderly.depart (ho : h.Orderly) (key : Nat) : (h.departRequester key).Orderly := by
  have hleft : (h.mapExchange key Exchange.depart).Orderly :=
    ho.mapExchange (fun _ => rfl) fun _ hc => hc.depart
  have hwoken : Carries (h.mapExchange key Exchange.depart) (h.departRequester key) :=
    hleft.of_eq rfl rfl
  exact hwoken.orderly

theorem key_take (x : Exchange) : x.take.2.key = x.key := by
  unfold Exchange.take
  split <;> rfl

/-- Where an exchange is loose, its server half acts on no other. -/
theorem Orderly.serve (ho : h.Orderly) {f : Exchange → Exchange}
    (hf : ∀ y : Exchange, y.Served (f y)) (key : Nat) : Carries h (h.mapExchange key f) := by
  refine ⟨ho.mapExchange (fun x => (hf x).key) fun x => (hf x).consistent, ?_⟩
  intro x hx
  rw [exchanges_mapExchange]
  refine ⟨_, List.mem_map_of_mem hx, ?_⟩
  split
  · exact hf x
  · exact .refl x

theorem exchanges_withNewborn (h : Hub) (id : StreamId) {s : Session Observer}
    (hs : s.held = []) (journal : List Entry) (calls : Nat) :
    (h.withNewborn id s journal calls).exchanges = h.exchanges := by
  simp [exchanges, withNewborn, hs]

theorem Orderly.happening (ho : h.Orderly) (ha : Happening aloof h h') : h'.Orderly := by
  cases ha with
  | step hs => exact (ho.step hs).orderly
  | connect rid secure => exact (ho.connect rid secure).orderly
  | begin id hs _ journal calls =>
      exact (ho.of_eq (exchanges_withNewborn h id hs journal calls) rfl).orderly
  | serve hx hf => exact (ho.serve hf _).orderly
  | depart key => exact ho.depart key
  | take key => exact ho.mapExchange key_take fun _ hc => hc.take
  | enter _ hs hx poll => exact (ho.admission hs hx poll).orderly
  | draw | spawn | unqueue | wait | cancelAll | pass =>
      refine Carries.orderly (h := h) (ho.of_eq ?_ ?_) <;> rfl

theorem Orderly.happenings (ho : h.Orderly) (ha : Happenings aloof h h') : h'.Orderly :=
  ha.keep (fun hstep ho => ho.happening hstep) ho

/-! ### Jobs keep their labels -/

theorem mem_of_mem_park {job next : Job} {rest : List Job} (hrest : ∀ j ∈ rest, j ∈ h.ready)
    (hjob : job ∈ h.ready) (hmem : next ∈ rest ++ (h.parked ++ [job])) :
    next ∈ h.ready ++ h.parked := by
  simp only [List.mem_append, List.mem_singleton] at hmem ⊢
  rcases hmem with hmem | hmem | rfl
  · exact Or.inl (hrest next hmem)
  · exact Or.inr hmem
  · exact Or.inl hjob

theorem Labelled.happening (hl : h.Labelled) (ha : Happening aloof h h') : h'.Labelled := by
  cases ha with
  | step hs => exact hl.step hs
  | connect | draw | begin | serve | take | enter => exact hl.of_jobs rfl fun _ _ _ hjob => hjob
  | depart key =>
      have hleft : (h.mapExchange key Exchange.depart).Labelled :=
        hl.of_jobs rfl fun _ _ _ hjob => hjob
      exact hleft.wake _
  | spawn hjob => exact hl.spawn fun t generation j heq => absurd heq (hjob t generation j)
  | unqueue hjob =>
      refine hl.of_jobs rfl fun _ _ _ hmem => ?_
      rcases List.mem_append.mp hmem with hmem | hmem
      · exact List.mem_append_left _ (List.mem_of_mem_eraseIdx hmem)
      · exact List.mem_append_right _ hmem
  | wait hjob =>
      refine hl.of_jobs rfl fun _ _ _ hmem => ?_
      exact mem_of_mem_park (fun _ => List.mem_of_mem_eraseIdx) (List.mem_of_getElem? hjob) hmem
  | cancelAll =>
      exact hl.setTimer hl.regular.cancelAll (Nat.le_refl _) fun d hd =>
        Or.inl (List.mem_filter.mp hd).1
  | pass time =>
      have hlater : ({ h with now := time } : Hub).Labelled :=
        hl.of_jobs rfl fun _ _ _ hjob => hjob
      exact hlater.wake _

theorem Labelled.happenings (hl : h.Labelled) (ha : Happenings aloof h h') : h'.Labelled :=
  ha.keep (fun hstep hl => hl.happening hstep) hl

/-! ### Calls about one session -/

section

variable {still : List Nat} {s : Session Observer}

theorem InStep.placed (hi : InStep still h) (hs : h.session? k = some s) : Placed k s.id h :=
  .of_session hs hi.sane.tidy.unnamed

/-- Where somebody is registered under an identifier, nobody else is. -/
theorem InStep.sole (hi : InStep still h) (hlisted : (id, k) ∈ h.registry) : Sole k id h :=
  fun _ hj => hi.sane.eq_of_listed hj hlisted

theorem InStep.sole_of_open (hi : InStep still h) (hs : h.session? k = some s)
    (hopen : s.closed = false) : Sole k s.id h :=
  hi.sole ((hi.kept k s.gist (gist?_of_session? hs)).listed.mpr (hi.attended hs hopen))

/-- Open sessions have identifiers of their own. -/
theorem InStep.id_ne (hi : InStep still h) (hs : h.session? k = some s) (hopen : s.closed = false)
    {j : Nat} {t : Session Observer} (ht : h.session? j = some t) (htopen : t.closed = false)
    (hne : j ≠ k) : t.id ≠ s.id := by
  intro heq
  have hkept := hi.kept j t.gist (gist?_of_session? ht)
  have hlisted : (t.id, j) ∈ h.registry := hkept.listed.mpr (hi.attended ht htopen)
  exact hne (hi.sole_of_open hs hopen j (heq ▸ hlisted))

theorem InStep.steps_deliver (hi : InStep still h) (k : Nat) (stanza : Stanza) :
    ∃ id, Steps k id h (h.deliver k stanza).1 := by
  cases hs : h.session? k with
  | none =>
      simp only [Hub.deliver, hs]
      exact ⟨default, .refl h⟩
  | some s => exact ⟨s.id, Hub.steps_deliver (hi.placed hs) stanza⟩

theorem InStep.steps_release (hi : InStep still h) (k : Nat) :
    ∃ id, Steps k id h (h.release k).1 := by
  cases hs : h.session? k with
  | none =>
      simp only [Hub.release, hs]
      exact ⟨default, .refl h⟩
  | some s => exact ⟨s.id, Hub.steps_release (hi.placed hs)⟩

theorem InStep.steps_close (hi : InStep still h) (k : Nat) (shutdown : Bool) :
    ∃ id, Steps k id h (h.close k shutdown) := by
  cases hs : h.session? k with
  | none =>
      have hsame : h.close k shutdown = h := by simp [Hub.close, closeWithin, hs]
      rw [hsame]
      exact ⟨default, .refl h⟩
  | some s =>
      refine ⟨s.id, Hub.steps_close (hi.placed hs) ?_ shutdown⟩
      intro t ht hopen
      rw [hs] at ht
      obtain rfl := Option.some.inj ht
      exact hi.sole_of_open hs hopen

/-- An identifier leads to the session that is registered under it. -/
theorem InStep.placed_of_lookup (hi : InStep still h) (hl : h.lookup id = some k) :
    Placed k id h ∧ Sole k id h := by
  have hlisted := mem_of_lookup hl
  obtain ⟨g, hg, hid⟩ := hi.sane.real _ hlisted
  obtain ⟨s, hs, rfl⟩ := session?_of_gist? hg
  obtain rfl : s.id = id := hid
  exact ⟨hi.placed hs, hi.sole hlisted⟩

theorem InStep.steps_push (hi : InStep still h) (id : StreamId) (stanza : Stanza) :
    ∃ k, Steps k id h (h.push id stanza).1 := by
  cases hl : h.lookup id with
  | none =>
      simp only [Hub.push, hl]
      exact ⟨0, .refl h⟩
  | some k =>
      obtain ⟨hp, hs⟩ := hi.placed_of_lookup hl
      exact ⟨k, Hub.steps_push hp hs stanza⟩

theorem InStep.steps_closeId (hi : InStep still h) (id : StreamId) :
    ∃ k, Steps k id h (h.closeId id).1 := by
  cases hl : h.lookup id with
  | none =>
      simp only [Hub.closeId, closeIdWith, hl]
      exact ⟨0, .refl h⟩
  | some k =>
      obtain ⟨hp, hs⟩ := hi.placed_of_lookup hl
      exact ⟨k, Hub.steps_closeId hp hs⟩

/-- To give an exchange to a session is the admission itself, and asides. -/
theorem asides_accept (hp : Placed k id h) (hs : h.session? k = some s) (x : Exchange)
    (poll : Bool) : Asides k id (h.admission k s x poll) (h.accept k x poll).1 := by
  have hid := hp.id_eq hs
  have htaken : Placed k id (h.takeLoose x.key) := hp.of_eq rfl rfl
  simp only [Hub.accept, hs]
  exact asides_conclude htaken ((s.fits_accept x poll h.now).id.trans hid)

/-- A further request is given to its session. One that was refused is let go of, and for one that was
admitted a watch is started and the server is given the stanzas, under the identifier of the session. -/
theorem forward_eq (hp : Placed k id h) (rid : Nat) (secure : Bool) (payload : List Stanza) :
    h.forward rid k secure payload =
      match (h.newExchange rid secure).1.accept k (Exchange.fresh h.nextExchange rid secure)
          payload.isEmpty with
      | (h₁, .error fault) => (h₁.departRequester h.nextExchange, .error fault)
      | (h₁, .ok _) =>
        (payload.foldl (fun h stanza => (h.write id (.send stanza)).call id (.send stanza))
          (h₁.spawn (.watch k h.nextExchange)), .ok h.nextExchange) := by
  obtain ⟨h₀, hh₀⟩ : ∃ h₀, h₀ = (h.newExchange rid secure).1 := ⟨_, rfl⟩
  obtain ⟨x, hx⟩ : ∃ x, x = Exchange.fresh h.nextExchange rid secure := ⟨_, rfl⟩
  have hpair : h.newExchange rid secure = (h₀, x) := by
    rw [hh₀, hx]
    rfl
  have hkey : x.key = h.nextExchange := by
    rw [hx]
    rfl
  have hp₀ : Placed k id h₀ := by
    rw [hh₀]
    exact hp.of_eq rfl rfl
  obtain ⟨s, hs, rfl⟩ := hp₀.session
  obtain ⟨h₁, answer, haccepted⟩ : ∃ h₁ answer, h₀.accept k x payload.isEmpty = (h₁, answer) :=
    ⟨_, _, rfl⟩
  have hp₁ : Placed k s.id h₁ := by
    have hasides := asides_accept hp₀ hs x payload.isEmpty
    rw [haccepted] at hasides
    exact hasides.placed ((hp₀.setSession (s.fits_accept x payload.isEmpty _).id).of_eq rfl rfl)
  rw [← hx, ← hh₀, haccepted]
  cases answer with
  | error fault => simp only [Hub.forward, hpair, haccepted, hkey]
  | ok _ =>
      have hid : (((h₁.spawn (.watch k h.nextExchange)).session? k).map Session.id).getD default =
          s.id := by
        rw [(hp₁.of_eq rfl rfl : Placed k s.id (h₁.spawn (.watch k h.nextExchange))).there]
        rfl
      simp only [Hub.forward, hpair, haccepted, hkey, hid]

/-- What a further request leads to: the session admits the exchange and its observers hear of it;
then the requester of a request that was refused leaves, and for one that was admitted a watch is
started and the server is given the stanzas. -/
theorem InStep.forward_parts (hi : InStep still h) (hs : h.session? k = some s) (rid : Nat)
    (secure : Bool) (payload : List Stanza) {x : Exchange}
    (hx : x = Exchange.fresh h.nextExchange rid secure) :
    ∃ h₁, Asides k s.id ((h.newExchange rid secure).1.admission k s x payload.isEmpty) h₁ ∧
      match (s.accept x payload.isEmpty h.now).answer with
      | .error fault => h.forward rid k secure payload = (h₁.departRequester x.key, .error fault)
      | .ok _ => Steps k s.id (h₁.spawn (.watch k x.key)) (h.forward rid k secure payload).1 ∧
          (h.forward rid k secure payload).2 = .ok x.key := by
  obtain ⟨h₀, hh₀⟩ : ∃ h₀, h₀ = (h.newExchange rid secure).1 := ⟨_, rfl⟩
  have hkey : x.key = h.nextExchange := by
    rw [hx]
    rfl
  have hs₀ : h₀.session? k = some s := by
    rw [hh₀]
    exact hs
  have hp₀ : Placed k s.id h₀ := by
    rw [hh₀]
    exact (hi.placed hs).of_eq rfl rfl
  have hnow : h₀.now = h.now := by
    rw [hh₀]
    rfl
  have hasides := asides_accept hp₀ hs₀ x payload.isEmpty
  obtain ⟨h₁, answer, haccepted⟩ : ∃ h₁ answer, h₀.accept k x payload.isEmpty = (h₁, answer) :=
    ⟨_, _, rfl⟩
  have hanswer : answer = (s.accept x payload.isEmpty h.now).answer := by
    have heq := congrArg Prod.snd haccepted
    simp only [Hub.accept, hs₀, hnow] at heq
    exact heq.symm
  rw [haccepted, hh₀] at hasides
  have hforward := forward_eq (hi.placed hs) rid secure payload
  rw [← hx, ← hh₀, haccepted] at hforward
  refine ⟨h₁, hasides, ?_⟩
  rw [← hanswer, hforward, hkey]
  cases answer with
  | error fault => rfl
  | ok _ =>
      obtain ⟨hopen, -⟩ := Session.loud_of_accept_ok hanswer.symm
      have hsole : Sole k s.id ((h.newExchange rid secure).1.admission k s x payload.isEmpty) :=
        hi.sole_of_open hs hopen
      have hplaced : Placed k s.id
          ((h.newExchange rid secure).1.admission k s x payload.isEmpty) :=
        ((hh₀ ▸ hp₀ : Placed k s.id (h.newExchange rid secure).1).setSession
          (s.fits_accept x payload.isEmpty _).id).of_eq rfl rfl
      have hplaced₁ : Placed k s.id (h₁.spawn (.watch k h.nextExchange)) :=
        (hasides.placed hplaced).of_eq rfl rfl
      have hsole₁ : Sole k s.id (h₁.spawn (.watch k h.nextExchange)) := hasides.sole hsole
      exact ⟨steps_foldl_send hplaced₁ hsole₁ payload, rfl⟩

/-! ### Moves -/

/-- The session that is given an exchange by a move, or one of whose watches takes its turn. -/
def concerned? (h : Hub) : Move → Option Nat
  | .forward _ k _ _ | .enter k _ _ => some k
  | .turn i =>
    match h.ready[i]? with
    | some (.watch k _) => some k
    | _ => none
  | _ => none

/-- The server half of a loose exchange acts, and its requester is woken if it can learn of it. -/
theorem happenings_serve {x : Exchange} (hx : x ∈ h.loose) {f : Exchange → Exchange}
    (hf : ∀ y : Exchange, y.Served (f y)) : Happenings aloof h (h.serve x.key f) := by
  have hserved : Happenings aloof h (h.mapExchange x.key f) := (Happening.serve hx hf).happenings
  simp only [Hub.serve]
  split
  · split
    · exact hserved
    · exact hserved.trans (happenings_wake ..)
  · exact hserved

theorem mem_of_loose? {x : Exchange} (hx : h.loose? key = some x) : x ∈ h.loose ∧ x.key = key :=
  ⟨List.mem_of_find?_eq_some hx, by simpa using List.find?_some hx⟩

/-- Serving an exchange leaves it where it is, apart from jobs. -/
theorem serve_loose (h : Hub) (key : Nat) (f : Exchange → Exchange) :
    (h.serve key f).loose = (h.mapExchange key f).loose := by
  simp only [serve]
  split
  · split <;> rfl
  · rfl

/-- A new session, from its registration to its countdown. -/
theorem InStep.happenings_begin (hi : InStep still h) (ho : h.Orderly) {id : StreamId}
    (hfree : h.lookup id = none) (terms : Terms) {x : Exchange} (hx : x ∈ h.loose) :
    Happenings aloof h (h.begin id terms x.key) := by
  obtain ⟨s, t, journal, hsid, ht, hbegin⟩ := h.begin_eq id terms x.key
  subst hsid
  obtain ⟨h₁, hh₁⟩ : ∃ h₁, h₁ =
    h.withNewborn s.id (t.observe .steward).2 journal (h.calls + 1) := ⟨_, rfl⟩
  have hborn : Happening aloof h h₁ := by
    rw [hh₁]
    have hobservers : (t.observe .steward).2.observers.map Prod.snd = [.steward] := by
      simp [Session.observe, ht.observers]
    exact .begin s.id (s := (t.observe .steward).2) ht.held hobservers journal (h.calls + 1)
  have hplaced : Placed h.sessions.length s.id h₁ := by
    refine ⟨?_, ?_⟩
    · rw [hh₁, session?_withNewborn]
      exact congrArg some ht.id
    · rw [hh₁]
      exact hi.sane.tidy.unnamed
  have hsole : Sole h.sessions.length s.id h₁ := by
    rw [hh₁]
    intro j hj
    rcases List.mem_cons.mp hj with heq | hj
    · exact congrArg Prod.snd heq
    · have hlookup := hi.sane.lookup_eq_some_iff.mpr hj
      rw [hfree] at hlookup
      cases hlookup
  obtain ⟨h₂, hh₂⟩ : ∃ h₂, h₂ = (h₁.write s.id (.features s.terms.wait s.terms.bound
    s.terms.language s.terms.secure)).call s.id .features := ⟨_, rfl⟩
  have hcalled : Steps h.sessions.length s.id h₁ h₂ := by
    rw [hh₂]
    have hnoted : Steps h.sessions.length s.id h₁ (h₁.write s.id (.features
        s.terms.wait s.terms.bound s.terms.language s.terms.secure)) :=
      (Trifle.note (p := fun _ => True) _).asides.steps
    exact hnoted.trans (steps_call (hnoted.placed hplaced) (hnoted.sole hsole) _)
  have hx₂ : x ∈ h₂.loose := by
    refine (ho.happening hborn).loose_steps hcalled ?_
    rw [hh₁]
    exact hx
  have hwelcome : h₁.welcome s x.key = h₂.serve x.key fun y =>
      ((y.bind s.id).deliver (.creation (h₂.creation s))).2 := by
    rw [hh₂]
    rfl
  rw [hbegin, ← hh₁, hwelcome]
  obtain ⟨h₃, hh₃⟩ : ∃ h₃, h₃ = h₂.serve x.key fun y =>
    ((y.bind s.id).deliver (.creation (h₂.creation s))).2 := ⟨_, rfl⟩
  have hserved : Happenings aloof h₂ h₃ := by
    rw [hh₃]
    exact happenings_serve hx₂
      fun y => (y.served_bind s.id).trans ((y.bind s.id).served_deliver _)
  have harmed : Asides h.sessions.length s.id h₃ (h₃.arm registryTimer h.sessions.length) :=
    Aside.arm.asides
  rw [← hh₃]
  exact ((hborn.happenings.trans hcalled.happenings).trans hserved).trans harmed.happenings

theorem InStep.happenings_create (hi : InStep still h) (ho : h.Orderly) (request : Request)
    {x : Exchange} (hx : x ∈ h.loose) : Happenings aloof h (h.create request x.key).1 := by
  obtain ⟨h₁, hh₁⟩ : ∃ h₁, h₁ = h.serve x.key fun y => y.compress h.server.compression := ⟨_, rfl⟩
  have hcompressed : Happenings aloof h h₁ := by
    rw [hh₁]
    exact happenings_serve hx fun y => y.served_compress _
  have hb : Beside h h₁ := by
    rw [hh₁]
    exact beside_serve ..
  obtain ⟨y, hy, hykey⟩ : ∃ y ∈ h₁.loose, y.key = x.key := by
    rw [hh₁, serve_loose]
    refine ⟨_, List.mem_map_of_mem hx, ?_⟩
    split <;> rfl
  simp only [Hub.create, ← hh₁]
  cases hd : h₁.draw maxDraws h₁.drawn with
  | mk drawn id =>
      have hdrawn : Happenings aloof h { h₁ with drawn } :=
        hcompressed.trans (Happening.draw drawn).happenings
      rw [← hykey]
      cases id with
      | none =>
          exact hdrawn.trans (happenings_serve (h := { h₁ with drawn }) hy
            Exchange.served_drop)
      | some id =>
          have hfree : h₁.lookup id = none := lookup_of_draw hd
          have hcount : Beside h { h₁ with drawn } := hb.trans (.of_eq rfl rfl rfl rfl rfl rfl rfl)
          exact hdrawn.trans ((hi.beside hcount).happenings_begin
            (ho.happenings hdrawn) hfree _ hy)

theorem happenings_actOn (h : Hub) (key : Nat) (a : Exchange.Act) :
    Happenings aloof h (h.actOn key a) := by
  have hserve : (a ≠ .take ∧ a ≠ .depart ∧ a ≠ .leave) → Happenings aloof h
      (if (h.loose? key).isSome then h.serve key fun x => x.act a else h) := by
    intro ha
    cases hx : h.loose? key with
    | none => exact .refl h
    | some x =>
        obtain ⟨hmem, rfl⟩ := mem_of_loose? hx
        exact happenings_serve hmem fun y => y.served_act ha
  cases a with
  | depart => exact (Happening.depart key).happenings
  | take => exact (Happening.take key).happenings
  | leave => exact (Happening.depart key).happenings.trans (Happening.take key).happenings
  | deliver | close | closeWith | compress | drop => exact hserve (by simp)

theorem InStep.happenings_shutdown (hi : InStep still h) : Happenings aloof h h.shutdown := by
  have hclosed : InStep still ((h.registry.map Prod.snd).foldl (fun h k => h.close k true) h) ∧
      Happenings aloof h ((h.registry.map Prod.snd).foldl (fun h k => h.close k true) h) := by
    refine List.foldlRecOn (motive := fun b => InStep still b ∧ Happenings aloof h b) _ _
      ⟨hi, .refl h⟩ ?_
    intro b hb k _
    obtain ⟨id, hsteps⟩ := hb.1.steps_close k true
    exact ⟨(hb.1.close k true).inStep, hb.2.trans hsteps.happenings⟩
  exact hclosed.2.trans Happening.cancelAll.happenings

/-- A table that is put in its own place is only looked at. -/
theorem setTimer_self (hlen : h.timers.length = 1) :
    h.setTimer registryTimer (h.timer registryTimer) =
      h.wake (Job.isStopped registryTimer (h.timer registryTimer)) := by
  obtain ⟨c, hc⟩ := List.length_eq_one_iff.mp hlen
  simp [setTimer, timer, registryTimer, hc, wake]

/-- In its turn the job of a countdown does nothing, or goes back to wait, or ends the session of its
countdown. -/
theorem InStep.evict_cases (hi : InStep still h) {i t generation : Nat}
    (hjob : h.ready[i]? = some (.evict t generation k)) :
    { h with ready := h.ready.eraseIdx i }.turn (.evict t generation k) =
        { h with ready := h.ready.eraseIdx i } ∨
    { h with ready := h.ready.eraseIdx i }.turn (.evict t generation k) =
        { h with ready := h.ready.eraseIdx i }.park (.evict t generation k) ∨
    ∃ c ∈ h.running, c.generation = generation ∧
      Confined c.target { h with ready := h.ready.eraseIdx i }
        ({ h with ready := h.ready.eraseIdx i }.turn (.evict t generation k)) ∧
      ∃ id, Steps c.target id { h with ready := h.ready.eraseIdx i }
        ({ h with ready := h.ready.eraseIdx i }.turn (.evict t generation k)) := by
  obtain ⟨h₁, hh₁⟩ : ∃ h₁ : Hub, h₁ = { h with ready := h.ready.eraseIdx i } := ⟨_, rfl⟩
  have hl := leaves_eraseIdx hjob
  cases hfind : (h.timer t).find? generation with
  | none => exact Or.inl (hi.turn_eq_of_stopped hl hfind)
  | some c =>
      obtain ⟨rfl, hc, rfl⟩ := hi.sane.of_find? hfind
      refine Or.inr ?_
      by_cases hdue : c.deadline ≤ h.now
      · obtain ⟨g, hg, hid⟩ := hi.sane.real _ (hi.sane.known c hc)
        obtain ⟨s, hs, rfl⟩ := session?_of_gist? hg
        have hid : s.id = c.id := hid
        obtain ⟨hin, -, hturn⟩ := hi.turn_due hc hl hdue hg hh₁ rfl
        have hsole : Sole c.target s.id h₁ := by
          rw [hh₁, hid]
          exact hi.sole (hi.sane.known c hc)
        have hplaced : Placed c.target s.id h₁ := by
          rw [hh₁]
          exact (hi.placed hs).of_eq rfl rfl
        have hclosed := Hub.steps_close hplaced (fun _ _ _ => hsole) false
        refine Or.inr ⟨c, hc, rfl, (hi.turn_ends hc hl hdue).2.1, s.id, ?_⟩
        rw [← hh₁, hturn, setTimer_self hin.sane.tidy.oneTable]
        exact hclosed.trans (Trifle.wake (p := fun _ => True) _).asides.steps
      · refine Or.inl ?_
        have hsame : ({ h with ready := h.ready.eraseIdx i } : Hub).timer registryTimer =
          h.timer registryTimer := rfl
        simp only [turn, hsame, hfind, hdue, if_false]

/-- A job takes its turn; if it is a watch, then not one for a session that is aloof. -/
theorem InStep.happenings_turn (hi : InStep still h) {i : Nat} {job : Job}
    (hjob : h.ready[i]? = some job) (haloof : ∀ k key, job = .watch k key → ¬aloof k) :
    Happenings aloof h ({ h with ready := h.ready.eraseIdx i }.turn job) := by
  obtain ⟨h₁, hh₁⟩ : ∃ h₁ : Hub, h₁ = { h with ready := h.ready.eraseIdx i } := ⟨_, rfl⟩
  have hoff : Happenings aloof h h₁ := by
    rw [hh₁]
    exact (Happening.unqueue hjob haloof).happenings
  have hwait : (∀ k key, job = .watch k key → (h.exchange? key).any Exchange.departed = false) →
      Happenings aloof h (h₁.park job) := by
    intro hstays
    rw [hh₁]
    exact (Happening.wait hjob hstays).happenings
  have hl := leaves_eraseIdx hjob
  cases job with
  | watch k key =>
      have hin : InStep still h₁ := hh₁ ▸ hi.take_of_ne_evict hl (by simp)
      cases hgone : (h.exchange? key).any Exchange.departed with
      | false =>
          rw [turn_watch_of_stays hgone, ← hh₁]
          refine hwait ?_
          intro j other heq
          obtain ⟨rfl, rfl⟩ : k = j ∧ key = other := by simpa using heq
          exact hgone
      | true =>
          obtain ⟨id, hsteps⟩ := hin.steps_release k
          rw [turn_watch_of_departed hgone, ← hh₁]
          exact hoff.trans hsteps.happenings
  | respond name key deadline =>
      rw [← hh₁]
      have hfinish : ∀ r, Happenings aloof h (h₁.finishResponse name key r) := by
        intro r
        exact hoff.trans ((Happening.depart key).happenings.trans (happenings_write ..))
      simp only [turn]
      split
      · exact hfinish _
      · exact hfinish _
      · split
        · exact hfinish _
        · exact hwait (by simp)
  | evict t generation k =>
      rcases hi.evict_cases hjob with hnone | hwaits | ⟨c, -, -, -, id, hsteps⟩
      · rw [hnone, ← hh₁]
        exact hoff
      · rw [hwaits, ← hh₁]
        exact hwait (by simp)
      · rw [hh₁] at hoff
        exact hoff.trans hsteps.happenings

/-- A further request comes in, and is admitted or refused. -/
theorem InStep.happenings_forward (hi : InStep still h) (hk : ¬aloof k) (rid : Nat) (secure : Bool)
    (payload : List Stanza) : Happenings aloof h (h.move (.forward rid k secure payload)) := by
  cases hs : h.session? k with
  | none =>
      have hsame : h.move (.forward rid k secure payload) = h := by simp [Hub.move, hs]
      rw [hsame]
      exact .refl h
  | some s =>
      have hmove : h.move (.forward rid k secure payload) =
          (h.forward rid k secure payload).1 := by simp [Hub.move, hs]
      obtain ⟨x, hx⟩ : ∃ x, x = Exchange.fresh h.nextExchange rid secure := ⟨_, rfl⟩
      obtain ⟨h₁, hasides, hrest⟩ := hi.forward_parts hs rid secure payload hx
      have hin : x ∈ (h.newExchange rid secure).1.loose := by
        rw [hx]
        exact List.mem_append_right _ (List.mem_singleton_self _)
      have hadmitted : Happenings aloof h h₁ :=
        ((Happening.connect rid secure).happenings.trans
          (Happening.enter hk (h := (h.newExchange rid secure).1) hs hin _).happenings).trans
          hasides.happenings
      rw [hmove]
      split at hrest
      · rw [hrest]
        exact hadmitted.trans (Happening.depart x.key).happenings
      · exact (hadmitted.trans (Happening.spawn (by simp)).happenings).trans hrest.1.happenings

/-- A loose exchange is given to a session. -/
theorem InStep.happenings_enter (hi : InStep still h) (hk : ¬aloof k) (key : Nat) (poll : Bool) :
    Happenings aloof h (h.move (.enter k key poll)) := by
  cases hx : h.loose? key with
  | none =>
      have hsame : h.move (.enter k key poll) = h := by simp [Hub.move, hx]
      rw [hsame]
      exact .refl h
  | some x =>
      obtain ⟨hmem, rfl⟩ := mem_of_loose? hx
      have hmove : h.move (.enter k x.key poll) = (h.accept k x poll).1 := by simp [Hub.move, hx]
      rw [hmove]
      cases hs : h.session? k with
      | none =>
          simp only [Hub.accept, hs]
          exact .refl h
      | some s =>
          exact (Happening.enter hk hs hmem poll).happenings.trans
            (asides_accept (hi.placed hs) hs x poll).happenings

theorem InStep.happenings_addRecorder (hi : InStep still h) (k : Nat) (label : String)
    {o : Observer} (ho : o ≠ .steward) : Happenings aloof h (h.addRecorder k label o) := by
  cases hs : h.session? k with
  | none =>
      have hsame : h.addRecorder k label o = h := by simp [addRecorder, hs]
      rw [hsame]
      exact .refl h
  | some s =>
      have hlistens : Trifles (fun _ => True) k s.id h (h.addRecorder k label o) :=
        trifles_addRecorder (hi.placed hs) trivial ho
      exact hlistens.happenings

theorem happenings_listenSilently (h : Hub) (k : Nat) :
    Happenings aloof h (h.move (.listenSilently k)) := by
  cases hs : h.session? k with
  | none =>
      have hsame : h.move (.listenSilently k) = h := by simp [Hub.move, hs]
      rw [hsame]
      exact .refl h
  | some s =>
      have hmove : h.move (.listenSilently k) = h.setSession k (s.observe .silent).2 := by
        simp [Hub.move, hs]
      rw [hmove]
      have hlistens : Trifle (fun _ => True) k s.id h (h.setSession k (s.observe .silent).2) :=
        .observe hs (by simp)
      exact hlistens.trifles.happenings

/-- **What a move consists of.** -/
theorem InStep.happenings (hi : InStep still h) (ho : h.Orderly) (m : Move)
    (haloof : ∀ k, h.concerned? m = some k → ¬aloof k) : Happenings aloof h (h.move m) := by
  cases m with
  | connect rid secure => exact (Happening.connect rid secure).happenings
  | create request key =>
      cases hx : h.loose? key with
      | none =>
          have hsame : h.move (.create request key) = h := by simp [Hub.move, hx]
          rw [hsame]
          exact .refl h
      | some x =>
          obtain ⟨hmem, rfl⟩ := mem_of_loose? hx
          have hmove : h.move (.create request x.key) = (h.create request x.key).1 := by
            simp [Hub.move, hx]
          rw [hmove]
          exact hi.happenings_create ho request hmem
  | forward rid k secure payload =>
      exact hi.happenings_forward (haloof k rfl) rid secure payload
  | push id stanza => exact (hi.steps_push id stanza).elim fun _ hsteps => hsteps.happenings
  | closeId id => exact (hi.steps_closeId id).elim fun _ hsteps => hsteps.happenings
  | shutdown => exact hi.happenings_shutdown
  | enter k key poll =>
      exact hi.happenings_enter (haloof k rfl) key poll
  | deliver k stanza => exact (hi.steps_deliver k stanza).elim fun _ hsteps => hsteps.happenings
  | release k => exact (hi.steps_release k).elim fun _ hsteps => hsteps.happenings
  | close k shutdown => exact (hi.steps_close k shutdown).elim fun _ hsteps => hsteps.happenings
  | listen k label actions => exact hi.happenings_addRecorder k label (by simp)
  | listenSilently k => exact happenings_listenSilently h k
  | unlisten k label =>
      have hremoved : Trifles (fun _ => True) k default h (h.removeRecorder k label).1 :=
        trifles_removeRecorder h k default label
      exact hremoved.happenings
  | exchange key a => exact happenings_actOn h key a
  | await name key millis => exact (Happening.spawn (by simp)).happenings
  | turn i =>
      cases hjob : h.ready[i]? with
      | none =>
          rw [move_turn_of_none hjob]
          exact .refl h
      | some job =>
          rw [move_turn hjob]
          refine hi.happenings_turn hjob ?_
          rintro k key rfl
          exact haloof k (by simp [concerned?, hjob])
  | pass millis => exact (Happening.pass _).happenings

/-! ### Runs -/

/-- The happenings of a move where no session is set aside. -/
theorem InStep.pieces (hi : InStep still h) (ho : h.Orderly) (m : Move) :
    Happenings (fun _ => False) h (h.move m) :=
  hi.happenings ho m fun _ _ => id

theorem Orderly.move (ho : h.Orderly) (hi : InStep still h) (m : Move) : (h.move m).Orderly :=
  ho.happenings (hi.pieces ho m)

theorem Labelled.move (hl : h.Labelled) (hi : InStep still h) (ho : h.Orderly) (m : Move) :
    (h.move m).Labelled :=
  hl.happenings (hi.pieces ho m)

theorem orderly_start (settings : Settings) (server : Server) (sink : Sink)
    (ids : Nat → StreamId) : (Script.withService settings server sink ids).Orderly :=
  ⟨by simp [exchanges, Script.withService], by simp [exchanges, Script.withService],
    by simp [exchanges, Script.withService]⟩

theorem labelled_start (settings : Settings) (server : Server) (sink : Sink)
    (ids : Nat → StreamId) : (Script.withService settings server sink ids).Labelled :=
  ⟨rfl, Countdowns.regular_empty, by simp [Script.withService]⟩

/-- After every run the exchanges are in order, and so are the labels of the jobs. -/
theorem InStep.orderly_play (hi : InStep still h) (ho : h.Orderly) (hl : h.Labelled)
    (ms : List Move) : (h.play ms).Orderly ∧ (h.play ms).Labelled := by
  induction ms generalizing still h with
  | nil => exact ⟨ho, hl⟩
  | cons m ms ih => exact ih (hi.move m).inStep (ho.move hi m) (hl.move hi ho m)

theorem Reachable.orderly (hr : h.Reachable) : h.Orderly ∧ h.Labelled := by
  obtain ⟨settings, server, sink, ids, ms, rfl⟩ := hr
  exact (inStep_start settings server sink ids).orderly_play (orderly_start ..)
    (labelled_start ..) ms

end

end HttpBinding.Hub
