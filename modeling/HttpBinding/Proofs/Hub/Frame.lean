import HttpBinding.Proofs.Hub.Happenings
import HttpBinding.Proofs.Hub.Registry

/-!
# HttpBinding.Proofs.Hub.Frame

What is done to one session is not noticed by another, even if both have had the same identifier.

The registry and the table of countdowns are keyed by identifiers, and an identifier may be drawn
again once its session is off the registry. So a call on an ended session, a watch that it has left
behind or the job of a countdown that was stopped could reach the session that came after it. None
of them does:

* the record of another session is not touched, because all small steps of a call go to its own
  session (`Steps.session?`);
* its entry and its countdown are spared (`Spares`), because an open session is the only one that is
  registered under its identifier, and an ended one has no steward left;
* the job of a countdown only ever ends the session for which it was started (`Labelled`).
-/

namespace HttpBinding.Hub

/-! ### Moves that are addressed to a session -/

/-- No session other than `a` holds the exchange with a key. -/
def HeldByNoOther (h : Hub) (a key : Nat) : Prop :=
  ∀ j s, j ≠ a → h.session? j = some s → ∀ x ∈ s.held, x.key ≠ key

/-- The job works for the session `a`: it is a watch or a countdown of that session, or it waits for
the answer to an exchange that no other session holds. -/
def WorksFor (h : Hub) (a : Nat) : Job → Prop
  | .watch k _ | .evict _ _ k => k = a
  | .respond _ key _ => h.HeldByNoOther a key

/-- The move is addressed to the session `a`: it is a call on that session or on its identifier,
something that happens to an exchange which no other session holds, or the turn of a job that works
for it. -/
def Addresses (h : Hub) (a : Nat) : Move → Prop
  | .forward _ k _ _ | .enter k _ _ | .deliver k _ | .release k | .close k _
  | .listen k _ _ | .listenSilently k | .unlisten k _ => k = a
  | .push id _ | .closeId id => h.lookup id = some a
  | .exchange key _ | .await _ key _ => h.HeldByNoOther a key
  | .turn i => ∀ job, h.ready[i]? = some job → h.WorksFor a job
  | .connect _ _ | .create _ _ | .shutdown | .pass _ => False

/-- Each move of a run is addressed to the session `a` when its turn comes. -/
def AddressesAll (a : Nat) : Hub → List Move → Prop
  | _, [] => True
  | h, m :: ms => h.Addresses a m ∧ AddressesAll a (h.move m) ms

/-- Nothing about the session `b` has changed: what it holds and buffers, its last poll, whether it
has ended, who observes it, its entry in the registry and its countdown. -/
structure Untouched (b : Nat) (h h' : Hub) : Prop extends Spares b h h' where
  session : h'.session? b = h.session? b

variable {still : List Nat} {h h' h'' : Hub} {a b : Nat} {id : StreamId}

theorem Untouched.refl (b : Nat) (h : Hub) : Untouched b h h := ⟨.refl b h, rfl⟩

theorem Untouched.trans (hu : Untouched b h h') (hu' : Untouched b h' h'') :
    Untouched b h h'' :=
  ⟨hu.toSpares.trans hu'.toSpares, hu'.session.trans hu.session⟩

/-- The small steps of calls on one session leave the records of all others alone. -/
theorem Confined.untouched (hc : Confined a h h') (hs : Steps a id h h') (hb : b ≠ a) :
    Untouched b h h' :=
  ⟨hc.spares b hb, hs.session? hb⟩

theorem Beside.untouched (hb : Beside h h') (hsession : h'.session? b = h.session? b) :
    Untouched b h h' :=
  ⟨hb.spares b, hsession⟩

/-! ### Calls -/

theorem InStep.untouched_deliver (hi : InStep still h) (hb : b ≠ a) (stanza : Stanza) :
    Untouched b h (h.deliver a stanza).1 := by
  obtain ⟨id, hsteps⟩ := hi.steps_deliver a stanza
  refine Confined.untouched ?_ hsteps hb
  cases hs : h.session? a with
  | none =>
      simp only [Hub.deliver, hs]
      exact .refl a h
  | some s => exact (hi.deliver hs stanza).confined

theorem InStep.untouched_release (hi : InStep still h) (hb : b ≠ a) :
    Untouched b h (h.release a).1 := by
  obtain ⟨id, hsteps⟩ := hi.steps_release a
  refine Confined.untouched ?_ hsteps hb
  cases hs : h.session? a with
  | none =>
      simp only [Hub.release, hs]
      exact .refl a h
  | some s => exact (hi.release hs).confined

theorem InStep.untouched_close (hi : InStep still h) (hb : b ≠ a) (shutdown : Bool) :
    Untouched b h (h.close a shutdown) := by
  obtain ⟨id, hsteps⟩ := hi.steps_close a shutdown
  exact (hi.close a shutdown).confined.untouched hsteps hb

/-- The session that admits an exchange is the only one that does. -/
theorem session?_admission {s : Session Observer} (hb : b ≠ a) (x : Exchange) (poll : Bool) :
    (h.admission a s x poll).session? b = h.session? b := by
  show (h.setSession a (s.accept x poll h.now).session).session? b = h.session? b
  simp [session?_setSession, Ne.symm hb]

theorem InStep.untouched_accept (hi : InStep still h) (hb : b ≠ a) (x : Exchange) (poll : Bool) :
    Untouched b h (h.accept a x poll).1 := by
  cases hs : h.session? a with
  | none =>
      simp only [Hub.accept, hs]
      exact .refl b h
  | some s =>
      have hasides := asides_accept (hi.placed hs) hs x poll
      refine ⟨(hi.accept hs x poll).confined.spares b hb, ?_⟩
      exact (hasides.steps.session? hb).trans (session?_admission hb x poll)

theorem session?_mapExchange (h : Hub) (key : Nat) (f : Exchange → Exchange) (b : Nat) :
    (h.mapExchange key f).session? b = (h.session? b).map fun s =>
      { s with held := s.held.map fun x => if x.key == key then f x else x } := by
  simp [mapExchange, Hub.session?]

/-- Whoever acts on an exchange does not touch a session that does not hold it. -/
theorem session?_mapExchange_of_not_held {key : Nat} (f : Exchange → Exchange)
    (hnot : ∀ s, h.session? b = some s → ∀ x ∈ s.held, x.key ≠ key) :
    (h.mapExchange key f).session? b = h.session? b := by
  rw [session?_mapExchange]
  cases hs : h.session? b with
  | none => rfl
  | some s => simp only [Option.map_some, map_of_ne_key (hnot s hs)]

theorem session?_departRequester_of_not_held {key : Nat}
    (hnot : ∀ s, h.session? b = some s → ∀ x ∈ s.held, x.key ≠ key) :
    (h.departRequester key).session? b = h.session? b :=
  session?_mapExchange_of_not_held Exchange.depart hnot

/-- A further request goes to its session, and the exchange that is made for it is not held by any
other. -/
theorem InStep.untouched_forward (hi : InStep still h) (ho : h.Orderly) (hb : b ≠ a) (rid : Nat)
    (secure : Bool) (payload : List Stanza) :
    Untouched b h (h.move (.forward rid a secure payload)) := by
  cases hs : h.session? a with
  | none =>
      have hsame : h.move (.forward rid a secure payload) = h := by simp [Hub.move, hs]
      rw [hsame]
      exact .refl b h
  | some s =>
      have hmove : h.move (.forward rid a secure payload) =
          (h.forward rid a secure payload).1 := by simp [Hub.move, hs]
      obtain ⟨x, hx⟩ : ∃ x, x = Exchange.fresh h.nextExchange rid secure := ⟨_, rfl⟩
      obtain ⟨h₁, hasides, hrest⟩ := hi.forward_parts hs rid secure payload hx
      have hsession : h₁.session? b = h.session? b :=
        (hasides.steps.session? hb).trans (session?_admission hb x _)
      rw [hmove]
      refine ⟨(hi.forward hs rid secure payload).1.confined.spares b hb, ?_⟩
      split at hrest
      · -- it is refused, and its requester leaves
        rw [hrest]
        refine (session?_departRequester_of_not_held fun t ht y hy => ?_).trans hsession
        rw [hsession] at ht
        have hlt := ho.numbered y (mem_exchanges_of_held ht hy)
        have hkey : x.key = h.nextExchange := by
          rw [hx]
          rfl
        omega
      · exact (hrest.1.session? hb).trans hsession

/-! ### Exchanges -/

theorem session?_serve (h : Hub) (key : Nat) (f : Exchange → Exchange) (b : Nat) :
    (h.serve key f).session? b = (h.mapExchange key f).session? b := by
  simp only [serve]
  split
  · split <;> rfl
  · rfl

theorem untouched_actOn {key : Nat} (act : Exchange.Act)
    (hnot : ∀ s, h.session? b = some s → ∀ x ∈ s.held, x.key ≠ key) :
    Untouched b h (h.actOn key act) := by
  refine (beside_actOn h key act).untouched ?_
  have hdeparted := session?_departRequester_of_not_held hnot
  have hserve : (if (h.loose? key).isSome then h.serve key fun x => x.act act else h).session? b =
      h.session? b := by
    split
    · exact (session?_serve ..).trans (session?_mapExchange_of_not_held _ hnot)
    · rfl
  cases act with
  | depart => exact hdeparted
  | take => exact session?_mapExchange_of_not_held _ hnot
  | leave =>
      refine (session?_mapExchange_of_not_held _ fun s hs => ?_).trans hdeparted
      exact hnot s (hdeparted ▸ hs)
  | deliver | close | closeWith | compress | drop => exact hserve

/-! ### Turns -/

theorem untouched_respond (name : String) (key deadline : Nat)
    (hnot : ∀ s, h.session? b = some s → ∀ x ∈ s.held, x.key ≠ key) :
    Untouched b h (h.turn (.respond name key deadline)) := by
  refine (beside_respond h name key deadline).untouched ?_
  have hfinish : ∀ r, (h.finishResponse name key r).session? b = h.session? b := fun _ =>
    session?_departRequester_of_not_held hnot
  simp only [turn]
  split
  · exact hfinish _
  · exact hfinish _
  · split
    · exact hfinish _
    · rfl

/-- The job of a countdown ends the session for which it was started, or it ends none. -/
theorem InStep.untouched_evict (hi : InStep still h) (hl : h.Labelled) (hb : b ≠ a)
    {i t generation : Nat} (hjob : h.ready[i]? = some (.evict t generation a)) :
    Untouched b { h with ready := h.ready.eraseIdx i }
      ({ h with ready := h.ready.eraseIdx i }.turn (.evict t generation a)) := by
  rcases hi.evict_cases hjob with hnone | hwaits | ⟨c, hc, hgen, hconf, id, hsteps⟩
  · rw [hnone]
    exact .refl b _
  · rw [hwaits]
    exact (beside_park _ _).untouched rfl
  · have hmem : .evict t generation a ∈ h.ready ++ h.parked :=
      List.mem_append_left _ (List.mem_of_getElem? hjob)
    have htarget : c.target = a := (hl.labelled t generation a hmem).2 c hc hgen
    rw [htarget] at hconf hsteps
    exact hconf.untouched hsteps hb

/-- The turn of a job that works for the session `a` is noticed by no other. -/
theorem InStep.untouched_turn (hi : InStep still h) (hl : h.Labelled) (hb : b ≠ a) {i : Nat}
    (hworks : ∀ job, h.ready[i]? = some job → h.WorksFor a job) :
    Untouched b h (h.move (.turn i)) := by
  cases hjob : h.ready[i]? with
  | none =>
      rw [move_turn_of_none hjob]
      exact .refl b h
  | some job =>
      have hoff : Untouched b h { h with ready := h.ready.eraseIdx i } := ⟨spares_take h _ b, rfl⟩
      have hworks := hworks job hjob
      rw [move_turn hjob]
      refine hoff.trans ?_
      cases job with
      | respond name key deadline =>
          exact untouched_respond name key deadline fun s hs => hworks b s hb hs
      | evict t generation k =>
          obtain rfl : k = a := hworks
          exact hi.untouched_evict hl hb hjob
      | watch k key =>
          obtain rfl : k = a := hworks
          have htaken := hi.take_of_ne_evict (leaves_eraseIdx hjob) (by simp)
          simp only [turn]
          split
          · exact htaken.untouched_release hb
          · exact (beside_park _ _).untouched rfl

/-! ### Moves and runs -/

/-- **A move is not noticed by sessions to which it is not addressed.** -/
theorem InStep.untouched_move (hi : InStep still h) (ho : h.Orderly) (hl : h.Labelled)
    (hb : b ≠ a) {m : Move} (hm : h.Addresses a m) : Untouched b h (h.move m) := by
  cases m with
  | connect | create | shutdown | pass => exact absurd hm id
  | forward rid k secure payload =>
      obtain rfl : k = a := hm
      exact hi.untouched_forward ho hb rid secure payload
  | enter k key poll =>
      obtain rfl : k = a := hm
      simp only [Hub.move]
      split
      · exact hi.untouched_accept hb _ poll
      · exact .refl b h
  | deliver k stanza =>
      obtain rfl : k = a := hm
      exact hi.untouched_deliver hb stanza
  | release k =>
      obtain rfl : k = a := hm
      exact hi.untouched_release hb
  | close k shutdown =>
      obtain rfl : k = a := hm
      exact hi.untouched_close hb shutdown
  | listen k label actions =>
      obtain rfl : k = a := hm
      refine (beside_addRecorder h k label (by simp)).untouched ?_
      cases hs : h.session? k with
      | none => simp only [addRecorder, hs]
      | some s =>
          simp only [addRecorder, hs]
          exact (session?_setSession ..).trans (if_neg (Ne.symm hb))
  | listenSilently k =>
      obtain rfl : k = a := hm
      simp only [Hub.move]
      split
      · rename_i s hs
        refine (beside_observe hs (by simp)).untouched ?_
        exact (session?_setSession ..).trans (if_neg (Ne.symm hb))
      · exact .refl b h
  | unlisten k label =>
      obtain rfl : k = a := hm
      refine (beside_removeRecorder hi.sane.tidy k label).untouched ?_
      simp only [removeRecorder]
      split
      · exact (session?_setSession ..).trans (if_neg (Ne.symm hb))
      · rfl
  | push id stanza =>
      have hl : h.lookup id = some a := hm
      have hpush : h.move (.push id stanza) = (h.deliver a stanza).1 := by
        simp [Hub.move, Hub.push, hl]
      rw [hpush]
      exact hi.untouched_deliver hb stanza
  | closeId id =>
      have hl : h.lookup id = some a := hm
      have hclose : h.move (.closeId id) = h.close a false := by
        simp [Hub.move, Hub.closeId, closeIdWith, hl]
      rw [hclose]
      exact hi.untouched_close hb false
  | exchange key act => exact untouched_actOn act fun s hs => hm b s hb hs
  | await name key millis => exact (beside_spawn h _).untouched rfl
  | turn i => exact hi.untouched_turn hl hb hm

theorem InStep.untouched_play (hi : InStep still h) (ho : h.Orderly) (hl : h.Labelled)
    (hb : b ≠ a) {ms : List Move} (hms : AddressesAll a h ms) : Untouched b h (h.play ms) := by
  -- each move leaves the hub in step, so the next one is not noticed either
  induction ms generalizing still h with
  | nil => exact .refl b h
  | cons m ms ih =>
      obtain ⟨hm, hrest⟩ := hms
      have hstep := hi.untouched_move ho hl hb hm
      exact hstep.trans (ih (hi.move m).inStep (ho.move hi m) (hl.move hi ho m) hrest)

/-- **Sessions do not disturb one another.** Whatever is done to the session `a` after any run: the
record of another session is the same, it is found under the same identifiers, the same countdowns
run for it, until the same times and with their jobs, and they count for its identifier. This also
goes for an ended session `a` that had the identifier which `b` has now. -/
theorem addressed_moves_leave_others (hr : h.Reachable) {a b : Nat} (hb : b ≠ a) {ms : List Move}
    (hms : AddressesAll a h ms) :
    (h.play ms).session? b = h.session? b ∧
    (∀ id, (h.play ms).lookup id = some b ↔ h.lookup id = some b) ∧
    (∀ c, c.target = b → (c ∈ (h.play ms).running ↔ c ∈ h.running)) ∧
    (∀ deadline, Ticking b deadline (h.play ms) ↔ Ticking b deadline h) ∧
    (∀ c ∈ (h.play ms).running, c.target = b → (h.play ms).HasJob c) ∧
    (∀ s, h.session? b = some s → s.closed = false →
      ((h.play ms).timer registryTimer).isArmed s.id = (h.timer registryTimer).isArmed s.id) := by
  obtain ⟨still, hi⟩ := hr.inStep
  obtain ⟨ho, hl⟩ := hr.orderly
  have hi' := hi.play ms
  have hu := hi.untouched_play ho hl hb hms
  refine ⟨hu.session, fun id => ?_, hu.running, fun _ => hu.ticking_iff, fun c hc ht => ?_,
    fun s hs hopen => ?_⟩
  · rw [hi'.sane.lookup_eq_some_iff, hi.sane.lookup_eq_some_iff]
    exact hu.listed id
  · obtain ⟨g, hg, -⟩ := hi'.sane.real _ (hi'.sane.known c hc)
    exact (hi'.kept c.target g hg).wound c hc rfl
  · rw [hi.isArmed_of_open hs hopen, hi'.isArmed_of_open (hu.session.trans hs) hopen]

/-- A session ends, and another one begins under the same identifier. -/
def succession : Hub :=
  (Script.withService {} {} .recorded fun _ => ⟨"a"⟩).play
    [.connect 1 false, .create {} 0, .close 0 false, .connect 1 false, .create {} 1]

/-- What is left to do to the first of the two: its countdown had a job, and somebody may still have
a handle to it. -/
def leftovers : List Move :=
  [.turn 0, .deliver 0 ⟨"<late/>"⟩, .forward 2 0 false [], .release 0, .close 0 true,
    .exchange 0 .leave]

/-- The second session keeps its entry and its countdown. -/
theorem successor_keeps_countdown :
    (succession.session? 0).map Session.closed = some true ∧
    (succession.session? 0).map Session.id = (succession.session? 1).map Session.id ∧
    succession.lookup ⟨"a"⟩ = some 1 ∧ Ticking 1 1800000 succession ∧
    AddressesAll 0 succession leftovers ∧
    (succession.play leftovers).lookup ⟨"a"⟩ = some 1 ∧
    Ticking 1 1800000 (succession.play leftovers) := by
  have hreachable : succession.Reachable := ⟨_, _, _, _, _, rfl⟩
  have haddressed : AddressesAll 0 succession leftovers := by
    refine ⟨fun job hjob => ?_, rfl, rfl, rfl, rfl, fun j s _ hs x hx => ?_, trivial⟩
    · have hfirst : succession.ready[0]? = some (.evict registryTimer 0 0) := by decide
      rw [hfirst] at hjob
      obtain rfl := Option.some.inj hjob
      rfl
    · -- nothing is held any more
      have hnone : ∀ s ∈ (succession.play (leftovers.take 5)).sessions, s.held = [] := by decide
      rw [hnone s (mem_sessions hs)] at hx
      cases hx
  have hlookup : succession.lookup ⟨"a"⟩ = some 1 := by decide
  have hticking : Ticking 1 1800000 succession :=
    ⟨⟨1, ⟨"a"⟩, 1, 1800000⟩, by decide, rfl, rfl⟩
  obtain ⟨-, hfound, -, htick, -⟩ :=
    addressed_moves_leave_others hreachable (show 1 ≠ 0 by decide) haddressed
  exact ⟨by decide, by decide, hlookup, hticking, haddressed, (hfound _).mpr hlookup,
    (htick _).mpr hticking⟩

end HttpBinding.Hub
