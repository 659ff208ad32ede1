import HttpBinding.Proofs.Hub.Parting
import HttpBinding.Proofs.Hub.Telling

/-!
# HttpBinding.Proofs.Hub.Doings

Moves taken apart into operations on sessions.

A `Happening` is too small for some purposes: what observers are told belongs to the operation that they
are told of. A `Doing` is a whole operation on one session together with all that its observers do when
they hear of it, or the beginning of a session, or something that nobody is told of (`Mute`). Every move
consists of doings (`InStep.doings`). An observer that comes in between has the property `p`.
-/

namespace HttpBinding

/-- What those who observe a session are told of, and who they are. -/
structure Outline where
  id : StreamId
  closed : Bool
  observers : List (Nat × Observer)
  rids : List Nat

def Session.outline (s : Session Observer) : Outline where
  id := s.id
  closed := s.closed
  observers := s.observers
  rids := s.held.map Exchange.rid

/-- The note says neither what a recorder was told nor that a session begins or ends. -/
def Note.isIdle : Note → Bool
  | .created | .closed _ | .heard .. => false
  | _ => true

/-- Who begins to observe a session by the move itself. What observers do when they hear of something
is not counted. -/
def Move.newcomer? : Move → Option Observer
  | .create _ _ => some .steward
  | .listen _ label actions => some (.recorder label actions)
  | .listenSilently _ => some .silent
  | _ => none

namespace Hub

open Relation

variable {p : Observer → Prop} {aloof : Nat → Prop} {k j : Nat} {id : StreamId} {h h' h'' : Hub}
  {s : Session Observer}

/-! ### What nobody is told of -/

/-- Nobody is told anything: the sessions have the outlines that they had, the registry is the same,
and all notes are idle. -/
structure Mute (h h' : Hub) : Prop where
  outlines : h'.sessions.map Session.outline = h.sessions.map Session.outline
  registry : h'.registry = h.registry
  notes : ∃ es, h'.journal = h.journal ++ es ∧ ∀ e ∈ es, e.note.isIdle = true

theorem Mute.of_eq (hsessions : h'.sessions = h.sessions) (hregistry : h'.registry = h.registry)
    (hjournal : h'.journal = h.journal) : Mute h h' :=
  ⟨by rw [hsessions], hregistry, [], by rw [hjournal, List.append_nil], by simp⟩

theorem Mute.refl (h : Hub) : Mute h h := .of_eq rfl rfl rfl

theorem Mute.trans (hm : Mute h h') (hm' : Mute h' h'') : Mute h h'' := by
  obtain ⟨es, hes, hidle⟩ := hm.notes
  obtain ⟨more, hmore, hidle'⟩ := hm'.notes
  refine ⟨hm'.outlines.trans hm.outlines, hm'.registry.trans hm.registry, es ++ more,
    by rw [hmore, hes, List.append_assoc], fun e he => ?_⟩
  rcases List.mem_append.mp he with he | he
  · exact hidle e he
  · exact hidle' e he

theorem mute_write (h : Hub) (id : StreamId) {note : Note} (hidle : note.isIdle = true) :
    Mute h (h.write id note) :=
  ⟨rfl, rfl, _, rfl, by simpa using hidle⟩

theorem Mute.foldl {α : Type} {f : Hub → α → Hub} (hf : ∀ h a, Mute h (f h a)) (as : List α)
    (h : Hub) : Mute h (as.foldl f h) := by
  induction as generalizing h with
  | nil => exact .refl h
  | cons a as ih => exact (hf h a).trans (ih (f h a))

theorem mute_wake (h : Hub) (q : Job → Bool) : Mute h (h.wake q) := .of_eq rfl rfl rfl

theorem mute_setTimer (h : Hub) (t : Nat) (c : Countdowns) : Mute h (h.setTimer t c) :=
  .of_eq rfl rfl rfl

theorem mute_arm (h : Hub) (t j : Nat) : Mute h (h.arm t j) := by
  obtain ⟨timers, ready, parked, heq⟩ := arm_eq h t j
  rw [heq]
  exact .of_eq rfl rfl rfl

/-- An exchange keeps its request number, whatever is done to it. -/
theorem mute_mapExchange (h : Hub) (key : Nat) {f : Exchange → Exchange}
    (hf : ∀ x, (f x).rid = x.rid) : Mute h (h.mapExchange key f) := by
  refine ⟨?_, rfl, [], (List.append_nil _).symm, by simp⟩
  simp only [mapExchange, List.map_map]
  refine List.map_congr_left fun s _ => ?_
  simp only [Function.comp_apply, Session.outline, List.map_map, Outline.mk.injEq, true_and]
  refine List.map_congr_left fun x _ => ?_
  simp only [Function.comp_apply]
  split
  · exact hf x
  · rfl

theorem mute_serve (h : Hub) (key : Nat) {f : Exchange → Exchange} (hf : ∀ x, (f x).rid = x.rid) :
    Mute h (h.serve key f) := by
  have hserved := mute_mapExchange h key hf
  simp only [Hub.serve]
  split
  · split
    · exact hserved
    · exact hserved.trans (mute_wake ..)
  · exact hserved

theorem mute_departRequester (h : Hub) (key : Nat) : Mute h (h.departRequester key) := by
  have hleft : Mute h (h.mapExchange key Exchange.depart) := mute_mapExchange h key fun _ => rfl
  exact hleft.trans (mute_wake ..)

/-- Apart from the session itself, a report is put into effect without anybody noticing. -/
theorem mute_absorb {α : Type} (h : Hub) (k : Nat) (r : Report Observer α) :
    Mute { h.setSession k r.session with loose := h.loose ++ r.released } (h.absorb k r) := by
  have hwoken := Mute.foldl (f := fun b (x : Exchange) => b.wake (Job.awaitsAnswer x.key))
    (fun b x => mute_wake b _) r.released
    { h.setSession k r.session with loose := h.loose ++ r.released }
  unfold absorb
  split
  · exact hwoken.trans (Mute.foldl (fun b stanza => mute_write b r.session.id (by rfl)) _ _)
  · exact hwoken

/-- A report that leaves the session as it was is noticed by nobody, if nobody hears of it. -/
theorem mute_absorb_of_eq {α : Type} (hs : h.session? k = some s) {r : Report Observer α}
    (hsame : r.session = s) : Mute h (h.absorb k r) := by
  have hset : Mute h { h.setSession k r.session with loose := h.loose ++ r.released } := by
    rw [hsame, setSession_self hs]
    exact .of_eq rfl rfl rfl
  exact hset.trans (mute_absorb h k r)

/-! ### Doings -/

/-- The session `s` begins and is announced to the server; nobody observes it yet. -/
def announce (h : Hub) (s : Session Observer) : Hub :=
  { h.addSession s with registry := (s.id, h.sessions.length) :: h.registry }.write s.id .created

/-- One thing that is done to a hub. -/
inductive Doing (p : Observer → Prop) (h : Hub) : Hub → Prop where
  | mute {h' : Hub} (hm : Mute h h') : Doing p h h'
  | born {s : Session Observer} (hfree : ∀ j, (s.id, j) ∉ h.registry) (hheld : s.held = [])
      (hobservers : s.observers = []) (hopen : s.closed = false) : Doing p h (h.announce s)
  | observe {k : Nat} {s : Session Observer} (hs : h.session? k = some s) {o : Observer}
      (ho : p o) : Doing p h (h.setSession k (s.observe o).2)
  | unobserve {k : Nat} {s : Session Observer} (hs : h.session? k = some s) (ticket : Nat) :
    Doing p h (h.setSession k (s.unobserve ticket).2)
  /-- An operation that does not end the session. -/
  | tell {k : Nat} {s : Session Observer} (hp : Placed k s.id h) (hs : h.session? k = some s)
      (hopen : s.closed = false) {α : Type} {r : Report Observer α} (hfits : r.Fits s)
      (hnone : r.failedOver = []) (htallies : Tallies (s.held.map Exchange.rid) r.events
        (r.session.held.map Exchange.rid)) : Doing p h (h.conclude k r)
  | close {k : Nat} {s : Session Observer} (hscene : Scene k s.id h) (hs : h.session? k = some s)
      (hopen : s.closed = false) (shutdown : Bool) : Doing p h (h.close k shutdown)

/-- Any number of doings, one after the other. -/
def Doings (p : Observer → Prop) : Hub → Hub → Prop := ReflTransGen (Doing p)

theorem Doings.refl (h : Hub) : Doings p h h := ReflTransGen.refl

theorem Doings.trans (hd : Doings p h h') (hd' : Doings p h' h'') : Doings p h h'' :=
  ReflTransGen.trans hd hd'

theorem Doing.doings (hd : Doing p h h') : Doings p h h' := .single hd

theorem Mute.doings (hm : Mute h h') : Doings p h h' := (Doing.mute hm).doings

/-- What every doing keeps, all of them do. -/
theorem Doings.keep {P : Hub → Prop} (hP : ∀ {a b}, Doing p a b → P a → P b)
    (hd : Doings p h h') (hh : P h) : P h' := by
  induction hd with
  | refl => exact hh
  | tail _ hstep ih => exact hP hstep ih

/-! ### Operations -/

/-- An operation that does not end its session. -/
theorem doings_conclude {α : Type} (hp : Placed k s.id h) (hs : h.session? k = some s)
    {r : Report Observer α} (hfits : r.Fits s) (hnone : s.closed = false → r.failedOver = [])
    (hsame : s.closed = true → r.session = s) (htallies : Tallies (s.held.map Exchange.rid) r.events
      (r.session.held.map Exchange.rid)) : Doings p h (h.conclude k r) := by
  cases hc : s.closed with
  | false => exact (Doing.tell hp hs hc hfits (hnone hc) htallies).doings
  | true =>
      have hnobody : r.notices = [] := by simp [Report.notices, hfits.silent hc]
      simp only [conclude, hnobody, List.foldl_nil]
      exact (mute_absorb_of_eq hs (hsame hc)).doings

theorem doings_deliver (hp : Placed k id h) (stanza : Stanza) :
    Doings p h (h.deliver k stanza).1 := by
  obtain ⟨s, hs, rfl⟩ := hp.session
  simp only [Hub.deliver, hs]
  exact doings_conclude hp hs (s.fits_deliver stanza) (Stage.failedOver_deliver · stanza)
    (fun hc => by simp [Session.deliver, hc]) (Session.tallies_deliver s stanza)

theorem doings_release (hp : Placed k id h) : Doings p h (h.release k).1 := by
  obtain ⟨s, hs, rfl⟩ := hp.session
  simp only [Hub.release, hs]
  exact doings_conclude hp hs s.fits_release (fun _ => Stage.failedOver_release s)
    (fun hc => by simp [Session.release, hc]) (Session.tallies_release s)

theorem doings_accept (hp : Placed k s.id h) (hs : h.session? k = some s) (x : Exchange)
    (poll : Bool) : Doings p h (h.accept k x poll).1 := by
  have htaken : Mute h (h.takeLoose x.key) := .of_eq rfl rfl rfl
  have hp' : Placed k s.id (h.takeLoose x.key) := hp.of_eq rfl rfl
  have hs' : (h.takeLoose x.key).session? k = some s := hs
  simp only [Hub.accept, hs]
  exact htaken.doings.trans (doings_conclude hp' hs' (s.fits_accept x poll h.now)
    (fun _ => Stage.failedOver_accept s x poll h.now) (fun hc => by simp [Session.accept, hc])
    (Session.tallies_accept s x poll h.now))

/-- The end of a session that may have ended before. -/
theorem doings_close (hs : h.session? k = some s)
    (hscene : s.closed = false → Scene k s.id h) (shutdown : Bool) :
    Doings p h (h.close k shutdown) := by
  cases hc : s.closed with
  | false => exact (Doing.close (hscene hc) hs hc shutdown).doings
  | true =>
      obtain ⟨hsame, hnobody⟩ := s.close_of_closed hc shutdown
      have hclose : h.close k shutdown = h.absorb k (s.close shutdown) := by
        simp only [Hub.close, closeWithin, hs, hnobody, List.foldl_nil]
      rw [hclose]
      exact (mute_absorb_of_eq hs hsame).doings

/-! ### What the server demands -/

theorem doings_push (hs : Scene k id h) (stanza : Stanza) : Doings p h (h.push id stanza).1 := by
  cases hl : h.lookup id with
  | none =>
      simp only [push, hl]
      exact .refl h
  | some j =>
      obtain rfl := hs.sole j (mem_of_lookup hl)
      simp only [push, hl]
      exact doings_deliver hs.toPlaced stanza

theorem doings_closeId (hs : Scene k id h) : Doings p h (h.closeId id).1 := by
  cases hl : h.lookup id with
  | none =>
      simp only [closeId, closeIdWith, hl]
      exact .refl h
  | some j =>
      obtain rfl := hs.sole j (mem_of_lookup hl)
      obtain ⟨s, ht, rfl⟩ := hs.session
      simp only [closeId, closeIdWith, hl]
      exact doings_close ht (fun _ => hs) false

theorem doings_meet (hs : Scene k id h) (d : Demand) :
    Doings p h (h.meet Hub.close id d).1 := by
  cases d with
  | deliver stanza =>
      have hpush : Doings p h (h.push id stanza).1 := doings_push hs stanza
      simp only [Hub.meet]
      split <;> rename_i heq <;> rw [heq] at hpush <;> exact hpush
  | close => exact doings_closeId hs

/-- Whatever the server demands during a call about a session. -/
theorem doings_call (hs : Scene k id h) (c : Call) : Doings p h (h.call id c) := by
  have hcounted : Mute h { h with calls := h.calls + 1 } := .of_eq rfl rfl rfl
  have hscene : Scene k id { h with calls := h.calls + 1 } :=
    ⟨hs.toPlaced.of_eq rfl rfl, hs.sole, hs.oneTable⟩
  refine (List.foldlRecOn (motive := fun b => Doings p h b ∧ Scene k id b) _ _
    ⟨hcounted.doings, hscene⟩ ?_).1
  intro b hb d _
  have hmet : Doings p b (b.meet Hub.close id d).1 := doings_meet hb.2 d
  have hnoted := mute_write (b.meet Hub.close id d).1 id
    (show (Note.demand c d (b.meet Hub.close id d).2).isIdle = true from rfl)
  have hsteps := steps_meet hb.2.toPlaced hb.2.sole d
  exact ⟨(hb.1.trans hmet).trans hnoted.doings,
    ⟨(hsteps.placed hb.2.toPlaced).of_eq rfl rfl, hsteps.sole hb.2.sole,
      (hsteps.scene hb.2).oneTable⟩⟩

/-- The stanzas of a request are passed on to the server. -/
theorem doings_foldl_send (hs : Scene k id h) (payload : List Stanza) :
    Doings p h (payload.foldl
      (fun h stanza => (h.write id (.send stanza)).call id (.send stanza)) h) := by
  refine (List.foldlRecOn (motive := fun b => Doings p h b ∧ Scene k id b) _ _
    ⟨.refl h, hs⟩ ?_).1
  intro b hb stanza _
  have hnoted : Trifle (fun _ => True) k id b (b.write id (.send stanza)) := .note _
  have hscene := hnoted.trifles.scene hb.2
  have hmute := mute_write b id (show (Note.send stanza).isIdle = true from rfl)
  exact ⟨(hb.1.trans hmute.doings).trans (doings_call hscene _),
    (steps_call hscene.toPlaced hscene.sole _).scene hscene⟩

/-! ### The service of the registry -/

section

variable {still : List Nat}

/-- A further request is admitted or refused. -/
theorem InStep.doings_forward (hi : InStep still h) (rid k : Nat) (secure : Bool)
    (payload : List Stanza) : Doings p h (h.move (.forward rid k secure payload)) := by
  cases hs : h.session? k with
  | none =>
      have hsame : h.move (.forward rid k secure payload) = h := by simp [Hub.move, hs]
      rw [hsame]
      exact .refl h
  | some s =>
      have hmove : h.move (.forward rid k secure payload) =
          (h.forward rid k secure payload).1 := by simp [Hub.move, hs]
      obtain ⟨h₁, hh₁⟩ : ∃ h₁, h₁ = (h.newExchange rid secure).1 := ⟨_, rfl⟩
      obtain ⟨x, hx⟩ : ∃ x, x = Exchange.fresh h.nextExchange rid secure := ⟨_, rfl⟩
      have hconnected : Mute h h₁ := by
        rw [hh₁]
        exact .of_eq rfl rfl rfl
      have hs₁ : h₁.session? k = some s := by
        rw [hh₁]
        exact hs
      have hp₁ : Placed k s.id h₁ := by
        rw [hh₁]
        exact (hi.placed hs).of_eq rfl rfl
      obtain ⟨h₂, answer, haccepted⟩ : ∃ h₂ answer, h₁.accept k x payload.isEmpty = (h₂, answer) :=
        ⟨_, _, rfl⟩
      have hadmitted : Doings p h h₂ := by
        have hdoings : Doings p h₁ (h₁.accept k x payload.isEmpty).1 := doings_accept hp₁ hs₁ x _
        rw [haccepted] at hdoings
        exact hconnected.doings.trans hdoings
      have hforward := forward_eq (hi.placed hs) rid secure payload
      rw [← hx, ← hh₁, haccepted] at hforward
      rw [hmove, hforward]
      cases answer with
      | error fault => exact hadmitted.trans (mute_departRequester h₂ h.nextExchange).doings
      | ok _ =>
          have hok : (s.accept x payload.isEmpty h₁.now).answer = .ok () := by
            have hanswer := congrArg Prod.snd haccepted
            simp only [Hub.accept, hs₁] at hanswer
            exact hanswer
          obtain ⟨hopen, -⟩ := Session.loud_of_accept_ok hok
          have hset : Scene k s.id (h₁.admission k s x payload.isEmpty) := by
            refine ⟨(hp₁.setSession (s.fits_accept x payload.isEmpty _).id).of_eq rfl rfl, ?_, ?_⟩
            · rw [hh₁]
              exact hi.sole_of_open hs hopen
            · rw [hh₁]
              exact hi.sane.tidy.oneTable
          have hscene := (asides_accept hp₁ hs₁ x payload.isEmpty).steps.scene hset
          rw [haccepted] at hscene
          have hwatched : Mute h₂ (h₂.spawn (.watch k h.nextExchange)) := .of_eq rfl rfl rfl
          have hscene' : Scene k s.id (h₂.spawn (.watch k h.nextExchange)) :=
            ⟨hscene.toPlaced.of_eq rfl rfl, hscene.sole, hscene.oneTable⟩
          exact (hadmitted.trans hwatched.doings).trans (doings_foldl_send hscene' payload)

/-- A loose exchange is given to a session. -/
theorem InStep.doings_enter (hi : InStep still h) (k key : Nat) (poll : Bool) :
    Doings p h (h.move (.enter k key poll)) := by
  simp only [Hub.move]
  split
  · rename_i x _
    cases hs : h.session? k with
    | none =>
        simp only [Hub.accept, hs]
        exact .refl h
    | some s => exact doings_accept (hi.placed hs) hs x poll
  · exact .refl h

/-- A session begins: it is announced, its steward comes, and its client is answered. -/
theorem InStep.doings_begin (hi : InStep still h) {id : StreamId} (hfree : h.lookup id = none)
    (hsteward : p .steward) (terms : Terms) (key : Nat) : Doings p h (h.begin id terms key) := by
  obtain ⟨s, hs⟩ : ∃ s : Session Observer, s = { id, terms, sink := h.sink } := ⟨_, rfl⟩
  obtain rfl : s.id = id := by rw [hs]
  have hnew : ∀ j, (s.id, j) ∉ h.registry := by
    intro j hj
    rw [hi.sane.lookup_eq_some_iff.mpr hj] at hfree
    cases hfree
  have hborn : Doing p h (h.announce s) := .born hnew (by rw [hs]) (by rw [hs]) (by rw [hs])
  have hscene : Scene h.sessions.length s.id (h.announce s) := by
    refine ⟨⟨?_, hi.sane.tidy.unnamed⟩, fun j hj => ?_, hi.sane.tidy.oneTable⟩
    · simp [announce, session?, addSession, Hub.write]
    · rcases List.mem_cons.mp hj with heq | hj
      · exact congrArg Prod.snd heq
      · exact absurd hj (hnew j)
  obtain ⟨h₁, hh₁⟩ : ∃ h₁, h₁ = (h.announce s).call s.id .created := ⟨_, rfl⟩
  have hcalled : Doings p h h₁ := by
    rw [hh₁]
    exact hborn.doings.trans (doings_call hscene .created)
  have hscene₁ : Scene h.sessions.length s.id h₁ := by
    rw [hh₁]
    exact (steps_call hscene.toPlaced hscene.sole _).scene hscene
  obtain ⟨t, ht, hid⟩ := hscene₁.session
  obtain ⟨h₂, hh₂⟩ : ∃ h₂, h₂ = h₁.setSession h.sessions.length (t.observe .steward).2 := ⟨_, rfl⟩
  have hattended : h₁.addSteward h.sessions.length = h₂ := by simp only [addSteward, ht, hh₂]
  have hobserved : Doings p h₁ h₂ := by
    rw [hh₂]
    exact (Doing.observe ht hsteward).doings
  have hscene₂ : Scene h.sessions.length s.id h₂ := by
    rw [hh₂]
    exact ⟨hscene₁.setSession hid, hscene₁.sole, hscene₁.oneTable⟩
  have hasked : Doings p h₂ (h₂.welcome s key) := by
    have hscene₃ : Scene h.sessions.length s.id (h₂.write s.id (.features s.terms.wait
        s.terms.bound s.terms.language s.terms.secure)) :=
      (Trifle.note (p := fun _ => True) _).trifles.scene hscene₂
    have hnoted : Doings p h₂ (h₂.write s.id (.features s.terms.wait s.terms.bound
        s.terms.language s.terms.secure)) := (mute_write h₂ s.id rfl).doings
    exact (hnoted.trans (doings_call hscene₃ .features)).trans (mute_serve _ key (by simp)).doings
  have hbegin : h.begin s.id terms key =
      (h₂.welcome s key).arm registryTimer h.sessions.length := by
    rw [← hattended, hh₁, hs]
    rfl
  rw [hbegin]
  exact ((hcalled.trans hobserved).trans hasked).trans (mute_arm ..).doings

theorem InStep.doings_create (hi : InStep still h) (hsteward : p .steward) (request : Request)
    (key : Nat) : Doings p h (h.create request key).1 := by
  obtain ⟨h₁, hh₁⟩ : ∃ h₁, h₁ = h.serve key fun x => x.compress h.server.compression := ⟨_, rfl⟩
  have hcompressed : Mute h h₁ := by
    rw [hh₁]
    exact mute_serve h key fun _ => rfl
  have hb : Beside h h₁ := by
    rw [hh₁]
    exact beside_serve ..
  simp only [Hub.create, ← hh₁]
  cases hd : h₁.draw maxDraws h₁.drawn with
  | mk drawn id =>
      have hdrawn : Mute h { h₁ with drawn } := hcompressed.trans (.of_eq rfl rfl rfl)
      cases id with
      | none =>
          exact (hdrawn.trans (mute_serve { h₁ with drawn } key (f := Exchange.drop)
            fun _ => rfl)).doings
      | some id =>
          have hcount : Beside h { h₁ with drawn } := hb.trans (.of_eq rfl rfl rfl rfl rfl rfl rfl)
          have hfree : h₁.lookup id = none := lookup_of_draw hd
          exact hdrawn.doings.trans ((hi.beside hcount).doings_begin hfree hsteward _ key)

theorem InStep.doings_close (hi : InStep still h) (k : Nat) (shutdown : Bool) :
    Doings p h (h.close k shutdown) := by
  cases hs : h.session? k with
  | none =>
      have hsame : h.close k shutdown = h := by simp [Hub.close, closeWithin, hs]
      rw [hsame]
      exact .refl h
  | some s => exact Hub.doings_close hs (hi.scene hs) shutdown

theorem InStep.doings_closeId (hi : InStep still h) (id : StreamId) :
    Doings p h (h.closeId id).1 := by
  cases hl : h.lookup id with
  | none =>
      simp only [Hub.closeId, closeIdWith, hl]
      exact .refl h
  | some k =>
      simp only [Hub.closeId, closeIdWith, hl]
      exact hi.doings_close k false

theorem InStep.doings_deliver (hi : InStep still h) (k : Nat) (stanza : Stanza) :
    Doings p h (h.deliver k stanza).1 := by
  cases hs : h.session? k with
  | none =>
      simp only [Hub.deliver, hs]
      exact .refl h
  | some s => exact Hub.doings_deliver (hi.placed hs) stanza

theorem InStep.doings_push (hi : InStep still h) (id : StreamId) (stanza : Stanza) :
    Doings p h (h.push id stanza).1 := by
  cases hl : h.lookup id with
  | none =>
      simp only [Hub.push, hl]
      exact .refl h
  | some k =>
      simp only [Hub.push, hl]
      exact hi.doings_deliver k stanza

theorem InStep.doings_release (hi : InStep still h) (k : Nat) : Doings p h (h.release k).1 := by
  cases hs : h.session? k with
  | none =>
      simp only [Hub.release, hs]
      exact .refl h
  | some s => exact Hub.doings_release (hi.placed hs)

theorem InStep.doings_shutdown (hi : InStep still h) : Doings p h h.shutdown := by
  have hclosed : InStep still ((h.registry.map Prod.snd).foldl (fun h k => h.close k true) h) ∧
      Doings p h ((h.registry.map Prod.snd).foldl (fun h k => h.close k true) h) := by
    refine List.foldlRecOn (motive := fun b => InStep still b ∧ Doings p h b) _ _ ⟨hi, .refl h⟩ ?_
    intro b hb k _
    exact ⟨(hb.1.close k true).inStep, hb.2.trans (hb.1.doings_close k true)⟩
  exact hclosed.2.trans (mute_setTimer ..).doings

/-! ### Observers that come and go -/

theorem doings_addRecorder (h : Hub) (k : Nat) (label : String) {o : Observer} (ho : p o) :
    Doings p h (h.addRecorder k label o) := by
  cases hs : h.session? k with
  | none =>
      have hsame : h.addRecorder k label o = h := by simp [addRecorder, hs]
      rw [hsame]
      exact .refl h
  | some s =>
      have hobserved : Doings p h (h.setSession k (s.observe o).2) := (Doing.observe hs ho).doings
      have hnamed : Mute (h.setSession k (s.observe o).2) (h.addRecorder k label o) := by
        simp only [addRecorder, hs]
        exact .of_eq rfl rfl rfl
      exact hobserved.trans hnamed.doings

theorem doings_removeRecorder (h : Hub) (k : Nat) (label : String) :
    Doings p h (h.removeRecorder k label).1 := by
  unfold removeRecorder
  split
  · rename_i ticket s _ hs
    exact (Doing.unobserve hs ticket).doings
  · exact .refl h

/-! ### The two sides of an exchange, and jobs -/

theorem rid_take (x : Exchange) : x.take.2.rid = x.rid := by
  unfold Exchange.take
  split <;> rfl

theorem rid_act (x : Exchange) (a : Exchange.Act) : (x.act a).rid = x.rid := by
  cases a with
  | deliver body => exact x.deliver_rid body
  | close => exact x.close_rid
  | closeWith body => exact x.closeWith_rid body
  | take | leave => exact rid_take _
  | compress | drop | depart => rfl

theorem mute_actOn (h : Hub) (key : Nat) (a : Exchange.Act) : Mute h (h.actOn key a) := by
  have hserve : Mute h (if (h.loose? key).isSome then h.serve key fun x => x.act a else h) := by
    split
    · exact mute_serve h key fun x => rid_act x a
    · exact .refl h
  cases a with
  | depart => exact mute_departRequester h key
  | take => exact mute_mapExchange h key rid_take
  | leave => exact (mute_departRequester h key).trans (mute_mapExchange _ key rid_take)
  | deliver | close | closeWith | compress | drop => exact hserve

theorem mute_park (h : Hub) (job : Job) : Mute h (h.park job) := .of_eq rfl rfl rfl

theorem mute_respond (h : Hub) (name : String) (key deadline : Nat) :
    Mute h (h.turn (.respond name key deadline)) := by
  have hfinish : ∀ r, Mute h (h.finishResponse name key r) := fun r =>
    (mute_departRequester h key).trans (mute_write _ _ rfl)
  simp only [turn]
  split
  · exact hfinish _
  · exact hfinish _
  · split
    · exact hfinish _
    · exact mute_park ..

/-- A job takes its turn after it has come off the queue. -/
theorem InStep.doings_turn (hi : InStep still h) {i : Nat} {job : Job}
    (hjob : h.ready[i]? = some job) :
    Doings p h ({ h with ready := h.ready.eraseIdx i }.turn job) := by
  obtain ⟨h₁, hh₁⟩ : ∃ h₁ : Hub, h₁ = { h with ready := h.ready.eraseIdx i } := ⟨_, rfl⟩
  have hoff : Mute h h₁ := by
    rw [hh₁]
    exact .of_eq rfl rfl rfl
  have hl := leaves_eraseIdx hjob
  cases job with
  | respond name key deadline =>
      rw [← hh₁]
      exact (hoff.trans (mute_respond ..)).doings
  | watch k key =>
      have hin : InStep still h₁ := hh₁ ▸ hi.take_of_ne_evict hl (by simp)
      rw [← hh₁]
      simp only [turn]
      split
      · exact hoff.doings.trans (hin.doings_release k)
      · exact (hoff.trans (mute_park ..)).doings
  | evict t generation k =>
      cases hfind : (h.timer t).find? generation with
      | none =>
          rw [hi.turn_eq_of_stopped hl hfind, ← hh₁]
          exact hoff.doings
      | some c =>
          obtain ⟨rfl, hc, rfl⟩ := hi.sane.of_find? hfind
          by_cases hdue : c.deadline ≤ h.now
          · obtain ⟨g, hg, hid⟩ := hi.sane.real _ (hi.sane.known c hc)
            obtain ⟨s, hs, rfl⟩ := session?_of_gist? hg
            obtain ⟨-, -, hturn⟩ := hi.turn_due hc hl hdue hg hh₁ rfl
            have hs₁ : h₁.session? c.target = some s := by
              rw [hh₁]
              exact hs
            have hscene : s.closed = false → Scene c.target s.id h₁ := by
              intro hopen
              rw [hh₁]
              exact ⟨(hi.placed hs).of_eq rfl rfl, hi.sole_of_open hs hopen, hi.sane.tidy.oneTable⟩
            rw [← hh₁, hturn]
            exact (hoff.doings.trans (Hub.doings_close hs₁ hscene false)).trans
              (mute_setTimer ..).doings
          · have hlate : ¬c.deadline ≤ h₁.now := by
              rw [hh₁]
              exact hdue
            have hfind₁ : (h₁.timer registryTimer).find? c.generation = some c := by
              rw [hh₁]
              exact hfind
            rw [← hh₁]
            simp only [turn, hfind₁, hlate, if_false]
            exact (hoff.trans (mute_park ..)).doings

/-! ### Moves -/

/-- **What a move consists of.** -/
theorem InStep.doings (hi : InStep still h) (m : Move) (hp : ∀ o ∈ m.newcomer?, p o) :
    Doings p h (h.move m) := by
  have hsilent : Mute h (h.move m) → Doings p h (h.move m) := Mute.doings
  cases m with
  | connect rid secure => exact hsilent (.of_eq rfl rfl rfl)
  | create request key =>
      simp only [Hub.move]
      split
      · exact hi.doings_create (hp _ rfl) request key
      · exact .refl h
  | forward rid k secure payload => exact hi.doings_forward rid k secure payload
  | push id stanza => exact hi.doings_push id stanza
  | closeId id => exact hi.doings_closeId id
  | shutdown => exact hi.doings_shutdown
  | enter k key poll => exact hi.doings_enter k key poll
  | deliver k stanza => exact hi.doings_deliver k stanza
  | release k => exact hi.doings_release k
  | close k shutdown => exact hi.doings_close k shutdown
  | listen k label actions => exact doings_addRecorder h k label (hp _ rfl)
  | listenSilently k =>
      simp only [Hub.move]
      split
      · rename_i s hs
        exact (Doing.observe hs (hp _ rfl)).doings
      · exact .refl h
  | unlisten k label => exact doings_removeRecorder h k label
  | exchange key a => exact (mute_actOn h key a).doings
  | await name key millis => exact hsilent (.of_eq rfl rfl rfl)
  | turn i =>
      cases hjob : h.ready[i]? with
      | none =>
          rw [move_turn_of_none hjob]
          exact .refl h
      | some job =>
          rw [move_turn hjob]
          exact hi.doings_turn hjob
  | pass millis => exact hsilent (.of_eq rfl rfl rfl)

/-- **What a run consists of.** -/
theorem InStep.doings_play (hi : InStep still h) {ms : List Move}
    (hp : ∀ m ∈ ms, ∀ o ∈ m.newcomer?, p o) : Doings p h (h.play ms) := by
  induction ms generalizing still h with
  | nil => exact .refl h
  | cons m ms ih =>
      have hfirst : Doings p h (h.move m) := hi.doings m (hp m List.mem_cons_self)
      exact hfirst.trans (ih (hi.move m).inStep fun n hn => hp n (List.mem_cons_of_mem m hn))

end

end Hub

end HttpBinding
