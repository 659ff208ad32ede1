import Mathlib.Logic.Relation
import HttpBinding.Proofs.Hub.Service
import HttpBinding.Proofs.Session.Serving

/-!
# HttpBinding.Proofs.Hub.Steps

The small steps that calls about one session are made of.

Whatever is done to a session through the hub comes down to steps of two kinds. An `Operates` step
replaces the session by what an operation has made of it, and puts the exchanges that it let go with
the loose ones. Everything else is an `Aside`: a note, a job that is woken, an observer that comes or
goes, the steward at work, a request that is turned away. Asides leave alone what the session holds,
and neither kind touches another session. All asides but the start of a countdown are `Trifle`s, and
after the operation itself the end of a session consists of trifles only.

Each call is taken apart once (`steps_deliver`, `steps_release`, `steps_close`, `steps_call`); what
holds of the steps holds of the calls, however many observers and demands there are in them.
-/

namespace HttpBinding

open Relation

/-! ### Steps -/

/-- An operation other than an admission has made `s'` of the session `s`, and let go of
exchanges. -/
structure Session.Operates {ο : Type} (s s' : Session ο) (released : List Exchange) : Prop where
  id : s'.id = s.id
  terms : s'.terms = s.terms
  sink : s'.sink = s.sink
  lastPoll : s'.lastPoll = s.lastPoll
  /-- An ended session stays as it is. -/
  final : s.closed = true → s' = s
  observers : s'.observers.Sublist s.observers
  /-- Those who stay keep their places. -/
  held : s'.held.Sublist s.held
  keys : ((s'.held ++ released).map Exchange.key).Perm (s.held.map Exchange.key)
  serves : ∀ y ∈ s'.held ++ released, ∃ x ∈ s.held, x.Served y
  parts : ∀ y ∈ released, ∃ x ∈ s.held, s'.Parts x y

namespace Hub

/-- A small step in a call about the session `k`, which has the identifier `id`, that leaves alone
what the session holds and starts no countdown. Only labels of recorders with the property `p` get a
meaning. -/
inductive Trifle (p : String → Prop) (k : Nat) (id : StreamId) (h : Hub) : Hub → Prop where
  | note (note : Note) : Trifle p k id h (h.write id note)
  /-- The server is called. -/
  | count : Trifle p k id h { h with calls := h.calls + 1 }
  | label {label : String} (hmine : p label) (ticket : Nat) :
    Trifle p k id h
      { h with names := { h.names with recorders := (label, ticket) :: h.names.recorders } }
  | observe {s : Session Observer} (hs : h.session? k = some s) {o : Observer}
      (ho : o ≠ .steward) : Trifle p k id h (h.setSession k (s.observe o).2)
  | unobserve {s : Session Observer} (hs : h.session? k = some s) (ticket : Nat) :
    Trifle p k id h (h.setSession k (s.unobserve ticket).2)
  | wake (q : Job → Bool) : Trifle p k id h (h.wake q)
  | cancel : Trifle p k id h (h.cancel registryTimer k)
  | unregister : Trifle p k id h (h.unregister id k)
  /-- A request comes in whose requester has gone, and is turned away. -/
  | visit (rid : Nat) (turnedAway : Bool) :
    Trifle p k id h
      { (h.newExchange rid true).1.takeLoose h.nextExchange with
        loose := ((h.newExchange rid true).1.takeLoose h.nextExchange).loose ++
          if turnedAway then [(Exchange.fresh h.nextExchange rid true).depart.drop] else [] }

/-- A small step in a call about the session `k`, which has the identifier `id`, that leaves alone
what the session holds. -/
inductive Aside (k : Nat) (id : StreamId) (h : Hub) : Hub → Prop where
  | trifle {p : String → Prop} {h' : Hub} (ht : Trifle p k id h h') : Aside k id h h'
  | arm : Aside k id h (h.arm registryTimer k)

/-- A small step in a call about the session `k`, which has the identifier `id`. -/
inductive Step (k : Nat) (id : StreamId) (h : Hub) : Hub → Prop where
  | aside {h' : Hub} (ha : Aside k id h h') : Step k id h h'
  | operate {s s' : Session Observer} {released : List Exchange} (hs : h.session? k = some s)
      (hop : s.Operates s' released) :
    Step k id h { h.setSession k s' with loose := h.loose ++ released }

/-- Any number of trifles, one after the other. -/
def Trifles (p : String → Prop) (k : Nat) (id : StreamId) : Hub → Hub → Prop :=
  ReflTransGen (Trifle p k id)

/-- Any number of asides, one after the other. -/
def Asides (k : Nat) (id : StreamId) : Hub → Hub → Prop := ReflTransGen (Aside k id)

/-- Any number of small steps, one after the other. -/
def Steps (k : Nat) (id : StreamId) : Hub → Hub → Prop := ReflTransGen (Step k id)

/-- The session `k` is there with the identifier `id`, and no session has a name. -/
structure Placed (k : Nat) (id : StreamId) (h : Hub) : Prop where
  there : (h.session? k).map Session.id = some id
  unnamed : h.names.sessions = []

/-- Nobody but the session `k` is registered under `id`. -/
def Sole (k : Nat) (id : StreamId) (h : Hub) : Prop := ∀ j, (id, j) ∈ h.registry → j = k

variable {p : String → Prop} {k : Nat} {id : StreamId} {h h' h'' : Hub}

theorem Trifle.trifles (ht : Trifle p k id h h') : Trifles p k id h h' := .single ht

theorem Trifles.refl (h : Hub) : Trifles p k id h h := ReflTransGen.refl

theorem Trifles.trans (ht : Trifles p k id h h') (ht' : Trifles p k id h' h'') :
    Trifles p k id h h'' :=
  ReflTransGen.trans ht ht'

theorem Trifles.asides (ht : Trifles p k id h h') : Asides k id h h' :=
  ReflTransGen.mono (fun _ _ hstep => Aside.trifle hstep) h h' ht

theorem Trifle.asides (ht : Trifle p k id h h') : Asides k id h h' := ht.trifles.asides

theorem Aside.asides (ha : Aside k id h h') : Asides k id h h' := .single ha

theorem Asides.refl (h : Hub) : Asides k id h h := ReflTransGen.refl

theorem Asides.trans (ha : Asides k id h h') (ha' : Asides k id h' h'') : Asides k id h h'' :=
  ReflTransGen.trans ha ha'

theorem Steps.refl (h : Hub) : Steps k id h h := ReflTransGen.refl

theorem Steps.trans (ha : Steps k id h h') (ha' : Steps k id h' h'') : Steps k id h h'' :=
  ReflTransGen.trans ha ha'

theorem Asides.steps (ha : Asides k id h h') : Steps k id h h' :=
  ReflTransGen.mono (fun _ _ hstep => Step.aside hstep) h h' ha

theorem Step.steps (hs : Step k id h h') : Steps k id h h' := .single hs

/-! ### What steps do not change -/

/-- To start a countdown concerns countdowns and jobs only. -/
theorem arm_eq (h : Hub) (t j : Nat) :
    ∃ timers ready parked, h.arm t j = { h with timers, ready, parked } := by
  simp only [arm]
  split
  · exact ⟨_, _, _, rfl⟩
  · split <;> exact ⟨_, _, _, rfl⟩

/-- To stop a countdown concerns countdowns and jobs only. -/
theorem cancel_eq (h : Hub) (t j : Nat) :
    ∃ timers ready parked, h.cancel t j = { h with timers, ready, parked } := by
  simp only [cancel]
  split <;> exact ⟨_, _, _, rfl⟩

theorem Placed.of_eq (hp : Placed k id h) (hsessions : h'.sessions = h.sessions)
    (hnames : h'.names.sessions = h.names.sessions) : Placed k id h' := by
  refine ⟨?_, hnames.trans hp.unnamed⟩
  rw [session?, hsessions]
  exact hp.there

theorem Placed.session (hp : Placed k id h) : ∃ s, h.session? k = some s ∧ s.id = id := by
  simpa using hp.there

theorem Placed.of_session {s : Session Observer} (hs : h.session? k = some s)
    (hunnamed : h.names.sessions = []) : Placed k s.id h :=
  ⟨by simp [hs], hunnamed⟩

theorem Placed.setSession (hp : Placed k id h) {s : Session Observer} (hid : s.id = id) :
    Placed k id (h.setSession k s) := by
  obtain ⟨t, ht, -⟩ := hp.session
  exact ⟨by simp [session?_setSession_self ht, hid], hp.unnamed⟩

/-- The session that is looked up is the one that is placed. -/
theorem Placed.id_eq (hp : Placed k id h) {s : Session Observer} (hs : h.session? k = some s) :
    s.id = id := by
  obtain ⟨t, ht, hid⟩ := hp.session
  rw [hs] at ht
  obtain rfl := Option.some.inj ht
  exact hid

theorem Trifle.placed (ht : Trifle p k id h h') (hp : Placed k id h) : Placed k id h' := by
  cases ht with
  | note | count | label | wake | unregister | visit => exact hp.of_eq rfl rfl
  | observe hs ho =>
      have hid := hp.id_eq hs
      exact hp.setSession hid
  | unobserve hs ticket =>
      have hid := hp.id_eq hs
      exact hp.setSession hid
  | cancel =>
      obtain ⟨timers, ready, parked, heq⟩ := cancel_eq h registryTimer k
      rw [heq]
      exact hp.of_eq rfl rfl

theorem Aside.placed (ha : Aside k id h h') (hp : Placed k id h) : Placed k id h' := by
  cases ha with
  | trifle ht => exact ht.placed hp
  | arm =>
      obtain ⟨timers, ready, parked, heq⟩ := arm_eq h registryTimer k
      rw [heq]
      exact hp.of_eq rfl rfl

theorem Step.placed (hs : Step k id h h') (hp : Placed k id h) : Placed k id h' := by
  cases hs with
  | aside ha => exact ha.placed hp
  | operate hs hop => exact (hp.setSession (hop.id.trans (hp.id_eq hs))).of_eq rfl rfl

/-- What every trifle keeps, all of them do. -/
theorem Trifles.keep {P : Hub → Prop} (hP : ∀ {a b}, Trifle p k id a b → P a → P b)
    (ht : Trifles p k id h h') (hh : P h) : P h' := by
  induction ht with
  | refl => exact hh
  | tail _ hstep ih => exact hP hstep ih

/-- What every aside keeps, all of them do. -/
theorem Asides.keep {P : Hub → Prop} (hP : ∀ {a b}, Aside k id a b → P a → P b)
    (ha : Asides k id h h') (hh : P h) : P h' := by
  induction ha with
  | refl => exact hh
  | tail _ hstep ih => exact hP hstep ih

/-- What every small step keeps, all of them do. -/
theorem Steps.keep {P : Hub → Prop} (hP : ∀ {a b}, Step k id a b → P a → P b)
    (hs : Steps k id h h') (hh : P h) : P h' := by
  induction hs with
  | refl => exact hh
  | tail _ hstep ih => exact hP hstep ih

theorem Trifles.placed (ht : Trifles p k id h h') (hp : Placed k id h) : Placed k id h' :=
  ht.keep Trifle.placed hp

theorem Asides.placed (ha : Asides k id h h') (hp : Placed k id h) : Placed k id h' :=
  ha.keep Aside.placed hp

theorem Steps.placed (hs : Steps k id h h') (hp : Placed k id h) : Placed k id h' :=
  hs.keep Step.placed hp

/-- No step puts anything into the registry. -/
theorem Trifle.registry (ht : Trifle p k id h h') : h'.registry.Sublist h.registry := by
  cases ht with
  | note | count | label | observe | unobserve | wake | visit => exact .refl _
  | unregister => exact List.filter_sublist
  | cancel => rw [registry_cancel]

theorem Aside.registry (ha : Aside k id h h') : h'.registry.Sublist h.registry := by
  cases ha with
  | trifle ht => exact ht.registry
  | arm => rw [registry_arm]

theorem Sole.of_sublist (hs : Sole k id h) (hr : h'.registry.Sublist h.registry) :
    Sole k id h' :=
  fun j hj => hs j (hr.subset hj)

theorem Trifles.sole (ht : Trifles p k id h h') (hs : Sole k id h) : Sole k id h' :=
  ht.keep (fun hstep hs => hs.of_sublist hstep.registry) hs

theorem Asides.sole (ha : Asides k id h h') (hs : Sole k id h) : Sole k id h' :=
  ha.keep (fun hstep hs => hs.of_sublist hstep.registry) hs

theorem Steps.sole (ha : Steps k id h h') (hs : Sole k id h) : Sole k id h' := by
  refine ha.keep (fun hstep hs => ?_) hs
  cases hstep with
  | aside hstep => exact hs.of_sublist hstep.registry
  | operate => exact hs

/-! ### Reports -/

theorem setSession_self {s : Session Observer} (hs : h.session? k = some s) :
    h.setSession k s = h := by
  obtain ⟨hlt, heq⟩ := List.getElem?_eq_some_iff.mp hs
  simp [setSession, ← heq]

/-- Once a report has its session and its exchanges in place, only trifles are left of it. -/
theorem trifles_absorb {α : Type} (h : Hub) (k : Nat) (r : Report Observer α) :
    Trifles p k r.session.id { h.setSession k r.session with loose := h.loose ++ r.released }
      (h.absorb k r) := by
  have hwoken : ∀ (xs : List Exchange) (b : Hub), Trifles p k r.session.id b
      (xs.foldl (fun h x => h.wake (Job.awaitsAnswer x.key)) b) := by
    intro xs
    induction xs with
    | nil => exact Trifles.refl
    | cons x xs ih => exact fun b => (Trifle.wake _).trifles.trans (ih _)
  have hnoted : ∀ (stanzas : List Stanza) (b : Hub), Trifles p k r.session.id b
      (stanzas.foldl (fun h stanza => h.write r.session.id (.failover stanza)) b) := by
    intro stanzas
    induction stanzas with
    | nil => exact Trifles.refl
    | cons stanza stanzas ih => exact fun b => (Trifle.note _).trifles.trans (ih _)
  unfold absorb
  split
  · exact (hwoken _ _).trans (hnoted _ _)
  · exact hwoken _ _

/-- A report that leaves the session as it was and lets nothing go is made of trifles. -/
theorem trifles_absorb_of_eq {α : Type} {s : Session Observer} (hs : h.session? k = some s)
    {r : Report Observer α} (hr : r.session = s) (hnone : r.released = []) :
    Trifles p k s.id h (h.absorb k r) := by
  have hrest := trifles_absorb (p := p) h k r
  rw [hnone, List.append_nil, hr, setSession_self hs] at hrest
  exact hrest

/-! ### What recorders do -/

theorem trifles_addRecorder (hp : Placed k id h) {label : String} (hmine : p label)
    {o : Observer} (ho : o ≠ .steward) : Trifles p k id h (h.addRecorder k label o) := by
  obtain ⟨s, hs, -⟩ := hp.session
  simp only [addRecorder, hs]
  exact (Trifle.observe hs ho).trifles.trans (Trifle.label hmine _).trifles

theorem trifles_removeRecorder (h : Hub) (k : Nat) (id : StreamId) (label : String) :
    Trifles p k id h (h.removeRecorder k label).1 := by
  unfold removeRecorder
  split
  · rename_i ticket s _ hs
    exact (Trifle.unobserve hs ticket).trifles
  · exact .refl h

/-- An ended session answers without anything being let go. -/
theorem trifles_ifEnded {α : Type} (hp : Placed k id h)
    {op : Session Observer → Report Observer α}
    (hop : ∀ s, s.closed = true → (op s).session = s ∧ (op s).released = [])
    (answer : α → Answer) : Trifles p k id h (h.ifEnded k op answer).1 := by
  obtain ⟨s, hs, rfl⟩ := hp.session
  simp only [ifEnded, hs]
  split
  · rename_i hc
    exact trifles_absorb_of_eq hs (hop s hc).1 (hop s hc).2
  · exact .refl h

theorem trifles_act (hp : Placed k id h) {a : Action}
    (hmine : ∀ label, a = .add label → p label) : Trifles p k id h (h.act k a).1 := by
  cases a with
  | remove label => exact trifles_removeRecorder h k id label
  | add label => exact trifles_addRecorder hp (hmine label rfl) (by simp)
  | arm timer session | cancel timer session =>
      simp only [act, byTimer_of_unnamed hp.unnamed]
      exact .refl h
  | deliver stanza =>
      exact trifles_ifEnded hp (fun s hc => by simp [Session.deliver, hc]) _
  | release => exact trifles_ifEnded hp (fun s hc => by simp [Session.release, hc]) _
  | close => exact trifles_ifEnded hp (fun s hc => by simp [Session.close, hc]) _
  | enter rid poll =>
      obtain ⟨s, hs, rfl⟩ := hp.session
      have hs' : ((h.newExchange rid true).1.takeLoose h.nextExchange).session? k = some s := hs
      have hact : (h.act k (.enter rid poll)).1 =
          (((h.newExchange rid true).1.takeLoose h.nextExchange).ifEnded k
            (·.accept (Exchange.fresh h.nextExchange rid true).depart poll h.now)
            .ofExcept).1 := rfl
      rw [hact]
      simp only [ifEnded, hs']
      split
      · rename_i hc
        have hr : s.accept (Exchange.fresh h.nextExchange rid true).depart poll h.now =
            { answer := .error (.sessionClosed s.id)
              session := s
              released := [(Exchange.fresh h.nextExchange rid true).depart.drop] } := by
          simp [Session.accept, hc]
        have hrest := trifles_absorb (p := p) ((h.newExchange rid true).1.takeLoose h.nextExchange) k
          (s.accept (Exchange.fresh h.nextExchange rid true).depart poll h.now)
        rw [hr] at hrest ⊢
        rw [setSession_self hs'] at hrest
        exact (Trifle.visit rid true).trifles.trans hrest
      · have hvisit : Trifles p k s.id h _ := (Trifle.visit rid false).trifles
        simpa using hvisit

theorem trifles_writeHeard (hp : Placed k id h) (occasion : Occasion) (label : String)
    (rid : Option Nat) : Trifles p k id h (h.writeHeard k occasion label rid) := by
  obtain ⟨s, hs, rfl⟩ := hp.session
  simp only [writeHeard, hs]
  exact (Trifle.note _).trifles

theorem trifles_actAll (hp : Placed k id h) {occasion : Occasion} (label : String)
    {actions : List (Occasion × Action)}
    (hmine : ∀ a ∈ actions, a.1 = occasion → ∀ new, a.2 = .add new → p new) :
    Trifles p k id h (h.actAll k occasion label actions) := by
  refine List.foldlRecOn (motive := fun b => Trifles p k id h b) actions _ (.refl h) ?_
  intro b hb a ha
  obtain ⟨s, hs, hid⟩ := (hb.placed hp).session
  refine hb.trans ?_
  split
  · rename_i hoccasion
    have hact := trifles_act (hb.placed hp) (hmine a ha hoccasion)
    split
    · rename_i heq ht
      rw [heq] at hact
      rw [hs] at ht
      obtain rfl := Option.some.inj ht
      rw [hid]
      exact hact.trans (Trifle.note _).trifles
    · rename_i heq _
      rw [heq] at hact
      exact hact
  · exact .refl b

theorem trifles_recorder (hp : Placed k id h) {occasion : Occasion} (label : String)
    (rid : Option Nat) {actions : List (Occasion × Action)}
    (hmine : ∀ a ∈ actions, a.1 = occasion → ∀ new, a.2 = .add new → p new) :
    Trifles p k id h ((h.writeHeard k occasion label rid).actAll k occasion label actions) := by
  have hheard : Trifles p k id h (h.writeHeard k occasion label rid) :=
    trifles_writeHeard hp occasion label rid
  exact hheard.trans (trifles_actAll (hheard.placed hp) label hmine)

/-- Whoever hears of an event, all that comes of it are asides. -/
theorem asides_hear (hp : Placed k id h) (notice : Event × Observer) :
    Asides k id h (hear k h notice) := by
  obtain ⟨e, o⟩ := notice
  cases o with
  | silent => exact .refl h
  | steward =>
      cases e with
      | opened rid => exact (Trifle.cancel (p := fun _ => True)).asides
      | closed rid =>
          simp only [hear]
          split
          · exact Aside.arm.asides
          · exact .refl h
  | recorder label actions =>
      exact (trifles_recorder (p := fun _ => True) hp label _ (by simp)).asides

/-- An operation that does not end its session is the step itself, and asides. -/
theorem asides_conclude {α : Type} (hp : Placed k id h) {r : Report Observer α}
    (hid : r.session.id = id) :
    Asides k id { h.setSession k r.session with loose := h.loose ++ r.released }
      (h.conclude k r) := by
  have habsorb := (trifles_absorb (p := fun _ => True) h k r).asides
  rw [hid] at habsorb
  have hset : Placed k id { h.setSession k r.session with loose := h.loose ++ r.released } :=
    (hp.setSession hid).of_eq rfl rfl
  refine List.foldlRecOn r.notices (hear k) habsorb ?_
  intro b hb notice _
  exact hb.trans (asides_hear (hb.placed hset) notice)

/-! ### Operations -/

theorem operates_release (s : Session Observer) :
    s.Operates s.release.session s.release.released := by
  have hfits := s.fits_release
  have hkeeps := s.keeps_release
  refine ⟨hfits.id, hfits.terms, ?_, ?_, fun hc => by simp [Session.release, hc],
    hfits.observers ▸ .refl _, ?_, hkeeps.keys,
    s.serves_release, fun y hy => (hkeeps.released y hy).resolve_left id⟩ <;>
    rcases s.release_cases with ⟨-, heq⟩ | ⟨-, heq⟩ <;> rw [heq]
  · rfl
  · rfl
  · exact List.filter_sublist

theorem operates_deliver (s : Session Observer) (stanza : Stanza) :
    s.Operates (s.deliver stanza).session (s.deliver stanza).released := by
  have hfits := s.fits_deliver stanza
  have hkeeps := s.keeps_deliver stanza
  refine ⟨hfits.id, hfits.terms, ?_, ?_, fun hc => by simp [Session.deliver, hc],
    hfits.observers ▸ .refl _, ?_, hkeeps.keys,
    s.serves_deliver stanza, fun y hy => (hkeeps.released y hy).resolve_left id⟩ <;>
    rcases s.deliver_cases stanza with
      ⟨-, heq⟩ | ⟨-, pre, x, post, hheld, -, -, heq⟩ | ⟨-, -, heq⟩ <;> rw [heq]
  · rfl
  · rfl
  · rfl
  · rfl
  · show post.Sublist s.held
    rw [hheld]
    exact (List.sublist_cons_self x post).trans (List.sublist_append_right pre _)
  · exact List.nil_sublist _

theorem operates_close (s : Session Observer) (shutdown : Bool) :
    s.Operates (s.close shutdown).session (s.close shutdown).released := by
  have hkeeps := s.keeps_close shutdown
  refine ⟨?_, ?_, ?_, ?_, fun hc => (s.close_of_closed hc shutdown).1, ?_, ?_, hkeeps.keys,
    s.serves_close shutdown, fun y hy => (hkeeps.released y hy).resolve_left id⟩ <;>
    rcases s.close_cases shutdown with ⟨-, heq⟩ | ⟨-, heq⟩ <;> rw [heq]
  · exact List.nil_sublist _
  · exact List.nil_sublist _

theorem steps_deliver (hp : Placed k id h) (stanza : Stanza) :
    Steps k id h (h.deliver k stanza).1 := by
  obtain ⟨s, hs, rfl⟩ := hp.session
  have hop := operates_deliver s stanza
  simp only [Hub.deliver, hs]
  exact (Step.operate hs hop).steps.trans (asides_conclude hp hop.id).steps

theorem steps_release (hp : Placed k id h) : Steps k id h (h.release k).1 := by
  obtain ⟨s, hs, rfl⟩ := hp.session
  have hop := operates_release s
  simp only [Hub.release, hs]
  exact (Step.operate hs hop).steps.trans (asides_conclude hp hop.id).steps

/-! ### The end of a session -/

/-- Demands about an identifier that is not registered come to nothing but notes. -/
theorem trifles_consult_of_unknown (close : Hub → Nat → Bool → Hub) (k : Nat)
    (hnone : ∀ j, (id, j) ∉ h.registry) (c : Call) :
    Trifles p k id h (h.consult close id c) := by
  refine (List.foldlRecOn (motive := fun b => Trifles p k id h b ∧ b.registry = h.registry) _ _
    ⟨Trifle.count.trifles, rfl⟩ ?_).1
  intro b hb d _
  have hlookup : b.lookup id = none := lookup_eq_none (hb.2 ▸ hnone)
  have hmeet := meet_of_unknown close hlookup d
  simp only [hmeet]
  exact ⟨hb.1.trans (Trifle.note _).trifles, hb.2⟩

/-- The labels to which an observer gives a meaning when it hears of the end all have the property
`p`. -/
def Labels (p : String → Prop) (o : Observer) : Prop :=
  ∀ label actions, o = .recorder label actions →
    ∀ a ∈ actions, a.1 = .ended → ∀ new, a.2 = .add new → p new

theorem trifles_hearEnd (hp : Placed k id h) (hs : Sole k id h) (close : Hub → Nat → Bool → Hub)
    {o : Observer} (hmine : Labels p o) : Trifles p k id h (hearEnd close k h o) := by
  cases o with
  | silent => exact .refl h
  | recorder label actions => exact trifles_recorder hp label none (hmine label actions rfl)
  | steward =>
      obtain ⟨s, ht, rfl⟩ := hp.session
      simp only [hearEnd, ht]
      obtain ⟨h₁, hh₁⟩ : ∃ h₁, h₁ = (h.unregister s.id k).cancel registryTimer k := ⟨_, rfl⟩
      rw [← hh₁]
      have hremoved : Trifles p k s.id h h₁ := by
        rw [hh₁]
        exact Trifle.unregister.trifles.trans Trifle.cancel.trifles
      -- nobody else has the identifier, so nobody is registered under it now
      have hnone : ∀ j, (s.id, j) ∉ h₁.registry := by
        intro j hj
        rw [hh₁, registry_cancel] at hj
        obtain ⟨hmem, hne⟩ := List.mem_filter.mp hj
        rw [hs j hmem] at hne
        simp at hne
      have hnoted : Trifles p k s.id h₁ (h₁.write s.id (.closed (h₁.lookup s.id).isSome)) :=
        (Trifle.note _).trifles
      exact (hremoved.trans hnoted).trans
        (trifles_consult_of_unknown (h := h₁.write s.id _) close k hnone .closed)

/-- An observer that is told of the end was there before. -/
theorem mem_answer_close {s : Session Observer} {shutdown : Bool} {o : Observer}
    (ho : o ∈ (s.close shutdown).answer) :
    ∃ e ∈ s.observers, e.2 = o := by
  rcases s.close_cases shutdown with ⟨-, heq⟩ | ⟨-, heq⟩ <;> rw [heq] at ho
  · cases ho
  · exact List.mem_map.mp ho

theorem close_eq_foldl {s : Session Observer} (hs : h.session? k = some s) (shutdown : Bool) :
    h.close k shutdown = (s.close shutdown).answer.foldl
      (hearEnd (closeWithin h.sessions.length) k) (h.absorb k (s.close shutdown)) := by
  simp only [Hub.close, closeWithin, hs]

/-- The end of a session that was open is the step itself, and trifles. -/
theorem trifles_close {s : Session Observer} (hs : h.session? k = some s)
    (hunnamed : h.names.sessions = []) (hsole : Sole k s.id h)
    (hmine : ∀ o ∈ s.observers, Labels p o.2) (shutdown : Bool) :
    Trifles p k s.id
      { h.setSession k (s.close shutdown).session with
        loose := h.loose ++ (s.close shutdown).released } (h.close k shutdown) := by
  have hop := operates_close s shutdown
  have hplaced : Placed k s.id { h.setSession k (s.close shutdown).session with
      loose := h.loose ++ (s.close shutdown).released } :=
    ((Placed.of_session hs hunnamed).setSession hop.id).of_eq rfl rfl
  have habsorb := trifles_absorb (p := p) h k (s.close shutdown)
  rw [hop.id] at habsorb
  rw [close_eq_foldl hs]
  refine List.foldlRecOn _ _ habsorb fun b hb o ho => ?_
  obtain ⟨e, he, rfl⟩ := mem_answer_close ho
  exact hb.trans (trifles_hearEnd (hb.placed hplaced) (hb.sole hsole) _ (hmine e he))

/-- The end of a session that may have ended before. -/
theorem steps_close (hp : Placed k id h)
    (hsole : ∀ s, h.session? k = some s → s.closed = false → Sole k id h) (shutdown : Bool) :
    Steps k id h (h.close k shutdown) := by
  obtain ⟨s, hs, rfl⟩ := hp.session
  cases hc : s.closed with
  | false =>
      have hop := operates_close s shutdown
      have hrest := trifles_close (p := fun _ => True) hs hp.unnamed (hsole s hs hc)
        (fun _ _ _ _ _ _ _ _ _ _ => trivial) shutdown
      exact (Step.operate hs hop).steps.trans hrest.asides.steps
  | true =>
      obtain ⟨hsame, hnobody⟩ := s.close_of_closed hc shutdown
      have hclose : h.close k shutdown = h.absorb k (s.close shutdown) := by
        simp only [Hub.close, closeWithin, hs, hnobody, List.foldl_nil]
      rw [hclose]
      exact (trifles_absorb_of_eq (p := fun _ => True) hs hsame
        (by simp [Session.close, hc])).asides.steps

/-! ### What the server demands -/

/-- Whatever is found under an identifier is registered under it. -/
theorem mem_of_lookup {j : Nat} (hl : h.lookup id = some j) : (id, j) ∈ h.registry := by
  obtain ⟨l₁, l₂, heq, -⟩ := List.lookup_eq_some_iff.mp hl
  simp [heq]

theorem steps_push (hp : Placed k id h) (hs : Sole k id h) (stanza : Stanza) :
    Steps k id h (h.push id stanza).1 := by
  cases hl : h.lookup id with
  | none =>
      simp only [push, hl]
      exact .refl h
  | some j =>
      obtain rfl := hs j (mem_of_lookup hl)
      simp only [push, hl]
      exact steps_deliver hp stanza

theorem steps_closeId (hp : Placed k id h) (hs : Sole k id h) :
    Steps k id h (h.closeId id).1 := by
  cases hl : h.lookup id with
  | none =>
      simp only [closeId, closeIdWith, hl]
      exact .refl h
  | some j =>
      obtain rfl := hs j (mem_of_lookup hl)
      simp only [closeId, closeIdWith, hl]
      exact steps_close hp (fun _ _ _ => hs) false

theorem steps_meet (hp : Placed k id h) (hs : Sole k id h) (d : Demand) :
    Steps k id h (h.meet Hub.close id d).1 := by
  cases d with
  | deliver stanza =>
      have hpush := steps_push hp hs stanza
      simp only [Hub.meet]
      split <;> rename_i heq <;> rw [heq] at hpush <;> exact hpush
  | close => exact steps_closeId hp hs

/-- Whatever the server demands during a call about a session. -/
theorem steps_call (hp : Placed k id h) (hs : Sole k id h) (c : Call) :
    Steps k id h (h.call id c) := by
  refine List.foldlRecOn (motive := fun b => Steps k id h b) _ _
    (Trifle.count (p := fun _ => True)).asides.steps ?_
  intro b hb d _
  have hmeet := steps_meet (hb.placed hp) (hb.sole hs) d
  exact (hb.trans hmeet).trans (Trifle.note (p := fun _ => True) _).asides.steps

/-- The stanzas of a request are passed on to the server. -/
theorem steps_foldl_send (hp : Placed k id h) (hs : Sole k id h) (payload : List Stanza) :
    Steps k id h (payload.foldl
      (fun h stanza => (h.write id (.send stanza)).call id (.send stanza)) h) := by
  refine List.foldlRecOn (motive := fun b => Steps k id h b) _ _ (.refl h) ?_
  intro b hb stanza _
  have hnoted := hb.trans (Trifle.note (p := fun _ => True) (.send stanza)).asides.steps
  exact hnoted.trans (steps_call (hnoted.placed hp) (hnoted.sole hs) _)

end Hub

end HttpBinding
