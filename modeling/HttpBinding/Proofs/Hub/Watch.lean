import HttpBinding.Proofs.Hub.Frame

/-!
# HttpBinding.Proofs.Hub.Watch

Every request that waits is watched, and none that was admitted is lost.

A request that a session admits gets a watch, a job that has the session let go of it when its
requester has gone. A watch has a turn as soon as it is started, and is parked if the requester is still
there; when the requester goes, the watch is woken. So no notice is missed: the watch of an exchange
whose requester has gone is among those that are ready (`Watched`).

`Manned` is the invariant of a session whose requests all come in by `forward`, where `keys` are those
it has admitted so far: what it holds are some of these, in order, each waits for an answer and is
watched, and whatever it does not hold any more was answered or has nobody who listens. Between the
admission of a request and the start of its watch there is a gap.
-/

namespace HttpBinding

/-- A request that waits has no answer that could be taken. -/
theorem Exchange.Waits.take_eq {x : Exchange} (hw : x.Waits) : x.take.2 = x := by
  simp [Exchange.take, hw.vacant]

namespace Session

variable {ο : Type}

/-- A request that could be answered is refused with nothing let go but itself, or it is admitted and
joins the queue at its end, if it is held at all. -/
theorem accept_of_isAnswerable (s : Session ο) {x : Exchange} (hx : x.isAnswerable = true)
    (poll : Bool) (now : Nat) :
    (∃ fault, (s.accept x poll now).answer = .error fault ∧
      (s.accept x poll now).session.held = s.held) ∨
    ((s.accept x poll now).answer = .ok () ∧
      ((s.accept x poll now).session.held.map Exchange.key).Sublist
        (s.held.map Exchange.key ++ [x.key])) := by
  have hwaiting : ((waiting s.held).map Exchange.key).Sublist (s.held.map Exchange.key) :=
    List.filter_sublist.map Exchange.key
  rcases accept_cases s x poll now with ⟨fault, p, heq⟩ | ⟨-, p, heq⟩
  · exact Or.inl ⟨fault, by rw [heq], by rw [heq]⟩
  · rw [heq]
    rcases enrol_cases { s with lastPoll := p } x with ⟨-, heq⟩ | ⟨-, -, heq⟩ | ⟨-, hnot, -⟩
    · refine Or.inr ⟨by rw [heq], ?_⟩
      rw [heq]
      simp only [publish_held, List.map_append, List.map_cons, List.map_nil, Exchange.key_bind]
      exact (((List.drop_sublist _ _).map Exchange.key).trans hwaiting).append (.refl _)
    · refine Or.inr ⟨by rw [heq], ?_⟩
      rw [heq]
      exact hwaiting.trans (List.sublist_append_left _ _)
    · rw [hx] at hnot
      cases hnot

end Session

namespace Hub

variable {p : String → Prop} {k j : Nat} {id : StreamId} {h h' h'' : Hub} {keys : List Nat}
  {gap : Option Nat} {s s' : Session Observer} {released : List Exchange} {key : Nat}

/-! ### Watches -/

/-- The watch for an exchange that the session `k` holds is ready, or it is parked and the requester is
still there. -/
def Watched (h : Hub) (k : Nat) (x : Exchange) : Prop :=
  .watch k x.key ∈ h.ready ∨ (.watch k x.key ∈ h.parked ∧ x.departed = false)

/-- No watch of the session `k` is lost, and none that is ready is parked. -/
def KeepsWatches (k : Nat) (h h' : Hub) : Prop :=
  ∀ key, (.watch k key ∈ h.ready → .watch k key ∈ h'.ready) ∧
    (.watch k key ∈ h.parked → .watch k key ∈ h'.ready ∨ .watch k key ∈ h'.parked)

theorem KeepsWatches.of_eq (hready : h'.ready = h.ready) (hparked : h'.parked = h.parked) :
    KeepsWatches k h h' := by
  intro key
  rw [hready, hparked]
  exact ⟨id, Or.inr⟩

theorem KeepsWatches.trans (hk : KeepsWatches k h h') (hk' : KeepsWatches k h' h'') :
    KeepsWatches k h h'' := by
  intro key
  refine ⟨fun hr => (hk' key).1 ((hk key).1 hr), fun hp => ?_⟩
  rcases (hk key).2 hp with hr | hp
  · exact Or.inl ((hk' key).1 hr)
  · exact (hk' key).2 hp

theorem keepsWatches_wake (k : Nat) (h : Hub) (r : Job → Bool) : KeepsWatches k h (h.wake r) := by
  refine fun key => ⟨List.mem_append_left _, fun hp => ?_⟩
  cases hr : r (.watch k key) with
  | true => exact Or.inl (List.mem_append_right _ (List.mem_filter.mpr ⟨hp, hr⟩))
  | false => exact Or.inr (List.mem_filter.mpr ⟨hp, by simp [hr]⟩)

theorem keepsWatches_spawn (k : Nat) (h : Hub) (job : Job) : KeepsWatches k h (h.spawn job) :=
  fun _ => ⟨List.mem_append_left _, Or.inr⟩

theorem keepsWatches_setTimer (k : Nat) (h : Hub) (t : Nat) (c : Countdowns) :
    KeepsWatches k h (h.setTimer t c) := by
  have hset : KeepsWatches k h { h with timers := h.timers.set t c } := .of_eq rfl rfl
  exact hset.trans (keepsWatches_wake k _ _)

theorem Aside.keepsWatches (ha : Aside j id h h') : KeepsWatches k h h' := by
  cases ha with
  | trifle ht =>
      cases ht with
      | note | count | label | observe | unobserve | unregister | visit => exact .of_eq rfl rfl
      | wake r => exact keepsWatches_wake k h r
      | cancel =>
          unfold Hub.cancel
          split
          · exact .of_eq rfl rfl
          · exact keepsWatches_setTimer k h _ _
  | arm =>
      unfold Hub.arm
      split
      · exact .of_eq rfl rfl
      · dsimp only
        split
        · exact keepsWatches_setTimer k h _ _
        · exact (keepsWatches_setTimer k h _ _).trans (keepsWatches_spawn k _ _)

theorem Aside.nextExchange_le (ha : Aside j id h h') : h.nextExchange ≤ h'.nextExchange := by
  cases ha with
  | trifle ht =>
      cases ht with
      | note | count | label | observe | unobserve | wake | unregister => exact Nat.le_refl _
      | visit => exact Nat.le_succ _
      | cancel =>
          obtain ⟨timers, ready, parked, heq⟩ := cancel_eq h registryTimer j
          exact Nat.le_of_eq (by rw [heq])
  | arm =>
      obtain ⟨timers, ready, parked, heq⟩ := arm_eq h registryTimer j
      exact Nat.le_of_eq (by rw [heq])

/-- What a session holds stays where it is if only something else of the session changes. -/
theorem held_setSession (hs : h.session? j = some s) (hheld : s'.held = s.held) (k : Nat) :
    ((h.setSession j s').session? k).map Session.held = (h.session? k).map Session.held := by
  by_cases hj : j = k
  · subst hj
    rw [session?_setSession_self hs, hs]
    exact congrArg some hheld
  · rw [session?_setSession, if_neg hj]

theorem Aside.held (ha : Aside j id h h') (k : Nat) :
    (h'.session? k).map Session.held = (h.session? k).map Session.held := by
  cases ha with
  | trifle ht =>
      cases ht with
      | note | count | label | wake | unregister | visit => rfl
      | observe hs | unobserve hs => exact held_setSession hs (by rfl) k
      | cancel =>
          obtain ⟨timers, ready, parked, heq⟩ := cancel_eq h registryTimer j
          rw [heq]
          rfl
  | arm =>
      obtain ⟨timers, ready, parked, heq⟩ := arm_eq h registryTimer j
      rw [heq]
      rfl

/-! ### Requests that were admitted -/

/-- The exchange with a key was answered, or nobody listens. -/
def Settled (h : Hub) (key : Nat) : Prop :=
  ∃ y ∈ h.exchanges, y.key = key ∧ (y.listening = true → y.mailbox ≠ .vacant)

/-- What is settled stays settled. -/
theorem Settled.carry (hs : h.Settled key) (hc : Carries h h') : h'.Settled key := by
  obtain ⟨x, hx, hkey, hanswered⟩ := hs
  obtain ⟨y, hy, hxy⟩ := hc.served x hx
  refine ⟨y, hy, hxy.key.trans hkey, fun hlistens => ?_⟩
  rcases hxy.mailbox with hsame | ⟨-, r, hholding⟩
  · rw [hsame]
    exact hanswered (hxy.listening ▸ hlistens)
  · simp [hholding]

/-- The session `k` has admitted the requests `keys`, in this order. Those that it still holds wait for
an answer and are watched, but for the one in the `gap`; the others are settled. -/
structure Manned (k : Nat) (keys : List Nat) (gap : Option Nat) (h : Hub) : Prop where
  begun : h.session? k = none → keys = []
  distinct : keys.Nodup
  numbered : ∀ key ∈ keys, key < h.nextExchange
  queue : ∀ s, h.session? k = some s → (s.held.map Exchange.key).Sublist keys
  waits : ∀ s, h.session? k = some s → ∀ x ∈ s.held, x.Waits
  watched : ∀ s, h.session? k = some s → ∀ x ∈ s.held, gap ≠ some x.key → h.Watched k x
  settled : ∀ key ∈ keys,
    (∃ s, h.session? k = some s ∧ key ∈ s.held.map Exchange.key) ∨ h.Settled key

/-- Where the session holds what it held, and its watches are kept. -/
theorem Manned.carry (hm : Manned k keys gap h) (hc : Carries h h')
    (hnext : h.nextExchange ≤ h'.nextExchange)
    (hheld : (h'.session? k).map Session.held = (h.session? k).map Session.held)
    (hwatches : KeepsWatches k h h') : Manned k keys gap h' := by
  have hbefore : ∀ s', h'.session? k = some s' → ∃ s, h.session? k = some s ∧ s.held = s'.held := by
    intro s' hs'
    rw [hs'] at hheld
    exact Option.map_eq_some_iff.mp hheld.symm
  have hafter : ∀ s, h.session? k = some s → ∃ s', h'.session? k = some s' ∧ s'.held = s.held := by
    intro s hs
    rw [hs] at hheld
    exact Option.map_eq_some_iff.mp hheld
  refine ⟨fun hnone => hm.begun ?_, hm.distinct,
    fun key hkey => Nat.lt_of_lt_of_le (hm.numbered key hkey) hnext, fun s' hs' => ?_,
    fun s' hs' => ?_, fun s' hs' x hx hgap => ?_, fun key hkey => ?_⟩
  · rw [hnone] at hheld
    exact Option.map_eq_none_iff.mp hheld.symm
  · obtain ⟨s, hs, heq⟩ := hbefore s' hs'
    exact heq ▸ hm.queue s hs
  · obtain ⟨s, hs, heq⟩ := hbefore s' hs'
    exact heq ▸ hm.waits s hs
  · obtain ⟨s, hs, heq⟩ := hbefore s' hs'
    rcases hm.watched s hs x (heq ▸ hx) hgap with hr | ⟨hp, hstays⟩
    · exact Or.inl ((hwatches x.key).1 hr)
    · rcases (hwatches x.key).2 hp with hr | hp
      · exact Or.inl hr
      · exact Or.inr ⟨hp, hstays⟩
  · rcases hm.settled key hkey with ⟨s, hs, hmem⟩ | hsettled
    · obtain ⟨s', hs', heq⟩ := hafter s hs
      exact Or.inl ⟨s', hs', heq ▸ hmem⟩
    · exact Or.inr (hsettled.carry hc)

/-- Whoever is not held any more when an operation is done has been answered, or does not listen. -/
theorem settled_of_parts {x y : Exchange} (hw : x.Waits) (hparts : s.Parts x y)
    (hy : y ∈ h.exchanges) : h.Settled x.key := by
  refine ⟨y, hy, hparts.key, fun hlistens => ?_⟩
  obtain ⟨r, hr, -⟩ := hparts.answered hw (hparts.listening ▸ hlistens)
  simp [hr]

theorem Manned.operate (hm : Manned k keys gap h) (ho : h.Orderly) (hs : h.session? k = some s)
    (hop : s.Operates s' released) :
    Manned k keys gap { h.setSession k s' with loose := h.loose ++ released } := by
  have hstep : Step k default h _ := .operate hs hop
  have hself : ({ h.setSession k s' with loose := h.loose ++ released } : Hub).session? k = some s' :=
    session?_setSession_self hs s'
  refine ⟨fun hnone => ?_, hm.distinct, hm.numbered, fun t ht => ?_, fun t ht x hx => ?_,
    fun t ht x hx hgap => ?_, fun key hkey => ?_⟩
  · rw [hself] at hnone
    cases hnone
  all_goals try
    rw [hself] at ht
    obtain rfl := Option.some.inj ht
  · exact (hop.held.map Exchange.key).trans (hm.queue s hs)
  · exact hm.waits s hs x (hop.held.subset hx)
  · exact hm.watched s hs x (hop.held.subset hx) hgap
  · rcases hm.settled key hkey with ⟨t, ht, hmem⟩ | hsettled
    · rw [hs] at ht
      obtain rfl := Option.some.inj ht
      have hsplit := hop.keys.mem_iff.mpr hmem
      rw [List.map_append, List.mem_append] at hsplit
      rcases hsplit with hstays | hgone
      · exact Or.inl ⟨s', hself, hstays⟩
      · obtain ⟨y, hy, rfl⟩ := List.mem_map.mp hgone
        obtain ⟨x, hx, hparts⟩ := hop.parts y hy
        rw [hparts.key]
        refine Or.inr (settled_of_parts (hm.waits s hs x hx) hparts ?_)
        exact mem_exchanges_of_loose (List.mem_append_right _ hy)
    · exact Or.inr (hsettled.carry (ho.step hstep))

theorem Manned.step (hm : Manned k keys gap h) (ho : h.Orderly) (hs : Step j id h h') :
    Manned k keys gap h' := by
  have hc := ho.step hs
  cases hs with
  | aside ha => exact hm.carry hc ha.nextExchange_le (ha.held k) ha.keepsWatches
  | operate hs hop =>
      by_cases hj : k = j
      · subst hj
        exact hm.operate ho hs hop
      · refine hm.carry hc (Nat.le_refl _) ?_ (.of_eq rfl rfl)
        show ((h.setSession j _).session? k).map Session.held = _
        rw [session?_setSession, if_neg (Ne.symm hj)]

theorem settled_of_map {f : Exchange → Exchange} (hs : h.Settled key) (other : Nat)
    (hkey : ∀ x, (f x).key = x.key)
    (hf : ∀ x : Exchange, (x.listening = true → x.mailbox ≠ .vacant) →
      (f x).listening = true → (f x).mailbox ≠ .vacant) : (h.mapExchange other f).Settled key := by
  obtain ⟨y, hy, rfl, hanswered⟩ := hs
  rw [Settled, exchanges_mapExchange]
  refine ⟨_, List.mem_map_of_mem hy, ?_, ?_⟩ <;> split
  · exact hkey y
  · rfl
  · exact hf y hanswered
  · exact hanswered

/-- A requester goes, and its watch is woken. -/
theorem Manned.depart (hm : Manned k keys gap h) (other : Nat) :
    Manned k keys gap (h.departRequester other) := by
  obtain ⟨g, hg⟩ : ∃ g : Exchange → Exchange,
      g = fun x => if x.key == other then x.depart else x := ⟨_, rfl⟩
  have hkey : ∀ x, (g x).key = x.key := by
    intro x
    rw [hg]
    dsimp only
    split <;> rfl
  have hsession : (h.departRequester other).session? k =
      (h.session? k).map fun s => { s with held := s.held.map g } := by
    rw [hg]
    exact session?_mapExchange h other Exchange.depart k
  have hbefore : ∀ t, (h.departRequester other).session? k = some t →
      ∃ s, h.session? k = some s ∧ t.held = s.held.map g := by
    intro t ht
    rw [hsession] at ht
    obtain ⟨s, hs, rfl⟩ := Option.map_eq_some_iff.mp ht
    exact ⟨s, hs, rfl⟩
  have hwatches : KeepsWatches k h (h.departRequester other) := by
    have hmap : KeepsWatches k h (h.mapExchange other Exchange.depart) := .of_eq rfl rfl
    exact hmap.trans (keepsWatches_wake k _ _)
  refine ⟨fun hnone => hm.begun ?_, hm.distinct, hm.numbered, fun t ht => ?_, fun t ht y hy => ?_,
    fun t ht y hy hgap => ?_, fun key hkeys => ?_⟩
  · rw [hsession] at hnone
    exact Option.map_eq_none_iff.mp hnone
  · obtain ⟨s, hs, heq⟩ := hbefore t ht
    rw [heq, Session.map_map_of_kept hkey]
    exact hm.queue s hs
  · obtain ⟨s, hs, heq⟩ := hbefore t ht
    obtain ⟨x, hx, rfl⟩ := List.mem_map.mp (heq ▸ hy)
    rw [hg]
    dsimp only
    split
    · exact (hm.waits s hs x hx).depart
    · exact hm.waits s hs x hx
  · obtain ⟨s, hs, heq⟩ := hbefore t ht
    obtain ⟨x, hx, rfl⟩ := List.mem_map.mp (heq ▸ hy)
    rw [Watched, hkey]
    rw [hkey] at hgap
    rcases hm.watched s hs x hx hgap with hr | ⟨hp, hstays⟩
    · exact Or.inl ((hwatches x.key).1 hr)
    · by_cases hthis : x.key = other
      · -- the watch of the one who goes is woken
        refine Or.inl (List.mem_append_right _ (List.mem_filter.mpr ⟨hp, ?_⟩))
        simp [Job.awaitsDeparture, hthis]
      · rcases (hwatches x.key).2 hp with hr | hp
        · exact Or.inl hr
        · refine Or.inr ⟨hp, ?_⟩
          rw [hg]
          simpa [hthis] using hstays
  · rcases hm.settled key hkeys with ⟨s, hs, hmem⟩ | hsettled
    · refine Or.inl ⟨_, by rw [hsession, hs]; rfl, ?_⟩
      rw [Session.map_map_of_kept hkey]
      exact hmem
    · have hleft : (h.mapExchange other Exchange.depart).Settled key :=
        settled_of_map hsettled other (fun _ => rfl) fun _ _ hlistens => by cases hlistens
      exact Or.inr hleft

theorem Manned.take (hm : Manned k keys gap h) (other : Nat) :
    Manned k keys gap (h.mapExchange other fun x => x.take.2) := by
  have hsame : (h.mapExchange other fun x => x.take.2).session? k = h.session? k := by
    rw [session?_mapExchange]
    cases hs : h.session? k with
    | none => rfl
    | some s =>
        have hheld : (s.held.map fun x => if x.key == other then x.take.2 else x) = s.held := by
          refine (List.map_congr_left fun x hx => ?_).trans (List.map_id' s.held)
          rw [(hm.waits s hs x hx).take_eq, ite_self]
        simp only [Option.map_some, hheld]
  refine ⟨?_, hm.distinct, hm.numbered, ?_, ?_, ?_, fun key hkey => ?_⟩
  · rw [hsame]
    exact hm.begun
  · rw [hsame]
    exact hm.queue
  · rw [hsame]
    exact hm.waits
  · rw [hsame]
    exact hm.watched
  · rw [hsame]
    refine (hm.settled key hkey).imp_right fun hsettled => ?_
    refine settled_of_map hsettled other key_take fun x hanswered => ?_
    unfold Exchange.take
    split
    · exact fun _ => by simp
    · exact hanswered

/-- A session that begins has admitted nothing. -/
theorem Manned.begin (hm : Manned k keys gap h) (ho : h.Orderly) (id : StreamId)
    (hnone : s.held = []) (journal : List Entry) (calls : Nat) :
    Manned k keys gap (h.withNewborn id s journal calls) := by
  have hc : Carries h (h.withNewborn id s journal calls) :=
    ho.of_eq (exchanges_withNewborn h id hnone journal calls) rfl
  have hsessions : (h.withNewborn id s journal calls).session? k = (h.sessions ++ [s])[k]? := rfl
  cases hk : h.session? k with
  | some t =>
      refine hm.carry hc (Nat.le_refl _) ?_ (.of_eq rfl rfl)
      have hlt : k < h.sessions.length := (List.getElem?_eq_some_iff.mp hk).1
      rw [hsessions, List.getElem?_append_left hlt]
      rfl
  | none =>
      obtain rfl := hm.begun hk
      have hheld : ∀ t, (h.withNewborn id s journal calls).session? k = some t → t.held = [] := by
        intro t ht
        rw [hsessions, List.getElem?_append_right (List.getElem?_eq_none_iff.mp hk)] at ht
        obtain rfl := List.mem_singleton.mp (List.mem_of_getElem? ht)
        exact hnone
      refine ⟨fun _ => rfl, .nil, by simp, fun t ht => ?_, fun t ht x hx => ?_,
        fun t ht x hx => ?_, by simp⟩
      · simp [hheld t ht]
      · simp [hheld t ht] at hx
      · simp [hheld t ht] at hx

/-- A watch is parked if the requester is still there. -/
theorem Manned.wait (hm : Manned k keys gap h) (ho : h.Orderly) {i : Nat} {job : Job}
    (hjob : h.ready[i]? = some job)
    (hstays : ∀ k key, job = .watch k key → (h.exchange? key).any Exchange.departed = false) :
    Manned k keys gap ({ h with ready := h.ready.eraseIdx i }.park job) := by
  refine ⟨hm.begun, hm.distinct, hm.numbered, hm.queue, hm.waits, fun s hs x hx hgap => ?_,
    fun key hkey => (hm.settled key hkey).imp_right fun hsettled => hsettled.carry (ho.of_eq rfl rfl)⟩
  rcases hm.watched s hs x hx hgap with hr | ⟨hp, hthere⟩
  · rcases leaves_eraseIdx hjob _ hr with rfl | hr
    · have hfound := ho.exchange?_eq_some_iff.mpr ⟨mem_exchanges_of_held hs hx, rfl⟩
      have hthere := hstays k x.key rfl
      rw [hfound] at hthere
      exact Or.inr ⟨List.mem_append_right _ (List.mem_singleton_self _), by simpa using hthere⟩
    · exact Or.inl hr
  · exact Or.inr ⟨List.mem_append_left _ hp, hthere⟩

/-- **Whatever happens, requests stay watched**, if the session admits nothing and none of its watches
comes off the queue. -/
theorem Manned.happening (hm : Manned k keys gap h) (ho : h.Orderly)
    (ha : Happening (· = k) h h') : Manned k keys gap h' := by
  cases ha with
  | step hs => exact hm.step ho hs
  | connect rid secure =>
      exact hm.carry (ho.connect rid secure) (Nat.le_succ _) rfl (.of_eq rfl rfl)
  | draw drawn => exact hm.carry (ho.of_eq rfl rfl) (Nat.le_refl _) rfl (.of_eq rfl rfl)
  | begin id hs _ journal calls => exact hm.begin ho id hs journal calls
  | serve hx hf =>
      rename_i x f
      have hnot : ∀ s, h.session? k = some s → ∀ y ∈ s.held, y.key ≠ x.key := fun s hs y hy =>
        ho.ne_of_held_of_loose (mem_sessions hs) hy hx
      refine hm.carry (ho.serve hf x.key) (Nat.le_refl _) ?_ (.of_eq rfl rfl)
      rw [session?_mapExchange_of_not_held f hnot]
  | depart other => exact hm.depart other
  | take other => exact hm.take other
  | enter hk hs hx poll =>
      refine hm.carry (ho.admission hs hx poll) (Nat.le_refl _) ?_ (.of_eq rfl rfl)
      rw [session?_admission (fun heq => hk heq.symm)]
  | spawn hjob => exact hm.carry (ho.of_eq rfl rfl) (Nat.le_refl _) rfl (keepsWatches_spawn k h _)
  | unqueue hjob hother =>
      refine hm.carry (ho.of_eq rfl rfl) (Nat.le_refl _) rfl fun key => ⟨fun hr => ?_, Or.inr⟩
      rcases leaves_eraseIdx hjob _ hr with heq | hr
      · exact absurd rfl (hother k key heq.symm)
      · exact hr
  | wait hjob hstays => exact hm.wait ho hjob hstays
  | cancelAll =>
      exact hm.carry (ho.of_eq rfl rfl) (Nat.le_refl _) rfl (keepsWatches_setTimer k h _ _)
  | pass time =>
      have hlater : KeepsWatches k h { h with now := time } := .of_eq rfl rfl
      exact hm.carry (ho.of_eq rfl rfl) (Nat.le_refl _) rfl (hlater.trans (keepsWatches_wake k _ _))

theorem Manned.happenings (hm : Manned k keys gap h) (ho : h.Orderly)
    (ha : Happenings (· = k) h h') : Manned k keys gap h' := by
  have hboth : h'.Orderly ∧ Manned k keys gap h' := by
    refine ha.keep (P := fun b => b.Orderly ∧ Manned k keys gap b) ?_ ⟨ho, hm⟩
    intro a b hstep hb
    exact ⟨hb.1.happening hstep, hb.2.happening hb.1 hstep⟩
  exact hboth.2

/-! ### Admissions -/

/-- A request that is refused leaves the queue as it was. -/
theorem Manned.refuse (hm : Manned k keys gap h) (ho : h.Orderly) (hs : h.session? k = some s)
    {x : Exchange} (hx : x ∈ h.loose) (poll : Bool)
    (hheld : (s.accept x poll h.now).session.held = s.held) :
    Manned k keys gap (h.admission k s x poll) :=
  hm.carry (ho.admission hs hx poll) (Nat.le_refl _) (held_setSession hs hheld k) (.of_eq rfl rfl)

/-- Whatever a session could get at when it admits a request is held afterwards, or settled. -/
theorem held_or_settled_of_admission (hs : h.session? k = some s) {x : Exchange} (poll : Bool)
    (hok : (s.accept x poll h.now).answer = .ok ()) (hwaits : ∀ z ∈ s.held ++ [x], z.Waits) :
    ∀ key ∈ (s.held ++ [x]).map Exchange.key,
      (∃ t, (h.admission k s x poll).session? k = some t ∧ key ∈ t.held.map Exchange.key) ∨
        (h.admission k s x poll).Settled key := by
  intro key hkey
  have hkeeps := s.keeps_accept x poll h.now
  have hsplit := hkeeps.keys.mem_iff.mpr hkey
  rw [List.map_append, List.mem_append] at hsplit
  rcases hsplit with hstays | hgone
  · exact Or.inl ⟨_, session?_setSession_self hs _, hstays⟩
  · obtain ⟨y, hy, rfl⟩ := List.mem_map.mp hgone
    rcases hkeeps.released y hy with ⟨-, hrefused⟩ | ⟨z, hz, hparts⟩
    · rw [hok] at hrefused
      cases hrefused
    · rw [hparts.key]
      exact Or.inr (settled_of_parts (hwaits z hz) hparts
        (mem_exchanges_of_loose (List.mem_append_right _ hy)))

/-- A request that is admitted waits in the queue or is answered already; nobody watches it yet. -/
theorem Manned.admit (hm : Manned k keys none h) (ho : h.Orderly) (hs : h.session? k = some s)
    {x : Exchange} (hx : x ∈ h.loose) (hw : x.Waits) (poll : Bool)
    (hok : (s.accept x poll h.now).answer = .ok ()) (hnew : x.key ∉ keys)
    (hnumber : x.key < h.nextExchange)
    (hqueue : ((s.accept x poll h.now).session.held.map Exchange.key).Sublist
      (s.held.map Exchange.key ++ [x.key])) :
    Manned k (keys ++ [x.key]) (some x.key) (h.admission k s x poll) := by
  have hkeeps := s.keeps_accept x poll h.now
  have hself : (h.admission k s x poll).session? k = some (s.accept x poll h.now).session :=
    session?_setSession_self hs _
  have hwaits : ∀ z ∈ s.held ++ [x], z.Waits := by
    intro z hz
    rcases List.mem_append.mp hz with hz | hz
    · exact hm.waits s hs z hz
    · obtain rfl := List.mem_singleton.mp hz
      exact hw
  refine ⟨fun hnone => ?_, ?_, fun key hkey => ?_, fun t ht => ?_, fun t ht y hy => ?_,
    fun t ht y hy hgap => ?_, fun key hkey => ?_⟩
  · rw [hself] at hnone
    cases hnone
  · refine List.nodup_append.mpr ⟨hm.distinct, by simp, fun a ha b hb => ?_⟩
    obtain rfl := List.mem_singleton.mp hb
    exact fun heq => hnew (heq ▸ ha)
  · rcases List.mem_append.mp hkey with hkey | hkey
    · exact hm.numbered key hkey
    · obtain rfl := List.mem_singleton.mp hkey
      exact hnumber
  all_goals try
    rw [hself] at ht
    obtain rfl := Option.some.inj ht
  · exact hqueue.trans ((hm.queue s hs).append (.refl _))
  · obtain ⟨z, hz, -, -, hstays⟩ := hkeeps.held y hy
    exact hstays (hwaits z hz)
  · obtain ⟨z, hz, hkey, hlistens, hstays⟩ := hkeeps.held y hy
    have hdeparted : y.departed = z.departed := by
      rw [(hstays (hwaits z hz)).candid, (hwaits z hz).candid, hlistens]
    rcases List.mem_append.mp hz with hz | hz
    · rcases hm.watched s hs z hz (by simp) with hr | ⟨hp, hthere⟩
      · exact Or.inl (hkey ▸ hr)
      · exact Or.inr ⟨hkey ▸ hp, hdeparted.trans hthere⟩
    · obtain rfl := List.mem_singleton.mp hz
      exact absurd (congrArg some hkey.symm) hgap
  · have hheld := held_or_settled_of_admission hs poll hok hwaits key
    rcases List.mem_append.mp hkey with hkey | hkey
    · rcases hm.settled key hkey with ⟨t, ht, hmem⟩ | hsettled
      · rw [hs] at ht
        obtain rfl := Option.some.inj ht
        exact hheld (by rw [List.map_append]; exact List.mem_append_left _ hmem)
      · exact Or.inr (hsettled.carry (ho.admission hs hx poll))
    · obtain rfl := List.mem_singleton.mp hkey
      exact hheld (by simp)

/-- The gap is closed by a watch. -/
theorem Manned.spawn (hm : Manned k keys (some key) h) (ho : h.Orderly) :
    Manned k keys none (h.spawn (.watch k key)) := by
  have hspawned : Manned k keys (some key) (h.spawn (.watch k key)) :=
    hm.carry (ho.of_eq rfl rfl) (Nat.le_refl _) rfl (keepsWatches_spawn k h _)
  refine { hspawned with watched := fun s hs x hx _ => ?_ }
  by_cases heq : key = x.key
  · subst heq
    exact Or.inl (List.mem_append_right _ (List.mem_singleton_self _))
  · exact hspawned.watched s hs x hx fun hgap => heq (Option.some.inj hgap)

/-- There is no gap if the exchange in it is not held. -/
theorem Manned.fill (hm : Manned k keys gap h)
    (hnot : ∀ s, h.session? k = some s → ∀ x ∈ s.held, gap ≠ some x.key) :
    Manned k keys none h :=
  { hm with watched := fun s hs x hx _ => hm.watched s hs x hx (hnot s hs x hx) }

/-- The requests that the session `k` admits with a move. -/
def admittedBy (h : Hub) (k : Nat) : Move → List Nat
  | .forward rid j secure payload =>
    if j = k ∧ (h.session? j).isSome then
      match (h.forward rid j secure payload).2 with
      | .ok key => [key]
      | .error _ => []
    else []
  | _ => []

/-- The requests that the session `k` admits in a run, in order. -/
def admittedIn (k : Nat) : Hub → List Move → List Nat
  | _, [] => []
  | h, m :: ms => h.admittedBy k m ++ admittedIn k (h.move m) ms

variable {still : List Nat}

/-- **A further request is refused, or it is admitted and watched.** -/
theorem Manned.forward (hm : Manned k keys none h) (hi : InStep still h) (ho : h.Orderly)
    (rid : Nat) (secure : Bool) (payload : List Stanza) :
    Manned k (keys ++ h.admittedBy k (.forward rid k secure payload)) none
      (h.move (.forward rid k secure payload)) := by
  cases hs : h.session? k with
  | none =>
      have hnobody : h.admittedBy k (.forward rid k secure payload) = [] := by
        simp [admittedBy, hs]
      have hsame : h.move (.forward rid k secure payload) = h := by simp [Hub.move, hs]
      rw [hnobody, hsame, List.append_nil]
      exact hm
  | some s =>
      have hmove : h.move (.forward rid k secure payload) =
          (h.forward rid k secure payload).1 := by simp [Hub.move, hs]
      obtain ⟨x, hx⟩ : ∃ x, x = Exchange.fresh h.nextExchange rid secure := ⟨_, rfl⟩
      obtain ⟨h₀, hh₀⟩ : ∃ h₀, h₀ = (h.newExchange rid secure).1 := ⟨_, rfl⟩
      have hkey : x.key = h.nextExchange := by
        rw [hx]
        rfl
      have hw : x.Waits := by
        rw [hx]
        exact ⟨rfl, rfl, rfl, rfl⟩
      have hc : Carries h h₀ := hh₀ ▸ ho.connect rid secure
      have hm₀ : Manned k keys none h₀ := by
        rw [hh₀]
        exact hm.carry (ho.connect rid secure) (Nat.le_succ _) rfl (.of_eq rfl rfl)
      have hs₀ : h₀.session? k = some s := by
        rw [hh₀]
        exact hs
      have hx₀ : x ∈ h₀.loose := by
        rw [hh₀, hx]
        exact List.mem_append_right _ (List.mem_singleton_self _)
      have hnow : h₀.now = h.now := by
        rw [hh₀]
        rfl
      obtain ⟨h₁, hasides, hrest⟩ := hi.forward_parts hs rid secure payload hx
      rw [← hh₀] at hasides
      have hadmission := hc.orderly.admission hs₀ hx₀ payload.isEmpty
      have hbody : x.isAnswerable = true := by
        rw [hx]
        rfl
      rw [hmove]
      rcases s.accept_of_isAnswerable hbody payload.isEmpty h.now with
        ⟨fault, herror, hheld⟩ | ⟨hok, hqueue⟩
      · rw [herror] at hrest
        have hnobody : h.admittedBy k (.forward rid k secure payload) = [] := by
          simp [admittedBy, hs, hrest]
        have hrefused := hm₀.refuse hc.orderly hs₀ hx₀ payload.isEmpty
          (by rw [hnow]; exact hheld)
        have hm₁ := hrefused.happenings hadmission.orderly hasides.happenings
        rw [hnobody, List.append_nil, hrest]
        exact hm₁.depart x.key
      · rw [hok] at hrest
        obtain ⟨hsteps, hanswer⟩ := hrest
        have hone : h.admittedBy k (.forward rid k secure payload) = [x.key] := by
          simp [admittedBy, hs, hanswer]
        have hnew : x.key ∉ keys := by
          intro hmem
          have hlt := hm.numbered _ hmem
          omega
        have hnumber : x.key < h₀.nextExchange := by
          rw [hh₀, hkey]
          exact Nat.lt_succ_self _
        have hadmitted := hm₀.admit hc.orderly hs₀ hx₀ hw payload.isEmpty
          (by rw [hnow]; exact hok) hnew hnumber (by rw [hnow]; exact hqueue)
        have hm₁ := hadmitted.happenings hadmission.orderly hasides.happenings
        have hheard : Happenings (· = k) _ h₁ := hasides.happenings
        have ho₁ := hadmission.orderly.happenings hheard
        have hspawned := hm₁.spawn ho₁
        have hspawn : Carries h₁ (h₁.spawn (.watch k x.key)) := ho₁.of_eq rfl rfl
        rw [hone]
        exact hspawned.happenings hspawn.orderly hsteps.happenings

/-! ### Watches take their turns -/

/-- A session that lets go of those who left holds those who wait. -/
theorem InStep.session?_release (hi : InStep still h) (hs : h.session? k = some s) :
    ∃ observers nextTicket, (h.release k).1.session? k =
      some { s.release.session with observers, nextTicket } := by
  have hasides := asides_conclude (hi.placed hs) (r := s.release) (operates_release s).id
  simp only [Hub.release, hs]
  exact hasides.recast (session?_setSession_self hs s.release.session)

/-- Whoever is held when a session has let go of those who left was held before, and is there. -/
theorem InStep.stays_of_release (hi : InStep still h) {t : Session Observer}
    (ht : (h.release k).1.session? k = some t) {x : Exchange} (hx : x ∈ t.held) :
    ∃ s, h.session? k = some s ∧ x ∈ s.held ∧ x.departed = false := by
  cases hs : h.session? k with
  | none =>
      have hnobody : (h.release k).1 = h := by simp [Hub.release, hs]
      rw [hnobody, hs] at ht
      cases ht
  | some s =>
      obtain ⟨observers, nextTicket, hs'⟩ := hi.session?_release hs
      rw [hs'] at ht
      obtain rfl := Option.some.inj ht
      rcases s.release_cases with ⟨hclosed, heq⟩ | ⟨-, heq⟩
      · rw [heq] at hx
        have hheld : x ∈ s.held := hx
        rw [((hi.sane.tidy.sound s (mem_sessions hs)).ended hclosed).1] at hheld
        cases hheld
      · rw [heq] at hx
        obtain ⟨hheld, hstays⟩ := List.mem_filter.mp hx
        refine ⟨s, rfl, hheld, Bool.eq_false_iff.mpr fun hdeparted => ?_⟩
        simp [Exchange.isAbandoned, hdeparted] at hstays

/-- **The turn of a watch leaves nobody unwatched**: it is parked again, or whom it watched is not held
any more. -/
theorem Manned.turn_watch (hm : Manned k keys none h) (hi : InStep still h) (ho : h.Orderly)
    {i : Nat} (hjob : h.ready[i]? = some (.watch k key)) :
    Manned k keys none ({ h with ready := h.ready.eraseIdx i }.turn (.watch k key)) := by
  obtain ⟨h₁, hh₁⟩ : ∃ h₁ : Hub, h₁ = { h with ready := h.ready.eraseIdx i } := ⟨_, rfl⟩
  cases hgone : (h.exchange? key).any Exchange.departed with
  | false =>
      rw [turn_watch_of_stays hgone]
      refine hm.wait ho hjob ?_
      intro j other heq
      obtain ⟨rfl, rfl⟩ : k = j ∧ key = other := by simpa using heq
      exact hgone
  | true =>
      have hin : InStep still h₁ := hh₁ ▸ hi.take_of_ne_evict (leaves_eraseIdx hjob) (by simp)
      have ho₁ : h₁.Orderly := by
        rw [hh₁]
        exact Carries.orderly (h := h) (ho.of_eq rfl rfl)
      have hm₁ : Manned k keys (some key) h₁ := by
        subst hh₁
        refine ⟨hm.begun, hm.distinct, hm.numbered, hm.queue, hm.waits, fun s hs x hx hgap => ?_,
          fun key hkey => (hm.settled key hkey).imp_right fun hdone => hdone.carry (ho.of_eq rfl rfl)⟩
        rcases hm.watched s hs x hx (by simp) with hr | hp
        · rcases leaves_eraseIdx hjob _ hr with heq | hr
          · obtain ⟨-, rfl⟩ : k = k ∧ x.key = key := by simpa using heq
            exact absurd rfl hgap
          · exact Or.inl hr
        · exact Or.inr hp
      obtain ⟨id, hsteps⟩ := hin.steps_release k
      rw [turn_watch_of_departed hgone, ← hh₁]
      refine (hm₁.happenings ho₁ hsteps.happenings).fill fun t ht x hx hgap => ?_
      obtain rfl : key = x.key := Option.some.inj hgap
      -- the one who has gone is not held any more
      obtain ⟨s, hs, hheld, hstays⟩ := hin.stays_of_release ht hx
      have hsame : h₁.exchange? x.key = h.exchange? x.key := by
        rw [hh₁]
        rfl
      rw [← hsame, ho₁.exchange?_eq_some_iff.mpr ⟨mem_exchanges_of_held hs hheld, rfl⟩] at hgone
      have hdeparted : x.departed = true := hgone
      rw [hstays] at hdeparted
      cases hdeparted

/-! ### Runs -/

/-- A move that is not a further request to a session has it admit nothing. -/
theorem admittedBy_eq_nil {m : Move} (hother : h.concerned? m ≠ some k) :
    h.admittedBy k m = [] := by
  cases m with
  | forward rid j secure payload =>
      have hj : j ≠ k := fun heq => hother (congrArg some heq)
      simp [admittedBy, hj]
  | connect | create | push | closeId | shutdown | enter | deliver | release | close | listen
  | listenSilently | unlisten | exchange | await | turn | pass => rfl

/-- **With every move requests stay watched**, if no request is brought to the session in another
way. -/
theorem Manned.move (hm : Manned k keys none h) (hi : InStep still h) (ho : h.Orderly) {m : Move}
    (hentry : ∀ key poll, m ≠ .enter k key poll) :
    Manned k (keys ++ h.admittedBy k m) none (h.move m) := by
  by_cases hk : h.concerned? m = some k
  · cases m with
    | forward rid j secure payload =>
        obtain rfl : j = k := Option.some.inj hk
        exact hm.forward hi ho rid secure payload
    | enter j key poll =>
        obtain rfl : j = k := Option.some.inj hk
        exact absurd rfl (hentry key poll)
    | turn i =>
        cases hjob : h.ready[i]? with
        | none => simp [concerned?, hjob] at hk
        | some job =>
            cases job with
            | respond | evict => simp [concerned?, hjob] at hk
            | watch j key =>
                obtain rfl : j = k := by simpa [concerned?, hjob] using hk
                rw [move_turn hjob]
                simpa [admittedBy] using hm.turn_watch hi ho hjob
    | connect | create | push | closeId | shutdown | deliver | release | close | listen
    | listenSilently | unlisten | exchange | await | pass => cases hk
  · rw [admittedBy_eq_nil hk, List.append_nil]
    exact hm.happenings ho (hi.happenings ho m fun j hj heq => hk (heq ▸ hj))

theorem Manned.play (hm : Manned k keys none h) (hi : InStep still h) (ho : h.Orderly)
    {ms : List Move} (hentry : ∀ key poll, .enter k key poll ∉ ms) :
    Manned k (keys ++ admittedIn k h ms) none (h.play ms) := by
  induction ms generalizing still h keys with
  | nil => simpa [admittedIn, Hub.play] using hm
  | cons m ms ih =>
      have hstep := hm.move hi ho fun key poll heq => hentry key poll (heq ▸ List.mem_cons_self)
      have hrest := ih hstep (hi.move m).inStep (ho.move hi m) fun key poll hmem =>
        hentry key poll (List.mem_cons_of_mem m hmem)
      rw [List.append_assoc] at hrest
      exact hrest

theorem manned_start (settings : Settings) (server : Server) (sink : Sink)
    (ids : Nat → StreamId) (k : Nat) :
    Manned k [] none (Script.withService settings server sink ids) :=
  ⟨fun _ => rfl, .nil, by simp, by simp [Script.withService, session?],
    by simp [Script.withService, session?], by simp [Script.withService, session?], by simp⟩

/-! ### What is held -/

/-- Somebody waits for the answer to the exchange with a key. -/
def awaits (h : Hub) (key : Nat) : Bool :=
  (h.exchange? key).any fun x => x.listening && x.mailbox == .vacant

/-- No notice is missed: the watch of an exchange that nobody waits for is ready. -/
theorem Manned.ready_of_abandoned (hm : Manned k keys none h) (hs : h.session? k = some s)
    {x : Exchange} (hx : x ∈ s.held) (habandoned : x.isAbandoned = true) :
    .watch k x.key ∈ h.ready ∧ x.departed = true := by
  have hw := hm.waits s hs x hx
  have hdeparted : x.departed = true := by
    rw [hw.candid, ← hw.isAbandoned_eq]
    exact habandoned
  refine ⟨(hm.watched s hs x hx (by simp)).resolve_right fun hparked => ?_, hdeparted⟩
  rw [hdeparted] at hparked
  cases hparked.2

/-- **Where nobody who is held has left**, the session holds, in the order of their admission, all
requests it has admitted for whose answer somebody waits. -/
theorem Manned.held_eq_filter (hm : Manned k keys none h) (ho : h.Orderly)
    (hs : h.session? k = some s) (hstay : ∀ x ∈ s.held, x.isAbandoned = false) :
    s.held.map Exchange.key = keys.filter h.awaits := by
  have hheld : ∀ key ∈ s.held.map Exchange.key, h.awaits key = true := by
    intro key hkey
    obtain ⟨x, hx, rfl⟩ := List.mem_map.mp hkey
    have hw := hm.waits s hs x hx
    have hlistens : x.listening = true := by
      have hnot := hstay x hx
      rw [hw.isAbandoned_eq] at hnot
      simpa using hnot
    rw [awaits, ho.exchange?_eq_some_iff.mpr ⟨mem_exchanges_of_held hs hx, rfl⟩]
    simp [hlistens, hw.vacant]
  have hmem : ∀ key, key ∈ s.held.map Exchange.key ↔ key ∈ keys.filter h.awaits := by
    intro key
    rw [List.mem_filter]
    refine ⟨fun hkey => ⟨(hm.queue s hs).subset hkey, hheld key hkey⟩, fun hkey => ?_⟩
    obtain ⟨hkeys, hawaits⟩ := hkey
    rcases hm.settled key hkeys with ⟨t, ht, hmem⟩ | ⟨y, hy, hykey, hanswered⟩
    · rw [hs] at ht
      obtain rfl := Option.some.inj ht
      exact hmem
    · rw [awaits, ho.exchange?_eq_some_iff.mpr ⟨hy, hykey⟩] at hawaits
      obtain ⟨hlistens, hvacant⟩ : y.listening = true ∧ y.mailbox = .vacant := by
        simpa using hawaits
      exact absurd hvacant (hanswered hlistens)
  have hsub : (s.held.map Exchange.key).Sublist (keys.filter h.awaits) := by
    have hfilter := (hm.queue s hs).filter h.awaits
    rwa [List.filter_eq_self.mpr hheld] at hfilter
  have hperm : (s.held.map Exchange.key).Perm (keys.filter h.awaits) :=
    (List.perm_ext_iff_of_nodup ((hm.queue s hs).nodup hm.distinct)
      (hm.distinct.filter _)).mpr hmem
  exact hsub.eq_of_length hperm.length_eq

end Hub

end HttpBinding
