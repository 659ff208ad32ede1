import HttpBinding.Proofs.Hub.Steps

/-!
# HttpBinding.Proofs.Hub.Orderly

No exchange is in two places, and no job waits for the countdown of another session.

`Orderly` is what is true of all exchanges of a hub together, loose or held: their keys are distinct
and were given out before, and what is in their mailboxes was handed over by senders that are gone.
`Carries h h'` says that a hub stays orderly and that each exchange is still there, with nothing done
to it except by its server half. `Labelled` ties the jobs of countdowns to the countdowns: a job only
ever ends the session for which it was started.

Both hold along all small steps; which steps a move consists of is said elsewhere.
-/

namespace HttpBinding.Hub

variable {p : String → Prop} {k : Nat} {id : StreamId} {h h' h'' : Hub} {key : Nat}

/-! ### Exchanges -/

/-- All exchanges, the loose ones first. -/
def exchanges (h : Hub) : List Exchange := h.loose ++ h.sessions.flatMap Session.held

/-- The exchanges of a hub are told apart by their keys, and their halves are consistent. -/
structure Orderly (h : Hub) : Prop where
  distinct : (h.exchanges.map Exchange.key).Nodup
  numbered : ∀ x ∈ h.exchanges, x.key < h.nextExchange
  consistent : ∀ x ∈ h.exchanges, x.Consistent

/-- The hub stays orderly, and every exchange is still there and was only served. -/
structure Carries (h h' : Hub) : Prop where
  orderly : h'.Orderly
  served : ∀ x ∈ h.exchanges, ∃ y ∈ h'.exchanges, x.Served y

theorem Orderly.refl (ho : h.Orderly) : Carries h h := ⟨ho, fun x hx => ⟨x, hx, .refl x⟩⟩

theorem Carries.trans (hc : Carries h h') (hc' : Carries h' h'') : Carries h h'' := by
  refine ⟨hc'.orderly, ?_⟩
  intro x hx
  obtain ⟨y, hy, hxy⟩ := hc.served x hx
  obtain ⟨z, hz, hyz⟩ := hc'.served y hy
  exact ⟨z, hz, hxy.trans hyz⟩

theorem Orderly.exchange?_eq_some_iff (ho : h.Orderly) {x : Exchange} :
    h.exchange? key = some x ↔ x ∈ h.exchanges ∧ x.key = key := by
  refine ⟨fun hx => ⟨List.mem_of_find?_eq_some hx, by simpa using List.find?_some hx⟩, ?_⟩
  rintro ⟨hmem, rfl⟩
  exact find?_key ho.distinct hmem

/-- Exchanges with one key are one exchange. -/
theorem Orderly.eq_of_key (ho : h.Orderly) {x y : Exchange} (hx : x ∈ h.exchanges)
    (hy : y ∈ h.exchanges) (hkey : x.key = y.key) : x = y := by
  have hfind := ho.exchange?_eq_some_iff.mpr ⟨hx, hkey⟩
  rw [ho.exchange?_eq_some_iff.mpr ⟨hy, rfl⟩] at hfind
  exact (Option.some.inj hfind).symm

theorem mem_exchanges_of_loose {x : Exchange} (hx : x ∈ h.loose) : x ∈ h.exchanges :=
  List.mem_append_left _ hx

theorem mem_exchanges_of_held {s : Session Observer} (hs : h.session? k = some s) {x : Exchange}
    (hx : x ∈ s.held) : x ∈ h.exchanges :=
  List.mem_append_right _ (List.mem_flatMap.mpr ⟨s, mem_sessions hs, hx⟩)

/-- What a session holds has another key than what is loose. -/
theorem Orderly.ne_of_held_of_loose (ho : h.Orderly) {s : Session Observer}
    (hs : s ∈ h.sessions) {x y : Exchange} (hy : y ∈ s.held) (hx : x ∈ h.loose) : y.key ≠ x.key := by
  have hdistinct := ho.distinct
  rw [exchanges, List.map_append, List.nodup_append] at hdistinct
  have hheld : y ∈ h.sessions.flatMap Session.held := List.mem_flatMap.mpr ⟨s, hs, hy⟩
  exact fun heq => hdistinct.2.2 _ (List.mem_map_of_mem hx) _ (List.mem_map_of_mem hheld) heq.symm

/-- Only exchanges and the count of them matter. -/
theorem Orderly.of_eq (ho : h.Orderly) (hexchanges : h'.exchanges = h.exchanges)
    (hnext : h'.nextExchange = h.nextExchange) : Carries h h' := by
  refine ⟨⟨?_, ?_, ?_⟩, ?_⟩ <;> rw [hexchanges]
  · exact ho.distinct
  · rw [hnext]
    exact ho.numbered
  · exact ho.consistent
  · exact ho.refl.served

/-- Exchanges may be moved and served. -/
theorem Orderly.rearrange (ho : h.Orderly)
    (hkeys : (h'.exchanges.map Exchange.key).Perm (h.exchanges.map Exchange.key))
    (hserved : ∀ y ∈ h'.exchanges, ∃ x ∈ h.exchanges, x.Served y)
    (hnext : h.nextExchange ≤ h'.nextExchange) : Carries h h' := by
  have hafter : h'.Orderly := by
    refine ⟨hkeys.nodup_iff.mpr ho.distinct, ?_, ?_⟩
    · intro y hy
      obtain ⟨x, hx, hxy⟩ := hserved y hy
      rw [hxy.key]
      exact Nat.lt_of_lt_of_le (ho.numbered x hx) hnext
    · intro y hy
      obtain ⟨x, hx, hxy⟩ := hserved y hy
      exact hxy.consistent (ho.consistent x hx)
  refine ⟨hafter, ?_⟩
  intro x hx
  obtain ⟨y, hy, hkey⟩ := List.mem_map.mp (hkeys.mem_iff.mpr (List.mem_map_of_mem hx))
  obtain ⟨z, hz, hzy⟩ := hserved y hy
  -- what `y` comes from has the key of `x`
  obtain rfl := ho.eq_of_key hz hx (hzy.key.symm.trans hkey)
  exact ⟨y, hy, hzy⟩

/-- A new exchange gets a key of its own. -/
theorem Orderly.enlarge (ho : h.Orderly) {x : Exchange} (hkey : x.key = h.nextExchange)
    (hconsistent : x.Consistent) (hperm : h'.exchanges.Perm (x :: h.exchanges))
    (hnext : h'.nextExchange = h.nextExchange + 1) : Carries h h' := by
  refine ⟨⟨(hperm.map Exchange.key).nodup_iff.mpr (List.nodup_cons.mpr ⟨?_, ho.distinct⟩), ?_, ?_⟩,
    ?_⟩
  · intro hmem
    obtain ⟨y, hy, hykey⟩ := List.mem_map.mp hmem
    have hlt := ho.numbered y hy
    omega
  · intro y hy
    rw [hnext]
    rcases List.mem_cons.mp (hperm.mem_iff.mp hy) with rfl | hy
    · omega
    · exact Nat.lt_succ_of_lt (ho.numbered y hy)
  · intro y hy
    rcases List.mem_cons.mp (hperm.mem_iff.mp hy) with rfl | hy
    · exact hconsistent
    · exact ho.consistent y hy
  · intro y hy
    exact ⟨y, hperm.mem_iff.mpr (List.mem_cons_of_mem x hy), .refl y⟩

/-- When a session is replaced, the exchanges of the others stay where they are. -/
theorem exchanges_setSession {s : Session Observer} (hs : h.session? k = some s) :
    ∃ before after, h.exchanges = h.loose ++ (before ++ s.held ++ after) ∧
      ∀ (t : Session Observer) (loose : List Exchange),
        ({ h.setSession k t with loose } : Hub).exchanges = loose ++ (before ++ t.held ++ after) := by
  obtain ⟨hlt, heq⟩ := List.getElem?_eq_some_iff.mp hs
  refine ⟨(h.sessions.take k).flatMap Session.held, (h.sessions.drop (k + 1)).flatMap Session.held,
    ?_, ?_⟩
  · have hsplit : h.sessions = h.sessions.take k ++ s :: h.sessions.drop (k + 1) := by
      rw [← heq, List.getElem_cons_drop, List.take_append_drop]
    show h.loose ++ h.sessions.flatMap Session.held = _
    conv_lhs => rw [hsplit]
    simp
  · intro t loose
    simp [exchanges, setSession, List.set_eq_take_append_cons_drop, hlt]

theorem Orderly.setSession (ho : h.Orderly) {s t : Session Observer} (hs : h.session? k = some s)
    (hheld : t.held = s.held) : Carries h (h.setSession k t) := by
  obtain ⟨before, after, heq, hset⟩ := exchanges_setSession hs
  refine ho.of_eq ?_ rfl
  rw [heq, ← hheld]
  exact hset t h.loose

/-- To take a new exchange away again changes nothing for those that were there. -/
theorem Orderly.loose_visit (ho : h.Orderly) (rid : Nat) (secure : Bool) :
    ((h.newExchange rid secure).1.takeLoose h.nextExchange).loose = h.loose := by
  have hkeep : h.loose.filter (fun x => x.key != h.nextExchange) = h.loose := by
    refine List.filter_eq_self.mpr ?_
    intro x hx
    have hlt := ho.numbered x (mem_exchanges_of_loose hx)
    simp only [bne_iff_ne]
    omega
  simp [newExchange, takeLoose, hkeep]

theorem Orderly.trifle (ho : h.Orderly) (ht : Trifle p k id h h') : Carries h h' := by
  cases ht with
  | note | count | label | wake | unregister => exact ho.of_eq rfl rfl
  | observe hs | unobserve hs => exact ho.setSession hs rfl
  | cancel =>
      obtain ⟨timers, ready, parked, heq⟩ := cancel_eq h registryTimer k
      rw [heq]
      exact ho.of_eq rfl rfl
  | visit rid turnedAway =>
      rw [ho.loose_visit]
      cases turnedAway with
      | true =>
          refine ho.enlarge (x := (Exchange.fresh h.nextExchange rid true).depart.drop) rfl
            (.of_no_sender rfl) ?_ rfl
          show (h.loose ++ [_] ++ h.sessions.flatMap Session.held).Perm _
          rw [List.append_assoc]
          exact List.perm_middle
      | false =>
          refine ho.rearrange ?_ ?_ (Nat.le_succ _)
          · simp [exchanges, newExchange, takeLoose]
          · intro y hy
            refine ⟨y, ?_, .refl y⟩
            simpa [exchanges, newExchange, takeLoose] using hy

theorem Orderly.aside (ho : h.Orderly) (ha : Aside k id h h') : Carries h h' := by
  cases ha with
  | trifle ht => exact ho.trifle ht
  | arm =>
      obtain ⟨timers, ready, parked, heq⟩ := arm_eq h registryTimer k
      rw [heq]
      exact ho.of_eq rfl rfl

theorem Orderly.step (ho : h.Orderly) (hs : Step k id h h') : Carries h h' := by
  cases hs with
  | aside ha => exact ho.aside ha
  | operate hs hop =>
      rename_i s s' released
      obtain ⟨before, after, heq, hset⟩ := exchanges_setSession hs
      refine ho.rearrange ?_ ?_ (Nat.le_refl _)
      · rw [hset, heq]
        refine List.perm_iff_count.mpr fun n => ?_
        have hcount := hop.keys.count_eq n
        simp only [List.map_append, List.count_append] at hcount ⊢
        omega
      · rw [hset, heq]
        intro y hy
        simp only [List.mem_append] at hy
        have hstays : ∀ y ∈ s'.held ++ released,
            ∃ x ∈ h.loose ++ (before ++ s.held ++ after), x.Served y := by
          intro y hy
          obtain ⟨x, hx, hxy⟩ := hop.serves y hy
          exact ⟨x, by simp [hx], hxy⟩
        rcases hy with (hy | hy) | (hy | hy) | hy
        · exact ⟨y, by simp [hy], .refl y⟩
        · exact hstays y (by simp [hy])
        · exact ⟨y, by simp [hy], .refl y⟩
        · exact hstays y (by simp [hy])
        · exact ⟨y, by simp [hy], .refl y⟩

theorem Orderly.steps (ho : h.Orderly) (hs : Steps k id h h') : Carries h h' :=
  hs.keep (P := fun b => Carries h b) (fun hstep hc => hc.trans (hc.orderly.step hstep)) ho.refl

/-- A loose exchange stays loose, and nobody acts on it. -/
theorem Orderly.loose_trifle (ho : h.Orderly) (ht : Trifle p k id h h') {x : Exchange}
    (hx : x ∈ h.loose) : x ∈ h'.loose := by
  cases ht with
  | note | count | label | observe | unobserve | wake | unregister => exact hx
  | cancel =>
      obtain ⟨timers, ready, parked, heq⟩ := cancel_eq h registryTimer k
      rw [heq]
      exact hx
  | visit rid turnedAway =>
      rw [ho.loose_visit]
      exact List.mem_append_left _ hx

theorem Orderly.loose_step (ho : h.Orderly) (hs : Step k id h h') {x : Exchange}
    (hx : x ∈ h.loose) : x ∈ h'.loose := by
  cases hs with
  | operate => exact List.mem_append_left _ hx
  | aside ha =>
      cases ha with
      | trifle ht => exact ho.loose_trifle ht hx
      | arm =>
          obtain ⟨timers, ready, parked, heq⟩ := arm_eq h registryTimer k
          rw [heq]
          exact hx

theorem Orderly.loose_steps (ho : h.Orderly) (hs : Steps k id h h') {x : Exchange}
    (hx : x ∈ h.loose) : x ∈ h'.loose := by
  have hboth : Carries h h' ∧ x ∈ h'.loose := by
    refine hs.keep (P := fun b => Carries h b ∧ x ∈ b.loose) ?_ ⟨ho.refl, hx⟩
    intro a b hstep hc
    exact ⟨hc.1.trans (hc.1.orderly.step hstep), hc.1.orderly.loose_step hstep hc.2⟩
  exact hboth.2

/-- Whatever is done to one exchange is done to it wherever it is. -/
theorem exchanges_mapExchange (h : Hub) (key : Nat) (f : Exchange → Exchange) :
    (h.mapExchange key f).exchanges =
      h.exchanges.map fun x => if x.key == key then f x else x := by
  simp [exchanges, mapExchange, List.map_flatMap, List.flatMap_map]

/-- A list without the key is not changed. -/
theorem map_of_ne_key {xs : List Exchange} (hxs : ∀ x ∈ xs, x.key ≠ key) (f : Exchange → Exchange) :
    (xs.map fun x => if x.key == key then f x else x) = xs := by
  refine (List.map_congr_left fun x hx => ?_).trans (List.map_id' xs)
  simp [hxs x hx]

/-- Where no session holds the key, only what is loose may change. -/
theorem mapExchange_of_not_held (hheld : ∀ s ∈ h.sessions, ∀ x ∈ s.held, x.key ≠ key)
    (f : Exchange → Exchange) : h.mapExchange key f =
      { h with loose := h.loose.map fun x => if x.key == key then f x else x } := by
  have hsessions : (h.sessions.map fun s =>
      { s with held := s.held.map fun x => if x.key == key then f x else x }) = h.sessions := by
    refine (List.map_congr_left fun s hs => ?_).trans (List.map_id' h.sessions)
    rw [map_of_ne_key (hheld s hs)]
  simp only [mapExchange, hsessions]

/-- Both sides of an exchange may act. -/
theorem Orderly.mapExchange (ho : h.Orderly) {f : Exchange → Exchange}
    (hkey : ∀ x, (f x).key = x.key) (hconsistent : ∀ x, x.Consistent → (f x).Consistent) :
    (h.mapExchange key f).Orderly := by
  have hg : ∀ x : Exchange, (if x.key == key then f x else x).key = x.key := by
    intro x
    split
    · exact hkey x
    · rfl
  refine ⟨?_, ?_, ?_⟩ <;> rw [exchanges_mapExchange]
  · rw [Session.map_map_of_kept hg]
    exact ho.distinct
  · intro y hy
    obtain ⟨x, hx, rfl⟩ := List.mem_map.mp hy
    rw [hg]
    exact ho.numbered x hx
  · intro y hy
    obtain ⟨x, hx, rfl⟩ := List.mem_map.mp hy
    split
    · exact hconsistent x (ho.consistent x hx)
    · exact ho.consistent x hx

/-! ### Sessions that a call is not about -/

theorem Trifle.session? {j : Nat} (ht : Trifle p k id h h') (hj : j ≠ k) :
    h'.session? j = h.session? j := by
  cases ht with
  | note | count | label | wake | unregister | visit => rfl
  | observe | unobserve => simp [session?_setSession, Ne.symm hj]
  | cancel =>
      obtain ⟨timers, ready, parked, heq⟩ := cancel_eq h registryTimer k
      rw [heq]
      rfl

theorem Aside.session? {j : Nat} (ha : Aside k id h h') (hj : j ≠ k) :
    h'.session? j = h.session? j := by
  cases ha with
  | trifle ht => exact ht.session? hj
  | arm =>
      obtain ⟨timers, ready, parked, heq⟩ := arm_eq h registryTimer k
      rw [heq]
      rfl

theorem Steps.session? {j : Nat} (hs : Steps k id h h') (hj : j ≠ k) :
    h'.session? j = h.session? j := by
  refine hs.keep (P := fun b => b.session? j = h.session? j) ?_ rfl
  intro a b hstep heq
  refine Eq.trans ?_ heq
  cases hstep with
  | aside ha => exact ha.session? hj
  | operate =>
      show (a.setSession k _).session? j = a.session? j
      simp [session?_setSession, Ne.symm hj]

/-! ### The session that a call is about -/

/-- A trifle changes nothing of a session but who observes it. -/
theorem Trifle.recast {s : Session Observer} (ht : Trifle p k id h h')
    (hs : h.session? k = some s) :
    ∃ observers nextTicket, h'.session? k = some { s with observers, nextTicket } := by
  cases ht with
  | note | count | label | wake | unregister | visit => exact ⟨_, _, hs⟩
  | observe ht | unobserve ht =>
      rw [hs] at ht
      obtain rfl := Option.some.inj ht
      exact ⟨_, _, session?_setSession_self hs _⟩
  | cancel =>
      obtain ⟨timers, ready, parked, heq⟩ := cancel_eq h registryTimer k
      rw [heq]
      exact ⟨_, _, hs⟩

theorem Aside.recast {s : Session Observer} (ha : Aside k id h h') (hs : h.session? k = some s) :
    ∃ observers nextTicket, h'.session? k = some { s with observers, nextTicket } := by
  cases ha with
  | trifle ht => exact ht.recast hs
  | arm =>
      obtain ⟨timers, ready, parked, heq⟩ := arm_eq h registryTimer k
      rw [heq]
      exact ⟨_, _, hs⟩

/-- After the operation itself a call changes nothing of its session but who observes it. -/
theorem Asides.recast {s : Session Observer} (ha : Asides k id h h')
    (hs : h.session? k = some s) :
    ∃ observers nextTicket, h'.session? k = some { s with observers, nextTicket } := by
  refine ha.keep (P := fun b => ∃ observers nextTicket,
    b.session? k = some { s with observers, nextTicket }) ?_ ⟨_, _, hs⟩
  rintro a b hstep ⟨observers, nextTicket, hs'⟩
  obtain ⟨observers', nextTicket', hb⟩ := hstep.recast hs'
  exact ⟨observers', nextTicket', hb⟩

/-! ### Jobs of countdowns -/

/-- The job of a countdown ends no other session than that countdown. -/
structure Labelled (h : Hub) : Prop where
  oneTable : h.timers.length = 1
  regular : (h.timer registryTimer).Regular
  labelled : ∀ t generation j, .evict t generation j ∈ h.ready ++ h.parked →
    generation < (h.timer registryTimer).next ∧
      ∀ c ∈ h.running, c.generation = generation → c.target = j

/-- Jobs may be moved and dropped, and others may be added that are not for countdowns. -/
theorem Labelled.of_jobs (hl : h.Labelled) (htimers : h'.timers = h.timers)
    (hjobs : ∀ t generation j, .evict t generation j ∈ h'.ready ++ h'.parked →
      .evict t generation j ∈ h.ready ++ h.parked) : h'.Labelled := by
  have htimer : h'.timer registryTimer = h.timer registryTimer := by simp [timer, htimers]
  refine ⟨htimers ▸ hl.oneTable, htimer ▸ hl.regular, ?_⟩
  intro t generation j hjob
  rw [htimer, Hub.running, htimer]
  exact hl.labelled t generation j (hjobs t generation j hjob)

/-- Jobs that are woken are still there. -/
theorem perm_wake (h : Hub) (p : Job → Bool) :
    ((h.wake p).ready ++ (h.wake p).parked).Perm (h.ready ++ h.parked) := by
  simp only [wake, List.append_assoc]
  exact (List.filter_append_perm p h.parked).append_left h.ready

theorem mem_wake {h : Hub} {p : Job → Bool} {job : Job}
    (hjob : job ∈ (h.wake p).ready ++ (h.wake p).parked) : job ∈ h.ready ++ h.parked :=
  (perm_wake h p).mem_iff.mp hjob

theorem Labelled.wake (hl : h.Labelled) (p : Job → Bool) : (h.wake p).Labelled :=
  hl.of_jobs rfl fun _ _ _ hjob => mem_wake hjob

/-- A job may be added if it is not for a countdown, or for one that ends its session. -/
theorem Labelled.spawn (hl : h.Labelled) {job : Job}
    (hjob : ∀ t generation j, job = .evict t generation j →
      generation < (h.timer registryTimer).next ∧
        ∀ c ∈ h.running, c.generation = generation → c.target = j) : (h.spawn job).Labelled := by
  refine ⟨hl.oneTable, hl.regular, ?_⟩
  intro t generation j hmem
  simp only [Hub.spawn, List.mem_append, List.mem_singleton] at hmem
  rcases hmem with (hmem | rfl) | hmem
  · exact hl.labelled t generation j (List.mem_append_left _ hmem)
  · exact hjob t generation j rfl
  · exact hl.labelled t generation j (List.mem_append_right _ hmem)

/-- Countdowns may be stopped, and others started that no job waits for yet. -/
theorem Labelled.setTimer (hl : h.Labelled) {c : Countdowns}
    (hregular : c.Regular) (hnext : (h.timer registryTimer).next ≤ c.next)
    (hrunning : ∀ d ∈ c.running,
      d ∈ h.running ∨ d.generation = (h.timer registryTimer).next) :
    (h.setTimer registryTimer c).Labelled := by
  have htimer := timer_setTimer_of_oneTable hl.oneTable c
  refine ⟨by simp [Hub.setTimer, Hub.wake, hl.oneTable], htimer.symm ▸ hregular, ?_⟩
  intro t generation j hjob
  obtain ⟨hlt, htarget⟩ := hl.labelled t generation j (mem_wake hjob)
  rw [htimer, Hub.running, htimer]
  refine ⟨Nat.lt_of_lt_of_le hlt hnext, ?_⟩
  intro d hd hgen
  rcases hrunning d hd with hd | hnew
  · exact htarget d hd hgen
  · omega

/-- A countdown that is started has a job of its own. -/
theorem Labelled.arm (hl : h.Labelled) (k : Nat) : (h.arm registryTimer k).Labelled := by
  cases hs : h.session? k with
  | none =>
      simp only [Hub.arm, hs]
      exact hl
  | some s =>
      obtain ⟨c, hc⟩ : ∃ c, c = (h.timer registryTimer).arm s.id k s.shown.closed h.now
        s.terms.inactivityTimeout := ⟨_, rfl⟩
      have hregular : c.Regular := hc ▸ hl.regular.arm ..
      have hnext : c.next = (h.timer registryTimer).next + 1 := by rw [hc, Countdowns.next_arm]
      -- what runs now ran before, or it is the new countdown
      have hrunning : ∀ d ∈ c.running, d ∈ h.running ∨
          d.generation = (h.timer registryTimer).next ∧ d.target = k := by
        intro d hd
        rw [hc, hl.regular.mem_arm] at hd
        rcases hd with ⟨hd, -⟩ | ⟨-, rfl⟩
        · exact Or.inl hd
        · exact Or.inr ⟨rfl, rfl⟩
      have hset : (h.setTimer registryTimer c).Labelled :=
        hl.setTimer hregular (by omega) fun d hd => (hrunning d hd).imp id And.left
      have htimer := timer_setTimer_of_oneTable hl.oneTable c
      cases hclosed : s.shown.closed with
      | true =>
          rw [hclosed] at hc
          simpa only [Hub.arm, hs, hclosed, ← hc, if_true] using hset
      | false =>
          rw [hclosed] at hc
          simp only [Hub.arm, hs, hclosed, ← hc, Bool.false_eq_true, if_false]
          refine hset.spawn ?_
          intro t generation j hjob
          obtain ⟨rfl, rfl, rfl⟩ : registryTimer = t ∧ (h.timer registryTimer).next = generation ∧
            k = j := by simpa using hjob
          rw [Hub.running, htimer]
          refine ⟨by omega, ?_⟩
          intro d hd hgen
          rcases hrunning d hd with hd | ⟨-, htarget⟩
          · have hlt := hl.regular.numbered d hd
            omega
          · exact htarget

theorem Labelled.cancel (hl : h.Labelled) (k : Nat) : (h.cancel registryTimer k).Labelled := by
  unfold Hub.cancel
  split
  · exact hl
  · exact hl.setTimer (hl.regular.cancel _) (Nat.le_refl _) fun d hd =>
      Or.inl (List.mem_filter.mp hd).1

theorem Labelled.step (hl : h.Labelled) (hs : Step k id h h') : h'.Labelled := by
  cases hs with
  | operate => exact hl.of_jobs rfl fun _ _ _ hjob => hjob
  | aside ha =>
      cases ha with
      | arm => exact hl.arm k
      | trifle ht =>
          cases ht with
          | note | count | label | observe | unobserve | unregister | visit =>
              exact hl.of_jobs rfl fun _ _ _ hjob => hjob
          | wake q => exact hl.wake q
          | cancel => exact hl.cancel k

end HttpBinding.Hub
