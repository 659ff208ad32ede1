import HttpBinding.Proofs.Hub.Eviction
import HttpBinding.Proofs.Hub.Happenings
import HttpBinding.Proofs.Patience

/-!
# HttpBinding.Proofs.Hub.Responding

Requesters in the hub.

In the hub nobody comes between the steps of a requester: when it looks for the answer and there is
something to react to, it takes its steps one after the other (`Patience.steps`). A requester that
waits in the background does so in the turns of its job (`turn_respond`). One that waits in the
foreground lets the clock go from deadline to deadline, with all work done at each of them, and looks
again; `Wait` is the course of that. What it returns is what its steps return where the wait ends
(`Reachable.respond_returns`).

Two things carry this. Every stop is at a later time, so a wait takes no longer than it may. And the
turns of jobs only serve exchanges or let requesters leave, so the exchange goes on all the way
(`Continues`), and an answer that was handed over on the way is still there.
-/

namespace HttpBinding

/-! ### Steps that nobody interrupts -/

/-- What can be taken of an exchange that has come to something is the answer, if there is one. -/
theorem Exchange.take_of_outcome {x : Exchange} {outcome : Except Fault Response}
    (ho : x.outcome? = some outcome) : x.take.1 = outcome.toOption := by
  cases outcome with
  | ok r => exact Exchange.outcome?_eq_ok ho
  | error fault => exact (Exchange.outcome?_eq_error ho).1

namespace Patience

variable {x : Exchange} {due : Bool}

/-- Steps that nobody interrupts. -/
def steps (due : Bool) : Nat → Patience × Exchange → Patience × Exchange
  | 0, p => p
  | n + 1, p => steps due n (p.1.next p.2 due)

/-- As long as there is nothing to react to, the requester stays where it is. -/
theorem steps_waiting (hnone : x.outcome? = none) (n : Nat) :
    steps false n (.waiting, x) = (.waiting, x) := by
  induction n with
  | zero => rfl
  | succ n ih => simpa [steps, next, hnone] using ih

/-- When there is something to react to, four steps bring the requester to its end. -/
theorem steps_of_ripe (hripe : due = true ∨ x.outcome? ≠ none) :
    steps due 4 (.waiting, x) = (.done (x.take.1.getD Exchange.expired), x.depart) := by
  cases ho : x.outcome? with
  | none =>
      have hdue : due = true := hripe.resolve_right (absurd ho)
      have htake : x.depart.take.1 = x.take.1 := x.leave_fst
      simp [steps, next, ho, hdue, Exchange.giveNotice_hangUp, htake]
  | some outcome =>
      rw [Exchange.take_of_outcome ho]
      cases outcome <;> simp [steps, next, ho, Except.toOption]

end Patience

namespace Hub

open Exchange (expired)

variable {still : List Nat} {h h' h'' : Hub} {key deadline : Nat} {x : Exchange}

/-- A requester in the background takes all steps that it can take in one turn. -/
theorem turn_respond (h : Hub) (name : String) (key deadline : Nat)
    (hx : h.exchange? key = some x) :
    match Patience.steps (deadline ≤ h.now) 4 (.waiting, x) with
    | (.done r, y) =>
      y = x.depart ∧ h.turn (.respond name key deadline) = h.finishResponse name key r
    | (_, y) =>
      y = x ∧ h.turn (.respond name key deadline) = h.park (.respond name key deadline) := by
  simp only [turn, hx, Option.bind_some]
  cases ho : x.outcome? with
  | none =>
      by_cases hdue : deadline ≤ h.now
      · obtain ⟨hnone, -⟩ := Exchange.outcome?_eq_none ho
        simp [Patience.steps_of_ripe, hdue, hnone]
      · simp [hdue, Patience.steps_waiting ho]
  | some outcome =>
      rw [Patience.steps_of_ripe (Or.inr (by simp [ho])), Exchange.take_of_outcome ho]
      cases outcome <;> exact ⟨rfl, rfl⟩

/-! ### What time and jobs make of an exchange -/

/-- What time and the turns of jobs make of a hub: everything stays in step and in order, and the
exchange with `key` goes on. -/
structure Continues (key : Nat) (h h' : Hub) : Prop where
  inStep : ∃ still, InStep still h'
  orderly : h'.Orderly
  goes : ∀ x, h.exchange? key = some x → ∃ y, h'.exchange? key = some y ∧ x.Follows y

theorem InStep.continues (hi : InStep still h) (ho : h.Orderly) : Continues key h h :=
  ⟨⟨still, hi⟩, ho, fun x hx => ⟨x, hx, .refl x⟩⟩

theorem Continues.trans (hc : Continues key h h') (hc' : Continues key h' h'') :
    Continues key h h'' := by
  refine ⟨hc'.inStep, hc'.orderly, fun x hx => ?_⟩
  obtain ⟨y, hy, hxy⟩ := hc.goes x hx
  obtain ⟨z, hz, hyz⟩ := hc'.goes y hy
  exact ⟨z, hz, hxy.trans hyz⟩

/-- An exchange that is carried along goes on. -/
theorem Carries.goes (hc : Carries h h') (x : Exchange) (hx : h.exchange? key = some x) :
    ∃ y, h'.exchange? key = some y ∧ x.Follows y := by
  have hkey : x.key = key := by simpa using List.find?_some hx
  obtain ⟨y, hy, hxy⟩ := hc.served x (List.mem_of_find?_eq_some hx)
  exact ⟨y, hc.orderly.exchange?_eq_some_iff.mpr ⟨hy, hxy.key.trans hkey⟩, hxy.follows⟩

/-- A requester may leave, the one of this exchange or another. -/
theorem Orderly.goes_depart (ho : h.Orderly) (other : Nat) (x : Exchange)
    (hx : h.exchange? key = some x) :
    ∃ y, (h.departRequester other).exchange? key = some y ∧ x.Follows y := by
  obtain ⟨hmem, hkey⟩ := ho.exchange?_eq_some_iff.mp hx
  have hleft : (if x.key == other then x.depart else x) ∈ (h.departRequester other).exchanges := by
    show _ ∈ (h.mapExchange other Exchange.depart).exchanges
    rw [exchanges_mapExchange]
    exact List.mem_map_of_mem hmem
  refine ⟨_, (ho.depart other).exchange?_eq_some_iff.mpr ⟨hleft, ?_⟩, ?_⟩ <;> split
  · exact hkey
  · exact hkey
  · exact x.follows_depart
  · exact .refl x

/-- Whatever a job does in its turn, it only serves exchanges or lets a requester leave. -/
theorem InStep.goes_turn (hi : InStep still h) (ho : h.Orderly) {i : Nat} {job : Job}
    (hjob : h.ready[i]? = some job) (x : Exchange) (hx : h.exchange? key = some x) :
    ∃ y, ({ h with ready := h.ready.eraseIdx i }.turn job).exchange? key = some y ∧
      x.Follows y := by
  obtain ⟨h₁, hh₁⟩ : ∃ h₁ : Hub, h₁ = { h with ready := h.ready.eraseIdx i } := ⟨_, rfl⟩
  have hoff : Carries h h₁ := by
    rw [hh₁]
    exact ho.of_eq rfl rfl
  have hwait : Carries h (h₁.park job) := by
    rw [hh₁]
    exact ho.of_eq rfl rfl
  have hl := leaves_eraseIdx hjob
  rw [← hh₁]
  cases job with
  | watch k other =>
      cases hgone : (h.exchange? other).any Exchange.departed with
      | false =>
          rw [hh₁, turn_watch_of_stays hgone, ← hh₁]
          exact hwait.goes x hx
      | true =>
          have hin : InStep still h₁ := hh₁ ▸ hi.take_of_ne_evict hl (by simp)
          obtain ⟨id, hsteps⟩ := hin.steps_release k
          rw [hh₁, turn_watch_of_departed hgone, ← hh₁]
          exact (hoff.trans (hoff.orderly.steps hsteps)).goes x hx
  | respond name other deadline =>
      have hfinish : ∀ r, ∃ y, (h₁.finishResponse name other r).exchange? key = some y ∧
          x.Follows y := by
        intro r
        obtain ⟨y, hy, hxy⟩ := hoff.goes x hx
        obtain ⟨z, hz, hyz⟩ := hoff.orderly.goes_depart other y hy
        exact ⟨z, hz, hxy.trans hyz⟩
      simp only [turn]
      split
      · exact hfinish _
      · exact hfinish _
      · split
        · exact hfinish _
        · exact hwait.goes x hx
  | evict t generation k =>
      rcases hi.evict_cases hjob with hnone | hwaits | ⟨c, -, -, -, id, hsteps⟩
      · rw [hh₁, hnone, ← hh₁]
        exact hoff.goes x hx
      · rw [hh₁, hwaits, ← hh₁]
        exact hwait.goes x hx
      · rw [← hh₁] at hsteps
        exact (hoff.trans (hoff.orderly.steps hsteps)).goes x hx

theorem InStep.continues_turn (hi : InStep still h) (ho : h.Orderly) :
    Continues key h (h.move (.turn 0)) ∧ (h.move (.turn 0)).now = h.now := by
  have hmoved := (hi.move (.turn 0)).inStep
  have horderly := ho.move hi (.turn 0)
  cases hjob : h.ready[0]? with
  | none =>
      rw [move_turn_of_none hjob]
      exact ⟨hi.continues ho, rfl⟩
  | some job =>
      rw [move_turn hjob] at hmoved horderly ⊢
      exact ⟨⟨⟨_, hmoved⟩, horderly, hi.goes_turn ho hjob⟩,
        (hi.course_turn (leaves_eraseIdx hjob)).now⟩

theorem InStep.continues_settleWithin (hi : InStep still h) (ho : h.Orderly) (turns : Nat) :
    Continues key h (settleWithin turns h) ∧ (settleWithin turns h).now = h.now := by
  rw [settleWithin_eq_play]
  induction turns generalizing still h with
  | zero => exact ⟨hi.continues ho, rfl⟩
  | succ turns ih =>
      obtain ⟨hturn, hnow⟩ : Continues key h _ ∧ _ := hi.continues_turn ho
      obtain ⟨still', hi'⟩ := hturn.inStep
      obtain ⟨hrest, hnow'⟩ := ih hi' hturn.orderly
      exact ⟨hturn.trans hrest, hnow'.trans hnow⟩

/-- All work is done. -/
theorem Continues.settle (hc : Continues key h h') :
    Continues key h h'.settle ∧ h'.settle.now = h'.now := by
  obtain ⟨still, hi⟩ := hc.inStep
  obtain ⟨hsettled, hnow⟩ := hi.continues_settleWithin hc.orderly h'.workBound
  exact ⟨hc.trans hsettled, hnow⟩

/-- The clock goes on. -/
theorem Continues.moveTo (hc : Continues key h h') (time : Nat) :
    Continues key h (h'.moveTo time) := by
  obtain ⟨still, hi⟩ := hc.inStep
  have hcarries : Carries h' (h'.moveTo time) := hc.orderly.of_eq rfl rfl
  exact hc.trans ⟨⟨still, hi.moveTo time⟩, hcarries.orderly, hcarries.goes⟩

/-! ### Waiting in the foreground -/

/-- The course of a wait for the answer to the exchange `key`, until `deadline` at most. -/
inductive Wait (key deadline : Nat) : Hub → Hub → Prop where
  /-- There is something to react to. -/
  | ends {h : Hub} {x : Exchange} (hx : h.exchange? key = some x) (hcome : x.outcome? ≠ none) :
    Wait key deadline h h
  /-- The requester has looked and stays where it is. The clock goes on to the next deadline of a
  job, and all work is done. -/
  | stop {h h' : Hub} {x : Exchange} {d : Nat} (hx : h.exchange? key = some x)
      (hstays : Patience.steps (deadline ≤ h.now) 4 (.waiting, x) = (.waiting, x))
      (hnext : h.nextDeadline? = some d) (hlater : h.now < d) (hbefore : d < deadline)
      (hrest : Wait key deadline (h.moveTo d).settle h') : Wait key deadline h h'
  /-- Nothing is due any more before the time is up. -/
  | expires {h : Hub} {x : Exchange} (hx : h.exchange? key = some x) (hnone : x.outcome? = none)
      (hlast : ∀ d, h.nextDeadline? = some d → h.now < d → deadline ≤ d) :
    Wait key deadline h (h.moveTo deadline)

/-- Where a wait is over: the clock has not gone too far, there is something to react to in the
exchange `y`, and `r` is what can be taken, if anything can be. -/
structure Concluded (key deadline : Nat) (h : Hub) (r : Response) (y : Exchange) : Prop where
  inTime : h.now ≤ deadline
  present : h.exchange? key = some y
  ripe : deadline ≤ h.now ∨ y.outcome? ≠ none
  returns : r = y.take.1.getD expired

/-- The steps of the requester return what can be taken. -/
theorem Concluded.steps_eq {r : Response} {y : Exchange} (ho : Concluded key deadline h r y) :
    Patience.steps (deadline ≤ h.now) 4 (.waiting, y) = (.done r, y.depart) := by
  rw [ho.returns]
  exact Patience.steps_of_ripe (ho.ripe.imp decide_eq_true id)

/-- A requester has waited from `h` on, and is given `result.2` in the hub `result.1`. -/
def Waited (key deadline : Nat) (h : Hub) (result : Hub × Response) : Prop :=
  ∃ y, Wait key deadline h result.1 ∧ Continues key h result.1 ∧
    Concluded key deadline result.1 result.2 y

/-- The exchange has come to something. -/
theorem InStep.waited_of_outcome (hi : InStep still h) (ho : h.Orderly) (left : Nat)
    {outcome : Except Fault Response}
    (hout : (h.exchange? key).bind Exchange.outcome? = some outcome) :
    Waited key (h.now + left) h (h, outcome.toOption.getD expired) := by
  obtain ⟨x, hx, hout⟩ := Option.bind_eq_some_iff.mp hout
  have hcome : x.outcome? ≠ none := by simp [hout]
  refine ⟨x, .ends hx hcome, hi.continues ho, ⟨Nat.le_add_right .., hx, Or.inr hcome, ?_⟩⟩
  rw [Exchange.take_of_outcome hout]

/-- Nothing came of the exchange until the time was up. -/
theorem InStep.waited_of_none (hi : InStep still h) (ho : h.Orderly)
    (hx : h.exchange? key = some x) {left : Nat} (hnone : x.outcome? = none)
    (hlast : ∀ d, h.nextDeadline? = some d → h.now < d → h.now + left ≤ d) :
    Waited key (h.now + left) h (h.moveTo (h.now + left), expired) := by
  refine ⟨x, .expires hx hnone hlast, (hi.continues ho).moveTo _,
    ⟨Nat.le_refl _, hx, Or.inl (Nat.le_refl _), ?_⟩⟩
  rw [(Exchange.outcome?_eq_none hnone).1]
  rfl

/-- The wait takes its course, and ends with what can be taken then. -/
theorem InStep.waited (hi : InStep still h) (ho : h.Orderly) (hx : h.exchange? key = some x)
    (left : Nat) : Waited key (h.now + left) h (awaitFor key left h) := by
  -- along the recursion: each stop is at a later time, so that there is less time left
  fun_induction awaitFor key left h generalizing still x with
  | case1 left h r hout => exact hi.waited_of_outcome ho left hout
  | case2 left h fault hout => exact hi.waited_of_outcome ho left hout
  | case3 left h hout d hnext hstop ih =>
      obtain ⟨hlater, hbefore⟩ := hstop
      have hnone : x.outcome? = none := by simpa [hx] using hout
      have hearly : ¬h.now + left ≤ h.now := by omega
      have hstays : Patience.steps (h.now + left ≤ h.now) 4 (.waiting, x) = (.waiting, x) := by
        rw [decide_eq_false hearly]
        exact Patience.steps_waiting hnone 4
      -- the deadline is what it was
      have hmoves : Continues key h (h.moveTo d) := (hi.continues ho).moveTo d
      obtain ⟨hstopped, hnow⟩ := hmoves.settle
      have hdeadline : (h.moveTo d).settle.now + (left - (d - h.now)) = h.now + left := by
        have hmoved : (h.moveTo d).now = d := rfl
        omega
      obtain ⟨still', hi'⟩ := hstopped.inStep
      obtain ⟨y, hy, -⟩ := hstopped.goes x hx
      obtain ⟨z, hwait, hrest, hend⟩ := ih hi' hstopped.orderly hy
      rw [hdeadline] at hwait hend
      exact ⟨z, .stop hx hstays hnext hlater hbefore hwait, hstopped.trans hrest, hend⟩
  | case4 left h hout d hnext hno =>
      refine hi.waited_of_none ho hx (by simpa [hx] using hout) fun e he hlater => ?_
      obtain rfl := Option.some.inj (hnext.symm.trans he)
      omega
  | case5 left h hout hnone =>
      refine hi.waited_of_none ho hx (by simpa [hx] using hout) fun d hd => ?_
      rw [hnone] at hd
      cases hd

/-- **A requester in the foreground returns what its steps return.** It waits for the answer to the
exchange `x`, for `millis` milliseconds at most:

* the clock goes from deadline to deadline, with all work done at each of them, as long as its steps
  leave it where it is, and not further than its own deadline;
* where that ends, in `h'`, it takes its steps with nobody coming in between, and they leave it done;
* what they return is what it returns, and work is done that it makes possible by leaving;
* an answer that had been handed over before is what it returns, and so is one that is handed over
  on the way; the empty body is returned if there is none in the end. -/
theorem Reachable.respond_returns (hr : h.Reachable) (hx : h.exchange? key = some x)
    (millis : Nat) : ∃ h' y r, Wait key (h.now + millis) h.settle h' ∧ h'.now ≤ h.now + millis ∧
      h'.exchange? key = some y ∧ x.Follows y ∧
      Patience.steps (h.now + millis ≤ h'.now) 4 (.waiting, y) = (.done r, y.depart) ∧
      (∀ given, x.take.1 = some given → r = given) ∧ r = y.take.1.getD expired ∧
      h.respond key millis = ((h'.departRequester key).settle, r) := by
  obtain ⟨still, hi⟩ := hr.inStep
  obtain ⟨ho, -⟩ := hr.orderly
  obtain ⟨hsettled, hnow⟩ := (hi.continues ho).settle
  obtain ⟨still', hi'⟩ := hsettled.inStep
  obtain ⟨z, hz, hxz⟩ := hsettled.goes x hx
  obtain ⟨y, hwait, hgoes, hend⟩ := hi'.waited hsettled.orderly hz millis
  rw [hnow] at hwait hend
  have hxy : x.Follows y := by
    obtain ⟨y', hy', hzy⟩ := hgoes.goes z hz
    obtain rfl := Option.some.inj (hend.present.symm.trans hy')
    exact hxz.trans hzy
  have hc : x.Consistent := ho.consistent x (ho.exchange?_eq_some_iff.mp hx).1
  refine ⟨_, y, _, hwait, hend.inTime, hend.present, hxy, hend.steps_eq, fun given hgiven => ?_,
    hend.returns, rfl⟩
  rw [hend.returns, hxy.take_eq hc hgiven]
  rfl

end Hub

end HttpBinding
