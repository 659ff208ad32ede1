import HttpBinding.Hub.Work
import HttpBinding.Proofs.Hub.Service

/-!
# HttpBinding.Proofs.Hub.Work

Background work and the clock keep the hub in step.

A turn begins by taking the job off the queue, and with it the promise that the countdown of the
job is attended to. For all jobs but those of running countdowns nothing is lost by that
(`InStep.take`). The job of a running countdown either goes back to wait (`InStep.turn_waits`) or
ends the session of the countdown (`InStep.turn_ends`), which stops the countdown as well.
-/

namespace HttpBinding.Hub

variable {still : List Nat} {h : Hub} {job : Job} {rest : List Job}

/-! ### Taking a job off the queue -/

/-- The queue `rest` is what is left of the queue of `h` without `job`. -/
def Leaves (h : Hub) (job : Job) (rest : List Job) : Prop := ∀ j ∈ h.ready, j = job ∨ j ∈ rest

theorem leaves_eraseIdx {i : Nat} (hi : h.ready[i]? = some job) :
    h.Leaves job (h.ready.eraseIdx i) := by
  intro j hj
  obtain ⟨n, hn⟩ := List.mem_iff_getElem?.mp hj
  by_cases heq : n = i
  · subst heq
    rw [hi] at hn
    exact Or.inl (Option.some.inj hn).symm
  · exact Or.inr (List.mem_eraseIdx_iff_getElem?.mpr ⟨n, heq, hn⟩)

/-- To take a job off the queue is not noticed by any session. -/
theorem spares_take (h : Hub) (rest : List Job) (j : Nat) : Spares j h { h with ready := rest } :=
  ⟨rfl, fun _ => Iff.rfl, fun _ _ => Iff.rfl⟩

theorem HasJob.take {c : Countdown} (hj : h.HasJob c) (hl : h.Leaves job rest)
    (hne : .evict registryTimer c.generation c.target ≠ job) :
    { h with ready := rest }.HasJob c := by
  rcases hj with hready | hparked
  · exact Or.inl ((hl _ hready).resolve_left hne)
  · exact Or.inr hparked

/-- The sessions for which no countdown waits for the job are kept without it. -/
theorem Kept.take {k : Nat} {g : Gist} (hk : Kept still h k g) (hl : h.Leaves job rest)
    (hne : ∀ c ∈ h.running, c.target = k →
      .evict registryTimer c.generation c.target ≠ job) :
    Kept still { h with ready := rest } k g :=
  hk.of_spares (spares_take h rest k) fun c hc ht => (hk.wound c hc ht).take hl (hne c hc ht)

theorem Sane.take (hs : h.Sane) (rest : List Job) : { h with ready := rest }.Sane :=
  hs.of_eq rfl rfl rfl rfl

/-- A job that no countdown waits for may be taken off the queue. -/
theorem InStep.take (hi : InStep still h) (hl : h.Leaves job rest)
    (hne : ∀ c ∈ h.running, .evict registryTimer c.generation c.target ≠ job) :
    InStep still { h with ready := rest } :=
  ⟨hi.sane.take rest, hi.begun, fun j g hg => (hi.kept j g hg).take hl fun c hc _ => hne c hc⟩

/-! ### Turns -/

theorem beside_park (h : Hub) (job : Job) : Beside h (h.park job) :=
  .of_jobs (List.append_nil _).symm fun _ hjob => Or.inl (List.mem_append_left _ hjob)

theorem beside_finishResponse (h : Hub) (name : String) (key : Nat) (r : Response) :
    Beside h (h.finishResponse name key r) :=
  (beside_departRequester h key).trans (beside_write ..)

theorem beside_respond (h : Hub) (name : String) (key deadline : Nat) :
    Beside h (h.turn (.respond name key deadline)) := by
  simp only [turn]
  split
  · exact beside_finishResponse ..
  · exact beside_finishResponse ..
  · split
    · exact beside_finishResponse ..
    · exact beside_park ..

/-- Open sessions are registered, and of an ended one nothing is left that could be given up. -/
theorem InStep.reclaim_eq (hi : InStep still h) (k : Nat) : h.reclaim k = h := by
  unfold reclaim
  split
  · rfl
  · rename_i s hs
    split
    · rfl
    · rename_i hfree
      cases hc : s.closed with
      | true =>
          have hsound := hi.sane.tidy.sound s (mem_sessions hs)
          obtain ⟨hlt, heq⟩ := List.getElem?_eq_some_iff.mp hs
          rw [hsound.giveUp_of_closed hc]
          simp only [absorb, setSession, ← heq, List.set_getElem_self, List.append_nil,
            List.foldl_nil]
          split <;> rfl
      | false =>
          have hlisted : (s.id, k) ∈ h.registry :=
            (hi.kept k s.gist (gist?_of_session? hs)).listed.mpr (hi.attended hs hc)
          have hreferred : h.isReferredTo k = true := by
            have hany : h.registry.any (fun e => e.2 == k) = true :=
              List.any_eq_true.mpr ⟨_, hlisted, by simp⟩
            simp [isReferredTo, hany]
          exact absurd hreferred hfree

theorem timer_of_ne (ht : h.Tidy) {t : Nat} (hne : t ≠ registryTimer) (generation : Nat) :
    (h.timer t).find? generation = none := by
  have hlen := ht.oneTable
  have hge : h.timers.length ≤ t := by
    have hpos : 0 < t := Nat.pos_of_ne_zero hne
    omega
  simp [timer, List.getD_eq_getElem?_getD, List.getElem?_eq_none hge, Countdowns.find?]

/-- What is found by its generation runs in the table of the registry. -/
theorem Sane.of_find? (hs : h.Sane) {t generation : Nat} {c : Countdown}
    (hfind : (h.timer t).find? generation = some c) :
    t = registryTimer ∧ c ∈ h.running ∧ c.generation = generation := by
  have ht : t = registryTimer := by
    by_contra hne
    rw [timer_of_ne hs.tidy hne] at hfind
    cases hfind
  subst ht
  exact ⟨rfl, hs.regular.find?_eq_some_iff.mp hfind⟩

/-- The job of a countdown that was stopped may be taken off the queue. -/
theorem InStep.take_stopped (hi : InStep still h) {t generation k : Nat}
    (hl : h.Leaves (.evict t generation k) rest)
    (hnone : (h.timer t).find? generation = none) : InStep still { h with ready := rest } := by
  refine hi.take hl fun c hc heq => ?_
  simp only [Job.evict.injEq] at heq
  obtain ⟨rfl, rfl, -⟩ := heq
  rw [hi.sane.regular.find?_eq_some_iff.mpr ⟨hc, rfl⟩] at hnone
  cases hnone

/-- In its last turn the job of a countdown that was stopped does nothing. -/
theorem InStep.turn_eq_of_stopped (hi : InStep still h) {t generation k : Nat}
    (hl : h.Leaves (.evict t generation k) rest)
    (hnone : (h.timer t).find? generation = none) :
    { h with ready := rest }.turn (.evict t generation k) = { h with ready := rest } := by
  have hsame : ({ h with ready := rest } : Hub).timer t = h.timer t := rfl
  simp only [turn, hsame, hnone]
  exact (hi.take_stopped hl hnone).reclaim_eq k

theorem InStep.turn_stopped (hi : InStep still h) {t generation k : Nat}
    (hl : h.Leaves (.evict t generation k) rest)
    (hnone : (h.timer t).find? generation = none) :
    InStep still ({ h with ready := rest }.turn (.evict t generation k)) ∧
      Beside { h with ready := rest } ({ h with ready := rest }.turn (.evict t generation k)) := by
  rw [hi.turn_eq_of_stopped hl hnone]
  exact ⟨hi.take_stopped hl hnone, .refl _⟩

/-- Before its time the job of a countdown goes back to wait. -/
theorem InStep.turn_waits (hi : InStep still h) {c : Countdown} (hc : c ∈ h.running) {k : Nat}
    (hl : h.Leaves (.evict registryTimer c.generation k) rest) (hearly : h.now < c.deadline) :
    InStep still ({ h with ready := rest }.turn (.evict registryTimer c.generation k)) ∧
      Beside { h with ready := rest }
        ({ h with ready := rest }.turn (.evict registryTimer c.generation k)) := by
  have hfind : (h.timer registryTimer).find? c.generation = some c :=
    hi.sane.regular.find?_eq_some_iff.mpr ⟨hc, rfl⟩
  have hturn : { h with ready := rest }.turn (.evict registryTimer c.generation k) =
      { h with ready := rest }.park (.evict registryTimer c.generation k) := by
    have hsame : ({ h with ready := rest } : Hub).timer registryTimer =
      h.timer registryTimer := rfl
    have hlate : ¬ c.deadline ≤ h.now := Nat.not_le.mpr hearly
    simp only [turn, hsame, hfind, hlate, if_false]
  rw [hturn]
  have hb := beside_park { h with ready := rest } (.evict registryTimer c.generation k)
  refine ⟨⟨(hb.confined 0).sane (hi.sane.take rest) (hb.known (hi.sane.take rest) 0), hi.begun,
    fun j g hg => ?_⟩, hb⟩
  have hkept := hi.kept j g hg
  refine hkept.of_spares ((spares_take h rest j).trans (hb.spares j)) fun d hd ht => ?_
  by_cases hne : .evict registryTimer d.generation d.target =
    Job.evict registryTimer c.generation k
  · -- it is parked now, and its time has not come
    have hgen : d.generation = c.generation := by
      simp only [Job.evict.injEq, true_and] at hne
      exact hne.1
    obtain rfl := hi.sane.regular.eq_of_generation hd hc hgen
    exact Or.inr ⟨List.mem_append_right _ (by rw [hne]; exact List.mem_singleton_self _), hearly⟩
  · exact hb.toCourse.hasJob ((hkept.wound d hd ht).take hl hne)

theorem beside_setTimer_self (ht : h.Tidy) :
    Beside h (h.setTimer registryTimer (h.timer registryTimer)) := by
  have hconf : ∀ k, Confined k h (h.setTimer registryTimer (h.timer registryTimer)) := fun k =>
    confined_setTimer ht id fun c _ => Iff.rfl
  exact ⟨(hconf 0).toCourse, fun j => (hconf (j + 1)).spares j (by omega)⟩

/-- When the job of a countdown is taken off the queue, all sessions but its own are kept. -/
theorem InStep.underway_take (hi : InStep still h) {c : Countdown} (hc : c ∈ h.running) {k : Nat}
    (hl : h.Leaves (.evict registryTimer c.generation k) rest) {g : Gist}
    (hg : h.gist? c.target = some g) :
    Underway still c.target g { h with ready := rest } { h with ready := rest } := by
  have hlisted : (g.id, c.target) ∈ h.registry := hi.sane.id_eq hc hg ▸ hi.sane.known c hc
  refine ⟨.refl _ _, ⟨hi.sane.take rest, hi.begun, fun j g' hj hg' => ?_⟩, hg, fun j hj => ?_⟩
  · -- the countdowns for other sessions do not wait for this job
    refine (hi.kept j g' hg').take hl ?_
    intro d hd ht heq
    simp only [Job.evict.injEq, true_and] at heq
    obtain rfl := hi.sane.regular.eq_of_generation hd hc heq.1
    exact hj ht.symm
  · exact hi.sane.eq_of_listed hj hlisted

/-- A countdown that was stopped has nothing left to take away. -/
theorem Confined.retire_of_stopped {h' : Hub} {c : Countdown} (hconf : Confined c.target h h')
    (hreg : (h.timer registryTimer).Regular) (hc : c ∈ h.running) (hsane : h'.Sane)
    (hstop : Stopped c.target h') :
    (h'.timer registryTimer).retire c = h'.timer registryTimer := by
  refine hsane.regular.retire_of_not_running fun d hd hgen => ?_
  have hne : d.target ≠ c.target := hstop d hd
  have hbefore : d ∈ h.running := ((hconf.spares d.target hne).running d rfl).mp hd
  obtain rfl := hreg.eq_of_generation hbefore hc hgen
  exact hne rfl

/-- When its time has come, the job of a countdown ends the session, and with that the countdown is
stopped already. -/
theorem InStep.turn_due (hi : InStep still h) {c : Countdown} (hc : c ∈ h.running) {k : Nat}
    (hl : h.Leaves (.evict registryTimer c.generation k) rest) (hdue : c.deadline ≤ h.now) {g : Gist}
    (hg : h.gist? c.target = some g) {h₁ h₂ : Hub} (hh₁ : h₁ = { h with ready := rest })
    (hh₂ : h₂ = h₁.close c.target false) :
    InStep still h₂ ∧ Underway still c.target g.ended h₁ h₂ ∧
      h₁.turn (.evict registryTimer c.generation k) =
        h₂.setTimer registryTimer (h₂.timer registryTimer) := by
  have hkept := hi.kept c.target g hg
  have hopen : g.closed = false := (hkept.timed.mp ⟨c, hc, rfl⟩).1
  have hatt : g.attended = true := hkept.attended hopen
  have hunder := hi.underway_take hc hl hg
  have hrun : c ∈ h₁.running := hh₁ ▸ hc
  have hreg : (h₁.timer registryTimer).Regular := hh₁ ▸ hi.sane.regular
  have hlisted : (g.id, c.target) ∈ h₁.registry := hh₁ ▸ hkept.listed.mpr hatt
  have hdue₁ : c.deadline ≤ h₁.now := hh₁ ▸ hdue
  rw [← hh₁] at hunder
  obtain ⟨hclosed, hgone⟩ := hunder.close hlisted hopen hatt h₁.sessions.length false
  rw [show closeWithin (h₁.sessions.length + 1) h₁ c.target false = h₂ from hh₂.symm]
    at hclosed hgone
  have hin := hclosed.inStep_of_gone (hkept.not_still hopen) hgone
  have hretired := hclosed.confined.retire_of_stopped hreg hrun hin.sane hgone.2
  have hfind := hreg.find?_eq_some_iff.mpr ⟨hrun, rfl⟩
  have hset := hin.beside (beside_setTimer_self hin.sane.tidy)
  refine ⟨hin, hclosed, ?_⟩
  simp only [turn, hfind, hdue₁, if_true, ← hh₂, hretired, hset.reclaim_eq]

/-- All of this is confined to the session of the countdown. -/
theorem InStep.turn_ends (hi : InStep still h) {c : Countdown} (hc : c ∈ h.running) {k : Nat}
    (hl : h.Leaves (.evict registryTimer c.generation k) rest) (hdue : c.deadline ≤ h.now) :
    InStep still ({ h with ready := rest }.turn (.evict registryTimer c.generation k)) ∧
      Confined c.target { h with ready := rest }
        ({ h with ready := rest }.turn (.evict registryTimer c.generation k)) ∧
      ∀ g, h.gist? c.target = some g →
        ({ h with ready := rest }.turn (.evict registryTimer c.generation k)).gist? c.target =
          some g.ended := by
  obtain ⟨g, hg, -⟩ := hi.sane.real _ (hi.sane.known c hc)
  obtain ⟨hin, hclosed, hturn⟩ := hi.turn_due hc hl hdue hg rfl rfl
  have hb := beside_setTimer_self hin.sane.tidy
  rw [hturn]
  refine ⟨hin.beside hb, hclosed.confined.trans (hb.confined _), fun g' hg' => ?_⟩
  rw [hg] at hg'
  obtain rfl := Option.some.inj hg'
  rw [(hb.spares _).gist]
  exact hclosed.gist

/-- A job that waits for an exchange is not the job of a countdown. -/
theorem InStep.take_of_ne_evict (hi : InStep still h) (hl : h.Leaves job rest)
    (hne : ∀ t generation k, job ≠ .evict t generation k) : InStep still { h with ready := rest } :=
  hi.take hl fun _ _ heq => hne _ _ _ heq.symm

/-- A watch that is off the queue goes on to wait if its requester is still there. -/
theorem turn_watch_of_stays {k key : Nat} (hstays : (h.exchange? key).any Exchange.departed = false) :
    { h with ready := rest }.turn (.watch k key) =
      { h with ready := rest }.park (.watch k key) := by
  have hsame : ({ h with ready := rest } : Hub).exchange? key = h.exchange? key := rfl
  simp [turn, hsame, hstays]

/-- Where its requester has gone, the session lets go of those who left. -/
theorem turn_watch_of_departed {k key : Nat} (hgone : (h.exchange? key).any Exchange.departed = true) :
    { h with ready := rest }.turn (.watch k key) = ({ h with ready := rest }.release k).1 := by
  have hsame : ({ h with ready := rest } : Hub).exchange? key = h.exchange? key := rfl
  simp [turn, hsame, hgone]

/-- A requester that was watched has gone, or is still there. -/
theorem InStep.turn_watch (hi : InStep still h) (k key : Nat) :
    Serves still k h (h.turn (.watch k key)) := by
  simp only [turn]
  split
  · cases hs : h.session? k with
    | none =>
        simp only [Hub.release, hs]
        exact hi.serves_of_beside (.refl _) k
    | some s => exact (hi.release hs).serves hi hs
  · exact hi.serves_of_beside (beside_park ..) k

/-- Whatever a job does in its turn, it keeps the work that waits to be done. -/
theorem InStep.course_turn (hi : InStep still h) (hl : h.Leaves job rest) :
    Course { h with ready := rest } ({ h with ready := rest }.turn job) := by
  cases job with
  | respond name key deadline => exact (beside_respond ..).toCourse
  | watch k key =>
      have htaken := hi.take_of_ne_evict hl (by simp)
      exact (htaken.turn_watch k key).confined.toCourse
  | evict t generation k =>
      cases hfind : (h.timer t).find? generation with
      | none => exact (hi.turn_stopped hl hfind).2.toCourse
      | some c =>
          obtain ⟨rfl, hc, rfl⟩ := hi.sane.of_find? hfind
          by_cases hdue : c.deadline ≤ h.now
          · exact (hi.turn_ends hc hl hdue).2.1.toCourse
          · exact (hi.turn_waits hc hl (Nat.lt_of_not_le hdue)).2.toCourse

/-! ### The clock -/

/-- Of the jobs that wait, those whose time has come are woken. -/
theorem ready_moveTo (h : Hub) (time : Nat) :
    (h.moveTo time).ready = h.ready ++ h.parked.filter fun job =>
      (h.deadline? job).any (· ≤ time) := rfl

/-- The job of a countdown is woken in time. -/
theorem HasJob.moveTo {c : Countdown} (hj : h.HasJob c) (hsane : h.Sane) (hc : c ∈ h.running)
    (time : Nat) : (h.moveTo time).HasJob c := by
  rcases hj with hready | ⟨hparked, -⟩
  · left
    rw [ready_moveTo]
    exact List.mem_append_left _ hready
  · have hfind : (h.timer registryTimer).find? c.generation = some c :=
      hsane.regular.find?_eq_some_iff.mpr ⟨hc, rfl⟩
    by_cases hdue : c.deadline ≤ time
    · left
      rw [ready_moveTo]
      refine List.mem_append_right _ (List.mem_filter.mpr ⟨hparked, ?_⟩)
      simp [deadline?, hfind, hdue]
    · -- its time has not come, so it goes on to wait
      rcases (beside_wake { h with now := time } fun job =>
        (h.deadline? job).any (· ≤ time)).parked _ hparked with hp | hr
      · exact Or.inr ⟨hp, Nat.lt_of_not_le hdue⟩
      · exact Or.inl hr

theorem spares_moveTo (h : Hub) (time j : Nat) : Spares j h (h.moveTo time) :=
  ⟨rfl, fun _ => Iff.rfl, fun _ _ => Iff.rfl⟩

/-- As time goes on, everything stays in step. -/
theorem InStep.moveTo (hi : InStep still h) (time : Nat) : InStep still (h.moveTo time) := by
  refine ⟨hi.sane.of_eq rfl rfl rfl rfl, hi.begun, fun j g hg => ?_⟩
  have hkept := hi.kept j g hg
  refine hkept.of_spares (spares_moveTo h time j) fun c hc ht => ?_
  exact (hkept.wound c hc ht).moveTo hi.sane hc time

end HttpBinding.Hub
