import Mathlib.Data.List.TakeWhile
import HttpBinding.Proofs.Hub.Timekeeping

/-!
# HttpBinding.Proofs.Hub.Deadlines

What becomes of the countdowns on a table.

At any time the entries of a table are the countdowns that count, and each of them has one job
(`InOrder`). However the run goes on, such a countdown comes to its end when its time has come, and
not before, unless a countdown is started or stopped for its identifier first (`Foretold`). Then it
ends its session and is never seen again. Nothing else comes to its end.

All this is read off the invariant `Timed` (`Timed.inOrder`, `Chronicle.foretold`). The result is
`countdowns_as_marked`.
-/

namespace HttpBinding

/-! ### What is done to a table -/

/-- The generation of a countdown that is started in the table `t`. -/
def Mark.started? (t : Nat) : Mark → Option Nat
  | .arm timer c _ _ => if timer = t then some c.generation else none
  | _ => none

/-- A countdown for the identifier is started or stopped in the table `t`. -/
def Mark.Touches (t : Nat) (id : StreamId) : Mark → Prop
  | .arm timer c _ _ => timer = t ∧ c.id = id
  | .cancel timer other => timer = t ∧ other = id
  | .cancelAll timer => timer = t
  | .due .. | .finish .. | .created .. | .closed .. => False

/-- Until the countdown comes to its end, nothing is started or stopped for its identifier. -/
def Unhindered (t : Nat) (c : Countdown) (later : List Mark) : Prop :=
  ∀ m ∈ later.takeWhile (· != .due t c), ¬ m.Touches t c.id

/-- If nothing is started or stopped for the identifier, what counted goes on to count, unless it
comes to its end. -/
theorem counting?_of_untouched {t : Nat} {id : StreamId} {marks later : List Mark}
    {c : Countdown} (h : ∀ m ∈ later, ¬ m.Touches t id) (hend : .finish t c ∉ later)
    (hcount : counting? t id marks = some c) : counting? t id (marks ++ later) = some c := by
  rw [counting?_append, hcount]
  induction later with
  | nil => rfl
  | cons m later ih =>
      have hkept : m.counts t id (some c) = some c := by
        have htouch := h m (by simp)
        have hne : m ≠ .finish t c := fun heq => hend (by simp [heq])
        cases m <;> simp_all [Mark.counts, Mark.Touches]
      rw [List.foldl_cons, hkept]
      exact ih (fun m' hm' => h m' (by simp [hm'])) fun hmem => hend (by simp [hmem])

namespace Hub

variable {h h' : Hub} {t u : Nat} {c : Countdown} {busy : List Countdown} {past ms : List Mark}

/-! ### Generations -/

theorem next_setTimer (h : Hub) (u t : Nat) {c' : Countdowns}
    (hnext : c'.next = (h.timer u).next) :
    ((h.setTimer u c').timer t).next = (h.timer t).next := by
  by_cases hut : u = t
  · subst hut
    rcases Nat.lt_or_ge u h.timers.length with hlt | hge
    · rw [timer_setTimer_self hlt, hnext]
    · have hsame : h.timers.set u c' = h.timers := List.set_eq_of_length_le hge
      exact congrArg (fun timers => (timers.getD u {}).next) hsame
  · rw [timer_setTimer_of_ne hut]

/-- A countdown that is started is of the next generation, and nothing else makes a new one. -/
theorem Deed.generations (hd : Deed h ms h') (t : Nat) :
    ∃ n, ms.filterMap (Mark.started? t) = List.range' (h.timer t).next n ∧
      (h'.timer t).next = (h.timer t).next + n := by
  cases hd with
  | calm hc => exact ⟨0, rfl, by rw [hc.timer, Nat.add_zero]⟩
  | @arm u k s hu hs =>
      by_cases hut : u = t
      · subst hut
        exact ⟨1, by simp [Mark.started?], by rw [timer_arm_self hu hs, Countdowns.next_arm]⟩
      · refine ⟨0, by simp [Mark.started?, hut], ?_⟩
        rw [timer_arm_of_ne hut, Nat.add_zero]
  | @cancel u k s hs =>
      refine ⟨0, rfl, ?_⟩
      simp only [Hub.cancel, hs]
      exact next_setTimer h u t (by rfl)
  | cancelAll u => exact ⟨0, rfl, next_setTimer h u t (by rfl)⟩
  | pass | gone | wait | created => exact ⟨0, rfl, rfl⟩
  | @closed k s hs =>
      refine ⟨0, rfl, ?_⟩
      have hs' : (h.unregister s.id k).session? k = some s := hs
      show (((h.unregister s.id k).cancel registryTimer k).timer t).next = _
      simp only [Hub.cancel, hs']
      exact next_setTimer (h.unregister s.id k) registryTimer t (by rfl)

theorem Chronicle.generations (hc : Chronicle h ms h') (t : Nat) :
    ∃ n, ms.filterMap (Mark.started? t) = List.range' (h.timer t).next n ∧
      (h'.timer t).next = (h.timer t).next + n := by
  induction hc with
  | refl h => exact ⟨0, rfl, rfl⟩
  | deed hd => exact hd.generations t
  | trans _ _ ih ih' =>
      obtain ⟨n, hms, hnext⟩ := ih
      obtain ⟨n', hms', hnext'⟩ := ih'
      refine ⟨n + n', ?_, by omega⟩
      rw [List.filterMap_append, hms, hms', hnext, List.range'_append_1]
  | @evict h h' u g k rest c marks hready hfind hdue hinner hended ih =>
      obtain ⟨n, hms, hnext⟩ := ih
      refine ⟨n, ?_, ?_⟩
      · have hkept : (Mark.due u c :: (marks ++ [.finish u c])).filterMap (Mark.started? t) =
            marks.filterMap (Mark.started? t) := by
          rw [List.filterMap_cons, List.filterMap_append]
          exact List.append_nil _
        rw [hkept, hms]
        rfl
      · exact (next_setTimer h' u t (by rfl)).trans hnext

/-! ### Countdowns that come to their end -/

theorem Deed.no_end (hd : Deed h ms h') (t : Nat) (c : Countdown) :
    .due t c ∉ ms ∧ .finish t c ∉ ms := by
  cases hd <;> simp

/-- What falls due ends its session and takes itself off the table. -/
theorem Chronicle.due_iff_finish (hc : Chronicle h ms h') :
    .due t c ∈ ms ↔ .finish t c ∈ ms := by
  induction hc with
  | refl h => simp
  | deed hd => exact iff_of_false (hd.no_end t c).1 (hd.no_end t c).2
  | trans _ _ ih ih' => rw [List.mem_append, List.mem_append, ih, ih']
  | evict _ _ _ _ _ ih => simp [ih, or_comm]

/-- What falls due counted before or was started since. -/
theorem Chronicle.counted_of_due (hc : Chronicle h ms h') (hT : Timed t busy past h)
    (hdue : .due t c ∈ ms) :
    counting? t c.id past = some c ∨ ∃ time, .arm t c false time ∈ ms := by
  induction hc generalizing busy past with
  | refl h => cases hdue
  | deed hd => exact absurd hdue (hd.no_end t c).1
  | @trans _ _ _ marks marks' hc _ ih ih' =>
      rcases List.mem_append.mp hdue with hdue | hdue
      · rcases ih hT hdue with hcount | ⟨time, harm⟩
        · exact .inl hcount
        · exact .inr ⟨time, List.mem_append_left _ harm⟩
      · rcases ih' (hc.timed hT) hdue with hcount | ⟨time, harm⟩
        · rcases counted_before hcount with hcount | ⟨time, harm⟩
          · exact .inl hcount
          · exact .inr ⟨time, List.mem_append_left _ harm⟩
        · exact .inr ⟨time, List.mem_append_right _ harm⟩
  | @evict h h' u g k rest d marks hready hfind hd hinner hended ih =>
      have hmem : (.due t c = Mark.due u d) ∨ .due t c ∈ marks := by simpa using hdue
      rcases hmem with heq | hdue
      · obtain ⟨rfl, rfl⟩ := Mark.due.inj heq
        exact .inl ((hT.counting _ _).mpr ⟨(hT.of_ready hready hfind).1, rfl⟩)
      · have hinside : counting? t c.id (past ++ [.due u d]) = some c ∨
            ∃ time, .arm t c false time ∈ marks := by
          by_cases hut : u = t
          · subst hut
            exact ih (hT.due hready hfind) hdue
          · exact ih (hT.take hready (fun heq => absurd heq hut) (by simp [Mark.Concerns])) hdue
        rw [counting?_append_of_not_concerns (by simp [Mark.Concerns])] at hinside
        rcases hinside with hcount | ⟨time, harm⟩
        · exact .inl hcount
        · exact .inr ⟨time, by simp [harm]⟩

/-! ### Results -/

/-- The turn of the `i`th job that is ready brings the countdown to its end. -/
def Ends (h : Hub) (i t : Nat) (c : Countdown) : Prop :=
  h.ready[i]? = some (.evict t c.generation c.target) ∧
    ∃ ms, Chronicle h (.due t c :: ms) (h.move (.turn i)) ∧ .finish t c ∈ ms

/-- What a table of countdowns and its jobs have to do with what happened. -/
structure InOrder (t : Nat) (marks : List Mark) (h : Hub) : Prop where
  /-- There is at most one entry for an identifier. -/
  single : ((h.timer t).table.map Prod.fst).Nodup
  /-- The entries are those of the countdowns that count. -/
  entries : ∀ id g, (id, g) ∈ (h.timer t).table ↔
    ∃ c, counting? t id marks = some c ∧ c.generation = g
  armed : ∀ id, (h.timer t).isArmed id = (counting? t id marks).isSome
  /-- What counts was started for its session under that identifier, for as long as the terms of the
  session say. -/
  started : ∀ id c, counting? t id marks = some c → c.id = id ∧ h.Started t marks c
  /-- What counts has one job, which is for its generation and its session. -/
  job : ∀ id c, counting? t id marks = some c →
    (h.timer t).find? c.generation = some c ∧
      h.jobsOf t c.generation = [.evict t c.generation c.target]
  /-- Every other job of the table is that of a countdown that was stopped. -/
  others : ∀ g k, .evict t g k ∈ h.ready ++ h.parked → (h.timer t).find? g = none ∨
    ∃ id c, counting? t id marks = some c ∧ c.generation = g ∧ c.target = k
  /-- The countdowns that were started are numbered one after the other. -/
  numbered : marks.filterMap (Mark.started? t) = List.range (h.timer t).next
  /-- What has come to its end was due, has ended its session, and does not count. -/
  ended : ∀ c, .finish t c ∈ marks → c.deadline ≤ h.now ∧
    (∃ s, h.session? c.target = some s ∧ s.closed = true) ∧ ∀ id, counting? t id marks ≠ some c
  /-- When the time of a countdown has come, its job is ready, and will end it. -/
  overdue : ∀ id c, counting? t id marks = some c → c.deadline ≤ h.now → ∃ i, h.Ends i t c

theorem Timed.inOrder (hT : Timed t [] past h) (hf : h.Fit)
    (hnumbered : past.filterMap (Mark.started? t) = List.range (h.timer t).next) :
    InOrder t past h where
  single := by
    rw [hT.regular.matched, List.map_map]
    exact hT.regular.single
  entries := by
    intro id g
    rw [hT.regular.matched, List.mem_map]
    simp only [hT.counting, Prod.mk.injEq, and_assoc]
  armed := by
    intro id
    rw [Bool.eq_iff_iff, hT.regular.isArmed_iff, Option.isSome_iff_exists]
    simp only [hT.counting]
  started := by
    intro id c hcount
    obtain ⟨hc, hid⟩ := (hT.counting id c).mp hcount
    exact ⟨hid, hT.started c hc⟩
  job := by
    intro id c hcount
    have hc := ((hT.counting id c).mp hcount).1
    exact ⟨hT.regular.find?_eq_some_iff.mpr ⟨hc, rfl⟩, hT.waiting c hc (by simp)⟩
  others := by
    intro g k hjob
    cases hfind : (h.timer t).find? g with
    | none => exact .inl rfl
    | some c =>
        obtain ⟨hc, rfl⟩ := hT.regular.find?_eq_some_iff.mp hfind
        have hmem : Job.evict t c.generation k ∈ h.jobsOf t c.generation :=
          List.mem_filter.mpr ⟨hjob, isEvictionOf_iff.mpr ⟨k, rfl⟩⟩
        rw [hT.waiting c hc (by simp)] at hmem
        have htarget : k = c.target := by simpa using hmem
        exact .inr ⟨c.id, c, (hT.counting _ _).mpr ⟨hc, rfl⟩, rfl, htarget.symm⟩
  numbered := hnumbered
  ended := by
    intro c hc
    have hspent := hT.spent c hc
    refine ⟨hspent.due, hspent.ended, fun id hcount => ?_⟩
    exact hspent.gone c ((hT.counting id c).mp hcount).1 rfl
  overdue := by
    intro id c hcount hdue
    have hc := ((hT.counting id c).mp hcount).1
    have hmem : Job.evict t c.generation c.target ∈ h.jobsOf t c.generation := by
      rw [hT.waiting c hc (by simp)]
      exact List.mem_singleton_self _
    rcases List.mem_append.mp (List.mem_filter.mp hmem).1 with hready | hparked
    · obtain ⟨i, hi⟩ := List.mem_iff_getElem?.mp hready
      have hfind := hT.regular.find?_eq_some_iff.mpr ⟨hc, rfl⟩
      refine ⟨i, hi, ?_⟩
      simp only [move, hi]
      exact (evict_unfolds hf (perm_eraseIdx hi) hfind hdue).2
    · have hearly := hT.early c hc hparked
      omega

/-- What becomes of a countdown that nothing hinders: it waits for its time, and then it comes to its
end, or is about to. -/
structure Foretold (t : Nat) (c : Countdown) (later : List Mark) (h : Hub) : Prop where
  early : h.now < c.deadline → .due t c ∉ later ∧ (h.timer t).isArmed c.id = true
  late : c.deadline ≤ h.now → .finish t c ∈ later ∨ ∃ i, h.Ends i t c

theorem Chronicle.foretold {later : List Mark} (hc : Chronicle h later h')
    (ho : InOrder t (past ++ later) h') (hcount : counting? t c.id past = some c)
    (hfree : Unhindered t c later) : Foretold t c later h' := by
  -- unless it has come to its end, nothing was done for its identifier at all
  have hstill : .due t c ∉ later → counting? t c.id (past ++ later) = some c := by
    intro hdue
    have hwhole : later.takeWhile (· != .due t c) = later :=
      List.takeWhile_eq_self_iff.mpr fun m hm => by
        rw [bne_iff_ne]
        exact fun heq => hdue (heq ▸ hm)
    rw [Unhindered, hwhole] at hfree
    exact counting?_of_untouched hfree (hc.due_iff_finish.not.mp hdue) hcount
  constructor
  · intro hearly
    have hdue : .due t c ∉ later := by
      intro hdue
      have hspent := (ho.ended c (List.mem_append_right _ (hc.due_iff_finish.mp hdue))).1
      omega
    refine ⟨hdue, ?_⟩
    rw [ho.armed, hstill hdue]
    rfl
  · intro hlate
    by_cases hdue : .due t c ∈ later
    · exact .inl (hc.due_iff_finish.mp hdue)
    · exact .inr (ho.overdue _ c (hstill hdue) hlate)

theorem timed_start (settings : Settings) (server : Server) (sink : Sink) (ids : Nat → StreamId)
    (t : Nat) : Timed t [] [] (Script.withService settings server sink ids) := by
  have hempty : (Script.withService settings server sink ids).timer t = {} := by
    cases t <;> rfl
  refine ⟨?_, fun id c => ?_, fun c hc => ?_, fun _ _ => rfl, fun c hc => ?_, by simp,
    fun c hc => ?_, by simp, by simp⟩
  · rw [hempty]
    exact Countdowns.regular_empty
  · simp [hempty, counting?]
  all_goals simp [hempty] at hc

/-- **The tables of countdowns are in order whatever is done, and what counts in them is what will
still come to its end.**

There is a chronicle of any run, and by the marks of any of them every table is in order. However
the run goes on, a countdown that counts now comes to its end when its time has come, and not
before, unless a countdown is started or stopped for its identifier first; and nothing comes to its
end that does not count now and is not started later. The start or stop also comes first where the
time has come and only the turn of the job is still to be taken. -/
theorem countdowns_as_marked (settings : Settings) (server : Server) (sink : Sink)
    (ids : Nat → StreamId) (ss : List Stroke) :
    let start := Script.withService settings server sink ids
    let h := start.strokes ss
    (∃ marks, Chronicle start marks h) ∧
    ∀ marks, Chronicle start marks h →
      (∀ t, InOrder t marks h) ∧
      ∀ more,
        (∃ later, Chronicle h later (h.strokes more)) ∧
        ∀ later, Chronicle h later (h.strokes more) → ∀ t c,
          (counting? t c.id marks = some c → Unhindered t c later →
            Foretold t c later (h.strokes more)) ∧
          (.due t c ∈ later →
            counting? t c.id marks = some c ∨ ∃ time, .arm t c false time ∈ later) := by
  intro start h
  have hf₀ : start.Fit := fit_start settings server sink ids
  have hT₀ : ∀ t, Timed t [] [] start := timed_start settings server sink ids
  have hnext₀ : ∀ t, (start.timer t).next = 0 := by
    intro t
    cases t <;> rfl
  have horder : ∀ {marks b}, Chronicle start marks b → b.Fit → ∀ t, InOrder t marks b := by
    intro marks b hc hf t
    obtain ⟨n, hms, hnext⟩ := hc.generations t
    refine Timed.inOrder (hc.timed (hT₀ t)) hf ?_
    rw [hms, hnext, hnext₀, Nat.zero_add, List.range_eq_range']
  obtain ⟨hf, hexists⟩ := unfolds_strokes start ss hf₀
  refine ⟨hexists, fun marks hc => ⟨horder hc hf, fun more => ?_⟩⟩
  obtain ⟨hf', hexists'⟩ := unfolds_strokes h more hf
  refine ⟨hexists', fun later hc' t c => ⟨fun hcount hfree => ?_, fun hdue => ?_⟩⟩
  · exact hc'.foretold (horder (hc.trans hc') hf' t) hcount hfree
  · exact hc'.counted_of_due (hc.timed (hT₀ t)) hdue

/-- Of two sessions with one identifier, the end of the first has the countdown for the second
started. That one is still there when the countdown for the first takes itself off the table. -/
example :
    let h := (Script.withService {} {} .recorded fun _ => ⟨"a"⟩).strokes
      [.newTimer "t", .newSession "first" ⟨"a"⟩ {}, .newSession "second" ⟨"a"⟩ {},
        .move (.listen 0 "r" [(.ended, .arm "t" "second")]), .arm "t" "first",
        .move (.pass 1800000), .move (.turn 0)]
    (h.timer 1).table = [(⟨"a"⟩, 1)] ∧ h.ready ++ h.parked = [.evict 1 1 1] := by
  decide

end Hub

end HttpBinding
