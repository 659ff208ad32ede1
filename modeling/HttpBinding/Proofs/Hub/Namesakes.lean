import HttpBinding.Proofs.Hub.Deadlines

/-!
# HttpBinding.Proofs.Hub.Namesakes

Countdowns of sessions that share an identifier.

A table knows a countdown by the identifier of its session. When a session has ended, its identifier
may be given to another one, and from then on the table cannot tell the two apart: what is done on
behalf of the first is done to the countdown of the second. To stop a countdown and to start one for
a session that has ended come to the same thing. Either leaves one mark (`ActsFor.mark`), and the
invariant of the chronicle says what that leaves on the table (`Timed.mem_running_of_stops`).

What was stopped never comes to its end, because no generation is used twice (`Chronicle.not_due`).
The result is `stopped_by_identifier`: the countdown for the identifier is stopped, whichever session
it would end, and no other is.
-/

namespace HttpBinding

/-- The mark stops what counts for the identifier in the table `t`, and nothing else. -/
def Mark.Stops (t : Nat) (id : StreamId) (m : Mark) : Prop :=
  ∀ u other before, m.counts u other before = if t = u ∧ id = other then none else before

namespace Hub

variable {h h' : Hub} {t u a : Nat} {id : StreamId} {c : Countdown} {m : Mark}
variable {past later : List Mark}

/-! ### What is done on behalf of a session -/

/-- In the table `t`, the countdown for the session `a` is started anew or stopped. -/
inductive ActsFor (t a : Nat) (h : Hub) : Hub → Prop where
  | arm : ActsFor t a h (h.arm t a)
  | cancel : ActsFor t a h (h.cancel t a)

/-- For a session that has ended, either of the two only stops. -/
theorem ActsFor.mark {s : Session Observer} (ha : ActsFor t a h h') (ht : t < h.timers.length)
    (hs : h.session? a = some s) (hended : s.shown.closed = true) :
    ∃ m, Chronicle h [m] h' ∧ m.Stops t s.id := by
  cases ha with
  | arm =>
      refine ⟨_, .deed (.arm ht hs), fun u other before => ?_⟩
      simp [Mark.counts, hended]
  | cancel =>
      refine ⟨_, .deed (.cancel t hs), fun u other before => ?_⟩
      simp [Mark.counts]

theorem ActsFor.fit (ha : ActsFor t a h h') (ht : t < h.timers.length) (hf : h.Fit) : h'.Fit := by
  cases ha with
  | arm => exact ((murmurs_arm (fun _ => ht) a).unfolds hf).1
  | cancel => exact ((murmurs_cancel h t a).unfolds hf).1

/-- What is left on a table is what counted before, less what was stopped. -/
theorem Timed.mem_running_of_stops (hT : Timed u [] past h) (hc : Chronicle h [m] h')
    (hm : m.Stops t id) :
    c ∈ (h'.timer u).running ↔ c ∈ (h.timer u).running ∧ ¬ (t = u ∧ id = c.id) := by
  have hbefore : counting? u c.id past = some c ↔ c ∈ (h.timer u).running := by
    simp [hT.counting]
  have hafter : counting? u c.id (past ++ [m]) = some c ↔ c ∈ (h'.timer u).running := by
    simp [(hc.timed hT).counting]
  rw [← hbefore, ← hafter, counting?_concat, hm]
  split <;> simp_all

/-! ### What becomes of a countdown that was stopped -/

/-- A countdown of an old generation that does not run any more never comes to its end. -/
theorem Chronicle.not_due (hc : Chronicle h later h') (hT : Timed t [] past h)
    (hold : c.generation < (h.timer t).next) (hgone : c ∉ (h.timer t).running) :
    .due t c ∉ later := by
  intro hdue
  rcases hc.counted_of_due hT hdue with hcount | ⟨time, harm⟩
  · exact hgone ((hT.counting c.id c).mp hcount).1
  · -- if it were started later, it would be of a later generation
    obtain ⟨n, hlater, -⟩ := hc.generations t
    have hstarted : c.generation ∈ later.filterMap (Mark.started? t) :=
      List.mem_filterMap.mpr ⟨_, harm, by simp [Mark.started?]⟩
    rw [hlater, List.mem_range'_1] at hstarted
    omega

/-- However the run goes on, the countdown never comes to its end, and nothing comes to its end for
its identifier unless it is started first. -/
structure Silenced (h : Hub) (t : Nat) (c : Countdown) : Prop where
  idle : (h.timer t).isArmed c.id = false
  never : ∀ more later, Chronicle h later (h.strokes more) → .due t c ∉ later
  renewed : ∀ more later, Chronicle h later (h.strokes more) → ∀ d, d.id = c.id →
    .due t d ∈ later → ∃ time, .arm t d false time ∈ later

theorem Timed.silenced (hT : Timed t [] past h) (hold : c.generation < (h.timer t).next)
    (hnone : ∀ d ∈ (h.timer t).running, d.id ≠ c.id) : h.Silenced t c where
  idle := by
    rw [Bool.eq_false_iff, Ne, hT.regular.isArmed_iff]
    rintro ⟨d, hd, hid⟩
    exact hnone d hd hid
  never := fun more later hc => hc.not_due hT hold fun hmem => hnone c hmem rfl
  renewed := by
    intro more later hc d hid hdue
    rcases hc.counted_of_due hT hdue with hcount | hstart
    · exact absurd hid (hnone d ((hT.counting _ _).mp hcount).1)
    · exact hstart

/-! ### What becomes of a countdown that goes on -/

/-- The countdown runs, and however the run goes on, it comes to its end when its time has come, and
not before, unless a countdown is started or stopped for its identifier first. -/
structure GoesOn (h : Hub) (t : Nat) (c : Countdown) : Prop where
  runs : c ∈ (h.timer t).running
  foretold : ∀ more later, Chronicle h later (h.strokes more) → Unhindered t c later →
    Foretold t c later (h.strokes more)

section Start

variable {settings : Settings} {server : Server} {sink : Sink} {ids : Nat → StreamId}

theorem Chronicle.inOrder
    (hc : Chronicle (Script.withService settings server sink ids) past h) (hf : h.Fit) (t : Nat) :
    InOrder t past h := by
  obtain ⟨n, hstarted, hnext⟩ := hc.generations t
  refine (hc.timed (timed_start settings server sink ids t)).inOrder hf ?_
  have hzero : ((Script.withService settings server sink ids).timer t).next = 0 := by
    cases t <;> rfl
  rw [List.nil_append, hstarted, hnext, hzero, Nat.zero_add, List.range_eq_range']

theorem Chronicle.goesOn
    (hc : Chronicle (Script.withService settings server sink ids) past h) (hf : h.Fit)
    (hruns : c ∈ (h.timer t).running) : h.GoesOn t c where
  runs := hruns
  foretold := by
    intro more later hlater hfree
    have hT := hc.timed (timed_start settings server sink ids t)
    have hf' := (unfolds_strokes h more hf).1
    exact hlater.foretold ((hc.trans hlater).inOrder hf' t) ((hT.counting _ _).mpr ⟨hruns, rfl⟩)
      hfree

/-! ### The result -/

/-- **What is done on behalf of a session that has ended stops the countdown for its identifier.**

After any run, let a countdown be started anew or stopped for a session that has ended. Every
countdown that runs under another identifier, or in another table, goes on. The one that runs under
its identifier is stopped, whichever session it would end, and never comes to its end; so if the
identifier was given to another session in the meantime, no countdown ends that session until one is
started for it again. -/
theorem stopped_by_identifier (settings : Settings) (server : Server) (sink : Sink)
    (ids : Nat → StreamId) (ss : List Stroke) {t a : Nat} {s : Session Observer} {h' : Hub} {u : Nat}
    {c : Countdown} :
    let h := (Script.withService settings server sink ids).strokes ss
    t < h.timers.length → h.session? a = some s → s.shown.closed = true → ActsFor t a h h' →
    c ∈ (h.timer u).running →
      if t = u ∧ s.id = c.id then h'.Silenced u c else h'.GoesOn u c := by
  intro h ht hs hended ha hruns
  obtain ⟨hf, past, hpast⟩ := unfolds_strokes (Script.withService settings server sink ids) ss
    (fit_start settings server sink ids)
  obtain ⟨m, hc, hm⟩ := ha.mark ht hs hended
  have hT : Timed u [] past h := hpast.timed (timed_start settings server sink ids u)
  have hleft : ∀ d, d ∈ (h'.timer u).running ↔
      d ∈ (h.timer u).running ∧ ¬ (t = u ∧ s.id = d.id) := fun _ => hT.mem_running_of_stops hc hm
  split
  · rename_i hsame
    refine (hc.timed hT).silenced ?_ fun d hd hid => ((hleft d).mp hd).2 ⟨hsame.1, ?_⟩
    · obtain ⟨n, -, hnext⟩ := hc.generations u
      have hold := hT.regular.numbered c hruns
      omega
    · rw [hid, hsame.2]
  · rename_i hother
    exact (hpast.trans hc).goesOn (ha.fit ht hf) ((hleft c).mpr ⟨hruns, hother⟩)

end Start

/-- The first session ends, and the second is given its identifier. -/
def namesakes : List Stroke :=
  [.move (.connect 1 false), .move (.create {} 0), .nameSession "first" 0, .move (.close 0 false),
    .move (.connect 2 false), .move (.create {} 1), .nameSession "second" 1]

theorem first_stops_countdown_of_second :
    let h := (Script.withService {} {} .recorded fun _ => ⟨"a"⟩).strokes namesakes
    ∃ s c, registryTimer < h.timers.length ∧ h.session? 0 = some s ∧ s.shown.closed = true ∧
      c ∈ (h.timer registryTimer).running ∧ c.target = 1 ∧
      (h.arm registryTimer 0).Silenced registryTimer c ∧
      (h.cancel registryTimer 0).Silenced registryTimer c := by
  intro h
  obtain ⟨s, hs, hended, hid⟩ : ∃ s, h.session? 0 = some s ∧ s.shown.closed = true ∧
      s.id = ⟨"a"⟩ := ⟨_, rfl, by decide, by decide⟩
  have ht : registryTimer < h.timers.length := by decide
  have hruns : ⟨1, ⟨"a"⟩, 1, 1800000⟩ ∈ (h.timer registryTimer).running := by decide
  refine ⟨s, _, ht, hs, hended, hruns, rfl, ?_, ?_⟩
  · have hstop := stopped_by_identifier {} {} .recorded (fun _ => ⟨"a"⟩) namesakes ht hs hended .arm
      hruns
    rwa [if_pos ⟨rfl, hid⟩] at hstop
  · have hstop := stopped_by_identifier {} {} .recorded (fun _ => ⟨"a"⟩) namesakes ht hs hended
      .cancel hruns
    rwa [if_pos ⟨rfl, hid⟩] at hstop

/-- Left alone, the second session is ended at its deadline. If a countdown is started or stopped for
the first one, which has ended, the second is still there when its time has come and nothing is left
to be done. -/
theorem second_outlives_deadline :
    let h := (Script.withService {} {} .recorded fun _ => ⟨"a"⟩).strokes namesakes
    let deadline : List Stroke := [.move (.pass 1800000), .move (.turn 0), .move (.turn 0)]
    let left := h.strokes deadline
    (h.session? 0).map Session.closed = some true ∧ (h.session? 1).map Session.closed = some false ∧
    (left.session? 1).map Session.closed = some true ∧
    ∀ stroke ∈ [Stroke.arm "manager" "first", Stroke.cancel "manager" "first"],
      let h' := (h.stroke stroke).strokes deadline
      ((h.stroke stroke).timer registryTimer).isArmed ⟨"a"⟩ = false ∧
      (h'.session? 1).map Session.closed = some false ∧ h'.ready ++ h'.parked = [] := by
  decide

end Hub

end HttpBinding
