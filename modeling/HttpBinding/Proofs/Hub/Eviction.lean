import HttpBinding.Proofs.Hub.Moves

/-!
# HttpBinding.Proofs.Hub.Eviction

A session that fell silent is ended exactly when its time has come.

The deadline of a session is set by the last move that reported something of it to its observers,
or that began it. `Awaits` is what is true from then on, as long as nothing is reported and nobody
ends the session: it holds something, and is open; or its countdown runs until the deadline; or
the deadline has passed, and it has ended. Every move keeps this (`Awaits.move`), whatever it does
to other sessions and in whatever order jobs take their turns.

That the end does come is a matter of the queue: once the deadline has passed the job of the
countdown is ready, and each turn brings it one place nearer to the front (`Queued.turn`).
-/

namespace HttpBinding.Hub

variable {still : List Nat} {h : Hub} {k deadline : Nat} {g : Gist}

/-! ### Waiting for the deadline -/

/-- What is true of a session of which nothing is heard. -/
inductive Awaits (k : Nat) (g : Gist) (deadline : Nat) (h : Hub) : Prop where
  /-- It holds something, and no countdown runs. -/
  | busy (gist : h.gist? k = some g) (held : g.held ≠ 0)
  /-- It holds nothing, and its countdown runs. -/
  | idle (gist : h.gist? k = some g) (held : g.held = 0) (ticking : Ticking k deadline h)
  /-- It held nothing until its countdown ended it. -/
  | evicted (gist : h.gist? k = some g.ended) (held : g.held = 0) (due : deadline ≤ h.now)

/-- Only one countdown runs for a session. -/
theorem InStep.deadline_eq (hi : InStep still h) (hg : h.gist? k = some g)
    (ht : Ticking k deadline h) {c : Countdown} (hc : c ∈ h.running) (hk : c.target = k) :
    c.deadline = deadline := by
  obtain ⟨d, hd, hdk, rfl⟩ := ht
  have hcid : c.id = g.id := hi.sane.id_eq hc (hk ▸ hg)
  have hdid : d.id = g.id := hi.sane.id_eq hd (hdk ▸ hg)
  rw [hi.sane.regular.eq_of_id hc hd (hcid.trans hdid.symm)]

/-- A move that says nothing of the session and does not end it lets it wait on. -/
theorem Awaits.move (ha : Awaits k g deadline h) (hi : InStep still h) (hopen : g.closed = false)
    {m : Move} (hquiet : h.reports k m = []) (hends : h.ends k m = false) :
    Awaits k g deadline (h.move m) := by
  have hmoved := hi.move m
  cases ha with
  | busy gist held =>
      rcases hmoved.spares k g gist hopen hquiet hends with hs | ⟨c, hc, hk, -, -⟩
      · exact .busy (hs.gist.trans gist) held
      · exact absurd ((hi.kept k g gist).timed.mp ⟨c, hc, hk⟩).2 held
  | idle gist held ticking =>
      rcases hmoved.spares k g gist hopen hquiet hends with hs | ⟨c, hc, hk, hdue, hended⟩
      · exact .idle (hs.gist.trans gist) held (hs.ticking_iff.mpr ticking)
      · rw [hi.deadline_eq gist ticking hc hk] at hdue
        exact .evicted hended held (Nat.le_trans hdue hmoved.now)
  | evicted gist held due =>
      exact .evicted (hmoved.final k _ gist rfl) held (Nat.le_trans due hmoved.now)

/-- Before its deadline, or while it holds something, the session is as it was. -/
theorem Awaits.gist_eq (ha : Awaits k g deadline h) (hnot : ¬ (g.held = 0 ∧ deadline ≤ h.now)) :
    h.gist? k = some g := by
  cases ha with
  | busy gist held => exact gist
  | idle gist held ticking => exact gist
  | evicted gist held due => exact absurd ⟨held, due⟩ hnot

theorem Awaits.exists_session (ha : Awaits k g deadline h) : ∃ t, h.session? k = some t := by
  obtain ⟨g', hg'⟩ : ∃ g', h.gist? k = some g' := by
    cases ha with
    | busy gist held => exact ⟨_, gist⟩
    | idle gist held ticking => exact ⟨_, gist⟩
    | evicted gist held due => exact ⟨_, gist⟩
  obtain ⟨t, ht, -⟩ := session?_of_gist? hg'
  exact ⟨t, ht⟩

/-- Nothing is reported of the session `k` in a run, and nobody ends it by hand. -/
def Undisturbed (k : Nat) : Hub → List Move → Prop
  | _, [] => True
  | h, m :: ms => h.reports k m = [] ∧ h.ends k m = false ∧ Undisturbed k (h.move m) ms

theorem Awaits.play (ha : Awaits k g deadline h) (hi : InStep still h) (hopen : g.closed = false)
    {ms : List Move} (hu : Undisturbed k h ms) : Awaits k g deadline (h.play ms) := by
  -- what carries the run is that the session only waits, or has been ended by its countdown
  induction ms generalizing still h with
  | nil => exact ha
  | cons m ms ih =>
      obtain ⟨hquiet, hends, hrest⟩ := hu
      exact ih (ha.move hi hopen hquiet hends) (hi.move m).inStep hrest

/-! ### Turn by turn -/

theorem settleWithin_eq_play (turns : Nat) (h : Hub) :
    settleWithin turns h = h.play (List.replicate turns (.turn 0)) := by
  induction turns generalizing h with
  | zero => rfl
  | succ turns ih =>
      have hstep : settleWithin (turns + 1) h = settleWithin turns (h.move (.turn 0)) := by
        cases hready : h.ready with
        | nil =>
            have hsame : h.move (.turn 0) = h := by simp [Hub.move, hready]
            rw [hsame]
            cases turns <;> simp [settleWithin, hready]
        | cons job ready => simp [settleWithin, Hub.move, hready]
      rw [hstep, ih, List.replicate_succ]
      rfl

/-- While nothing is held, no turn of a job has anything to say of a session. -/
theorem reports_turn_of_idle (hg : h.gist? k = some g) (hheld : g.held = 0) (i : Nat) :
    h.reports k (.turn i) = [] := by
  unfold reports
  split
  · rename_i j events hop
    split
    · rename_i hj
      obtain ⟨s, hs, rfl⟩ := of_operation?_turn hop
      rw [hj] at hs
      rw [gist?_of_session? hs] at hg
      obtain rfl := Option.some.inj hg
      exact s.events_release_of_idle (List.length_eq_zero_iff.mp hheld)
    · rfl
  · rfl

/-- The deadline of the session has passed, and the job of its countdown is at place `i` of the
queue. -/
structure Queued (i : Nat) (k : Nat) (g : Gist) (h : Hub) : Prop where
  gist : h.gist? k = some g
  held : g.held = 0
  job : ∃ c ∈ h.running, c.target = k ∧ c.deadline ≤ h.now ∧
    h.ready[i]? = some (.evict registryTimer c.generation k)

/-- A turn ends the session, or brings the job of its countdown one place nearer. -/
theorem Queued.turn {i : Nat} (hq : Queued i k g h) (hi : InStep still h)
    (hopen : g.closed = false) :
    (h.move (.turn 0)).gist? k = some g.ended ∨
      ∃ j, i = j + 1 ∧ Queued j k g (h.move (.turn 0)) := by
  obtain ⟨c, hc, rfl, hdue, hjob⟩ := hq.job
  cases i with
  | zero =>
      left
      have hl := leaves_eraseIdx hjob
      have hmove := move_turn hjob
      rw [hmove]
      exact (hi.turn_ends hc hl hdue).2.2 g hq.gist
  | succ j =>
      have hmoved := hi.move (.turn 0)
      have hquiet := reports_turn_of_idle hq.gist hq.held 0
      rcases hmoved.spares c.target g hq.gist hopen hquiet rfl with hs | ⟨-, -, -, -, hended⟩
      · refine Or.inr ⟨j, rfl, hs.gist.trans hq.gist, hq.held, c, (hs.running c rfl).mpr hc, rfl,
          Nat.le_trans hdue hmoved.now, ?_⟩
        -- the first job leaves the queue, and new ones come behind the others
        cases hready : h.ready with
        | nil => simp [hready] at hjob
        | cons job ready =>
            have hfirst : h.ready[0]? = some job := by simp [hready]
            have hmove : h.move (.turn 0) = { h with ready := h.ready.eraseIdx 0 }.turn job := by
              simp only [Hub.move, hfirst]
            obtain ⟨more, hmore⟩ := (hi.course_turn (leaves_eraseIdx hfirst)).ready
            rw [hready] at hjob
            have hplace : ready[j]? = some (.evict registryTimer c.generation c.target) := hjob
            have hlt : j < ready.length := (List.getElem?_eq_some_iff.mp hplace).1
            rw [hmove, hmore, hready]
            simp [List.getElem?_append_left hlt, hplace]
      · exact Or.inl hended

theorem final_play (hi : InStep still h) (hg : h.gist? k = some g) (hc : g.closed = true)
    (ms : List Move) : (h.play ms).gist? k = some g := by
  induction ms generalizing still h with
  | nil => exact hg
  | cons m ms ih => exact ih (hi.move m).inStep ((hi.move m).final k g hg hc)

/-- Enough turns end the session. -/
theorem Queued.ended {i turns : Nat} (hq : Queued i k g h) (hi : InStep still h)
    (hopen : g.closed = false) (hlt : i < turns) :
    (h.play (List.replicate turns (.turn 0))).gist? k = some g.ended := by
  -- the place of the job drops with every turn, until its own turn ends the session
  induction turns generalizing i still h with
  | zero => exact absurd hlt (Nat.not_lt_zero i)
  | succ turns ih =>
      have hin := (hi.move (.turn 0)).inStep
      rw [List.replicate_succ]
      show ((h.move (.turn 0)).play (List.replicate turns (.turn 0))).gist? k = some g.ended
      rcases hq.turn hi hopen with hended | ⟨j, rfl, hq'⟩
      · exact final_play hin hended rfl _
      · exact ih hq' hin (Nat.lt_of_succ_lt_succ hlt)

theorem ready_le_workBound (h : Hub) : h.ready.length < h.workBound := by
  simp only [workBound]
  omega

/-- Once the deadline has passed, the session ends when all work is done. -/
theorem Awaits.ended (ha : Awaits k g deadline h) (hi : InStep still h)
    (hopen : g.closed = false) (hheld : g.held = 0) (hdue : deadline ≤ h.now) :
    h.settle.gist? k = some g.ended := by
  rw [Hub.settle, settleWithin_eq_play]
  cases ha with
  | busy gist held => exact absurd hheld held
  | evicted gist held due => exact final_play hi gist rfl _
  | idle gist held ticking =>
      obtain ⟨c, hc, hk, hd⟩ := ticking
      have hready : .evict registryTimer c.generation c.target ∈ h.ready := by
        rcases (hi.kept k g gist).wound c hc hk with hr | ⟨-, hlt⟩
        · exact hr
        · omega
      obtain ⟨i, hplace⟩ := List.mem_iff_getElem?.mp hready
      have hlt : i < h.ready.length := (List.getElem?_eq_some_iff.mp hplace).1
      have hq : Queued i k g h :=
        ⟨gist, held, c, hc, hk, by omega, by rw [← hk]; exact hplace⟩
      exact hq.ended hi hopen (Nat.lt_trans hlt h.ready_le_workBound)

/-- A session that has ended in the presence of its steward is not registered. -/
theorem InStep.not_registered (hi : InStep still h) (hg : h.gist? k = some g.ended)
    (id : StreamId) : h.lookup id ≠ some k := by
  intro hl
  have hmem := hi.sane.lookup_eq_some_iff.mp hl
  obtain ⟨g', hg', hid⟩ := hi.sane.real _ hmem
  rw [hg] at hg'
  obtain rfl := Option.some.inj hg'
  have hatt : g.ended.attended = true := by
    refine (hi.kept k _ hg).listed.mp ?_
    rw [show g.ended.id = id from hid]
    exact hmem
  cases hatt

/-! ### The deadline -/

/-- From a move that brings news of a session on, the session waits for its deadline. -/
theorem InStep.awaits (hi : InStep still h) {m : Move} (hg : (h.move m).gist? k = some g)
    (hopen : g.closed = false) (hnews : h.reports k m ≠ [] ∨ k = h.sessions.length) :
    Awaits k g (h.now + g.timeout) (h.move m) := by
  by_cases hheld : g.held = 0
  · exact .idle hg hheld ((hi.move m).fresh k g hg hnews g hg hopen hheld)
  · exact .busy hg hheld

/-- An open session is found under its identifier. -/
theorem InStep.lookup_of_open (hi : InStep still h) (hg : h.gist? k = some g)
    (hopen : g.closed = false) : h.lookup g.id = some k := by
  have hkept := hi.kept k g hg
  exact hi.sane.lookup_eq_some_iff.mpr (hkept.listed.mpr (hkept.attended hopen))

/-- **Eviction when it is due.** Let a move at time `h₀.now` begin the session `k`, or report
something of it, and leave it open; and let nothing be reported of it afterwards, and nobody end
it by hand, while anything else may happen in any order. If the move left exchanges held, the
session stays open. If it left none, the session is open and registered until its timeout has
passed, and from then on it is ended and taken off the registry when all work is done.

The deadline counts from the move itself, and a move that comes when it has passed, before the job
of the countdown has had its turn, still stops the countdown: work that was started or is due is
taken to be done before the next move. -/
theorem evicted_when_due {h₀ : Hub} (hreach : h₀.Reachable) {m : Move} {k : Nat}
    {s : Session Observer} (hs : (h₀.move m).session? k = some s) (hopen : s.closed = false)
    (hnews : h₀.reports k m ≠ [] ∨ k = h₀.sessions.length) {rest : List Move}
    (hrest : Undisturbed k (h₀.move m) rest) :
    let h := (h₀.move m).play rest
    let deadline := h₀.now + s.terms.inactivityTimeout
    ∃ t, h.session? k = some t ∧
      (s.held ≠ [] → t.closed = false) ∧
      (s.held = [] →
        (h.now < deadline → t.closed = false ∧ h.lookup s.id = some k) ∧
        (deadline ≤ h.now → ∃ u, h.settle.session? k = some u ∧ u.closed = true ∧
          ∀ id, h.settle.lookup id ≠ some k)) := by
  intro h deadline
  obtain ⟨still, hi⟩ := hreach.inStep
  have hin := (hi.move m).inStep
  have hend := hin.play rest
  have hg := gist?_of_session? hs
  have hawaits : Awaits k s.gist deadline h :=
    (hi.awaits hg hopen hnews).play hin hopen hrest
  have hheld : s.held = [] ↔ s.gist.held = 0 := List.length_eq_zero_iff.symm
  obtain ⟨t, ht⟩ := hawaits.exists_session
  -- the session is open still, unless it held nothing and the deadline has passed
  have hwaits : ¬ (s.held = [] ∧ deadline ≤ h.now) → t.gist = s.gist := by
    intro hnot
    have hsame := hawaits.gist_eq fun hover => hnot ⟨hheld.mpr hover.1, hover.2⟩
    rw [gist?_of_session? ht] at hsame
    exact Option.some.inj hsame
  refine ⟨t, ht, fun hbusy => ?_, fun hnil => ⟨fun hearly => ?_, fun hdue => ?_⟩⟩
  · have hsame := hwaits fun hover => hbusy hover.1
    exact (congrArg Gist.closed hsame).trans hopen
  · have hsame := hwaits fun hover => absurd hover.2 (Nat.not_le.mpr hearly)
    have htopen : t.gist.closed = false := (congrArg Gist.closed hsame).trans hopen
    have hlookup := hend.lookup_of_open (gist?_of_session? ht) htopen
    rw [hsame] at hlookup
    exact ⟨htopen, hlookup⟩
  · have hended := hawaits.ended hend hopen (hheld.mp hnil) hdue
    obtain ⟨u, hu, heq⟩ := session?_of_gist? hended
    have hsettled : ∃ still', InStep still' h.settle := by
      rw [Hub.settle, settleWithin_eq_play]
      exact ⟨_, hend.play _⟩
    obtain ⟨still', hdone⟩ := hsettled
    exact ⟨u, hu, congrArg Gist.closed heq, hdone.not_registered hended⟩

/-- A session that begins and is never heard of again is gone after half an hour. -/
theorem evicted_after_half_an_hour :
    let h := (Script.withService {} {} .recorded fun _ => ⟨"a"⟩).play
      [.connect 1 false, .create {} 0, .pass 1800000]
    ∃ u, h.settle.session? 0 = some u ∧ u.closed = true ∧ ∀ id, h.settle.lookup id ≠ some 0 := by
  obtain ⟨h₀, hh₀⟩ : ∃ h₀, h₀ = (Script.withService {} {} .recorded fun _ => ⟨"a"⟩).play
      [.connect 1 false] := ⟨_, rfl⟩
  obtain ⟨s, hs⟩ : ∃ s, (h₀.move (.create {} 0)).session? 0 = some s := by
    rw [hh₀]
    exact ⟨_, rfl⟩
  have hfacts : s.closed = false ∧ s.held = [] ∧ s.terms.inactivityTimeout = 1800000 := by
    rw [hh₀] at hs
    cases hs
    decide
  have hreach : h₀.Reachable := ⟨_, _, _, _, _, hh₀⟩
  have hnew : 0 = h₀.sessions.length := by
    rw [hh₀]
    rfl
  have hrest : Undisturbed 0 (h₀.move (.create {} 0)) [.pass 1800000] :=
    ⟨by rw [hh₀]; rfl, rfl, trivial⟩
  obtain ⟨t, -, -, hdue⟩ := evicted_when_due hreach hs hfacts.1 (Or.inr hnew) hrest
  have hlate : h₀.now + s.terms.inactivityTimeout ≤
      ((h₀.move (.create {} 0)).play [.pass 1800000]).now := by
    rw [hfacts.2.2, hh₀]
    decide
  have hgone := (hdue hfacts.2.1).2 hlate
  rw [hh₀] at hgone
  exact hgone

end HttpBinding.Hub
