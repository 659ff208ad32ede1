import Mathlib.Data.List.Perm.Subperm
import HttpBinding.Proofs.Hub.Eviction
import HttpBinding.Proofs.Hub.News
import HttpBinding.Proofs.Hub.View
import HttpBinding.Proofs.Hub.Watch

/-!
# HttpBinding.Proofs.Hub.Abandonment

Requests whose requesters have gone are let go of, whichever watch has its turn first.

The first watch that finds its requester gone has the session let go of everybody who has left
(`Pruned`); for all others nothing is left to do. A watch of another session, or one whose requester is
still there, does nothing that the session could notice (`Unmoved`). So after any number of turns of
watches the session is unmoved or pruned, and it is pruned as soon as the watch of one who left has had
its turn. As the watch of everybody who left is ready (`Manned.ready_of_abandoned`), that is the case
when all that are ready have had theirs, in any order.
-/

namespace HttpBinding

/-- The job watches a requester. -/
def Job.isWatch : Job → Bool
  | .watch _ _ => true
  | _ => false

theorem Job.isWatch_iff {job : Job} : job.isWatch = true ↔ ∃ k key, job = .watch k key := by
  cases job <;> simp [Job.isWatch]

/-- What the recorders of a session write down when it lets go of those who left: each of them hears of
each exchange once, in order, and sees how many are held then. -/
def Session.farewells (s : Session Observer) : List Telling :=
  ((closures (abandoned s.held)).flatMap fun e => s.observers.map fun o =>
    Notice.event e o.2).filterMap (Notice.telling? ⟨(waiting s.held).length, false⟩)

namespace Session

/-- Among those who wait nobody has left. -/
theorem abandoned_waiting (held : List Exchange) : abandoned (waiting held) = [] := by
  simp [abandoned, waiting, List.filter_filter]

theorem waiting_waiting (held : List Exchange) : waiting (waiting held) = waiting held := by
  simp [waiting]

theorem abandoned_eq_nil {held : List Exchange} :
    abandoned held = [] ↔ ∀ x ∈ held, x.isAbandoned = false := by
  simp [abandoned]

theorem waiting_of_abandoned_nil {held : List Exchange} (h : abandoned held = []) :
    waiting held = held := by
  refine List.filter_eq_self.mpr fun x hx => ?_
  simp [abandoned_eq_nil.mp h x hx]

end Session

namespace Hub

open Session

variable {q : Note → Bool} {k j : Nat} {id other : StreamId} {h h' h'' : Hub}
  {s t : Session Observer} {still : List Nat} {key : Nat}

/-! ### What is written about a session -/

/-- All that recorders of sessions with an identifier wrote down when they were told something. -/
def tellingsAbout (h : Hub) (id : StreamId) : List Telling :=
  (h.log (fun _ => true) id).filterMap fun e => e.note.telling?

/-- In a call about a session, notes are written about that session only. -/
theorem Step.journal (hs : Step k id h h') :
    ∃ es, h'.journal = h.journal ++ es ∧ ∀ e ∈ es, e.about = id.text := by
  have hnone : ∀ {b : Hub}, b.journal = h.journal →
      ∃ es, b.journal = h.journal ++ es ∧ ∀ e ∈ es, e.about = id.text := fun heq =>
    ⟨[], by simp [heq], by simp⟩
  cases hs with
  | operate => exact hnone rfl
  | aside ha =>
      cases ha with
      | arm =>
          obtain ⟨timers, ready, parked, heq⟩ := arm_eq h registryTimer k
          exact hnone (by rw [heq])
      | trifle ht =>
          cases ht with
          | note note => exact ⟨[⟨h.now, id.text, note⟩], rfl, by simp⟩
          | count | label | observe | unobserve | wake | unregister | visit => exact hnone rfl
          | cancel =>
              obtain ⟨timers, ready, parked, heq⟩ := cancel_eq h registryTimer k
              exact hnone (by rw [heq])

theorem Steps.journal (hs : Steps k id h h') :
    ∃ es, h'.journal = h.journal ++ es ∧ ∀ e ∈ es, e.about = id.text := by
  refine hs.keep (P := fun b => ∃ es, b.journal = h.journal ++ es ∧ ∀ e ∈ es, e.about = id.text)
    ?_ ⟨[], by simp, by simp⟩
  rintro a b hstep ⟨es, ha, habout⟩
  obtain ⟨more, hb, hmore⟩ := hstep.journal
  refine ⟨es ++ more, by rw [hb, ha, List.append_assoc], fun e he => ?_⟩
  rcases List.mem_append.mp he with he | he
  · exact habout e he
  · exact hmore e he

/-- Calls about one session add nothing to what is written about another. -/
theorem Steps.tellingsAbout_of_ne (hs : Steps k other h h') (hne : other ≠ id) :
    h'.tellingsAbout id = h.tellingsAbout id := by
  obtain ⟨es, hjournal, habout⟩ := hs.journal
  have hnone : es.filter (fun e => e.about == id.text && true) = [] := by
    refine List.filter_eq_nil_iff.mpr fun e he => ?_
    simp [habout e he, text_ne hne]
  simp only [Hub.tellingsAbout, log, hjournal, List.filter_append, hnone, List.append_nil]

/-- Whatever recorders write down in a call is about its session. -/
theorem Steps.tellingsAbout (hs : Steps k id h h') {more : List Telling}
    (htold : h'.tellings = h.tellings ++ more) :
    h'.tellingsAbout id = h.tellingsAbout id ++ more := by
  obtain ⟨es, hjournal, habout⟩ := hs.journal
  have hall : es.filter (fun e => e.about == id.text && true) = es := by
    refine List.filter_eq_self.mpr fun e he => ?_
    simp [habout e he]
  have hnew : es.filterMap (fun e => e.note.telling?) = more := by
    simpa [tellings, hjournal] using htold
  simp only [Hub.tellingsAbout, log, hjournal, List.filter_append, hall, List.filterMap_append, hnew]

/-! ### Before and after -/

/-- Nothing has happened that the session `k` with the identifier `id` notices. -/
structure Unmoved (k : Nat) (id : StreamId) (h h' : Hub) : Prop where
  now : h'.now = h.now
  session : h'.session? k = h.session? k
  tellings : h'.tellingsAbout id = h.tellingsAbout id
  ticking : ∀ deadline, Ticking k deadline h' ↔ Ticking k deadline h

/-- The session `k`, which was `s` in `h`, has let go of those who left and told its recorders. Its
countdown starts anew if it holds nothing because of that, and is what it was otherwise. -/
structure Pruned (h : Hub) (k : Nat) (s : Session Observer) (h' : Hub) : Prop where
  session : ∃ t, h'.session? k = some t ∧ t.held = waiting s.held ∧ t.closed = false ∧ t.id = s.id
  tellings : h'.tellingsAbout s.id = h.tellingsAbout s.id ++ s.farewells
  ticking : ∀ deadline, Ticking k deadline h' ↔
    if abandoned s.held ≠ [] ∧ waiting s.held = [] then
      deadline = h.now + s.terms.inactivityTimeout
    else Ticking k deadline h

theorem Unmoved.refl (k : Nat) (id : StreamId) (h : Hub) : Unmoved k id h h :=
  ⟨rfl, rfl, rfl, fun _ => Iff.rfl⟩

theorem Unmoved.trans (hu : Unmoved k id h h') (hu' : Unmoved k id h' h'') :
    Unmoved k id h h'' :=
  ⟨hu'.now.trans hu.now, hu'.session.trans hu.session, hu'.tellings.trans hu.tellings,
    fun deadline => (hu'.ticking deadline).trans (hu.ticking deadline)⟩

theorem Unmoved.pruned (hu : Unmoved k s.id h h') (hp : Pruned h' k s h'') : Pruned h k s h'' := by
  refine ⟨hp.session, hp.tellings.trans (by rw [hu.tellings]), fun deadline => ?_⟩
  rw [hp.ticking, hu.now]
  split
  · exact Iff.rfl
  · exact hu.ticking deadline

theorem Pruned.unmoved (hp : Pruned h k s h') (hu : Unmoved k s.id h' h'') : Pruned h k s h'' :=
  ⟨by rw [hu.session]; exact hp.session, hu.tellings.trans hp.tellings,
    fun deadline => (hu.ticking deadline).trans (hp.ticking deadline)⟩

/-- Where nobody has left there is nobody to let go of. -/
theorem farewells_of_abandoned_nil (hnone : abandoned s.held = []) : s.farewells = [] := by
  simp [farewells, hnone, closures]

theorem Pruned.of_stay (hs : h.session? k = some s) (hopen : s.closed = false)
    (hnone : abandoned s.held = []) : Pruned h k s h :=
  ⟨⟨s, hs, (waiting_of_abandoned_nil hnone).symm, hopen, rfl⟩,
    by rw [farewells_of_abandoned_nil hnone, List.append_nil], fun _ => by simp [hnone]⟩

/-- To prune once more does nothing. -/
theorem Pruned.again (hp : Pruned h k s h') (ht : h'.session? k = some t)
    (hp' : Pruned h' k t h'') : Pruned h k s h'' := by
  obtain ⟨t', ht', hheld, -, hid⟩ := hp.session
  rw [ht] at ht'
  obtain rfl := Option.some.inj ht'
  have hnone : abandoned t.held = [] := by rw [hheld, abandoned_waiting]
  obtain ⟨u, hu, huheld, huopen, huid⟩ := hp'.session
  refine ⟨⟨u, hu, ?_, huopen, huid.trans hid⟩, ?_, fun deadline => ?_⟩
  · rw [huheld, hheld, waiting_waiting]
  · have htold := hp'.tellings
    rw [farewells_of_abandoned_nil hnone, List.append_nil, hid] at htold
    exact htold.trans hp.tellings
  · have hticking := hp'.ticking deadline
    simp only [hnone, ne_eq, not_true_eq_false, false_and, if_false] at hticking
    exact hticking.trans (hp.ticking deadline)

/-! ### Letting go -/

/-- **To let go of those who left** prunes the session. -/
theorem InStep.pruned_release (hi : InStep still h) (hs : h.session? k = some s)
    (hopen : s.closed = false) : Pruned h k s (h.release k).1 := by
  have heq := (s.release_cases).resolve_left (by simp [hopen])
  have hdone := hi.release hs
  have hshown := (hi.sane.tidy.sound s (mem_sessions hs)).shown
  obtain ⟨observers, nextTicket, hafter⟩ := hi.session?_release hs
  have hafter' : ∃ t, (h.release k).1.session? k = some t ∧ t.held = waiting s.held ∧
      t.closed = false ∧ t.id = s.id := by
    refine ⟨_, hafter, ?_⟩
    rw [heq.2]
    exact ⟨rfl, hopen, rfl⟩
  refine ⟨hafter', ?_, fun deadline => ?_⟩
  · refine (Hub.steps_release (hi.placed hs)).tellingsAbout ?_
    have htold := tellings_conclude hs hopen s.fits_release (Stage.failedOver_release s)
    simp only [Hub.release, hs]
    rw [htold, farewells, heq.2]
    simp only [publish, hshown, hopen]
  · by_cases hgone : abandoned s.held = []
    · have hquiet : s.release.events = [] := by simp [heq.2, hgone, closures]
      simp only [hgone, ne_eq, not_true_eq_false, false_and, if_false]
      exact ((hdone.quiet hquiet).spares k).ticking_iff
    · have hloud : s.release.events ≠ [] := by simp [heq.2, hgone]
      by_cases hempty : waiting s.held = []
      · simp only [hgone, hempty, ne_eq, not_false_eq_true, and_self, if_true]
        have hticking := hdone.idle hloud (by rw [heq.2]; exact hempty)
        refine ⟨fun hother => ?_, fun hsame => hsame ▸ hticking⟩
        obtain ⟨c, hc, htarget, rfl⟩ := hother
        exact hdone.inStep.deadline_eq hdone.gist hticking hc htarget
      · -- something is held all along, so nothing runs
        simp only [hempty, and_false, if_false]
        obtain ⟨u, hu, hheld, -⟩ := hafter'
        have hbefore := hi.stopped_of_held hs (waiting_ne_nil hempty)
        have hstopped := hdone.inStep.stopped_of_held hu (hheld ▸ hempty)
        refine ⟨fun hother => ?_, fun hother => ?_⟩
        · obtain ⟨c, hc, htarget, -⟩ := hother
          exact absurd htarget (hstopped c hc)
        · obtain ⟨c, hc, htarget, -⟩ := hother
          exact absurd htarget (hbefore c hc)

/-- An ended session has nobody to let go of. -/
theorem release_of_closed (hs : h.session? k = some s) (hclosed : s.closed = true) :
    (h.release k).1 = h := by
  have heq := (s.release_cases).resolve_right (by simp [hclosed])
  have hself : ({ h.setSession k s with loose := h.loose ++ [] } : Hub) = h := by
    rw [setSession_self hs, List.append_nil]
  simp only [Hub.release, hs, heq.2, conclude, Report.notices, List.flatMap_nil, List.foldl_nil,
    absorb]
  rw [hself]
  split <;> rfl

/-- Another session lets go of those who left. -/
theorem InStep.unmoved_release (hi : InStep still h) (hs : h.session? k = some s)
    (hopen : s.closed = false) (hj : k ≠ j) : Unmoved k s.id h (h.release j).1 := by
  have huntouched := hi.untouched_release (a := j) hj
  refine ⟨?_, huntouched.session, ?_, fun _ => huntouched.ticking_iff⟩
  · cases ht : h.session? j with
    | none => simp [Hub.release, ht]
    | some t => exact (hi.release ht).confined.now
  · cases ht : h.session? j with
    | none => simp [Hub.release, ht]
    | some t =>
        cases htopen : t.closed with
        | true => rw [release_of_closed ht htopen]
        | false =>
            exact (Hub.steps_release (hi.placed ht)).tellingsAbout_of_ne
              (hi.id_ne hs hopen ht htopen (Ne.symm hj))

/-! ### One watch after the other -/

/-- To take a job off the queue concerns no session. -/
theorem unmoved_unqueue (k : Nat) (id : StreamId) (h : Hub) (rest : List Job) :
    Unmoved k id h { h with ready := rest } :=
  ⟨rfl, rfl, rfl, fun _ => Iff.rfl⟩

/-- **A watch that finds its requester gone prunes its session**; otherwise nothing happens to it. -/
theorem InStep.turn_watch_cases (hi : InStep still h) (hs : h.session? k = some s)
    (hopen : s.closed = false) {i : Nat} (hjob : h.ready[i]? = some (.watch j key)) :
    Unmoved k s.id h (h.move (.turn i)) ∧
        (j = k → (h.exchange? key).any Exchange.departed = false) ∨
      Pruned h k s (h.move (.turn i)) := by
  obtain ⟨h₁, hh₁⟩ : ∃ h₁ : Hub, h₁ = { h with ready := h.ready.eraseIdx i } := ⟨_, rfl⟩
  have hin : InStep still h₁ := hh₁ ▸ hi.take_of_ne_evict (leaves_eraseIdx hjob) (by simp)
  have hoff : Unmoved k s.id h h₁ := hh₁ ▸ unmoved_unqueue k s.id h _
  have hs₁ : h₁.session? k = some s := hoff.session.trans hs
  rw [move_turn hjob]
  cases hgone : (h.exchange? key).any Exchange.departed with
  | false =>
      have hparked : Unmoved k s.id h₁ (h₁.park (.watch j key)) :=
        ⟨rfl, rfl, rfl, fun _ => Iff.rfl⟩
      rw [turn_watch_of_stays hgone, ← hh₁]
      exact Or.inl ⟨hoff.trans hparked, fun _ => rfl⟩
  | true =>
      rw [turn_watch_of_departed hgone, ← hh₁]
      by_cases hj : k = j
      · subst hj
        exact Or.inr (hoff.pruned (hin.pruned_release hs₁ hopen))
      · exact Or.inl ⟨hoff.trans (hin.unmoved_release hs₁ hopen hj), fun heq => absurd heq.symm hj⟩

/-- Lets jobs that are ready take their turns, in the order of the list. -/
def takeTurns (h : Hub) (jobs : List Job) : Hub :=
  jobs.foldl (fun h job => h.move (.turn (h.ready.idxOf job))) h

theorem getElem?_idxOf {job : Job} (hmem : job ∈ h.ready) :
    h.ready[h.ready.idxOf job]? = some job := by
  have hlt := List.idxOf_lt_length_of_mem hmem
  rw [List.getElem?_eq_getElem hlt, List.getElem_idxOf hlt]

/-- The other jobs are still ready when one has had its turn. -/
theorem InStep.subperm_ready (hi : InStep still h) {job : Job} {jobs : List Job}
    (hjobs : (job :: jobs).Subperm h.ready) :
    jobs.Subperm (h.move (.turn (h.ready.idxOf job))).ready := by
  have hjob := getElem?_idxOf (hjobs.subset List.mem_cons_self)
  have hrest : jobs.Subperm (h.ready.eraseIdx (h.ready.idxOf job)) := by
    have herase := hjobs.erase job
    rwa [List.erase_cons_head, List.erase_eq_eraseIdx_of_idxOf rfl] at herase
  obtain ⟨more, hmore⟩ := (hi.course_turn (leaves_eraseIdx hjob)).ready
  rw [move_turn hjob, hmore]
  exact hrest.trans (List.sublist_append_left _ more).subperm

theorem InStep.pruned_turn (hi : InStep still h') (hp : Pruned h k s h') {i : Nat}
    (hjob : h'.ready[i]? = some (.watch j key)) : Pruned h k s (h'.move (.turn i)) := by
  obtain ⟨t, ht, -, htopen, hid⟩ := hp.session
  rcases hi.turn_watch_cases ht htopen hjob with ⟨hu, -⟩ | hp'
  · exact hp.unmoved (hid ▸ hu)
  · exact hp.again ht hp'

/-- Once a session is pruned, watches find nothing to do. -/
theorem InStep.pruned_takeTurns (hi : InStep still h') (hp : Pruned h k s h') {jobs : List Job}
    (hjobs : jobs.Subperm h'.ready) (hwatches : ∀ job ∈ jobs, job.isWatch = true) :
    Pruned h k s (h'.takeTurns jobs) := by
  induction jobs generalizing still h' with
  | nil => exact hp
  | cons job jobs ih =>
      obtain ⟨j, key, rfl⟩ := Job.isWatch_iff.mp (hwatches job List.mem_cons_self)
      have hjob := getElem?_idxOf (hjobs.subset List.mem_cons_self)
      exact ih (hi.move _).inStep (hi.pruned_turn hp hjob) (hi.subperm_ready hjobs)
        fun job hmem => hwatches job (List.mem_cons_of_mem _ hmem)

/-- **Any number of watches, in any order**, leave a session unmoved or prune it, and they prune it if
the watch of one who left is among them. -/
theorem InStep.takeTurns_cases (hi : InStep still h) (ho : h.Orderly) (hs : h.session? k = some s)
    (hopen : s.closed = false) {jobs : List Job} (hjobs : jobs.Subperm h.ready)
    (hwatches : ∀ job ∈ jobs, job.isWatch = true) :
    Unmoved k s.id h (h.takeTurns jobs) ∧
        (∀ x ∈ s.held, .watch k x.key ∈ jobs → x.departed = false) ∨
      Pruned h k s (h.takeTurns jobs) := by
  induction jobs generalizing still h with
  | nil => exact Or.inl ⟨.refl k s.id h, by simp⟩
  | cons job jobs ih =>
      obtain ⟨j, key, rfl⟩ := Job.isWatch_iff.mp (hwatches job List.mem_cons_self)
      have hjob := getElem?_idxOf (hjobs.subset List.mem_cons_self)
      have hothers : ∀ job ∈ jobs, job.isWatch = true := fun job hmem =>
        hwatches job (List.mem_cons_of_mem _ hmem)
      have hrest := hi.subperm_ready hjobs
      have hi' := (hi.move (.turn (h.ready.idxOf (.watch j key)))).inStep
      rcases hi.turn_watch_cases hs hopen hjob with ⟨hu, hstays⟩ | hp
      · have hs' := hu.session.trans hs
        rcases ih hi' (ho.move hi _) hs' hrest hothers with ⟨hu', hstays'⟩ | hp
        · refine Or.inl ⟨hu.trans hu', fun x hx hmem => ?_⟩
          rcases List.mem_cons.mp hmem with heq | hmem
          · obtain ⟨rfl, rfl⟩ : k = j ∧ x.key = key := by simpa using heq
            have hfound := ho.exchange?_eq_some_iff.mpr ⟨mem_exchanges_of_held hs hx, rfl⟩
            simpa [hfound] using hstays rfl
          · exact hstays' x hx hmem
        · exact Or.inr (hu.pruned hp)
      · exact Or.inr (hi'.pruned_takeTurns hp hrest hothers)

/-- Where the watches are among those that are ready, it does not matter what else is. -/
theorem InStep.takeTurns_watches (hi : InStep still h) (ho : h.Orderly) (hs : h.session? k = some s)
    (hopen : s.closed = false) {watches : List Job}
    (hready : watches.Subperm (h.ready.filter Job.isWatch)) :
    Unmoved k s.id h (h.takeTurns watches) ∧
        (∀ x ∈ s.held, .watch k x.key ∈ watches → x.departed = false) ∨
      Pruned h k s (h.takeTurns watches) :=
  hi.takeTurns_cases ho hs hopen (hready.trans List.filter_sublist.subperm)
    fun _ hmem => (List.mem_filter.mp (hready.subset hmem)).2

/-- When all watches that are ready have had their turns, in any order, the session is pruned. -/
theorem Manned.pruned_takeTurns {keys : List Nat} (hm : Manned k keys none h) (hi : InStep still h)
    (ho : h.Orderly) (hs : h.session? k = some s) (hopen : s.closed = false) {watches : List Job}
    (hperm : watches.Perm (h.ready.filter Job.isWatch)) : Pruned h k s (h.takeTurns watches) := by
  rcases hi.takeTurns_watches ho hs hopen hperm.subperm with ⟨hu, hstays⟩ | hp
  · have hnone : abandoned s.held = [] := by
      refine abandoned_eq_nil.mpr fun x hx => Bool.eq_false_iff.mpr fun hleft => ?_
      obtain ⟨hjob, hdeparted⟩ := hm.ready_of_abandoned hs hx hleft
      have hmem := hperm.mem_iff.mpr (List.mem_filter.mpr ⟨hjob, rfl⟩)
      rw [hstays x hx hmem] at hdeparted
      cases hdeparted
    exact (Pruned.of_stay hs hopen hnone).unmoved hu
  · exact hp

/-! ### Any run -/

/-- Of the requests `keys` that it has admitted, the session `k`, which is `s`, holds those for whose
answer somebody waits, in the order of their admission. Nobody whom it holds has left, and its
countdown runs if it holds nothing. -/
structure Tended (h : Hub) (keys : List Nat) (s : Session Observer) : Prop where
  stay : ∀ x ∈ s.held, x.isAbandoned = false
  queue : s.held.map Exchange.key = keys.filter h.awaits
  armed : s.held = [] → (h.timer registryTimer).isArmed s.id = true

theorem Manned.tended {keys : List Nat} (hm : Manned k keys none h) (hi : InStep still h)
    (ho : h.Orderly) (hs : h.session? k = some s) (hopen : s.closed = false)
    (hstay : ∀ x ∈ s.held, x.isAbandoned = false) : Tended h keys s := by
  refine ⟨hstay, hm.held_eq_filter ho hs hstay, fun hnone => ?_⟩
  have hshown := (hi.sane.tidy.sound s (mem_sessions hs)).shown
  rw [hi.isArmed_of_open hs hopen]
  simp [idle, hshown, hnone, hopen]

/-- While jobs take their turns nothing is admitted, and requests stay watched. -/
theorem Manned.takeTurns {keys : List Nat} (hm : Manned k keys none h) (hi : InStep still h)
    (ho : h.Orderly) (jobs : List Job) :
    Manned k keys none (h.takeTurns jobs) ∧ (h.takeTurns jobs).Orderly ∧
      ∃ still, InStep still (h.takeTurns jobs) := by
  induction jobs generalizing still h with
  | nil => exact ⟨hm, ho, still, hi⟩
  | cons job jobs ih =>
      have hstep := hm.move hi ho (m := .turn (h.ready.idxOf job)) (by simp)
      simp only [admittedBy, List.append_nil] at hstep
      exact ih hstep (hi.move _).inStep (ho.move hi _)

/-- **Whoever leaves is let go of, whichever watch has its turn first.** A session gets its requests by
`forward` only, in a run that leaves it open. What its recorders have heard of tallies with what it holds.
If none of its watches is ready, it is tended. Any number of watches that are ready, in any order, leave
it unmoved or prune it, so nobody is reported twice. When all of them have had their turns it is pruned
and tended; and another order comes to the same queue, the same notes of its recorders and the same
countdown. -/
theorem abandoned_released_in_any_order (settings : Settings) (server : Server) (sink : Sink)
    (ids : Nat → StreamId) {ms : List Move} (hforwarded : ∀ key poll, .enter k key poll ∉ ms)
    (hh : h = (Script.withService settings server sink ids).play ms)
    (hs : h.session? k = some s) (hopen : s.closed = false) :
    let start := Script.withService settings server sink ids
    let admitted := admittedIn k start ms
    Reported k start ms s ∧
    ((∀ key, .watch k key ∉ h.ready) → Tended h admitted s) ∧
    (∀ watches : List Job, watches.Subperm (h.ready.filter Job.isWatch) →
      Unmoved k s.id h (h.takeTurns watches) ∨ Pruned h k s (h.takeTurns watches)) ∧
    ∀ watches : List Job, watches.Perm (h.ready.filter Job.isWatch) →
      Pruned h k s (h.takeTurns watches) ∧
      (∀ t, (h.takeTurns watches).session? k = some t →
        Tended (h.takeTurns watches) admitted t) ∧
      ∀ others : List Job, others.Perm (h.ready.filter Job.isWatch) →
        ((h.takeTurns others).session? k).map Session.held =
            ((h.takeTurns watches).session? k).map Session.held ∧
          (h.takeTurns others).tellingsAbout s.id = (h.takeTurns watches).tellingsAbout s.id ∧
          ∀ deadline, Ticking k deadline (h.takeTurns others) ↔
            Ticking k deadline (h.takeTurns watches) := by
  intro start admitted
  have hbegun := inStep_start settings server sink ids
  have hm : Manned k admitted none h := by
    have hplayed := (manned_start settings server sink ids k).play hbegun
      (orderly_start settings server sink ids) hforwarded
    rw [hh]
    exact hplayed
  obtain ⟨still, hi⟩ : ∃ still, InStep still h := ⟨_, hh ▸ hbegun.play ms⟩
  have ho : h.Orderly := (Reachable.orderly ⟨_, _, _, _, _, hh⟩).1
  refine ⟨hbegun.reported_play (hh ▸ hs) hopen, fun hnone => hm.tended hi ho hs hopen fun x hx =>
      Bool.eq_false_iff.mpr fun hleft => ?_,
    fun watches hready => (hi.takeTurns_watches ho hs hopen hready).imp_left And.left,
    fun watches hperm => ?_⟩
  · exact hnone x.key (hm.ready_of_abandoned hs hx hleft).1
  · have hp := hm.pruned_takeTurns hi ho hs hopen hperm
    obtain ⟨t, ht, hheld, htopen, -⟩ := hp.session
    obtain ⟨hm', ho', still', hi'⟩ := hm.takeTurns hi ho watches
    refine ⟨hp, fun u hu => ?_, fun others hothers => ?_⟩
    · rw [ht] at hu
      obtain rfl := Option.some.inj hu
      refine hm'.tended hi' ho' ht htopen (abandoned_eq_nil.mp ?_)
      rw [hheld, abandoned_waiting]
    · have hp' := hm.pruned_takeTurns hi ho hs hopen hothers
      obtain ⟨t', ht', hheld', -⟩ := hp'.session
      refine ⟨?_, hp'.tellings.trans hp.tellings.symm,
        fun deadline => (hp'.ticking deadline).trans (hp.ticking deadline).symm⟩
      rw [ht, ht', Option.map_some, Option.map_some, hheld, hheld']

/-- A session gets three requests, and the first and the last requester go. -/
def twoLeave : List Move :=
  [.connect 1 false, .create { attributes := [("hold", "0")] } 0, .listen 0 "r" [],
    .forward 2 0 false [⟨"<a/>"⟩], .forward 3 0 false [⟨"<b/>"⟩], .forward 4 0 false [⟨"<c/>"⟩],
    .exchange 1 .depart, .exchange 3 .leave]

/-- The hub in which that has happened. -/
def twoHaveLeft : Hub :=
  (Script.withService {} {} .recorded fun _ => ⟨"a"⟩).play twoLeave

/-- Whichever watch comes first, the second request stays, and the two others are let go of. Before
that the recorder has heard of the three that are held. -/
theorem second_is_held :
    ∃ s, twoHaveLeft.session? 0 = some s ∧ s.held.map Exchange.key = [1, 2, 3] ∧
      Tallies [] (twoHaveLeft.news "r") [2, 3, 4] ∧
      twoHaveLeft.ready.filter Job.isWatch = [.watch 0 1, .watch 0 2, .watch 0 3] ∧
      s.farewells = [⟨.closed, "r", some 2, ⟨1, false⟩⟩, ⟨.closed, "r", some 4, ⟨1, false⟩⟩] ∧
      Pruned twoHaveLeft 0 s (twoHaveLeft.takeTurns [.watch 0 3, .watch 0 2, .watch 0 1]) ∧
      (∀ t, (twoHaveLeft.takeTurns [.watch 0 3, .watch 0 2, .watch 0 1]).session? 0 = some t →
        Tended (twoHaveLeft.takeTurns [.watch 0 3, .watch 0 2, .watch 0 1]) [1, 2, 3] t) ∧
      ((twoHaveLeft.takeTurns [.watch 0 1, .watch 0 2, .watch 0 3]).session? 0).map Session.held =
        ((twoHaveLeft.takeTurns [.watch 0 3, .watch 0 2, .watch 0 1]).session? 0).map
          Session.held := by
  obtain ⟨s, hs, hopen, hheld, hrids, hlistens, hfarewells⟩ :
      ∃ s, twoHaveLeft.session? 0 = some s ∧ s.closed = false ∧
        s.held.map Exchange.key = [1, 2, 3] ∧ s.held.map Exchange.rid = [2, 3, 4] ∧
        (∃ o ∈ s.observers, o.2 = .recorder "r" []) ∧
        s.farewells = [⟨.closed, "r", some 2, ⟨1, false⟩⟩, ⟨.closed, "r", some 4, ⟨1, false⟩⟩] := by
    refine ⟨_, rfl, ?_, ?_, ?_, ?_, ?_⟩ <;> decide
  have hadmitted : admittedIn 0 (Script.withService {} {} .recorded fun _ => ⟨"a"⟩) twoLeave =
      [1, 2, 3] := by decide
  have hready : twoHaveLeft.ready.filter Job.isWatch =
      [.watch 0 1, .watch 0 2, .watch 0 3] := by decide
  have hforwarded : ∀ key poll, Move.enter 0 key poll ∉ twoLeave := by simp [twoLeave]
  have hh : twoHaveLeft =
      (Script.withService {} {} .recorded fun _ => ⟨"a"⟩).play twoLeave := rfl
  obtain ⟨hreported, -, -, hany⟩ := abandoned_released_in_any_order {} {} .recorded (fun _ => ⟨"a"⟩)
    hforwarded hh hs hopen
  -- nothing is held when the recorder begins to listen
  obtain ⟨past, hpast, hnobody⟩ : ∃ past : Session Observer,
      (play (Script.withService {} {} .recorded fun _ => ⟨"a"⟩) (twoLeave.take 2)).session? 0 =
        some past ∧ past.held = [] := ⟨_, rfl, rfl⟩
  have hexclusive : Exclusive "r" [] (twoLeave.drop 3)
      (play (Script.withService {} {} .recorded fun _ => ⟨"a"⟩) (twoLeave.take 2)) :=
    ⟨by decide, by simp, by simp [twoLeave, Move.newcomer?]⟩
  obtain ⟨es, hnews, htallies⟩ := hreported rfl rfl hpast hexclusive hlistens
  have hnone : (play (Script.withService {} {} .recorded fun _ => ⟨"a"⟩)
      (twoLeave.take 2)).news "r" = [] := by decide
  rw [← hh, hnone, List.nil_append] at hnews
  rw [← hnews, hnobody, hrids] at htallies
  rw [hadmitted, hready] at hany
  have hreversed := List.reverse_perm [Job.watch 0 1, .watch 0 2, .watch 0 3]
  obtain ⟨hp, htended, horder⟩ := hany [.watch 0 3, .watch 0 2, .watch 0 1] hreversed
  exact ⟨s, hs, hheld, htallies, hready, hfarewells, hp, htended, (horder _ (.refl _)).1⟩

end Hub

end HttpBinding
