import HttpBinding.Proofs.Hub.Strokes

/-!
# HttpBinding.Proofs.Hub.Timekeeping

The tables of countdowns say what their chronicle says.

From the marks of a chronicle alone one can tell which countdown counts for an identifier: the one
that was started last, unless it was stopped since or has come to its end (`counting?`). `Timed` is
the invariant that compares a table with this, and with the jobs that are queued for it. It is kept
by every deed (`Timed.deed`), and so along every chronicle (`Chronicle.timed`).

While a session is being ended because its countdown has come to its end, that countdown is *busy*:
it may still be on the table, but its job is off the queue. It is known by its generation, which no
countdown that is started meanwhile has, so when it takes itself off the table it takes nothing else
(`Timed.retire`).
-/

namespace HttpBinding

/-! ### What counts -/

/-- The job is that of the countdown `g` of the table `t`. -/
def Job.isEvictionOf (t g : Nat) : Job → Bool
  | .evict timer generation _ => timer == t && generation == g
  | _ => false

/-- What counts for an identifier in the table `t` after a mark, where `before` counted so far. -/
def Mark.counts (t : Nat) (id : StreamId) (before : Option Countdown) : Mark → Option Countdown
  | .arm timer c ended _ =>
    if timer = t ∧ c.id = id then (if ended then none else some c) else before
  | .cancel timer other => if timer = t ∧ other = id then none else before
  | .cancelAll timer => if timer = t then none else before
  | .finish timer c => if timer = t ∧ before = some c then none else before
  | .due .. | .created .. | .closed .. => before

/-- The countdown that was started last for an identifier in the table `t`, unless it was stopped
since or has come to its end. -/
def counting? (t : Nat) (id : StreamId) (marks : List Mark) : Option Countdown :=
  marks.foldl (Mark.counts t id) none

/-- Something is done to the table `t`. -/
def Mark.Concerns (t : Nat) : Mark → Prop
  | .arm timer _ _ _ | .cancel timer _ | .cancelAll timer | .finish timer _ => timer = t
  | .due .. | .created .. | .closed .. => False

section

variable {t : Nat} {id : StreamId} {marks later : List Mark} {m : Mark} {c : Countdown}

theorem Mark.counts_of_not_concerns (h : ¬ m.Concerns t) (before : Option Countdown) :
    m.counts t id before = before := by
  cases m <;> simp_all [Mark.counts, Mark.Concerns]

theorem counting?_append (t : Nat) (id : StreamId) (marks later : List Mark) :
    counting? t id (marks ++ later) = later.foldl (Mark.counts t id) (counting? t id marks) := by
  simp [counting?]

theorem counting?_concat (t : Nat) (id : StreamId) (marks : List Mark) (m : Mark) :
    counting? t id (marks ++ [m]) = m.counts t id (counting? t id marks) := by
  simp [counting?]

/-- Marks that concern other tables only do not count. -/
theorem counting?_append_of_not_concerns (h : ∀ m ∈ later, ¬ m.Concerns t) :
    counting? t id (marks ++ later) = counting? t id marks := by
  rw [counting?_append]
  generalize counting? t id marks = before
  induction later with
  | nil => rfl
  | cons m later ih =>
      rw [List.foldl_cons, Mark.counts_of_not_concerns (h m (by simp))]
      exact ih fun m' hm' => h m' (by simp [hm'])

/-- What counts after some marks was started by one of them or counted before. -/
theorem counted_before (h : counting? t id (marks ++ later) = some c) :
    counting? t id marks = some c ∨ ∃ time, .arm t c false time ∈ later := by
  rw [counting?_append] at h
  generalize counting? t id marks = before at h
  induction later generalizing before with
  | nil => exact .inl h
  | cons m later ih =>
      rcases ih _ h with hcount | ⟨time, hlater⟩
      · -- the first mark let `c` count, or it did so before
        cases m with
        | arm timer d ended time =>
            simp only [Mark.counts] at hcount
            split at hcount
            · rename_i heq
              split at hcount
              · cases hcount
              · rename_i hopen
                obtain rfl := Option.some.inj hcount
                obtain rfl := heq.1
                exact .inr ⟨time, by simp [hopen]⟩
            · exact .inl hcount
        | cancel | cancelAll | finish | due | created | closed =>
            simp only [Mark.counts] at hcount
            first
              | exact .inl hcount
              | (split at hcount
                 · cases hcount
                 · exact .inl hcount)
      · exact .inr ⟨time, List.mem_cons_of_mem _ hlater⟩

end

namespace Hub

variable {h h' : Hub} {t u g k : Nat} {s : Session Observer} {c : Countdown}

/-! ### Tables and jobs -/

theorem timer_setTimer_self (ht : t < h.timers.length) (c : Countdowns) :
    (h.setTimer t c).timer t = c := by
  simp [timer, setTimer, wake, ht]

theorem timer_setTimer_of_ne (hne : u ≠ t) (c : Countdowns) :
    (h.setTimer u c).timer t = h.timer t := by
  simp [timer, setTimer, wake, hne]

/-- A table that is not there is empty, and stays so if there is nothing to be done to an empty
one. -/
theorem timer_setTimer_of_empty {f : Countdowns → Countdowns} (hf : f {} = {}) :
    (h.setTimer t (f (h.timer t))).timer t = f (h.timer t) := by
  rcases Nat.lt_or_ge t h.timers.length with hlt | hge
  · exact timer_setTimer_self hlt _
  · have hempty : h.timer t = {} := by simp [timer, hge]
    have hsame : h.timers.set t (f (h.timer t)) = h.timers := List.set_eq_of_length_le hge
    have hkept : (h.setTimer t (f (h.timer t))).timer t = h.timer t :=
      congrArg (fun timers => timers.getD t {}) hsame
    rw [hkept, hempty, hf]

/-- The jobs that are queued for the countdown `g` of the table `t`. -/
def jobsOf (h : Hub) (t g : Nat) : List Job :=
  (h.ready ++ h.parked).filter (Job.isEvictionOf t g)

theorem isEvictionOf_iff {job : Job} :
    job.isEvictionOf t g = true ↔ ∃ k, job = .evict t g k := by
  cases job <;> simp [Job.isEvictionOf]

theorem perm_jobsOf_setTimer (h : Hub) (c : Countdowns) :
    ((h.setTimer u c).jobsOf t g).Perm (h.jobsOf t g) :=
  (perm_wake { h with timers := h.timers.set u c } _).filter _

theorem Calm.perm_jobsOf (hc : Calm h h') : (h'.jobsOf t g).Perm (h.jobsOf t g) := by
  have hfilter : ∀ jobs : List Job, jobs.filter (Job.isEvictionOf t g) =
      (jobs.filter Job.isEviction).filter (Job.isEvictionOf t g) := by
    intro jobs
    rw [List.filter_filter]
    refine List.filter_congr fun job _ => ?_
    cases job <;> simp [Job.isEvictionOf, Job.isEviction]
  rw [jobsOf, jobsOf, hfilter, hfilter (h.ready ++ h.parked)]
  exact hc.jobs.filter _

theorem mem_parked_setTimer {c : Countdowns} {job : Job} (hjob : job ∈ (h.setTimer u c).parked) :
    job ∈ h.parked :=
  (List.mem_filter.mp hjob).1

/-! ### What becomes of a hub -/

/-- Time may have passed, and no session is lost. -/
structure Later (h h' : Hub) : Prop where
  now : h.now ≤ h'.now
  sessions : ∀ k s, h.session? k = some s → ∃ s', h'.session? k = some s' ∧ s.Persists s'

theorem Later.of_eq (hnow : h'.now = h.now) (hsessions : h'.sessions = h.sessions) :
    Later h h' :=
  ⟨Nat.le_of_eq hnow.symm, fun _ s hs => ⟨s, by rw [session?, hsessions]; exact hs, .refl s⟩⟩

theorem Deed.later {marks : List Mark} (hd : Deed h marks h') : Later h h' :=
  ⟨hd.now, fun _ _ hs => hd.sessions hs⟩

theorem later_setTimer (h : Hub) (t : Nat) (c : Countdowns) : Later h (h.setTimer t c) :=
  .of_eq rfl rfl

/-- A countdown has come to its end: it ended its session, and is never seen again. -/
structure Spent (h : Hub) (t : Nat) (c : Countdown) : Prop where
  numbered : c.generation < (h.timer t).next
  gone : ∀ d ∈ (h.timer t).running, d.generation ≠ c.generation
  due : c.deadline ≤ h.now
  ended : ∃ s, h.session? c.target = some s ∧ s.closed = true

theorem Spent.later (hsp : h.Spent t c) (hl : Later h h')
    (hnext : (h.timer t).next ≤ (h'.timer t).next)
    (hrunning : ∀ d ∈ (h'.timer t).running, d ∈ (h.timer t).running ∨
      d.generation = (h.timer t).next) : h'.Spent t c where
  numbered := Nat.lt_of_lt_of_le hsp.numbered hnext
  gone := by
    intro d hd
    rcases hrunning d hd with hold | hnew
    · exact hsp.gone d hold
    · have hlt := hsp.numbered
      omega
  due := Nat.le_trans hsp.due hl.now
  ended := by
    obtain ⟨s, hs, hc⟩ := hsp.ended
    obtain ⟨s', hs', hp⟩ := hl.sessions _ s hs
    exact ⟨s', hs', hp.closed hc⟩

/-- A countdown was started for its session, at a time that explains its deadline. -/
def Started (h : Hub) (t : Nat) (marks : List Mark) (c : Countdown) : Prop :=
  ∃ time s, .arm t c false time ∈ marks ∧ h.session? c.target = some s ∧ s.id = c.id ∧
    c.deadline = time + s.terms.inactivityTimeout

theorem Started.later {marks marks' : List Mark} (hst : h.Started t marks c) (hl : Later h h')
    (hsub : marks ⊆ marks') : h'.Started t marks' c := by
  obtain ⟨time, s, hmem, hs, hid, hdeadline⟩ := hst
  obtain ⟨s', hs', hp⟩ := hl.sessions _ s hs
  exact ⟨time, s', hsub hmem, hs', hp.id.trans hid, by rw [hp.terms, hdeadline]⟩

/-! ### The invariant -/

/-- The table `t` is as `past` says. The countdowns `busy` have come to their end and their sessions
are being ended. -/
structure Timed (t : Nat) (busy : List Countdown) (past : List Mark) (h : Hub) : Prop where
  regular : (h.timer t).Regular
  counting : ∀ id c, counting? t id past = some c ↔ c ∈ (h.timer t).running ∧ c.id = id
  started : ∀ c ∈ (h.timer t).running, h.Started t past c
  /-- No job is queued for a countdown to come. -/
  fresh : ∀ g, (h.timer t).next ≤ g → h.jobsOf t g = []
  /-- A countdown that runs has one job. -/
  waiting : ∀ c ∈ (h.timer t).running, c ∉ busy →
    h.jobsOf t c.generation = [.evict t c.generation c.target]
  /-- The job of a busy countdown has its turn. -/
  working : ∀ c ∈ busy, h.jobsOf t c.generation = []
  /-- A job is not put aside when its time has come. -/
  early : ∀ c ∈ (h.timer t).running, .evict t c.generation c.target ∈ h.parked →
    h.now < c.deadline
  /-- A busy countdown is of an old generation, which is its own. -/
  known : ∀ c ∈ busy, c.generation < (h.timer t).next ∧
    ∀ d ∈ (h.timer t).running, d.generation = c.generation → d = c
  spent : ∀ c, .finish t c ∈ past → h.Spent t c

variable {busy : List Countdown} {past ms : List Mark}

/-- Some of the countdowns go on, no other is started, and what goes on keeps its job. -/
theorem Timed.keep {p : Countdown → Prop} (hT : Timed t busy past h)
    (hregular : (h'.timer t).Regular)
    (hrunning : ∀ d, d ∈ (h'.timer t).running ↔ d ∈ (h.timer t).running ∧ p d)
    (hnext : (h.timer t).next ≤ (h'.timer t).next)
    (hcount : ∀ id d, counting? t id (past ++ ms) = some d ↔ counting? t id past = some d ∧ p d)
    (hlater : Later h h')
    (hjobs : ∀ d ∈ (h.timer t).running, (h'.jobsOf t d.generation).Perm (h.jobsOf t d.generation))
    (hnojobs : ∀ g, h.jobsOf t g = [] → h'.jobsOf t g = [])
    (hearly : ∀ d ∈ (h.timer t).running, .evict t d.generation d.target ∈ h'.parked →
      h'.now < d.deadline)
    (hspent : ∀ c, .finish t c ∈ ms → h'.Spent t c) : Timed t busy (past ++ ms) h' where
  regular := hregular
  counting := by
    intro id d
    rw [hcount, hT.counting, hrunning]
    exact and_right_comm
  started := fun d hd =>
    (hT.started d ((hrunning d).mp hd).1).later hlater (List.subset_append_left ..)
  fresh := fun g hg => hnojobs g (hT.fresh g (Nat.le_trans hnext hg))
  waiting := by
    intro d hd hidle
    have hold := ((hrunning d).mp hd).1
    exact List.perm_singleton.mp (hT.waiting d hold hidle ▸ hjobs d hold)
  working := fun c hc => hnojobs _ (hT.working c hc)
  early := fun d hd => hearly d ((hrunning d).mp hd).1
  known := fun c hc =>
    ⟨Nat.lt_of_lt_of_le (hT.known c hc).1 hnext, fun d hd =>
      (hT.known c hc).2 d ((hrunning d).mp hd).1⟩
  spent := by
    intro c hc
    rcases List.mem_append.mp hc with hc | hc
    · exact (hT.spent c hc).later hlater hnext fun d hd => .inl ((hrunning d).mp hd).1
    · exact hspent c hc

/-- Nothing is done to the table. -/
theorem Timed.shift (hT : Timed t busy past h) (htimer : h'.timer t = h.timer t)
    (hlater : Later h h')
    (hjobs : ∀ d ∈ (h.timer t).running, (h'.jobsOf t d.generation).Perm (h.jobsOf t d.generation))
    (hnojobs : ∀ g, h.jobsOf t g = [] → h'.jobsOf t g = [])
    (hearly : ∀ d ∈ (h.timer t).running, .evict t d.generation d.target ∈ h'.parked →
      h'.now < d.deadline)
    (hms : ∀ m ∈ ms, ¬ m.Concerns t) : Timed t busy (past ++ ms) h' := by
  refine hT.keep (p := fun _ => True) (htimer ▸ hT.regular) (fun d => ?_)
    (Nat.le_of_eq (by rw [htimer])) (fun id d => ?_) hlater hjobs hnojobs hearly fun c hc => ?_
  · rw [htimer, and_true]
  · rw [counting?_append_of_not_concerns hms, and_true]
  · exact absurd rfl (hms _ hc)

/-- Nothing is done to the table and its jobs. -/
theorem Timed.aside (hT : Timed t busy past h) (htimer : h'.timer t = h.timer t)
    (hlater : Later h h') (hnow : h'.now = h.now)
    (hjobs : ∀ g, (h'.jobsOf t g).Perm (h.jobsOf t g))
    (hparked : ∀ g k, .evict t g k ∈ h'.parked → .evict t g k ∈ h.parked)
    (hms : ∀ m ∈ ms, ¬ m.Concerns t) : Timed t busy (past ++ ms) h' := by
  refine hT.shift htimer hlater (fun d _ => hjobs _) (fun g hg => ?_) (fun d hd hpark => ?_) hms
  · exact List.perm_nil.mp (hg ▸ hjobs g)
  · rw [hnow]
    exact hT.early d hd (hparked _ _ hpark)

/-- Some countdowns of the table are stopped. -/
theorem Timed.stop {p : Countdown → Prop} {c' : Countdowns} (hT : Timed t busy past h)
    (htimer : (h.setTimer t c').timer t = c') (hregular : c'.Regular)
    (hrunning : ∀ d, d ∈ c'.running ↔ d ∈ (h.timer t).running ∧ p d)
    (hnext : (h.timer t).next ≤ c'.next)
    (hcount : ∀ id d, counting? t id (past ++ ms) = some d ↔ counting? t id past = some d ∧ p d)
    (hspent : ∀ c, .finish t c ∈ ms → (h.setTimer t c').Spent t c) :
    Timed t busy (past ++ ms) (h.setTimer t c') := by
  refine hT.keep (p := p) (by rwa [htimer]) (by rwa [htimer]) (by rwa [htimer]) hcount
    (later_setTimer ..) (fun d _ => perm_jobsOf_setTimer ..) (fun g hg => ?_)
    (fun d hd hpark => hT.early d hd (mem_parked_setTimer hpark)) hspent
  exact List.perm_nil.mp (hg ▸ perm_jobsOf_setTimer h c')

/-- What is done to another table does not matter. -/
theorem Timed.setTimer_of_ne (hT : Timed t busy past h) (hne : u ≠ t) (c' : Countdowns)
    (hms : ∀ m ∈ ms, ¬ m.Concerns t) : Timed t busy (past ++ ms) (h.setTimer u c') :=
  hT.aside (timer_setTimer_of_ne hne c') (later_setTimer ..) rfl
    (fun _ => perm_jobsOf_setTimer ..) (fun _ _ => mem_parked_setTimer) hms

/-! ### One deed -/

/-- If a mark stops what counts for one identifier, the others go on. -/
theorem Timed.counting_of_stop (hT : Timed t busy past h) {m : Mark} {id₀ : StreamId}
    (hm : ∀ id before, m.counts t id before = if id₀ = id then none else before) (id : StreamId)
    (d : Countdown) :
    counting? t id (past ++ [m]) = some d ↔ counting? t id past = some d ∧ d.id ≠ id₀ := by
  rw [counting?_concat, hm]
  by_cases hid : id₀ = id
  · subst hid
    rw [if_pos rfl]
    refine ⟨fun hd => (by cases hd), fun hd => ?_⟩
    exact absurd ((hT.counting id₀ d).mp hd.1).2 hd.2
  · rw [if_neg hid]
    refine ⟨fun hd => ⟨hd, fun heq => hid ?_⟩, fun hd => hd.1⟩
    rw [← heq, ((hT.counting id d).mp hd).2]

theorem Timed.cancel (hT : Timed t busy past h) (hs : h.session? k = some s) :
    Timed t busy (past ++ [.cancel u s.id]) (h.cancel u k) := by
  simp only [Hub.cancel, hs]
  by_cases hu : u = t
  · subst hu
    refine hT.stop (p := fun d => d.id ≠ s.id)
      (timer_setTimer_of_empty (f := fun c => c.cancel s.id) rfl) (hT.regular.cancel s.id)
      (fun d => hT.regular.mem_cancel) (Nat.le_refl _) ?_ (by simp)
    exact hT.counting_of_stop fun id before => by simp [Mark.counts]
  · exact hT.setTimer_of_ne hu _ (by simpa [Mark.Concerns] using hu)

theorem Timed.cancelAll (hT : Timed t busy past h) (u : Nat) :
    Timed t busy (past ++ [.cancelAll u]) (h.setTimer u (h.timer u).cancelAll) := by
  by_cases hu : u = t
  · subst hu
    refine hT.stop (p := fun _ => False) (timer_setTimer_of_empty rfl) hT.regular.cancelAll
      (fun d => ?_) (Nat.le_refl _) (fun id d => ?_) (by simp)
    · simp [hT.regular.running_cancelAll]
    · simp [counting?_concat, Mark.counts]
  · exact hT.setTimer_of_ne hu _ (by simpa [Mark.Concerns] using hu)

/-- No countdown is started for a session that has ended, but what ran for its identifier is
stopped. -/
theorem Timed.arm_ended (hT : Timed t busy past h) (ht : t < h.timers.length)
    (hs : h.session? k = some s) (hended : s.shown.closed = true) (c : Countdown)
    (hid : c.id = s.id) (time : Nat) : Timed t busy (past ++ [.arm t c true time]) (h.arm t k) := by
  simp only [Hub.arm, hs, hended, if_true]
  refine hT.stop (p := fun d => d.id ≠ s.id) (timer_setTimer_self ht _) (hT.regular.arm ..)
    (fun d => ?_) (Nat.le_succ _) ?_ (by simp)
  · rw [hT.regular.mem_arm]
    simp
  · exact hT.counting_of_stop fun id before => by simp [Mark.counts, hid]

/-- A countdown that is started has a job. -/
theorem perm_jobsOf_arm (hs : h.session? k = some s) (hopen : s.shown.closed = false) :
    ((h.arm u k).jobsOf t g).Perm (h.jobsOf t g ++
      if u = t ∧ (h.timer u).next = g then [.evict t g k] else []) := by
  obtain ⟨c, hc⟩ : ∃ c, c = (h.timer u).arm s.id k false h.now s.terms.inactivityTimeout :=
    ⟨_, rfl⟩
  have harm : h.arm u k = (h.setTimer u c).spawn (.evict u (h.timer u).next k) := by
    simp [Hub.arm, hs, hopen, hc]
  have hsame : ((h.setTimer u c).jobsOf t g).Perm (h.jobsOf t g) := perm_jobsOf_setTimer h c
  have hjob : [Job.evict u (h.timer u).next k].filter (Job.isEvictionOf t g) =
      if u = t ∧ (h.timer u).next = g then [.evict t g k] else [] := by
    split
    · rename_i heq
      obtain ⟨rfl, rfl⟩ := heq
      simp [Job.isEvictionOf]
    · rename_i hne
      simpa [Job.isEvictionOf] using hne
  have hqueue : ((h.arm u k).ready ++ (h.arm u k).parked).Perm
      (((h.setTimer u c).ready ++ (h.setTimer u c).parked) ++ [.evict u (h.timer u).next k]) := by
    rw [harm]
    show (((h.setTimer u c).ready ++ [_]) ++ (h.setTimer u c).parked).Perm _
    rw [List.append_assoc, List.append_assoc]
    exact List.perm_append_comm.append_left _
  have hall : ((h.arm u k).jobsOf t g).Perm ((h.setTimer u c).jobsOf t g ++
      [Job.evict u (h.timer u).next k].filter (Job.isEvictionOf t g)) := by
    rw [jobsOf, jobsOf, ← List.filter_append]
    exact hqueue.filter _
  rw [hjob] at hall
  exact hall.trans (hsame.append_right _)

theorem mem_parked_arm {job : Job} (hjob : job ∈ (h.arm u k).parked) : job ∈ h.parked := by
  unfold Hub.arm at hjob
  cases hs : h.session? k with
  | none => simpa [hs] using hjob
  | some s =>
      simp only [hs] at hjob
      split at hjob <;> exact mem_parked_setTimer hjob

theorem timer_arm_self (ht : t < h.timers.length) (hs : h.session? k = some s) :
    (h.arm t k).timer t =
      (h.timer t).arm s.id k s.shown.closed h.now s.terms.inactivityTimeout := by
  simp only [Hub.arm, hs]
  split <;> exact timer_setTimer_self ht _

theorem timer_arm_of_ne (hne : u ≠ t) : (h.arm u k).timer t = h.timer t := by
  unfold Hub.arm
  split
  · rfl
  · dsimp only
    split <;> exact timer_setTimer_of_ne hne _

/-- The jobs of other countdowns stay as they are when one is started. -/
theorem perm_jobsOf_arm_of_ne (hs : h.session? k = some s) (hne : u = t → (h.timer u).next ≠ g) :
    ((h.arm u k).jobsOf t g).Perm (h.jobsOf t g) := by
  cases hclosed : s.shown.closed with
  | false =>
      have hperm := perm_jobsOf_arm (u := u) (t := t) (g := g) hs hclosed
      rwa [if_neg (fun heq => hne heq.1 heq.2), List.append_nil] at hperm
  | true =>
      simp only [Hub.arm, hs, hclosed, if_true]
      exact perm_jobsOf_setTimer ..

/-- What is started counts, and nothing else for its identifier. -/
theorem Timed.counting_of_start (hT : Timed t busy past h) (c : Countdown) (time : Nat)
    (id : StreamId) (d : Countdown) :
    counting? t id (past ++ [.arm t c false time]) = some d ↔
      ((d ∈ (h.timer t).running ∧ d.id ≠ c.id) ∨ d = c) ∧ d.id = id := by
  rw [counting?_concat]
  simp only [Mark.counts, true_and, Bool.false_eq_true, if_false]
  by_cases heq : c.id = id
  · subst heq
    rw [if_pos rfl, Option.some.injEq]
    constructor
    · rintro rfl
      exact ⟨.inr rfl, rfl⟩
    · rintro ⟨⟨-, hne⟩ | rfl, hd⟩
      · exact absurd hd hne
      · rfl
  · rw [if_neg heq, hT.counting]
    constructor
    · rintro ⟨hd, rfl⟩
      exact ⟨.inl ⟨hd, fun he => heq he.symm⟩, rfl⟩
    · rintro ⟨⟨hd, -⟩ | rfl, hid⟩
      · exact ⟨hd, hid⟩
      · exact absurd hid heq

/-- A countdown is started for a session. -/
theorem Timed.arm_open (hT : Timed t busy past h) (ht : t < h.timers.length)
    (hs : h.session? k = some s) (hopen : s.shown.closed = false) {c : Countdown}
    (hc : c = ⟨(h.timer t).next, s.id, k, h.now + s.terms.inactivityTimeout⟩) :
    Timed t busy (past ++ [.arm t c false h.now]) (h.arm t k) := by
  have htimer := timer_arm_self ht hs
  rw [hopen] at htimer
  have hgen : c.generation = (h.timer t).next := by rw [hc]
  have hid : c.id = s.id := by rw [hc]
  have htarget : c.target = k := by rw [hc]
  have hnext : ((h.arm t k).timer t).next = (h.timer t).next + 1 := by
    rw [htimer, Countdowns.next_arm]
  have hrunning : ∀ d, d ∈ ((h.arm t k).timer t).running ↔
      (d ∈ (h.timer t).running ∧ d.id ≠ c.id) ∨ d = c := by
    intro d
    rw [htimer, hT.regular.mem_arm, hid, hc]
    simp
  have hlater : Later h (h.arm t k) := (Deed.arm ht hs).later
  -- the jobs of older generations stay as they are
  have hjobs : ∀ f, (h.timer t).next ≠ f → ((h.arm t k).jobsOf t f).Perm (h.jobsOf t f) :=
    fun f hf => perm_jobsOf_arm_of_ne hs fun _ => hf
  exact {
    regular := by
      rw [htimer]
      exact hT.regular.arm ..
    counting := by
      intro id d
      rw [hrunning]
      exact hT.counting_of_start c h.now id d
    started := by
      intro d hd
      rcases (hrunning d).mp hd with ⟨hd, -⟩ | rfl
      · exact (hT.started d hd).later hlater (List.subset_append_left ..)
      · exact ⟨h.now, s, by simp, by rw [session?_arm, htarget, hs], hid.symm, by rw [hc]⟩
    fresh := by
      intro f hf
      rw [hnext] at hf
      exact List.perm_nil.mp (hT.fresh f (by omega) ▸ hjobs f (by omega))
    waiting := by
      intro d hd hidle
      rcases (hrunning d).mp hd with ⟨hd, -⟩ | rfl
      · have hne := Nat.ne_of_gt (hT.regular.numbered d hd)
        exact List.perm_singleton.mp (hT.waiting d hd hidle ▸ hjobs _ hne)
      · have hperm := perm_jobsOf_arm (u := t) (t := t) (g := d.generation) hs hopen
        rw [hgen, hT.fresh _ (Nat.le_refl _), if_pos ⟨rfl, rfl⟩] at hperm
        rw [hgen, htarget]
        exact List.perm_singleton.mp hperm
    working := by
      intro d hd
      have hne := Nat.ne_of_gt (hT.known d hd).1
      exact List.perm_nil.mp (hT.working d hd ▸ hjobs _ hne)
    early := by
      intro d hd hpark
      rw [now_arm]
      rcases (hrunning d).mp hd with ⟨hd, -⟩ | rfl
      · exact hT.early d hd (mem_parked_arm hpark)
      · -- no job of that generation was put aside
        have hnone := hT.fresh d.generation (Nat.le_of_eq hgen.symm)
        have hmem : Job.evict t d.generation d.target ∈ h.jobsOf t d.generation :=
          List.mem_filter.mpr ⟨List.mem_append_right _ (mem_parked_arm hpark),
            isEvictionOf_iff.mpr ⟨_, rfl⟩⟩
        rw [hnone] at hmem
        cases hmem
    known := by
      intro d hd
      obtain ⟨hlt, hown⟩ := hT.known d hd
      refine ⟨by omega, fun e he hsame => ?_⟩
      rcases (hrunning e).mp he with ⟨he, -⟩ | rfl
      · exact hown e he hsame
      · omega
    spent := by
      intro d hd
      have hbefore : Mark.finish t d ∈ past := by simpa using hd
      refine (hT.spent d hbefore).later hlater (by omega) fun e he => ?_
      rcases (hrunning e).mp he with ⟨he, -⟩ | rfl
      · exact .inl he
      · exact .inr hgen }

theorem Timed.arm (hT : Timed t busy past h) (hu : u < h.timers.length)
    (hs : h.session? k = some s) {c : Countdown}
    (hc : c = ⟨(h.timer u).next, s.id, k, h.now + s.terms.inactivityTimeout⟩) :
    Timed t busy (past ++ [.arm u c s.shown.closed h.now]) (h.arm u k) := by
  by_cases hut : u = t
  · subst hut
    cases hclosed : s.shown.closed with
    | false => exact hT.arm_open hu hs hclosed hc
    | true => exact hT.arm_ended hu hs hclosed c (by rw [hc]) h.now
  · exact hT.aside (timer_arm_of_ne hut) (Deed.arm hu hs).later (now_arm ..)
      (fun g => perm_jobsOf_arm_of_ne hs fun heq => absurd heq hut) (fun _ _ => mem_parked_arm)
      (by simpa [Mark.Concerns] using hut)

/-- Time passes. The jobs whose time has come are woken. -/
theorem Timed.pass (hT : Timed t busy past h) {time : Nat} (hlater : h.now ≤ time) :
    Timed t busy past (h.moveTo time) := by
  have hperm : ∀ g, ((h.moveTo time).jobsOf t g).Perm (h.jobsOf t g) := fun g =>
    (perm_wake { h with now := time } _).filter _
  rw [← List.append_nil past]
  refine hT.shift rfl ⟨hlater, fun _ s hs => ⟨s, hs, .refl s⟩⟩ (fun d _ => hperm _)
    (fun g hg => List.perm_nil.mp (hg ▸ hperm g)) (fun d hd hpark => ?_) (by simp)
  · have hasleep := (List.mem_filter.mp hpark).2
    have hfind : (h.timer t).find? d.generation = some d :=
      hT.regular.find?_eq_some_iff.mpr ⟨hd, rfl⟩
    have hdeadline : ({ h with now := time } : Hub).deadline? (.evict t d.generation d.target) =
        some d.deadline := by
      show ((h.timer t).find? d.generation).map Countdown.deadline = _
      rw [hfind]
      rfl
    show time < d.deadline
    simpa [hdeadline] using hasleep

/-! ### The turn of a job -/

section

variable {rest : List Job}

theorem perm_jobsOf_take (hready : h.ready.Perm (.evict u g k :: rest)) (t f : Nat) :
    (h.jobsOf t f).Perm ((if u = t ∧ g = f then [.evict u g k] else []) ++
      { h with ready := rest }.jobsOf t f) := by
  have hall := (hready.append_right h.parked).filter (Job.isEvictionOf t f)
  refine hall.trans (List.Perm.of_eq ?_)
  simp only [List.cons_append, List.filter_cons, jobsOf, Job.isEvictionOf, Bool.and_eq_true,
    beq_iff_eq]
  split <;> rfl

theorem jobsOf_take_eq_nil (hready : h.ready.Perm (.evict u g k :: rest)) {f : Nat}
    (hnone : h.jobsOf t f = []) : { h with ready := rest }.jobsOf t f = [] := by
  have hperm := perm_jobsOf_take hready t f
  rw [hnone] at hperm
  exact (List.append_eq_nil_iff.mp (List.nil_perm.mp hperm)).2

/-- The job of a countdown is taken off the queue. -/
theorem Timed.take (hT : Timed t busy past h) (hready : h.ready.Perm (.evict u g k :: rest))
    (hother : u = t → ∀ d ∈ (h.timer t).running, d.generation ≠ g)
    (hms : ∀ m ∈ ms, ¬ m.Concerns t) : Timed t busy (past ++ ms) { h with ready := rest } := by
  refine hT.shift rfl (.of_eq rfl rfl) (fun d hd => ?_) (fun _ => jobsOf_take_eq_nil hready)
    (fun d hd hpark => hT.early d hd hpark) hms
  have hperm := perm_jobsOf_take hready t d.generation
  rw [if_neg (fun heq => hother heq.1 d hd heq.2.symm)] at hperm
  exact hperm.symm

/-- The job of a countdown that runs is for its session, and the countdown is not busy. -/
theorem Timed.of_ready (hT : Timed t busy past h) (hready : h.ready.Perm (.evict t g k :: rest))
    (hfind : (h.timer t).find? g = some c) :
    c ∈ (h.timer t).running ∧ c.generation = g ∧ k = c.target ∧ c ∉ busy ∧
      { h with ready := rest }.jobsOf t g = [] := by
  obtain ⟨hc, rfl⟩ := hT.regular.find?_eq_some_iff.mp hfind
  have hperm := perm_jobsOf_take hready t c.generation
  rw [if_pos ⟨rfl, rfl⟩] at hperm
  have hidle : c ∉ busy := by
    intro hbusy
    rw [hT.working c hbusy] at hperm
    simpa using hperm.length_eq
  rw [hT.waiting c hc hidle] at hperm
  have hsame := List.singleton_perm.mp hperm
  simp only [List.cons_append, List.nil_append, List.cons.injEq, Job.evict.injEq, true_and] at hsame
  exact ⟨hc, rfl, hsame.1.symm, hidle, hsame.2.symm⟩

/-- A countdown that has come to its end is busy. -/
theorem Timed.due (hT : Timed t busy past h) (hready : h.ready.Perm (.evict t g k :: rest))
    (hfind : (h.timer t).find? g = some c) :
    Timed t (c :: busy) (past ++ [.due t c]) { h with ready := rest } := by
  obtain ⟨hc, rfl, rfl, hidle, hnone⟩ := hT.of_ready hready hfind
  have hlater : Later h { h with ready := rest } := .of_eq rfl rfl
  exact {
    regular := hT.regular
    counting := by
      intro id d
      rw [counting?_append_of_not_concerns (by simp [Mark.Concerns])]
      exact hT.counting id d
    started := fun d hd => (hT.started d hd).later hlater (List.subset_append_left ..)
    fresh := fun f hf => jobsOf_take_eq_nil hready (hT.fresh f hf)
    waiting := by
      intro d hd hother
      obtain ⟨hne, hidle'⟩ := not_or.mp (List.mem_cons.not.mp hother)
      have hgen : d.generation ≠ c.generation := fun heq =>
        hne (hT.regular.eq_of_generation hd hc heq)
      have hperm := perm_jobsOf_take hready t d.generation
      rw [if_neg (fun heq => hgen heq.2.symm), hT.waiting d hd hidle'] at hperm
      exact List.perm_singleton.mp hperm.symm
    working := by
      intro d hd
      rcases List.mem_cons.mp hd with rfl | hd
      · exact hnone
      · exact jobsOf_take_eq_nil hready (hT.working d hd)
    early := hT.early
    known := by
      intro d hd
      rcases List.mem_cons.mp hd with rfl | hd
      · exact ⟨hT.regular.numbered d hc, fun e he => hT.regular.eq_of_generation he hc⟩
      · exact hT.known d hd
    spent := fun d hd =>
      (hT.spent d (by simpa using hd)).later hlater (Nat.le_refl _) fun _ he => .inl he }

end

theorem Timed.not_busy (hT : Timed t (c :: busy) past h) (hgone : c ∉ (h.timer t).running) :
    Timed t busy past h :=
  { hT with
    waiting := fun d hd hidle => hT.waiting d hd fun hmem => by
      rcases List.mem_cons.mp hmem with rfl | hmem
      · exact hgone hd
      · exact hidle hmem
    working := fun d hd => hT.working d (List.mem_cons_of_mem _ hd)
    known := fun d hd => hT.known d (List.mem_cons_of_mem _ hd) }

/-- When its session has ended, a countdown takes itself off the table, and nothing else. -/
theorem Timed.retire (hT : Timed t (c :: busy) past h) (hdue : c.deadline ≤ h.now)
    (hended : ∃ s, h.session? c.target = some s ∧ s.closed = true) :
    Timed t busy (past ++ [.finish t c]) (h.setTimer t ((h.timer t).retire c)) := by
  obtain ⟨hold, hown⟩ := hT.known c (List.mem_cons_self ..)
  have htimer : (h.setTimer t ((h.timer t).retire c)).timer t = (h.timer t).retire c :=
    timer_setTimer_of_empty (f := fun b => b.retire c) rfl
  have hrunning : ∀ d, d ∈ ((h.timer t).retire c).running ↔
      d ∈ (h.timer t).running ∧ d ≠ c := by
    intro d
    rw [Countdowns.mem_retire]
    refine and_congr_right fun hd => not_congr ⟨hown d hd, ?_⟩
    rintro rfl
    rfl
  have hretired : Timed t (c :: busy) (past ++ [.finish t c])
      (h.setTimer t ((h.timer t).retire c)) := by
    refine hT.stop (p := fun d => d ≠ c) htimer (hT.regular.retire hown) hrunning (Nat.le_refl _)
      (fun id d => ?_) fun d hd => ?_
    · rw [counting?_concat]
      simp only [Mark.counts, true_and]
      split
      · rename_i hcount
        rw [hcount]
        simp only [Option.some.injEq, ne_eq, reduceCtorEq, false_iff, not_and, not_not]
        exact fun heq => heq.symm
      · rename_i hcount
        exact ⟨fun hd => ⟨hd, fun heq => hcount (heq ▸ hd)⟩, fun hd => hd.1⟩
    · obtain rfl : d = c := by simpa using hd
      refine ⟨by rwa [htimer], fun e he => ?_, hdue, hended⟩
      rw [htimer] at he
      exact (Countdowns.mem_retire.mp he).2
  refine hretired.not_busy fun hc => ?_
  rw [htimer] at hc
  exact ((hrunning c).mp hc).2 rfl

/-- **Every deed keeps the invariant.** -/
theorem Timed.deed (hT : Timed t busy past h) (hd : Deed h ms h') :
    Timed t busy (past ++ ms) h' := by
  have hlater := hd.later
  cases hd with
  | calm hc =>
      exact hT.aside (hc.timer t) hlater hc.now (fun _ => hc.perm_jobsOf)
        (fun g k hjob => hc.parked _ hjob rfl) (by simp)
  | arm ht hs => exact hT.arm ht hs rfl
  | cancel u hs => exact hT.cancel hs
  | cancelAll u => exact hT.cancelAll u
  | pass hle =>
      rw [List.append_nil]
      exact hT.pass hle
  | gone hready hfind =>
      refine hT.take hready (fun hut d hd heq => ?_) (by simp)
      subst hut heq
      have hnone := List.find?_eq_none.mp hfind d hd
      simp at hnone
  | @wait u g k rest c hready hfind hearly =>
      have hperm : ∀ f, (({ h with ready := rest }.park (.evict u g k)).jobsOf t f).Perm
          (h.jobsOf t f) := by
        intro f
        refine List.Perm.filter _ ?_
        refine List.Perm.trans ?_ (hready.append_right h.parked).symm
        show (rest ++ (h.parked ++ [Job.evict u g k])).Perm _
        rw [← List.append_assoc]
        exact List.perm_append_singleton ..
      refine hT.shift rfl hlater (fun d _ => hperm _) (fun f hf => ?_) (fun d hd hpark => ?_)
        (by simp)
      · exact List.perm_nil.mp (hf ▸ hperm f)
      · rcases List.mem_append.mp hpark with hold | hnew
        · exact hT.early d hd hold
        · -- it is the countdown of which the time was looked at
          obtain ⟨rfl, rfl, -⟩ : t = u ∧ d.generation = g ∧ d.target = k := by
            simpa using hnew
          rw [hT.regular.find?_eq_some_iff.mpr ⟨hd, rfl⟩] at hfind
          obtain rfl := Option.some.inj hfind
          exact hearly
  | created hfree =>
      exact hT.aside rfl hlater rfl (fun _ => .refl _) (fun _ _ hjob => hjob)
        (by simp [Mark.Concerns])
  | @closed k s hs hended hmem =>
      have hun : Timed t busy (past ++ []) (h.unregister s.id k) :=
        hT.aside rfl (.of_eq rfl rfl) rfl (fun _ => .refl _) (fun _ _ hjob => hjob) (by simp)
      rw [List.append_nil] at hun
      have hs' : (h.unregister s.id k).session? k = some s := hs
      have hsplit : past ++ [.cancel registryTimer s.id,
          .closed s.id k s.closed ((h.unregister s.id k).lookup s.id)] =
          (past ++ [.cancel registryTimer s.id]) ++
            [.closed s.id k s.closed ((h.unregister s.id k).lookup s.id)] := by simp
      rw [hsplit]
      exact (hun.cancel hs').aside rfl (.of_eq rfl rfl) rfl (fun _ => .refl _)
        (fun _ _ hjob => hjob) (by simp [Mark.Concerns])

/-- **The tables say what their chronicle says.** -/
theorem Chronicle.timed (hc : Chronicle h ms h') (hT : Timed t busy past h) :
    Timed t busy (past ++ ms) h' := by
  induction hc generalizing busy past with
  | refl h => rwa [List.append_nil]
  | deed hd => exact hT.deed hd
  | trans _ _ ih ih' =>
      rw [← List.append_assoc]
      exact ih' (ih hT)
  | @evict h h' u g k rest c marks hready hfind hdue hinner hended ih =>
      have hsplit : past ++ (.due u c :: (marks ++ [.finish u c])) =
          ((past ++ [.due u c]) ++ marks) ++ [.finish u c] := by simp
      rw [hsplit]
      by_cases hut : u = t
      · subst hut
        have hc := (hT.of_ready hready hfind).1
        obtain ⟨-, s, -, hs, -⟩ := hT.started c hc
        obtain ⟨s', hs', -⟩ := hinner.sessions (s := s) hs
        exact (ih (hT.due hready hfind)).retire (Nat.le_trans hdue hinner.now)
          ⟨s', hs', hended s' hs'⟩
      · exact (ih (hT.take hready (fun heq => absurd heq hut) (by simp [Mark.Concerns])))
          |>.setTimer_of_ne hut _ (by simpa [Mark.Concerns] using hut)

end Hub

end HttpBinding
