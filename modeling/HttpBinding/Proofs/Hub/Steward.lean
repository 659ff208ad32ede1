import HttpBinding.Proofs.Hub.InStep

/-!
# HttpBinding.Proofs.Hub.Steward

The steward keeps the countdown of its session in step.

The steward hears of one event after the other, but what it reads of the session is the number
held when the whole operation was done. So the order of the events does not matter, only the last
one does: if nothing is held it reports a closure, and the countdown is started; if something is
held then nothing that the steward hears starts a countdown, and one that ran before is stopped
by the opening (`Report.Fits`).

`Midway` is what is true of a hub while its observers are being told about the session `k`.
-/

namespace HttpBinding.Hub

/-! ### The table of the registry -/

/-- What runs for an identifier is what runs for the session `k`. -/
def Owned (k : Nat) (id : StreamId) (h : Hub) : Prop :=
  ∀ c ∈ h.running, c.id = id ↔ c.target = k

theorem timer_setTimer_of_oneTable {h : Hub} (hlen : h.timers.length = 1) (t : Countdowns) :
    (h.setTimer registryTimer t).timer registryTimer = t := by
  have hlt : registryTimer < h.timers.length := by
    rw [hlen]
    decide
  simp [timer, setTimer, wake, List.getD_eq_getElem?_getD, hlt]

theorem timer_setTimer {h : Hub} (ht : h.Tidy) (t : Countdowns) :
    (h.setTimer registryTimer t).timer registryTimer = t :=
  timer_setTimer_of_oneTable ht.oneTable t

theorem confined_setTimer {h : Hub} (ht : h.Tidy) {k : Nat} {t : Countdowns}
    (hreg : (h.timer registryTimer).Regular → t.Regular)
    (hrun : ∀ c, c.target ≠ k → (c ∈ t.running ↔ c ∈ h.running)) :
    Confined k h (h.setTimer registryTimer t) := by
  have htimer := timer_setTimer ht t
  have hwake := beside_wake { h with timers := h.timers.set registryTimer t }
    (Job.isStopped registryTimer t)
  refine ⟨⟨rfl, fun ht => hwake.tidy ⟨by simp [ht.oneTable], ht.unnamed, ht.tickets, ht.sound,
    ht.staffed⟩, fun hr => ?_, List.Sublist.refl _, rfl, hwake.ready, hwake.parked,
    fun _ g hg => ⟨g, hg, rfl, rfl⟩, fun _ _ hg _ => hg⟩,
    fun j hj => ⟨rfl, fun _ => Iff.rfl, fun c hc => ?_⟩⟩
  · rw [htimer]
    exact hreg hr
  · rw [Hub.running, htimer]
    exact hrun c (by rw [hc]; exact hj)

variable {h : Hub} {k : Nat} {g : Gist}

theorem mem_running_cancel (hsane : h.Tidy) (hreg : (h.timer registryTimer).Regular)
    (hg : h.gist? k = some g) (hown : Owned k g.id h) {c : Countdown} :
    c ∈ (h.cancel registryTimer k).running ↔ c ∈ h.running ∧ c.target ≠ k := by
  obtain ⟨s, hs, rfl⟩ := session?_of_gist? hg
  simp only [cancel, hs, Hub.running, timer_setTimer hsane]
  rw [hreg.mem_cancel]
  constructor
  · intro hmem
    obtain ⟨hc, hne⟩ := hmem
    exact ⟨hc, fun ht => hne ((hown c hc).mpr ht)⟩
  · intro hmem
    obtain ⟨hc, hne⟩ := hmem
    exact ⟨hc, fun hid => hne ((hown c hc).mp hid)⟩

theorem confined_cancel (hsane : h.Tidy) (hreg : (h.timer registryTimer).Regular)
    (hg : h.gist? k = some g) (hown : Owned k g.id h) :
    Confined k h (h.cancel registryTimer k) := by
  have hmem := fun c => mem_running_cancel hsane hreg hg hown (c := c)
  obtain ⟨s, hs, rfl⟩ := session?_of_gist? hg
  simp only [cancel, hs, Hub.running, timer_setTimer hsane] at hmem ⊢
  refine confined_setTimer hsane (fun hr => hr.cancel _) fun c hc => ?_
  rw [hmem]
  exact ⟨fun hrun => hrun.1, fun hrun => ⟨hrun, hc⟩⟩

/-- What observers see of the end of a session is the truth. -/
theorem Tidy.shown_closed (ht : h.Tidy) {s : Session Observer} (hs : h.session? k = some s) :
    s.shown.closed = s.closed := by
  rw [(ht.sound s (mem_sessions hs)).shown]

theorem timer_arm (ht : h.Tidy) {s : Session Observer} (hs : h.session? k = some s) :
    (h.arm registryTimer k).timer registryTimer =
      (h.timer registryTimer).arm s.id k s.closed h.now s.terms.inactivityTimeout := by
  simp only [arm, hs, ht.shown_closed hs]
  cases s.closed with
  | true => exact timer_setTimer ht _
  | false => exact timer_setTimer ht _

theorem mem_running_arm (ht : h.Tidy) (hreg : (h.timer registryTimer).Regular)
    (hg : h.gist? k = some g) (hown : Owned k g.id h) {c : Countdown} :
    c ∈ (h.arm registryTimer k).running ↔ (c ∈ h.running ∧ c.target ≠ k) ∨
      (g.closed = false ∧
        c = ⟨(h.timer registryTimer).next, g.id, k, h.now + g.timeout⟩) := by
  obtain ⟨s, hs, rfl⟩ := session?_of_gist? hg
  rw [Hub.running, timer_arm ht hs, hreg.mem_arm]
  refine or_congr_left ?_
  constructor
  · intro hmem
    obtain ⟨hc, hne⟩ := hmem
    exact ⟨hc, fun htarget => hne ((hown c hc).mpr htarget)⟩
  · intro hmem
    obtain ⟨hc, hne⟩ := hmem
    exact ⟨hc, fun hid => hne ((hown c hc).mp hid)⟩

theorem confined_arm (ht : h.Tidy) (hreg : (h.timer registryTimer).Regular)
    (hg : h.gist? k = some g) (hown : Owned k g.id h) :
    Confined k h (h.arm registryTimer k) := by
  have hmem := fun c => mem_running_arm ht hreg hg hown (c := c)
  obtain ⟨s, hs, rfl⟩ := session?_of_gist? hg
  rw [Hub.running, timer_arm ht hs] at hmem
  simp only [arm, hs, ht.shown_closed hs]
  have hset : Confined k h (h.setTimer registryTimer
      ((h.timer registryTimer).arm s.id k s.closed h.now s.terms.inactivityTimeout)) := by
    refine confined_setTimer ht (fun hr => hr.arm ..) fun c hc => ?_
    rw [hmem]
    constructor
    · intro hrun
      rcases hrun with hrun | ⟨-, rfl⟩
      · exact hrun.1
      · exact absurd rfl hc
    · intro hrun
      exact Or.inl ⟨hrun, hc⟩
  split
  · exact hset
  · exact hset.trans ((beside_spawn _ _).confined k)

/-- A countdown that was just started has its job. -/
theorem hasJob_arm (ht : h.Tidy) (hg : h.gist? k = some g) (hopen : g.closed = false) :
    (h.arm registryTimer k).HasJob
      ⟨(h.timer registryTimer).next, g.id, k, h.now + g.timeout⟩ := by
  obtain ⟨s, hs, rfl⟩ := session?_of_gist? hg
  have hclosed : s.closed = false := hopen
  left
  simp [arm, hs, ht.shown_closed hs, hclosed, spawn]

/-! ### While observers are told about a session -/

/-- What is true of a hub while a call works on the session `k`, which has the gist `g`. The call
began in the state `h₀`. -/
structure Underway (still : List Nat) (k : Nat) (g : Gist) (h₀ h : Hub) : Prop where
  confined : Confined k h₀ h
  others : Others still k h
  gist : h.gist? k = some g
  /-- No other session is registered under the identifier. -/
  sole : ∀ j, (g.id, j) ∈ h.registry → j = k

/-- The session is still registered, and what runs for it has its job. -/
structure Midway (still : List Nat) (k : Nat) (g : Gist) (h₀ h : Hub) : Prop
    extends Underway still k g h₀ h where
  listed : (g.id, k) ∈ h.registry
  wound : Wound k h

variable {still : List Nat} {h₀ : Hub}

/-- Under the identifier of a registered session there is no other one. -/
theorem Midway.of_listed (hconf : Confined k h₀ h) (ho : Others still k h)
    (hg : h.gist? k = some g) (hlisted : (g.id, k) ∈ h.registry) (hwound : Wound k h) :
    Midway still k g h₀ h :=
  ⟨⟨hconf, ho, hg, fun _ hj => ho.sane.eq_of_listed hj hlisted⟩, hlisted, hwound⟩

theorem Underway.owned (hu : Underway still k g h₀ h) : Owned k g.id h := by
  intro c hc
  constructor
  · intro hid
    exact hu.sole c.target (hid ▸ hu.others.sane.known c hc)
  · intro ht
    subst ht
    exact hu.others.sane.id_eq hc hu.gist

theorem Underway.beside (hu : Underway still k g h₀ h) {h' : Hub} (hb : Beside h h') :
    Underway still k g h₀ h' := by
  have hs := hb.spares k
  refine ⟨hu.confined.trans (hb.confined k),
    (hb.confined k).others hu.others (hb.known hu.others.sane k), ?_, fun j hj => ?_⟩
  · rw [hs.gist]
    exact hu.gist
  · exact hu.sole j (hb.registry.subset hj)

theorem Midway.beside (hm : Midway still k g h₀ h) {h' : Hub} (hb : Beside h h') :
    Midway still k g h₀ h' :=
  ⟨hm.toUnderway.beside hb, ((hb.spares k).listed g.id).mpr hm.listed,
    (hb.spares k).wound hb.toCourse hm.wound⟩

theorem registry_cancel (h : Hub) (t k : Nat) : (h.cancel t k).registry = h.registry := by
  unfold cancel
  split <;> rfl

theorem gist?_cancel (h : Hub) (t k j : Nat) : (h.cancel t k).gist? j = h.gist? j := by
  unfold cancel
  split <;> rfl

theorem registry_arm (h : Hub) (t k : Nat) : (h.arm t k).registry = h.registry := by
  simp only [arm]
  split
  · rfl
  · split <;> rfl

theorem gist?_arm (h : Hub) (t k j : Nat) : (h.arm t k).gist? j = h.gist? j := by
  simp only [arm]
  split
  · rfl
  · split <;> rfl

theorem Underway.stopped_cancel (hu : Underway still k g h₀ h) :
    Stopped k (h.cancel registryTimer k) := by
  intro c hc
  have hsane := hu.others.sane
  exact ((mem_running_cancel hsane.tidy hsane.regular hu.gist hu.owned).mp hc).2

theorem Midway.cancel (hm : Midway still k g h₀ h) :
    Midway still k g h₀ (h.cancel registryTimer k) := by
  have hsane := hm.others.sane
  have hconf := confined_cancel hsane.tidy hsane.regular hm.gist hm.owned
  have hstop := hm.stopped_cancel
  refine .of_listed (hm.confined.trans hconf)
    (hconf.others hm.others fun c hc ht => absurd ht (hstop c hc)) ?_ ?_
    fun c hc ht => absurd ht (hstop c hc)
  · rw [gist?_cancel]
    exact hm.gist
  · rw [registry_cancel]
    exact hm.listed

theorem Midway.arm (hm : Midway still k g h₀ h) (hopen : g.closed = false) :
    Midway still k g h₀ (h.arm registryTimer k) ∧
      Ticking k (h₀.now + g.timeout) (h.arm registryTimer k) := by
  have hsane := hm.others.sane
  have hmem := fun c => mem_running_arm hsane.tidy hsane.regular hm.gist hm.owned (c := c)
  have hconf := confined_arm hsane.tidy hsane.regular hm.gist hm.owned
  have hlisted : (g.id, k) ∈ (h.arm registryTimer k).registry := by
    rw [registry_arm]
    exact hm.listed
  -- what ran for the session before is stopped, so only the new countdown runs for it
  have hnew : ∀ c ∈ (h.arm registryTimer k).running, c.target = k →
      c = ⟨(h.timer registryTimer).next, g.id, k, h.now + g.timeout⟩ := by
    intro c hc ht
    rcases (hmem c).mp hc with ⟨-, hne⟩ | ⟨-, heq⟩
    · exact absurd ht hne
    · exact heq
  have hwound : Wound k (h.arm registryTimer k) := by
    intro c hc ht
    rw [hnew c hc ht]
    exact hasJob_arm hsane.tidy hm.gist hopen
  refine ⟨.of_listed (hm.confined.trans hconf) (hconf.others hm.others fun c hc ht => ?_) ?_
    hlisted hwound, _, (hmem _).mpr (Or.inr ⟨hopen, rfl⟩), rfl, ?_⟩
  · rw [hnew c hc ht]
    exact hlisted
  · rw [gist?_arm]
    exact hm.gist
  · rw [hm.confined.now]

/-! ### What the steward does when it hears of an event -/

/-- What is true of the countdown of `k` once its steward has heard of an event, if the session
holds as many exchanges as `g` says. -/
def Told (k : Nat) (g : Gist) (deadline : Nat) : Event → Hub → Prop
  | .opened _, h => Stopped k h
  | .closed _, h => g.held = 0 → Ticking k deadline h

/-- What observers see of a session is the truth. -/
theorem any_shown_held (ht : h.Tidy) (hg : h.gist? k = some g) :
    ((h.session? k).any fun s => decide (s.shown.held = 0)) = decide (g.held = 0) := by
  obtain ⟨s, hs, rfl⟩ := session?_of_gist? hg
  have hshown := (ht.sound s (mem_sessions hs)).shown
  simp [hs, hshown, Session.gist]

theorem Midway.steward (hm : Midway still k g h₀ h) (hopen : g.closed = false) (e : Event) :
    Midway still k g h₀ (hear k h (e, .steward)) ∧
      Told k g (h₀.now + g.timeout) e (hear k h (e, .steward)) := by
  cases e with
  | opened rid => exact ⟨hm.cancel, hm.stopped_cancel⟩
  | closed rid =>
      simp only [hear, any_shown_held hm.others.sane.tidy hm.gist]
      by_cases hheld : g.held = 0
      · obtain ⟨harmed, hticking⟩ := hm.arm hopen
        simp only [hheld, decide_true, if_true]
        exact ⟨harmed, fun _ => hticking⟩
      · simp only [hheld, decide_false, Bool.false_eq_true, if_false]
        exact ⟨hm, fun h0 => absurd h0 hheld⟩

theorem Midway.hear (hm : Midway still k g h₀ h) (hopen : g.closed = false)
    (n : Event × Observer) : Midway still k g h₀ (hear k h n) := by
  obtain ⟨e, o⟩ := n
  by_cases ho : o = .steward
  · rw [ho]
    exact (hm.steward hopen e).1
  · exact hm.beside (beside_hear hm.others.sane.tidy k e ho)

/-- To hear of the same event again changes nothing about the countdown. -/
theorem Midway.told_hear (hm : Midway still k g h₀ h) (hopen : g.closed = false) {e : Event}
    (o : Observer) (hold : Told k g (h₀.now + g.timeout) e h) :
    Told k g (h₀.now + g.timeout) e (Hub.hear k h (e, o)) := by
  by_cases ho : o = .steward
  · rw [ho]
    exact (hm.steward hopen e).2
  · have hs := (beside_hear hm.others.sane.tidy k e ho).spares k
    cases e with
    | opened rid => exact hs.stopped_iff.mpr hold
    | closed rid => exact fun h0 => hs.ticking_iff.mpr (hold h0)

/-- While something is held, nothing that observers hear of starts a countdown. -/
theorem Midway.stopped_hear (hm : Midway still k g h₀ h) (hopen : g.closed = false)
    (hheld : g.held ≠ 0) (n : Event × Observer) (hstop : Stopped k h) :
    Stopped k (Hub.hear k h n) := by
  obtain ⟨e, o⟩ := n
  by_cases ho : o = .steward
  · rw [ho]
    cases e with
    | opened rid => exact (hm.steward hopen (.opened rid)).2
    | closed rid =>
        simp only [Hub.hear, any_shown_held hm.others.sane.tidy hm.gist, hheld, decide_false,
          Bool.false_eq_true, if_false]
        exact hstop
  · exact ((beside_hear hm.others.sane.tidy k e ho).spares k).stopped_iff.mpr hstop

/-- What one of many steps establishes and all of them keep is true at the end. -/
theorem foldl_establishes {α β : Type} {P Q : β → Prop} {f : β → α → β} {as : List α} {a : α}
    (hkeep : ∀ b x, P b → P (f b x)) (hstay : ∀ b x, P b → Q b → Q (f b x))
    (hset : ∀ b, P b → Q (f b a)) (ha : a ∈ as) {b : β} (hb : P b) : Q (as.foldl f b) := by
  have hlast : ∀ (xs : List α) (b : β), P b → Q b → Q (xs.foldl f b) := by
    intro xs
    induction xs with
    | nil => exact fun _ _ hq => hq
    | cons x xs ih => exact fun b hp hq => ih (f b x) (hkeep b x hp) (hstay b x hp hq)
  -- up to the step that establishes `Q` only `P` is known; from there on both are
  induction as generalizing b with
  | nil => cases ha
  | cons x xs ih =>
      rcases List.mem_cons.mp ha with rfl | ha
      · exact hlast xs (f b a) (hkeep b a hb) (hset b hb)
      · exact ih ha (hkeep b x hb)

theorem Midway.foldl_hear (hm : Midway still k g h₀ h) (hopen : g.closed = false)
    (ns : List (Event × Observer)) : Midway still k g h₀ (ns.foldl (Hub.hear k) h) :=
  List.foldlRecOn ns (Hub.hear k) hm fun _ hm n _ => hm.hear hopen n

/-- When all observers have heard of an event, and the steward is one of them, the countdown is
what the event says. -/
theorem Midway.foldl_told (hm : Midway still k g h₀ h) (hopen : g.closed = false) (e : Event)
    {observers : List (Nat × Observer)} (hmem : ∃ o ∈ observers, o.2 = .steward) :
    Told k g (h₀.now + g.timeout) e
      ((observers.map fun o => (e, o.2)).foldl (Hub.hear k) h) := by
  obtain ⟨o, ho, heq⟩ := hmem
  rw [List.foldl_map]
  refine foldl_establishes (P := Midway still k g h₀) (Q := Told k g (h₀.now + g.timeout) e)
    (fun b x hb => hb.hear hopen _) (fun b x hb hq => hb.told_hear hopen x.2 hq)
    (fun b hb => ?_) ho hm
  rw [heq]
  exact (hb.steward hopen e).2

/-- With the countdown as it has to be, the session is kept. -/
theorem Midway.kept (hm : Midway still k g h₀ h) (hopen : g.closed = false)
    (hatt : g.attended = true) (hstill : k ∉ still) {deadline : Nat}
    (hidle : g.held = 0 → Ticking k deadline h) (hbusy : g.held ≠ 0 → Stopped k h) :
    Kept still h k g := by
  refine ⟨fun _ => hatt, ⟨fun hk => absurd hk hstill, fun hc => ?_⟩,
    ⟨fun _ => hatt, fun _ => hm.listed⟩, hm.wound, ?_⟩
  · rw [hopen] at hc
    exact absurd hc.1 (by decide)
  · constructor
    · intro hrun
      obtain ⟨c, hc, ht⟩ := hrun
      refine ⟨hopen, ?_⟩
      by_cases hheld : g.held = 0
      · exact hheld
      · exact absurd ht (hbusy hheld c hc)
    · intro hquiet
      obtain ⟨-, hheld⟩ := hquiet
      obtain ⟨c, hc, ht, -⟩ := hidle hheld
      exact ⟨c, hc, ht⟩

theorem Midway.inStep (hm : Midway still k g h₀ h) (hk : Kept still h k g) : InStep still h := by
  refine hm.others.inStep fun g' hg' => ?_
  rw [hm.gist] at hg'
  obtain rfl := Option.some.inj hg'
  exact hk

end HttpBinding.Hub
