import HttpBinding.Hub.Service
import HttpBinding.Proofs.Hub.Closing

/-!
# HttpBinding.Proofs.Hub.Beginning

How a session begins.

A session is registered and announced to the server before its steward observes it, and the server
may make demands at once. The beginning has two parts:

* Until the steward has come, the session has no observers at all, and nothing is told to anybody.
  The hub is followed in full detail (`withNewborn`): only the new session, the journal and the
  count of calls differ from what they were.
* Once it has come, the session is like any other, but for its countdown, which is started last
  (`Nascent`).

A session that the server ends during the first part keeps the steward that comes after its end.
It is never taken off the registry.
-/

namespace HttpBinding.Hub

/-! ### Before the steward comes -/

/-- A session that nobody has observed yet. -/
structure Unheard (id : StreamId) (terms : Terms) (closed : Bool) (s : Session Observer) :
    Prop where
  id : s.id = id
  terms : s.terms = terms
  closed : s.closed = closed
  held : s.held = []
  observers : s.observers = []
  nextTicket : s.nextTicket = 0
  sound : s.Sound

/-- The hub with a new session `s` that is registered under `id`. -/
def withNewborn (h : Hub) (id : StreamId) (s : Session Observer) (journal : List Entry)
    (calls : Nat) : Hub :=
  { h with
    sessions := h.sessions ++ [s]
    registry := (id, h.sessions.length) :: h.registry
    journal, calls }

variable {h : Hub} {id : StreamId} {terms : Terms} {s : Session Observer}
  {journal : List Entry} {calls : Nat} {closed : Bool}

theorem session?_withNewborn :
    (h.withNewborn id s journal calls).session? h.sessions.length = some s := by
  simp [session?, withNewborn]

theorem lookup_withNewborn :
    (h.withNewborn id s journal calls).lookup id = some h.sessions.length := by
  simp [lookup, withNewborn]

theorem setSession_withNewborn (t : Session Observer) :
    (h.withNewborn id s journal calls).setSession h.sessions.length t =
      h.withNewborn id t journal calls := by
  simp [setSession, withNewborn]

theorem foldl_write (h : Hub) (id : StreamId) (stanzas : List Stanza) :
    ∃ journal, stanzas.foldl (fun h stanza => h.write id (.failover stanza)) h =
      { h with journal } := by
  induction stanzas generalizing h with
  | nil => exact ⟨h.journal, rfl⟩
  | cons stanza stanzas ih =>
      obtain ⟨journal, heq⟩ := ih (h.write id (.failover stanza))
      exact ⟨journal, heq⟩

/-- A report that releases no exchange only concerns the new session and the journal. -/
theorem absorb_withNewborn (h : Hub) (id : StreamId) (s : Session Observer)
    (journal : List Entry) (calls : Nat) {α : Type} {r : Report Observer α}
    (hr : r.released = []) :
    ∃ journal', (h.withNewborn id s journal calls).absorb h.sessions.length r =
      h.withNewborn id r.session journal' calls := by
  simp only [absorb, hr, setSession_withNewborn, List.append_nil, List.foldl_nil]
  split
  · obtain ⟨journal', heq⟩ :=
      foldl_write (h.withNewborn id r.session journal calls) r.session.id r.failedOver
    exact ⟨journal', heq⟩
  · exact ⟨journal, rfl⟩

theorem Unheard.deliver (hu : Unheard id terms closed s) (stanza : Stanza) :
    Unheard id terms closed (s.deliver stanza).session := by
  have hfit := s.fits_deliver stanza
  exact ⟨hfit.id.trans hu.id, hfit.terms.trans hu.terms, hfit.closed.trans hu.closed,
    (Session.deliver_of_idle hu.held stanza).2.2, hfit.observers.trans hu.observers,
    hfit.nextTicket.trans hu.nextTicket, hu.sound.deliver stanza⟩

theorem Unheard.close (hu : Unheard id terms closed s) (shutdown : Bool) :
    Unheard id terms true (s.close shutdown).session ∧ (s.close shutdown).answer = [] ∧
      (s.close shutdown).released = [] := by
  have hsound := hu.sound.close shutdown
  rcases Session.close_cases s shutdown with ⟨hc, heq⟩ | ⟨hc, heq⟩
  · rw [heq] at hsound ⊢
    exact ⟨⟨hu.id, hu.terms, hc, hu.held, hu.observers, hu.nextTicket, hsound⟩, rfl, rfl⟩
  · rw [heq] at hsound ⊢
    refine ⟨⟨hu.id, hu.terms, rfl, rfl, rfl, hu.nextTicket, hsound⟩, ?_, ?_⟩
    · simp [hu.observers]
    · simp [hu.held]

/-- The server may fill the buffer of the new session, or end it. -/
theorem meet_withNewborn (h : Hub) (journal : List Entry) (calls : Nat)
    (hu : Unheard id terms closed s) (d : Demand) :
    ∃ t journal', ((h.withNewborn id s journal calls).meet Hub.close id d).1 =
        h.withNewborn id t journal' calls ∧
      Unheard id terms (closed || decide (d = .close)) t := by
  cases d with
  | deliver stanza =>
      obtain ⟨hevents, hreleased, -⟩ := Session.deliver_of_idle hu.held stanza
      have hnotices : (s.deliver stanza).notices = [] := by simp [Report.notices, hevents]
      obtain ⟨journal', heq⟩ := absorb_withNewborn h id s journal calls hreleased
      refine ⟨_, journal', ?_, by simpa using hu.deliver stanza⟩
      simp [meet, push, lookup_withNewborn, Hub.deliver, session?_withNewborn, conclude, hnotices,
        heq]
  | close =>
      obtain ⟨hclosed, hanswer, hreleased⟩ := hu.close false
      obtain ⟨journal', heq⟩ := absorb_withNewborn h id s journal calls hreleased
      refine ⟨_, journal', ?_, by simpa using hclosed⟩
      simp [meet, closeIdWith, lookup_withNewborn, Hub.close, closeWithin, session?_withNewborn,
        hanswer, heq]

/-- The server may make many demands. -/
theorem foldl_meet_withNewborn (h : Hub) (calls : Nat) (c : Call) (demands : List Demand)
    (hu : Unheard id terms closed s) (journal : List Entry) :
    ∃ t journal', demands.foldl
        (fun h demand => (h.meet Hub.close id demand).1.write id
          (.demand c demand (h.meet Hub.close id demand).2))
        (h.withNewborn id s journal calls) = h.withNewborn id t journal' calls ∧
      Unheard id terms (closed || decide (.close ∈ demands)) t := by
  -- the session changes from one demand to the next, but it stays one that nobody has observed
  induction demands generalizing closed s journal with
  | nil => exact ⟨s, journal, rfl, by simpa using hu⟩
  | cons d demands ih =>
      obtain ⟨t, journal', heq, ht⟩ := meet_withNewborn h journal calls hu d
      obtain ⟨answer, hanswer⟩ : ∃ answer,
          ((h.withNewborn id s journal calls).meet Hub.close id d).2 = answer := ⟨_, rfl⟩
      obtain ⟨t', journal'', heq', ht'⟩ :=
        ih ht (journal' ++ [⟨h.now, id.text, .demand c d answer⟩])
      refine ⟨t', journal'', ?_, ?_⟩
      · rw [List.foldl_cons, heq, hanswer]
        exact heq'
      · have hflag : (closed || decide (.close ∈ d :: demands)) =
            (closed || decide (d = .close) || decide (.close ∈ demands)) := by
          simp [Bool.or_assoc, eq_comm]
        rw [hflag]
        exact ht'

/-- Before the steward comes, the server ends the session exactly by demanding its end. -/
theorem call_withNewborn (h : Hub) (journal : List Entry) (calls : Nat)
    (hu : Unheard id terms false s) (c : Call) :
    ∃ t journal', (h.withNewborn id s journal calls).call id c =
        h.withNewborn id t journal' (calls + 1) ∧
      Unheard id terms (decide (.close ∈ h.server.demands calls id c)) t := by
  have hmet := foldl_meet_withNewborn h (calls + 1) c (h.server.demands calls id c) hu journal
  rw [Bool.false_or] at hmet
  exact hmet

/-! ### The steward comes -/

/-- The gist of a session that has just met its steward. -/
def newbornGist (id : StreamId) (terms : Terms) (closed : Bool) : Gist :=
  ⟨id, terms.inactivityTimeout, closed, 0, true⟩

theorem Unheard.attend (hu : Unheard id terms closed s) :
    (s.observe .steward).2.gist = newbornGist id terms closed ∧
      (s.observe .steward).2.Sound ∧ (s.observe .steward).2.Staffed := by
  refine ⟨?_, hu.sound.of_eq rfl rfl rfl rfl rfl, Nat.succ_pos _, fun o ho _ => ?_⟩
  · simp [Session.gist, Session.observe, newbornGist, hu.id, hu.terms, hu.closed, hu.held]
  · simp only [Session.observe, hu.observers, hu.nextTicket, List.nil_append,
      List.mem_singleton] at ho
    rw [ho]

theorem addSteward_withNewborn :
    (h.withNewborn id s journal calls).addSteward h.sessions.length =
      h.withNewborn id (s.observe .steward).2 journal calls := by
  simp only [addSteward, session?_withNewborn, setSession_withNewborn]

theorem length_withNewborn :
    (h.withNewborn id s journal calls).sessions.length = h.sessions.length + 1 := by
  simp [withNewborn]

theorem gist?_withNewborn_of_lt {j : Nat} (hj : j < h.sessions.length) :
    (h.withNewborn id s journal calls).gist? j = h.gist? j := by
  simp [gist?, session?, withNewborn, List.getElem?_append_left hj]

theorem gist?_withNewborn_self :
    (h.withNewborn id s journal calls).gist? h.sessions.length = some s.gist :=
  gist?_of_session? session?_withNewborn

/-- The sessions that are there already do not notice a new one. -/
theorem spares_withNewborn {j : Nat} (hj : j < h.sessions.length) :
    Spares j h (h.withNewborn id s journal calls) := by
  refine ⟨gist?_withNewborn_of_lt hj, fun id' => ?_, fun _ _ => Iff.rfl⟩
  have hne : j ≠ h.sessions.length := Nat.ne_of_lt hj
  simp [withNewborn, hne]

theorem Sane.withNewborn (hsane : h.Sane) (hnew : ∀ j, (id, j) ∉ h.registry)
    (hid : s.gist.id = id) (hsound : s.Sound) (hstaffed : s.Staffed) :
    (h.withNewborn id s journal calls).Sane := by
  have ht := hsane.tidy
  refine ⟨⟨ht.oneTable, ht.unnamed, ht.tickets, fun r hr => ?_, fun r hr => ?_⟩, hsane.regular,
    ?_, fun e he => ?_, fun c hc => List.mem_cons_of_mem _ (hsane.known c hc)⟩
  · rcases List.mem_append.mp hr with hr | hr
    · exact ht.sound r hr
    · obtain rfl := List.mem_singleton.mp hr
      exact hsound
  · rcases List.mem_append.mp hr with hr | hr
    · exact ht.staffed r hr
    · obtain rfl := List.mem_singleton.mp hr
      exact hstaffed
  · refine List.nodup_cons.mpr ⟨fun hmem => ?_, hsane.keys⟩
    obtain ⟨e, he, heq⟩ := List.mem_map.mp hmem
    obtain rfl : e.1 = id := heq
    exact hnew e.2 he
  · rcases List.mem_cons.mp he with rfl | he
    · exact ⟨s.gist, gist?_withNewborn_self, hid⟩
    · obtain ⟨g, hg, hgid⟩ := hsane.real e he
      exact ⟨g, (gist?_withNewborn_of_lt (lt_of_gist? hg)).trans hg, hgid⟩

variable {still : List Nat}

/-- No countdown runs for a session that is not there yet. -/
theorem Sane.stopped_next (hsane : h.Sane) : Stopped h.sessions.length h := by
  intro c hc ht
  obtain ⟨g, hg, -⟩ := hsane.real _ (hsane.known c hc)
  have hlt : c.target < h.sessions.length := lt_of_gist? hg
  omega

theorem InStep.others_withNewborn (hi : InStep still h) (hnew : ∀ j, (id, j) ∉ h.registry)
    (hid : s.gist.id = id) (hsound : s.Sound) (hstaffed : s.Staffed) {still' : List Nat}
    (hstill : ∀ j, j ≠ h.sessions.length → (j ∈ still' ↔ j ∈ still)) :
    Others still' h.sessions.length (h.withNewborn id s journal calls) := by
  refine ⟨hi.sane.withNewborn hnew hid hsound hstaffed, fun j hj => ?_, fun j g hj hg => ?_⟩
  · rw [length_withNewborn]
    by_cases heq : j = h.sessions.length
    · omega
    · exact Nat.lt_succ_of_lt (hi.begun j ((hstill j heq).mp hj))
  · have hlt : j < h.sessions.length := by
      have hle := lt_of_gist? hg
      rw [length_withNewborn] at hle
      omega
    have hs : Spares j h (h.withNewborn id s journal calls) := spares_withNewborn hlt
    rw [hs.gist] at hg
    have hkept := hi.kept j g hg
    exact ⟨hkept.attended, (hstill j hj).trans hkept.still, (hs.listed g.id).trans hkept.listed,
      hkept.wound, hkept.timed⟩

/-- What is true of a hub between the arrival of the steward of a new session `k` and the start of
its countdown: the session waits for it, or it has ended already. -/
inductive Nascent (still : List Nat) (k : Nat) (id : StreamId) (terms : Terms) (h₀ h : Hub) :
    Prop where
  | waiting (midway : Midway still k (newbornGist id terms false) h₀ h) (stopped : Stopped k h)
      (fresh : k ∉ still)
  | ended (inStep : InStep still h) (confined : Confined k h₀ h)
      (gist : ∃ g', h.gist? k = some g' ∧ g'.closed = true)

/-- The steward has come to a new session. -/
theorem InStep.nascent (hi : InStep still h) (hnew : ∀ j, (id, j) ∉ h.registry)
    (hu : Unheard id terms closed s) :
    Nascent (still ++ if closed then [h.sessions.length] else []) h.sessions.length id terms
      (h.withNewborn id (s.observe .steward).2 journal calls)
      (h.withNewborn id (s.observe .steward).2 journal calls) := by
  obtain ⟨hgist, hsound, hstaffed⟩ := hu.attend
  have hid : (s.observe .steward).2.gist.id = id := by
    rw [hgist]
    rfl
  obtain ⟨h₃, hh₃⟩ : ∃ h₃, h₃ = h.withNewborn id (s.observe .steward).2 journal calls :=
    ⟨_, rfl⟩
  have hothers : Others (still ++ if closed then [h.sessions.length] else [])
      h.sessions.length h₃ := by
    rw [hh₃]
    refine hi.others_withNewborn hnew hid hsound hstaffed fun j hj => ?_
    cases closed <;> simp [hj]
  have hself : h₃.gist? h.sessions.length = some (newbornGist id terms closed) := by
    rw [hh₃, gist?_withNewborn_self, hgist]
  have hlisted : (id, h.sessions.length) ∈ h₃.registry := by
    rw [hh₃]
    exact List.mem_cons_self
  have hstop : Stopped h.sessions.length h₃ := by
    rw [hh₃]
    exact hi.sane.stopped_next
  have hwound : Wound h.sessions.length h₃ := fun c hc ht => absurd ht (hstop c hc)
  rw [← hh₃]
  -- if the session has ended already, its entry and its steward are there to stay
  cases closed with
  | false =>
      refine .waiting (.of_listed (.refl _ h₃) hothers hself hlisted hwound) hstop fun hmem => ?_
      simp only [Bool.false_eq_true, if_false, List.append_nil] at hmem
      exact Nat.lt_irrefl _ (hi.begun _ hmem)
  | true =>
      refine .ended (hothers.inStep fun g hg => ?_) (.refl _ h₃) ⟨_, hself, rfl⟩
      rw [hself] at hg
      obtain rfl := Option.some.inj hg
      refine ⟨fun _ => rfl, ⟨fun _ => ⟨rfl, rfl⟩, fun _ => by simp⟩,
        ⟨fun _ => rfl, fun _ => hlisted⟩, hwound, ⟨?_, fun hopen => ?_⟩⟩
      · intro hrun
        obtain ⟨c, hc, ht⟩ := hrun
        exact absurd ht (hstop c hc)
      · cases hopen.1

variable {k : Nat} {h₀ : Hub}

theorem Nascent.beside (hn : Nascent still k id terms h₀ h) {h' : Hub} (hb : Beside h h') :
    Nascent still k id terms h₀ h' := by
  cases hn with
  | waiting midway stopped fresh =>
      exact .waiting (midway.beside hb) ((hb.spares k).stopped_iff.mpr stopped) fresh
  | ended inStep confined gist =>
      refine .ended (inStep.beside hb) (confined.trans (hb.confined k)) ?_
      rw [(hb.spares k).gist]
      exact gist

theorem Nascent.confined (hn : Nascent still k id terms h₀ h) : Confined k h₀ h := by
  cases hn with
  | waiting midway stopped fresh => exact midway.confined
  | ended inStep confined gist => exact confined

/-- A session that waits for its countdown may be ended; otherwise it goes on to wait. -/
theorem Nascent.meet (hn : Nascent still k id terms h₀ h)
    (hsole : ∀ j, (id, j) ∈ h₀.registry → j = k) (d : Demand) :
    Nascent still k id terms h₀ (h.meet Hub.close id d).1 := by
  cases hn with
  | waiting midway stopped fresh =>
      have hlookup : h.lookup id = some k :=
        midway.others.sane.lookup_eq_some_iff.mpr midway.listed
      obtain ⟨s, hs, hgist⟩ := session?_of_gist? midway.gist
      cases d with
      | deliver stanza =>
          have hheld : s.held = [] := List.length_eq_zero_iff.mp (congrArg Gist.held hgist)
          have hb := beside_conclude hs (s.fits_deliver stanza)
            (fun hsound => hsound.deliver stanza) (Session.deliver_of_idle hheld stanza).1
          have heq : (h.meet Hub.close id (.deliver stanza)).1 =
              h.conclude k (s.deliver stanza) := by
            simp [Hub.meet, Hub.push, hlookup, Hub.deliver, hs]
          rw [heq]
          exact (Nascent.waiting midway stopped fresh).beside hb
      | close =>
          have heq : (h.meet Hub.close id .close).1 = h.close k false := by
            simp [Hub.meet, closeIdWith, hlookup]
          obtain ⟨hunder, hgone⟩ := midway.toUnderway.close midway.listed rfl rfl
            h.sessions.length false
          rw [heq]
          exact .ended (hunder.inStep_of_gone fresh hgone) hunder.confined ⟨_, hunder.gist, rfl⟩
  | ended inStep confined gist =>
      have hdone := inStep.meet (fun j hj => hsole j (confined.registry.subset hj)) d
      obtain ⟨g, hg, hclosed⟩ := gist
      exact .ended hdone.inStep (confined.trans hdone.confined)
        ⟨g, hdone.confined.final k g hg hclosed, hclosed⟩

theorem Nascent.call (hn : Nascent still k id terms h₀ h)
    (hsole : ∀ j, (id, j) ∈ h₀.registry → j = k) (c : Call) :
    Nascent still k id terms h₀ (h.call id c) := by
  refine List.foldlRecOn (motive := fun b => Nascent still k id terms h₀ b) _ _
    (hn.beside (beside_count h)) ?_
  intro b hb d _
  exact (hb.meet hsole d).beside (beside_write _ id (.demand c d (b.meet Hub.close id d).2))

/-- To start the countdown for a session that has ended starts none. -/
theorem InStep.beside_arm (hi : InStep still h) {g : Gist} (hg : h.gist? k = some g)
    (hclosed : g.closed = true) (hsole : ∀ j, (g.id, j) ∈ h.registry → j = k) :
    Beside h (h.arm registryTimer k) := by
  have hsane := hi.sane
  have hnone : Stopped k h := by
    intro c hc ht
    have hopen := ((hi.kept k g hg).timed.mp ⟨c, hc, ht⟩).1
    rw [hclosed] at hopen
    cases hopen
  -- nothing runs for the session, and nothing runs for its identifier either
  have hown : Owned k g.id h := by
    intro c hc
    constructor
    · intro hid
      exact hsole c.target (hid ▸ hsane.known c hc)
    · intro ht
      exact absurd ht (hnone c hc)
  have hconf := confined_arm hsane.tidy hsane.regular hg hown
  refine ⟨hconf.toCourse, fun j => ?_⟩
  by_cases hj : j = k
  · subst hj
    refine ⟨gist?_arm h registryTimer j j, fun _ => by rw [registry_arm], fun c ht => ?_⟩
    rw [mem_running_arm hsane.tidy hsane.regular hg hown]
    constructor
    · intro hrun
      rcases hrun with ⟨-, hne⟩ | ⟨hopen, -⟩
      · exact absurd ht hne
      · rw [hclosed] at hopen
        cases hopen
    · intro hc
      exact absurd ht (hnone c hc)
  · exact hconf.spares j hj

/-- With its countdown started, a new session is in step. -/
theorem Nascent.arm (hn : Nascent still k id terms h₀ h)
    (hsole : ∀ j, (id, j) ∈ h₀.registry → j = k) (hid : ∀ g, h.gist? k = some g → g.id = id) :
    InStep still (h.arm registryTimer k) ∧ Confined k h₀ (h.arm registryTimer k) ∧
      Fresh k (h₀.now + terms.inactivityTimeout) (h.arm registryTimer k) := by
  cases hn with
  | waiting midway stopped fresh =>
      obtain ⟨harmed, hticking⟩ := midway.arm rfl
      have hkept := harmed.kept rfl rfl fresh (fun _ => hticking) fun hne => absurd rfl hne
      exact ⟨harmed.inStep hkept, harmed.confined, fun _ _ _ _ => hticking⟩
  | ended inStep confined gist =>
      obtain ⟨g, hg, hclosed⟩ := gist
      have hb := inStep.beside_arm hg hclosed fun j hj =>
        hsole j (confined.registry.subset (hid g hg ▸ hj))
      refine ⟨inStep.beside hb, confined.trans (hb.confined k), fun g' hg' hopen => ?_⟩
      rw [gist?_arm, hg] at hg'
      obtain rfl := Option.some.inj hg'
      rw [hclosed] at hopen
      cases hopen

end HttpBinding.Hub
