import HttpBinding.Proofs.Hub.Steward

/-!
# HttpBinding.Proofs.Hub.Operations

What an operation on one session does to the hub around it.

`InStep.conclude` follows a report from the session to the last observer; the operations of the
hub that do not end a session are instances of it (`InStep.deliver`, `InStep.accept`,
`InStep.release`). Each of them is confined to its session, and an operation that reports nothing
is beside the sessions altogether, so it moves no deadline (`beside_conclude`).
-/

namespace HttpBinding

/-- The gist of a session after an operation. -/
theorem Report.Fits.gist {α : Type} {s : Session Observer} {r : Report Observer α}
    (hfit : r.Fits s) : r.session.gist = { s.gist with held := r.session.held.length } := by
  simp [Session.gist, hfit.id, hfit.terms, hfit.closed, hfit.observers]

theorem Report.Fits.staffed {α : Type} {s : Session Observer} {r : Report Observer α}
    (hfit : r.Fits s) (hs : s.Staffed) : r.session.Staffed := by
  refine ⟨?_, ?_⟩
  · rw [hfit.nextTicket]
    exact hs.begun
  · rw [hfit.observers]
    exact hs.first

/-- An operation that reports nothing does not change the gist. -/
theorem Report.Fits.gist_of_quiet {α : Type} {s : Session Observer} {r : Report Observer α}
    (hfit : r.Fits s) (hquiet : r.events = []) : r.session.gist = s.gist := by
  rw [hfit.gist, hfit.quiet hquiet]
  rfl

namespace Hub

variable {still : List Nat} {h : Hub} {k : Nat} {s : Session Observer}

/-! ### Reports -/

/-- An operation that reports nothing is beside the sessions. -/
theorem beside_conclude {α : Type} {r : Report Observer α} (hs : h.session? k = some s)
    (hfit : r.Fits s) (hsound : s.Sound → r.session.Sound) (hquiet : r.events = []) :
    Beside h (h.conclude k r) := by
  have hset := beside_setSession hs (hfit.gist_of_quiet hquiet) hsound hfit.staffed
  have hnotices : r.notices = [] := by simp [Report.notices, hquiet]
  simp only [conclude, hnotices, List.foldl_nil]
  exact hset.trans (beside_absorb h k r)

/-- To put a report into effect is confined to the session, whether or not it ends. -/
theorem confined_absorb {α : Type} {r : Report Observer α} (hs : h.session? k = some s)
    (hid : r.session.id = s.id) (hterms : r.session.terms = s.terms)
    (hfinal : s.closed = true → r.session.gist = s.gist) (hsound : s.Sound → r.session.Sound)
    (hstaffed : s.Staffed → r.session.Staffed) : Confined k h (h.absorb k r) := by
  have hset := confined_setSession hs hid (by rw [hterms]) hfinal hsound hstaffed
  exact hset.trans ((beside_absorb h k r).confined k)

/-- To put a report into effect has nothing to do with entries and countdowns. -/
theorem spares_absorb {α : Type} (h : Hub) (k : Nat) (r : Report Observer α) (j : Nat) :
    (∀ id, (id, j) ∈ (h.absorb k r).registry ↔ (id, j) ∈ h.registry) ∧
      ∀ c, c.target = j → (c ∈ (h.absorb k r).running ↔ c ∈ h.running) :=
  ⟨((beside_absorb h k r).spares j).listed, ((beside_absorb h k r).spares j).running⟩

theorem gist?_absorb {α : Type} (hs : h.session? k = some s) (r : Report Observer α) :
    (h.absorb k r).gist? k = some r.session.gist := by
  rw [((beside_absorb h k r).spares k).gist]
  exact gist?_setSession_self hs r.session

/-- While a report is put into effect, the other sessions are kept. -/
theorem Others.absorb {α : Type} (ho : Others still k h) {g : Gist} (hg : h.gist? k = some g)
    (hlisted : (g.id, k) ∈ h.registry) {r : Report Observer α}
    (hconf : Confined k h (h.absorb k r)) : Others still k (h.absorb k r) := by
  obtain ⟨hentries, hrunning⟩ := spares_absorb h k r k
  refine hconf.others ho fun c hc ht => ?_
  subst ht
  rw [ho.sane.id_eq ((hrunning c rfl).mp hc) hg]
  exact (hentries _).mpr hlisted

/-- A registered session is midway through its operation once the report is in effect. -/
theorem InStep.midway {α : Type} (hi : InStep still h) (hs : h.session? k = some s)
    (hatt : s.gist.attended = true) {r : Report Observer α} (hconf : Confined k h (h.absorb k r))
    (hid : r.session.id = s.id) : Midway still k r.session.gist h (h.absorb k r) := by
  have hg := gist?_of_session? hs
  have hkept := hi.kept k s.gist hg
  have hlisted : (s.gist.id, k) ∈ h.registry := hkept.listed.mpr hatt
  obtain ⟨hentries, hrunning⟩ := spares_absorb h k r k
  refine .of_listed hconf ((hi.others k).absorb hg hlisted hconf) (gist?_absorb hs r) ?_ ?_
  · show (r.session.id, k) ∈ (h.absorb k r).registry
    rw [hid]
    exact (hentries s.id).mpr hlisted
  · intro c hc ht
    exact hconf.hasJob (hkept.wound c ((hrunning c ht).mp hc) ht)

/-- An open session is observed by its steward. -/
theorem InStep.attended (hi : InStep still h) (hs : h.session? k = some s)
    (hopen : s.closed = false) : s.gist.attended = true :=
  (hi.kept k s.gist (gist?_of_session? hs)).attended hopen

/-! ### Operations that report something -/

section Loud

variable {α : Type} {r : Report Observer α}

/-- The last event decides about the countdown. -/
theorem Midway.told_conclude (hm : Midway still k r.session.gist h (h.absorb k r))
    (hopen : r.session.gist.closed = false) (hatt : r.session.gist.attended = true)
    {es : List Event} {e : Event} (hes : r.events = es ++ [e]) :
    Told k r.session.gist (h.now + r.session.gist.timeout) e (h.conclude k r) := by
  have hsteward : ∃ o ∈ r.session.observers, o.2 = Observer.steward := by
    simpa [Session.gist] using hatt
  have hprior := hm.foldl_hear hopen
    (es.flatMap fun e => r.session.observers.map fun o => (e, o.2))
  have htold := hprior.foldl_told hopen e hsteward
  simpa [conclude, Report.notices, hes] using htold

/-- While something is held, no countdown is started. -/
theorem Midway.stopped_conclude (hm : Midway still k r.session.gist h (h.absorb k r))
    (hopen : r.session.gist.closed = false) (hheld : r.session.gist.held ≠ 0)
    (hstop : Stopped k (h.absorb k r)) : Stopped k (h.conclude k r) := by
  have hboth : Midway still k r.session.gist h (h.conclude k r) ∧
      Stopped k (h.conclude k r) := by
    refine List.foldlRecOn
      (motive := fun b => Midway still k r.session.gist h b ∧ Stopped k b) r.notices
      (Hub.hear k) ⟨hm, hstop⟩ ?_
    intro b hb n _
    exact ⟨hb.1.hear hopen n, hb.1.stopped_hear hopen hheld n hb.2⟩
  exact hboth.2

/-- No countdown runs for a session that holds something. -/
theorem InStep.stopped_of_held (hi : InStep still h) (hs : h.session? k = some s)
    (hheld : s.held ≠ []) : Stopped k h := by
  intro c hc ht
  have hzero := ((hi.kept k s.gist (gist?_of_session? hs)).timed.mp ⟨c, hc, ht⟩).2
  exact hheld (List.length_eq_zero_iff.mp hzero)

/-- What is true when all observers have heard of an operation that reported something. -/
theorem InStep.conclude_loud (hi : InStep still h) (hs : h.session? k = some s)
    (hfit : r.Fits s) (hsound : s.Sound → r.session.Sound) (hloud : r.events ≠ []) :
    Midway still k r.session.gist h (h.conclude k r) ∧
      Kept still (h.conclude k r) k r.session.gist ∧
      (r.session.held = [] →
        Ticking k (h.now + s.terms.inactivityTimeout) (h.conclude k r)) := by
  have hopen : s.closed = false := by
    cases hc : s.closed with
    | false => rfl
    | true => exact absurd (hfit.silent hc) hloud
  have hkept := hi.kept k s.gist (gist?_of_session? hs)
  have hatt : s.gist.attended = true := hi.attended hs hopen
  have hopen' : r.session.gist.closed = false := by
    show r.session.closed = false
    rw [hfit.closed]
    exact hopen
  have hatt' : r.session.gist.attended = true := by
    rw [hfit.gist]
    exact hatt
  have hconf := confined_absorb (r := r) hs hfit.id hfit.terms
    (fun hc => absurd hc (by simp [hopen])) hsound hfit.staffed
  have hmid := hi.midway hs hatt hconf hfit.id
  have hdone : Midway still k r.session.gist h (h.conclude k r) :=
    hmid.foldl_hear hopen' r.notices
  have hnil : r.session.gist.held = 0 ↔ r.session.held = [] := List.length_eq_zero_iff
  have hidle : r.session.gist.held = 0 →
      Ticking k (h.now + r.session.gist.timeout) (h.conclude k r) := by
    intro hheld
    obtain ⟨es, rid, hes⟩ := hfit.idle hloud (hnil.mp hheld)
    exact hmid.told_conclude hopen' hatt' hes hheld
  have hbusy : r.session.gist.held ≠ 0 → Stopped k (h.conclude k r) := by
    intro hheld
    rcases hfit.busy fun heq => hheld (hnil.mpr heq) with hbefore | ⟨es, rid, hes⟩
    · -- something was held before, so nothing ran then
      have hstop := hi.stopped_of_held hs hbefore
      refine hmid.stopped_conclude hopen' hheld fun c hc ht => ?_
      exact hstop c (((spares_absorb h k r k).2 c ht).mp hc) ht
    · exact hmid.told_conclude hopen' hatt' hes
  refine ⟨hdone, hdone.kept hopen' hatt' (hkept.not_still hopen) hidle hbusy, fun hheld => ?_⟩
  have hticking := hidle (hnil.mpr hheld)
  rw [hfit.gist] at hticking
  exact hticking

end Loud

/-- What an operation on a session has done to the hub. -/
structure Handled {α : Type} (still : List Nat) (k : Nat) (s : Session Observer)
    (r : Report Observer α) (h h' : Hub) : Prop where
  inStep : InStep still h'
  confined : Confined k h h'
  gist : h'.gist? k = some r.session.gist
  /-- If something was reported and nothing is held, the countdown starts anew. -/
  idle : r.events ≠ [] → r.session.held = [] →
    Ticking k (h.now + s.terms.inactivityTimeout) h'
  /-- If nothing was reported, nothing has changed. -/
  quiet : r.events = [] → Beside h h'

/-- What happens beside the sessions may come before. -/
theorem Handled.of_beside {α : Type} {r : Report Observer α} {h₁ h' : Hub} (hb : Beside h h₁)
    (hd : Handled still k s r h₁ h') : Handled still k s r h h' := by
  refine ⟨hd.inStep, (hb.confined k).trans hd.confined, hd.gist, ?_,
    fun hq => hb.trans (hd.quiet hq)⟩
  rw [← hb.now]
  exact hd.idle

theorem InStep.conclude {α : Type} {r : Report Observer α} (hi : InStep still h)
    (hs : h.session? k = some s) (hfit : r.Fits s) (hsound : s.Sound → r.session.Sound) :
    Handled still k s r h (h.conclude k r) := by
  have hquiet := fun hq => beside_conclude (r := r) hs hfit hsound hq
  by_cases hloud : r.events = []
  · have hb := hquiet hloud
    refine ⟨hi.beside hb, hb.confined k, ?_, fun hne => absurd hloud hne, hquiet⟩
    rw [(hb.spares k).gist, gist?_of_session? hs, hfit.gist_of_quiet hloud]
  · obtain ⟨hmid, hkept, hidle⟩ := hi.conclude_loud hs hfit hsound hloud
    exact ⟨hmid.inStep hkept, hmid.confined, hmid.gist, fun _ => hidle, hquiet⟩

/-! ### The operations that do not end a session -/

theorem InStep.deliver (hi : InStep still h) (hs : h.session? k = some s) (stanza : Stanza) :
    Handled still k s (s.deliver stanza) h (h.deliver k stanza).1 := by
  simp only [Hub.deliver, hs]
  exact hi.conclude hs (s.fits_deliver stanza) fun hsound => hsound.deliver stanza

theorem InStep.release (hi : InStep still h) (hs : h.session? k = some s) :
    Handled still k s s.release h (h.release k).1 := by
  simp only [Hub.release, hs]
  exact hi.conclude hs s.fits_release fun hsound => hsound.release

theorem InStep.accept (hi : InStep still h) (hs : h.session? k = some s) (x : Exchange)
    (poll : Bool) : Handled still k s (s.accept x poll h.now) h (h.accept k x poll).1 := by
  have htaken := beside_takeLoose h x.key
  have hdone := (hi.beside htaken).conclude (k := k) (s := s) hs
    (s.fits_accept x poll h.now) fun hsound => hsound.accept x poll h.now
  simp only [Hub.accept, hs]
  exact hdone.of_beside htaken

end Hub

end HttpBinding
