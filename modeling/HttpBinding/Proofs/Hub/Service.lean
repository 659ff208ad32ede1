import HttpBinding.Proofs.Hub.Beginning

/-!
# HttpBinding.Proofs.Hub.Service

The service of the registry keeps the hub in step.

* `InStep.create`: a new session gets an identifier that nobody has. It is the only way in which
  the list of sessions that are never taken off the registry grows, and it grows exactly if the
  server demands the end of the session in the call that announces it (`isStillborn`).
* `InStep.forward`: a further request concerns its session only.
* `InStep.shutdown`: every session ends, so no countdown is left to be stopped.
-/

namespace HttpBinding.Hub

variable {still : List Nat} {h : Hub} {k : Nat}

/-! ### New sessions -/

/-- Only an identifier that is not taken is given out. -/
theorem lookup_of_draw {draws drawn drawn' : Nat} {id : StreamId}
    (hd : h.draw draws drawn = (drawn', some id)) : h.lookup id = none := by
  -- a draw that is taken is passed over, so the last one decides
  induction draws generalizing drawn with
  | zero => simp [draw] at hd
  | succ draws ih =>
      simp only [draw] at hd
      split at hd
      · exact ih hd
      · rename_i hfree
        obtain ⟨-, rfl⟩ : _ ∧ h.ids drawn = id := by simpa using hd
        simpa using hfree

theorem draw_congr {h' : Hub} (hids : h'.ids = h.ids) (hregistry : h'.registry = h.registry)
    (draws drawn : Nat) : h'.draw draws drawn = h.draw draws drawn := by
  have hlookup : ∀ id, h'.lookup id = h.lookup id := fun id => by simp [lookup, hregistry]
  induction draws generalizing drawn with
  | zero => rfl
  | succ draws ih => simp [draw, hids, hlookup, ih]

/-- The server half of an exchange acts without touching anything but exchanges and jobs. -/
theorem serve_eq (h : Hub) (key : Nat) (f : Exchange → Exchange) :
    ∃ sessions loose ready parked, h.serve key f =
      { h with sessions, loose, ready, parked } := by
  simp only [serve]
  split
  · split
    · exact ⟨_, _, _, _, rfl⟩
    · exact ⟨_, _, _, _, rfl⟩
  · exact ⟨_, _, _, _, rfl⟩

/-- What the beginning of the session `k` at a time has done to the hub. -/
structure Begun (still : List Nat) (k time timeout : Nat) (h h' : Hub) : Prop where
  inStep : InStep still h'
  now : h'.now = time
  /-- The sessions that are there already do not notice. -/
  spares : ∀ j < k, Spares j h h'
  newcomer : ∀ g, h'.gist? k = some g → g.timeout = timeout
  fresh : Fresh k (time + timeout) h'

/-- The sessions that the server ends in the call that announces them, if there are any. -/
def stillbornUnder (h : Hub) (id : StreamId) : List Nat :=
  if .close ∈ h.server.demands h.calls id .created then [h.sessions.length] else []

/-- What is left to do once the steward of a new session has come: the server is asked for the
features of the session, and the client is answered. -/
def welcome (h : Hub) (s : Session Observer) (key : Nat) : Hub :=
  let h := h.write s.id (.features s.terms.wait s.terms.bound s.terms.language s.terms.secure)
  let h := h.call s.id .features
  h.serve key fun x => ((x.bind s.id).deliver (.creation (h.creation s))).2

theorem Nascent.welcome {h₀ : Hub} {s : Session Observer} {terms : Terms}
    (hn : Nascent still k s.id terms h₀ h) (hsole : ∀ j, (s.id, j) ∈ h₀.registry → j = k)
    (key : Nat) : Nascent still k s.id terms h₀ (h.welcome s key) :=
  ((hn.beside (beside_write ..)).call hsole .features).beside (beside_serve ..)

/-- Until the steward comes, a new session is followed in full detail. -/
theorem begin_eq (h : Hub) (id : StreamId) (terms : Terms) (key : Nat) :
    ∃ (s t : Session Observer) (journal : List Entry),
      s.id = id ∧
      Unheard id terms (decide (.close ∈ h.server.demands h.calls id .created)) t ∧
      h.begin id terms key =
        ((h.withNewborn id (t.observe .steward).2 journal (h.calls + 1)).welcome s key).arm
          registryTimer h.sessions.length := by
  obtain ⟨s, hs⟩ : ∃ s : Session Observer, s = { id, terms, sink := h.sink } := ⟨_, rfl⟩
  have hunheard : Unheard id terms false s := by
    rw [hs]
    exact ⟨rfl, rfl, rfl, rfl, rfl, rfl, Session.sound_new id terms h.sink⟩
  obtain ⟨t, journal, heq, ht⟩ := call_withNewborn h
    (h.journal ++ [⟨h.now, id.text, .created⟩]) h.calls hunheard .created
  refine ⟨s, t, journal, hunheard.id, ht, ?_⟩
  have hannounced : ({ h.addSession s with
      registry := (id, h.sessions.length) :: h.registry }.write id .created).call id .created =
        h.withNewborn id t journal (h.calls + 1) := heq
  unfold Hub.begin
  simp only [← hs, hannounced, addSteward_withNewborn]
  rw [hs]
  rfl

theorem InStep.begin (hi : InStep still h) {id : StreamId} (hfree : h.lookup id = none)
    (hk : h.sessions.length = k) {time : Nat} (ht : h.now = time) (terms : Terms) (key : Nat) :
    Begun (still ++ h.stillbornUnder id) k time terms.inactivityTimeout h
      (h.begin id terms key) := by
  subst hk ht
  obtain ⟨s, t, journal, rfl, ht, hbegin⟩ := h.begin_eq id terms key
  obtain ⟨h₁, hh₁⟩ : ∃ h₁, h₁ =
      h.withNewborn s.id (t.observe .steward).2 journal (h.calls + 1) := ⟨_, rfl⟩
  have hnew : ∀ j, (s.id, j) ∉ h.registry := by
    intro j hj
    rw [hi.sane.lookup_eq_some_iff.mpr hj] at hfree
    cases hfree
  have hnascent : Nascent (still ++ h.stillbornUnder s.id) h.sessions.length s.id terms h₁ h₁ := by
    rw [hh₁]
    simpa [stillbornUnder] using hi.nascent hnew ht
  have hself : h₁.gist? h.sessions.length = some (newbornGist s.id terms
      (decide (.close ∈ h.server.demands h.calls s.id .created))) := by
    rw [hh₁, gist?_withNewborn_self, ht.attend.1]
  have hsole : ∀ j, (s.id, j) ∈ h₁.registry → j = h.sessions.length := by
    rw [hh₁]
    intro j hj
    rcases List.mem_cons.mp hj with heq | hj
    · exact congrArg Prod.snd heq
    · exact absurd hj (hnew j)
  have hwelcome := hnascent.welcome hsole key
  -- no call changes who the session is
  have hid : ∀ g, (h₁.welcome s key).gist? h.sessions.length = some g → g.id = s.id := by
    intro g hg
    obtain ⟨g', hg', hgid, -⟩ := hwelcome.confined.identity _ _ hself
    rw [hg] at hg'
    obtain rfl := Option.some.inj hg'
    exact hgid
  have hnow : h₁.now = h.now := by
    rw [hh₁]
    rfl
  obtain ⟨hinStep, hconf, hfresh⟩ := hwelcome.arm hsole hid
  rw [hnow] at hfresh
  rw [hbegin, ← hh₁]
  refine ⟨hinStep, hconf.now.trans hnow, fun j hj => ?_, fun g hg => ?_, hfresh⟩
  · have hthere : Spares j h h₁ := by
      rw [hh₁]
      exact spares_withNewborn hj
    exact hthere.trans (hconf.spares j (Nat.ne_of_lt hj))
  · obtain ⟨g', hg', -, htimeout⟩ := hconf.identity _ _ hself
    rw [hg] at hg'
    obtain rfl := Option.some.inj hg'
    exact htimeout

/-- The sessions that a request would begin only for them to end in the call that announces
them. -/
def stillborn (h : Hub) : List Nat :=
  match h.draw maxDraws h.drawn with
  | (_, some id) => h.stillbornUnder id
  | (_, none) => []

/-- Without a free identifier no session begins, and nothing changes for the others. -/
theorem InStep.create (hi : InStep still h) (request : Request) (key : Nat) :
    Begun (still ++ h.stillborn) h.sessions.length h.now h.settings.inactivityMillis h
      (h.create request key).1 := by
  obtain ⟨sessions, loose, ready, parked, heq⟩ :=
    serve_eq h key fun x => x.compress h.server.compression
  obtain ⟨h₁, hh₁⟩ : ∃ h₁, h₁ = h.serve key fun x => x.compress h.server.compression := ⟨_, rfl⟩
  have hb : Beside h h₁ := by
    rw [hh₁]
    exact beside_serve ..
  rw [← hh₁] at heq
  have hdraw : h₁.draw maxDraws h₁.drawn = h.draw maxDraws h.drawn := by
    have hdrawn : h₁.drawn = h.drawn := by rw [heq]
    rw [hdrawn]
    exact draw_congr (by rw [heq]) (by rw [heq]) _ _
  simp only [Hub.create, ← hh₁]
  cases hd : h.draw maxDraws h.drawn with
  | mk drawn id =>
      rw [hdraw, hd]
      have hcount : Beside h { h₁ with drawn } := hb.trans (.of_eq rfl rfl rfl rfl rfl rfl rfl)
      cases id with
      | none =>
          have hall := hcount.trans (beside_serve { h₁ with drawn } key Exchange.drop)
          have hnone : h.stillborn = [] := by simp [stillborn, hd]
          rw [hnone, List.append_nil]
          refine ⟨hi.beside hall, hall.now, fun j _ => hall.spares j, fun g hg => ?_,
            fun g hg => ?_⟩
          · rw [(hall.spares _).gist] at hg
            exact absurd (lt_of_gist? hg) (Nat.lt_irrefl _)
          · rw [(hall.spares _).gist] at hg
            exact absurd (lt_of_gist? hg) (Nat.lt_irrefl _)
      | some id =>
          have hfree : h.lookup id = none := lookup_of_draw hd
          have hfree' : { h₁ with drawn }.lookup id = none := by
            rw [← hfree]
            simp [lookup, heq]
          -- the exchange is compressed before the draw, which the server does not notice
          have hborn : { h₁ with drawn }.stillbornUnder id = h.stillborn := by
            have hlen : h₁.sessions.length = h.sessions.length := hb.sessions
            have hserver : h₁.server = h.server := by rw [heq]
            have hcalls : h₁.calls = h.calls := by rw [heq]
            simp [stillborn, hd, stillbornUnder, hlen, hserver, hcalls]
          have hbegun := (hi.beside hcount).begin hfree' hb.sessions hb.now
            (h.termsFor request ((h.exchange? key).any Exchange.secure)) key
          rw [hborn] at hbegun
          exact ⟨hbegun.inStep, hbegun.now,
            fun j hj => (hcount.spares j).trans (hbegun.spares j hj), hbegun.newcomer,
            hbegun.fresh⟩

/-! ### Further requests -/

/-- Whatever the server demands when it is given stanzas is confined to the session they are
from. -/
theorem InStep.foldl_send (hi : InStep still h) {id : StreamId}
    (hsole : ∀ j, (id, j) ∈ h.registry → j = k) (payload : List Stanza) :
    Serves still k h (payload.foldl
      (fun h stanza => (h.write id (.send stanza)).call id (.send stanza)) h) := by
  refine List.foldlRecOn (motive := fun b => Serves still k h b) _ _
    (hi.serves_of_beside (.refl h) k) ?_
  intro b hb stanza _
  have hsole' : ∀ j, (id, j) ∈ b.registry → j = k := fun j hj =>
    hsole j (hb.confined.registry.subset hj)
  have hnote := hb.inStep.serves_of_beside (beside_write b id (.send stanza)) k
  exact hb.trans (hnote.trans (hnote.inStep.call hsole' _))

/-- The request of a client that has been admitted, or refused. -/
theorem InStep.forward (hi : InStep still h) {s : Session Observer} (hs : h.session? k = some s)
    (rid : Nat) (secure : Bool) (payload : List Stanza) :
    Serves still k h (h.forward rid k secure payload).1 ∧
      ((s.accept (Exchange.fresh h.nextExchange rid secure) payload.isEmpty h.now).events = [] →
        Beside h (h.forward rid k secure payload).1) ∧
      ((s.accept (Exchange.fresh h.nextExchange rid secure) payload.isEmpty h.now).events ≠ [] →
        Fresh k (h.now + s.terms.inactivityTimeout) (h.forward rid k secure payload).1) := by
  obtain ⟨x, hx⟩ : ∃ x, x = Exchange.fresh h.nextExchange rid secure := ⟨_, rfl⟩
  obtain ⟨r, hr⟩ : ∃ r, r = s.accept x payload.isEmpty h.now := ⟨_, rfl⟩
  obtain ⟨h₁, hh₁⟩ : ∃ h₁, h₁ = (h.newExchange rid secure).1 := ⟨_, rfl⟩
  have hnew : Beside h h₁ := by
    rw [hh₁]
    exact beside_newExchange ..
  have hpair : h.newExchange rid secure = (h₁, x) := by
    rw [hh₁, hx]
    rfl
  have hs₁ : h₁.session? k = some s := by
    rw [hh₁]
    exact hs
  have hdone : Handled still k s r h (h₁.accept k x payload.isEmpty).1 := by
    have haccepted := (hi.beside hnew).accept hs₁ x payload.isEmpty
    rw [hnew.now, ← hr] at haccepted
    exact haccepted.of_beside hnew
  obtain ⟨h₂, answer, haccepted⟩ : ∃ h₂ answer, h₁.accept k x payload.isEmpty = (h₂, answer) :=
    ⟨_, _, rfl⟩
  have hanswer : answer = r.answer := by
    have heq := congrArg Prod.snd haccepted
    simp only [Hub.accept, hs₁, hnew.now] at heq
    rw [hr]
    exact heq.symm
  rw [haccepted] at hdone
  have hserves : Serves still k h h₂ := hdone.serves hi hs
  -- whatever happens after the admission leaves the countdown fresh
  have hlater : ∀ h₃, Serves still k h₂ h₃ → r.events ≠ [] →
      Fresh k (h.now + s.terms.inactivityTimeout) h₃ := by
    intro h₃ hmore hloud
    exact hmore.fresh_after hdone.confined (gist?_of_session? hs) (hdone.fresh_of_loud hloud)
  rw [← hx, ← hr]
  cases answer with
  | error fault =>
      simp only [Hub.forward, hpair, haccepted]
      have hleft := beside_departRequester h₂ x.key
      have hmore := hdone.inStep.serves_of_beside hleft k
      exact ⟨hserves.trans hmore, fun hquiet => (hdone.quiet hquiet).trans hleft, hlater _ hmore⟩
  | ok _ =>
      obtain ⟨hopen, hloud⟩ := Session.loud_of_accept_ok (hr ▸ hanswer.symm)
      have hlisted : (s.id, k) ∈ h.registry :=
        (hi.kept k s.gist (gist?_of_session? hs)).listed.mpr (hi.attended hs hopen)
      have hsole : ∀ j, (s.id, j) ∈ h₂.registry → j = k := fun j hj =>
        hi.sane.eq_of_listed (hdone.confined.registry.subset hj) hlisted
      have hid : (((h₂.spawn (.watch k x.key)).session? k).map Session.id).getD default =
          s.id := by
        obtain ⟨g, hg, hgid, -⟩ := hdone.confined.identity k _ (gist?_of_session? hs)
        obtain ⟨s₂, hs₂, rfl⟩ := session?_of_gist? hg
        show ((h₂.session? k).map Session.id).getD default = s.id
        rw [hs₂]
        exact hgid
      have hwatch := hdone.inStep.serves_of_beside (beside_spawn h₂ (.watch k x.key)) k
      have hmore := hwatch.trans (hwatch.inStep.foldl_send hsole payload)
      simp only [Hub.forward, hpair, haccepted, hid]
      exact ⟨hserves.trans hmore, fun hquiet => absurd (hr ▸ hquiet) hloud, hlater _ hmore⟩

/-! ### The end of everything -/

/-- Where all sessions have ended no countdown is left. -/
theorem InStep.running_eq_nil (hi : InStep still h)
    (hall : ∀ j g, h.gist? j = some g → g.closed = true) : h.running = [] := by
  refine List.eq_nil_iff_forall_not_mem.mpr fun c hc => ?_
  obtain ⟨g, hg, -⟩ := hi.sane.real _ (hi.sane.known c hc)
  have hopen := ((hi.kept c.target g hg).timed.mp ⟨c, hc, rfl⟩).1
  rw [hall c.target g hg] at hopen
  cases hopen

/-- To stop all countdowns of an empty table changes nothing. -/
theorem beside_cancelAll (hi : InStep still h) (hnone : h.running = []) :
    Beside h (h.setTimer registryTimer (h.timer registryTimer).cancelAll) := by
  have hsane := hi.sane
  have hrunning : (h.timer registryTimer).cancelAll.running = h.running := by
    rw [hsane.regular.running_cancelAll, hnone]
  have hconf : ∀ k, Confined k h
      (h.setTimer registryTimer (h.timer registryTimer).cancelAll) := fun k =>
    confined_setTimer hsane.tidy (fun hr => hr.cancelAll) fun c _ => by rw [hrunning]
  exact ⟨(hconf 0).toCourse, fun j => (hconf (j + 1)).spares j (by omega)⟩

/-- One session after the other ends. -/
theorem InStep.foldl_close (hi : InStep still h) (ks : List Nat) (shutdown : Bool) :
    InStep still (ks.foldl (fun h k => h.close k shutdown) h) ∧
      Course h (ks.foldl (fun h k => h.close k shutdown) h) := by
  refine List.foldlRecOn (motive := fun b => InStep still b ∧ Course h b) _ _
    ⟨hi, (Beside.refl h).toCourse⟩ ?_
  intro b hb k _
  have hended := hb.1.close k shutdown
  exact ⟨hended.inStep, hb.2.trans hended.confined.toCourse⟩

/-- Each of the sessions has ended then. -/
theorem InStep.closed_of_foldl_close (hi : InStep still h) {ks : List Nat} {shutdown : Bool}
    (hk : k ∈ ks) {g : Gist} (hg : (ks.foldl (fun h k => h.close k shutdown) h).gist? k = some g)
    (hthere : k < h.sessions.length) : g.closed = true := by
  -- once ended, a session is not changed by what comes after
  induction ks generalizing h with
  | nil => cases hk
  | cons j ks ih =>
      have hended := hi.close j shutdown
      have hthere' : k < (h.close j shutdown).sessions.length := by
        rw [hended.confined.sessions]
        exact hthere
      rcases List.mem_cons.mp hk with rfl | hk
      · obtain ⟨g₀, hg₀⟩ : ∃ g₀, h.gist? k = some g₀ := by
          simp [gist?, session?, List.getElem?_eq_getElem hthere]
        have hclosed : (if g₀.closed then g₀ else g₀.ended).closed = true := by
          split
          · assumption
          · rfl
        have hfinal := (hended.inStep.foldl_close ks shutdown).2.final k _ (hended.gist g₀ hg₀)
          hclosed
        rw [List.foldl_cons, hfinal] at hg
        obtain rfl := Option.some.inj hg
        exact hclosed
      · exact ih hended.inStep hk hg hthere'

/-- When the server goes away every session ends. -/
theorem InStep.shutdown (hi : InStep still h) :
    InStep still h.shutdown ∧ Course h h.shutdown ∧
      ∀ j g, h.shutdown.gist? j = some g → g.closed = true := by
  obtain ⟨h₁, hh₁⟩ : ∃ h₁, h₁ = (h.registry.map Prod.snd).foldl (fun h k => h.close k true) h :=
    ⟨_, rfl⟩
  obtain ⟨hin, hcourse⟩ : InStep still h₁ ∧ Course h h₁ := hh₁ ▸ hi.foldl_close _ true
  have hall : ∀ j g, h₁.gist? j = some g → g.closed = true := by
    intro j g hg
    have hlt : j < h.sessions.length := by
      rw [← hcourse.sessions]
      exact lt_of_gist? hg
    obtain ⟨g₀, hg₀⟩ : ∃ g₀, h.gist? j = some g₀ := by
      simp [gist?, session?, List.getElem?_eq_getElem hlt]
    cases hc : g₀.closed with
    | true =>
        have hsame := hcourse.final j g₀ hg₀ hc
        rw [hg] at hsame
        obtain rfl := Option.some.inj hsame
        exact hc
    | false =>
        -- it was registered, so it was among those that were ended
        have hkept := hi.kept j g₀ hg₀
        have hmem : j ∈ h.registry.map Prod.snd :=
          List.mem_map.mpr ⟨_, hkept.listed.mpr (hkept.attended hc), rfl⟩
        rw [hh₁] at hg
        exact hi.closed_of_foldl_close hmem hg hlt
  have hb := beside_cancelAll hin (hin.running_eq_nil hall)
  have hshut : h.shutdown =
      h₁.setTimer registryTimer (h₁.timer registryTimer).cancelAll := by
    rw [hh₁]
    rfl
  rw [hshut]
  refine ⟨hin.beside hb, hcourse.trans hb.toCourse, fun j g hg => ?_⟩
  rw [(hb.spares j).gist] at hg
  exact hall j g hg

end HttpBinding.Hub
