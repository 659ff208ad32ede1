import HttpBinding.Proofs.Hub.Echoes
import HttpBinding.Proofs.Hub.Happenings
import HttpBinding.Proofs.Session.Refusal

/-!
# HttpBinding.Proofs.Hub.Refusal

What is left of a request that a hub refuses, and what the server is given of one that it takes in.

The result of a refusal is written down as an equation between hubs (`accept_of_refused`,
`forward_of_refused`): the session has noted a poll, one exchange more is loose, and whoever waits
for that exchange is woken. All fields that the equation does not mention are what they were, among
them the registry, the countdowns and the journal.

The stanzas of a request that is taken in go to the server one after the other, and the server may
demand something in each of these calls. What comes of that is written down between the stanzas
(`Echoes`), so it neither adds a stanza to those that the server is given nor takes one away.
-/

namespace HttpBinding.Hub

variable {still : List Nat} {k : Nat} {h : Hub} {s : Session Observer} {x y : Exchange}
  {poll : Bool} {fault : Fault}

/-! ### Refusal -/

/-- Where nothing happened that observers could hear of, a report takes effect and that is all. -/
theorem conclude_of_silent {α : Type} (h : Hub) (k : Nat) {r : Report Observer α}
    (hsilent : r.events = []) (hnone : r.failedOver = []) (hone : r.released = [y]) :
    h.conclude k r = { h.setSession k r.session with loose := h.loose ++ [y] }.wake
      (Job.awaitsAnswer y.key) := by
  have hnobody : r.notices = [] := by simp [Report.notices, hsilent]
  simp only [conclude, absorb, hnobody, hnone, hone, List.foldl_cons, List.foldl_nil]
  split <;> rfl

theorem answer_accept (hs : h.session? k = some s) (x : Exchange) (poll : Bool) :
    (h.accept k x poll).2 = (s.accept x poll h.now).answer := by
  simp only [accept, hs]

/-- A session refuses an exchange. -/
theorem accept_of_refused (hs : h.session? k = some s) (hsound : s.Sound)
    (hrefused : (s.accept x poll h.now).answer = .error fault) :
    ∃ y, x.Dismissed y ∧ h.accept k x poll =
      ({ h.setSession k (s.refusing poll h.now) with
          loose := (h.takeLoose x.key).loose ++ [y] }.wake (Job.awaitsAnswer x.key),
        .error fault) := by
  have hr := hsound.refuses hrefused
  obtain ⟨y, hone, hy⟩ := hr.released
  refine ⟨y, hy, ?_⟩
  have hdone := (h.takeLoose x.key).conclude_of_silent k hr.events hr.failedOver hone
  rw [hr.session, hy.served.key] at hdone
  simp only [accept, hs, hrefused]
  exact Prod.ext hdone rfl

/-- An exchange that stands last among the loose ones is changed there and nowhere else, if no other
one has its key. -/
theorem mapExchange_last {loose : List Exchange} (hlast : h.loose = loose ++ [y])
    (hloose : ∀ x ∈ loose, x.key ≠ y.key) (hheld : ∀ s ∈ h.sessions, ∀ x ∈ s.held, x.key ≠ y.key)
    (f : Exchange → Exchange) : h.mapExchange y.key f = { h with loose := loose ++ [f y] } := by
  rw [mapExchange_of_not_held hheld, hlast, List.map_append, map_of_ne_key hloose]
  simp

/-- The session refuses a further request. Nothing waits for the exchange of a request that has just
come in but perhaps a job that was started for its key in advance. -/
theorem InStep.forward_of_refused (hi : InStep still h) (ho : h.Orderly)
    (hs : h.session? k = some s) {rid : Nat} {secure : Bool} {payload : List Stanza}
    (hrefused : (s.accept (Exchange.fresh h.nextExchange rid secure) payload.isEmpty
      h.now).answer = .error fault) :
    ∃ y, (Exchange.fresh h.nextExchange rid secure).Dismissed y ∧
      h.forward rid k secure payload =
        (({ h.setSession k (s.refusing payload.isEmpty h.now) with
            loose := h.loose ++ [y.depart]
            nextExchange := h.nextExchange + 1 }.wake
              (Job.awaitsAnswer h.nextExchange)).wake (Job.awaitsDeparture h.nextExchange),
          .error fault) := by
  obtain ⟨x, hx⟩ : ∃ x, x = Exchange.fresh h.nextExchange rid secure := ⟨_, rfl⟩
  obtain ⟨h₁, hh₁⟩ : ∃ h₁, h₁ = (h.newExchange rid secure).1 := ⟨_, rfl⟩
  have hs₁ : h₁.session? k = some s := by
    rw [hh₁]
    exact hs
  have hkey : x.key = h.nextExchange := by rw [hx]; rfl
  have hrefused₁ : (s.accept x payload.isEmpty h₁.now).answer = .error fault := by
    rw [hx, hh₁]
    exact hrefused
  obtain ⟨y, hy, haccepted⟩ :=
    accept_of_refused hs₁ (hi.sane.tidy.sound s (mem_sessions hs)) hrefused₁
  have hyKey : y.key = h.nextExchange := hy.served.key.trans hkey
  have htaken : (h₁.takeLoose x.key).loose = h.loose := by
    rw [hh₁, hkey]
    exact ho.loose_visit rid secure
  rw [htaken, hkey] at haccepted
  refine ⟨y, hx ▸ hy, ?_⟩
  -- the keys of all other exchanges are smaller than that of the new one
  have hloose : ∀ z ∈ h.loose, z.key ≠ y.key := fun z hz => by
    have hlt := ho.numbered z (mem_exchanges_of_loose hz)
    omega
  have hheld : ∀ t ∈ h.sessions.set k (s.refusing payload.isEmpty h.now), ∀ z ∈ t.held,
      z.key ≠ y.key := by
    intro t ht z hz
    have hlt : z.key < h.nextExchange := by
      rcases List.mem_or_eq_of_mem_set ht with ht | rfl
      · exact ho.numbered z (List.mem_append_right _ (List.mem_flatMap.mpr ⟨t, ht, hz⟩))
      · exact ho.numbered z (mem_exchanges_of_held hs hz)
    omega
  obtain ⟨h₂, hh₂⟩ : ∃ h₂, h₂ = { h.setSession k (s.refusing payload.isEmpty h.now) with
      loose := h.loose ++ [y]
      nextExchange := h.nextExchange + 1 }.wake (Job.awaitsAnswer h.nextExchange) := ⟨_, rfl⟩
  have hafter : h₁.accept k x payload.isEmpty = (h₂, .error fault) := by
    rw [haccepted, hh₂, hh₁]
    rfl
  have hleft : h₂.mapExchange h.nextExchange Exchange.depart =
      { h₂ with loose := h.loose ++ [y.depart] } := by
    rw [← hyKey]
    exact mapExchange_last (hh₂ ▸ rfl) hloose (hh₂ ▸ hheld) _
  have hforward := forward_eq (hi.placed hs) rid secure payload
  rw [← hx, ← hh₁, hafter] at hforward
  simp only [hforward, departRequester, hleft]
  rw [hh₂]
  rfl

/-! ### Stanzas of a request that was admitted -/

/-- The server is given all stanzas in order, whatever it demands meanwhile. -/
theorem sent_foldl_send (id : StreamId) (payload : List Stanza) (h : Hub) :
    (payload.foldl (fun h stanza => (h.write id (.send stanza)).call id (.send stanza)) h).sent =
      h.sent ++ payload.map fun stanza => ⟨h.now, id.text, .send stanza⟩ := by
  induction payload generalizing h with
  | nil => simp
  | cons stanza payload ih =>
      have hcalled := echoes_call (h.write id (.send stanza)) id (.send stanza)
      have hnow : ((h.write id (.send stanza)).call id (.send stanza)).now = h.now := hcalled.now
      have hsent : ((h.write id (.send stanza)).call id (.send stanza)).sent =
          h.sent ++ [⟨h.now, id.text, .send stanza⟩] := by
        rw [hcalled.sent]
        exact List.filter_append ..
      rw [List.foldl_cons, ih, hnow, hsent, List.map_cons, List.append_assoc]
      rfl

theorem InStep.forward_of_admitted (hi : InStep still h) (hs : h.session? k = some s) {rid : Nat}
    {secure : Bool} {payload : List Stanza}
    (hadmitted : (s.accept (Exchange.fresh h.nextExchange rid secure) payload.isEmpty
      h.now).answer = .ok ()) :
    (h.forward rid k secure payload).2 = .ok h.nextExchange ∧
      (h.forward rid k secure payload).1.sent =
        h.sent ++ payload.map fun stanza => ⟨h.now, s.id.text, .send stanza⟩ := by
  obtain ⟨h₁, hh₁⟩ : ∃ h₁, h₁ = (h.newExchange rid secure).1 := ⟨_, rfl⟩
  obtain ⟨x, hx⟩ : ∃ x, x = Exchange.fresh h.nextExchange rid secure := ⟨_, rfl⟩
  obtain ⟨h₂, answer, haccepted⟩ : ∃ h₂ answer, h₁.accept k x payload.isEmpty = (h₂, answer) :=
    ⟨_, _, rfl⟩
  have hs₁ : h₁.session? k = some s := by
    rw [hh₁]
    exact hs
  have hnow₁ : h₁.now = h.now := by
    rw [hh₁]
    rfl
  have hok : answer = .ok () := by
    have hanswer := answer_accept hs₁ x payload.isEmpty
    rw [haccepted, hnow₁, hx, hadmitted] at hanswer
    exact hanswer
  -- the watch is started without a note
  have hechoes : Echoes h (h₂.spawn (.watch k h.nextExchange)) := by
    have hconnected : Echoes h h₁ := .of_eq hnow₁ (by rw [hh₁]; rfl)
    have hdone := echoes_accept h₁ k x payload.isEmpty
    rw [haccepted] at hdone
    have hwatched : Echoes h₂ (h₂.spawn (.watch k h.nextExchange)) := .of_eq rfl rfl
    exact (hconnected.trans hdone).trans hwatched
  have hforward := forward_eq (hi.placed hs) rid secure payload
  rw [← hx, ← hh₁, haccepted, hok] at hforward
  rw [hforward]
  refine ⟨rfl, ?_⟩
  rw [sent_foldl_send, hechoes.sent, hechoes.now]

/-! ### The result -/

/-- **A request that is refused leaves everything as it was.** A session may be observed by anything
and may have been through anything, also in a hub. If it refuses a request, then it notes a poll if
it is open and the request is one; that is all that differs in it. No observer hears of anything,
nothing is handed on, and the exchange is let go of without an answer.

In a hub the registry, the countdowns, the journal and the other sessions are what they were and the
server is not called; the refused exchange is loose, and whoever waited for it takes a turn. The
stanzas of a request that is admitted are given to the server one by one and in order, with the
identifier of the session, whatever the server demands in these calls. -/
theorem refusals_leave_no_trace :
    (∀ (ο : Type) (id : StreamId) (terms : Terms) (sink : Sink) (observers : List (Nat × ο))
      (nextTicket : Nat) (beats : List (Beat ο)) (poll : Bool) (now : Nat) (fault : Fault),
      let t := (Stage.start id terms sink observers nextTicket).play beats
      (∀ x, (t.session.accept x poll now).answer = .error fault →
        t.session.Refuses x poll now fault (t.session.accept x poll now)) ∧
      ∀ rid secure past, (t.session.accept ((Exchange.fresh t.entered rid secure).after past) poll
          now).answer = .error fault →
        ∃ y, t.perform (.enter rid secure past poll now) =
          { t with
            session := t.session.refusing poll now
            entered := t.entered + 1
            released := t.released ++ [y] }) ∧
    ∀ h : Hub, h.Reachable → ∀ k s, h.session? k = some s →
      (∀ x poll fault, (h.accept k x poll).2 = .error fault →
        s.Refuses x poll h.now fault (s.accept x poll h.now) ∧
        ∃ y, x.Dismissed y ∧ (h.accept k x poll).1 =
          { h.setSession k (s.refusing poll h.now) with
            loose := (h.takeLoose x.key).loose ++ [y] }.wake (Job.awaitsAnswer x.key)) ∧
      ∀ rid secure payload,
        (∀ fault, (h.forward rid k secure payload).2 = .error fault →
          ∃ y, (Exchange.fresh h.nextExchange rid secure).Dismissed y ∧
            (h.forward rid k secure payload).1 =
              ({ h.setSession k (s.refusing payload.isEmpty h.now) with
                loose := h.loose ++ [y.depart]
                nextExchange := h.nextExchange + 1 }.wake
                  (Job.awaitsAnswer h.nextExchange)).wake (Job.awaitsDeparture h.nextExchange)) ∧
        ∀ key, (h.forward rid k secure payload).2 = .ok key →
          (h.forward rid k secure payload).1.sent =
            h.sent ++ payload.map fun stanza => ⟨h.now, s.id.text, .send stanza⟩ := by
  refine ⟨fun ο id terms sink observers nextTicket beats poll now fault => ?_,
    fun h hr k s hs => ?_⟩
  · have hsound := ((Stage.upright_start id terms sink observers nextTicket).play beats).sound
    exact ⟨fun x => hsound.refuses, fun rid secure past => Stage.perform_enter_of_refused hsound⟩
  · obtain ⟨still, hi⟩ := hr.inStep
    have hsound := hi.sane.tidy.sound s (mem_sessions hs)
    refine ⟨fun x poll fault hfault => ?_, fun rid secure payload => ?_⟩
    · rw [answer_accept hs] at hfault
      obtain ⟨y, hy, heq⟩ := accept_of_refused hs hsound hfault
      exact ⟨hsound.refuses hfault, y, hy, by rw [heq]⟩
    · cases hanswer : (s.accept (Exchange.fresh h.nextExchange rid secure) payload.isEmpty
          h.now).answer with
      | error fault =>
          obtain ⟨y, hy, heq⟩ := hi.forward_of_refused hr.orderly.1 hs hanswer
          rw [heq]
          exact ⟨fun _ _ => ⟨y, hy, rfl⟩, fun _ hkey => nomatch hkey⟩
      | ok _ =>
          obtain ⟨hkey, hsent⟩ := hi.forward_of_admitted hs hanswer
          rw [hkey]
          exact ⟨fun _ hfault => (nomatch hfault), fun _ _ => hsent⟩

/-- A server that answers every stanza and then wants the session ended. -/
def obstinate : Server where
  react _ call := match call with
    | .send _ => [.deliver ⟨"<reply/>"⟩, .close]
    | _ => []

/-- A session that has just been polled. -/
def polled : Hub :=
  (Script.withService {} obstinate .recorded fun _ => ⟨"a"⟩).play
    [.connect 1 false, .create {} 0, .forward 2 0 false []]

/-- Another poll is refused, and so is a requester that is gone when a stanza waits to be carried
away. Of two stanzas the server is given both, although the session ends with the first. -/
theorem refused_poll_and_obstinate_server :
    let t : Stage Nat := (Stage.start ⟨"a"⟩ {} .recorded [(0, 7)] 1).play [.deed (.deliver ⟨"<a/>"⟩)]
    let stanzas : List Stanza := [⟨"<a/>"⟩, ⟨"<b/>"⟩]
    (t.session.accept ((Exchange.fresh 0 2 false).after [.leave]) false 0).answer =
      .error (.consumed 2) ∧
    (t.perform (.enter 2 false [.leave] false 0)).session = t.session ∧
    (polled.forward 3 0 false []).2 = .error .pollingTooFrequent ∧
    (polled.forward 3 0 false []).1.journal = polled.journal ∧
    (polled.forward 3 0 false stanzas).2 = .ok 2 ∧
    (polled.forward 3 0 false stanzas).1.sent =
      [⟨0, "a", .send ⟨"<a/>"⟩⟩, ⟨0, "a", .send ⟨"<b/>"⟩⟩] ∧
    ((polled.forward 3 0 false stanzas).1.session? 0).map Session.closed = some true := by
  intro t stanzas
  have hgone : (t.session.accept ((Exchange.fresh 0 2 false).after [.leave]) false 0).answer =
      .error (.consumed 2) := by decide
  have hrefused : (polled.forward 3 0 false []).2 = .error .pollingTooFrequent := by decide
  have hadmitted : (polled.forward 3 0 false stanzas).2 = .ok 2 := by decide
  obtain ⟨s, hs⟩ : ∃ s, polled.session? 0 = some s := ⟨_, rfl⟩
  obtain ⟨hstage, hhub⟩ := refusals_leave_no_trace
  obtain ⟨y, hy⟩ := (hstage Nat ⟨"a"⟩ {} .recorded [(0, 7)] 1 [.deed (.deliver ⟨"<a/>"⟩)] false 0
    _).2 2 false [.leave] hgone
  have hforward := (hhub polled ⟨_, _, _, _, _, rfl⟩ 0 s hs).2 3 false
  obtain ⟨z, -, hz⟩ := (hforward []).1 _ hrefused
  have hsent := (hforward stanzas).2 2 hadmitted
  refine ⟨hgone, by rw [hy]; rfl, hrefused, by rw [hz]; rfl, hadmitted, ?_, by decide⟩
  obtain rfl := Option.some.inj (show some _ = some s from hs)
  exact hsent

end HttpBinding.Hub
