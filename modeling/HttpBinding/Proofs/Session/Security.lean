import HttpBinding.Proofs.Session.Admitting

/-!
# HttpBinding.Proofs.Session.Security

A session that began on a secure channel has to do with secure exchanges only.

The channel of an exchange is checked in one place, when the exchange is brought in: after it was
noted that the client polled, and before the exchange is bound, the queue is cleared of those who
left, or the buffer is carried away. So an exchange that fails the check leaves no trace in the
session but the time of a poll (`accept_insecure`).

`Guarded` is the invariant of a run: what is held is secure, and so is everything that was let go,
apart from exchanges to which nothing was done but to let go of them (`TurnedAway`).
-/

namespace HttpBinding

namespace Session

variable {ο : Type} {s : Session ο} {x : Exchange}

/-! ### The check -/

/-- Over an open channel, an open session that began on a secure one refuses everything. -/
theorem accept_insecure (hopen : s.closed = false) (hsecure : s.terms.secure = true)
    (hx : x.secure = false) (poll : Bool) (now : Nat) :
    s.accept x poll now =
      { answer := .error
          (if poll && s.pollsTooEarly now then .pollingTooFrequent else .insecureConnection)
        session := { s with lastPoll := s.polledAt poll now }
        released := [x.drop] } := by
  cases hpoll : poll && s.pollsTooEarly now with
  | true => exact accept_of_tooEarly hopen hpoll
  | false =>
      have hstill : ¬s.closed = true := by simp [hopen]
      simp only [accept, if_neg hstill, hpoll, hsecure, hx, Bool.not_false, Bool.and_self,
        Bool.false_eq_true, if_false, if_true]
      cases poll <;> rfl

/-- The exchange is turned away because of its channel. The fault is a broken rule; the session has
to end because of it only if the exchange came to poll, and too early. Nothing else happens but that
a poll is noted. -/
structure TurnsAway (s : Session ο) (x : Exchange) (poll : Bool) (now : Nat)
    (r : Report ο (Except Fault Unit)) : Prop where
  answer : ∃ fault, r.answer = .error fault ∧ fault.isPolicy = true ∧
    if poll && s.pollsTooEarly now then fault = .pollingTooFrequent
    else fault = .insecureConnection ∧ fault.endsSession = false
  session : r.session = { s with lastPoll := s.polledAt poll now }
  events : r.events = []
  released : r.released = [x.drop]
  failedOver : r.failedOver = []

theorem turnsAway_accept (hopen : s.closed = false) (hsecure : s.terms.secure = true)
    (hx : x.secure = false) (poll : Bool) (now : Nat) :
    s.TurnsAway x poll now (s.accept x poll now) := by
  rw [accept_insecure hopen hsecure hx]
  refine ⟨⟨_, rfl, ?_, ?_⟩, rfl, rfl, rfl, rfl⟩
  · split <;> rfl
  · split
    · rfl
    · exact ⟨rfl, rfl⟩

/-- An ended session refuses everything as well, so what comes over an open channel is let go in any
case, and without a poll the session stays as it is. -/
theorem accept_insecure_eq (hsecure : s.terms.secure = true) (hx : x.secure = false)
    (poll : Bool) (now : Nat) :
    ∃ fault lastPoll, s.accept x poll now =
        { answer := .error fault, session := { s with lastPoll }, released := [x.drop] } ∧
      (poll = false → lastPoll = s.lastPoll) := by
  by_cases hc : s.closed = true
  · exact ⟨_, s.lastPoll, accept_of_closed hc x poll now, fun _ => rfl⟩
  · have hopen : s.closed = false := by simpa using hc
    refine ⟨_, _, accept_insecure hopen hsecure hx poll now, fun hpoll => ?_⟩
    rw [hpoll]
    rfl

/-- No session refuses a secure exchange because of its channel. -/
theorem accept_secure_ne (s : Session ο) (hx : x.secure = true) (poll : Bool) (now : Nat) :
    (s.accept x poll now).answer ≠ .error .insecureConnection := by
  by_cases hc : s.closed = true
  · rw [accept_of_closed hc]
    simp [Fault.insecureConnection]
  · have hopen : s.closed = false := by simpa using hc
    cases hpoll : poll && s.pollsTooEarly now with
    | true =>
        rw [accept_of_tooEarly hopen hpoll]
        simp [Fault.insecureConnection, Fault.pollingTooFrequent]
    | false =>
        -- whatever the session is, the check of the channel is passed
        rw [accept_of_passed hopen hpoll (by simp [hx])]
        rcases enrol_cases { s with lastPoll := s.polledAt poll now } x with
          ⟨-, heq⟩ | ⟨-, -, heq⟩ | ⟨-, -, heq⟩ <;> rw [heq]
        · simp
        · simp
        · simp [Fault.insecureConnection]

/-- What an operation holds or lets go of is secure if it could get at secure exchanges only. -/
theorem secure_of_serves {α : Type} {before : List Exchange} {r : Report ο α}
    (hserves : r.Serves before) (hbefore : ∀ x ∈ before, x.secure = true) :
    ∀ y ∈ r.session.held ++ r.released, y.secure = true := by
  intro y hy
  obtain ⟨x, hx, hserved⟩ := hserves y hy
  exact hserved.secure.trans (hbefore x hx)

end Session

namespace Stage

variable {ο : Type} {beats past : List (Beat ο)} {t : Stage ο} {x y : Exchange}

/-! ### Exchanges that were turned away -/

/-- One of the beats has brought the exchange in over an open channel, and all that was done to it
since is that the session has let go of it, and that its requester may have left. -/
def TurnedAway (beats : List (Beat ο)) (y : Exchange) : Prop :=
  ∃ rid past poll now departures, .deed (.enter rid false past poll now) ∈ beats ∧
    y = (Exchange.fresh y.key rid false).after
      (past ++ .drop :: List.replicate departures .depart)

theorem TurnedAway.mono (h : TurnedAway beats y) {more : List (Beat ο)}
    (hsub : ∀ b ∈ beats, b ∈ more) : TurnedAway more y := by
  obtain ⟨rid, past, poll, now, departures, hmem, heq⟩ := h
  exact ⟨rid, past, poll, now, departures, hsub _ hmem, heq⟩

/-- The session lets go of an exchange that it refuses. -/
theorem turnedAway_drop {key rid now : Nat} {acts : List Exchange.Act} {poll : Bool}
    (hmem : .deed (.enter rid false acts poll now) ∈ beats) :
    TurnedAway beats ((Exchange.fresh key rid false).after acts).drop := by
  refine ⟨rid, acts, poll, now, 0, hmem, ?_⟩
  have hkey : ((Exchange.fresh key rid false).after acts).drop.key = key :=
    (Exchange.fresh key rid false).key_after acts
  rw [hkey, Exchange.after_append]
  rfl

theorem TurnedAway.depart (h : TurnedAway beats y) : TurnedAway beats y.depart := by
  obtain ⟨rid, past, poll, now, departures, hmem, heq⟩ := h
  refine ⟨rid, past, poll, now, departures + 1, hmem, ?_⟩
  rw [List.replicate_succ', ← List.cons_append, ← List.append_assoc, Exchange.after_append]
  exact congrArg Exchange.depart heq

/-! ### The invariant -/

/-- The session began on a secure channel, and after the beats `past` it has kept to that. -/
structure Guarded (past : List (Beat ο)) (t : Stage ο) : Prop where
  terms : t.session.terms.secure = true
  held : ∀ x ∈ t.session.held, x.secure = true
  released : ∀ y ∈ t.released, y.secure = true ∨ TurnedAway past y

theorem Guarded.later (h : t.Guarded past) (b : Beat ο) : t.Guarded (past ++ [b]) :=
  ⟨h.terms, h.held, fun y hy => (h.released y hy).imp_right fun haway =>
    haway.mono fun _ hb => List.mem_append_left _ hb⟩

/-- An operation that could get at secure exchanges only lets go of secure exchanges only. -/
theorem Guarded.absorb {α : Type} (h : t.Guarded past) {r : Report ο α}
    {before : List Exchange} (hserves : r.Serves before)
    (hbefore : ∀ x ∈ before, x.secure = true) (hterms : r.session.terms = t.session.terms)
    (discharged : List ο) : (t.absorb r discharged).Guarded past := by
  have hall := Session.secure_of_serves hserves hbefore
  refine ⟨?_, fun y hy => hall y (List.mem_append_left _ hy), fun y hy => ?_⟩
  · show r.session.terms.secure = true
    rw [hterms]
    exact h.terms
  · rcases List.mem_append.mp hy with hy | hy
    · exact h.released y hy
    · exact Or.inl (hall y (List.mem_append_right _ hy))

theorem Guarded.enter (h : t.Guarded past) (rid : Nat) (secure : Bool)
    (acts : List Exchange.Act) (poll : Bool) (now : Nat) :
    (t.perform (.enter rid secure acts poll now)).Guarded
      (past ++ [.deed (.enter rid secure acts poll now)]) := by
  obtain ⟨x, hx⟩ : ∃ x, x = (Exchange.fresh t.entered rid secure).after acts := ⟨_, rfl⟩
  have hchannel : x.secure = secure := by rw [hx, Exchange.secure_after]; rfl
  cases secure with
  | true =>
      have hbefore : ∀ y ∈ t.session.held ++ [x], y.secure = true := by
        intro y hy
        rcases List.mem_append.mp hy with hy | hy
        · exact h.held y hy
        · obtain rfl := List.mem_singleton.mp hy
          exact hchannel
      have hdone := (h.absorb (t.session.serves_accept x poll now) hbefore
        (t.session.fits_accept x poll now).terms []).later (.deed (.enter rid true acts poll now))
      rw [hx] at hdone
      exact ⟨hdone.terms, hdone.held, hdone.released⟩
  | false =>
      obtain ⟨fault, lastPoll, heq, -⟩ := Session.accept_insecure_eq h.terms hchannel poll now
      rw [hx] at heq
      have hlater := h.later (.deed (.enter rid false acts poll now))
      have hmem : .deed (.enter rid false acts poll now) ∈
          past ++ [.deed (.enter rid false acts poll now)] := by simp
      refine ⟨?_, ?_, fun y hy => ?_⟩
      · simp only [perform, heq]
        exact h.terms
      · simp only [perform, heq]
        exact h.held
      · simp only [perform, heq] at hy
        rcases List.mem_append.mp hy with hy | hy
        · exact hlater.released y hy
        · obtain rfl := List.mem_singleton.mp hy
          exact Or.inr (turnedAway_drop hmem)

theorem Guarded.depart (h : t.Guarded past) (key : Nat) : (t.depart key).Guarded past := by
  refine ⟨h.terms, fun y hy => ?_, fun y hy => ?_⟩
  · obtain ⟨x, hx, rfl⟩ := List.mem_map.mp hy
    split <;> exact h.held x hx
  · obtain ⟨x, hx, rfl⟩ := List.mem_map.mp hy
    split
    · exact (h.released x hx).imp_right TurnedAway.depart
    · exact h.released x hx

theorem Guarded.perform (h : t.Guarded past) (d : Session.Deed ο) :
    (t.perform d).Guarded (past ++ [.deed d]) := by
  cases d with
  | enter rid secure acts poll now => exact h.enter rid secure acts poll now
  | deliver stanza =>
      exact (h.absorb (t.session.serves_deliver stanza) h.held
        (t.session.fits_deliver stanza).terms []).later _
  | release =>
      exact (h.absorb t.session.serves_release h.held t.session.fits_release.terms []).later _
  | close shutdown =>
      exact (h.absorb (t.session.serves_close shutdown) h.held
        (t.terms_perform (.close shutdown)) _).later _
  | depart key => exact (h.depart key).later _
  | observe o | unobserve ticket =>
      refine Guarded.later ?_ _
      exact ⟨h.terms, h.held, h.released⟩

theorem Guarded.step (h : t.Guarded past) (b : Beat ο) : (t.step b).Guarded (past ++ [b]) := by
  cases b with
  | call =>
      have hcalled : t.call.Guarded past := by
        refine ⟨?_, ?_, ?_⟩
        · rw [session_call]
          exact h.terms
        · rw [session_call]
          exact h.held
        · rw [released_call]
          exact h.released
      exact hcalled.later _
  | deed d =>
      simp only [Stage.step]
      split
      · exact h.later _
      · exact h.perform d

/-- A session that began on a secure channel keeps to it in every run. -/
theorem Guarded.play (h : t.Guarded past) (beats : List (Beat ο)) :
    (t.play beats).Guarded (past ++ beats) :=
  play_past_induction (P := fun past t => t.Guarded past) (fun _ _ b ht => ht.step b) h beats

theorem guarded_start (id : StreamId) {terms : Terms} (hsecure : terms.secure = true)
    (sink : Sink) (observers : List (Nat × ο)) (nextTicket : Nat) :
    (start id terms sink observers nextTicket).Guarded [] :=
  ⟨hsecure, by simp [start], by simp [start]⟩

end Stage

end HttpBinding
