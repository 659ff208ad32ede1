import HttpBinding.Proofs.Session.Operations

/-!
# HttpBinding.Proofs.Session.Sound

The invariant of a session, and what the reports of its operations have in common.

`Sound` is what is true of every session between two operations: stanzas are buffered only while
nothing is held, the bound is kept, what observers see is the truth, and an ended session is
empty. `Report.Fits` sums up what telling observers and keeping time rely on, above all how the
events of a report go together with the number of exchanges held before and after: a report
without events leaves that number as it was, and of the others the last event says which way a
countdown has to be set.
-/

namespace HttpBinding

/-- A bound that is kept leaves room for one exchange. -/
theorem Terms.bound_pos {t : Terms} {b : Nat} (hb : t.bound = some b) : 0 < b := by
  simp only [Terms.bound, Option.filter_eq_some_iff, decide_eq_true_eq] at hb
  exact hb.2

namespace Session

variable {ο : Type}

/-- What is true of every session between two operations. -/
structure Sound (s : Session ο) : Prop where
  /-- Stanzas wait only while no exchange does. -/
  apart : s.buffer = [] ∨ s.held = []
  bounded : ∀ b, s.terms.bound = some b → s.held.length ≤ b
  shown : s.shown = ⟨s.held.length, s.closed⟩
  ended : s.closed = true → s.held = [] ∧ s.buffer = []

/-- A session that has just begun is sound. -/
theorem sound_new (id : StreamId) (terms : Terms) (sink : Sink) :
    ({ id, terms, sink } : Session ο).Sound :=
  ⟨Or.inl rfl, fun _ _ => Nat.zero_le _, rfl, fun _ => ⟨rfl, rfl⟩⟩

/-- Requesters come and go without touching anything but the exchanges themselves. -/
theorem Sound.map_held {s : Session ο} (h : s.Sound) (f : Exchange → Exchange) :
    ({ s with held := s.held.map f } : Session ο).Sound := by
  refine ⟨?_, fun b hb => ?_, ?_, fun hc => ?_⟩
  · rcases h.apart with hb | hh
    · exact Or.inl hb
    · exact Or.inr (by simp [hh])
  · simpa using h.bounded b hb
  · simpa using h.shown
  · obtain ⟨hh, hb⟩ := h.ended hc
    exact ⟨by simp [hh], hb⟩

/-- Nothing of the invariant speaks of observers or polls. -/
theorem Sound.of_eq {s t : Session ο} (h : s.Sound) (hterms : t.terms = s.terms)
    (hheld : t.held = s.held) (hbuffer : t.buffer = s.buffer) (hclosed : t.closed = s.closed)
    (hshown : t.shown = s.shown) : t.Sound := by
  refine ⟨?_, ?_, ?_, ?_⟩
  · rw [hbuffer, hheld]; exact h.apart
  · rw [hterms, hheld]; exact h.bounded
  · rw [hshown, hheld, hclosed]; exact h.shown
  · rw [hclosed, hheld, hbuffer]; exact h.ended

/-- To publish the number held is enough to keep observers informed. -/
theorem Sound.publish {s t : Session ο} (h : s.Sound) (hopen : s.closed = false)
    (hclosed : t.closed = s.closed) (hshown : t.shown = s.shown)
    (hapart : t.buffer = [] ∨ t.held = [])
    (hbounded : ∀ b, t.terms.bound = some b → t.held.length ≤ b) : t.publish.Sound := by
  have hend : s.shown.closed = s.closed := by rw [h.shown]
  refine ⟨hapart, hbounded, ?_, fun hc => ?_⟩
  · simp [Session.publish, hshown, hend, hclosed]
  · rw [publish_closed, hclosed, hopen] at hc
    cases hc

/-- A queue from which only some were taken away keeps the bound. -/
theorem Sound.bounded_of_le {s : Session ο} (h : s.Sound) {held : List Exchange}
    (hle : held.length ≤ s.held.length) :
    ∀ b, s.terms.bound = some b → held.length ≤ b :=
  fun b hb => Nat.le_trans hle (h.bounded b hb)

theorem length_waiting_le (held : List Exchange) : (waiting held).length ≤ held.length :=
  List.length_filter_le ..

/-- One exchange more fits under the bound once the excess has gone. -/
theorem length_enrolled_le {t : Terms} {b : Nat} (hb : t.bound = some b)
    (held : List Exchange) (x : Exchange) :
    (held.drop (excess t.bound held) ++ [x]).length ≤ b := by
  have hpos := Terms.bound_pos hb
  simp only [excess, hb, List.length_append, List.length_drop, List.length_singleton]
  omega

theorem Sound.enrol {s : Session ο} (h : s.Sound) (hopen : s.closed = false) (x : Exchange) :
    (s.enrol x).session.Sound := by
  have hwait := h.bounded_of_le (length_waiting_le s.held)
  rcases enrol_cases s x with ⟨hb, heq⟩ | ⟨hb, -, heq⟩ | ⟨hb, -, heq⟩ <;> rw [heq]
  · exact h.publish hopen rfl rfl (Or.inl hb) fun b hb => length_enrolled_le hb ..
  · exact h.publish hopen rfl rfl (Or.inl rfl) hwait
  · refine h.publish hopen rfl rfl (Or.inr ?_) hwait
    show waiting s.held = []
    rw [h.apart.resolve_left hb]
    rfl

theorem Sound.accept {s : Session ο} (h : s.Sound) (x : Exchange) (poll : Bool) (now : Nat) :
    (s.accept x poll now).session.Sound := by
  rcases accept_cases s x poll now with ⟨fault, p, heq⟩ | ⟨hopen, p, heq⟩ <;> rw [heq]
  · exact h.of_eq rfl rfl rfl rfl rfl
  · exact Sound.enrol (s := { s with lastPoll := p }) (h.of_eq rfl rfl rfl rfl rfl) hopen x

theorem Sound.deliver {s : Session ο} (h : s.Sound) (stanza : Stanza) :
    (s.deliver stanza).session.Sound := by
  rcases deliver_cases s stanza with
    ⟨-, heq⟩ | ⟨hopen, pre, x, post, hheld, -, -, heq⟩ | ⟨hopen, -, heq⟩ <;> rw [heq]
  · exact h
  · refine h.publish hopen rfl rfl (Or.inl ?_) (h.bounded_of_le ?_)
    · exact h.apart.resolve_right (by simp [hheld])
    · simp only [hheld, List.length_append, List.length_cons]
      omega
  · exact h.publish hopen rfl rfl (Or.inr rfl) fun _ _ => Nat.zero_le _

theorem Sound.release {s : Session ο} (h : s.Sound) : s.release.session.Sound := by
  rcases release_cases s with ⟨-, heq⟩ | ⟨hopen, heq⟩ <;> rw [heq]
  · exact h
  · refine h.publish hopen rfl rfl ?_ (h.bounded_of_le (length_waiting_le s.held))
    rcases h.apart with hb | hh
    · exact Or.inl hb
    · exact Or.inr (by simp [waiting, hh])

theorem Sound.close {s : Session ο} (h : s.Sound) (shutdown : Bool) :
    (s.close shutdown).session.Sound := by
  rcases close_cases s shutdown with ⟨-, heq⟩ | ⟨-, heq⟩ <;> rw [heq]
  · exact h
  · exact ⟨Or.inl rfl, fun _ _ => Nat.zero_le _, rfl, fun _ => ⟨rfl, rfl⟩⟩

/-- There is nothing left to give up in an ended session. -/
theorem Sound.giveUp_of_closed {s : Session ο} (h : s.Sound) (hc : s.closed = true) :
    s.giveUp = { answer := (), session := s } := by
  obtain ⟨hheld, hbuffer⟩ := h.ended hc
  have hshown := h.shown
  rw [hheld, hc] at hshown
  cases s
  simp_all [Session.giveUp, Session.publish]

end Session

/-! ### Reports -/

variable {ο α : Type}

/-- What the report of an operation on an open or ended session has to do with that session. -/
structure Report.Fits (s : Session ο) (r : Report ο α) : Prop where
  id : r.session.id = s.id
  terms : r.session.terms = s.terms
  closed : r.session.closed = s.closed
  observers : r.session.observers = s.observers
  nextTicket : r.session.nextTicket = s.nextTicket
  /-- Nothing is reported of an ended session. -/
  silent : s.closed = true → r.events = []
  /-- Without events the number held is what it was. -/
  quiet : r.events = [] → r.session.held.length = s.held.length
  /-- If something happened and nothing is held, the last event is a closure. -/
  idle : r.events ≠ [] → r.session.held = [] → ∃ es rid, r.events = es ++ [.closed rid]
  /-- If something is held, then something was held before or the last event is an opening. -/
  busy : r.session.held ≠ [] → s.held ≠ [] ∨ ∃ es rid, r.events = es ++ [.opened rid]

namespace Session

theorem waiting_ne_nil {held : List Exchange} (h : waiting held ≠ []) : held ≠ [] := by
  intro heq
  subst heq
  exact h rfl

theorem fits_enrol {s : Session ο} (hopen : s.closed = false) (x : Exchange) :
    (s.enrol x).Fits s := by
  have hsilent : ∀ es : List Event, s.closed = true → es = [] := by simp [hopen]
  rcases enrol_cases s x with ⟨-, heq⟩ | ⟨-, -, heq⟩ | ⟨-, -, heq⟩ <;> rw [heq]
  · refine ⟨rfl, rfl, rfl, rfl, rfl, hsilent _, fun h => ?_, fun _ h => ?_, fun _ => ?_⟩
    · simp at h
    · simp at h
    · exact Or.inr ⟨_, _, rfl⟩
  · refine ⟨rfl, rfl, rfl, rfl, rfl, hsilent _, fun h => ?_, fun _ _ => ?_, fun h => ?_⟩
    · simp at h
    · exact ⟨closures (abandoned s.held) ++ [.opened x.rid], x.rid, by simp⟩
    · exact Or.inl (waiting_ne_nil h)
  · refine ⟨rfl, rfl, rfl, rfl, rfl, hsilent _, fun h => ?_, fun h _ => ?_, fun h => ?_⟩
    · exact length_waiting_of_abandoned_nil (closures_eq_nil.mp h)
    · exact closures_eq_append fun hnil => h (closures_eq_nil.mpr hnil)
    · exact Or.inl (waiting_ne_nil h)

theorem fits_accept (s : Session ο) (x : Exchange) (poll : Bool) (now : Nat) :
    (s.accept x poll now).Fits s := by
  rcases accept_cases s x poll now with ⟨fault, p, heq⟩ | ⟨hopen, p, heq⟩ <;> rw [heq]
  · exact ⟨rfl, rfl, rfl, rfl, rfl, fun _ => rfl, fun _ => rfl, fun h => absurd rfl h, Or.inl⟩
  · have hfits := fits_enrol (s := { s with lastPoll := p }) hopen x
    exact ⟨hfits.id, hfits.terms, hfits.closed, hfits.observers, hfits.nextTicket, hfits.silent,
      hfits.quiet, hfits.idle, hfits.busy⟩

theorem fits_deliver (s : Session ο) (stanza : Stanza) : (s.deliver stanza).Fits s := by
  rcases deliver_cases s stanza with
    ⟨-, heq⟩ | ⟨hopen, pre, x, post, hheld, -, -, heq⟩ | ⟨hopen, -, heq⟩ <;> rw [heq]
  · exact ⟨rfl, rfl, rfl, rfl, rfl, fun _ => rfl, fun _ => rfl, fun h => absurd rfl h, Or.inl⟩
  · refine ⟨rfl, rfl, rfl, rfl, rfl, by simp [hopen], fun h => ?_, fun _ _ => ?_, fun _ => ?_⟩
    · simp at h
    · exact closures_eq_append (by simp)
    · exact Or.inl (by simp [hheld])
  · refine ⟨rfl, rfl, rfl, rfl, rfl, by simp [hopen], fun h => ?_, fun h _ => ?_, fun h => ?_⟩
    · have hnil : s.held = [] := by simpa using h
      simp [hnil]
    · exact closures_eq_append fun hnil => h (closures_eq_nil.mpr hnil)
    · exact absurd rfl h

theorem fits_release (s : Session ο) : s.release.Fits s := by
  rcases release_cases s with ⟨-, heq⟩ | ⟨hopen, heq⟩ <;> rw [heq]
  · exact ⟨rfl, rfl, rfl, rfl, rfl, fun _ => rfl, fun _ => rfl, fun h => absurd rfl h, Or.inl⟩
  · refine ⟨rfl, rfl, rfl, rfl, rfl, by simp [hopen], fun h => ?_, fun h _ => ?_, fun h => ?_⟩
    · exact length_waiting_of_abandoned_nil (closures_eq_nil.mp h)
    · exact closures_eq_append fun hnil => h (closures_eq_nil.mpr hnil)
    · exact Or.inl (waiting_ne_nil h)

/-- Whoever is admitted, the observers hear of it. -/
theorem loud_of_accept_ok {s : Session ο} {x : Exchange} {poll : Bool} {now : Nat}
    (hok : (s.accept x poll now).answer = .ok ()) :
    s.closed = false ∧ (s.accept x poll now).events ≠ [] := by
  rcases accept_cases s x poll now with ⟨fault, p, heq⟩ | ⟨hopen, p, heq⟩
  · simp [heq] at hok
  · refine ⟨hopen, ?_⟩
    rw [heq] at hok ⊢
    rcases enrol_cases { s with lastPoll := p } x with ⟨-, heq⟩ | ⟨-, -, heq⟩ | ⟨-, -, heq⟩
    · simp [heq]
    · simp [heq]
    · simp [heq] at hok

/-- While nothing is held, there is nobody to let go of. -/
theorem events_release_of_idle (s : Session ο) (h : s.held = []) : s.release.events = [] := by
  rcases release_cases s with ⟨-, heq⟩ | ⟨-, heq⟩
  · simp [heq]
  · simp [heq, abandoned, h]

/-- While nothing is held, a delivery has nothing to report, and nothing is held after it. -/
theorem deliver_of_idle {s : Session ο} (h : s.held = []) (stanza : Stanza) :
    (s.deliver stanza).events = [] ∧ (s.deliver stanza).released = [] ∧
      (s.deliver stanza).session.held = [] := by
  rcases deliver_cases s stanza with
    ⟨-, heq⟩ | ⟨-, pre, x, post, hheld, -, -, heq⟩ | ⟨-, -, heq⟩
  · simp [heq, h]
  · simp [hheld] at h
  · simp [heq, h]

end Session

end HttpBinding
