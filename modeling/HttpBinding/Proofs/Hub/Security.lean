import HttpBinding.Proofs.Hub.Strokes
import HttpBinding.Proofs.Session.Omission

/-!
# HttpBinding.Proofs.Hub.Security

Secure channels, from the beginning of a session to its end.

A session takes over from the exchange that it begins with whether its channel is secure, and never
changes that (`create_terms`, `Unfolds.sessions`). From then on the session keeps to secure
exchanges whatever happens to it (`secure_channel_kept`).
-/

namespace HttpBinding

namespace Hub

variable {h : Hub}

/-- A session begins with the terms that the request asks for, and with the channel of the exchange
that it is answered on. -/
theorem create_terms (hf : h.Fit) {request : Request} {key k : Nat}
    (hok : (h.create request key).2 = .ok k) :
    ∃ s, (h.create request key).1.session? k = some s ∧
      s.terms = h.termsFor request ((h.exchange? key).any Exchange.secure) := by
  obtain ⟨h₁, hh₁⟩ : ∃ h₁, h₁ = h.serve key fun x => x.compress h.server.compression := ⟨_, rfl⟩
  have hf₁ : h₁.Fit := by
    rw [hh₁]
    exact (still_serve ..).fit hf
  simp only [Hub.create, ← hh₁] at hok ⊢
  cases hd : h₁.draw maxDraws h₁.drawn with
  | mk drawn id =>
      rw [hd] at hok
      cases id with
      | none => cases hok
      | some id =>
          have hcount : Still h₁ { h₁ with drawn } := .of_eq rfl rfl rfl rfl rfl rfl rfl rfl
          have hdrawn := hcount.fit hf₁
          have hfree : h₁.lookup id = none := lookup_of_draw hd
          have hfree' : { h₁ with drawn }.lookup id = none := hfree
          obtain ⟨h₂, s, hs, hterms, hborn, hbegun⟩ := unfolds_newborn hdrawn hfree'
            (h.termsFor request ((h.exchange? key).any Exchange.secure)) key
          obtain ⟨s', hs', hp⟩ := hbegun.sessions (hborn hdrawn).1 hs
          obtain rfl : h₁.sessions.length = k := by simpa using hok
          exact ⟨s', hs', hp.terms.trans hterms⟩

/-- Whether a session is secure is decided by the exchange that it begins with, for good. -/
theorem secure_of_create (settings : Settings) (server : Server) (sink : Sink)
    (ids : Nat → StreamId) (before after : List Stroke) (request : Request) {key k : Nat}
    {x : Exchange} :
    let h := (Script.withService settings server sink ids).strokes before
    h.exchange? key = some x → (h.create request key).2 = .ok k →
      ∃ s, ((h.create request key).1.strokes after).session? k = some s ∧
        s.terms.secure = x.secure := by
  intro h hx hok
  have hf : h.Fit := (unfolds_strokes _ before (fit_start settings server sink ids)).1
  obtain ⟨s, hs, hterms⟩ := create_terms hf hok
  have hcreated := (unfolds_create h request key hf).1
  obtain ⟨s', hs', hp⟩ := (unfolds_strokes _ after).sessions hcreated hs
  refine ⟨s', hs', ?_⟩
  rw [hp.terms, hterms, hx]
  rfl

end Hub

namespace Stage

variable {ο : Type}

/-- **A session that began on a secure channel keeps to secure channels.** In every run, everything
that it holds, and everything that it lets go of, is secure, but for exchanges that it turned away.
While it is open, it turns away whatever comes over an open channel, and it goes on. No session
turns away an exchange on a secure channel because of that. If the requests over open channels are
left out of the run, the same comes of all the rest. A session that a client begins takes over the
channel of the exchange that it begins with, and keeps it. -/
theorem secure_channel_kept (id : StreamId) (terms : Terms) (sink : Sink)
    (observers : List (Nat × ο)) (nextTicket : Nat) (hsecure : terms.secure = true)
    (beats : List (Beat ο)) :
    let began := start id terms sink observers nextTicket
    let t := began.play beats
    t.Guarded beats ∧
    (t.session.closed = false → ∀ (x : Exchange) (poll : Bool) (now : Nat), x.secure = false →
      t.session.TurnsAway x poll now (t.session.accept x poll now)) ∧
    (∀ (s : Session ο) (x : Exchange) (poll : Bool) (now : Nat), x.secure = true →
      (s.accept x poll now).answer ≠ .error .insecureConnection) ∧
    ((began.numbered beats).map Prod.snd = beats ∧ began.playAs (began.numbered beats) = t ∧
      began.SameWithout (began.numbered beats)) ∧
    (∀ (settings : Settings) (server : Server) (sink : Sink) (ids : Nat → StreamId)
      (before after : List Stroke) (request : Request) (key k : Nat) (x : Exchange),
      let h := (Script.withService settings server sink ids).strokes before
      h.exchange? key = some x → (h.create request key).2 = .ok k →
        ∃ s, ((h.create request key).1.strokes after).session? k = some s ∧
          s.terms.secure = x.secure) := by
  intro began t
  have hguarded : t.Guarded beats := (guarded_start id hsecure sink observers nextTicket).play beats
  refine ⟨hguarded, fun hopen x poll now hx => ?_, fun s x poll now hx => ?_, ⟨?_, ?_, ?_⟩, ?_⟩
  · exact Session.turnsAway_accept hopen hguarded.terms hx poll now
  · exact s.accept_secure_ne hx poll now
  · exact began.map_snd_numbered beats
  · exact began.playAs_numbered beats
  · exact sameWithout hsecure _
  · intro settings server sink ids before after request key k x
    exact Hub.secure_of_create settings server sink ids before after request

/-- A request over a secure channel, one over an open channel, and a stanza. -/
def threeBeats : List (Beat Nat) :=
  [.deed (.enter 1 true [] false 0), .deed (.enter 2 false [] false 0),
    .deed (.deliver ⟨"m"⟩)]

/-- The request over the open channel is turned away and can be left out. -/
theorem second_of_three_left_out :
    let began := start ⟨"a"⟩ { secure := true } .recorded [] 0
    ({ secure := true } : Terms).secure = true ∧
    (began.play threeBeats).Guarded threeBeats ∧
    (((began.numbered threeBeats).filter fun e => !e.2.isOpenRequest).map Prod.fst = [0, 2] ∧
      began.SameWithout (began.numbered threeBeats)) := by
  have hkept := secure_channel_kept ⟨"a"⟩ { secure := true } .recorded [] 0 rfl threeBeats
  exact ⟨rfl, hkept.1, rfl, hkept.2.2.2.1.2.2⟩

end Stage

end HttpBinding
