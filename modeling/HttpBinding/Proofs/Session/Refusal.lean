import HttpBinding.Proofs.Session.Log
import HttpBinding.Proofs.Session.Security

/-!
# HttpBinding.Proofs.Session.Refusal

A request that is refused leaves no trace in the session but the time of a poll.

There are four ways for a request to be refused, and three of them are checks that come before
anything is done (`accept_of_closed`, `accept_of_tooEarly`, `accept_insecure`). In the fourth way
the buffer has to be carried away and the requester is gone. By then the queue was cleared of those
who left, and nothing in the definition says that this changes nothing: it is the invariant that
tells us, since a session that buffers something holds nothing (`Sound.enrol_of_consumed`).
-/

namespace HttpBinding

/-- `y` is what `x` is after its server half was let go of without an answer. -/
structure Exchange.Dismissed (x y : Exchange) : Prop where
  served : x.Served y
  used : y.hasSender = false
  mailbox : y.mailbox = x.mailbox

theorem Exchange.dismissed_drop (x : Exchange) : x.Dismissed x.drop :=
  ⟨x.served_drop, rfl, rfl⟩

namespace Session

variable {ο : Type} {s : Session ο} {x : Exchange}

/-- The session after it has refused a request. If it is open and the request is a poll, the poll is
noted; nothing else is different. -/
def refusing (s : Session ο) (poll : Bool) (now : Nat) : Session ο :=
  { s with lastPoll := if s.closed then s.lastPoll else s.polledAt poll now }

/-- A request is refused because of `fault`. Its exchange is let go of without an answer, nobody
hears of anything and nothing is handed on. -/
structure Refuses (s : Session ο) (x : Exchange) (poll : Bool) (now : Nat) (fault : Fault)
    (r : Report ο (Except Fault Unit)) : Prop where
  answer : r.answer = .error fault
  reason : fault = .sessionClosed s.id ∨ fault = .pollingTooFrequent ∨
    fault = .insecureConnection ∨ fault = .consumed x.rid ∧ x.isAnswerable = false
  session : r.session = s.refusing poll now
  events : r.events = []
  failedOver : r.failedOver = []
  released : ∃ y, r.released = [y] ∧ x.Dismissed y

/-- To find the requester gone when the buffer has to be carried away changes nothing. -/
theorem Sound.enrol_of_consumed (h : s.Sound) (hbuffer : s.buffer ≠ [])
    (hx : x.isAnswerable = false) (lastPoll : Option Nat) :
    { s with lastPoll }.enrol x =
      { answer := .error (.consumed x.rid)
        session := { s with lastPoll }
        released := [(x.bind s.id).spent.drop] } := by
  have hidle : s.held = [] := h.apart.resolve_left hbuffer
  have hshown : s.shown = ⟨0, s.closed⟩ := by rw [h.shown, hidle]; rfl
  rcases enrol_cases { s with lastPoll } x with ⟨hnone, -⟩ | ⟨-, ha, -⟩ | ⟨-, -, heq⟩
  · exact absurd hnone hbuffer
  · rw [hx] at ha
    cases ha
  · rw [heq]
    simp [hidle, hshown, waiting, abandoned, closures, Session.publish]

theorem refusing_of_open (hopen : s.closed = false) (poll : Bool) (now : Nat) :
    s.refusing poll now = { s with lastPoll := s.polledAt poll now } := by
  simp [refusing, hopen]

/-- Whenever a sound session refuses a request, that is all it does. -/
theorem Sound.refuses (h : s.Sound) {poll : Bool} {now : Nat} {fault : Fault}
    (hrefused : (s.accept x poll now).answer = .error fault) :
    s.Refuses x poll now fault (s.accept x poll now) := by
  cases hc : s.closed with
  | true =>
      have hsame : s = s.refusing poll now := by rw [refusing, if_pos hc]
      rw [accept_of_closed hc] at hrefused ⊢
      obtain rfl := Except.error.inj hrefused
      exact ⟨rfl, Or.inl rfl, hsame, rfl, rfl, x.drop, rfl, x.dismissed_drop⟩
  | false =>
      have hnoted := refusing_of_open hc poll now
      cases hpoll : poll && s.pollsTooEarly now with
      | true =>
          rw [accept_of_tooEarly hc hpoll] at hrefused ⊢
          obtain rfl := Except.error.inj hrefused
          exact ⟨rfl, Or.inr (Or.inl rfl), hnoted.symm, rfl, rfl, x.drop, rfl, x.dismissed_drop⟩
      | false =>
          cases hchannel : s.terms.secure && !x.secure with
          | true =>
              obtain ⟨hsecure, hx⟩ := Bool.and_eq_true_iff.mp hchannel
              have heq := accept_insecure hc hsecure (by simpa using hx) poll now
              rw [hpoll] at heq
              rw [heq] at hrefused ⊢
              obtain rfl := Except.error.inj hrefused
              exact ⟨rfl, Or.inr (Or.inr (Or.inl rfl)), hnoted.symm, rfl, rfl, x.drop, rfl,
                x.dismissed_drop⟩
          | false =>
              rw [accept_of_passed hc hpoll hchannel] at hrefused ⊢
              rcases enrol_cases { s with lastPoll := s.polledAt poll now } x with
                ⟨-, heq⟩ | ⟨-, -, heq⟩ | ⟨hbuffer, hx, -⟩
              · rw [heq] at hrefused
                cases hrefused
              · rw [heq] at hrefused
                cases hrefused
              · rw [h.enrol_of_consumed hbuffer hx] at hrefused ⊢
                obtain rfl := Except.error.inj hrefused
                have hserved := ((x.served_bind s.id).trans (Exchange.served_spent _)).trans
                  (Exchange.served_drop _)
                exact ⟨rfl, Or.inr (Or.inr (Or.inr ⟨rfl, hx⟩)), hnoted.symm, rfl, rfl,
                  (x.bind s.id).spent.drop, rfl, hserved, rfl, rfl⟩

end Session

namespace Stage

variable {ο : Type} {t : Stage ο}

/-- On a stage, a request that is refused leads to no call, and leaves behind its exchange and the
time of a poll. -/
theorem perform_enter_of_refused (hsound : t.session.Sound) {rid now : Nat} {secure poll : Bool}
    {past : List Exchange.Act} {fault : Fault}
    (hrefused : (t.session.accept ((Exchange.fresh t.entered rid secure).after past) poll
      now).answer = .error fault) :
    ∃ y, t.perform (.enter rid secure past poll now) =
      { t with
        session := t.session.refusing poll now
        entered := t.entered + 1
        released := t.released ++ [y] } := by
  have h := hsound.refuses hrefused
  obtain ⟨y, hy, -⟩ := h.released
  refine ⟨y, ?_⟩
  simp only [perform, absorb, hrefused, h.session, hy, calls_of_silent h.events, h.failedOver]
  rfl

end Stage

end HttpBinding
