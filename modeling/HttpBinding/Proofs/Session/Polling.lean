import HttpBinding.Proofs.Session.Log
import HttpBinding.Proofs.Session.Security

/-!
# HttpBinding.Proofs.Session.Polling

How often a client may poll.

A session keeps one time, that of the latest poll, and a poll that follows it too closely is
refused. What this comes to over a whole run is said here without that field: `Stage.polls` lists
the times at which an open session was polled, whatever came of the polls, and the latest of them
decides (`polls_limited`). Design points:

* A poll counts when it gets to the session. One that has to wait because the session is busy does
  not get there, and an ended session takes no notice of polls.
* The time is noted before anything else can go wrong with the request, so it does not matter
  whether the poll was granted, came too early itself, came over the wrong channel, or found its
  requester gone (`lastPoll_accept`).
-/

namespace HttpBinding

/-- The time at which an exchange is brought in. -/
def Beat.time? {ο : Type} : Beat ο → Option Nat
  | .deed (.enter _ _ _ _ now) => some now
  | _ => none

/-- Somebody polls. -/
def Beat.isPoll {ο : Type} : Beat ο → Bool
  | .deed (.enter _ _ _ poll _) => poll
  | _ => false

namespace Session

variable {ο : Type} {s : Session ο} {x : Exchange}

/-! ### One admission -/

theorem lastPoll_enrol (s : Session ο) (x : Exchange) :
    (s.enrol x).session.lastPoll = s.lastPoll := by
  rcases enrol_cases s x with ⟨-, heq⟩ | ⟨-, -, heq⟩ | ⟨-, -, heq⟩ <;> rw [heq] <;> rfl

/-- What becomes of a request to an open session is decided by three checks: whether it polls too
early, whether its channel will do, and whether its requester is still there if it is needed. -/
theorem accept_by_checks (hopen : s.closed = false) (x : Exchange) (poll : Bool) (now : Nat) :
    (s.accept x poll now).session.lastPoll = s.polledAt poll now ∧
    if poll && s.pollsTooEarly now then
      (s.accept x poll now).answer = .error .pollingTooFrequent
    else if s.terms.secure && !x.secure then
      (s.accept x poll now).answer = .error .insecureConnection
    else (s.accept x poll now).answer = .ok () ∨
      (s.accept x poll now).answer = .error (.consumed x.rid) := by
  cases hpoll : poll && s.pollsTooEarly now with
  | true =>
      rw [accept_of_tooEarly hopen hpoll]
      exact ⟨rfl, rfl⟩
  | false =>
      cases hchannel : s.terms.secure && !x.secure with
      | true =>
          obtain ⟨hsecure, hx⟩ := Bool.and_eq_true_iff.mp hchannel
          rw [accept_insecure hopen hsecure (by simpa using hx), hpoll]
          exact ⟨rfl, rfl⟩
      | false =>
          rw [accept_of_passed hopen hpoll hchannel]
          refine ⟨lastPoll_enrol .., ?_⟩
          rcases enrol_cases { s with lastPoll := s.polledAt poll now } x with
            ⟨-, heq⟩ | ⟨-, -, heq⟩ | ⟨-, -, heq⟩ <;> rw [heq]
          · exact Or.inl rfl
          · exact Or.inl rfl
          · exact Or.inr rfl

/-- A refusal for which the session need not end is not because of polling. -/
theorem mild_refusal {answer : Except Fault Unit} {mild : Fault}
    (hmild : mild.endsSession = false) (hanswer : answer = .error mild) :
    answer ≠ .error .pollingTooFrequent ∧
      ∀ fault, answer = .error fault →
        (fault.endsSession = true ↔ fault = .pollingTooFrequent) := by
  have hne : mild ≠ .pollingTooFrequent := by
    rintro rfl
    cases hmild
  rw [hanswer]
  refine ⟨fun heq => hne (Except.error.inj heq), fun fault hfault => ?_⟩
  obtain rfl := Except.error.inj hfault
  exact iff_of_false (by simp [hmild]) hne

/-- The session refuses a request because polls follow each other too closely. -/
def RefusesPoll (s : Session ο) (x : Exchange) (poll : Bool) (now : Nat) : Prop :=
  (s.accept x poll now).answer = .error .pollingTooFrequent

/-- A request is refused because of polling exactly if it is a poll of an open session that comes
too early, and this is the only refusal for which a session has to end. -/
theorem refusesPoll_iff (s : Session ο) (x : Exchange) (poll : Bool) (now : Nat) :
    (s.RefusesPoll x poll now ↔
      s.closed = false ∧ poll = true ∧ s.pollsTooEarly now = true) ∧
    ∀ fault, (s.accept x poll now).answer = .error fault →
      (fault.endsSession = true ↔ fault = .pollingTooFrequent) := by
  unfold RefusesPoll
  cases hc : s.closed with
  | true =>
      rw [accept_of_closed hc]
      simp [Fault.pollingTooFrequent, Fault.endsSession]
  | false =>
      have hchecks := (accept_by_checks hc x poll now).2
      split at hchecks
      · rename_i hpoll
        rw [hchecks]
        refine ⟨by simpa using hpoll, fun fault hfault => ?_⟩
        obtain rfl := Except.error.inj hfault
        exact iff_of_true rfl rfl
      · rename_i hpoll
        have hnever : ¬(poll = true ∧ s.pollsTooEarly now = true) := by simpa using hpoll
        split at hchecks
        · obtain ⟨hne, hends⟩ := mild_refusal rfl hchecks
          exact ⟨iff_of_false hne (by simpa using hnever), hends⟩
        · rcases hchecks with hok | hgone
          · rw [hok]
            simp [hnever]
          · obtain ⟨hne, hends⟩ := mild_refusal rfl hgone
            exact ⟨iff_of_false hne (by simpa using hnever), hends⟩

/-- With an interval of zero no time is too early. -/
theorem pollsTooEarly_of_zero (hzero : s.terms.pollingInterval = 0) (now : Nat) :
    s.pollsTooEarly now = false := by
  unfold pollsTooEarly
  cases s.lastPoll with
  | none => rfl
  | some previous => simp [hzero]

end Session

namespace Stage

variable {ο : Type} {t : Stage ο}

/-! ### The polls of a run -/

/-- The time at which an open session is polled by a beat, whatever comes of it. -/
def poll? (t : Stage ο) : Beat ο → Option Nat
  | .deed (.enter _ _ _ true now) =>
    if t.session.closed = true ∨ t.isBusy = true then none else some now
  | _ => none

/-- The times at which the session is polled while it is open, in the order of the run. -/
def polls (t : Stage ο) : List (Beat ο) → List Nat
  | [] => []
  | b :: beats => (t.poll? b).toList ++ (t.step b).polls beats

/-- The time that a session keeps is that of the latest poll. -/
theorem lastPoll_step (t : Stage ο) (b : Beat ο) :
    (t.step b).session.lastPoll = (t.poll? b).or t.session.lastPoll := by
  cases b with
  | call => rw [step, session_call]; rfl
  | deed d =>
      simp only [step]
      split
      · rename_i hdefers
        -- what has to wait is no poll yet
        have hnone : t.poll? (.deed d) = none := by
          unfold poll?
          split
          · rename_i heq
            cases heq
            exact if_pos (Or.inr hdefers)
          · rfl
        rw [hnone, Option.none_or]
      · rename_i hfree
        cases d with
        | enter rid secure past poll now =>
            have hidle : t.isBusy = false := by simpa [defers] using hfree
            simp only [perform, absorb]
            cases hc : t.session.closed with
            | true => cases poll <;> simp [Session.accept_of_closed hc, poll?, hc]
            | false =>
                rw [(Session.accept_by_checks hc _ poll now).1]
                cases poll <;> simp [poll?, hc, hidle, Session.polledAt]
        | deliver stanza =>
            simp only [perform, absorb, poll?, Option.none_or]
            rcases Session.deliver_cases t.session stanza with
              ⟨-, heq⟩ | ⟨-, pre, x, post, -, -, -, heq⟩ | ⟨-, -, heq⟩ <;> rw [heq] <;> rfl
        | release =>
            simp only [perform, absorb, poll?, Option.none_or]
            rcases Session.release_cases t.session with ⟨-, heq⟩ | ⟨-, heq⟩
            · rw [heq]
            · rw [heq]; rfl
        | close shutdown =>
            simp only [perform, absorb, poll?, Option.none_or]
            rcases Session.close_cases t.session shutdown with ⟨-, heq⟩ | ⟨-, heq⟩
            · rw [heq]
            · rw [heq]
        | depart | observe | unobserve => rfl

theorem lastPoll_play (t : Stage ο) (beats : List (Beat ο)) :
    (t.play beats).session.lastPoll = (t.polls beats).getLast?.or t.session.lastPoll := by
  induction beats generalizing t with
  | nil => rfl
  | cons b beats ih =>
      calc (t.play (b :: beats)).session.lastPoll
          = ((t.step b).play beats).session.lastPoll := rfl
        _ = ((t.step b).polls beats).getLast?.or ((t.poll? b).or t.session.lastPoll) := by
          rw [ih, lastPoll_step]
        _ = (t.polls (b :: beats)).getLast?.or t.session.lastPoll := by
          rw [polls, List.getLast?_append, Option.or_assoc]
          cases t.poll? b <;> rfl

/-- Only an exchange that is brought in can be a poll. -/
theorem polls_sublist_times (t : Stage ο) (beats : List (Beat ο)) :
    (t.polls beats).Sublist (beats.filterMap Beat.time?) := by
  induction beats generalizing t with
  | nil => exact List.Sublist.refl _
  | cons b beats ih =>
      have hfirst : (t.poll? b).toList.Sublist (Beat.time? b).toList := by
        unfold poll?
        split
        · split
          · exact List.nil_sublist _
          · exact List.Sublist.refl _
        · exact List.nil_sublist _
      have hsplit : (b :: beats).filterMap Beat.time? =
          (Beat.time? b).toList ++ beats.filterMap Beat.time? := by
        cases hb : Beat.time? b <;> simp [hb]
      rw [polls, hsplit]
      exact hfirst.append (ih (t.step b))

/-- Without polls the time is kept. -/
theorem polls_eq_nil {beats : List (Beat ο)} (hnone : ∀ b ∈ beats, b.isPoll = false)
    (t : Stage ο) : t.polls beats = [] := by
  induction beats generalizing t with
  | nil => rfl
  | cons b beats ih =>
      have hfirst : t.poll? b = none := by
        unfold poll?
        split
        · exact absurd (hnone _ List.mem_cons_self) (by simp [Beat.isPoll])
        · rfl
      rw [polls, hfirst, ih fun c hc => hnone c (List.mem_cons_of_mem b hc)]
      rfl

/-- The next poll is too early if the latest one is too close to it. -/
theorem pollsTooEarly_play (id : StreamId) (terms : Terms) (sink : Sink)
    (observers : List (Nat × ο)) (nextTicket : Nat) (beats : List (Beat ο)) {now : Nat}
    (hordered : (beats.filterMap Beat.time? ++ [now]).Pairwise (· ≤ ·)) :
    ((start id terms sink observers nextTicket).play beats).session.pollsTooEarly now = true ↔
      ∃ latest, ((start id terms sink observers nextTicket).polls beats).getLast? = some latest ∧
        now < latest + terms.pollingInterval := by
  have hterms := ((upright_start id terms sink observers nextTicket).play beats).agreed
  have hlast := (start id terms sink observers nextTicket).lastPoll_play beats
  have hsub := (start id terms sink observers nextTicket).polls_sublist_times beats
  generalize (start id terms sink observers nextTicket).polls beats = times at hlast hsub ⊢
  simp only [Session.pollsTooEarly, hterms, hlast]
  cases hp : times.getLast? with
  | none => simp [start]
  | some p =>
      have hle : p ≤ now := (List.pairwise_append.mp hordered).2.2 p
        (hsub.subset (List.mem_of_getLast? hp)) now (by simp)
      simp only [Option.some_or, decide_eq_true_eq, Option.some.injEq, exists_eq_left']
      omega

/-! ### What makes no difference to polls -/

theorem terms_play (t : Stage ο) (beats : List (Beat ο)) :
    (t.play beats).session.terms = t.session.terms := by
  refine play_induction (P := fun u => u.session.terms = t.session.terms) (fun u hu => ?_)
    (fun u d hu _ => (u.terms_perform d).trans hu) rfl beats
  rw [session_call]
  exact hu

theorem closed_play_of_closed (hc : t.session.closed = true) (beats : List (Beat ο)) :
    (t.play beats).session.closed = true := by
  refine play_induction (P := fun u => u.session.closed = true) (fun u hu => ?_)
    (fun u d hu _ => closed_perform_of_closed hu d) hc beats
  rw [session_call]
  exact hu

/-- While a session stays open, nothing but a poll makes a difference to the next one. -/
theorem refusesPoll_play_iff {later : List (Beat ο)} (hlater : ∀ b ∈ later, b.isPoll = false)
    (hopen : (t.play later).session.closed = false) (x : Exchange) (poll : Bool) (now : Nat) :
    (t.play later).session.RefusesPoll x poll now ↔ t.session.RefusesPoll x poll now := by
  have hstill : t.session.closed = false := by
    cases hc : t.session.closed with
    | false => rfl
    | true =>
        rw [closed_play_of_closed hc later] at hopen
        cases hopen
  have hlast : (t.play later).session.lastPoll = t.session.lastPoll := by
    rw [lastPoll_play, polls_eq_nil hlater]
    rfl
  have hsame : (t.play later).session.pollsTooEarly now = t.session.pollsTooEarly now := by
    simp only [Session.pollsTooEarly, hlast, terms_play]
  rw [((t.play later).session.refusesPoll_iff x poll now).1, (t.session.refusesPoll_iff x poll now).1,
    hopen, hstill, hsame]

/-- **The law of polling.** Let requests be brought in at times that do not decrease, with anything
else done in between. Whatever request comes next, it is refused because of polling exactly if the
session is open, the request is a poll, and the latest poll of the open session was less than the
interval before. Polls count whatever has come of them.

* This is the one refusal for which the session has to end.
* Requests that are no polls are not refused for that reason, nor does anything that is done without
  a poll make a difference to the next poll while the session stays open.
* With an interval of zero no poll is refused. -/
theorem polls_limited (id : StreamId) (terms : Terms) (sink : Sink)
    (observers : List (Nat × ο)) (nextTicket : Nat) (beats : List (Beat ο)) (x : Exchange)
    (poll : Bool) (now : Nat)
    (hordered : (beats.filterMap Beat.time? ++ [now]).Pairwise (· ≤ ·)) :
    let begun := start id terms sink observers nextTicket
    let t := begun.play beats
    (t.session.RefusesPoll x poll now ↔ t.session.closed = false ∧ poll = true ∧
      ∃ latest, (begun.polls beats).getLast? = some latest ∧
        now < latest + terms.pollingInterval) ∧
    (∀ fault, (t.session.accept x poll now).answer = .error fault →
      (fault.endsSession = true ↔ fault = .pollingTooFrequent)) ∧
    (poll = false → ¬t.session.RefusesPoll x poll now) ∧
    (∀ later, (∀ b ∈ later, b.isPoll = false) → (t.play later).session.closed = false →
      ((t.play later).session.RefusesPoll x poll now ↔ t.session.RefusesPoll x poll now)) ∧
    (terms.pollingInterval = 0 → ¬t.session.RefusesPoll x poll now) := by
  intro begun t
  have hearly := pollsTooEarly_play id terms sink observers nextTicket beats hordered
  obtain ⟨hrefused, hends⟩ := t.session.refusesPoll_iff x poll now
  refine ⟨?_, hends, fun hno h => ?_, fun later hlater hopen =>
    refusesPoll_play_iff hlater hopen x poll now, fun hzero h => ?_⟩
  · rw [← hearly]
    exact hrefused
  · have hpoll := (hrefused.mp h).2.1
    rw [hno] at hpoll
    cases hpoll
  · have hnever : t.session.pollsTooEarly now = false :=
      Session.pollsTooEarly_of_zero (by rw [terms_play]; exact hzero) now
    rw [(hrefused.mp h).2.2] at hnever
    cases hnever

/-- The first poll is granted and the second, at 400, is refused. A request that is no poll comes
after it. So a poll at 1300 is refused, and one at 1400 is not. -/
theorem refused_until_interval_is_over :
    let beats : List (Beat Nat) := [.deed (.enter 1 false [] true 0),
      .deed (.enter 2 false [] true 400), .deed (.enter 3 false [] false 900)]
    let t := (start ⟨"a"⟩ { pollingInterval := 1000 } .recorded ([] : List (Nat × Nat)) 0).play beats
    let x := Exchange.fresh 3 4 false
    (beats.filterMap Beat.time? ++ [1300]).Pairwise (· ≤ ·) ∧
      (beats.filterMap Beat.time? ++ [1400]).Pairwise (· ≤ ·) ∧
      t.session.RefusesPoll x true 1300 ∧ ¬t.session.RefusesPoll x true 1400 := by
  intro beats t x
  have hordered : (beats.filterMap Beat.time? ++ [1300]).Pairwise (· ≤ ·) ∧
      (beats.filterMap Beat.time? ++ [1400]).Pairwise (· ≤ ·) := by decide
  have hsoon := (polls_limited ⟨"a"⟩ { pollingInterval := 1000 } .recorded [] 0 beats x true 1300
    hordered.1).1
  have hlate := (polls_limited ⟨"a"⟩ { pollingInterval := 1000 } .recorded [] 0 beats x true 1400
    hordered.2).1
  have hpolls : (start ⟨"a"⟩ { pollingInterval := 1000 } .recorded [] 0).polls beats = [0, 400] := by
    decide
  refine ⟨hordered.1, hordered.2, hsoon.mpr ⟨by decide, rfl, 400, ?_, by decide⟩, fun h => ?_⟩
  · rw [hpolls]
    rfl
  · obtain ⟨-, -, latest, hlatest, hlt⟩ := hlate.mp h
    rw [hpolls] at hlatest
    obtain rfl := Option.some.inj hlatest
    exact absurd hlt (by decide)

end Stage

end HttpBinding
