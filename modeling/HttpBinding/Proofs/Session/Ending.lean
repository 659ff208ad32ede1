import Mathlib.Data.List.Forall2
import HttpBinding.Proofs.Exchange.Handover
import HttpBinding.Proofs.Session.Delivering
import HttpBinding.Proofs.Session.Log

/-!
# HttpBinding.Proofs.Session.Ending

The end of a session is complete, and nothing comes after it.

To end a session is one act on the session itself: whatever it holds is answered and let go, and
nothing is left in it (`Session.Over`). The calls that follow are made later, one after the other:
first the buffer is handed on, then each observer that was there hears of the end. Whoever is called
may do to the session what it likes, and so may everybody else between the calls. Design points:

* A session that is over is not changed by any deed but those that change its observers, and nobody
  is told of anything by it any more. So the calls that are due are made in their order whatever
  happens meanwhile, and all that can come between them are stanzas that are handed on because
  somebody has tried to send them (`Aftermath`).
* A call that was made and a call that is due are counted together, since each call only moves from
  the second list to the first. That all of them are made is said apart (`due_playCalls`).
-/

namespace HttpBinding

/-- The stanza that somebody tries to send. -/
def Beat.sends? {ο : Type} : Beat ο → Option Stanza
  | .deed (.deliver stanza) => some stanza
  | _ => none

namespace Session

variable {ο : Type} {s : Session ο}

/-- The session known as `id` has ended, and nothing is left in it. -/
structure Over (id : StreamId) (s : Session ο) : Prop where
  known : s.id = id
  closed : s.closed = true
  held : s.held = []
  buffer : s.buffer = []
  shown : s.shown = ⟨0, true⟩

theorem Sound.isOver (h : s.Sound) (hc : s.closed = true) : s.Over s.id := by
  obtain ⟨hheld, hbuffer⟩ := h.ended hc
  exact ⟨rfl, hc, hheld, hbuffer, by rw [h.shown, hheld, hc]; rfl⟩

end Session

namespace Exchange

/-- `y` is what `x` is after its session has ended: if somebody waits for an answer, that is the
notice of the end, and otherwise nothing is given to anybody. -/
structure SentOff (shutdown : Bool) (x y : Exchange) : Prop where
  key : y.key = x.key
  rid : y.rid = x.rid
  used : y.hasSender = false
  waits : x.isAbandoned = false → x.mailbox = .vacant ∧ y.mailbox =
    .holding ⟨.terminate (if shutdown then some "system-shutdown" else none), x.compression⟩
  gone : x.isAbandoned = true → y.mailbox = x.mailbox

theorem Coherent.sentOff {x : Exchange} (h : x.Coherent) (shutdown : Bool) :
    x.SentOff shutdown (x.closeWith (.terminate (Session.condition shutdown))) := by
  refine ⟨x.closeWith_key _, x.closeWith_rid _, x.closeWith_hasSender _, fun hwaits => ?_,
    fun hgone => ?_⟩
  · refine ⟨h.vacant hwaits, ?_⟩
    rw [mailbox_closeWith, deliver_of_answerable (h.isAnswerable_of_waits hwaits)]
    rfl
  · rw [mailbox_closeWith, deliver_of_not_answerable (by rw [h.isAnswerable_eq, hgone]; rfl)]
    rfl

end Exchange

namespace Stage

variable {ο : Type} {t : Stage ο}

/-! ### Nothing comes of what is done after the end -/

/-- No operation on the session of this stage changes it or makes an observer hear of anything. A
stanza that somebody tries to send is handed on, and an exchange that is brought in is let go. -/
structure Inert (t : Stage ο) : Prop where
  enter : ∀ rid secure past poll now, t.step (.deed (.enter rid secure past poll now)) =
    { t with
      entered := t.entered + 1
      released := t.released ++ [((Exchange.fresh t.entered rid secure).after past).drop] }
  deliver : ∀ stanza,
    t.step (.deed (.deliver stanza)) = { t with due := .handedOn stanza :: t.due }
  release : t.step (.deed .release) = t
  close : ∀ shutdown, t.step (.deed (.close shutdown)) = t

theorem inert_of_closed (hc : t.session.closed = true) : t.Inert where
  enter rid secure past poll now := by
    have hfree : t.defers (.enter rid secure past poll now) = false := by simp [defers, isBusy, hc]
    simp [step, hfree, perform, absorb, Session.accept_of_closed hc, Report.calls, Report.notices,
      Except.isOk, Except.toBool]
  deliver stanza := step_deliver_of_closed hc stanza
  release := by
    have hfree : t.defers .release = false := by simp [defers, isBusy, hc]
    simp [step, hfree, perform, absorb, Session.release, hc, Report.calls, Report.notices]
  close shutdown := by
    have hfree : t.defers (.close shutdown) = false := by simp [defers, isBusy, hc]
    simp [step, hfree, perform, absorb, Session.close, hc, Report.calls, Report.notices]

/-- A session that is over stays so, and the calls that are due wait for one call at most. -/
theorem over_step {id : StreamId} (h : t.session.Over id) (d : Session.Deed ο) :
    (t.step (.deed d)).session.Over id ∧ (t.step (.deed d)).heard = t.heard ∧
      (t.step (.deed d)).due = (Beat.deed d).sends?.toList.map .handedOn ++ t.due := by
  have hinert := inert_of_closed h.closed
  cases d with
  | enter rid secure past poll now => rw [hinert.enter]; exact ⟨h, rfl, rfl⟩
  | deliver stanza => rw [hinert.deliver]; exact ⟨h, rfl, rfl⟩
  | release => rw [hinert.release]; exact ⟨h, rfl, rfl⟩
  | close shutdown => rw [hinert.close]; exact ⟨h, rfl, rfl⟩
  | depart key =>
      refine ⟨⟨h.known, h.closed, ?_, h.buffer, h.shown⟩, rfl, rfl⟩
      show t.session.held.map _ = []
      rw [h.held, List.map_nil]
  | observe o | unobserve ticket =>
      -- observers come and go, but nothing calls them
      simp only [step]
      split
      · exact ⟨h, rfl, rfl⟩
      · exact ⟨⟨h.known, h.closed, h.held, h.buffer, h.shown⟩, rfl, rfl⟩

/-! ### The calls of the end -/

/-- The session `id` is over. Of the calls `calls`, which were due when `before` had been heard,
some were made and the others are due, in their order. Other calls were only added to hand on the
stanzas `sent`, and whoever was called found the session over. -/
structure Aftermath (id : StreamId) (calls : List (Notice ο)) (before : List (Hearing ο))
    (sent : List Stanza) (t : Stage ο) : Prop where
  isOver : t.session.Over id
  heard : ∃ new, t.heard = before ++ new ∧ (∀ e ∈ new, e.session.Over id) ∧
    calls.Sublist (new.map Hearing.notice ++ t.due) ∧
    (new.map Hearing.notice ++ t.due).Perm (calls ++ sent.map .handedOn)

variable {id : StreamId} {calls : List (Notice ο)} {before : List (Hearing ο)} {sent : List Stanza}

theorem Aftermath.call (h : t.Aftermath id calls before sent) :
    t.call.Aftermath id calls before sent := by
  refine ⟨by rw [session_call]; exact h.isOver, ?_⟩
  obtain ⟨new, hheard, hover, horder, hall⟩ := h.heard
  unfold Stage.call
  split
  · exact ⟨new, hheard, hover, horder, hall⟩
  · rename_i notice due hdue
    -- the call goes from the calls that are due to those that were made
    have hsame : (new ++ [(⟨notice, t.session⟩ : Hearing ο)]).map Hearing.notice ++ due =
        new.map Hearing.notice ++ t.due := by simp [hdue]
    refine ⟨new ++ [⟨notice, t.session⟩], by rw [hheard, List.append_assoc], fun e he => ?_, ?_, ?_⟩
    · rcases List.mem_append.mp he with he | he
      · exact hover e he
      · obtain rfl := List.mem_singleton.mp he
        exact h.isOver
    · rw [hsame]
      exact horder
    · rw [hsame]
      exact hall

theorem Aftermath.deed (h : t.Aftermath id calls before sent) (d : Session.Deed ο) :
    (t.step (.deed d)).Aftermath id calls before (sent ++ (Beat.deed d).sends?.toList) := by
  obtain ⟨hover, hheard, hdue⟩ := over_step h.isOver d
  obtain ⟨new, hnew, hfound, horder, hall⟩ := h.heard
  refine ⟨hover, new, hheard.trans hnew, hfound, ?_, ?_⟩
  · rw [hdue]
    exact horder.trans ((List.sublist_append_right _ _).append_left _)
  · rw [hdue, List.map_append, ← List.append_assoc calls]
    generalize (Beat.deed d).sends?.toList.map Notice.handedOn = added
    -- the stanza stands in front of what was due, and at the end of what was sent
    calc (new.map Hearing.notice ++ (added ++ t.due)).Perm
          (added ++ (new.map Hearing.notice ++ t.due)) := List.perm_append_comm_assoc ..
      List.Perm _ (added ++ (calls ++ sent.map .handedOn)) := hall.append_left added
      List.Perm _ (calls ++ sent.map .handedOn ++ added) := List.perm_append_comm

theorem Aftermath.play (h : t.Aftermath id calls before sent) (later : List (Beat ο)) :
    (t.play later).Aftermath id calls before (sent ++ later.filterMap Beat.sends?) := by
  induction later generalizing t sent with
  | nil => simpa [Stage.play] using h
  | cons b later ih =>
      cases b with
      | call => exact ih h.call
      | deed d =>
          have hrest := ih (h.deed d)
          rw [List.append_assoc] at hrest
          cases hsends : (Beat.deed d).sends? <;> simpa [hsends, Stage.play] using hrest

end Stage

end HttpBinding
