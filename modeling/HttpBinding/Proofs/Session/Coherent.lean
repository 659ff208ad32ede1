import HttpBinding.Proofs.Session.Serving

/-!
# HttpBinding.Proofs.Session.Coherent

Whether somebody waits for an answer, and whether an answer would arrive, are one question.

An operation on a session asks the first (`isAbandoned`) when it lets go of exchanges, and only
finds out about the second (`isAnswerable`) when it hands a body over. On one exchange taken by
itself the two may differ. They agree on a `Coherent` one, and every exchange that a session comes
to hold is coherent, whatever was done to it before (`wellKept_play`).
-/

namespace HttpBinding

namespace Exchange

/-- The server half agrees with the mailbox, and the requester's notice with its listening. -/
structure Coherent (x : Exchange) : Prop where
  consistent : x.Consistent
  candid : x.departed = !x.listening

variable {x y : Exchange}

theorem coherent_after (key rid : Nat) (secure : Bool) (past : List Act) :
    ((fresh key rid secure).after past).Coherent :=
  ⟨(consistent_fresh key rid secure).after past, candid_after rfl past⟩

theorem Coherent.depart (h : x.Coherent) : x.depart.Coherent := ⟨h.consistent.depart, rfl⟩

theorem Coherent.served (h : x.Coherent) (hserved : x.Served y) : y.Coherent := by
  refine ⟨hserved.consistent h.consistent, ?_⟩
  rw [hserved.departed, hserved.listening]
  exact h.candid

/-- A body reaches the requester exactly if somebody waits for it. -/
theorem Coherent.isAnswerable_eq (h : x.Coherent) : x.isAnswerable = !x.isAbandoned := by
  cases hs : x.hasSender with
  | false => simp [isAnswerable, isAbandoned, hs]
  | true => simp [isAnswerable, isAbandoned, hs, h.consistent.pending hs, h.candid]

theorem Coherent.isAnswerable_of_waits (h : x.Coherent) (hw : x.isAbandoned = false) :
    x.isAnswerable = true := by
  rw [h.isAnswerable_eq, hw]
  rfl

/-- Who waits has not been given anything yet. -/
theorem Coherent.vacant (h : x.Coherent) (hw : x.isAbandoned = false) : x.mailbox = .vacant :=
  h.consistent.vacant_of_answerable (h.isAnswerable_of_waits hw)

/-- Closing an exchange uses up its sender. -/
theorem Coherent.hasSender_close (h : x.Coherent) : x.close.hasSender = false := by
  unfold close
  split
  · rfl
  · rename_i hphase
    cases hs : x.hasSender with
    | false => rfl
    | true => exact absurd (h.consistent.pending hs) hphase

end Exchange

namespace Session

variable {ο : Type}

/-- What is true of a session whenever somebody can look at it, and of the exchanges it holds. -/
structure WellKept (s : Session ο) : Prop where
  sound : s.Sound
  coherent : ∀ x ∈ s.held, x.Coherent

/-- An operation that was done to coherent exchanges leaves coherent exchanges. -/
theorem coherent_of_serves {α : Type} {before : List Exchange} {r : Report ο α}
    (hserves : r.Serves before) (hbefore : ∀ x ∈ before, x.Coherent) :
    ∀ y ∈ r.session.held, y.Coherent := by
  intro y hy
  obtain ⟨x, hx, hserved⟩ := hserves y (List.mem_append_left _ hy)
  exact (hbefore x hx).served hserved

end Session

namespace Stage

variable {ο : Type}

theorem coherent_perform {t : Stage ο} (h : ∀ x ∈ t.session.held, x.Coherent)
    (d : Session.Deed ο) : ∀ x ∈ (t.perform d).session.held, x.Coherent := by
  cases d with
  | enter rid secure past poll now =>
      refine Session.coherent_of_serves (t.session.serves_accept _ poll now) fun x hx => ?_
      rcases List.mem_append.mp hx with hx | hx
      · exact h x hx
      · obtain rfl := List.mem_singleton.mp hx
        exact Exchange.coherent_after ..
  | deliver stanza => exact Session.coherent_of_serves (t.session.serves_deliver stanza) h
  | release => exact Session.coherent_of_serves t.session.serves_release h
  | close shutdown => exact Session.coherent_of_serves (t.session.serves_close shutdown) h
  | depart key =>
      intro y hy
      obtain ⟨x, hx, rfl⟩ := List.mem_map.mp hy
      split
      · exact (h x hx).depart
      · exact h x hx
  | observe o | unobserve ticket => exact h

/-- A session is well kept after any run. -/
theorem wellKept_play (id : StreamId) (terms : Terms) (sink : Sink)
    (observers : List (Nat × ο)) (nextTicket : Nat) (beats : List (Beat ο)) :
    ((start id terms sink observers nextTicket).play beats).session.WellKept := by
  refine play_induction (P := fun t => t.session.WellKept) (fun t ht => ?_)
    (fun t d ht _ => ⟨sound_perform ht.sound d, coherent_perform ht.coherent d⟩) ?_ beats
  · rw [session_call]
    exact ht
  · exact ⟨sound_start .., by simp [start]⟩

end Stage

end HttpBinding
