import HttpBinding.StreamId

/-!
# HttpBinding.Countdowns

Countdowns to the end of sessions that fell silent.

A table says which countdown counts for an identifier; the countdowns that still run are kept
beside it. Each has a *generation*, a number that no other countdown of these has had. Main
points:

* starting a countdown for an identifier stops the one that ran for it;
* stopping goes by identifier, so it stops whatever runs for it;
* a countdown that has come to its end takes itself off the table by generation, so it never
  removes one that was started later.
-/

namespace HttpBinding

/-- One running countdown. -/
structure Countdown where
  /-- Tells this countdown from all others of the same table. -/
  generation : Nat
  /-- The identifier for which it was started. -/
  id : StreamId
  /-- The session that it ends. -/
  target : Nat
  /-- The time at which it ends. -/
  deadline : Nat
deriving DecidableEq, Repr

/-- A table of countdowns. -/
structure Countdowns where
  /-- The generation that counts for each identifier. -/
  table : List (StreamId × Nat) := []
  /-- The countdowns that were neither stopped nor came to their end. -/
  running : List Countdown := []
  /-- The generation of the next countdown. -/
  next : Nat := 0
deriving DecidableEq, Repr

namespace Countdowns

/-- A countdown counts for the identifier. -/
def isArmed (t : Countdowns) (id : StreamId) : Bool := t.table.any fun e => e.1 == id

/-- For how many identifiers a countdown counts. -/
def size (t : Countdowns) : Nat := t.table.length

/-- The running countdown of a generation. -/
def find? (t : Countdowns) (generation : Nat) : Option Countdown :=
  t.running.find? fun c => c.generation == generation

/-- Stops the countdown for an identifier, if one counts. -/
def cancel (t : Countdowns) (id : StreamId) : Countdowns :=
  { t with
    table := t.table.filter fun e => e.1 != id
    running := t.running.filter fun c => !(t.table.contains (id, c.generation)) }

/-- Stops every countdown that counts. -/
def cancelAll (t : Countdowns) : Countdowns :=
  { t with
    table := []
    running := t.running.filter fun c => !(t.table.any fun e => e.2 == c.generation) }

/-- Starts the countdown for a session anew at time `now`. What ran for the identifier is
stopped in any case; a session that has ended gets no new countdown. -/
def arm (t : Countdowns) (id : StreamId) (target : Nat) (closed : Bool) (now timeout : Nat) :
    Countdowns :=
  let stopped := t.cancel id
  if closed then { stopped with next := t.next + 1 }
  else
    { table := stopped.table ++ [(id, t.next)]
      running := stopped.running ++ [⟨t.next, id, target, now + timeout⟩]
      next := t.next + 1 }

/-- Takes a countdown away that has come to its end. -/
def retire (t : Countdowns) (c : Countdown) : Countdowns :=
  { t with
    table := t.table.filter fun e => e != (c.id, c.generation)
    running := t.running.filter fun d => d.generation != c.generation }

/-! ### Views -/

@[simp] theorem isArmed_cancel_self (t : Countdowns) (id : StreamId) :
    (t.cancel id).isArmed id = false := by
  simp [isArmed, cancel, List.any_eq_false]

theorem isArmed_cancel_of_ne (t : Countdowns) {id other : StreamId} (h : other ≠ id) :
    (t.cancel id).isArmed other = t.isArmed other := by
  rw [Bool.eq_iff_iff]
  simp only [isArmed, cancel, List.any_eq_true, List.mem_filter, bne_iff_ne, beq_iff_eq]
  exact ⟨fun ⟨e, he, heq⟩ => ⟨e, he.1, heq⟩, fun ⟨e, he, heq⟩ => ⟨e, ⟨he, heq ▸ h⟩, heq⟩⟩

@[simp] theorem isArmed_arm_self (t : Countdowns) (id : StreamId) (target : Nat) (closed : Bool)
    (now timeout : Nat) : (t.arm id target closed now timeout).isArmed id = !closed := by
  cases closed <;> simp [arm, isArmed, cancel, List.any_eq_false]

@[simp] theorem isArmed_cancelAll (t : Countdowns) (id : StreamId) :
    t.cancelAll.isArmed id = false := rfl

@[simp] theorem next_arm (t : Countdowns) (id : StreamId) (target : Nat) (closed : Bool)
    (now timeout : Nat) : (t.arm id target closed now timeout).next = t.next + 1 := by
  cases closed <;> rfl

end Countdowns

end HttpBinding
