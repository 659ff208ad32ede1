import HttpBinding.Countdowns
import Mathlib.Data.List.Nodup

/-!
# HttpBinding.Proofs.Countdowns

What the operations do to a table of countdowns, seen as the list of those that run.

`Regular` is the invariant: the table repeats what the running countdowns say, no two of them are
for the same identifier, and no two are of the same generation. With it the table can be left
aside. Stopping is a filter by identifier (`running_cancel`), starting is a filter and one new
countdown (`running_arm`), and taking a countdown away that does not run any more changes nothing
(`retire_of_not_running`), which is why a countdown that was stopped in time never harms a later
one; and one that still runs takes nothing but itself away (`Regular.retire`).
-/

namespace HttpBinding

namespace Countdowns

/-- What is true of every table of countdowns. -/
structure Regular (t : Countdowns) : Prop where
  /-- The table repeats what the running countdowns say. -/
  matched : t.table = t.running.map fun c => (c.id, c.generation)
  /-- At most one countdown runs for an identifier. -/
  single : (t.running.map Countdown.id).Nodup
  distinct : (t.running.map Countdown.generation).Nodup
  /-- Generations to come are new. -/
  numbered : ∀ c ∈ t.running, c.generation < t.next

theorem regular_empty : ({} : Countdowns).Regular :=
  ⟨rfl, List.nodup_nil, List.nodup_nil, by simp⟩

variable {t : Countdowns}

/-! ### What can be read off the table -/

theorem Regular.eq_of_id (h : t.Regular) {c d : Countdown} (hc : c ∈ t.running)
    (hd : d ∈ t.running) (heq : c.id = d.id) : c = d :=
  List.inj_on_of_nodup_map h.single hc hd heq

theorem Regular.eq_of_generation (h : t.Regular) {c d : Countdown} (hc : c ∈ t.running)
    (hd : d ∈ t.running) (heq : c.generation = d.generation) : c = d :=
  List.inj_on_of_nodup_map h.distinct hc hd heq

theorem Regular.isArmed_iff (h : t.Regular) {id : StreamId} :
    t.isArmed id = true ↔ ∃ c ∈ t.running, c.id = id := by
  simp [isArmed, h.matched]

theorem Regular.size_eq (h : t.Regular) : t.size = t.running.length := by
  simp [size, h.matched]

theorem Regular.find?_eq_some_iff (h : t.Regular) {g : Nat} {c : Countdown} :
    t.find? g = some c ↔ c ∈ t.running ∧ c.generation = g := by
  constructor
  · intro hf
    exact ⟨List.mem_of_find?_eq_some hf, by simpa using List.find?_some hf⟩
  · intro hmem
    obtain ⟨hc, rfl⟩ := hmem
    cases hf : t.find? c.generation with
    | none =>
        have hnone := List.find?_eq_none.mp hf c hc
        simp at hnone
    | some d =>
        have hd : d ∈ t.running := List.mem_of_find?_eq_some hf
        have hg : d.generation = c.generation := by simpa using List.find?_some hf
        rw [h.eq_of_generation hd hc hg]

/-- A table of which some countdowns are left is as regular as before. -/
theorem Regular.sublist (h : t.Regular) {t' : Countdowns}
    (hmatched : t'.table = t'.running.map fun c => (c.id, c.generation))
    (hsub : t'.running.Sublist t.running) (hnext : t.next ≤ t'.next) : t'.Regular :=
  ⟨hmatched, (hsub.map _).nodup h.single, (hsub.map _).nodup h.distinct,
    fun c hc => Nat.lt_of_lt_of_le (h.numbered c (hsub.subset hc)) hnext⟩

/-! ### Stopping -/

/-- The generation that counts for an identifier is that of the countdown that runs for it. -/
theorem Regular.contains_iff (h : t.Regular) {c : Countdown} (hc : c ∈ t.running)
    (id : StreamId) : t.table.contains (id, c.generation) = true ↔ c.id = id := by
  rw [List.contains_iff_mem, h.matched, List.mem_map]
  constructor
  · intro hmem
    obtain ⟨d, hd, heq⟩ := hmem
    obtain ⟨hid, hg⟩ := Prod.mk.inj heq
    rw [← h.eq_of_generation hd hc hg]
    exact hid
  · intro heq
    subst heq
    exact ⟨c, hc, rfl⟩

theorem Regular.running_cancel (h : t.Regular) (id : StreamId) :
    (t.cancel id).running = t.running.filter fun c => c.id != id := by
  refine List.filter_congr fun c hc => ?_
  have hiff := h.contains_iff hc id
  cases hb : t.table.contains (id, c.generation) <;> simp_all

theorem Regular.table_cancel (h : t.Regular) (id : StreamId) :
    (t.cancel id).table = (t.cancel id).running.map fun c => (c.id, c.generation) := by
  rw [h.running_cancel]
  simp only [cancel, h.matched, List.filter_map]
  rfl

theorem Regular.cancel (h : t.Regular) (id : StreamId) : (t.cancel id).Regular :=
  h.sublist (h.table_cancel id) List.filter_sublist (Nat.le_refl _)

theorem Regular.mem_cancel (h : t.Regular) {id : StreamId} {c : Countdown} :
    c ∈ (t.cancel id).running ↔ c ∈ t.running ∧ c.id ≠ id := by
  simp [h.running_cancel]

theorem Regular.running_cancelAll (h : t.Regular) : t.cancelAll.running = [] := by
  simp only [Countdowns.cancelAll, List.filter_eq_nil_iff]
  intro c hc
  simp only [h.matched, List.any_map, Bool.not_eq_true', Bool.not_eq_false, List.any_eq_true]
  exact ⟨c, hc, by simp⟩

theorem Regular.cancelAll (h : t.Regular) : t.cancelAll.Regular := by
  refine h.sublist ?_ List.filter_sublist (Nat.le_refl _)
  rw [h.running_cancelAll]
  rfl

/-! ### Starting -/

/-- The table with one countdown more. -/
def withOneMore (t : Countdowns) (id : StreamId) (target deadline : Nat) : Countdowns where
  table := t.table ++ [(id, t.next)]
  running := t.running ++ [⟨t.next, id, target, deadline⟩]
  next := t.next + 1

/-- Where no countdown counts for an identifier there is none to be stopped. -/
theorem arm_of_not_armed {id : StreamId} (hidle : t.isArmed id = false) (target now timeout : Nat) :
    t.arm id target false now timeout = t.withOneMore id target (now + timeout) := by
  have hne : ∀ e ∈ t.table, e.1 ≠ id := by simpa [isArmed] using hidle
  have htable : t.table.filter (fun e => e.1 != id) = t.table :=
    List.filter_eq_self.mpr fun e he => by simpa using hne e he
  have hrunning : t.running.filter (fun c => !(t.table.contains (id, c.generation))) =
      t.running := by
    refine List.filter_eq_self.mpr fun c _ => ?_
    have hnot : (id, c.generation) ∉ t.table := fun hmem => hne _ hmem rfl
    simpa using hnot
  simp only [Countdowns.arm, Countdowns.cancel, withOneMore, htable, hrunning, Bool.false_eq_true,
    if_false]

theorem Regular.running_arm (h : t.Regular) (id : StreamId) (target : Nat) (closed : Bool)
    (now timeout : Nat) :
    (t.arm id target closed now timeout).running =
      (t.running.filter fun c => c.id != id) ++
        if closed then [] else [⟨t.next, id, target, now + timeout⟩] := by
  rw [← h.running_cancel id]
  cases closed <;> simp [arm]

theorem Regular.mem_arm (h : t.Regular) {id : StreamId} {target : Nat} {closed : Bool}
    {now timeout : Nat} {c : Countdown} :
    c ∈ (t.arm id target closed now timeout).running ↔
      (c ∈ t.running ∧ c.id ≠ id) ∨
        (closed = false ∧ c = ⟨t.next, id, target, now + timeout⟩) := by
  rw [h.running_arm]
  cases closed <;> simp

theorem Regular.arm (h : t.Regular) (id : StreamId) (target : Nat) (closed : Bool)
    (now timeout : Nat) : (t.arm id target closed now timeout).Regular := by
  have hstopped := h.cancel id
  cases closed with
  | true => exact hstopped.sublist hstopped.matched (List.Sublist.refl _) (Nat.le_succ _)
  | false =>
      have hrun : (t.arm id target false now timeout).running =
        (t.cancel id).running ++ [⟨t.next, id, target, now + timeout⟩] := rfl
      refine ⟨?_, ?_, ?_, ?_⟩
      · simp [Countdowns.arm, hstopped.matched]
      · -- whatever ran for the identifier was stopped before
        rw [hrun, List.map_append, List.nodup_append]
        refine ⟨hstopped.single, by simp, fun a ha b hb => ?_⟩
        obtain ⟨c, hc, rfl⟩ := List.mem_map.mp ha
        obtain rfl : b = id := by simpa using hb
        exact (h.mem_cancel.mp hc).2
      · -- the generation was never used before
        rw [hrun, List.map_append, List.nodup_append]
        refine ⟨hstopped.distinct, by simp, fun a ha b hb => ?_⟩
        obtain ⟨c, hc, rfl⟩ := List.mem_map.mp ha
        obtain rfl : b = t.next := by simpa using hb
        exact Nat.ne_of_lt (h.numbered c (h.mem_cancel.mp hc).1)
      · intro c hc
        rcases h.mem_arm.mp hc with ⟨hc, -⟩ | ⟨-, rfl⟩
        · exact Nat.lt_succ_of_lt (h.numbered c hc)
        · exact Nat.lt_succ_self _

/-! ### Coming to the end -/

/-- A countdown that does not run any more leaves no trace when it comes to its end. -/
theorem Regular.retire_of_not_running (h : t.Regular) {c : Countdown}
    (hc : ∀ d ∈ t.running, d.generation ≠ c.generation) : t.retire c = t := by
  have htable : t.table.filter (fun e => e != (c.id, c.generation)) = t.table := by
    refine List.filter_eq_self.mpr fun e he => ?_
    rw [h.matched] at he
    obtain ⟨d, hd, rfl⟩ := List.mem_map.mp he
    have hne := hc d hd
    simp [hne]
  have hrunning : t.running.filter (fun d => d.generation != c.generation) = t.running :=
    List.filter_eq_self.mpr fun d hd => by simpa using hc d hd
  rw [retire, htable, hrunning]

theorem mem_retire {c d : Countdown} :
    d ∈ (t.retire c).running ↔ d ∈ t.running ∧ d.generation ≠ c.generation := by
  simp [retire]

/-- A countdown that comes to its end takes nothing but itself off the table. -/
theorem Regular.retire (h : t.Regular) {c : Countdown}
    (hc : ∀ d ∈ t.running, d.generation = c.generation → d = c) : (t.retire c).Regular := by
  refine h.sublist ?_ List.filter_sublist (Nat.le_refl _)
  simp only [Countdowns.retire, h.matched, List.filter_map]
  refine congrArg _ (List.filter_congr fun d hd => ?_)
  rw [Function.comp_apply, Bool.eq_iff_iff, bne_iff_ne, bne_iff_ne]
  refine not_congr ⟨fun heq => (Prod.mk.inj heq).2, fun hgen => ?_⟩
  rw [hc d hd hgen]

end Countdowns

end HttpBinding
