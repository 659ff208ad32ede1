import HttpBinding.Text.Blank

/-!
# HttpBinding.Text.Numeral

Decimal numerals as attributes and environment variables hold them.

* `digits?` reads a run of ASCII digits, leading zeros included;
* `natural?` also takes a leading `+`, `integer?` a leading `+` or `-`;
* `unsigned?` and `signed?` trim blanks first and then ask that the value fit the given number
  of bits. A leading `-` is never part of an unsigned numeral, not even before zero.

Main statement: `digits?` reads back what `Nat.repr` writes, with any number of leading zeros.
-/

namespace HttpBinding.Text

/-- The value of a non-empty run of ASCII digits. -/
def digits? (cs : List Char) : Option Nat :=
  if cs ≠ [] ∧ cs.all Char.isDigit then some (Nat.ofDigitChars 10 cs 0) else none

/-- A run of digits, possibly after a `+`. -/
def natural? : List Char → Option Nat
  | '+' :: cs => digits? cs
  | cs => digits? cs

/-- A run of digits, possibly after a `+` or a `-`. -/
def integer? : List Char → Option Int
  | '-' :: cs => (digits? cs).map fun n => -(n : Int)
  | cs => (natural? cs).map fun n => (n : Int)

/-- An unsigned numeral of at most `bits` bits, blanks around it ignored. -/
def unsigned? (bits : Nat) (text : String) : Option Nat :=
  (natural? (trim text.toList)).filter fun n => n < 1 <<< bits

/-- A signed numeral of at most `bits` bits in two's complement, blanks around it ignored. -/
def signed? (bits : Nat) (text : String) : Option Int :=
  (integer? (trim text.toList)).filter fun n =>
    -((1 <<< (bits - 1) : Nat) : Int) ≤ n && n < (1 <<< (bits - 1) : Nat)

/-! ### Reading and writing -/

theorem digits?_eq_some_iff {cs : List Char} {n : Nat} :
    digits? cs = some n ↔
      cs ≠ [] ∧ (∀ c ∈ cs, c.isDigit = true) ∧ Nat.ofDigitChars 10 cs 0 = n := by
  unfold digits?
  split
  next h =>
    simp only [Option.some.injEq]
    exact ⟨fun hn => ⟨h.1, List.all_eq_true.1 h.2, hn⟩, fun hn => hn.2.2⟩
  next h =>
    simp only [reduceCtorEq, false_iff]
    rintro ⟨hne, hall, _⟩
    exact h ⟨hne, List.all_eq_true.2 hall⟩

/-- Leading zeros do not matter. -/
theorem digits?_zeros_append_toDigits (k n : Nat) :
    digits? (List.replicate k '0' ++ Nat.toDigits 10 n) = some n := by
  rw [digits?_eq_some_iff]
  refine ⟨by simp, fun c hc => ?_, ?_⟩
  · rcases List.mem_append.1 hc with hc | hc
    · rw [(List.mem_replicate.1 hc).2]; rfl
    · exact Nat.isDigit_of_mem_toDigits (by decide) (by decide) hc
  · rw [Nat.ofDigitChars_append, Nat.ofDigitChars_replicate_zero]
    exact Nat.ofDigitChars_ten_toDigits

theorem digits?_toDigits (n : Nat) : digits? (Nat.toDigits 10 n) = some n :=
  digits?_zeros_append_toDigits 0 n

theorem isDigit_of_mem_toDigits {n : Nat} : ∀ c ∈ Nat.toDigits 10 n, c.isDigit = true :=
  fun _ hc => Nat.isDigit_of_mem_toDigits (by decide) (by decide) hc

/-- A character that is no digit is in no numeral. -/
theorem not_mem_toDigits {c : Char} (hc : c.isDigit = false) (n : Nat) :
    c ∉ Nat.toDigits 10 n := by
  intro hmem
  rw [isDigit_of_mem_toDigits c hmem] at hc
  cases hc

/-- Only the numeral of zero begins with a zero. -/
theorem head?_toDigits_ne_zero {n : Nat} (h : 0 < n) :
    (Nat.toDigits 10 n).head? ≠ some '0' := by
  induction n using Nat.strongRecOn with
  | ind n ih =>
      rcases Nat.lt_or_ge n 10 with hlt | hge
      · rw [Nat.toDigits_of_lt_base hlt]
        simp
        omega
      · rw [Nat.toDigits_of_base_le (by decide) hge, List.head?_append,
          List.head?_eq_some_head Nat.toDigits_ne_nil, Option.some_or,
          ← List.head?_eq_some_head]
        exact ih (n / 10) (by omega) (by omega)

theorem unsigned?_lt {bits : Nat} {text : String} {n : Nat} (h : unsigned? bits text = some n) :
    n < 1 <<< bits := by
  simp only [unsigned?, Option.filter_eq_some_iff, decide_eq_true_eq] at h
  exact h.2

end HttpBinding.Text
