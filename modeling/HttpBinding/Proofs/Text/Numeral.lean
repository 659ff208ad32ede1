import Mathlib.Data.List.Induction
import Mathlib.Data.List.TakeWhile
import HttpBinding.Text.Numeral

/-!
# HttpBinding.Proofs.Text.Numeral

Which texts are numerals, and of which numbers.

The grammar is said without the readers. `Decimal` is a run of ASCII digits of any length with its
value, `Natural` and `Integer` put a sign in front, and a text `Writes` an integer if it is such a
numeral with blanks around it (`Padded`). Each reader takes exactly its part of the grammar
(`digits?_eq_some_iff_decimal`, `natural?_eq_some_iff`, `integer?_eq_some_iff`), and a reader of a
bounded number of bits takes the numerals of the numbers that fit, however they are written
(`signed?_eq_some_iff`, `unsigned?_eq_some_iff`). What is printed, with zeros in front and blanks
around it, is such a numeral (`counts_printed`).
-/

namespace HttpBinding.Text

/-! ### The grammar -/

/-- The characters are ASCII digits, at least one, and in decimal they stand for `n`. -/
inductive Decimal : List Char → Nat → Prop where
  | digit {d : Nat} (hd : d < 10) : Decimal [d.digitChar] d
  | more {cs : List Char} {n d : Nat} (h : Decimal cs n) (hd : d < 10) :
    Decimal (cs ++ [d.digitChar]) (10 * n + d)

/-- A decimal, possibly after a `+`. -/
inductive Natural : List Char → Nat → Prop where
  | plain {cs : List Char} {n : Nat} (h : Decimal cs n) : Natural cs n
  | plus {cs : List Char} {n : Nat} (h : Decimal cs n) : Natural ('+' :: cs) n

/-- A decimal, possibly after a sign. -/
inductive Integer : List Char → Int → Prop where
  | natural {cs : List Char} {n : Nat} (h : Natural cs n) : Integer cs n
  | minus {cs : List Char} {n : Nat} (h : Decimal cs n) : Integer ('-' :: cs) (-(n : Int))

/-- The text is made of the characters `cs`, with blanks around them. -/
def Padded (text : String) (cs : List Char) : Prop :=
  ∃ before after, text.toList = before ++ cs ++ after ∧
    ∀ c ∈ before ++ after, isBlank c = true

/-- The text is a numeral of the integer `n`, with blanks around it. -/
def Writes (text : String) (n : Int) : Prop := ∃ cs, Padded text cs ∧ Integer cs n

/-- The text is a numeral of `n` without a minus, with blanks around it. -/
def Counts (text : String) (n : Nat) : Prop := ∃ cs, Padded text cs ∧ Natural cs n

/-! ### Digits -/

theorem exists_digitChar_of_isDigit {c : Char} (h : c.isDigit = true) :
    ∃ d < 10, c = d.digitChar := by
  have hrange : 48 ≤ c.toNat ∧ c.toNat ≤ 57 := by
    simpa [Char.isDigit, UInt32.le_iff_toNat_le] using h
  refine ⟨c.toNat - 48, by omega, Char.toNat_inj.mp ?_⟩
  rw [Nat.toNat_digitChar_of_lt_ten (by omega)]
  omega

theorem Decimal.ne_nil {cs : List Char} {n : Nat} (h : Decimal cs n) : cs ≠ [] := by
  cases h <;> simp

theorem Decimal.isDigit {cs : List Char} {n : Nat} (h : Decimal cs n) :
    ∀ c ∈ cs, c.isDigit = true := by
  induction h with
  | digit hd => simpa using hd
  | more h hd ih =>
      intro c hc
      rcases List.mem_append.mp hc with hc | hc
      · exact ih c hc
      · obtain rfl := List.mem_singleton.mp hc
        simpa using hd

/-- The value is that of the positional notation. -/
theorem Decimal.value {cs : List Char} {n : Nat} (h : Decimal cs n) :
    Nat.ofDigitChars 10 cs 0 = n := by
  induction h with
  | digit hd => simp [Nat.ofDigitChars_cons_digitChar_of_lt_ten hd]
  | more h hd ih =>
      rw [Nat.ofDigitChars_append, ih, Nat.ofDigitChars_cons_digitChar_of_lt_ten hd,
        Nat.ofDigitChars_nil]

theorem decimal_ofDigitChars {cs : List Char} (hne : cs ≠ [])
    (hdigits : ∀ c ∈ cs, c.isDigit = true) : Decimal cs (Nat.ofDigitChars 10 cs 0) := by
  induction cs using List.reverseRecOn with
  | nil => exact absurd rfl hne
  | append_singleton cs c ih =>
      obtain ⟨d, hd, rfl⟩ := exists_digitChar_of_isDigit (hdigits c (by simp))
      rw [Nat.ofDigitChars_append, Nat.ofDigitChars_cons_digitChar_of_lt_ten hd,
        Nat.ofDigitChars_nil]
      by_cases hnil : cs = []
      · subst hnil
        simpa using Decimal.digit hd
      · exact (ih hnil fun c hc => hdigits c (by simp [hc])).more hd

theorem digits?_eq_some_iff_decimal {cs : List Char} {n : Nat} :
    digits? cs = some n ↔ Decimal cs n := by
  rw [digits?_eq_some_iff]
  constructor
  · rintro ⟨hne, hdigits, rfl⟩
    exact decimal_ofDigitChars hne hdigits
  · intro h
    exact ⟨h.ne_nil, h.isDigit, h.value⟩

/-! ### Signs -/

/-- A decimal does not begin with a sign. -/
theorem not_decimal_of_not_isDigit {c : Char} (hc : c.isDigit = false) (cs : List Char) (n : Nat) :
    ¬Decimal (c :: cs) n := by
  intro h
  rw [h.isDigit c (by simp)] at hc
  cases hc

theorem natural?_eq_some_iff {cs : List Char} {n : Nat} :
    natural? cs = some n ↔ Natural cs n := by
  unfold natural?
  split
  · rw [digits?_eq_some_iff_decimal]
    refine ⟨.plus, fun h => ?_⟩
    cases h with
    | plain h => exact absurd h (not_decimal_of_not_isDigit (by decide) _ _)
    | plus h => exact h
  · rename_i hsign
    rw [digits?_eq_some_iff_decimal]
    refine ⟨.plain, fun h => ?_⟩
    cases h with
    | plain h => exact h
    | plus h => exact absurd rfl (hsign _)

theorem not_natural_minus (cs : List Char) (n : Nat) : ¬Natural ('-' :: cs) n := by
  intro h
  cases h with
  | plain h => exact not_decimal_of_not_isDigit (by decide) _ _ h

theorem integer?_eq_some_iff {cs : List Char} {n : Int} :
    integer? cs = some n ↔ Integer cs n := by
  -- the value is read as an integer before the sign is looked at
  have hcast : ∀ o : Option Nat, (do let a ← o; pure (a : Int)) = o.map fun (a : Nat) => (a : Int) := by
    intro o
    cases o <;> rfl
  unfold integer?
  split
  · simp only [hcast, Option.map_map, Option.map_eq_some_iff, digits?_eq_some_iff_decimal]
    constructor
    · rintro ⟨m, h, rfl⟩
      exact .minus h
    · intro h
      cases h with
      | natural h => exact absurd h (not_natural_minus _ _)
      | minus h => exact ⟨_, h, rfl⟩
  · rename_i hsign
    simp only [hcast, Option.map_map, Option.map_eq_some_iff, natural?_eq_some_iff]
    constructor
    · rintro ⟨m, h, rfl⟩
      exact .natural h
    · intro h
      cases h with
      | natural h => exact ⟨_, h, rfl⟩
      | minus h => exact absurd rfl (hsign _)

/-! ### Blanks -/

theorem padded_trim (text : String) : Padded text (trim text.toList) := by
  generalize hcs : text.toList.dropWhile isBlank = cs
  refine ⟨text.toList.takeWhile isBlank, (cs.reverse.takeWhile isBlank).reverse, ?_, fun c hc => ?_⟩
  · have hrest : trim text.toList ++ (cs.reverse.takeWhile isBlank).reverse = cs := by
      rw [trim, trimEnd, hcs, ← List.reverse_append, List.takeWhile_append_dropWhile,
        List.reverse_reverse]
    rw [List.append_assoc, hrest, ← hcs, List.takeWhile_append_dropWhile]
  · rcases List.mem_append.mp hc with hc | hc
    · exact List.mem_takeWhile_imp hc
    · exact List.mem_takeWhile_imp (List.mem_reverse.mp hc)

/-- Characters of which none is blank are all that trimming leaves. -/
theorem Padded.trim_eq {text : String} {cs : List Char} (h : Padded text cs) (hne : cs ≠ [])
    (hcs : ∀ c ∈ cs, isBlank c = false) : trim text.toList = cs := by
  obtain ⟨before, after, heq, hblank⟩ := h
  have hbefore : ∀ c ∈ before, isBlank c = true := fun c hc => hblank c (by simp [hc])
  have hafter : ∀ c ∈ after, isBlank c = true := fun c hc => hblank c (by simp [hc])
  obtain ⟨c, rest, rfl⟩ := List.exists_cons_of_ne_nil hne
  have hfirst : isBlank c = false := hcs c (by simp)
  have hdrop : ∀ more, ((c :: rest) ++ more).dropWhile isBlank = (c :: rest) ++ more := by
    intro more
    simp [hfirst]
  calc trim text.toList = trimEnd ((c :: rest) ++ after) := by
        rw [heq, List.append_assoc, trim_blank_append hbefore, trim, hdrop]
    _ = trim (c :: rest) := by
        rw [trimEnd_append_blank hafter, trim, ← List.append_nil (c :: rest), hdrop]
    _ = c :: rest := trim_eq_self (fun d hd => hcs d (List.mem_of_mem_head? hd))
        fun d hd => hcs d (List.mem_of_mem_getLast? hd)

theorem Decimal.isBlank {cs : List Char} {n : Nat} (h : Decimal cs n) :
    ∀ c ∈ cs, isBlank c = false := by
  have hdigits : ∀ d < 10, Text.isBlank d.digitChar = false := by decide
  intro c hc
  obtain ⟨d, hd, rfl⟩ := exists_digitChar_of_isDigit (h.isDigit c hc)
  exact hdigits d hd

/-- A numeral has a character, and none of its characters is blank. -/
theorem Integer.solid {cs : List Char} {n : Int} (h : Integer cs n) :
    cs ≠ [] ∧ ∀ c ∈ cs, isBlank c = false := by
  have hsigned : ∀ {c : Char} {cs : List Char} {m : Nat}, Text.isBlank c = false → Decimal cs m →
      ∀ d ∈ c :: cs, Text.isBlank d = false := by
    intro c cs m hc h d hd
    rcases List.mem_cons.mp hd with rfl | hd
    · exact hc
    · exact h.isBlank d hd
  cases h with
  | natural h =>
      cases h with
      | plain h => exact ⟨h.ne_nil, h.isBlank⟩
      | plus h => exact ⟨by simp, hsigned (by decide) h⟩
  | minus h => exact ⟨by simp, hsigned (by decide) h⟩

theorem Natural.solid {cs : List Char} {n : Nat} (h : Natural cs n) :
    cs ≠ [] ∧ ∀ c ∈ cs, Text.isBlank c = false :=
  (Integer.natural h).solid

/-- What holds of characters that cannot be trimmed holds of a text with blanks around it if it
holds of what trimming leaves. -/
theorem exists_padded_iff {holds : List Char → Prop}
    (hsolid : ∀ cs, holds cs → cs ≠ [] ∧ ∀ c ∈ cs, isBlank c = false) (text : String) :
    (∃ cs, Padded text cs ∧ holds cs) ↔ holds (trim text.toList) := by
  constructor
  · rintro ⟨cs, hpadded, h⟩
    obtain ⟨hne, hcs⟩ := hsolid cs h
    rwa [hpadded.trim_eq hne hcs]
  · intro h
    exact ⟨_, padded_trim text, h⟩

theorem integer?_trim_eq_some_iff {text : String} {n : Int} :
    integer? (trim text.toList) = some n ↔ Writes text n := by
  rw [integer?_eq_some_iff, Writes, exists_padded_iff fun _ => Integer.solid]

theorem natural?_trim_eq_some_iff {text : String} {n : Nat} :
    natural? (trim text.toList) = some n ↔ Counts text n := by
  rw [natural?_eq_some_iff, Counts, exists_padded_iff fun _ => Natural.solid]

/-- A text writes one number at most. -/
theorem Writes.unique {text : String} {n m : Int} (h : Writes text n) (h' : Writes text m) :
    n = m := by
  rw [← integer?_trim_eq_some_iff] at h h'
  exact Option.some.inj (h.symm.trans h')

/-- Signed numerals are read if their number fits, whatever their length. -/
theorem signed?_eq_some_iff {bits : Nat} {text : String} {n : Int} :
    signed? bits text = some n ↔ Writes text n ∧
      -((1 <<< (bits - 1) : Nat) : Int) ≤ n ∧ n < (1 <<< (bits - 1) : Nat) := by
  simp only [signed?, Option.filter_eq_some_iff, integer?_trim_eq_some_iff, Bool.and_eq_true,
    decide_eq_true_eq]

/-! ### Numerals without a minus -/

theorem Counts.unique {text : String} {n m : Nat} (h : Counts text n) (h' : Counts text m) :
    n = m := by
  rw [← natural?_trim_eq_some_iff] at h h'
  exact Option.some.inj (h.symm.trans h')

/-- Unsigned numerals are read if their number fits, whatever their length. -/
theorem unsigned?_eq_some_iff {bits : Nat} {text : String} {n : Nat} :
    unsigned? bits text = some n ↔ Counts text n ∧ n < 1 <<< bits := by
  simp only [unsigned?, Option.filter_eq_some_iff, natural?_trim_eq_some_iff, decide_eq_true_eq]

/-- What is printed is a numeral of the number, whatever zeros and blanks are put around it. -/
theorem counts_printed {before after sign : String} (hsign : sign = "" ∨ sign = "+")
    (hblank : ∀ c ∈ before.toList ++ after.toList, isBlank c = true) (zeros n : Nat) :
    Counts (before ++ sign ++ String.ofList (List.replicate zeros '0') ++ toString n ++ after)
      n := by
  have hdigits : Decimal (List.replicate zeros '0' ++ Nat.toDigits 10 n) n :=
    digits?_eq_some_iff_decimal.mp (digits?_zeros_append_toDigits zeros n)
  refine ⟨sign.toList ++ (List.replicate zeros '0' ++ Nat.toDigits 10 n),
    ⟨before.toList, after.toList, ?_, hblank⟩, ?_⟩
  · simp
  · rcases hsign with rfl | rfl
    · exact .plain hdigits
    · exact .plus hdigits

end HttpBinding.Text
