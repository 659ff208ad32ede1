/-!
# HttpBinding.Text.Blank

White space as Unicode's `White_Space` property has it, and trimming.

Attribute and environment values may be padded with any of these characters. Main statements:
blanks put in front do not change the result of trimming, and a text whose first and last
characters are no blanks is left as it is.
-/

namespace HttpBinding.Text

/-- A character with the Unicode property `White_Space`. -/
def isBlank (c : Char) : Bool :=
  let n := c.toNat
  (0x0009 ≤ n && n ≤ 0x000D) || n == 0x0020 || n == 0x0085 || n == 0x00A0 || n == 0x1680 ||
  (0x2000 ≤ n && n ≤ 0x200A) || n == 0x2028 || n == 0x2029 || n == 0x202F || n == 0x205F ||
  n == 0x3000

/-- The text without the blanks at its end. -/
def trimEnd (cs : List Char) : List Char := (cs.reverse.dropWhile isBlank).reverse

/-- The text without the blanks at either end. -/
def trim (cs : List Char) : List Char := trimEnd (cs.dropWhile isBlank)

/-! ### What trimming removes -/

theorem dropWhile_blank_append {pad : List Char} (h : ∀ c ∈ pad, isBlank c = true)
    (cs : List Char) : (pad ++ cs).dropWhile isBlank = cs.dropWhile isBlank := by
  induction pad with
  | nil => rfl
  | cons c pad ih =>
    have hc : isBlank c = true := h c (by simp)
    simp [hc, ih fun d hd => h d (by simp [hd])]

theorem trimEnd_append_blank {pad : List Char} (h : ∀ c ∈ pad, isBlank c = true)
    (cs : List Char) : trimEnd (cs ++ pad) = trimEnd cs := by
  unfold trimEnd
  rw [List.reverse_append, dropWhile_blank_append (by simpa using h)]

@[simp] theorem trim_nil : trim [] = [] := rfl

/-- Blanks put in front change nothing. -/
theorem trim_blank_append {pad : List Char} (h : ∀ c ∈ pad, isBlank c = true)
    (cs : List Char) : trim (pad ++ cs) = trim cs := by
  unfold trim
  rw [dropWhile_blank_append h]

/-- A text whose first and last characters are no blanks is left as it is. -/
theorem trim_eq_self {cs : List Char} (hfirst : ∀ c ∈ cs.head?, isBlank c = false)
    (hlast : ∀ c ∈ cs.getLast?, isBlank c = false) : trim cs = cs := by
  have hdrop : ∀ ds : List Char, (∀ c ∈ ds.head?, isBlank c = false) →
      ds.dropWhile isBlank = ds := by
    intro ds hds
    cases ds with
    | nil => rfl
    | cons d ds => simp [hds d (by simp)]
  unfold trim trimEnd
  rw [hdrop cs hfirst, hdrop cs.reverse (by simpa [List.head?_reverse] using hlast),
    List.reverse_reverse]

end HttpBinding.Text
