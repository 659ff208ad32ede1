import HttpBinding.Toml.Chars

/-!
# HttpBinding.Toml.Moment

The dates and times of a TOML document.

A moment is a date, a time, or a date and a time with or without an offset. Only its form and
the ranges of its parts matter; it is kept as it is written.
-/

namespace HttpBinding.Toml

/-- A number of exactly two digits, not above `most`, and what is left. -/
def twoDigits? (most : Nat) : List Char → Option (Nat × List Char)
  | a :: b :: cs =>
    let n := Nat.ofDigitChars 10 [a, b] 0
    if a.isDigit && b.isDigit && n ≤ most then some (n, cs) else none
  | _ => none

/-- The number of days of a month. -/
def daysIn (year month : Nat) : Nat :=
  if month = 2 then
    if year % 4 = 0 ∧ (year % 100 ≠ 0 ∨ year % 400 = 0) then 29 else 28
  else if month = 4 ∨ month = 6 ∨ month = 9 ∨ month = 11 then 30
  else 31

/-- What is left after a date. -/
def date? : List Char → Option (List Char)
  | a :: b :: c :: d :: '-' :: cs => do
    guard ([a, b, c, d].all Char.isDigit)
    let year := Nat.ofDigitChars 10 [a, b, c, d] 0
    let (month, cs) ← twoDigits? 12 cs
    let cs ← expect? ['-'] cs
    let (day, cs) ← twoDigits? 31 cs
    guard (1 ≤ month ∧ 1 ≤ day ∧ day ≤ daysIn year month)
    some cs
  | _ => none

/-- What is left after a time. A minute may have a leap second, and a fraction of a second has
any number of digits. -/
def time? (cs : List Char) : Option (List Char) := do
  let (_, cs) ← twoDigits? 23 cs
  let cs ← expect? [':'] cs
  let (_, cs) ← twoDigits? 59 cs
  let cs ← expect? [':'] cs
  let (_, cs) ← twoDigits? 60 cs
  match cs with
  | '.' :: c :: rest => if c.isDigit then some (rest.dropWhile Char.isDigit) else some cs
  | _ => some cs

/-- Whether a word is an offset: nothing, `Z`, or hours and minutes with a sign. -/
def isOffset : List Char → Bool
  | [] | ['Z'] | ['z'] => true
  | c :: cs =>
    (c == '+' || c == '-') && Option.isSome do
      let (_, cs) ← twoDigits? 23 cs
      let cs ← expect? [':'] cs
      let (_, cs) ← twoDigits? 59 cs
      guard cs.isEmpty

/-- Whether a word is a time with or without an offset. -/
def isOffsetTime (word : List Char) : Bool := (time? word).any isOffset

/-- Whether a word is a date, and nothing else. -/
def isDate (word : List Char) : Bool := date? word == some []

/-- Whether a word is a date, a time, or a date and a time with the letter `T` between them. -/
def isMoment (word : List Char) : Bool :=
  match date? word with
  | some [] => true
  | some (c :: rest) => (c == 'T' || c == 't') && isOffsetTime rest
  | none => time? word == some []

/-- Whether a text is a moment, where a space may stand for the letter `T`. -/
def isMomentText (text : List Char) : Bool :=
  match date? text with
  | some (' ' :: rest) => isOffsetTime rest
  | _ => isMoment text

end HttpBinding.Toml
