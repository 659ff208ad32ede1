import HttpBinding.Toml.Chars

/-!
# HttpBinding.Toml.Number

The numbers of a TOML document.

A number is read from the whole word in which it stands. An underscore may separate two digits;
a decimal number has no leading zeros; integers have 64 bits. A float may be as precise as it
likes, but a positive one must not be too large to be told from infinity.
-/

namespace HttpBinding.Toml

/-- The digits of a run in which single underscores may separate two of them. -/
def ungroup? (isDigit : Char → Bool) : List Char → Option (List Char)
  | [] => none
  | [c] => if isDigit c then some [c] else none
  | c :: '_' :: cs => if isDigit c then (ungroup? isDigit cs).map (c :: ·) else none
  | c :: cs => if isDigit c then (ungroup? isDigit cs).map (c :: ·) else none

/-- The digits of a decimal number without its sign. -/
def decimalDigits? (cs : List Char) : Option (List Char) :=
  (ungroup? Char.isDigit cs).filter fun ds => ds.length = 1 || ds.head? != some '0'

/-- A sign, if there is one, and the rest; `true` stands for a minus. -/
def splitSign : List Char → Bool × List Char
  | '-' :: cs => (true, cs)
  | '+' :: cs => (false, cs)
  | cs => (false, cs)

/-- An integer of 64 bits. -/
def int64? (n : Int) : Option Int :=
  if Int64.minValue.toInt ≤ n ∧ n ≤ Int64.maxValue.toInt then some n else none

/-- The value of a run of digits to a base. -/
def radixValue (base : Nat) (ds : List Char) : Nat :=
  ds.foldl (fun n c => base * n + (hexValue? c).getD 0) 0

/-- A number to a base, from a run of digits that are below it. -/
def radixInteger? (base : Nat) (cs : List Char) : Option Int := do
  let ds ← ungroup? (fun c => (hexValue? c).any (· < base)) cs
  int64? (radixValue base ds)

/-- The integer that a word writes. -/
def integer? : List Char → Option Int
  | '0' :: 'x' :: cs => radixInteger? 16 cs
  | '0' :: 'o' :: cs => radixInteger? 8 cs
  | '0' :: 'b' :: cs => radixInteger? 2 cs
  | cs => do
    let (negative, cs) := splitSign cs
    let ds ← decimalDigits? cs
    let n : Int := Nat.ofDigitChars 10 ds 0
    int64? (if negative then -n else n)

/-! ### Floats -/

/-- Half a unit above the largest float: what is written from here on is read as infinity. -/
def infiniteFrom : Nat := 1 <<< 1024 - 1 <<< 970

/-- Whether `m * 10 ^ e` is read as infinity. Only numbers of 309 digits need a comparison. -/
def isInfinite (m : Nat) (e : Int) : Bool :=
  let digits : Int := (Nat.toDigits 10 m).length
  if m = 0 then false
  else if digits + e > 309 then true
  else if digits + e < 309 then false
  else if 0 ≤ e then infiniteFrom ≤ m * Nat.pow 10 e.toNat
  else infiniteFrom * Nat.pow 10 (-e).toNat ≤ m

/-- The exponent that a word ends with: none at all, or `e` and a number that may have leading
zeros. -/
def exponent? : List Char → Option Int
  | [] => some 0
  | c :: cs =>
    if c == 'e' || c == 'E' then do
      let (negative, cs) := splitSign cs
      let ds ← ungroup? Char.isDigit cs
      let n : Int := Nat.ofDigitChars 10 ds 0
      some (if negative then -n else n)
    else none

/-- A digit or a separator. -/
def isGrouped (c : Char) : Bool := c.isDigit || c == '_'

/-- Whether a word writes a float: digits with a fraction, an exponent or both, or one of `inf`
and `nan`. -/
def isFloat (word : List Char) : Bool :=
  let (negative, cs) := splitSign word
  if cs == ['i', 'n', 'f'] || cs == ['n', 'a', 'n'] then true
  else
    let whole := cs.takeWhile isGrouped
    let (fraction, scale, bare) :=
      match cs.dropWhile isGrouped with
      | '.' :: rest => (some (rest.takeWhile isGrouped), rest.dropWhile isGrouped, false)
      | rest => (none, rest, rest.isEmpty)
    if bare then false
    else
      match decimalDigits? whole, fraction.map (ungroup? Char.isDigit), exponent? scale with
      | some ds, none, some e => negative || !isInfinite (Nat.ofDigitChars 10 ds 0) e
      | some ds, some (some fs), some e =>
        negative || !isInfinite (Nat.ofDigitChars 10 (ds ++ fs) 0) (e - fs.length)
      | _, _, _ => false

end HttpBinding.Toml
