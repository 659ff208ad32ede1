/-!
# HttpBinding.StreamId

The identifiers under which sessions are registered and which clients repeat as `sid`.

Any text may serve; two identifiers are equal exactly if their texts are, and they are ordered
as their texts are (by code point, which is also the order of their UTF-8 bytes). Fresh ones are
random: version 4 UUIDs written as 32 lower-case hexadecimal digits.
-/

namespace HttpBinding

/-- Identifier of one session. -/
structure StreamId where
  text : String
deriving DecidableEq, Repr, Inhabited

namespace StreamId

instance : ToString StreamId := ⟨StreamId.text⟩

/-- The order of the texts. -/
def le (a b : StreamId) : Bool := a.text ≤ b.text

/-- The identifiers from the least to the greatest. -/
def sort (ids : List StreamId) : List StreamId := ids.mergeSort le

/-- How many different identifiers there are: in order, equal ones are neighbours. -/
def distinct (ids : List StreamId) : Nat := (sort ids).eraseReps.length

/-! ### Random identifiers -/

/-- The lower-case hexadecimal digit of a value below 16. -/
def hexDigit (n : Nat) : Char :=
  if n < 10 then Char.ofNat (n + '0'.toNat) else Char.ofNat (n - 10 + 'a'.toNat)

/-- The last `width` hexadecimal digits of `n`, the most significant first. -/
def hex : Nat → Nat → List Char
  | 0, _ => []
  | width + 1, n => hex width (n / 16) ++ [hexDigit (n % 16)]

@[simp] theorem length_hex (width n : Nat) : (hex width n).length = width := by
  induction width generalizing n with
  | zero => rfl
  | succ width ih => simp [hex, ih]

/-- The UUID whose 122 free bits are taken from the digits of `n`: twelve digits, the version
digit `4`, three digits, the variant digit, fifteen digits. -/
def ofEntropy (n : Nat) : StreamId where
  text := String.ofList <|
    hex 12 (n >>> 74) ++ ['4'] ++ hex 3 (n >>> 62) ++
      [hexDigit (8 + (n >>> 60) % 4)] ++ hex 15 n

/-- A source of fresh random identifiers. -/
structure Source where
  generator : StdGen

/-- The source started from a seed. -/
def Source.ofSeed (seed : Nat) : Source := ⟨mkStdGen seed⟩

/-- The next identifier and the source after it. -/
def Source.next (source : Source) : StreamId × Source :=
  let (n, generator) := randNat source.generator 0 (1 <<< 122 - 1)
  (ofEntropy n, ⟨generator⟩)

/-- The next `count` identifiers. -/
def Source.take : Nat → Source → List StreamId
  | 0, _ => []
  | count + 1, source =>
    let (id, source) := source.next
    id :: source.take count

/-- Has the shape of a random identifier: 32 lower-case hexadecimal digits, version 4, and the
variant digit between `8` and `b`. -/
def isWellFormed (id : StreamId) : Bool :=
  let cs := id.text.toList
  cs.length == 32 && cs.all (fun c => c.isDigit || ('a' ≤ c && c ≤ 'f')) &&
    cs[12]? == some '4' &&
    (cs[16]? == some '8' || cs[16]? == some '9' || cs[16]? == some 'a' || cs[16]? == some 'b')

@[simp] theorem length_take (count : Nat) (source : Source) :
    (source.take count).length = count := by
  induction count generalizing source with
  | zero => rfl
  | succ count ih => simp [Source.take, ih]

end StreamId

end HttpBinding
