import HttpBinding.Toml.Moment
import HttpBinding.Toml.Node
import HttpBinding.Toml.Number
import HttpBinding.Toml.Quoted

/-!
# HttpBinding.Toml.Reader

Keys and values of a TOML document.

Values nest by arrays and inline tables; the reader follows `depthLimit` levels and refuses a
deeper document. Its recursion is on the levels that are left, and for the elements of one array
or table on the number of characters that are left. Dotted keys have the same limit.
-/

namespace HttpBinding.Toml

/-- How many arrays and inline tables may be inside one another, and how many parts a dotted
key may have. -/
def depthLimit : Nat := 79

/-! ### Keys -/

/-- One part of a key. -/
def keyPart? : List Char → Option (String × List Char)
  | '"' :: cs => (escapedText? .plain cs).map fun (text, cs) => (String.ofList text, cs)
  | '\'' :: cs => (literalText? cs).map fun (text, cs) => (String.ofList text, cs)
  | cs =>
    let bare := cs.takeWhile isBare
    if bare.isEmpty then none else some (String.ofList bare, cs.dropWhile isBare)

/-- A key of at most `limit` parts with dots between them, and the spaces around it: the parts
before the last one, and the last one. -/
def key? : Nat → List Char → Option ((List String × String) × List Char)
  | 0, _ => none
  | limit + 1, cs => do
    let (part, cs) ← keyPart? (skipSpaces cs)
    match skipSpaces cs with
    | '.' :: cs => do
      let ((path, last), cs) ← key? limit cs
      some ((part :: path, last), cs)
    | cs => some (([], part), cs)

/-! ### Values of one word -/

/-- A character of a number or a moment. -/
def isWord (c : Char) : Bool :=
  c.isAlphanum || c == '+' || c == '-' || c == '_' || c == '.' || c == ':'

/-- The value that a word writes. -/
def wordValue? (word : List Char) : Option Value :=
  if word == ['t', 'r', 'u', 'e'] then some (.boolean true)
  else if word == ['f', 'a', 'l', 's', 'e'] then some (.boolean false)
  else if isMoment word then some (.datetime (String.ofList word))
  else if isFloat word then some (.float (String.ofList word))
  else (integer? word).map .integer

/-- The value that a word writes, and what is left. A date may be followed by a space and a
time. -/
def word? (cs : List Char) : Option (Value × List Char) :=
  let word := cs.takeWhile isWord
  let rest := cs.dropWhile isWord
  match rest with
  | ' ' :: more =>
    let second := more.takeWhile isWord
    if isDate word && isOffsetTime second then
      some (.datetime (String.ofList (word ++ ' ' :: second)), more.dropWhile isWord)
    else (wordValue? word).map fun v => (v, rest)
  | _ => (wordValue? word).map fun v => (v, rest)

/-! ### Values that nest -/

/-- The elements of an array behind its bracket or a comma, given a reader for one of them. -/
def items? (element? : List Char → Option (Value × List Char)) :
    Nat → List Char → Option (List Value × List Char)
  | 0, _ => none
  | fuel + 1, cs =>
    match skipTrivia false cs with
    | ']' :: cs => some ([], cs)
    | cs => do
      let (v, cs) ← element? cs
      match skipTrivia false cs with
      | ',' :: cs => do
        let (vs, cs) ← items? element? fuel cs
        some (v :: vs, cs)
      | ']' :: cs => some ([v], cs)
      | _ => none

/-- The entries of an inline table behind its brace or a comma, added to those before. -/
def fields? (element? : List Char → Option (Value × List Char)) :
    Nat → Entries → List Char → Option (Entries × List Char)
  | 0, _, _ => none
  | fuel + 1, entries, cs => do
    let ((path, last), cs) ← key? depthLimit cs
    let cs ← expect? ['='] cs
    let (v, cs) ← element? (skipSpaces cs)
    let entries ← insert path last v .defined entries
    match skipSpaces cs with
    | ',' :: cs => fields? element? fuel entries cs
    | '}' :: cs => some (entries, cs)
    | _ => none

/-- A value inside of which `depth` more levels are allowed, and what is left. -/
def value? : Nat → List Char → Option (Value × List Char)
  | depth, cs =>
    match cs with
    | [] => none
    | c :: rest =>
      if c == '"' || c == '\'' then
        (quoted? cs).map fun (text, cs) => (.string (String.ofList text), cs)
      else if c == '[' then
        match depth with
        | 0 => none
        | depth + 1 =>
          (items? (value? depth) (rest.length + 1) rest).map fun (vs, cs) => (.array vs, cs)
      else if c == '{' then
        match depth with
        | 0 => none
        | depth + 1 =>
          match skipSpaces rest with
          | '}' :: cs => some (.table [], cs)
          | rest =>
            (fields? (value? depth) (rest.length + 1) [] rest).map fun (entries, cs) =>
              (.table (tableOf entries), cs)
      else if c == '_' || c == '.' || c == ':' then none
      else word? cs

end HttpBinding.Toml
