/-!
# HttpBinding.Toml.Chars

The characters of a TOML document, and what stands between its parts: spaces, comments, ends of
lines.

All readers take the characters that are left and give back those that are left after them;
`none` is a document that is not TOML. A line ends with a line feed, which a carriage return may
precede; a carriage return alone is not allowed anywhere.
-/

namespace HttpBinding.Toml

/-- A space inside a line. -/
def isSpace (c : Char) : Bool := c == ' ' || c == '\t'

/-- A character that a comment may hold: no control character but the tab. -/
def isPlain (c : Char) : Bool := c == '\t' || (' ' ≤ c && c ≤ '~') || 0x80 ≤ c.toNat

/-- A character of a bare key. -/
def isBare (c : Char) : Bool :=
  ('A' ≤ c && c ≤ 'Z') || ('a' ≤ c && c ≤ 'z') || c.isDigit || c == '-' || c == '_'

/-- The value of a hexadecimal digit. -/
def hexValue? (c : Char) : Option Nat :=
  if c.isDigit then some (c.toNat - '0'.toNat)
  else if 'a' ≤ c && c ≤ 'f' then some (c.toNat - 'a'.toNat + 10)
  else if 'A' ≤ c && c ≤ 'F' then some (c.toNat - 'A'.toNat + 10)
  else none

/-! ### Between the parts -/

/-- What is left after spaces. -/
def skipSpaces (cs : List Char) : List Char := cs.dropWhile isSpace

/-- What is left after the end of a line. -/
def newline? : List Char → Option (List Char)
  | '\n' :: cs => some cs
  | '\r' :: '\n' :: cs => some cs
  | _ => none

/-- What is left after a comment, if one begins here. -/
def skipComment : List Char → List Char
  | '#' :: cs => cs.dropWhile isPlain
  | cs => cs

/-- What is left after the rest of a line that holds nothing but spaces and a comment. -/
def lineEnd? (cs : List Char) : Option (List Char) :=
  match skipComment (skipSpaces cs) with
  | [] => some []
  | cs => newline? cs

/-- What is left after spaces, comments and ends of lines. In a comment (`inComment`) all plain
characters are passed over. -/
def skipTrivia (inComment : Bool) : List Char → List Char
  | [] => []
  | '\n' :: cs => skipTrivia false cs
  | '\r' :: '\n' :: cs => skipTrivia false cs
  | c :: cs =>
    if inComment then
      if isPlain c then skipTrivia true cs else c :: cs
    else if isSpace c then skipTrivia false cs
    else if c == '#' then skipTrivia true cs
    else c :: cs

/-- What is left after exactly these characters. -/
def expect? : List Char → List Char → Option (List Char)
  | [], cs => some cs
  | e :: es, c :: cs => if e == c then expect? es cs else none
  | _ :: _, [] => none

end HttpBinding.Toml
