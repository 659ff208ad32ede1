import HttpBinding.Toml.Chars

/-!
# HttpBinding.Toml.Quoted

The quoted texts of a TOML document.

There are four forms: between `"` with escapes, between `'` without, and both again between three
quotes each, where a text may run over several lines. The readers start behind the opening
quotes and give the text and what is left behind the closing ones.
-/

namespace HttpBinding.Toml

/-- Where a reader is inside a text with escapes. -/
inductive Spot where
  /-- Between two characters. -/
  | plain
  /-- Behind a backslash. -/
  | escaped
  /-- Inside an escape by code point, with the digits that are missing and the value so far. -/
  | code (missing value : Nat)
  /-- Behind a backslash that joins two lines, before the end of the line. -/
  | joining
  /-- Behind the end of a line that is joined to the next one. -/
  | joined

/-- The character that a letter stands for behind a backslash. -/
def escapeValue? : Char → Option Char
  | 'b' => some '\x08'
  | 't' => some '\t'
  | 'n' => some '\n'
  | 'f' => some '\x0c'
  | 'r' => some '\r'
  | '"' => some '"'
  | '\\' => some '\\'
  | _ => none

/-- The character with a code point. -/
def scalar? (n : Nat) : Option Char := if n.isValidChar then some (Char.ofNat n) else none

/-- Puts a character in front of a text that was read. -/
def push (c : Char) : Option (List Char × List Char) → Option (List Char × List Char)
  | some (text, rest) => some (c :: text, rest)
  | none => none

/-- A text between `"`, with escapes. -/
def escapedText? : Spot → List Char → Option (List Char × List Char)
  | .plain, '"' :: cs => some ([], cs)
  | .plain, '\\' :: cs => escapedText? .escaped cs
  | .plain, c :: cs => if isPlain c then push c (escapedText? .plain cs) else none
  | .escaped, 'u' :: cs => escapedText? (.code 4 0) cs
  | .escaped, 'U' :: cs => escapedText? (.code 8 0) cs
  | .escaped, c :: cs => (escapeValue? c).bind fun e => push e (escapedText? .plain cs)
  | .code missing value, c :: cs => (hexValue? c).bind fun d =>
    if missing ≤ 1 then
      (scalar? (16 * value + d)).bind fun e => push e (escapedText? .plain cs)
    else escapedText? (.code (missing - 1) (16 * value + d)) cs
  | _, _ => none

/-- A text between `'`. -/
def literalText? : List Char → Option (List Char × List Char)
  | '\'' :: cs => some ([], cs)
  | c :: cs => if isPlain c then push c (literalText? cs) else none
  | [] => none

/-- Up to two quotes that end a text of several lines belong to it; `cs` is what follows the
first three. -/
def closing (quote : Char) : List Char → List Char × List Char
  | a :: b :: cs =>
    if a == quote && b == quote then ([quote, quote], cs)
    else if a == quote then ([quote], b :: cs)
    else ([], a :: b :: cs)
  | [a] => if a == quote then ([quote], []) else ([], [a])
  | [] => ([], [])

/-- A text between three `"`, with escapes; a backslash at the end of a line joins it to the
next character that is no blank. -/
def escapedLines? : Spot → List Char → Option (List Char × List Char)
  | .plain, '"' :: '"' :: '"' :: cs => some (closing '"' cs)
  | .plain, '\\' :: cs => escapedLines? .escaped cs
  | .plain, '\n' :: cs => push '\n' (escapedLines? .plain cs)
  | .plain, '\r' :: '\n' :: cs => push '\n' (escapedLines? .plain cs)
  | .plain, c :: cs => if isPlain c then push c (escapedLines? .plain cs) else none
  | .escaped, 'u' :: cs => escapedLines? (.code 4 0) cs
  | .escaped, 'U' :: cs => escapedLines? (.code 8 0) cs
  | .escaped, '\n' :: cs => escapedLines? .joined cs
  | .escaped, '\r' :: '\n' :: cs => escapedLines? .joined cs
  | .escaped, c :: cs =>
    if isSpace c then escapedLines? .joining cs
    else (escapeValue? c).bind fun e => push e (escapedLines? .plain cs)
  | .code missing value, c :: cs => (hexValue? c).bind fun d =>
    if missing ≤ 1 then
      (scalar? (16 * value + d)).bind fun e => push e (escapedLines? .plain cs)
    else escapedLines? (.code (missing - 1) (16 * value + d)) cs
  | .joining, '\n' :: cs => escapedLines? .joined cs
  | .joining, '\r' :: '\n' :: cs => escapedLines? .joined cs
  | .joining, c :: cs => if isSpace c then escapedLines? .joining cs else none
  | .joined, '\n' :: cs => escapedLines? .joined cs
  | .joined, '\r' :: '\n' :: cs => escapedLines? .joined cs
  | .joined, '"' :: '"' :: '"' :: cs => some (closing '"' cs)
  | .joined, '\\' :: cs => escapedLines? .escaped cs
  | .joined, c :: cs =>
    if isSpace c then escapedLines? .joined cs
    else if isPlain c then push c (escapedLines? .plain cs)
    else none
  | _, [] => none

/-- A text between three `'`. -/
def literalLines? : List Char → Option (List Char × List Char)
  | '\'' :: '\'' :: '\'' :: cs => some (closing '\'' cs)
  | '\n' :: cs => push '\n' (literalLines? cs)
  | '\r' :: '\n' :: cs => push '\n' (literalLines? cs)
  | c :: cs => if isPlain c then push c (literalLines? cs) else none
  | [] => none

/-- The end of a line directly behind three opening quotes is no part of the text. -/
def skipFirstNewline (cs : List Char) : List Char := (newline? cs).getD cs

/-- A quoted text of any form. -/
def quoted? : List Char → Option (List Char × List Char)
  | '"' :: '"' :: '"' :: cs => escapedLines? .plain (skipFirstNewline cs)
  | '"' :: cs => escapedText? .plain cs
  | '\'' :: '\'' :: '\'' :: cs => literalLines? (skipFirstNewline cs)
  | '\'' :: cs => literalText? cs
  | _ => none

end HttpBinding.Toml
