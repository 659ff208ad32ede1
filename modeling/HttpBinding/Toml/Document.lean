import HttpBinding.Toml.Reader

/-!
# HttpBinding.Toml.Document

Whole TOML documents.

A document is a sequence of lines, each of which is blank, defines a table, adds an element to an
array of tables, or gives a key a value in the table defined last. `read?` gives the table of the
document, or `none` if the text is not TOML.
-/

namespace HttpBinding.Toml

/-- A document while it is being read. -/
structure Document where
  /-- The entries of the document. -/
  entries : Entries := []
  /-- The path of the table defined last. -/
  current : List String := []

namespace Document

/-- Changes the table `key` or the array `key` at the end of a path. -/
def atHeader (d : Document) (path : List String) (key : String)
    (change : String → Origin → Entries → Option Entries) : Option Document :=
  (descend false (change key) path .defined d.entries).map fun entries =>
    { entries, current := path ++ [key] }

/-- Gives a key a value in the table defined last. -/
def put (d : Document) (path : List String) (key : String) (v : Value) : Option Document :=
  (descend false (insert path key v) d.current .defined d.entries).map fun entries =>
    { d with entries }

/-- The document after its next line, and what is left. -/
def line? (d : Document) : List Char → Option (Document × List Char)
  | '[' :: '[' :: cs => do
    let ((path, key), cs) ← key? depthLimit cs
    let cs ← expect? [']', ']'] cs
    let cs ← lineEnd? cs
    let d ← d.atHeader path key extendHere
    some (d, cs)
  | '[' :: cs => do
    let ((path, key), cs) ← key? depthLimit cs
    let cs ← expect? [']'] cs
    let cs ← lineEnd? cs
    let d ← d.atHeader path key defineHere
    some (d, cs)
  | cs => do
    let ((path, key), cs) ← key? depthLimit cs
    let cs ← expect? ['='] cs
    let (v, cs) ← value? depthLimit (skipSpaces cs)
    let cs ← lineEnd? cs
    let d ← d.put path key v
    some (d, cs)

/-- Reads at most `fuel` lines; one for each character is enough. -/
def lines? : Nat → Document → List Char → Option Document
  | 0, _, _ => none
  | fuel + 1, d, cs =>
    match skipSpaces cs with
    | [] => some d
    | c :: cs =>
      if c == '#' || c == '\n' || c == '\r' then (lineEnd? (c :: cs)).bind (lines? fuel d)
      else (d.line? (c :: cs)).bind fun (d, cs) => lines? fuel d cs

end Document

/-- The text without a byte order mark at its beginning. -/
def skipMark : List Char → List Char
  | '\uFEFF' :: cs => cs
  | cs => cs

/-- The table that a document writes. -/
def read? (text : String) : Option Table :=
  let cs := skipMark text.toList
  (Document.lines? (cs.length + 1) {} cs).map fun d => tableOf d.entries

end HttpBinding.Toml
