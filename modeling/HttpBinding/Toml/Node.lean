import HttpBinding.Toml.Value

/-!
# HttpBinding.Toml.Node

Tables while a document is being read.

A table must not be defined twice, and what counts as defining it depends on how it came to be:
by a header of its own, as a mere step on the way to another header, or by a dotted key. So each
table carries its `Origin`:

* a step of a dotted key may pass through tables that have no header of their own;
* a header may take over a table that was a step of another header, and nothing else;
* an element is added to an array of tables only by headers, and every later path leads into its
  last element.

Entries are in the order in which they came to be; a table that was a step first and gets a header
of its own later moves to the end with it.
-/

namespace HttpBinding.Toml

/-- How a table came to be. -/
inductive Origin where
  /-- It has a header of its own, or it is the document, an element or an inline table. -/
  | defined
  /-- It was a step on the way to a header. -/
  | implied
  /-- It was a step of a dotted key. -/
  | dotted
deriving DecidableEq, Repr

/-- What stands under a key. -/
inductive Node where
  | leaf (v : Value)
  | table (origin : Origin) (entries : List (String × Node))
  /-- An array of tables, with the elements before the last one from the latest to the first. -/
  | tables (last : List (String × Node)) (earlier : List (List (String × Node)))

/-- The entries of a table that is being read. -/
abbrev Entries := List (String × Node)

/-- The entries with the one under `key` replaced. -/
def Entries.set (entries : Entries) (key : String) (node : Node) : Entries :=
  entries.map fun e => if e.1 == key then (key, node) else e

/-- The entries without the one under `key`. -/
def Entries.erase (entries : Entries) (key : String) : Entries :=
  entries.filter fun e => e.1 != key

/-- Changes the table to which a path leads from a table of the given origin. Tables that are
missing on the way are added; `viaKey` tells whether the path is a dotted key or part of a
header. -/
def descend (viaKey : Bool) (change : Origin → Entries → Option Entries) :
    List String → Origin → Entries → Option Entries
  | [], origin, entries => change origin entries
  | key :: path, _, entries =>
    match entries.lookup key with
    | none =>
      let origin := if viaKey then .dotted else .implied
      (descend viaKey change path origin []).map fun sub => entries ++ [(key, .table origin sub)]
    | some (.leaf _) => none
    | some (.table origin sub) =>
      if viaKey && origin == .defined then none
      else (descend viaKey change path origin sub).map fun sub =>
        entries.set key (.table origin sub)
    | some (.tables last earlier) =>
      (descend viaKey change path .defined last).map fun last =>
        entries.set key (.tables last earlier)

/-- Adds a value under the last part of a dotted key. -/
def insertHere (path : List String) (key : String) (v : Value) (origin : Origin)
    (entries : Entries) : Option Entries :=
  if (origin == .dotted) == path.isEmpty then none
  else if (entries.lookup key).isSome then none
  else some (entries ++ [(key, .leaf v)])

/-- Adds a value under a dotted key: `path` and then `key`. -/
def insert (path : List String) (key : String) (v : Value) (origin : Origin)
    (entries : Entries) : Option Entries :=
  descend true (insertHere path key v) path origin entries

/-- Defines the table `key`, which becomes the last entry. -/
def defineHere (key : String) (_ : Origin) (entries : Entries) : Option Entries :=
  match entries.lookup key with
  | none => some (entries ++ [(key, .table .defined [])])
  | some (.table .implied sub) => some (entries.erase key ++ [(key, .table .defined sub)])
  | some _ => none

/-- Adds an element to the array of tables `key`. -/
def extendHere (key : String) (_ : Origin) (entries : Entries) : Option Entries :=
  match entries.lookup key with
  | none => some (entries ++ [(key, .tables [] [])])
  | some (.tables last earlier) => some (entries.set key (.tables [] (last :: earlier)))
  | some _ => none

/-! ### The finished tables -/

mutual

/-- The value that a node stands for. -/
def Node.value : Node → Value
  | .leaf v => v
  | .table _ entries => .table (tableOf entries)
  | .tables last earlier => .array (elementsOf earlier [.table (tableOf last)])

/-- The table that entries stand for. -/
def tableOf : List (String × Node) → List (String × Value)
  | [] => []
  | (key, node) :: rest => (key, node.value) :: tableOf rest

/-- The elements of an array of tables, in front of those given. -/
def elementsOf : List (List (String × Node)) → List Value → List Value
  | [], elements => elements
  | entries :: earlier, elements => elementsOf earlier (.table (tableOf entries) :: elements)

end

end HttpBinding.Toml
