/-!
# HttpBinding.Settings.Files

The files among which settings are looked for.

There is the user's own settings file and the working directory with what lies around it. A path
is followed step by step, so that a step through something that is no directory leads nowhere.
Points to note:

* A `Place` is reached from the working directory by going up a number of levels and then down
  some steps. How deep the working directory lies is not known, so there is always a level more to
  go up to; the root of all directories is a place of its own, and up from it is the root again.
* Every place above the working directory is a directory, and so is every place that is passed on
  the path to a file, also when the path leaves it again.
* Nothing is known to lie in the root.
-/

namespace HttpBinding.Settings

/-- What sits at a path. -/
inductive Content where
  | text (text : String)
  /-- A file given by its bytes. -/
  | bytes (data : ByteArray)
  | directory

/-- The text of a file; a directory has none, and neither have bytes that are not UTF-8. -/
def Content.read? : Content → Option String
  | .text t => some t
  | .bytes data => String.fromUTF8? data
  | .directory => none

/-! ### Places -/

/-- Names to follow one after the other. -/
abbrev Steps := List String

/-- Where a path can lead. -/
inductive Place where
  /-- The root of all directories. -/
  | root
  /-- So many levels above the working directory and then down some steps. -/
  | around (up : Nat) (down : Steps)
deriving DecidableEq, Repr

namespace Place

/-- The working directory. -/
def here : Place := .around 0 []

/-- The place one level up. -/
def parent : Place → Place
  | .root => .root
  | .around up [] => .around (up + 1) []
  | .around up down => .around up down.dropLast

/-- The place with a name in a directory; nothing with a name is known in the root. -/
def child? : Place → String → Option Place
  | .root, _ => none
  | .around up down, name => some (.around up (down ++ [name]))

/-- A step that stays where it is. -/
def isIdle (step : String) : Bool := step == "" || step == "."

/-- Where one step leads. -/
def step? (place : Place) (step : String) : Option Place :=
  if isIdle step then some place
  else if step == ".." then some place.parent
  else place.child? step

/-- Where some steps lead, and the places that are passed on the way. -/
def walk? : Place → Steps → Option (List Place × Place)
  | place, [] => some ([], place)
  | place, step :: steps => do
    let next ← place.step? step
    let (passed, last) ← walk? next steps
    some (place :: passed, last)

@[simp] theorem parent_root : parent .root = .root := rfl

/-- Going down a step and up again leads back. -/
@[simp] theorem parent_child (up : Nat) (down : Steps) (name : String) :
    parent (.around up (down ++ [name])) = .around up down := by
  cases h : down ++ [name] with
  | nil => simp at h
  | cons first rest =>
    rw [parent, ← h, List.dropLast_concat]
    simp

end Place

/-! ### Files -/

/-- The files that can be seen. -/
structure Files where
  /-- The user's own settings file. -/
  user : Option Content := none
  /-- What lies around the working directory; the first entry for a place counts. -/
  contents : List (Place × Content) := []

namespace Files

/-- A path of so many bytes is too long to be followed. -/
def pathLimit : Nat := 4096

/-- The steps that a path is written with. -/
def splitPath (path : String) : Steps := path.splitOn "/"

/-- Where a path begins: at the root if it begins with a slash, and else in the working
directory. -/
def start (path : String) : Place := if path.startsWith "/" then .root else .here

/-- The files with one more at a path, and with the directories that the path passes. -/
def add (fs : Files) (path : String) (content : Content) : Files :=
  match (start path).walk? (splitPath path) with
  | some (passed, place) =>
    { fs with
      contents := (place, content) :: fs.contents ++ passed.map fun p => (p, .directory) }
  | none => fs

/-- What sits at a place. -/
def at? (fs : Files) : Place → Option Content
  | .root | .around _ [] => some .directory
  | place => fs.contents.lookup place

/-- A place is a directory. -/
def isDirectory (fs : Files) (place : Place) : Bool :=
  match fs.at? place with
  | some .directory => true
  | _ => false

/-- What the steps of a path lead to from a place. -/
def follow? (fs : Files) : Place → Steps → Option Content
  | place, [] => fs.at? place
  | place, step :: steps =>
    if fs.isDirectory place then (place.step? step).bind fun place => follow? fs place steps
    else none

/-- What a path leads to. The empty path leads nowhere, and so does one that is too long. -/
def find? (fs : Files) (path : String) : Option Content :=
  if path.isEmpty || pathLimit ≤ path.utf8ByteSize then none
  else fs.follow? (start path) (splitPath path)

end Files

end HttpBinding.Settings
