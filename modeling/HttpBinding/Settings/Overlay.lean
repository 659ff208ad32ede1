import HttpBinding.Settings
import HttpBinding.Toml.Document
import HttpBinding.Toml.Tagged

/-!
# HttpBinding.Settings.Overlay

Putting a settings file over settings.

Keys that the file does not mention keep their values. The settings are applied one after the
other, and the first one that is wrong ends the work: those before it stay applied. A fault names
the file and, where it can, the setting and what is wrong with it. Tables that stand for moments
are taken as moments, and a tag that does not fit spoils the whole file.
-/

namespace HttpBinding

/-- What can be wrong with a value in a settings file. -/
inductive Settings.Flaw where
  /-- The section is no table. -/
  | notTable
  /-- A setting is no integer but a value of another kind. -/
  | notInteger (found : Toml.Kind)
  /-- A setting is below zero. -/
  | negative (n : Int)
  /-- A setting is out of its range. -/
  | tooLarge (n : Nat)
deriving DecidableEq, Repr

/-- Why settings could not be loaded. -/
inductive Settings.Fault where
  /-- The file cannot be read. -/
  | unreadable (path : String)
  /-- The file is not TOML, or something in it is tagged as a moment and is none. -/
  | malformed (path : String)
  /-- A value in the file does not serve. -/
  | invalid (path key : String) (flaw : Settings.Flaw)
deriving DecidableEq, Repr

namespace Settings

/-- The text for a flaw. -/
def Flaw.message : Flaw → String
  | .notTable => "expected a table"
  | .notInteger found => s!"expected an integer, got {found.name}"
  | .negative n => s!"{n} is negative"
  | .tooLarge n => s!"{n} is too large"

/-- The text for a value that does not serve. -/
def invalidMessage (path key : String) (flaw : Flaw) : String :=
  s!"Invalid value for {key} in {path}: {flaw.message}"

/-- The name by which a fault calls a setting. -/
def Key.fullName (key : Key) : String := sectionName ++ "." ++ key.name

/-- The value of a setting in a file. -/
def readValue (key : Key) : Toml.Value → Except Flaw Nat
  | .integer n =>
    if n < 0 then .error (.negative n)
    else if n.toNat < 1 <<< key.bits then .ok n.toNat
    else .error (.tooLarge n.toNat)
  | v => .error (.notInteger v.kind)

/-- Applies some of the settings of a section, in order, until one is wrong. -/
def applyKeys (path : String) (table : Toml.Table) :
    List Key → Settings → Except Fault Unit × Settings
  | [], s => (.ok (), s)
  | key :: keys, s =>
    match table.get? key.name with
    | none => applyKeys path table keys s
    | some v =>
      match readValue key v with
      | .ok n => applyKeys path table keys (s.set key n)
      | .error flaw => (.error (.invalid path key.fullName flaw), s)

/-- Puts the document `text`, which comes from `path`, over settings. -/
def overlay (s : Settings) (path text : String) : Except Fault Unit × Settings :=
  match (Toml.read? text).bind Toml.Table.untag? with
  | none => (.error (.malformed path), s)
  | some document =>
    match document.get? sectionName with
    | none => (.ok (), s)
    | some (.table table) => applyKeys path table Key.all s
    | some _ => (.error (.invalid path sectionName .notTable), s)

/-! ### Views -/

@[simp] theorem applyKeys_nil (path : String) (table : Toml.Table) (s : Settings) :
    applyKeys path table [] s = (.ok (), s) := rfl

/-- A setting that a section does not mention is passed over. -/
theorem applyKeys_cons_of_none {path : String} {table : Toml.Table} {key : Key}
    (h : table.get? key.name = none) (keys : List Key) (s : Settings) :
    applyKeys path table (key :: keys) s = applyKeys path table keys s := by
  simp [applyKeys, h]

end Settings

end HttpBinding
