import HttpBinding.Settings
import HttpBinding.Toml.Document

/-!
# HttpBinding.Settings.Decode

Settings as the value of a whole document.

Missing settings have their defaults and unknown keys are passed over. The section may also be
written as an array with the settings in their order, and a moment in its place stands for a
section that mentions none of them. Tables are taken as they are written, those with the tag of a
moment as well: the tag is one more unknown key.
-/

namespace HttpBinding.Settings

/-- A setting as a value of a document. -/
def decodeValue? (key : Key) : Toml.Value → Option Nat
  | .integer n => if 0 ≤ n ∧ n.toNat < 1 <<< key.bits then some n.toNat else none
  | _ => none

/-- Settings from what a section says about each of them; those about which it says nothing keep
their values. -/
def decodeKeys? (find : Key → Option Toml.Value) : List Key → Settings → Option Settings
  | [], s => some s
  | key :: keys, s =>
    match find key with
    | none => decodeKeys? find keys s
    | some v => (decodeValue? key v).bind fun n => decodeKeys? find keys (s.set key n)

/-- The place of a setting in a section that is written as an array. -/
def Key.index : Key → Nat
  | .inactivityTimeout => 0
  | .maxRequests => 1
  | .pollingInterval => 2

/-- The settings that a section stands for. -/
def decodeSection? : Toml.Value → Option Settings
  | .table table => decodeKeys? (fun key => Toml.Table.get? table key.name) Key.all {}
  | .array items => decodeKeys? (fun key => items[key.index]?) Key.all {}
  | .datetime _ => some {}
  | _ => none

/-- The settings that a document stands for. -/
def decode? (text : String) : Option Settings :=
  (Toml.read? text).bind fun document =>
    match document.get? sectionName with
    | none => some {}
    | some v => decodeSection? v

/-- What comes of reading back the settings as they are written: whether they are the same, or
`none` if they cannot be read. -/
def roundTrip? (s : Settings) : Option Bool := (decode? s.render).map fun t => t == s

end HttpBinding.Settings
