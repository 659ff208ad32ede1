/-!
# HttpBinding.Toml.Value

The values of a TOML document.

Settings files need the kinds of values, the integers and the tables. Floats and moments are kept
as they are written, since nothing is computed from them.
-/

namespace HttpBinding.Toml

/-- The kinds of values. -/
inductive Kind where
  | string
  | integer
  | float
  | boolean
  | datetime
  | array
  | table
deriving DecidableEq, Repr

/-- The name of a kind. -/
def Kind.name : Kind → String
  | .string => "string"
  | .integer => "integer"
  | .float => "float"
  | .boolean => "boolean"
  | .datetime => "datetime"
  | .array => "array"
  | .table => "table"

/-- A value. -/
inductive Value where
  | string (text : String)
  | integer (n : Int)
  /-- A float, as it is written. -/
  | float (text : String)
  | boolean (b : Bool)
  /-- A date, a time or both, as it is written. -/
  | datetime (text : String)
  | array (items : List Value)
  | table (entries : List (String × Value))
deriving BEq, Repr, Inhabited

/-- The kind of a value. -/
def Value.kind : Value → Kind
  | .string _ => .string
  | .integer _ => .integer
  | .float _ => .float
  | .boolean _ => .boolean
  | .datetime _ => .datetime
  | .array _ => .array
  | .table _ => .table

/-- The entries of a table, each with its key. -/
abbrev Table := List (String × Value)

/-- The value under a key. -/
def Table.get? (t : Table) (key : String) : Option Value := t.lookup key

end HttpBinding.Toml
