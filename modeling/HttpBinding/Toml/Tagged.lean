import HttpBinding.Toml.Moment
import HttpBinding.Toml.Value

/-!
# HttpBinding.Toml.Tagged

Moments that are written as tables.

A moment can be handed on as a table whose first key is a *tag*; the text under the tag writes the
moment. `Value.untag?` replaces such tables by the moments for which they stand. Points to note:

* The tag counts only as the first key of a table, in the order in which the keys came to be.
  Behind another key it is a key like any other.
* What follows the tag is passed over, whatever it is.
* A tag with anything under it that is no moment is an error, wherever it stands.
* The table of the document itself is never a moment (`Table.untag?`).
-/

namespace HttpBinding.Toml

/-- The key that marks a table as a moment. -/
def momentTag : String := "$__toml_private_datetime"

/-- The moment for which the value under a tag stands. -/
def taggedMoment? : Value → Option Value
  | .string text => if isMomentText text.toList then some (.datetime text) else none
  | _ => none

/-- The value under the tag of a table, if the table has one in front. -/
def Table.tagged? : Table → Option Value
  | (key, v) :: _ => if key == momentTag then some v else none
  | [] => none

mutual

/-- The value with moments in the place of the tables that stand for them. -/
def Value.untag? : Value → Option Value
  | .array items => (untagItems? items).map .array
  | .table entries =>
    match Table.tagged? entries with
    | some v => taggedMoment? v
    | none => (Table.untag? entries).map .table
  | v => some v

/-- The elements of an array with moments in the place of the tables that stand for them. -/
def untagItems? : List Value → Option (List Value)
  | [] => some []
  | v :: vs => v.untag?.bind fun v => (untagItems? vs).map (v :: ·)

/-- The entries of a table with moments in the place of the tables that stand for them. -/
def Table.untag? : Table → Option Table
  | [] => some []
  | (key, v) :: rest => v.untag?.bind fun v => (Table.untag? rest).map ((key, v) :: ·)

end

/-! ### Views -/

@[simp] theorem Table.untag?_nil : Table.untag? [] = some [] := by
  simp [Table.untag?]

end HttpBinding.Toml
