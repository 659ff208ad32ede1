import HttpBinding.Body
import HttpBinding.Text.Numeral

/-!
# HttpBinding.Request

What a client sends: the attributes of its `<body/>` wrapper and the stanzas inside it.

Attributes are untrusted text. Each reader falls back to a default instead of failing: counts
and durations to the value that the caller gives, `xml:lang` to English. Only `hold` gives
negative numbers a meaning: like zero, they lift the bound.
-/

namespace HttpBinding

/-- One request of a client. -/
structure Request where
  /-- The attributes, the latest first. -/
  attributes : List (String × String) := []
  /-- The stanzas, in order. -/
  payload : List Stanza := []
deriving DecidableEq, Repr

namespace Request

/-- The request with one attribute set; an earlier value under that name is replaced. -/
def withAttribute (r : Request) (name value : String) : Request :=
  { r with attributes := (name, value) :: r.attributes }

/-- The request with one stanza more. -/
def withStanza (r : Request) (stanza : Stanza) : Request :=
  { r with payload := r.payload ++ [stanza] }

/-- The request with these attributes, set one after the other, and these stanzas. -/
def of (attributes : List (String × String)) (payload : List Stanza := []) : Request :=
  attributes.foldl (fun r (name, value) => r.withAttribute name value) { payload }

/-- The value of an attribute. -/
def get? (r : Request) (name : String) : Option String := r.attributes.lookup name

/-- A request without stanzas only asks for what the server has to say. -/
def isPoll (r : Request) : Bool := r.payload.isEmpty

/-- The language of a client that names none. -/
def defaultLanguage : String := "en"

/-- The language of the client. -/
def language (r : Request) : String :=
  match r.get? "xml:lang" with
  | some language => if language.isEmpty then defaultLanguage else language
  | none => defaultLanguage

/-- The request number, if there is a readable one. -/
def rid (r : Request) : Option Nat := (r.get? "rid").bind (Text.unsigned? 64)

/-- A count or duration of 32 bits, or the default if there is no readable one. -/
def count (r : Request) (name : String) (default : Nat) : Nat :=
  ((r.get? name).bind (Text.unsigned? 32)).getD default

/-- The largest bound on held requests. -/
def maxHold : Nat := UInt32.size - 1

/-- How many requests the client wants held; `none` if it wants no bound. A number that is not
positive lifts the bound, one that is too large for 32 bits asks for the largest bound, and
anything that is no number of 64 bits leaves the default. -/
def hold (r : Request) (default : Nat) : Option Nat :=
  match (r.get? "hold").bind (Text.signed? 64) with
  | some n => if n ≤ 0 then none else some (min n.toNat maxHold)
  | none => some default

/-! ### Views -/

@[simp] theorem get?_withAttribute (r : Request) (name value other : String) :
    (r.withAttribute name value).get? other =
      if other = name then some value else r.get? other := by
  simp only [get?, withAttribute, List.lookup_cons]
  split <;> simp_all

@[simp] theorem payload_withAttribute (r : Request) (name value : String) :
    (r.withAttribute name value).payload = r.payload := rfl

@[simp] theorem get?_withStanza (r : Request) (stanza : Stanza) (name : String) :
    (r.withStanza stanza).get? name = r.get? name := rfl

end Request

end HttpBinding
