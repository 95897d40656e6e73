import WeakIntern.Text.Json
/-!
# Looking into JSON values

Lenient access to the fields of a record: what is missing, or has another type, counts as empty.
-/

namespace WeakIntern.Json

/-- Does the record have the field? -/
def has (j : Json) (name : String) : Bool := (j.field? name).isSome

/-- The value of a field. -/
def get (j : Json) (name : String) : Json := (j.field? name).getD .null

/-- The items of a list. -/
def items : Json → List Json
  | .list items => items
  | _ => []

/-- The fields of a record. -/
def fields : Json → List (String × Json)
  | .record fields => fields
  | _ => []

/-- The string in a field. -/
def text (j : Json) (name : String) : String :=
  match j.get name with
  | .string s => s
  | _ => ""

/-- The truth value in a field. -/
def flag (j : Json) (name : String) (absent : Bool) : Bool :=
  match j.get name with
  | .bool b => b
  | _ => absent

/-- A record of strings. -/
def strings (ss : List String) : Json := .list (ss.map .string)

/-- A value, or `null` where there is none. -/
def ofOption {α : Type} (f : α → Json) : Option α → Json
  | some a => f a
  | none => .null

end WeakIntern.Json
