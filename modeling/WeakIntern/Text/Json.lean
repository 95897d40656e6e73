import WeakIntern.Number.Shortest
/-!
# JSON values and their text

A `Json` value keeps apart whole numbers and doubles, as records of both are written: `3` and `3.0`.
`Json.compact` writes no blanks; `Json.pretty` puts each item on a line of its own, indented by two
blanks per level. Fields are written in the order in which they are held.
-/

namespace WeakIntern

/-- A JSON value. -/
inductive Json where
  | null
  | bool (b : Bool)
  | int (n : Int)
  | float (x : Float)
  | string (s : String)
  | list (items : List Json)
  | record (fields : List (String × Json))
  deriving Inhabited

namespace Json

/-- A character inside a JSON string. Only quotes, backslashes and characters below `0x20` are
escaped. -/
def escapeChar (c : Char) : List Char :=
  if c = '"' then ['\\', '"']
  else if c = '\\' then ['\\', '\\']
  else if c = '\x08' then ['\\', 'b']
  else if c = '\x0c' then ['\\', 'f']
  else if c = '\n' then ['\\', 'n']
  else if c = '\r' then ['\\', 'r']
  else if c = '\t' then ['\\', 't']
  else if c.toNat < 0x20 then
    ['\\', 'u', '0', '0', Nat.digitChar (c.toNat / 16), Nat.digitChar (c.toNat % 16)]
  else [c]

/-- A JSON string. -/
def stringChars (s : String) : List Char := '"' :: s.toList.flatMap escapeChar ++ ['"']

/-- A whole number. -/
def intChars : Int → List Char
  | .ofNat n => Nat.toDigits 10 n
  | .negSucc n => '-' :: Nat.toDigits 10 (n + 1)

/-- A double; NaN and the infinities have no JSON form and become `null`. -/
def floatChars (x : Float) : List Char :=
  match shortestText? x with
  | some text => text.toList
  | none => ['n', 'u', 'l', 'l']

/-- `true` or `false`. -/
def boolChars : Bool → List Char
  | true => ['t', 'r', 'u', 'e']
  | false => ['f', 'a', 'l', 's', 'e']

mutual

/-- The text of a value without blanks. -/
def chars : Json → List Char
  | .null => ['n', 'u', 'l', 'l']
  | .bool b => boolChars b
  | .int n => intChars n
  | .float x => floatChars x
  | .string s => stringChars s
  | .list items => '[' :: itemChars items ++ [']']
  | .record fields => '\x7b' :: fieldChars fields ++ ['\x7d']

/-- Items with commas between them. -/
def itemChars : List Json → List Char
  | [] => []
  | [j] => chars j
  | j :: rest => chars j ++ ',' :: itemChars rest

/-- Fields with commas between them. -/
def fieldChars : List (String × Json) → List Char
  | [] => []
  | [(key, j)] => stringChars key ++ ':' :: chars j
  | (key, j) :: rest => stringChars key ++ ':' :: chars j ++ ',' :: fieldChars rest

end

/-- The text of a value without blanks. -/
def compact (j : Json) : String := String.ofList (chars j)

/-- A line end and the indentation of a level. -/
def lineStart (level : Nat) : List Char := '\n' :: List.replicate (2 * level) ' '

mutual

/-- The text of a value with one item to a line, inside `level` brackets. -/
def prettyChars (level : Nat) : Json → List Char
  | .list [] => ['[', ']']
  | .list items => '[' :: prettyItems (level + 1) items ++ lineStart level ++ [']']
  | .record [] => ['\x7b', '\x7d']
  | .record fields => '\x7b' :: prettyFields (level + 1) fields ++ lineStart level ++ ['\x7d']
  | .null => ['n', 'u', 'l', 'l']
  | .bool b => boolChars b
  | .int n => intChars n
  | .float x => floatChars x
  | .string s => stringChars s

/-- Items, each on a line of its own. -/
def prettyItems (level : Nat) : List Json → List Char
  | [] => []
  | [j] => lineStart level ++ prettyChars level j
  | j :: rest => lineStart level ++ prettyChars level j ++ ',' :: prettyItems level rest

/-- Fields, each on a line of its own. -/
def prettyFields (level : Nat) : List (String × Json) → List Char
  | [] => []
  | [(key, j)] => lineStart level ++ stringChars key ++ ':' :: ' ' :: prettyChars level j
  | (key, j) :: rest =>
    lineStart level ++ stringChars key ++ ':' :: ' ' :: prettyChars level j ++
      ',' :: prettyFields level rest

end

/-- The text of a value with one item to a line. -/
def pretty (j : Json) : String := String.ofList (prettyChars 0 j)

/-- A count. -/
def count (n : Nat) : Json := .int n

/-- The value of a field; of two fields of one name the last counts. -/
def field? (name : String) : Json → Option Json
  | .record fields => (fields.reverse.find? fun (key, _) => key == name).map Prod.snd
  | _ => none

end Json

end WeakIntern
