import WeakIntern.Number.Approximate
import WeakIntern.Text.Json
/-!
# Reading JSON

`Json.read?` reads a text that holds one JSON value. A number without fraction and exponent that
fits sixty-four bits is a whole number, every other one a double, read the quick way; `-0` is a
double too. An escape that names half of a surrogate pair is read together with its other half, and
alone it is refused.
-/

namespace WeakIntern
namespace Json

/-- The blanks between JSON tokens. -/
def isGap (c : Char) : Bool := c == ' ' || c == '\n' || c == '\r' || c == '\t'

/-- Four hexadecimal digits. -/
def readHex4 (a b c d : Char) : Option Nat := do
  let digit (c : Char) : Option Nat :=
    if c.isDigit then some (c.toNat - '0'.toNat)
    else if 'a' ≤ c ∧ c ≤ 'f' then some (c.toNat - 'a'.toNat + 10)
    else if 'A' ≤ c ∧ c ≤ 'F' then some (c.toNat - 'A'.toNat + 10)
    else none
  return ((← digit a) * 16 + (← digit b)) * 256 + (← digit c) * 16 + (← digit d)

/-- The character that a letter stands for after a backslash. -/
def escaped? (c : Char) : Option Char :=
  if c = '"' ∨ c = '\\' ∨ c = '/' then some c
  else if c = 'b' then some '\x08'
  else if c = 'f' then some '\x0c'
  else if c = 'n' then some '\n'
  else if c = 'r' then some '\r'
  else if c = 't' then some '\t'
  else none

/-- The rest of a string, after its opening quote: its characters, and the text after its closing
quote. -/
def readString : List Char → Option (List Char × List Char)
  | [] => none
  | '"' :: rest => some ([], rest)
  | '\\' :: 'u' :: a :: b :: c :: d :: rest =>
    match readHex4 a b c d with
    | none => none
    | some unit =>
      if 0xd800 ≤ unit ∧ unit < 0xdc00 then
        match rest with
        | '\\' :: 'u' :: a :: b :: c :: d :: rest =>
          match readHex4 a b c d with
          | none => none
          | some low =>
            if 0xdc00 ≤ low ∧ low < 0xe000 then
              (readString rest).map fun (s, after) =>
                (Char.ofNat (0x10000 + (unit - 0xd800) * 0x400 + (low - 0xdc00)) :: s, after)
            else none
        | _ => none
      else if 0xdc00 ≤ unit ∧ unit < 0xe000 then none
      else (readString rest).map fun (s, after) => (Char.ofNat unit :: s, after)
  | '\\' :: c :: rest =>
    match escaped? c with
    | none => none
    | some e => (readString rest).map fun (s, after) => (e :: s, after)
  | c :: rest =>
    if c.toNat < 0x20 ∨ c = '\\' then none
    else (readString rest).map fun (s, after) => (c :: s, after)

/-- The characters of a number. -/
def isNumberChar (c : Char) : Bool :=
  c.isDigit || c == '-' || c == '+' || c == '.' || c == 'e' || c == 'E'

/-- The value of a number's text. -/
def numberValue (text : List Char) : Option Json :=
  let magnitude (text : List Char) : Option Float :=
    (DecimalNumeral.ofChars? text).bind DecimalNumeral.approximate?
  let whole : Option Int := match text with
    | '-' :: digits =>
      if isNumeral digits && digitsValue digits ≠ 0 && digitsValue digits ≤ 2 ^ 63 then
        some (-(digitsValue digits : Int))
      else none
    | digits =>
      if isNumeral digits && digitsValue digits ≤ maxCount then some (digitsValue digits) else none
  match whole with
  | some n => some (.int n)
  | none =>
    match text with
    | '-' :: rest => (magnitude rest).map fun x => .float (-x)
    | _ => (magnitude text).map .float

/-- A value that starts with a letter or a digit. -/
def readScalar : List Char → Option (Json × List Char)
  | 'n' :: 'u' :: 'l' :: 'l' :: rest => some (.null, rest)
  | 't' :: 'r' :: 'u' :: 'e' :: rest => some (.bool true, rest)
  | 'f' :: 'a' :: 'l' :: 's' :: 'e' :: rest => some (.bool false, rest)
  | text => (numberValue (text.takeWhile isNumberChar)).map (·, text.dropWhile isNumberChar)

mutual

/-- A value, with gaps allowed before it. Each nested value uses up one unit of `fuel`. -/
def readValue : (fuel : Nat) → List Char → Option (Json × List Char)
  | 0, _ => none
  | fuel + 1, text =>
    match text.dropWhile isGap with
    | '"' :: rest => (readString rest).map fun (s, after) => (.string (String.ofList s), after)
    | '[' :: rest =>
      match rest.dropWhile isGap with
      | ']' :: after => some (.list [], after)
      | rest => (readItems fuel rest).map fun (items, after) => (.list items, after)
    | '\x7b' :: rest =>
      match rest.dropWhile isGap with
      | '\x7d' :: after => some (.record [], after)
      | rest => (readFields fuel rest).map fun (fields, after) => (.record fields, after)
    | rest => readScalar rest

/-- One item at least, up to the closing bracket. -/
def readItems : (fuel : Nat) → List Char → Option (List Json × List Char)
  | 0, _ => none
  | fuel + 1, text =>
    match readValue fuel text with
    | none => none
    | some (item, rest) =>
      match rest.dropWhile isGap with
      | ']' :: after => some ([item], after)
      | ',' :: rest => (readItems fuel rest).map fun (items, after) => (item :: items, after)
      | _ => none

/-- One field at least, up to the closing brace. -/
def readFields : (fuel : Nat) → List Char → Option (List (String × Json) × List Char)
  | 0, _ => none
  | fuel + 1, text =>
    match text.dropWhile isGap with
    | '"' :: rest =>
      match readString rest with
      | none => none
      | some (key, rest) =>
        match rest.dropWhile isGap with
        | ':' :: rest =>
          match readValue fuel rest with
          | none => none
          | some (value, rest) =>
            match rest.dropWhile isGap with
            | '\x7d' :: after => some ([(String.ofList key, value)], after)
            | ',' :: rest =>
              (readFields fuel rest).map fun (fields, after) =>
                ((String.ofList key, value) :: fields, after)
            | _ => none
        | _ => none
    | _ => none

end

/-- The value that a text holds, with gaps allowed around it. A nested value takes at least one
character, so the length of the text is fuel enough. -/
def read? (text : String) : Option Json :=
  match readValue (2 * text.length + 2) text.toList with
  | some (value, rest) => if rest.all isGap then some value else none
  | none => none

end Json
end WeakIntern
