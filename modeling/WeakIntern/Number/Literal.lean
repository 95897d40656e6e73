import WeakIntern.Number.Instances

/-!
# Reading numbers

`readUnsigned` reads a count as an environment variable or an argument gives it: decimal digits, a
leading `+` allowed, no blanks, nothing above the limit. `readDecimal` reads a decimal number, with
a fraction and an exponent if wanted, as the nearest double; infinity and NaN have names.
-/

namespace WeakIntern

/-- The value of decimal digits, most significant first. -/
def digitsValue (digits : List Char) : Nat :=
  digits.foldl (fun n c => 10 * n + (c.toNat - '0'.toNat)) 0

/-- Digits only, and at least one. -/
def isNumeral (digits : List Char) : Bool := !digits.isEmpty && digits.all Char.isDigit

/-- A count of at most `limit`, with a leading `+` allowed. -/
def readUnsigned (limit : Nat) (text : String) : Option Nat :=
  let digits := match text.toList with
    | '+' :: rest => rest
    | all => all
  if isNumeral digits && digitsValue digits ≤ limit then some (digitsValue digits) else none

/-- The greatest 64-bit count. -/
def maxCount : Nat := 2 ^ 64 - 1

/-- An exponent, after its `e`. -/
def readExponent : List Char → Option Int
  | '-' :: digits => if isNumeral digits then some (-(digitsValue digits : Int)) else none
  | '+' :: digits => if isNumeral digits then some (digitsValue digits) else none
  | digits => if isNumeral digits then some (digitsValue digits) else none

/-- A decimal number as it is written, without its sign. -/
structure DecimalNumeral where
  whole : List Char
  fraction : List Char
  exponent : Int
  deriving DecidableEq, Repr, Inhabited

/-- From this power of ten on every double is infinite, and below its inverse zero. -/
def farExponent : Nat := 400

/-- `digits · 10 ^ exponent` as the nearest double. An exponent beyond what can make a difference is
cut down first. -/
def scaledFloat (digits : Nat) : Int → Float
  | .ofNat e => .ofScientific digits false (min e farExponent)
  | .negSucc e => .ofScientific digits true (min (e + 1) (digits.log2 + farExponent))

namespace DecimalNumeral

/-- Digits, a fraction if there is a point, an exponent if there is an `e`. -/
def ofChars? (text : List Char) : Option DecimalNumeral :=
  let whole := text.takeWhile Char.isDigit
  let afterWhole := text.dropWhile Char.isDigit
  let (fraction, afterFraction) := match afterWhole with
    | '.' :: rest => (rest.takeWhile Char.isDigit, rest.dropWhile Char.isDigit)
    | rest => ([], rest)
  let exponent := match afterFraction with
    | [] => some 0
    | c :: rest => if c = 'e' ∨ c = 'E' then readExponent rest else none
  if whole.isEmpty && fraction.isEmpty then none
  else exponent.map fun exponent => { whole, fraction, exponent }

/-- The nearest double. -/
def nearest (d : DecimalNumeral) : Float :=
  scaledFloat (digitsValue (d.whole ++ d.fraction)) (d.exponent - (d.fraction.length : Int))

end DecimalNumeral

/-- A decimal number without its sign. -/
def readMagnitude (text : List Char) : Option Float :=
  (DecimalNumeral.ofChars? text).map DecimalNumeral.nearest

/-- Infinity and NaN, by their names in any case. -/
def readNamed (text : List Char) : Option Float :=
  match String.ofList (text.map Char.toLower) with
  | "inf" | "infinity" => some (1.0 / 0.0)
  | "nan" => some (0.0 / 0.0)
  | _ => none

/-- A decimal number with its sign, or a named one. -/
def readDecimal : List Char → Option Float
  | '-' :: text => ((readNamed text).or (readMagnitude text)).map Float.neg
  | '+' :: text => (readNamed text).or (readMagnitude text)
  | text => (readNamed text).or (readMagnitude text)

end WeakIntern
