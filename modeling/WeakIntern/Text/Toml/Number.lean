import WeakIntern.Number.Literal
import WeakIntern.Text.Toml.Quoted
/-!
# Numbers

Whole numbers have sixty-four bits and a sign; they are written in base ten, or in base sixteen,
eight or two after `0x`, `0o` or `0b`. Decimal numbers have a fraction or an exponent, or are `inf`
or `nan`. Single underscores may stand between digits. A number that is out of range is no number.
-/

namespace WeakIntern.Toml

/-- Digits with single underscores between them, without the underscores. -/
def dropUnderscores (isDigit : Char → Bool) : List Char → Option (List Char)
  | [] => none
  | [c] => if isDigit c then some [c] else none
  | c :: '_' :: rest => if isDigit c then (dropUnderscores isDigit rest).map (c :: ·) else none
  | c :: rest => if isDigit c then (dropUnderscores isDigit rest).map (c :: ·) else none

/-- Are these digits, with single underscores between them? -/
def isDigits (text : List Char) : Bool := (dropUnderscores Char.isDigit text).isSome

/-- Decimal digits without a leading zero. -/
def decimalDigits? (text : List Char) : Option (List Char) :=
  match dropUnderscores Char.isDigit text with
  | some ('0' :: _ :: _) => none
  | digits => digits

/-- A whole number in base sixteen, eight or two, after its first two characters. -/
def radixNumber? (base : Nat) (text : List Char) : Option Nat := do
  let isDigit (c : Char) := (digit16? c).any (· < base)
  let digits ← dropUnderscores isDigit text
  return digits.foldl (fun n c => base * n + (digit16? c).getD 0) 0

/-- A whole number of sixty-four bits. -/
def wholeNumber? (text : List Char) : Option Int := do
  let n : Int ← match text with
    | '0' :: 'x' :: rest => (radixNumber? 16 rest).map Int.ofNat
    | '0' :: 'o' :: rest => (radixNumber? 8 rest).map Int.ofNat
    | '0' :: 'b' :: rest => (radixNumber? 2 rest).map Int.ofNat
    | '-' :: rest => (decimalDigits? rest).map fun digits => -(digitsValue digits : Int)
    | '+' :: rest => (decimalDigits? rest).map fun digits => (digitsValue digits : Int)
    | rest => (decimalDigits? rest).map fun digits => (digitsValue digits : Int)
  if -(2 ^ 63 : Int) ≤ n ∧ n < 2 ^ 63 then some n else none

/-- An exponent with its `e`. -/
def isExponent : List Char → Bool
  | [] => false
  | c :: rest =>
    (c == 'e' || c == 'E') && isDigits (match rest with
      | '+' :: digits => digits
      | '-' :: digits => digits
      | digits => digits)

def isDigitOrUnderscore (c : Char) : Bool := c.isDigit || c == '_'

/-- What follows the whole part of a decimal number: a fraction, an exponent, or both. -/
def isFloatTail : List Char → Bool
  | '.' :: rest =>
    let exponent := rest.dropWhile isDigitOrUnderscore
    isDigits (rest.takeWhile isDigitOrUnderscore) && (exponent.isEmpty || isExponent exponent)
  | rest => isExponent rest

/-- A decimal number without its sign, in digits. -/
def magnitude? (text : List Char) : Option Float :=
  if (decimalDigits? (text.takeWhile isDigitOrUnderscore)).isSome &&
      isFloatTail (text.dropWhile isDigitOrUnderscore) then
    readMagnitude (text.filter (· != '_'))
  else none

/-- Infinity or NaN. -/
def special? : List Char → Option Float
  | ['i', 'n', 'f'] => some (1.0 / 0.0)
  | ['n', 'a', 'n'] => some (0.0 / 0.0)
  | _ => none

/-- A decimal number that is not negative. Digits do not reach infinity. -/
def positiveNumber? (text : List Char) : Option Float :=
  (special? text).or ((magnitude? text).filter Float.isFinite)

/-- A decimal number. Below the least of the doubles it is negative infinity. -/
def decimalNumber? : List Char → Option Float
  | '-' :: text => ((special? text).or (magnitude? text)).map Float.neg
  | '+' :: text => positiveNumber? text
  | text => positiveNumber? text

end WeakIntern.Toml
