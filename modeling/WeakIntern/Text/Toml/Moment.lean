import WeakIntern.Number.Literal
/-!
# Dates and times

A moment is a date, a time of day, or both with `T` or a space between them. A date and a time may
have an offset after them. Days must exist in their month, and a minute may have a leap second. The
readers give the moment as it is written, and the text after it.
-/

namespace WeakIntern.Toml

/-- The number that two digits give, if it lies in a range. -/
def twoDigits? (low high : Nat) (a b : Char) : Option Nat :=
  let n := digitsValue [a, b]
  if a.isDigit && b.isDigit && low ≤ n && n ≤ high then some n else none

def isLeap (year : Nat) : Bool := year % 4 == 0 && (year % 100 != 0 || year % 400 == 0)

/-- The number of days of a month. -/
def daysIn (year month : Nat) : Nat :=
  if month = 2 then if isLeap year then 29 else 28
  else if month ∈ [4, 6, 9, 11] then 30
  else 31

/-- A date: year, month and day. -/
def readDate? : List Char → Option (List Char × List Char)
  | a :: b :: c :: d :: '-' :: e :: f :: '-' :: g :: h :: rest => do
    guard ([a, b, c, d].all Char.isDigit)
    let month ← twoDigits? 1 12 e f
    let _ ← twoDigits? 1 (daysIn (digitsValue [a, b, c, d]) month) g h
    return ([a, b, c, d, '-', e, f, '-', g, h], rest)
  | _ => none

/-- A fraction of a second, if there is one. -/
def readFraction : List Char → List Char × List Char
  | '.' :: rest =>
    let digits := rest.takeWhile Char.isDigit
    if digits.isEmpty then ([], '.' :: rest) else ('.' :: digits, rest.dropWhile Char.isDigit)
  | text => ([], text)

/-- A time of day: hour, minute and second, which may have a fraction. -/
def readTime? : List Char → Option (List Char × List Char)
  | a :: b :: ':' :: c :: d :: ':' :: e :: f :: rest => do
    let _ ← twoDigits? 0 23 a b
    let _ ← twoDigits? 0 59 c d
    let _ ← twoDigits? 0 60 e f
    let (fraction, after) := readFraction rest
    return ([a, b, ':', c, d, ':', e, f] ++ fraction, after)
  | _ => none

/-- The offset of a time zone, if there is one: `Z`, or hours and minutes with a sign. -/
def readOffset (text : List Char) : List Char × List Char :=
  match text with
  | 'Z' :: rest => (['Z'], rest)
  | 'z' :: rest => (['z'], rest)
  | sign :: a :: b :: ':' :: c :: d :: rest =>
    if (sign == '+' || sign == '-') && (twoDigits? 0 23 a b).isSome &&
        (twoDigits? 0 59 c d).isSome then
      ([sign, a, b, ':', c, d], rest)
    else ([], text)
  | _ => ([], text)

/-- A time of day with an offset, after the mark that divides it from its date. -/
def readTimeAfterDate? : List Char → Option (List Char × List Char)
  | [] => none
  | mark :: rest => do
    guard (mark == 'T' || mark == 't' || mark == ' ')
    let (time, rest) ← readTime? rest
    let (offset, after) := readOffset rest
    return (mark :: time ++ offset, after)

/-- A date, a date with a time, or a time. -/
def readMoment? (text : List Char) : Option (List Char × List Char) :=
  match readDate? text with
  | none => readTime? text
  | some (date, rest) =>
    match readTimeAfterDate? rest with
    | none => some (date, rest)
    | some (time, after) => some (date ++ time, after)

end WeakIntern.Toml
