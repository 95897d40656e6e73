import WeakIntern.Number.FixedPoint
/-!
# Columns and hexadecimal numbers

Statistics are printed in columns of nine characters, right-aligned; a longer number simply takes
more room. Seeds are printed as sixteen hexadecimal digits.
-/

namespace WeakIntern

/-- A text with blanks in front, up to `width` characters. -/
def rightAligned (width : Nat) (text : String) : String :=
  String.ofList (List.replicate (width - text.length) ' ') ++ text

/-- A count in a column of nine characters. -/
def countColumn (n : Nat) : String := rightAligned 9 (toString n)

/-- A number with three places in a column. -/
def numberColumn (width : Nat) (x : Float) : String := rightAligned width (fixedPoint 3 x)

/-- The lower-case hexadecimal digits of a number. -/
def hexText (n : Nat) : String := String.ofList (Nat.toDigits 16 n)

/-- `0x` and the hexadecimal digits, as few as possible. -/
def hexNumber (n : Nat) : String := "0x" ++ hexText n

/-- Sixteen hexadecimal digits. -/
def hexWord (n : UInt64) : String :=
  let digits := Nat.toDigits 16 n.toNat
  String.ofList (List.replicate (16 - digits.length) '0' ++ digits)

end WeakIntern
