/-!
# Hexadecimal text

Bytes as two hexadecimal digits each, and back.
-/

namespace WeakIntern

/-- The value of a hexadecimal digit of either case; other characters have no meaning. -/
def hexValue (c : Char) : Nat :=
  if c.isDigit then c.toNat - '0'.toNat else c.toLower.toNat - 'a'.toNat + 10

/-- The value of hexadecimal digits, most significant first. -/
def hexNat (digits : List Char) : Nat := digits.foldl (fun n c => 16 * n + hexValue c) 0

/-- Two lower-case digits for each byte. -/
def hexOfBytes (bytes : List UInt8) : String :=
  String.ofList (bytes.flatMap fun b =>
    [Nat.digitChar (b.toNat / 16), Nat.digitChar (b.toNat % 16)])

/-- The bytes that pairs of digits stand for. -/
def bytesOfHex : List Char → List UInt8
  | a :: b :: rest => (16 * hexValue a + hexValue b).toUInt8 :: bytesOfHex rest
  | _ => []

end WeakIntern
