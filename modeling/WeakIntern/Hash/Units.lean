/-!
# The default hash

The default hash of a string is the polynomial `Σ unitᵢ · 31 ^ (n - 1 - i)` over its UTF-16 units,
modulo `2 ^ 32`. It needs no key and is the same in every process, so a snapshot can store it. It is
also easy to attack: `"Aa"` and `"BB"` have the same hash, and so has every string in which one
stands for the other.
-/

namespace WeakIntern

/-- The UTF-16 units of a character: itself, or a surrogate pair from `0x10000` up. -/
def utf16Units (c : Char) : List UInt32 :=
  if c.toNat < 0x10000 then [c.val]
  else
    let offset := c.val - 0x10000
    [(0xd800 : UInt32) + (offset >>> 10), (0xdc00 : UInt32) + (offset &&& 0x3ff)]

/-- The UTF-16 units of a string. -/
def units16 (s : String) : List UInt32 := s.toList.flatMap utf16Units

/-- One step of the polynomial, in 32-bit arithmetic. -/
def hashStep (h unit : UInt32) : UInt32 := 31 * h + unit

/-- The default hash of a string. -/
def unitHash (s : String) : UInt32 := (units16 s).foldl hashStep 0

end WeakIntern
