import WeakIntern.Number.Literal
/-!
# Decimal numbers from sixty-four bits

A quick way to read a decimal number as a double: `Scaled.ofNumeral` keeps the digits that a 64-bit
count can hold, and `Scaled.toFloat?` multiplies or divides their value by a power of ten. Both
steps round, so that the result may miss the nearest double by a little; digits that do not fit are
passed over.
-/

namespace WeakIntern

/-- The number `significand · 10 ^ exponent`. -/
structure Scaled where
  significand : UInt64
  exponent : Int
  deriving DecidableEq, Repr, Inhabited

namespace Scaled

/-- One more digit at the end of a count, if it still fits. -/
def append? (n : UInt64) (digit : Char) : Option UInt64 :=
  let m := 10 * n.toNat + digitsValue [digit]
  if m ≤ maxCount then some m.toUInt64 else none

/-- The digits before the point, after those that make up `n`. From the first one on that does not
fit, each stands for a power of ten only. -/
def ofWhole (n : UInt64) : List Char → Scaled
  | [] => ⟨n, 0⟩
  | digit :: rest =>
    match append? n digit with
    | some m => ofWhole m rest
    | none => ⟨n, rest.length + 1⟩

/-- The digits behind the point, up to the first one that does not fit. -/
def addFraction (s : Scaled) : List Char → Scaled
  | [] => s
  | digit :: rest =>
    match append? s.significand digit with
    | some m => addFraction ⟨m, s.exponent - 1⟩ rest
    | none => s

theorem ofWhole_cons {n m : UInt64} {digit : Char} (h : append? n digit = some m)
    (rest : List Char) :
    ofWhole n (digit :: rest) = ofWhole m rest := by
  show (match append? n digit with
    | some m => ofWhole m rest
    | none => ⟨n, rest.length + 1⟩) = _
  rw [h]

theorem addFraction_cons {s : Scaled} {m : UInt64} {digit : Char}
    (h : append? s.significand digit = some m) (rest : List Char) :
    addFraction s (digit :: rest) = addFraction ⟨m, s.exponent - 1⟩ rest := by
  show (match append? s.significand digit with
    | some m => addFraction ⟨m, s.exponent - 1⟩ rest
    | none => s) = _
  rw [h]

/-- The digits of a numeral that fit. -/
def ofNumeral (d : DecimalNumeral) : Scaled :=
  let s := (ofWhole 0 d.whole).addFraction d.fraction
  { s with exponent := s.exponent + d.exponent }

/-- The greatest power of ten that is a double. -/
def topExponent : Nat := 308

/-- The double next to a power of ten. -/
def powerOfTen (n : Nat) : Float := .ofScientific 1 false n

/-- The value, computed in doubles; `none` if it is out of their range. A small number is divided in
two steps where one power of ten does not reach. -/
def toFloat? (s : Scaled) : Option Float :=
  let x := s.significand.toFloat
  match s.exponent with
  | .ofNat e =>
    if e ≤ topExponent then
      let product := x * powerOfTen e
      if product.isInf then none else some product
    else if s.significand = 0 then some 0.0 else none
  | .negSucc e =>
    let n := e + 1
    if n ≤ topExponent then some (x / powerOfTen n)
    else if n ≤ 2 * topExponent
      then some (x / powerOfTen topExponent / powerOfTen (n - topExponent))
    else some 0.0

end Scaled

/-- A decimal number without its sign as a double, read quickly; `none` if it is out of range. -/
def DecimalNumeral.approximate? (d : DecimalNumeral) : Option Float := (Scaled.ofNumeral d).toFloat?

end WeakIntern
