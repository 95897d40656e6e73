import WeakIntern.Number.Instances

/-!
# Binary64 numbers as exact values

A finite double is `± significand · 2 ^ exponent` with a natural significand. `Binary64.ofFloat`
reads that form off the bits, so that everything printed about a double is computed in exact
arithmetic on natural numbers. `roundEven` divides to the nearest natural, a half going to the even
neighbour (`roundEven_half`, `roundEven_exact`).
-/

namespace WeakIntern

/-- The value of a double, without its rounding. -/
inductive Binary64 where
  | nan
  | infinite (negative : Bool)
  /-- `± significand · 2 ^ exponent` -/
  | finite (negative : Bool) (significand : Nat) (exponent : Int)
  deriving DecidableEq, Repr

namespace Binary64

/-- The least exponent of a double, that of the subnormal numbers. -/
def minExponent : Int := -1074

/-- Read the bits: one for the sign, eleven for the exponent, fifty-two for the fraction. -/
def ofBits (bits : UInt64) : Binary64 :=
  let negative := bits >>> 63 == 1
  let biased := ((bits >>> 52) &&& 0x7ff).toNat
  let fraction := (bits &&& 0xfffffffffffff).toNat
  if biased = 0x7ff then
    if fraction = 0 then .infinite negative else .nan
  else if biased = 0 then
    .finite negative fraction minExponent
  else
    .finite negative (fraction + 2 ^ 52) (minExponent + (biased - 1 : Nat))

/-- The exact value of a double. -/
def ofFloat (x : Float) : Binary64 := ofBits x.toBits

end Binary64

/-- `num / den` to the nearest natural number, a half going to the even neighbour. -/
def roundEven (num den : Nat) : Nat :=
  let q := num / den
  let r := num % den
  if 2 * r < den then q
  else if den < 2 * r then q + 1
  else q + q % 2

theorem roundEven_exact (q den : Nat) (h : 0 < den) : roundEven (q * den) den = q := by
  simp [roundEven, Nat.mul_div_cancel q h, h]

theorem roundEven_half (q den : Nat) (h : 0 < den) :
    roundEven ((2 * q + 1) * den) (2 * den) = q + q % 2 := by
  have hdiv : (2 * q + 1) * den = den + (2 * den) * q := by
    rw [Nat.add_mul, Nat.one_mul, Nat.mul_right_comm]
    omega
  have hlt : den < 2 * den := by omega
  simp only [roundEven, hdiv, Nat.add_mul_div_left _ _ (by omega : 0 < 2 * den),
    Nat.add_mul_mod_self_left, Nat.div_eq_of_lt hlt, Nat.mod_eq_of_lt hlt]
  simp

end WeakIntern
