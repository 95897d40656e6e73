import Mathlib
import WeakIntern.Number.Shortest
/-!
# Doubles as exact values

The logic has a model of doubles, in which a double is its bits, and each operation unpacks them,
works on a sign, a significand and an exponent, and packs the result. `Binary64.ofFloat` reads the
same off the bits (`Binary64.ofFloat_eq`), so that what the model says of a comparison or of a
product can be said of exact values.
-/

namespace WeakIntern
namespace Binary64

open Float.Model

/-- The value of an unpacked double. -/
def ofUnpacked : UnpackedFloat → Binary64
  | .notANumber => .nan
  | .infinity sign => .infinite (sign == .negative)
  | .zero sign => .finite (sign == .negative) 0 minExponent
  | .finite sign mantissa exponent _ => .finite (sign == .negative) mantissa exponent

/-! ## Reading the bits -/

section Bits

variable (bits : UInt64)

theorem toNat_unpackMantissa :
    (@UnpackedFloat.unpackMantissa Format.binary64 bits.toBitVec).toNat =
      (bits &&& 0xfffffffffffff).toNat := by
  rw [UInt64.toNat_and]
  show _ = bits.toNat &&& (2 ^ 52 - 1)
  rw [Nat.and_two_pow_sub_one_eq_mod]
  simp [UnpackedFloat.unpackMantissa, BitVec.extractLsb, BitVec.extractLsb']

theorem toNat_unpackExponent :
    (@UnpackedFloat.unpackExponent Format.binary64 bits.toBitVec).toNat =
      ((bits >>> 52) &&& 0x7ff).toNat := by
  rw [UInt64.toNat_and, UInt64.toNat_shiftRight]
  show _ = (bits.toNat >>> 52) &&& (2 ^ 11 - 1)
  rw [Nat.and_two_pow_sub_one_eq_mod]
  simp [UnpackedFloat.unpackExponent, BitVec.extractLsb, BitVec.extractLsb']

theorem toNat_unpackSign :
    (@UnpackedFloat.unpackSign Format.binary64 bits.toBitVec).toNat = (bits >>> 63).toNat := by
  have hlt : bits.toNat >>> 63 < 2 := by
    have hbits := bits.toNat_lt
    rw [Nat.shiftRight_eq_div_pow]
    omega
  rw [UInt64.toNat_shiftRight]
  show _ = bits.toNat >>> 63
  rw [← Nat.mod_eq_of_lt hlt]
  simp [UnpackedFloat.unpackSign, BitVec.extractLsb, BitVec.extractLsb']

theorem negative_ofBitVec (b : BitVec 1) :
    (UnpackedFloat.Sign.ofBitVec b == .negative) = (b.toNat == 1) := by
  revert b
  decide

theorem ofUnpacked_unpack : ofUnpacked (UnpackedFloat.unpack Format.binary64 bits.toBitVec) =
    ofBits bits := by
  have hmantissa := toNat_unpackMantissa bits
  have hexponent := toNat_unpackExponent bits
  have hsign :
      (UnpackedFloat.Sign.ofBitVec (@UnpackedFloat.unpackSign Format.binary64 bits.toBitVec) ==
        .negative) =
      (bits >>> 63 == 1) := by
    rw [negative_ofBitVec, toNat_unpackSign]
    show decide ((bits >>> 63).toNat = (1 : UInt64).toNat) = decide (bits >>> 63 = 1)
    rw [decide_eq_decide, UInt64.toNat_inj]
  have hones (b : BitVec 11) : b = -1#11 ↔ b.toNat = 2047 := BitVec.toNat_inj.symm
  have hnone₁ (b : BitVec 11) : b = 0#11 ↔ b.toNat = 0 := BitVec.toNat_inj.symm
  have hnone₂ (b : BitVec 52) : b = 0#52 ↔ b.toNat = 0 := BitVec.toNat_inj.symm
  rw [ofBits, ← hmantissa, ← hexponent, ← hsign]
  clear hmantissa hexponent hsign
  fun_cases UnpackedFloat.unpack Format.binary64 bits.toBitVec with
  | case1 mantissa exponent signBit sign hexponent hmantissa =>
    rw [if_pos ((hones _).1 hexponent), if_pos ((hnone₂ _).1 hmantissa)]
    rfl
  | case2 mantissa exponent hexponent hmantissa =>
    rw [if_pos ((hones _).1 hexponent), if_neg (mt (hnone₂ _).2 hmantissa)]
    rfl
  | case3 mantissa exponent signBit sign hfinite hexponent hmantissa =>
    rw [if_neg (mt (hones _).2 hfinite), if_pos ((hnone₁ _).1 hexponent), ofUnpacked,
      (hnone₂ _).1 hmantissa]
  | case4 mantissa exponent value signBit sign hfinite hexponent hmantissa =>
    rw [if_neg (mt (hones _).2 hfinite), if_pos ((hnone₁ _).1 hexponent), ofUnpacked]
    simp only [value, exponent, (hnone₁ _).1 hexponent]
    rfl
  | case5 mantissa exponent value signBit sign hfinite hexponent =>
    have hpos := mt (hnone₁ _).2 hexponent
    rw [if_neg (mt (hones _).2 hfinite), if_neg hpos, ofUnpacked, BitVec.toNat_append,
      ← Nat.shiftLeft_add_eq_or_of_lt mantissa.isLt]
    congr 1
    · rw [Nat.add_comm]
      rfl
    · show (exponent.toNat : Int) - (1023 + 52) = -1074 + (exponent.toNat - 1 : Nat)
      omega

end Bits

/-- **The model of doubles** reads the same off the bits. -/
theorem ofFloat_eq (x : Float) : ofFloat x = ofUnpacked x.toModel.unpack :=
  (ofUnpacked_unpack x.toBits).symm


/-! ## Comparing with zero -/

/-- A number greater than zero; no NaN is. -/
def IsPositive : Binary64 → Prop
  | .nan => False
  | .infinite negative => negative = false
  | .finite negative significand _ => negative = false ∧ 0 < significand

instance : DecidablePred IsPositive
  | .nan => inferInstanceAs (Decidable False)
  | .infinite negative => inferInstanceAs (Decidable (negative = false))
  | .finite negative significand _ =>
    inferInstanceAs (Decidable (negative = false ∧ 0 < significand))

theorem unpack_zero : (0.0 : Float).toModel.unpack = .zero .positive := by
  rfl

/-- **The machine compares with zero** as exact values do. -/
theorem zero_lt_iff (x : Float) : 0.0 < x ↔ (ofFloat x).IsPositive := by
  have hlt : 0.0 < x ↔ UnpackedFloat.lt (0.0 : Float).toModel.unpack x.toModel.unpack = true :=
    decide_eq_true_iff
  rw [hlt, unpack_zero, ofFloat_eq]
  cases x.toModel.unpack with
  | notANumber => decide
  | infinity sign => cases sign <;> decide
  | zero sign => cases sign <;> decide
  | finite sign mantissa exponent hpos =>
    cases sign with
    | negative => exact iff_of_false Bool.false_ne_true fun h => Bool.noConfusion h.1
    | positive => exact iff_of_true rfl ⟨rfl, hpos⟩

end Binary64
end WeakIntern
