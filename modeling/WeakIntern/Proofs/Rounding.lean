import Mathlib
import WeakIntern.Number.Approximate
import WeakIntern.Proofs.Doubles
/-!
# Products of doubles that are not too large

A product of doubles is rounded, and so are its factors when they are made of whole numbers and of
powers of ten. Each rounding adds a `2 ^ -52`th at most (`Binary64.bounded_round`), so that three of
them do not carry a product out of range that is well below its end.
-/

namespace WeakIntern
namespace Binary64

open Float.Model UnpackedFloat

/-! ## One rounding -/

theorem mantissa_shiftRight (em : ExtendedMantissa) (k : Nat) :
    (em >>> k).mantissa = em.mantissa / 2 ^ k := by
  induction k with
  | zero => exact (Nat.div_one _).symm
  | succ k ih =>
    show (em >>> k).mantissa / 2 = _
    rw [ih, Nat.div_div_eq_div_mul, Nat.pow_succ]

theorem roundedMantissa_le (em : ExtendedMantissa) :
    em.mantissa ≤ em.roundedMantissa ∧ em.roundedMantissa ≤ em.mantissa + 1 := by
  obtain ⟨mantissa, roundBit, stickyBit⟩ := em
  cases roundBit <;> cases stickyBit <;>
    simp only [ExtendedMantissa.roundedMantissa, ExtendedMantissa.accuracy,
      Accuracy.roundToNearestEven] <;> omega

/-- How far a number is shifted that is wider than a double and not too small. -/
theorem shiftToTargetExponent_eq {m : Nat} {e : Int} {k : Nat} (hwide : m.log2 = 52 + k)
    (hlarge : -1022 ≤ m.log2 + e) :
    shiftToTargetExponent Format.binary64 m e .exact =
      (ExtendedMantissa.mk m false false >>> k, e + k) := by
  have htarget : Format.binary64.targetExponent (totalExponent m e) = e + k := by
    have hbits : (Format.binary64.mantissaBits : Int) = 53 := rfl
    have hleast : Format.binary64.minExponent = -1074 := rfl
    rw [Format.targetExponent, totalExponent, hbits, hleast]
    omega
  have hshift : (e + (k : Int) - e).toNat = k := by omega
  rw [shiftToTargetExponent, htarget, shiftToExponent, hshift]
  rfl

/-- The bits that a double has room for. -/
theorem div_two_pow_of_log2 {m k : Nat} (hne : m ≠ 0) (hwide : m.log2 = 52 + k) :
    2 ^ 52 ≤ m / 2 ^ k ∧ m / 2 ^ k < 2 ^ 53 := by
  rw [Nat.le_div_iff_mul_le (Nat.two_pow_pos k), Nat.div_lt_iff_lt_mul (Nat.two_pow_pos k),
    ← Nat.pow_add, ← Nat.pow_add, Nat.add_right_comm 52 1 k]
  exact (Nat.log2_eq_iff hne).1 hwide

/-- **Rounding** a number that is wide enough, and not below one. -/
theorem round_eq {m : Nat} {e : Int} {k : Nat} (hwide : m.log2 = 52 + k) (hlarge : 0 ≤ m.log2 + e) :
    ∃ (m' : Nat) (e' : Int) (hpos : 0 < m'),
      roundWithAccuracy Format.binary64 .positive m e .exact = .finite .positive m' e' hpos ∧
      2 ^ 52 ≤ m' ∧ m' < 2 ^ 53 ∧ -52 ≤ e' ∧ (m' : ℚ) * 2 ^ e' ≤ ((m / 2 ^ k + 1 : Nat) : ℚ) *
        2 ^ (e + k) := by
  have hne : m ≠ 0 := by
    rintro rfl
    rw [Nat.log2_zero] at hwide
    omega
  obtain ⟨hlow, hhigh⟩ := div_two_pow_of_log2 hne hwide
  have hrounded := roundedMantissa_le (ExtendedMantissa.mk m false false >>> k)
  rw [mantissa_shiftRight] at hrounded
  dsimp only at hrounded
  -- Rounding up may make the number one bit wider, which is then shifted out.
  rw [roundWithAccuracy, shiftToTargetExponent_eq hwide (by omega)]
  dsimp only
  generalize (ExtendedMantissa.mk m false false >>> k).roundedMantissa = r at hrounded ⊢
  obtain ⟨k', hwide', hk', hexact⟩ : ∃ k', r.log2 = 52 + k' ∧ k' ≤ 1 ∧ r / 2 ^ k' * 2 ^ k' = r := by
    by_cases hfits : r < 2 ^ 53
    · exact ⟨0, (Nat.log2_eq_iff (by omega)).2 ⟨by omega, hfits⟩, by omega, by omega⟩
    · obtain rfl : r = 2 ^ 53 := by omega
      exact ⟨1, Nat.log2_two_pow, by omega, by decide⟩
  obtain ⟨hlow', hhigh'⟩ := div_two_pow_of_log2 (by omega) hwide'
  rw [shiftToTargetExponent_eq hwide' (by omega)]
  dsimp only
  rw [mantissa_shiftRight]
  dsimp only
  rw [dif_neg (by omega)]
  refine ⟨_, _, _, rfl, hlow', hhigh', by omega, ?_⟩
  calc ((r / 2 ^ k' : Nat) : ℚ) * 2 ^ (e + k + k') = ((r / 2 ^ k' * 2 ^ k' : Nat) : ℚ) *
      2 ^ (e + k) := by
        rw [zpow_add₀ two_ne_zero, zpow_natCast]
        push_cast
        ring
    _ = (r : ℚ) * 2 ^ (e + k) := by rw [hexact]
    _ ≤ _ := by
      gcongr
      exact hrounded.2

/-- What one rounding may add, as a factor. -/
def slack : ℚ := 1 + 1 / 2 ^ 52

theorem slack_pos : 0 < slack := by norm_num [slack]

theorem one_le_slack : 1 ≤ slack := by norm_num [slack]

/-- Doubles are less than this. -/
def rangeEnd : ℚ := 2 ^ 52 * 2 ^ ((972 : Nat) : ℤ)

/-- Numbers that can be rounded three times without getting out of range. -/
def roomyEnd : Nat := 17976931348623146 * 10 ^ 292

theorem mul_slack_lt_of_lt {n k : Nat} (hn : n * (2 ^ 52 + 1) ^ 3 < 2 ^ 52 * 2 ^ k * (2 ^ 52) ^ 3) :
    (n : ℚ) * slack ^ 3 < 2 ^ 52 * 2 ^ (k : ℤ) := by
  have hslack : slack = (2 ^ 52 + 1) / 2 ^ 52 := by norm_num [slack]
  rw [hslack, div_pow, mul_div_assoc', div_lt_iff₀ (by positivity), zpow_natCast]
  exact_mod_cast hn

theorem mul_slack_lt {n : Nat} (hn : n ≤ roomyEnd) : (n : ℚ) * slack ^ 3 < rangeEnd := by
  have hlast : roomyEnd * (2 ^ 52 + 1) ^ 3 < 2 ^ 52 * 2 ^ 972 * (2 ^ 52) ^ 3 := by decide +kernel
  exact mul_slack_lt_of_lt (Nat.lt_of_le_of_lt (Nat.mul_le_mul_right _ hn) hlast)

/-- A double that is not below one, nor above a bound. -/
inductive Bounded (bound : ℚ) : UnpackedFloat → Prop where
  | intro {m : Nat} {e : Int} (hpos : 0 < m) (hlow : 2 ^ 52 ≤ m) (hhigh : m < 2 ^ 53)
      (hlarge : -52 ≤ e)
      (hle : (m : ℚ) * 2 ^ e ≤ bound) : Bounded bound (.finite .positive m e hpos)

theorem bounded_round {m : Nat} {e : Int} (hwide : 52 ≤ m.log2) (hlarge : 0 ≤ m.log2 + e) :
    Bounded ((m : ℚ) * 2 ^ e * slack) (roundWithAccuracy Format.binary64 .positive m e .exact) := by
  obtain ⟨k, hk⟩ := Nat.exists_eq_add_of_le hwide
  obtain ⟨m', e', hpos, heq, hlow, hhigh, hlarge', hle⟩ := round_eq hk hlarge
  rw [heq]
  refine .intro hpos hlow hhigh hlarge' (hle.trans ?_)
  have hne : m ≠ 0 := by
    rintro rfl
    rw [Nat.log2_zero] at hk
    omega
  have hfloor : ((m / 2 ^ k * 2 ^ k : Nat) : ℚ) ≤ m := Nat.cast_le.2 (Nat.div_mul_le_self m (2 ^ k))
  have hunit : ((2 ^ k * 2 ^ 52 : Nat) : ℚ) ≤ m := by
    rw [Nat.cast_le, ← Nat.pow_add, Nat.add_comm, ← hk]
    exact Nat.log2_self_le hne
  push_cast at hfloor hunit
  calc ((m / 2 ^ k + 1 : Nat) : ℚ) * 2 ^ (e + k)
      = (((m / 2 ^ k : Nat) : ℚ) * 2 ^ k + 2 ^ k) * 2 ^ e := by
        rw [zpow_add₀ two_ne_zero, zpow_natCast]
        push_cast
        ring
    _ ≤ (m + m / 2 ^ 52) * 2 ^ e := by
        gcongr
        rw [le_div_iff₀ (by norm_num)]
        exact hunit
    _ = (m : ℚ) * 2 ^ e * slack := by
        rw [slack]
        ring

/-! ## Packing -/

/-- A double of full width is packed and unpacked as it is, if it is in range. -/
theorem unpack_pack {m : Nat} {e : Int} (hpos : 0 < m) (hlow : 2 ^ 52 ≤ m) (hhigh : m < 2 ^ 53)
    (hleast : -1074 ≤ e) (hmost : e ≤ 971) :
    (Float.Model.pack (.finite .positive m e hpos)).unpack = .finite .positive m e hpos := by
  have hlog2 : m.log2 = 52 := (Nat.log2_eq_iff hpos.ne').2 ⟨hlow, hhigh⟩
  obtain ⟨b, hb⟩ : ∃ b : Nat, (b : Int) = e + 1023 + 52 := ⟨_, Int.toNat_of_nonneg (by omega)⟩
  have hpack : UnpackedFloat.pack Format.binary64 (.finite .positive m e hpos) =
      packComponents Format.binary64 .positive (BitVec.ofNat 11 b) (BitVec.ofNat 52 m) := by
    have hbiased : (e + (Format.exponentBias Format.binary64 : Int) + (52 : Nat)).toNat = b := by
      show (e + 1023 + 52).toNat = b
      omega
    rw [UnpackedFloat.pack]
    dsimp only
    rw [hbiased, if_neg (by omega),
      if_pos (show m.log2 + 1 = Format.binary64.mantissaBits by rw [hlog2]; rfl)]
  have hexponent : (BitVec.ofNat 11 b).toNat = b := by
    rw [BitVec.toNat_ofNat]
    omega
  have hmantissa : (1#1 ++ BitVec.ofNat 52 m).toNat = m := by
    rw [BitVec.toNat_append, ← Nat.shiftLeft_add_eq_or_of_lt (BitVec.isLt _), BitVec.toNat_ofNat]
    show 2 ^ 52 + m % 2 ^ 52 = m
    omega
  show UnpackedFloat.unpack Format.binary64 (UnpackedFloat.pack Format.binary64 _) = _
  rw [hpack, UnpackedFloat.unpack]
  have hneg : BitVec.ofNat 11 b ≠ -1#11 := fun h => by
    have hall := congrArg BitVec.toNat h
    rw [hexponent, show (-1#11).toNat = 2047 from rfl] at hall
    omega
  have hzero : BitVec.ofNat 11 b ≠ 0#11 := fun h => by
    have hnone := congrArg BitVec.toNat h
    rw [hexponent, BitVec.toNat_zero] at hnone
    omega
  dsimp only
  rw [if_neg (by rwa [unpackExponent_packComponents]),
    if_neg (by rwa [unpackExponent_packComponents])]
  simp only [unpackMantissa_packComponents, unpackExponent_packComponents,
    unpackSign_packComponents, hexponent, hmantissa]
  have hbias : (Format.exponentBias Format.binary64 : Int) = 1023 := rfl
  congr 1
  rw [hbias, hb]
  omega

theorem Bounded.unpack_pack {x : UnpackedFloat} {bound : ℚ} (h : Bounded bound x)
    (hbound : bound < rangeEnd) :
    (Float.Model.pack x).unpack = x := by
  obtain @⟨m, e, hpos, hlow, hhigh, hlarge, hle⟩ := h
  refine Binary64.unpack_pack hpos hlow hhigh (by omega) (Int.not_lt.1 fun hout => ?_)
  have htoo : rangeEnd ≤ m * 2 ^ e := by
    have hwide : (2 : ℚ) ^ 52 ≤ m := by exact_mod_cast hlow
    have hscale : (2 : ℚ) ^ ((972 : Nat) : ℤ) ≤ 2 ^ e := zpow_le_zpow_right₀ one_le_two hout
    exact mul_le_mul hwide hscale (by positivity) (Nat.cast_nonneg m)
  exact not_le.2 hbound (htoo.trans hle)

/-! ## Numbers and their products -/

theorem Bounded.mono {x : UnpackedFloat} {a b : ℚ} (h : Bounded a x) (hab : a ≤ b) :
    Bounded b x := by
  obtain ⟨hpos, hlow, hhigh, hlarge, hle⟩ := h
  exact .intro hpos hlow hhigh hlarge (hle.trans hab)

/-- A product is rounded once. -/
theorem Bounded.mul {x y : UnpackedFloat} {a b : ℚ} (hx : Bounded a x) (hy : Bounded b y) :
    Bounded (a * b * slack) (UnpackedFloat.mul Format.binary64 x y) := by
  obtain @⟨m₁, e₁, hpos₁, hlow₁, hhigh₁, hlarge₁, hle₁⟩ := hx
  obtain @⟨m₂, e₂, hpos₂, hlow₂, hhigh₂, hlarge₂, hle₂⟩ := hy
  have hwide : 104 ≤ (m₁ * m₂).log2 :=
    (Nat.le_log2 (Nat.mul_pos hpos₁ hpos₂).ne').2 (by
      rw [show 104 = 52 + 52 from rfl, Nat.pow_add]
      exact Nat.mul_le_mul hlow₁ hlow₂)
  refine (bounded_round (m := m₁ * m₂) (e := e₁ + e₂) (by omega) (by omega)).mono ?_
  have hslack := slack_pos
  have hvalue : ((m₁ * m₂ : Nat) : ℚ) * 2 ^ (e₁ + e₂) = (m₁ * 2 ^ e₁) * (m₂ * 2 ^ e₂) := by
    rw [zpow_add₀ two_ne_zero]
    push_cast
    ring
  rw [hvalue]
  gcongr
  exact le_trans (by positivity) hle₁

theorem log2_mul_two_pow {n : Nat} (hpos : 0 < n) (k : Nat) : (n * 2 ^ k).log2 = n.log2 + k := by
  obtain ⟨hlow, hhigh⟩ := (Nat.log2_eq_iff hpos.ne').1 rfl
  have hscale := Nat.two_pow_pos k
  rw [Nat.log2_eq_iff (Nat.mul_pos hpos hscale).ne', Nat.pow_add, Nat.add_right_comm, Nat.pow_add]
  exact ⟨Nat.mul_le_mul_right _ hlow, Nat.mul_lt_mul_of_pos_right hhigh hscale⟩

/-- A whole number is rounded once. -/
theorem bounded_toFloat {n : UInt64} (hpos : 0 < n.toNat) :
    Bounded (n.toNat * slack) n.toFloat.toModel.unpack := by
  have hround : UnpackedFloat.ofUInt64 Format.binary64 n =
      UnpackedFloat.round Format.binary64 .positive n.toNat 0 := by
    have hcompare : compare (n.toNat : Int) 0 = .gt := compare_gt_iff_gt.2 (by omega)
    rw [UnpackedFloat.ofUInt64, UnpackedFloat.ofNat, UnpackedFloat.ofInt,
      UnpackedFloat.normalize, hcompare]
    rfl
  have hbounded : Bounded (n.toNat * slack) (UnpackedFloat.ofUInt64 Format.binary64 n) := by
    have htarget : Format.binary64.targetExponent (totalExponent n.toNat 0) =
        n.toNat.log2 - 52 := by
      have hbits : (Format.binary64.mantissaBits : Int) = 53 := rfl
      have hleast : Format.binary64.minExponent = -1074 := rfl
      rw [Format.targetExponent, totalExponent, hbits, hleast]
      omega
    rw [hround, UnpackedFloat.round, htarget, decreaseExponent]
    dsimp only
    obtain ⟨k, hk⟩ : ∃ k, (0 - ((n.toNat.log2 : Int) - 52)).toNat = k := ⟨_, rfl⟩
    rw [hk]
    rw [Nat.shiftLeft_eq]
    have hlog2 := log2_mul_two_pow hpos k
    refine (bounded_round (by omega) (by omega)).mono (le_of_eq ?_)
    rw [zero_sub, zpow_neg, zpow_natCast]
    push_cast
    rw [mul_inv_cancel_right₀ (by positivity)]
  have hroomy : n.toNat ≤ roomyEnd := n.toNat_lt.le.trans (by decide +kernel)
  have hlt : (n.toNat : ℚ) * slack < rangeEnd :=
    (mul_le_mul_of_nonneg_left (le_self_pow₀ one_le_slack (by decide)) (Nat.cast_nonneg _)).trans_lt
      (mul_slack_lt hroomy)
  show Bounded _ (Float.Model.pack (UnpackedFloat.ofUInt64 Format.binary64 n)).unpack
  rwa [hbounded.unpack_pack hlt]

/-- The powers of ten that are looked up are those that the model computes. -/
theorem powerOfTen_eq (e : Nat) : (Scaled.powerOfTen e).toModel = Float.Model.ofScientific 1 e := by
  have htable : ∀ e ≤ 22, (Scaled.powerOfTen e).toModel = Float.Model.ofScientific 1 e := by
    decide +kernel
  by_cases hsmall : e ≤ 22
  · exact htable e hsmall
  · rw [Scaled.powerOfTen, Float.ofScientific, dif_neg fun h => hsmall h.2]
    rfl

/-- A power of ten is rounded once. -/
theorem bounded_powerOfTen {e : Nat} (he : e ≤ Scaled.topExponent) :
    Bounded (10 ^ e * slack) (Scaled.powerOfTen e).toModel.unpack := by
  have htop : Scaled.topExponent = 308 := rfl
  have hbounded : Bounded (10 ^ e * slack) (UnpackedFloat.ofScientific Format.binary64 1 e) := by
    have hround : UnpackedFloat.ofScientific Format.binary64 1 e =
        roundWithAccuracy Format.binary64 .positive (1 <<< 53 * 10 ^ e) (-53) .exact := by
      have hbits : (2 : Int) ^ Format.binary64.exponentBits = 2048 := rfl
      rw [UnpackedFloat.ofScientific, dif_neg (by decide), hbits, if_neg (by omega),
        if_neg (by omega), if_pos (by omega)]
      rfl
    have hpos : 0 < 10 ^ e := Nat.pow_pos (by decide)
    have hlog2 := log2_mul_two_pow hpos 53
    have hcomm : 1 <<< 53 * 10 ^ e = 10 ^ e * 2 ^ 53 := by rw [Nat.mul_comm]; rfl
    rw [hround, hcomm]
    refine (bounded_round (by omega) (by omega)).mono (le_of_eq ?_)
    rw [zpow_neg, show (2 : ℚ) ^ (53 : ℤ) = 2 ^ 53 from zpow_natCast 2 53, Nat.cast_mul,
      Nat.cast_pow, Nat.cast_pow, Nat.cast_ofNat, Nat.cast_ofNat,
      mul_inv_cancel_right₀ (by positivity)]
  have hroomy : 10 ^ e ≤ roomyEnd := (Nat.pow_le_pow_right (by decide) he).trans (by decide +kernel)
  have hlt : (10 : ℚ) ^ e * slack < rangeEnd := by
    have hthrice := mul_slack_lt hroomy
    rw [Nat.cast_pow] at hthrice
    exact (mul_le_mul_of_nonneg_left (le_self_pow₀ one_le_slack (by decide))
      (by positivity)).trans_lt hthrice
  rw [powerOfTen_eq]
  show Bounded _ (Float.Model.pack (UnpackedFloat.ofScientific Format.binary64 1 e)).unpack
  rwa [hbounded.unpack_pack hlt]

theorem Bounded.isInf_eq_false {x : UnpackedFloat} {bound : ℚ} (h : Bounded bound x) :
    x.isInf = false := by
  cases h
  rfl

/-- **A product with a power of ten** is not infinite if it is well below the end. -/
theorem isInf_mul_powerOfTen {n : UInt64} {e : Nat} (hpos : 0 < n.toNat)
    (he : e ≤ Scaled.topExponent) (hroomy : n.toNat * 10 ^ e ≤ roomyEnd) :
    (n.toFloat * Scaled.powerOfTen e).isInf = false := by
  have hbounded := (bounded_toFloat hpos).mul (bounded_powerOfTen he)
  have hlt : (n.toNat : ℚ) * slack * (10 ^ e * slack) * slack < rangeEnd :=
    calc (n.toNat : ℚ) * slack * (10 ^ e * slack) * slack = ((n.toNat * 10 ^ e : Nat) : ℚ) *
        slack ^ 3 := by
          push_cast
          ring
      _ < rangeEnd := mul_slack_lt hroomy
  show (Float.Model.pack (UnpackedFloat.mul Format.binary64 n.toFloat.toModel.unpack
    (Scaled.powerOfTen e).toModel.unpack)).unpack.isInf = false
  rw [hbounded.unpack_pack hlt]
  exact hbounded.isInf_eq_false

theorem isInf_zero_mul {e : Nat} (he : e ≤ Scaled.topExponent) :
    (UInt64.toFloat 0 * Scaled.powerOfTen e).isInf = false := by
  show (Float.Model.pack (UnpackedFloat.mul Format.binary64 (UInt64.toFloat 0).toModel.unpack
    (Scaled.powerOfTen e).toModel.unpack)).unpack.isInf = false
  have hzero : (UInt64.toFloat 0).toModel.unpack = .zero .positive := rfl
  have hproduct : (Float.Model.pack (.zero .positive)).unpack.isInf = false := by decide +kernel
  have hbounded := bounded_powerOfTen he
  rw [hzero]
  generalize (Scaled.powerOfTen e).toModel.unpack = x at hbounded ⊢
  cases hbounded
  exact hproduct

/-- The greatest double, in seventeen digits. -/
def greatest : Nat := 17976931348623157 * 10 ^ 292

/-- A number of few digits that is between two multiples of a power of ten ends in about as many
zeros. -/
theorem few_digits_near {n e c low high : Nat} (hfew : n ≤ 10 ^ 17) (hwide : 10 ^ 16 ≤ low)
    (hlow : low * 10 ^ c < n * 10 ^ e) (hhigh : n * 10 ^ e ≤ high * 10 ^ c) :
    ∃ d, e = c + d ∧ low < n * 10 ^ d ∧ n * 10 ^ d ≤ high := by
  have hscale : 0 < 10 ^ c := Nat.pow_pos (by decide)
  have hle : c ≤ e := by
    refine Nat.not_lt.1 fun hlt => Nat.not_le.2 hlow ?_
    obtain ⟨d, rfl⟩ := Nat.exists_eq_add_of_lt hlt
    calc n * 10 ^ e ≤ 10 ^ 17 * 10 ^ e := Nat.mul_le_mul_right _ hfew
      _ = 10 ^ 16 * 10 ^ (e + 1) := by
        rw [← Nat.pow_add, ← Nat.pow_add, Nat.add_left_comm, Nat.add_comm]
      _ ≤ low * 10 ^ (e + d + 1) :=
        Nat.mul_le_mul hwide (Nat.pow_le_pow_right (by decide) (by omega))
  obtain ⟨d, rfl⟩ := Nat.exists_eq_add_of_le hle
  have hsplit : n * 10 ^ (c + d) = n * 10 ^ d * 10 ^ c := by
    rw [Nat.pow_add, Nat.mul_comm (10 ^ c), Nat.mul_assoc]
  rw [hsplit] at hlow hhigh
  exact ⟨d, rfl, Nat.lt_of_mul_lt_mul_right hlow, Nat.le_of_mul_le_mul_right hhigh hscale⟩

/-- Up to the greatest double no product is infinite whose digits are that few. Near the end the
roundings matter, and the few numbers there are tried. -/
theorem isInf_mul_of_le_greatest {n : UInt64} {e : Nat} (he : e ≤ Scaled.topExponent)
    (hfew : n.toNat ≤ 10 ^ 17) (hle : n.toNat * 10 ^ e ≤ greatest) :
    (n.toFloat * Scaled.powerOfTen e).isInf = false := by
  have hlast : ∀ n ∈ List.range' 17976931348623147 11,
      (n.toUInt64.toFloat * Scaled.powerOfTen 292).isInf = false := by
    decide +kernel
  have hlast' : (UInt64.toFloat 1797693134862315 * Scaled.powerOfTen 293).isInf = false := by
    decide +kernel
  rcases Nat.eq_zero_or_pos n.toNat with hzero | hpos
  · obtain rfl : n = 0 := UInt64.toNat_inj.1 hzero
    exact isInf_zero_mul he
  by_cases hroomy : n.toNat * 10 ^ e ≤ roomyEnd
  · exact isInf_mul_powerOfTen hpos he hroomy
  rw [Nat.not_le, roomyEnd] at hroomy
  rw [greatest] at hle
  obtain ⟨d, rfl, hlow, hhigh⟩ := few_digits_near hfew (by decide) hroomy hle
  clear hle hroomy
  match d with
  | 0 =>
    have hmem : n.toNat ∈ List.range' 17976931348623147 11 := by
      rw [List.mem_range'_1]
      omega
    have hround : n.toNat.toUInt64 = n := UInt64.ofNat_toNat
    exact hround ▸ hlast n.toNat hmem
  | 1 =>
    obtain rfl : n = 1797693134862315 :=
      UInt64.toNat_inj.1 (show n.toNat = 1797693134862315 by omega)
    exact hlast'
  | d + 2 =>
    rw [Nat.pow_add, ← Nat.mul_assoc] at hlow hhigh
    omega

end Binary64

/-- **A number is read quickly** if it has few digits and no double is less than it. -/
theorem Scaled.isSome_toFloat? {s : Scaled} (hfew : s.significand.toNat ≤ 10 ^ 17)
    (hle : ∀ e : Nat, s.exponent = e → s.significand.toNat * 10 ^ e ≤ Binary64.greatest) :
    s.toFloat?.isSome = true := by
  obtain ⟨significand, exponent⟩ := s
  cases exponent with
  | ofNat e =>
    have hproduct := hle e rfl
    simp only [Scaled.toFloat?]
    split
    · next he =>
      rw [if_neg (by rw [Binary64.isInf_mul_of_le_greatest he hfew hproduct]; decide)]
      rfl
    · next he =>
      have hfar : Binary64.greatest < 10 ^ (topExponent + 1) := by decide +kernel
      have hlarge : 10 ^ (topExponent + 1) ≤ 10 ^ e :=
        Nat.pow_le_pow_right (by decide) (Nat.not_le.1 he)
      have hzero : significand = 0 := by
        refine UInt64.toNat_inj.1 (Nat.eq_zero_of_not_pos fun hpos => ?_)
        exact Nat.not_le.2 hfar (hlarge.trans ((Nat.le_mul_of_pos_left _ hpos).trans hproduct))
      rw [if_pos hzero]
      rfl
  | negSucc e =>
    simp only [Scaled.toFloat?]
    split
    · rfl
    · split <;> rfl

end WeakIntern
