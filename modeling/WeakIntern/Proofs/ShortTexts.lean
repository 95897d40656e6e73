import WeakIntern.Proofs.Numerals
/-!
# The shortest text of a double is a number that can be read

The shortest text of a double has few digits (`IsShort.few`), the number that they make reads back
as the double, so that it is no greater than a double can be (`IsShort.le_greatest`), and the text
is one that JSON admits. So it is read as a number, though perhaps not as the same one
(`shortestText?_eq`): the quick way of reading rounds more than once.
-/

namespace WeakIntern

/-! ## The range of doubles -/

namespace Binary64

theorem bounds_of_ofFloat {x : Float} {negative : Bool} {m : Nat} {e : Int}
    (h : ofFloat x = .finite negative m e) :
    m < 2 ^ 53 ∧ e ≤ 971 := by
  have hfraction : (x.toBits &&& 0xfffffffffffff).toNat < 2 ^ 52 := by
    rw [UInt64.toNat_and]
    exact Nat.lt_of_le_of_lt Nat.and_le_right (by decide)
  have hbiased : ((x.toBits >>> 52) &&& 0x7ff).toNat < 2 ^ 11 := by
    rw [UInt64.toNat_and]
    exact Nat.lt_of_le_of_lt Nat.and_le_right (by decide)
  rw [ofFloat, ofBits] at h
  generalize (x.toBits &&& 0xfffffffffffff).toNat = fraction at h hfraction
  generalize ((x.toBits >>> 52) &&& 0x7ff).toNat = biased at h hbiased
  split at h
  · split at h <;> cases h
  · next hfinite =>
    split at h
    · cases h
      exact ⟨by omega, by decide⟩
    · cases h
      rw [minExponent]
      exact ⟨by omega, by omega⟩

end Binary64

/-! ## Fractions as rational numbers -/

namespace Fraction

/-- The value of a fraction. -/
def value (a : Fraction) : ℚ := a.num / a.den

theorem den_ofScaled_pos {base : Nat} (hbase : 0 < base) (n : Nat) (e : Int) :
    0 < (ofScaled n base e).den := by
  cases e with
  | ofNat e => exact Nat.one_pos
  | negSucc e => exact Nat.pow_pos hbase

theorem value_ofScaled {base : Nat} (n : Nat) (e : Int) :
    (ofScaled n base e).value = n * (base : ℚ) ^ e := by
  cases e with
  | ofNat e => simp [ofScaled, value]
  | negSucc e => simp [ofScaled, value, zpow_negSucc, div_eq_mul_inv]

theorem le_iff {a b : Fraction} (ha : 0 < a.den) (hb : 0 < b.den) : a.le b = true ↔
    a.value ≤ b.value := by
  rw [le, decide_eq_true_iff, value, value,
    div_le_div_iff₀ (by exact_mod_cast ha) (by exact_mod_cast hb)]
  exact_mod_cast Iff.rfl

theorem lt_iff {a b : Fraction} (ha : 0 < a.den) (hb : 0 < b.den) : a.lt b = true ↔
    a.value < b.value := by
  rw [lt, decide_eq_true_iff, value, value,
    div_lt_div_iff₀ (by exact_mod_cast ha) (by exact_mod_cast hb)]
  exact_mod_cast Iff.rfl

theorem lt_pow_length (n : Nat) : n < 10 ^ (Nat.toDigits 10 n).length :=
  (Nat.length_toDigits_le_iff (by decide) Nat.length_toDigits_pos).1 (Nat.le_refl _)

theorem pow_length_le {n : Nat} (hn : 0 < n) : 10 ^ (Nat.toDigits 10 n).length ≤ 10 * n := by
  obtain ⟨k, hk⟩ :=
    Nat.exists_eq_add_one_of_ne_zero (Nat.length_toDigits_pos (n := n) (b := 10)).ne'
  rw [hk, Nat.pow_succ, Nat.mul_comm]
  refine Nat.mul_le_mul_left 10 ?_
  rcases Nat.eq_zero_or_pos k with rfl | hpos
  · exact hn
  · refine Nat.not_lt.1 fun hlt => ?_
    have hle := (Nat.length_toDigits_le_iff (by decide) hpos).2 hlt
    omega

/-- The logarithm is not too small. -/
theorem value_lt_log10 {a : Fraction} (ha : 0 < a.den) : a.value < 10 ^ (a.log10 + 1) := by
  rw [log10]
  split
  · have hnum : (a.num : ℚ) < 10 ^ (Nat.toDigits 10 a.num).length := by
      exact_mod_cast lt_pow_length a.num
    have hden : (10 : ℚ) ^ (Nat.toDigits 10 a.den).length ≤ 10 * a.den := by
      exact_mod_cast pow_length_le ha
    have hpos : (0 : ℚ) < a.den := by exact_mod_cast ha
    rw [value, div_lt_iff₀ hpos, zpow_add₀ (by norm_num), zpow_sub₀ (by norm_num), zpow_natCast,
      zpow_natCast, zpow_one]
    refine hnum.trans_le ?_
    rw [div_mul_eq_mul_div, div_mul_eq_mul_div, le_div_iff₀ (by positivity), mul_assoc]
    exact mul_le_mul_of_nonneg_left hden (by positivity)
  · next hless =>
    rw [sub_add_cancel]
    rw [le_iff (den_ofScaled_pos (by decide) _ _) ha, value_ofScaled, not_le, Nat.cast_one, one_mul]
      at hless
    exact hless

end Fraction

/-! ## The search for the fewest digits -/

theorem roundEven_le (num den : Nat) : roundEven num den ≤ num / den + 1 := by
  simp only [roundEven]
  split
  · exact Nat.le_succ _
  · split
    · exact Nat.le_refl _
    · omega

theorem le_roundEven (num den : Nat) : num / den ≤ roundEven num den := by
  simp only [roundEven]
  split
  · exact Nat.le_refl _
  · split
    · exact Nat.le_succ _
    · omega

namespace ReadBack

variable {r : ReadBack}

/-- What is found on a grid reads back, and is next to the value. -/
theorem nearest?_spec {e : Int} {n : Nat} (h : r.nearest? e = some n) :
    r.holds (.ofScaled n 10 e) = true ∧
      n ≤ r.value.num * (Fraction.ofScaled 1 10 e).den /
        (r.value.den * (Fraction.ofScaled 1 10 e).num) + 1 := by
  simp only [nearest?] at h
  generalize hdown : r.value.num * (Fraction.ofScaled 1 10 e).den /
    (r.value.den * (Fraction.ofScaled 1 10 e).num) = down at h ⊢
  split at h
  · cases h
  · next hholds _ =>
    cases h
    exact ⟨hholds, Nat.le_succ _⟩
  · next _ hholds =>
    cases h
    exact ⟨hholds, Nat.le_refl _⟩
  · next hlow hhigh =>
    have hle :=
      roundEven_le (r.value.num * (Fraction.ofScaled 1 10 e).den)
        (r.value.den * (Fraction.ofScaled 1 10 e).num)
    have hge :=
      le_roundEven (r.value.num * (Fraction.ofScaled 1 10 e).den)
        (r.value.den * (Fraction.ofScaled 1 10 e).num)
    rw [Option.some.inj h, hdown] at hle hge
    rcases Nat.eq_or_lt_of_le hge with rfl | hlt
    · exact ⟨hlow, hle⟩
    · obtain rfl : n = down + 1 := Nat.le_antisymm hle hlt
      exact ⟨hhigh, hle⟩

/-- The search ends on a grid on which there is a number that reads back. -/
theorem search_spec {top : Int} {digits grids n : Nat} {e : Int}
    (h : r.search top digits grids = some (n, e)) :
    n ≠ 0 ∧ r.nearest? e = some n ∧ top + 1 - e < digits + grids := by
  induction grids generalizing digits with
  | zero => cases h
  | succ grids ih =>
    rw [search] at h
    split at h
    · next m hnearest =>
      split at h
      · obtain ⟨hne, hfound, hlt⟩ := ih h
        exact ⟨hne, hfound, by omega⟩
      · next hne =>
        cases h
        exact ⟨hne, hnearest, by omega⟩
    · obtain ⟨hne, hfound, hlt⟩ := ih h
      exact ⟨hne, hfound, by omega⟩

theorem value_le_high {m : Nat} {e : Int} {a : Fraction} (ha : 0 < a.den)
    (h : (ofFinite m e).holds a = true) :
    a.value ≤ (4 * m + 2 : Nat) * 2 ^ (e - 2) := by
  have hden := Fraction.den_ofScaled_pos (by decide : 0 < 2) (4 * m + 2) (e - 2)
  have hvalue := @Fraction.value_ofScaled 2 (4 * m + 2) (e - 2)
  rw [Nat.cast_two] at hvalue
  rw [← hvalue]
  rw [holds] at h
  split at h <;> rw [Bool.and_eq_true] at h
  · exact (Fraction.le_iff ha hden).1 h.2
  · exact ((Fraction.lt_iff ha hden).1 h.2).le

/-- **What is found** has few digits, and is not far above the value. -/
theorem search_found {m n : Nat} {e e' : Int}
    (h : (ofFinite m e).search (ofFinite m e).value.log10 1 17 = some (n, e')) :
    n ≠ 0 ∧ n ≤ 10 ^ 17 ∧ (n : ℚ) * 10 ^ e' ≤ (4 * m + 2 : Nat) * 2 ^ (e - 2) := by
  obtain ⟨hne, hnearest, hfew⟩ := search_spec h
  obtain ⟨hholds, hnext⟩ := nearest?_spec hnearest
  have hden : 0 < (ofFinite m e).value.den := Fraction.den_ofScaled_pos (by decide) m e
  have hstep := Fraction.den_ofScaled_pos (by decide : 0 < 10) 1 e'
  refine ⟨hne, ?_, ?_⟩
  · have hless := Fraction.value_lt_log10 hden
    generalize (ofFinite m e).value.log10 = top at hless hfew
    generalize (ofFinite m e).value = a at hless hnext hden
    generalize hdown : a.num * (Fraction.ofScaled 1 10 e').den /
      (a.den * (Fraction.ofScaled 1 10 e').num) = down at hnext
    have hscale : (0 : ℚ) < 10 ^ e' := by positivity
    have hquotient : (down : ℚ) * 10 ^ e' ≤ a.value := by
      have hunit : (10 : ℚ) ^ e' = (Fraction.ofScaled 1 10 e').value := by
        rw [Fraction.value_ofScaled, Nat.cast_one, one_mul, Nat.cast_ofNat]
      rw [← le_div_iff₀ hscale, hunit, Fraction.value, Fraction.value, div_div_div_eq, ← hdown]
      exact_mod_cast Nat.cast_div_le
    have hlt : (down : ℚ) * 10 ^ e' < 10 ^ 17 * 10 ^ e' :=
      calc (down : ℚ) * 10 ^ e' ≤ a.value := hquotient
        _ < 10 ^ (top + 1) := hless
        _ ≤ 10 ^ ((17 : ℤ) + e') := zpow_le_zpow_right₀ (by norm_num) (by omega)
        _ = 10 ^ 17 * 10 ^ e' := by rw [zpow_add₀ (by norm_num)]; rfl
    have hnat : down < 10 ^ 17 := by exact_mod_cast (mul_lt_mul_iff_left₀ hscale).1 hlt
    omega
  · have hvalue := @Fraction.value_ofScaled 10 n e'
    have hle := value_le_high (Fraction.den_ofScaled_pos (by decide) n e') hholds
    rwa [hvalue] at hle

end ReadBack

/-! ## The shortest digits -/

theorem append_trimZeros (digits : List Char) :
    (trimZeros digits).1 ++ List.replicate (trimZeros digits).2 '0' = digits := by
  have hzeros : digits.reverse.takeWhile (· == '0') =
      List.replicate (digits.reverse.takeWhile (· == '0')).length '0' :=
    List.eq_replicate_of_mem fun c hc => beq_iff_eq.1 (List.all_eq_true.1 List.all_takeWhile c hc)
  have hparts : (digits.reverse.dropWhile (· == '0')).reverse ++
      (digits.reverse.takeWhile (· == '0')).reverse = digits := by
    rw [← List.reverse_append, List.takeWhile_append_dropWhile, List.reverse_reverse]
  have hlength := congrArg List.length hparts
  have htail : (digits.reverse.takeWhile (· == '0')).reverse.length =
      (digits.reverse.takeWhile (· == '0')).length :=
    List.length_reverse
  rw [List.length_append, htail] at hlength
  rw [hzeros, List.reverse_replicate] at hparts
  rw [trimZeros]
  dsimp only
  rw [show digits.length - (digits.reverse.dropWhile (· == '0')).reverse.length =
    (digits.reverse.takeWhile (· == '0')).length by omega]
  exact hparts

/-- What the shortest digits of a double are like: they make a number of few digits that is no
greater than a double can be. -/
structure IsShort (digits : List Char) (point : Int) : Prop where
  numeral : isNumeral digits = true
  first : digits.head? ≠ some '0' ∨ digits = ['0'] ∧ point = 1
  few : digitsValue digits ≤ 10 ^ 17
  le_greatest : ∀ k : Nat, point - digits.length = k →
    digitsValue digits * 10 ^ k ≤ Binary64.greatest

theorem cast_mul_two_pow_le {a b k : Nat} (h : a * 2 ^ k ≤ b) : (a : ℚ) * 2 ^ (k : ℤ) ≤ b := by
  rw [zpow_natCast]
  exact_mod_cast h

/-- Only the greatest double has numbers next to it that are greater than its digits. -/
theorem high_le_greatest {m : Nat} {e : Int} (hm : m < 2 ^ 53) (he : e ≤ 971)
    (hless : ¬ (m = 2 ^ 53 - 1 ∧ e = 971)) :
    ((4 * m + 2 : Nat) : ℚ) * 2 ^ (e - 2) ≤ Binary64.greatest := by
  have hlast : (2 ^ 55 - 6) * 2 ^ 969 ≤ Binary64.greatest := by decide +kernel
  refine le_trans ?_ (cast_mul_two_pow_le hlast)
  rcases Int.le_iff_lt_or_eq.1 he with hlt | rfl
  · have hscale : (2 : ℚ) ^ (e - 2) * 2 ≤ 2 ^ ((969 : Nat) : ℤ) := by
      rw [← zpow_add_one₀ two_ne_zero]
      exact zpow_le_zpow_right₀ one_le_two (by omega)
    have hwide : ((4 * m + 2 : Nat) : ℚ) ≤ ((2 ^ 55 - 6 : Nat) : ℚ) * 2 := by
      have hnat : 4 * m + 2 ≤ (2 ^ 55 - 6) * 2 := by omega
      exact_mod_cast hnat
    calc ((4 * m + 2 : Nat) : ℚ) * 2 ^ (e - 2)
        ≤ ((2 ^ 55 - 6 : Nat) : ℚ) * 2 * 2 ^ (e - 2) := by gcongr
      _ = ((2 ^ 55 - 6 : Nat) : ℚ) * (2 ^ (e - 2) * 2) := by ring
      _ ≤ _ := by gcongr
  · exact mul_le_mul_of_nonneg_right (Nat.cast_le.2 (by omega)) (by positivity)

/-- The greatest double is written with a number that is less than itself. -/
theorem isShort_greatest :
    IsShort (shortestDigits (2 ^ 53 - 1) 971).1 (shortestDigits (2 ^ 53 - 1) 971).2 := by
  have hdigits : shortestDigits (2 ^ 53 - 1) 971 = ("17976931348623157".toList, 309) := by
    decide +kernel
  rw [hdigits]
  exact
    { numeral := by decide
      first := .inl (by decide)
      few := by decide
      le_greatest := fun k hk => by
        have hlength : ("17976931348623157".toList.length : Int) = 17 := rfl
        obtain rfl : k = 292 := by
          rw [hlength] at hk
          omega
        have hvalue : digitsValue "17976931348623157".toList = 17976931348623157 := by decide
        rw [hvalue, Binary64.greatest] }

/-- Without the zeros at their end digits are as short as they can be. -/
theorem isShort_trimZeros {n : Nat} {e : Int} (hne : n ≠ 0) (hfew : n ≤ 10 ^ 17)
    (hgreatest : (n : ℚ) * 10 ^ e ≤ Binary64.greatest) :
    IsShort (trimZeros (Nat.toDigits 10 n)).1
      (e + (trimZeros (Nat.toDigits 10 n)).2 + (trimZeros (Nat.toDigits 10 n)).1.length) := by
  have hparts := append_trimZeros (Nat.toDigits 10 n)
  generalize (trimZeros (Nat.toDigits 10 n)).1 = kept at hparts ⊢
  generalize (trimZeros (Nat.toDigits 10 n)).2 = zeros at hparts ⊢
  have hvalue : digitsValue kept * 10 ^ zeros = n := by
    have hzeros : digitsValue (List.replicate zeros '0') = 0 := Nat.ofDigitChars_replicate_zero
    rw [← digitsValue_toDigits n, ← hparts, digitsValue_append, hzeros, List.length_replicate,
      Nat.mul_comm, Nat.add_zero]
  have hkept : kept ≠ [] := by
    rintro rfl
    exact hne (hvalue.symm.trans (Nat.zero_mul _))
  exact
    { numeral := isNumeral_of_isDigit hkept fun c hc =>
        isDigit_of_isNumeral (isNumeral_toDigits n) c (hparts ▸ List.mem_append_left _ hc)
      first := .inl fun hzero => by
        obtain ⟨c, rest, rfl⟩ := List.exists_cons_of_ne_nil hkept
        have hfirst := head_toDigits_ne hne
        rw [← hparts] at hfirst
        exact hfirst hzero
      few := (Nat.le_mul_of_pos_right _ (Nat.pow_pos (by decide))).trans (hvalue.trans_le hfew)
      le_greatest := fun k hk => by
        have hexponent : (k : ℤ) = zeros + e := by omega
        have hsame : ((digitsValue kept * 10 ^ k : Nat) : ℚ) = n * 10 ^ e := by
          rw [← hvalue, Nat.cast_mul, Nat.cast_pow, Nat.cast_ofNat, ← zpow_natCast, hexponent,
            zpow_add₀ (by norm_num), zpow_natCast, Nat.cast_mul, Nat.cast_pow,
            Nat.cast_ofNat, mul_assoc]
        exact_mod_cast hsame.trans_le hgreatest }

/-- **The shortest digits** of a double. -/
theorem isShort_shortestDigits {m : Nat} {e : Int} (hm : m < 2 ^ 53) (he : e ≤ 971) :
    IsShort (shortestDigits m e).1 (shortestDigits m e).2 := by
  by_cases hlast : m = 2 ^ 53 - 1 ∧ e = 971
  · obtain ⟨rfl, rfl⟩ := hlast
    exact isShort_greatest
  rw [shortestDigits]
  dsimp only
  split
  · exact
      { numeral := rfl
        first := .inr ⟨rfl, rfl⟩
        few := by decide
        le_greatest := fun k hk => (Nat.zero_mul _).trans_le (Nat.zero_le _) }
  · next n e' hfound =>
    obtain ⟨hne, hfew, hle⟩ := ReadBack.search_found hfound
    exact isShort_trimZeros hne hfew (hle.trans (high_le_greatest hm he hlast))

/-! ## The text of the digits -/

theorem digitsValue_cons (c : Char) (rest : List Char) :
    digitsValue (c :: rest) = 10 ^ rest.length * (c.toNat - '0'.toNat) + digitsValue rest := by
  have hone : digitsValue [c] = c.toNat - '0'.toNat := Nat.zero_add _
  rw [← hone, ← digitsValue_append]
  rfl

theorem digitsValue_lt {digits : List Char} (hall : ∀ c ∈ digits, c.isDigit = true) :
    digitsValue digits < 10 ^ digits.length := by
  induction digits with
  | nil => exact Nat.one_pos
  | cons c rest ih =>
    obtain ⟨hc, hrest⟩ := List.forall_mem_cons.1 hall
    have hdigit : c.toNat - '0'.toNat ≤ 9 := by
      rw [Char.isDigit, Bool.and_eq_true, decide_eq_true_iff, decide_eq_true_iff] at hc
      have hle : c.toNat ≤ 57 := hc.2
      show c.toNat - 48 ≤ 9
      omega
    have hlt := ih hrest
    rw [digitsValue_cons, List.length_cons, Nat.pow_succ]
    have hle := Nat.mul_le_mul_left (10 ^ rest.length) hdigit
    omega

theorem digitsValue_zeros (zeros : Nat) (digits : List Char) :
    digitsValue (List.replicate zeros '0' ++ digits) = digitsValue digits := by
  have hzeros : digitsValue (List.replicate zeros '0') = 0 := Nat.ofDigitChars_replicate_zero
  rw [digitsValue_append, hzeros, Nat.mul_zero, Nat.zero_add]

/-- A numeral that can be read as a double: it is no whole number, has few digits, and is no greater
than a double can be. -/
structure Numeral.Readable (n : Numeral) : Prop where
  formed : n.Formed
  part : n.fraction ≠ [] ∨ n.exponent ≠ []
  few : digitsValue (n.whole ++ n.fraction) ≤ 10 ^ 17
  exponent : ∃ e, exponentValue? n.exponent = some e ∧ ∀ k : Nat, e - n.fraction.length = k →
    digitsValue (n.whole ++ n.fraction) * 10 ^ k ≤ Binary64.greatest

/-- The exponent that is written behind the digits. -/
def exponentText (e : Int) : List Char :=
  'e' :: (if e < 0 then '-' else '+') :: Nat.toDigits 10 e.natAbs

theorem isExponent_exponentText (e : Int) : IsExponent (exponentText e) := by
  have hsign : [if e < 0 then '-' else '+'] = [] ∨ [if e < 0 then '-' else '+'] = ['+'] ∨
      [if e < 0 then '-' else '+'] = ['-'] := by
    split <;> simp
  exact .some (.inl rfl) hsign (isNumeral_toDigits e.natAbs)

theorem exponentValue?_exponentText (e : Int) :
    Numeral.exponentValue? (exponentText e) = some e := by
  rw [exponentText, Numeral.exponentValue?, if_pos (.inl rfl)]
  split
  · next hneg =>
    rw [readExponent, isNumeral_toDigits, if_pos rfl, digitsValue_toDigits]
    congr 1
    omega
  · next hpos =>
    rw [readExponent, isNumeral_toDigits, if_pos rfl, digitsValue_toDigits]
    congr 1
    omega

/-- Without an exponent only the number of the digits matters. -/
theorem Numeral.readable_of_plain {whole fraction : List Char} (hwhole : isNumeral whole = true)
    (hfirst : whole = ['0'] ∨ whole.head? ≠ some '0') (hfraction : isNumeral fraction = true)
    (hfew : digitsValue (whole ++ fraction) ≤ 10 ^ 17) : Readable ⟨whole, fraction, []⟩ where
  formed := ⟨hwhole, hfirst, isDigit_of_isNumeral hfraction, .none⟩
  part := .inl (ne_nil_of_isNumeral hfraction)
  few := hfew
  exponent := ⟨0, rfl, fun k hk => by
    have hpos := List.length_pos_iff.2 (ne_nil_of_isNumeral hfraction)
    dsimp only at hk
    omega⟩

theorem Numeral.text_of_plain {whole fraction : List Char} (hfraction : fraction ≠ []) :
    Numeral.text ⟨whole, fraction, []⟩ = whole ++ '.' :: fraction := by
  rw [text, fractionText, if_neg hfraction, List.append_nil]

namespace IsShort

variable {digits : List Char} {point : Int}

theorem readable_of_exponent {d : Char} {rest : List Char} (h : IsShort (d :: rest) point) :
    Numeral.Readable ⟨[d], rest, exponentText (point - 1)⟩ := by
  obtain ⟨hd, hrest⟩ := List.forall_mem_cons.1 (isDigit_of_isNumeral h.numeral)
  exact
    { formed :=
        { whole := isNumeral_of_isDigit (List.cons_ne_nil d
          []) fun c hc => List.mem_singleton.1 hc ▸ hd
          first := by
            by_cases hzero : d = '0'
            · exact .inl (hzero ▸ rfl)
            · exact .inr fun h => hzero (Option.some.inj h)
          fraction := hrest
          exponent := isExponent_exponentText _ }
      part := .inr (List.cons_ne_nil _ _)
      few := h.few
      exponent := ⟨point - 1, exponentValue?_exponentText _, fun k hk => h.le_greatest k (by
        rw [List.length_cons]
        dsimp only at hk
        omega)⟩ }

theorem isDigit_replicate (zeros : Nat) : ∀ c ∈ List.replicate zeros '0', c.isDigit = true := by
  intro c hc
  exact (List.mem_replicate.1 hc).2 ▸ rfl

/-- All digits stand before the point, with zeros behind them. -/
theorem readable_of_zeros (h : IsShort digits point) (hlow : 0 < point) (hhigh : point ≤ 16)
    (hwhole : digits.length ≤ point.toNat) :
    Numeral.Readable ⟨digits ++ List.replicate (point.toNat - digits.length) '0', ['0'], []⟩ := by
  obtain ⟨zeros, hzeros⟩ : ∃ zeros, point.toNat - digits.length = zeros := ⟨_, rfl⟩
  have hne := ne_nil_of_isNumeral h.numeral
  have hdigits : ∀ c ∈ digits ++ List.replicate zeros '0', c.isDigit = true :=
    List.forall_mem_append.2 ⟨isDigit_of_isNumeral h.numeral, isDigit_replicate zeros⟩
  rw [hzeros]
  refine Numeral.readable_of_plain (isNumeral_of_isDigit (by simp [hne]) hdigits) ?_ rfl ?_
  · rcases h.first with hfirst | ⟨hzero, hone⟩
    · obtain ⟨d, rest, rfl⟩ := List.exists_cons_of_ne_nil hne
      exact .inr hfirst
    · left
      obtain rfl : zeros = 0 := by
        rw [hzero, hone] at hzeros
        exact hzeros.symm
      rw [hzero]
      rfl
  · have hlt := digitsValue_lt (List.forall_mem_append.2 ⟨hdigits, isDigit_replicate 1⟩)
    refine hlt.le.trans (Nat.pow_le_pow_right (by decide) ?_)
    rw [List.length_append, List.length_append, List.length_replicate, List.length_replicate]
    omega

/-- The point stands among the digits. -/
theorem readable_of_split (h : IsShort digits point) (hlow : 0 < point)
    (hwhole : ¬ digits.length ≤ point.toNat) :
    digits.drop point.toNat ≠ [] ∧
      Numeral.Readable ⟨digits.take point.toNat, digits.drop point.toNat, []⟩ := by
  have hall := isDigit_of_isNumeral h.numeral
  have hparts := List.take_append_drop point.toNat digits
  have htake : digits.take point.toNat ≠ [] := by
    rw [ne_eq, List.take_eq_nil_iff]
    exact not_or.2 ⟨by omega, ne_nil_of_isNumeral h.numeral⟩
  have hdrop : digits.drop point.toNat ≠ [] := by
    rw [ne_eq, List.drop_eq_nil_iff]
    exact hwhole
  refine ⟨hdrop, Numeral.readable_of_plain
    (isNumeral_of_isDigit htake fun c hc => hall c (List.mem_of_mem_take hc)) ?_
    (isNumeral_of_isDigit hdrop fun c hc => hall c (List.mem_of_mem_drop hc)) (hparts.symm ▸ h.few)⟩
  rcases h.first with hfirst | ⟨rfl, rfl⟩
  · obtain ⟨c, rest, hcons⟩ := List.exists_cons_of_ne_nil htake
    rw [← hparts, hcons] at hfirst
    rw [hcons]
    exact .inr hfirst
  · exact absurd (Nat.le_refl 1) hwhole

/-- All digits stand behind the point, with zeros before them. -/
theorem readable_of_small (h : IsShort digits point) (zeros : Nat) :
    List.replicate zeros '0' ++ digits ≠ [] ∧
      Numeral.Readable ⟨['0'], List.replicate zeros '0' ++ digits, []⟩ := by
  have hne : List.replicate zeros '0' ++ digits ≠ [] := by simp [ne_nil_of_isNumeral h.numeral]
  have hdigits : ∀ c ∈ List.replicate zeros '0' ++ digits, c.isDigit = true :=
    List.forall_mem_append.2 ⟨isDigit_replicate zeros, isDigit_of_isNumeral h.numeral⟩
  have hvalue : digitsValue (['0'] ++ (List.replicate zeros '0' ++ digits)) = digitsValue digits :=
    digitsValue_zeros (zeros + 1) digits
  exact ⟨hne, Numeral.readable_of_plain rfl (.inl rfl) (isNumeral_of_isDigit hne hdigits)
    (hvalue.trans_le h.few)⟩

/-- **The text of short digits** can be read. -/
theorem exists_readable (h : IsShort digits point) : ∃ n :
    Numeral, n.Readable ∧ n.text = placePoint digits point := by
  rw [placePoint]
  dsimp only
  split
  · next hplain =>
    split
    · next hwhole =>
      exact ⟨_, h.readable_of_zeros hplain.1 hplain.2 hwhole,
        Numeral.text_of_plain (List.cons_ne_nil _ _)⟩
    · next hwhole =>
      obtain ⟨hne, hreadable⟩ := h.readable_of_split hplain.1 hwhole
      exact ⟨_, hreadable, Numeral.text_of_plain hne⟩
  · split
    · next hsmall =>
      obtain ⟨hne, hreadable⟩ := h.readable_of_small (-point).toNat
      exact ⟨_, hreadable, Numeral.text_of_plain hne⟩
    · split
      · exact ⟨_, h.readable_of_exponent, rfl⟩
      · next d rest hrest =>
        refine ⟨_, h.readable_of_exponent, ?_⟩
        rw [Numeral.text, Numeral.fractionText, if_neg hrest]
        rfl
      · exact absurd rfl (ne_nil_of_isNumeral h.numeral)

end IsShort

/-! ## The shortest text -/

/-- A double is written as a number that can be read, unless it is one that has no such text. -/
theorem shortestText?_eq (x : Float) :
    shortestText? x = none ∨ ∃ (negative : Bool) (n : Numeral), n.Readable ∧
      shortestText? x = some (String.ofList (signText negative ++ n.text)) := by
  rw [shortestText?]
  split
  · exact .inl rfl
  · exact .inl rfl
  · next negative e hx => exact .inr ⟨negative, ⟨['0'], ['0'], []⟩,
      Numeral.readable_of_plain rfl (.inl rfl) rfl (by decide), rfl⟩
  · next negative m e hne hx =>
    obtain ⟨hm, he⟩ := Binary64.bounds_of_ofFloat hx
    obtain ⟨n, hreadable, htext⟩ := (isShort_shortestDigits hm he).exists_readable
    exact .inr ⟨negative, n, hreadable, by rw [htext]⟩

end WeakIntern
