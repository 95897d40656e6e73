import WeakIntern.Proofs.Rounding
import WeakIntern.Text.JsonReader
/-!
# Numerals

A `Numeral` is a number as JSON writes it, without its sign: digits that do not begin with a
needless zero, then perhaps a fraction and an exponent. A numeral is taken apart as it was put
together (`Numeral.ofChars?_text`), and if it has few digits and is no greater than a double can be,
it is read as a number (`Numeral.exists_numberValue`).
-/

namespace WeakIntern

/-! ## Digits -/

theorem isDigit_of_isNumeral {digits : List Char} (h : isNumeral digits = true) :
    ∀ c ∈ digits, c.isDigit = true := by
  rw [isNumeral, Bool.and_eq_true, List.all_eq_true] at h
  exact h.2

theorem ne_nil_of_isNumeral {digits : List Char} (h : isNumeral digits = true) : digits ≠ [] := by
  rintro rfl
  cases h

theorem isNumeral_of_isDigit {digits : List Char} (hne : digits ≠ [])
    (hall : ∀ c ∈ digits, c.isDigit = true) :
    isNumeral digits = true := by
  rw [isNumeral, Bool.and_eq_true, List.all_eq_true]
  exact ⟨by simpa using hne, hall⟩

theorem isNumeral_toDigits (n : Nat) : isNumeral (Nat.toDigits 10 n) = true :=
  isNumeral_of_isDigit Nat.toDigits_ne_nil fun _ hc =>
    Nat.isDigit_of_mem_toDigits (by decide) (by decide) hc

theorem digitsValue_toDigits (n : Nat) : digitsValue (Nat.toDigits 10 n) = n :=
  Nat.ofDigitChars_ten_toDigits

theorem digitsValue_append (digits more : List Char) :
    digitsValue (digits ++ more) = 10 ^ more.length * digitsValue digits + digitsValue more :=
  (Nat.ofDigitChars_append 0).trans Nat.ofDigitChars_eq_ofDigitChars_zero

/-- A number that is not zero does not begin with a zero. -/
theorem head_toDigits_ne {n : Nat} (hn : n ≠ 0) : (Nat.toDigits 10 n).head? ≠ some '0' := by
  induction n using Nat.strongRecOn with
  | ind n ih =>
    rw [Nat.toDigits_eq_if (by decide)]
    split
    · next hlt =>
      rw [List.head?_cons]
      intro hzero
      have hvalue := Nat.toNat_digitChar_sub_48_of_lt_ten hlt
      rw [Option.some.inj hzero] at hvalue
      exact hn hvalue.symm
    · next hge =>
      have hfirst := ih (n / 10) (by omega) (by omega)
      obtain ⟨c, rest, hcons⟩ :=
        List.exists_cons_of_ne_nil (Nat.toDigits_ne_nil (n := n / 10) (b := 10))
      rwa [hcons] at hfirst ⊢

/-- The digits at the beginning of a text. -/
theorem takeWhile_isDigit {digits rest : List Char} (hall : ∀ c ∈ digits, c.isDigit = true)
    (hrest : ∀ c ∈ rest.head?, c.isDigit = false) :
    (digits ++ rest).takeWhile Char.isDigit = digits ∧
      (digits ++ rest).dropWhile Char.isDigit = rest := by
  rw [List.takeWhile_append_of_pos hall, List.dropWhile_append_of_pos hall]
  cases rest with
  | nil => exact ⟨List.append_nil _, rfl⟩
  | cons c rest =>
    have hc := hrest c rfl
    rw [List.takeWhile_cons_of_neg (by rw [hc]; decide),
      List.dropWhile_cons_of_neg (by rw [hc]; decide)]
    exact ⟨List.append_nil _, rfl⟩

/-! ## The form of a number -/

/-- An exponent, if there is one. -/
inductive IsExponent : List Char → Prop where
  | none : IsExponent []
  | some {e : Char} {sign digits : List Char} (he : e = 'e' ∨ e = 'E')
      (hsign : sign = [] ∨ sign = ['+'] ∨ sign = ['-'])
      (hdigits : isNumeral digits = true) : IsExponent (e :: sign ++ digits)

/-- A number in its parts. -/
structure Numeral where
  whole : List Char
  /-- The digits behind the point; without them there is no point. -/
  fraction : List Char := []
  /-- The exponent with its `e`. -/
  exponent : List Char := []

namespace Numeral

/-- The fraction with its point. -/
def fractionText (n : Numeral) : List Char := if n.fraction = [] then [] else '.' :: n.fraction

/-- The number as it is written. -/
def text (n : Numeral) : List Char := n.whole ++ (n.fractionText ++ n.exponent)

/-- A number that JSON admits. -/
structure Formed (n : Numeral) : Prop where
  whole : isNumeral n.whole = true
  /-- No needless zero stands first. -/
  first : n.whole = ['0'] ∨ n.whole.head? ≠ some '0'
  fraction : ∀ c ∈ n.fraction, c.isDigit = true
  exponent : IsExponent n.exponent

variable {n : Numeral}

/-- The value of an exponent. -/
def exponentValue? : List Char → Option Int
  | [] => some 0
  | c :: rest => if c = 'e' ∨ c = 'E' then readExponent rest else none

theorem isDigit_head_of_isExponent {exponent : List Char} (h : IsExponent exponent) :
    ∀ c ∈ exponent.head?, c.isDigit = false := by
  cases h with
  | none => exact fun _ hc => nomatch hc
  | some he hsign hdigits =>
    rintro c hc
    obtain rfl := Option.some.inj hc
    rcases he with rfl | rfl <;> rfl

/-- **A numeral is taken apart** as it was put together. -/
theorem ofChars?_text (h : n.Formed) {e : Int} (he : exponentValue? n.exponent = some e) :
    DecimalNumeral.ofChars? n.text =
      some { whole := n.whole, fraction := n.fraction, exponent := e } := by
  obtain ⟨whole, fraction, exponent⟩ := n
  have hexponent := isDigit_head_of_isExponent h.exponent
  have hne : whole.isEmpty = false := List.isEmpty_eq_false_iff.2 (ne_nil_of_isNumeral h.whole)
  rw [DecimalNumeral.ofChars?, text]
  by_cases hnone : fraction = []
  · subst hnone
    obtain ⟨htake, hdrop⟩ := takeWhile_isDigit (isDigit_of_isNumeral h.whole) hexponent
    rw [fractionText, if_pos rfl, List.nil_append, htake, hdrop]
    cases h.exponent with
    | none =>
      simp only [hne, Bool.false_and]
      show (exponentValue? []).map _ = _
      rw [he]
      rfl
    | some hc hsign hdigits =>
      rcases hc with rfl | rfl <;> simp only [hne, Bool.false_and] <;>
        exact congrArg (Option.map _) he
  · have hpoint : ∀ c ∈ ('.' :: fraction ++ exponent).head?, c.isDigit = false :=
      fun c hc => Option.some.inj hc ▸ rfl
    obtain ⟨htake, hdrop⟩ := takeWhile_isDigit (isDigit_of_isNumeral h.whole) hpoint
    obtain ⟨htake', hdrop'⟩ := takeWhile_isDigit h.fraction hexponent
    rw [fractionText, if_neg hnone, htake, hdrop]
    simp only [List.cons_append, htake', hdrop', hne]
    show (exponentValue? exponent).map _ = _
    rw [he]
    rfl

end Numeral

/-! ## The quick reading -/

namespace Scaled

variable {digits : List Char} {n : UInt64}

theorem append?_eq (n : UInt64) (digit : Char)
    (hfits : 10 * n.toNat + (digit.toNat - '0'.toNat) ≤ maxCount) :
    append? n digit = some (10 * n.toNat + (digit.toNat - '0'.toNat)).toUInt64 := by
  have hvalue : digitsValue [digit] = digit.toNat - '0'.toNat := Nat.zero_add _
  rw [append?, hvalue]
  exact if_pos hfits

theorem toUInt64_toNat (n : UInt64) : n.toNat.toUInt64 = n := UInt64.ofNat_toNat

/-- What further digits make of a number is no less than it. -/
theorem le_ofDigitChars (n : Nat) (digits : List Char) : n ≤ Nat.ofDigitChars 10 digits n := by
  rw [Nat.ofDigitChars_eq_ofDigitChars_zero]
  exact (Nat.le_mul_of_pos_left n (Nat.pow_pos (by decide))).trans (Nat.le_add_right _ _)

theorem toNat_toUInt64 {n : Nat} (h : n ≤ maxCount) : n.toUInt64.toNat = n :=
  Nat.mod_eq_of_lt (Nat.lt_succ_of_le h)

theorem ofWhole_eq (hfits : Nat.ofDigitChars 10 digits n.toNat ≤ maxCount) :
    ofWhole n digits = ⟨(Nat.ofDigitChars 10 digits n.toNat).toUInt64, 0⟩ := by
  induction digits generalizing n with
  | nil =>
    rw [Nat.ofDigitChars_nil, toUInt64_toNat]
    rfl
  | cons digit rest ih =>
    rw [Nat.ofDigitChars_cons] at hfits ⊢
    have hfits' : 10 * n.toNat + (digit.toNat - '0'.toNat) ≤ maxCount :=
      Nat.le_trans (le_ofDigitChars _ rest) hfits
    rw [ofWhole_cons (append?_eq n digit hfits')]
    generalize 10 * n.toNat + (digit.toNat - '0'.toNat) = m at hfits hfits' ⊢
    rw [← toNat_toUInt64 hfits'] at hfits
    rw [ih hfits, toNat_toUInt64 hfits']

theorem addFraction_eq {e : Int} (hfits : Nat.ofDigitChars 10 digits n.toNat ≤ maxCount) :
    addFraction ⟨n, e⟩ digits =
      ⟨(Nat.ofDigitChars 10 digits n.toNat).toUInt64, e - digits.length⟩ := by
  induction digits generalizing n e with
  | nil =>
    rw [Nat.ofDigitChars_nil, toUInt64_toNat]
    exact congrArg _ (Int.sub_zero e).symm
  | cons digit rest ih =>
    rw [Nat.ofDigitChars_cons] at hfits ⊢
    have hfits' : 10 * n.toNat + (digit.toNat - '0'.toNat) ≤ maxCount :=
      Nat.le_trans (le_ofDigitChars _ rest) hfits
    rw [addFraction_cons (append?_eq n digit hfits')]
    generalize 10 * n.toNat + (digit.toNat - '0'.toNat) = m at hfits hfits' ⊢
    rw [← toNat_toUInt64 hfits'] at hfits
    dsimp only
    rw [ih hfits, toNat_toUInt64 hfits', List.length_cons]
    congr 1
    omega

/-- **Digits that fit** are all kept. -/
theorem ofNumeral_eq {d : DecimalNumeral} (hfits : digitsValue (d.whole ++ d.fraction) ≤ maxCount) :
    ofNumeral d = ⟨(digitsValue (d.whole ++ d.fraction)).toUInt64,
      d.exponent - d.fraction.length⟩ := by
  have hvalue : digitsValue (d.whole ++ d.fraction) =
      Nat.ofDigitChars 10 d.fraction (Nat.ofDigitChars 10 d.whole 0) :=
    Nat.ofDigitChars_append 0
  rw [hvalue] at hfits ⊢
  have hwhole : Nat.ofDigitChars 10 d.whole (0 : UInt64).toNat ≤ maxCount :=
    Nat.le_trans (le_ofDigitChars _ d.fraction) hfits
  have hsame := toNat_toUInt64 hwhole
  have hfraction :
      Nat.ofDigitChars 10 d.fraction
        (Nat.ofDigitChars 10 d.whole (0 : UInt64).toNat).toUInt64.toNat ≤ maxCount := by
    rw [hsame]
    exact hfits
  rw [ofNumeral, ofWhole_eq hwhole, addFraction_eq hfraction, hsame]
  show (⟨_, 0 - (d.fraction.length : Int) + d.exponent⟩ : Scaled) = _
  congr 1
  omega

end Scaled

namespace Numeral

open Json

variable {n : Numeral}

/-- A number with a fraction or an exponent is not a whole number. -/
theorem isNumeral_text (h : n.Formed) (hpart : n.fraction ≠ [] ∨ n.exponent ≠ []) :
    isNumeral n.text = false := by
  have hmark : ∃ c ∈ n.text, c.isDigit = false := by
    by_cases hnone : n.fraction = []
    · have hexponent := isDigit_head_of_isExponent h.exponent
      obtain ⟨c, rest, hcons⟩ :=
        List.exists_cons_of_ne_nil (hpart.resolve_left (not_not_intro hnone))
      refine ⟨c, ?_, hexponent c (by rw [hcons]; rfl)⟩
      rw [text, hcons]
      simp
    · refine ⟨'.', ?_, rfl⟩
      rw [text, fractionText, if_neg hnone]
      simp
  obtain ⟨c, hc, hdigit⟩ := hmark
  refine Bool.not_eq_true _ ▸ fun htrue => ?_
  rw [isDigit_of_isNumeral htrue c hc] at hdigit
  cases hdigit

theorem head_text (h : n.Formed) : ∃ c rest, n.text = c :: rest ∧ c.isDigit = true := by
  obtain ⟨c, rest, hcons⟩ := List.exists_cons_of_ne_nil (ne_nil_of_isNumeral h.whole)
  refine ⟨c, rest ++ (n.fractionText ++ n.exponent), ?_,
    isDigit_of_isNumeral h.whole c (by rw [hcons]; exact List.mem_cons_self)⟩
  rw [text, hcons]
  rfl

theorem numberValue_of_isDigit {c : Char} {rest : List Char} (hc : c.isDigit = true) :
    numberValue (c :: rest) =
      if isNumeral (c :: rest) && digitsValue (c :: rest) ≤ maxCount
        then some (.int (digitsValue (c :: rest)))
      else ((DecimalNumeral.ofChars? (c :: rest)).bind DecimalNumeral.approximate?).map .float := by
  have hminus : c ≠ '-' := by
    rintro rfl
    cases hc
  rw [numberValue]
  · dsimp only
    by_cases hwhole : (isNumeral (c :: rest) && digitsValue (c :: rest) ≤ maxCount) = true
    · rw [if_pos hwhole, if_pos hwhole]
    · rw [if_neg hwhole, if_neg hwhole]
  · exact fun _ h => hminus (List.cons.inj h).1

theorem numberValue_minus (digits : List Char) :
    numberValue ('-' :: digits) =
      if isNumeral digits && digitsValue digits ≠ 0 && digitsValue digits ≤ 2 ^ 63
        then some (.int (-(digitsValue digits : Int)))
      else ((DecimalNumeral.ofChars? digits).bind DecimalNumeral.approximate?).map fun x =>
        .float (-x) := by
  rw [numberValue]
  dsimp only
  by_cases hwhole :
    (isNumeral digits && digitsValue digits ≠ 0 && digitsValue digits ≤ 2 ^ 63) = true
  · rw [if_pos hwhole, if_pos hwhole]
  · rw [if_neg hwhole, if_neg hwhole]

/-- **A number is read** if it has few digits and is no greater than a double can be. -/
theorem exists_numberValue (h : n.Formed) (hpart : n.fraction ≠ [] ∨ n.exponent ≠ []) {e : Int}
    (he : exponentValue? n.exponent = some e) (hfew : digitsValue (n.whole ++ n.fraction) ≤ 10 ^ 17)
    (hle : ∀ k : Nat, e - n.fraction.length = k → digitsValue (n.whole ++ n.fraction) *
      10 ^ k ≤ Binary64.greatest) :
    ∃ x, numberValue n.text = some (.float x) ∧
      numberValue ('-' :: n.text) = some (.float (-x)) := by
  have hfits : digitsValue (n.whole ++ n.fraction) ≤ maxCount := hfew.trans (by decide)
  have hsome : (DecimalNumeral.approximate? ⟨n.whole, n.fraction, e⟩).isSome = true := by
    have hscaled := Scaled.ofNumeral_eq (d := ⟨n.whole, n.fraction, e⟩) hfits
    rw [DecimalNumeral.approximate?, hscaled]
    refine Scaled.isSome_toFloat? ?_ fun k hk => ?_
    · rwa [Scaled.toNat_toUInt64 hfits]
    · rw [Scaled.toNat_toUInt64 hfits]
      exact hle k hk
  obtain ⟨x, hx⟩ := Option.isSome_iff_exists.1 hsome
  have hread := ofChars?_text h he
  have hwhole := isNumeral_text h hpart
  obtain ⟨c, rest, hcons, hc⟩ := head_text h
  refine ⟨x, ?_, ?_⟩
  · rw [hcons] at hread hwhole ⊢
    rw [numberValue_of_isDigit hc, hwhole, hread, Bool.false_and, if_neg Bool.false_ne_true,
      Option.bind_some, hx]
    rfl
  · rw [numberValue_minus, hwhole, hread, Bool.false_and, Bool.false_and, if_neg Bool.false_ne_true,
      Option.bind_some, hx]
    rfl

/-! ## Whole numbers -/

/-- The digits of a whole number. -/
def ofNat (m : Nat) : Numeral where
  whole := Nat.toDigits 10 m

theorem text_ofNat (m : Nat) : (ofNat m).text = Nat.toDigits 10 m := List.append_nil _

theorem formed_ofNat (m : Nat) : (ofNat m).Formed where
  whole := isNumeral_toDigits m
  first := by
    rcases Nat.eq_zero_or_pos m with rfl | hpos
    · exact .inl (Nat.toDigits_zero 10)
    · exact .inr (head_toDigits_ne hpos.ne')
  fraction _ hc := nomatch hc
  exponent := .none

/-- **A whole number is read** as it is if it fits sixty-four bits. -/
theorem numberValue_intChars {m : Int} (hlow : -2 ^ 63 ≤ m) (hhigh : m ≤ maxCount) :
    numberValue (intChars m) = some (.int m) := by
  cases m with
  | ofNat m =>
    have hnumeral := isNumeral_toDigits m
    have hvalue := digitsValue_toDigits m
    obtain ⟨c, rest, hcons, hc⟩ := head_text (formed_ofNat m)
    rw [text_ofNat] at hcons
    rw [intChars, hcons]
    rw [hcons] at hnumeral hvalue
    rw [numberValue_of_isDigit hc, hnumeral, hvalue, if_pos]
    · rfl
    · rw [Bool.true_and, decide_eq_true_eq]
      exact Int.ofNat_le.1 hhigh
  | negSucc m =>
    rw [intChars, numberValue_minus, isNumeral_toDigits, digitsValue_toDigits, if_pos]
    · rfl
    · simp only [Bool.true_and, Bool.and_eq_true, decide_eq_true_eq]
      omega

/-! ## The characters of a number -/

theorem isNumberChar_of_isDigit {c : Char} (h : c.isDigit = true) : isNumberChar c = true := by
  rw [isNumberChar, h]
  rfl

theorem isNumberChar_of_isExponent {exponent : List Char} (h : IsExponent exponent) :
    ∀ c ∈ exponent, isNumberChar c = true := by
  cases h with
  | none => exact fun _ hc => nomatch hc
  | some he hsign hdigits =>
    intro c hc
    rw [List.cons_append, List.mem_cons, List.mem_append] at hc
    rcases hc with rfl | hc | hc
    · rcases he with rfl | rfl <;> rfl
    · rcases hsign with rfl | rfl | rfl
      · cases hc
      · exact List.mem_singleton.1 hc ▸ rfl
      · exact List.mem_singleton.1 hc ▸ rfl
    · exact isNumberChar_of_isDigit (isDigit_of_isNumeral hdigits c hc)

/-- All characters of a number are such as a number may have. -/
theorem isNumberChar_text (h : n.Formed) : ∀ c ∈ n.text, isNumberChar c = true := by
  intro c hc
  rw [text, List.mem_append, List.mem_append, fractionText] at hc
  rcases hc with hc | hc | hc
  · exact isNumberChar_of_isDigit (isDigit_of_isNumeral h.whole c hc)
  · split at hc
    · cases hc
    · rcases List.mem_cons.1 hc with rfl | hc
      · rfl
      · exact isNumberChar_of_isDigit (h.fraction c hc)
  · exact isNumberChar_of_isExponent h.exponent c hc

end Numeral
end WeakIntern
