import WeakIntern.Proofs.ShortTexts
/-!
# The text of a JSON value

`WellFormed` is the grammar of JSON texts without blanks. The text that is written for a value is
one of them (`wellFormed_chars`), no text of the grammar has a raw line end or any other character
below the blank (`WellFormed.blank_le`), and what is read back is the value again, up to its doubles
(`read?_compact`): a double is read the quick way, as some double, or as `null` if it has no text.
-/

namespace WeakIntern.Json

/-! ## The grammar -/

/-- A character that stands for itself in a string. -/
def IsPlain (c : Char) : Prop := 0x20 ≤ c.toNat ∧ c ≠ '"' ∧ c ≠ '\\'

/-- A hexadecimal digit. -/
def IsHex (c : Char) : Prop := c.isDigit = true ∨ ('a' ≤ c ∧ c ≤ 'f') ∨ ('A' ≤ c ∧ c ≤ 'F')

instance : DecidablePred IsHex := fun c =>
  inferInstanceAs (Decidable (c.isDigit = true ∨ ('a' ≤ c ∧ c ≤ 'f') ∨ ('A' ≤ c ∧ c ≤ 'F')))

/-- The text between the quotes of a string. -/
inductive IsBody : List Char → Prop where
  | nil : IsBody []
  | plain {c : Char} {rest : List Char} (hc : IsPlain c) (hrest : IsBody rest) : IsBody (c :: rest)
  | escape {c : Char} {rest : List Char} (hc : c ∈ ['"', '\\', '/', 'b', 'f', 'n', 'r', 't'])
    (hrest : IsBody rest) :
    IsBody ('\\' :: c :: rest)
  | unicode {a b c d : Char} {rest : List Char} (hdigits : ∀ digit ∈ [a, b, c, d], IsHex digit)
    (hrest : IsBody rest) :
    IsBody ('\\' :: 'u' :: a :: b :: c :: d :: rest)

/-- A string with its quotes. -/
def IsString (text : List Char) : Prop := ∃ body, IsBody body ∧ text = '"' :: body ++ ['"']

/-- A number, perhaps with a sign. -/
def IsNumber (text : List Char) : Prop :=
  ∃ n : Numeral, n.Formed ∧ (text = n.text ∨ text = '-' :: n.text)

/-- What a text can be: a whole value, or what stands between the brackets of one that is not
empty. -/
inductive Part where
  | value
  | items
  | fields

/-- The texts of JSON values without blanks. -/
inductive WellFormed : Part → List Char → Prop where
  | null : WellFormed .value "null".toList
  | bool (b : Bool) : WellFormed .value (boolChars b)
  | number {text : List Char} (h : IsNumber text) : WellFormed .value text
  | string {text : List Char} (h : IsString text) : WellFormed .value text
  | emptyList : WellFormed .value "[]".toList
  | list {text : List Char} (h : WellFormed .items text) : WellFormed .value ('[' :: text ++ [']'])
  | emptyRecord : WellFormed .value "\x7b\x7d".toList
  | record {text : List Char} (h : WellFormed .fields text) :
    WellFormed .value ('\x7b' :: text ++ ['\x7d'])
  | item {text : List Char} (h : WellFormed .value text) : WellFormed .items text
  | items {text rest : List Char} (h : WellFormed .value text) (hrest : WellFormed .items rest) :
    WellFormed .items (text ++ ',' :: rest)
  | field {key text : List Char} (hkey : IsString key) (h : WellFormed .value text) :
    WellFormed .fields (key ++ ':' :: text)
  | fields {key text rest : List Char} (hkey : IsString key) (h : WellFormed .value text)
    (hrest : WellFormed .fields rest) :
    WellFormed .fields (key ++ ':' :: text ++ ',' :: rest)

/-- The text of a record that has fields. -/
def IsObject (text : List Char) : Prop :=
  ∃ fields, WellFormed .fields fields ∧ text = '\x7b' :: fields ++ ['\x7d']

/-! ## No raw line ends -/

theorem blank_le_of_all {text : List Char} (hall : (text.all fun c => 0x20 ≤ c.toNat) = true) :
    ∀ c ∈ text, 0x20 ≤ c.toNat := by
  simpa using hall

theorem blank_le_of_isHex {c : Char} (h : IsHex c) : 0x20 ≤ c.toNat := by
  have hle : ∀ low : Char, low ≤ c → low.toNat ≤ c.toNat := fun _ h => h
  rcases h with h | h | h
  · rw [Char.isDigit, Bool.and_eq_true, decide_eq_true_iff] at h
    exact (by decide : 0x20 ≤ '0'.toNat).trans (hle _ h.1)
  · exact (by decide : 0x20 ≤ 'a'.toNat).trans (hle _ h.1)
  · exact (by decide : 0x20 ≤ 'A'.toNat).trans (hle _ h.1)

theorem IsBody.blank_le {text : List Char} (h : IsBody text) : ∀ c ∈ text, 0x20 ≤ c.toNat := by
  induction h with
  | nil => nofun
  | plain hc _ ih => exact List.forall_mem_cons.2 ⟨hc.1, ih⟩
  | escape hc _ ih =>
    exact List.forall_mem_cons.2 ⟨by decide,
      List.forall_mem_cons.2 ⟨blank_le_of_all (by decide) _ hc, ih⟩⟩
  | unicode hdigits _ ih =>
    have hhex := fun digit hdigit => blank_le_of_isHex (hdigits digit hdigit)
    simp only [List.forall_mem_cons] at hhex ⊢
    obtain ⟨ha, hb, hc, hd, -⟩ := hhex
    exact ⟨by decide, by decide, ha, hb, hc, hd, ih⟩

theorem IsString.blank_le {text : List Char} (h : IsString text) : ∀ c ∈ text, 0x20 ≤ c.toNat := by
  obtain ⟨body, hbody, rfl⟩ := h
  simp only [List.cons_append, List.forall_mem_cons, List.forall_mem_append]
  exact ⟨by decide, hbody.blank_le, by decide, nofun⟩

theorem blank_le_of_isNumberChar {c : Char} (h : isNumberChar c = true) : 0x20 ≤ c.toNat := by
  simp only [isNumberChar, Bool.or_eq_true, beq_iff_eq] at h
  rcases h with ((((h | rfl) | rfl) | rfl) | rfl) | rfl
  · exact blank_le_of_isHex (.inl h)
  all_goals decide

theorem IsNumber.isNumberChar {text : List Char} (h : IsNumber text) :
    ∀ c ∈ text, isNumberChar c = true := by
  obtain ⟨n, hn, rfl | rfl⟩ := h
  · exact Numeral.isNumberChar_text hn
  · exact List.forall_mem_cons.2 ⟨rfl, Numeral.isNumberChar_text hn⟩

theorem IsNumber.ne_nil {text : List Char} (h : IsNumber text) : text ≠ [] := by
  obtain ⟨n, hn, rfl | rfl⟩ := h
  · obtain ⟨c, rest, hcons, -⟩ := Numeral.head_text hn
    rw [hcons]
    exact List.cons_ne_nil _ _
  · exact List.cons_ne_nil _ _

/-- **No text has a raw line end**, or any other character below the blank. -/
theorem WellFormed.blank_le {part : Part} {text : List Char} (h : WellFormed part text) :
    ∀ c ∈ text, 0x20 ≤ c.toNat := by
  induction h with
  | null => exact blank_le_of_all (by decide)
  | bool b => cases b <;> exact blank_le_of_all (by decide)
  | number h => exact fun c hc => blank_le_of_isNumberChar (h.isNumberChar c hc)
  | string h => exact h.blank_le
  | emptyList => exact blank_le_of_all (by decide)
  | emptyRecord => exact blank_le_of_all (by decide)
  | item _ ih => exact ih
  | list _ ih | record _ ih =>
    simp only [List.cons_append, List.forall_mem_cons, List.forall_mem_append]
    exact ⟨by decide, ih, by decide, nofun⟩
  | items _ _ ih ihrest =>
    simp only [List.forall_mem_cons, List.forall_mem_append]
    exact ⟨ih, by decide, ihrest⟩
  | field hkey _ ih =>
    simp only [List.forall_mem_cons, List.forall_mem_append]
    exact ⟨hkey.blank_le, by decide, ih⟩
  | fields hkey _ _ ih ihrest =>
    simp only [List.forall_mem_cons, List.forall_mem_append]
    exact ⟨⟨hkey.blank_le, by decide, ih⟩, by decide, ihrest⟩

/-! ## What is written is well-formed -/

theorem isHex_digitChar {d : Nat} (hd : d < 16) : IsHex (Nat.digitChar d) := by
  decide +revert

theorem isBody_escapeChar (c : Char) {rest : List Char} (hrest : IsBody rest) :
    IsBody (escapeChar c ++ rest) := by
  unfold escapeChar
  repeat' split
  · exact .escape (by decide) hrest
  · exact .escape (by decide) hrest
  · exact .escape (by decide) hrest
  · exact .escape (by decide) hrest
  · exact .escape (by decide) hrest
  · exact .escape (by decide) hrest
  · exact .escape (by decide) hrest
  · next hcontrol =>
    refine .unicode ?_ hrest
    simp only [List.forall_mem_cons]
    exact ⟨by decide, by decide, isHex_digitChar (by omega), isHex_digitChar (by omega), nofun⟩
  · next hquote hslash _ _ _ _ _ hcontrol =>
      exact .plain ⟨Nat.not_lt.1 hcontrol, hquote, hslash⟩ hrest

theorem isString_stringChars (s : String) : IsString (stringChars s) := by
  refine ⟨s.toList.flatMap escapeChar, ?_, rfl⟩
  induction s.toList with
  | nil => exact .nil
  | cons c rest ih => exact isBody_escapeChar c ih

theorem isNumber_intChars (m : Int) : IsNumber (intChars m) := by
  cases m with
  | ofNat m => exact ⟨.ofNat m, Numeral.formed_ofNat m, .inl (Numeral.text_ofNat m).symm⟩
  | negSucc m =>
    exact ⟨.ofNat (m + 1), Numeral.formed_ofNat _, .inr (congrArg _ (Numeral.text_ofNat _).symm)⟩

/-- A double is written as a number that can be read, or as `null`. -/
theorem floatChars_eq (x : Float) :
    floatChars x = "null".toList ∨ IsNumber (floatChars x) ∧ ∃ y,
      numberValue (floatChars x) = some (.float y) := by
  rw [floatChars]
  rcases shortestText?_eq x with h | ⟨negative, n, hreadable, h⟩
  · rw [h]
    exact .inl rfl
  · rw [h]
    dsimp only
    obtain ⟨e, he, hle⟩ := hreadable.exponent
    obtain ⟨y, hplus, hminus⟩ :=
      Numeral.exists_numberValue hreadable.formed hreadable.part he hreadable.few hle
    rw [String.toList_ofList]
    cases negative with
    | false => exact .inr ⟨⟨n, hreadable.formed, .inl rfl⟩, y, hplus⟩
    | true => exact .inr ⟨⟨n, hreadable.formed, .inr rfl⟩, -y, hminus⟩

mutual

/-- **The text of a value** is well-formed, -/
theorem wellFormed_chars : ∀ j : Json, WellFormed .value (chars j)
  | .null => by
    rw [chars]
    exact .null
  | .bool b => by
    rw [chars]
    exact .bool b
  | .int m => by
    rw [chars]
    exact .number (isNumber_intChars m)
  | .float x => by
    rw [chars]
    rcases floatChars_eq x with h | ⟨h, -⟩
    · exact h ▸ .null
    · exact .number h
  | .string s => by
    rw [chars]
    exact .string (isString_stringChars s)
  | .list [] => by
    rw [chars, itemChars]
    exact .emptyList
  | .list (j :: rest) => by
    rw [chars]
    exact .list (wellFormed_itemChars (j :: rest) (List.cons_ne_nil _ _))
  | .record [] => by
    rw [chars, fieldChars]
    exact .emptyRecord
  | .record (field :: rest) => by
    rw [chars]
    exact .record (wellFormed_fieldChars (field :: rest) (List.cons_ne_nil _ _))

/-- and so are its items -/
theorem wellFormed_itemChars : ∀ items : List Json, items ≠ [] → WellFormed .items (itemChars items)
  | [], hne => absurd rfl hne
  | [j], _ => by
    rw [itemChars]
    exact .item (wellFormed_chars j)
  | j :: next :: rest, _ => by
    rw [itemChars]
    · exact .items (wellFormed_chars j) (wellFormed_itemChars (next :: rest) (List.cons_ne_nil _ _))
    · nofun

/-- and its fields. -/
theorem wellFormed_fieldChars : ∀ fields : List (String × Json), fields ≠ [] →
    WellFormed .fields (fieldChars fields)
  | [], hne => absurd rfl hne
  | [(key, j)], _ => by
    rw [fieldChars]
    exact .field (isString_stringChars key) (wellFormed_chars j)
  | (key, j) :: next :: rest, _ => by
    rw [fieldChars]
    · exact .fields (isString_stringChars key) (wellFormed_chars j)
        (wellFormed_fieldChars (next :: rest) (List.cons_ne_nil _ _))
    · nofun

end

/-! ## What is read back -/

mutual

/-- What is read where a value was written: a double is read as some double, or as `null` if it has
no text. -/
def asRead : Json → Json
  | .null => .null
  | .bool b => .bool b
  | .int m => .int m
  | .float x => (numberValue (floatChars x)).getD .null
  | .string s => .string s
  | .list items => .list (itemsAsRead items)
  | .record fields => .record (fieldsAsRead fields)

/-- The same for items, -/
def itemsAsRead : List Json → List Json
  | [] => []
  | j :: rest => asRead j :: itemsAsRead rest

/-- and for fields. -/
def fieldsAsRead : List (String × Json) → List (String × Json)
  | [] => []
  | (key, j) :: rest => (key, asRead j) :: fieldsAsRead rest

end

theorem fieldsAsRead_eq (fields : List (String × Json)) :
    fieldsAsRead fields = fields.map fun (key, j) => (key, j.asRead) := by
  induction fields with
  | nil => rfl
  | cons field rest ih => rw [fieldsAsRead, ih, List.map_cons]

mutual

/-- Do all whole numbers in a value fit sixty-four bits? -/
def Fits : Json → Prop
  | .int m => -2 ^ 63 ≤ m ∧ m ≤ maxCount
  | .list items => ItemsFit items
  | .record fields => FieldsFit fields
  | .null | .bool _ | .float _ | .string _ => True

/-- The same for items, -/
def ItemsFit : List Json → Prop
  | [] => True
  | j :: rest => Fits j ∧ ItemsFit rest

/-- and for fields. -/
def FieldsFit : List (String × Json) → Prop
  | [] => True
  | (_, j) :: rest => Fits j ∧ FieldsFit rest

end

theorem fieldsFit_iff {fields : List (String × Json)} : FieldsFit fields ↔
    ∀ field ∈ fields, field.2.Fits := by
  induction fields with
  | nil => exact iff_of_true trivial nofun
  | cons field rest ih => rw [FieldsFit, ih, List.forall_mem_cons]

/-! ### Strings -/

theorem readHex4_digitChar {n : Nat} (hn : n < 0x20) :
    readHex4 '0' '0' (Nat.digitChar (n / 16)) (Nat.digitChar (n % 16)) = some n := by
  decide +revert

theorem readString_unicode {c : Char} (hc : c.toNat < 0x20) (rest : List Char) :
    readString ('\\' :: 'u' :: '0' :: '0' :: Nat.digitChar (c.toNat / 16) ::
      Nat.digitChar (c.toNat % 16) :: rest) =
      (readString rest).map fun (s, after) => (c :: s, after) := by
  rw [readString, readHex4_digitChar hc]
  dsimp only
  rw [if_neg (by omega), if_neg (by omega), Char.ofNat_toNat]

/-- A character is read as it was. -/
theorem readString_escapeChar (c : Char) (rest : List Char) :
    readString (escapeChar c ++ rest) = (readString rest).map fun (s, after) =>
      (c :: s, after) := by
  unfold escapeChar
  split
  · next h => subst h; rfl
  split
  · next h => subst h; rfl
  split
  · next h => subst h; rfl
  split
  · next h => subst h; rfl
  split
  · next h => subst h; rfl
  split
  · next h => subst h; rfl
  split
  · next h => subst h; rfl
  split
  · next hcontrol => exact readString_unicode hcontrol rest
  · next hquote hslash _ _ _ _ _ hcontrol =>
    -- A character that stands for itself begins no escape, and does not end the string.
    show readString (c :: rest) = _
    rw [readString.eq_def]
    split <;> simp_all

/-- **A string is read** as it was. -/
theorem readString_flatMap (s rest : List Char) :
    readString (s.flatMap escapeChar ++ '"' :: rest) = some (s, rest) := by
  induction s with
  | nil => rfl
  | cons c s ih =>
    rw [List.flatMap_cons, List.append_assoc, readString_escapeChar, ih, Option.map_some]

theorem stringChars_append (s : String) (rest : List Char) :
    stringChars s ++ rest = '"' :: (s.toList.flatMap escapeChar ++ '"' :: rest) := by
  rw [stringChars, List.append_assoc, List.cons_append]
  rfl

/-! ### Numbers -/

theorem readScalar_of_isNumberChar {c : Char} (hc : isNumberChar c = true) (rest : List Char) :
    readScalar (c :: rest) =
      (numberValue ((c :: rest).takeWhile isNumberChar)).map
        (·, (c :: rest).dropWhile isNumberChar) := by
  rw [readScalar.eq_def]
  split
  all_goals first | rfl | (next h => obtain ⟨rfl, -⟩ := List.cons.inj h; cases hc)

theorem readValue_of_isNumberChar (fuel : Nat) {c : Char} (hc : isNumberChar c = true)
    (rest : List Char) :
    readValue (fuel + 1) (c :: rest) = readScalar (c :: rest) := by
  have hgap : ¬ isGap c = true := by
    intro hgap
    simp only [isGap, Bool.or_eq_true, beq_iff_eq] at hgap
    rcases hgap with ((rfl | rfl) | rfl) | rfl <;> cases hc
  rw [readValue, List.dropWhile_cons_of_neg hgap]
  split
  all_goals first | rfl | (next h => obtain ⟨rfl, -⟩ := List.cons.inj h; cases hc)

/-- **A number is read** up to the first character that can belong to none. -/
theorem readValue_number {text rest : List Char} {j : Json} (fuel : Nat) (hne : text ≠ [])
    (hall : ∀ c ∈ text, isNumberChar c = true) (hvalue : numberValue text = some j)
    (hrest : ∀ c ∈ rest.head?, isNumberChar c = false) :
    readValue (fuel + 1) (text ++ rest) = some (j, rest) := by
  obtain ⟨c, digits, hcons⟩ := List.exists_cons_of_ne_nil hne
  have hc : isNumberChar c = true := hall c (hcons ▸ List.mem_cons_self)
  have hread : readValue (fuel + 1) (text ++ rest) =
      (numberValue ((text ++ rest).takeWhile isNumberChar)).map
        (·, (text ++ rest).dropWhile isNumberChar) := by
    rw [hcons, List.cons_append, readValue_of_isNumberChar fuel hc, readScalar_of_isNumberChar hc]
  have htake : rest.takeWhile isNumberChar = [] ∧ rest.dropWhile isNumberChar = rest := by
    cases rest with
    | nil => exact ⟨rfl, rfl⟩
    | cons c rest =>
      have hc := hrest c rfl
      exact ⟨List.takeWhile_cons_of_neg (by rw [hc]; decide),
        List.dropWhile_cons_of_neg (by rw [hc]; decide)⟩
  rw [hread, List.takeWhile_append_of_pos hall, List.dropWhile_append_of_pos hall, htake.1, htake.2,
    List.append_nil, hvalue, Option.map_some]

/-! ### Values -/

/-- A value begins neither with a gap nor with a closing bracket. -/
theorem head_chars (j : Json) : ∃ c rest, chars j = c :: rest ∧ isGap c = false ∧ c ≠ ']' := by
  have hnumber : ∀ {text : List Char}, IsNumber text → ∃ c rest, text = c :: rest ∧
      isGap c = false ∧ c ≠ ']' := by
    rintro text ⟨n, hn, rfl | rfl⟩
    · obtain ⟨c, rest, hcons, hc⟩ := Numeral.head_text hn
      refine ⟨c, rest, hcons, ?_, ?_⟩
      · refine Bool.not_eq_true _ ▸ fun hgap => ?_
        simp only [isGap, Bool.or_eq_true, beq_iff_eq] at hgap
        rcases hgap with ((rfl | rfl) | rfl) | rfl <;> cases hc
      · rintro rfl
        cases hc
    · exact ⟨'-', n.text, rfl, rfl, by decide⟩
  cases j with
  | null => exact ⟨'n', _, by rw [chars], rfl, by decide⟩
  | bool b => cases b <;> exact ⟨_, _, by rw [chars, boolChars], rfl, by decide⟩
  | int m =>
    rw [chars]
    exact hnumber (isNumber_intChars m)
  | float x =>
    rw [chars]
    rcases floatChars_eq x with h | ⟨h, -⟩
    · exact ⟨'n', _, h, rfl, by decide⟩
    · exact hnumber h
  | string s => exact ⟨'"', _, by rw [chars, stringChars, List.cons_append], rfl, by decide⟩
  | list items => exact ⟨'[', _, by rw [chars, List.cons_append], rfl, by decide⟩
  | record fields => exact ⟨'\x7b', _, by rw [chars, List.cons_append], rfl, by decide⟩

theorem itemChars_cons_cons (j next : Json) (items : List Json) :
    itemChars (j :: next :: items) = chars j ++ ',' :: itemChars (next :: items) := by
  rw [itemChars]
  nofun

theorem fieldChars_singleton (key : String) (j : Json) :
    fieldChars [(key, j)] = stringChars key ++ ':' :: chars j := by
  rw [fieldChars]

theorem fieldChars_cons_cons (key : String) (j : Json) (next : String × Json)
    (fields : List (String × Json)) :
    fieldChars ((key, j) :: next :: fields) = stringChars key ++ ':' ::
      (chars j ++ ',' :: fieldChars (next :: fields)) := by
  rw [fieldChars]
  · rw [List.append_assoc, List.cons_append]
  · nofun

/-- Items begin as the first of them does. -/
theorem head_itemChars (j : Json) (items : List Json) :
    ∃ c rest, itemChars (j :: items) = c :: rest ∧ isGap c = false ∧ c ≠ ']' := by
  obtain ⟨c, rest, hcons, hc⟩ := head_chars j
  cases items with
  | nil => exact ⟨c, rest, by rw [itemChars, hcons], hc⟩
  | cons next items => exact ⟨c, _, by rw [itemChars_cons_cons, hcons, List.cons_append], hc⟩

/-- Fields begin with the quote of a key. -/
theorem head_fieldChars (field : String × Json) (fields : List (String × Json)) :
    ∃ rest, fieldChars (field :: fields) = '"' :: rest := by
  obtain ⟨key, j⟩ := field
  cases fields with
  | nil => exact ⟨_, by rw [fieldChars_singleton, stringChars_append]⟩
  | cons next fields => exact ⟨_, by rw [fieldChars_cons_cons, stringChars_append]⟩

theorem readValue_list (fuel : Nat) (j : Json) (items : List Json) (rest : List Char) :
    readValue (fuel + 1) (chars (.list (j :: items)) ++ rest) =
      (readItems fuel (itemChars (j :: items) ++ ']' :: rest)).map fun (items, after) =>
        (.list items, after) := by
  obtain ⟨c, text, hcons, hgap, hne⟩ := head_itemChars j items
  rw [chars, hcons, List.append_assoc, List.cons_append, List.singleton_append, readValue,
    List.dropWhile_cons_of_neg (by decide)]
  simp only [List.cons_append]
  rw [List.dropWhile_cons_of_neg (by rw [hgap]; decide)]
  split
  · next h => exact absurd (List.cons.inj h).1 hne
  · rfl

theorem readValue_record (fuel : Nat) (field : String × Json) (fields : List (String × Json))
    (rest : List Char) :
    readValue (fuel + 1) (chars (.record (field :: fields)) ++ rest) =
      (readFields fuel (fieldChars (field :: fields) ++ '\x7d' :: rest)).map
        fun (fields, after) => (.record fields, after) := by
  obtain ⟨text, hcons⟩ := head_fieldChars field fields
  rw [chars, hcons, List.append_assoc, List.cons_append, List.singleton_append]
  rfl

/-- A field is read with its key, and what comes behind its value tells whether there are more. -/
theorem readFields_stringChars {fuel : Nat} {text rest : List Char} {value : Json} {c : Char}
    (key : String) (hvalue : readValue fuel text = some (value, c :: rest))
    (hgap : isGap c = false) :
    readFields (fuel + 1) (stringChars key ++ ':' :: text) =
      if c = '\x7d' then some ([(key, value)], rest)
      else if c = ',' then (readFields fuel rest).map fun (fields, after) =>
        ((key, value) :: fields, after)
      else none := by
  have hkey : String.ofList key.toList = key := String.ofList_toList
  rw [stringChars_append, readFields, List.dropWhile_cons_of_neg (by decide)]
  simp only [readString_flatMap]
  rw [List.dropWhile_cons_of_neg (by decide)]
  simp only [hvalue, hkey]
  rw [List.dropWhile_cons_of_neg (by rw [hgap]; decide)]
  split
  · next h =>
    obtain ⟨rfl, rfl⟩ := List.cons.inj h
    rw [if_pos rfl]
  · next h =>
    obtain ⟨rfl, rfl⟩ := List.cons.inj h
    rw [if_neg (by decide), if_pos rfl]
  · next hlast hmore =>
    rw [if_neg fun h => hlast rest (congrArg (· :: rest) h),
      if_neg fun h => hmore rest (congrArg (· :: rest) h)]

mutual

-- A value inside another one costs two units of fuel, and its brackets are two characters; each
-- further item costs one, and has a comma before it. So the length of a text is fuel enough, and
-- items need one more, as they stand inside brackets.

/-- **A value is read back**, up to its doubles. -/
theorem readValue_chars : ∀ (j : Json) {fuel : Nat} {rest : List Char}, j.Fits →
    (chars j).length ≤ fuel →
    (∀ c ∈ rest.head?, isNumberChar c = false) →
      readValue fuel (chars j ++ rest) = some (j.asRead, rest)
  | j, 0, rest, hfits, hfuel, hrest => by
    obtain ⟨c, text, hcons, -⟩ := head_chars j
    rw [hcons] at hfuel
    cases hfuel
  | .null, fuel + 1, rest, hfits, hfuel, hrest => by rw [chars]; rfl
  | .bool b, fuel + 1, rest, hfits, hfuel, hrest => by cases b <;> rw [chars] <;> rfl
  | .int m, fuel + 1, rest, hfits, hfuel, hrest => by
    rw [Fits] at hfits
    rw [chars, asRead]
    have hnumber := isNumber_intChars m
    exact readValue_number fuel hnumber.ne_nil hnumber.isNumberChar
      (Numeral.numberValue_intChars hfits.1 hfits.2) hrest
  | .float x, fuel + 1, rest, hfits, hfuel, hrest => by
    rw [chars, asRead]
    rcases floatChars_eq x with h | ⟨hnumber, y, hy⟩
    · rw [h]
      rfl
    · rw [hy]
      exact readValue_number fuel hnumber.ne_nil hnumber.isNumberChar hy hrest
  | .string s, fuel + 1, rest, hfits, hfuel, hrest => by
    have hs : String.ofList s.toList = s := String.ofList_toList
    rw [chars, asRead, stringChars_append, readValue, List.dropWhile_cons_of_neg (by decide)]
    simp only [readString_flatMap, Option.map_some, hs]
  | .list [], fuel + 1, rest, hfits, hfuel, hrest => by
    rw [chars, itemChars, asRead, itemsAsRead]
    rfl
  | .list (j :: items), fuel + 1, rest, hfits, hfuel, hrest => by
    rw [Fits] at hfits
    rw [chars, List.length_append, List.length_cons, List.length_singleton] at hfuel
    rw [readValue_list, readItems_itemChars (j :: items) (List.cons_ne_nil _ _) hfits (by omega),
      Option.map_some, asRead]
  | .record [], fuel + 1, rest, hfits, hfuel, hrest => by
    rw [chars, fieldChars, asRead, fieldsAsRead]
    rfl
  | .record (field :: fields), fuel + 1, rest, hfits, hfuel, hrest => by
    rw [Fits] at hfits
    rw [chars, List.length_append, List.length_cons, List.length_singleton] at hfuel
    rw [readValue_record, readFields_fieldChars (field :: fields) (List.cons_ne_nil _ _) hfits
      (by omega), Option.map_some, asRead]

/-- The items of a list are read back, -/
theorem readItems_itemChars : ∀ (items : List Json) {fuel : Nat} {rest : List Char}, items ≠ [] →
    ItemsFit items →
    (itemChars items).length < fuel →
      readItems fuel (itemChars items ++ ']' :: rest) = some (itemsAsRead items, rest)
  | [], fuel, rest, hne, hfits, hfuel => absurd rfl hne
  | j :: items, 0, rest, hne, hfits, hfuel => absurd hfuel (Nat.not_lt_zero _)
  | [j], fuel + 1, rest, hne, hfits, hfuel => by
    rw [ItemsFit] at hfits
    rw [itemChars] at hfuel ⊢
    rw [readItems, readValue_chars j hfits.1 (by omega) (by rintro c ⟨⟩; rfl)]
    rfl
  | j :: next :: items, fuel + 1, rest, hne, hfits, hfuel => by
    rw [ItemsFit] at hfits
    rw [itemChars_cons_cons, List.length_append, List.length_cons] at hfuel
    have hnext : readItems fuel (itemChars (next :: items) ++ ']' :: rest) =
        some (itemsAsRead (next :: items), rest) :=
      readItems_itemChars (next :: items) (List.cons_ne_nil _ _) hfits.2 (by omega)
    rw [itemChars_cons_cons, List.append_assoc, List.cons_append, readItems,
      readValue_chars j hfits.1 (by omega) (by rintro c ⟨⟩; rfl)]
    dsimp only
    rw [List.dropWhile_cons_of_neg (by decide)]
    simp only [hnext, Option.map_some, itemsAsRead]

/-- and the fields of a record. -/
theorem readFields_fieldChars : ∀ (fields : List (String × Json)) {fuel : Nat} {rest : List Char},
    fields ≠ [] →
    FieldsFit fields → (fieldChars fields).length < fuel →
      readFields fuel (fieldChars fields ++ '\x7d' :: rest) = some (fieldsAsRead fields, rest)
  | [], fuel, rest, hne, hfits, hfuel => absurd rfl hne
  | field :: fields, 0, rest, hne, hfits, hfuel => absurd hfuel (Nat.not_lt_zero _)
  | [(key, j)], fuel + 1, rest, hne, hfits, hfuel => by
    rw [FieldsFit] at hfits
    rw [fieldChars_singleton, List.length_append, List.length_cons] at hfuel
    have hvalue : readValue fuel (chars j ++ '\x7d' :: rest) = some (j.asRead, '\x7d' :: rest) :=
      readValue_chars j hfits.1 (by omega) (by rintro c ⟨⟩; rfl)
    rw [fieldChars_singleton, List.append_assoc, List.cons_append,
      readFields_stringChars key hvalue rfl]
    rfl
  | (key, j) :: next :: fields, fuel + 1, rest, hne, hfits, hfuel => by
    rw [FieldsFit] at hfits
    rw [fieldChars_cons_cons, List.length_append, List.length_cons, List.length_append,
      List.length_cons] at hfuel
    have hvalue :
        readValue fuel (chars j ++ ',' :: (fieldChars (next :: fields) ++ '\x7d' :: rest)) =
        some (j.asRead, ',' :: (fieldChars (next :: fields) ++ '\x7d' :: rest)) :=
      readValue_chars j hfits.1 (by omega) (by rintro c ⟨⟩; rfl)
    have hnext : readFields fuel (fieldChars (next :: fields) ++ '\x7d' :: rest) =
        some (fieldsAsRead (next :: fields), rest) :=
      readFields_fieldChars (next :: fields) (List.cons_ne_nil _ _) hfits.2 (by omega)
    rw [fieldChars_cons_cons, List.append_assoc, List.cons_append, List.append_assoc,
      List.cons_append, readFields_stringChars key hvalue rfl, hnext]
    rfl

end

/-- **What was written is read back**, up to its doubles. -/
theorem read?_compact {j : Json} (h : j.Fits) : read? j.compact = some j.asRead := by
  have hlength : j.compact.length = (chars j).length := by rw [compact, String.length_ofList]
  have hread : readValue (2 * j.compact.length + 2) (chars j ++ []) = some (j.asRead, []) :=
    readValue_chars j h (by omega) nofun
  rw [List.append_nil] at hread
  rw [read?, compact, String.toList_ofList, ← compact, hread]
  rfl

end WeakIntern.Json
