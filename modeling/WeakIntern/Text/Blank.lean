/-!
# Blanks and words

`isBlank` is the Unicode property White_Space: twenty-five characters, among them the ideographic
space and not the zero-width ones. `words` are the longest runs of other characters.
-/

namespace WeakIntern

/-- The characters with the property White_Space, as inclusive ranges. -/
def blankRanges : List (Nat × Nat) :=
  [(0x9, 0xd), (0x20, 0x20), (0x85, 0x85), (0xa0, 0xa0), (0x1680, 0x1680), (0x2000, 0x200a),
    (0x2028, 0x2029), (0x202f, 0x202f), (0x205f, 0x205f), (0x3000, 0x3000)]

/-- Does the character separate words? -/
def isBlank (c : Char) : Bool :=
  blankRanges.any fun (first, last) => first ≤ c.toNat && c.toNat ≤ last

theorem isBlank_of_isWhitespace {c : Char} (h : c.isWhitespace = true) : isBlank c = true := by
  simp only [Char.isWhitespace, Bool.or_eq_true, decide_eq_true_eq] at h
  rcases h with ((h | h) | h) | h <;> subst h <;> decide

/-- The word being read from the right, and the words after it. -/
def wordStep (c : Char) : List Char × List (List Char) → List Char × List (List Char)
  | (current, done) =>
    if isBlank c then ([], if current.isEmpty then done else current :: done)
    else (c :: current, done)

/-- The words of a text, in order. -/
def wordChars (text : List Char) : List (List Char) :=
  let (current, done) := text.foldr wordStep ([], [])
  if current.isEmpty then done else current :: done

/-- The words of a text, in order. -/
def words (text : String) : List String := (wordChars text.toList).map String.ofList

end WeakIntern
