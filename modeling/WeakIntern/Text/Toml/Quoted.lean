import WeakIntern.Text.Toml.Layout
/-!
# Strings and keys

A string stands between double or single quotes. Between double quotes a backslash makes another
character of what follows it; between single quotes every character stands for itself. A string
between three quotes may go over several lines. Of the quotes at its end the last three close it,
and one or two before them belong to it.
-/

namespace WeakIntern.Toml

/-! ## Escapes -/

/-- The character that a letter stands for after a backslash. -/
def escapedChar? (c : Char) : Option Char :=
  if c = '"' ∨ c = '\\' then some c
  else if c = 'b' then some '\x08'
  else if c = 'f' then some '\x0c'
  else if c = 'n' then some '\n'
  else if c = 'r' then some '\r'
  else if c = 't' then some '\t'
  else none

/-- The value of a hexadecimal digit. -/
def digit16? (c : Char) : Option Nat :=
  if c.isDigit then some (c.toNat - '0'.toNat)
  else if 'a' ≤ c ∧ c ≤ 'f' then some (c.toNat - 'a'.toNat + 10)
  else if 'A' ≤ c ∧ c ≤ 'F' then some (c.toNat - 'A'.toNat + 10)
  else none

/-- The character with a number given by hexadecimal digits. -/
def charOfDigits? (digits : List Char) : Option Char := do
  let n ← digits.foldlM (fun n c => (digit16? c).map fun d => 16 * n + d) 0
  if n.isValidChar then some (Char.ofNat n) else none

/-- The character for what follows a backslash: a letter, or four or eight hexadecimal digits after
`u` or `U`. -/
def readEscape : List Char → Option (Char × List Char)
  | [] => none
  | 'u' :: a :: b :: c :: d :: rest => (charOfDigits? [a, b, c, d]).map (·, rest)
  | 'U' :: a :: b :: c :: d :: e :: f :: g :: h :: rest =>
    (charOfDigits? [a, b, c, d, e, f, g, h]).map (·, rest)
  | c :: rest => (escapedChar? c).map (·, rest)

/-! ## Strings -/

/-- How a string is quoted. -/
structure Quoting where
  quote : Char
  /-- Is it between three quotes? -/
  long : Bool
  deriving DecidableEq, Repr

namespace Quoting

/-- The quotes that a string opens with. A line end right after three of them does not belong to the
string. -/
def opening? : List Char → Option (Quoting × List Char)
  | '"' :: '"' :: '"' :: rest => some (⟨'"', true⟩, (newline? rest).getD rest)
  | '\x27' :: '\x27' :: '\x27' :: rest => some (⟨'\x27', true⟩, (newline? rest).getD rest)
  | '"' :: rest => some (⟨'"', false⟩, rest)
  | '\x27' :: rest => some (⟨'\x27', false⟩, rest)
  | _ => none

/-- The quotes that a string closes with: those of them that belong to it, and the text after
them. -/
def closing? (q : Quoting) (text : List Char) : Option (List Char × List Char) :=
  let quotes := (text.takeWhile (· == q.quote)).length
  if q.long then
    let kept := min (quotes - 3) 2
    if quotes < 3 then none else some (List.replicate kept q.quote, text.drop (kept + 3))
  else if quotes = 0 then none
  else some ([], text.drop 1)

/-- The text after a backslash, blanks and a line end, with the blanks and line ends that follow
dropped. -/
def fold? (q : Quoting) (text : List Char) : Option (List Char) :=
  if q.long then (newline? (skipBlanks text)).map skipFold else none

/-- The next character of a string, none for a line that is folded, and the text after it. -/
def readChar (q : Quoting) : List Char → Option (Option Char × List Char)
  | [] => none
  | c :: rest =>
    if c = '\\' ∧ q.quote = '"' then
      match q.fold? rest with
      | some after => some (none, after)
      | none => (readEscape rest).map fun (c, after) => (some c, after)
    else if isPlain c then some (some c, rest)
    else if q.long then (newline? (c :: rest)).map fun after => (some '\n', after)
    else none

/-- The rest of a string, of at most `fuel` characters; `done` holds those before, the last
first. -/
def read (q : Quoting) : (fuel : Nat) → (done : List Char) → List Char → Option (String × List Char)
  | 0, _, _ => none
  | fuel + 1, done, text =>
    match q.closing? text with
    | some (quotes, after) => some (String.ofList (done.reverse ++ quotes), after)
    | none =>
      match q.readChar text with
      | some (c, rest) => q.read fuel (c.toList ++ done) rest
      | none => none

end Quoting

/-! ## Keys -/

def isBareKeyChar (c : Char) : Bool := c.isAlphanum || c == '_' || c == '-'

/-- One part of a key: a word, or a string in one line of at most `fuel` characters. -/
def readKeyPart (fuel : Nat) (text : List Char) : Option (String × List Char) :=
  match text with
  | '"' :: rest => Quoting.read ⟨'"', false⟩ fuel [] rest
  | '\x27' :: rest => Quoting.read ⟨'\x27', false⟩ fuel [] rest
  | text =>
    let part := text.takeWhile isBareKeyChar
    if part.isEmpty then none else some (String.ofList part, text.dropWhile isBareKeyChar)

/-- A key: at most `parts` parts with points between them. -/
def readKey (fuel : Nat) : (parts : Nat) → List Char → Option (List String × List Char)
  | 0, _ => none
  | parts + 1, text => do
    let (part, rest) ← readKeyPart fuel (skipBlanks text)
    match skipBlanks rest with
    | '.' :: rest =>
      let (key, after) ← readKey fuel parts rest
      return (part :: key, after)
    | rest => return ([part], rest)

end WeakIntern.Toml
