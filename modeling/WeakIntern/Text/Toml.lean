import WeakIntern.Text.Toml.Moment
import WeakIntern.Text.Toml.Number
import WeakIntern.Text.Toml.Tables
/-!
# Reading TOML

`Toml.read?` reads a configuration file: comments, headers of tables, and keys with values. Values
are strings, numbers, truth values, dates and times, lists and inline tables. The file becomes a
`Json` record. Lists and inline tables may be nested, and keys may have parts, up to `maxDepth`.
-/

namespace WeakIntern.Toml

/-- No value lies in more lists and inline tables than these, and no key has more parts. -/
def maxDepth : Nat := 79

/-! ## Values -/

/-- A date or a time: a record with one field, of a name that settings do not have. -/
def ofMoment (moment : List Char) : Json := .record [("date-time", .string (String.ofList moment))]

/-- A truth value or a number. -/
def scalar? (text : List Char) : Option Json :=
  match text with
  | ['t', 'r', 'u', 'e'] => some (.bool true)
  | ['f', 'a', 'l', 's', 'e'] => some (.bool false)
  | text =>
    match wholeNumber? text with
    | some n => some (.int n)
    | none => (decimalNumber? text).map .float

def isScalarChar (c : Char) : Bool := c.isAlphanum || c == '_' || c == '-' || c == '+' || c == '.'

/-- A value without parts: a string of at most `fuel` characters, a date or a time, a truth value or
a number. -/
def readScalar (fuel : Nat) (text : List Char) : Option (Json × List Char) :=
  match Quoting.opening? text with
  | some (quoting, rest) => (quoting.read fuel [] rest).map fun (s, after) => (.string s, after)
  | none =>
    match readMoment? text with
    | some (moment, after) => some (ofMoment moment, after)
    | none => (scalar? (text.takeWhile isScalarChar)).map (·, text.dropWhile isScalarChar)

mutual

/-- A value, in which others may be nested `depth` deep. -/
def readValue : (fuel depth : Nat) → List Char → Option (Json × List Char)
  | 0, _, _ => none
  | fuel + 1, depth + 1, '[' :: rest => readItems fuel depth [] rest
  | fuel + 1, depth + 1, '\x7b' :: rest =>
    match skipBlanks rest with
    | '\x7d' :: after => some (.record [], after)
    | rest => readPairs fuel depth [] rest
  | fuel + 1, _, text => readScalar fuel text

/-- The items of a list, after its opening bracket or a comma; `done` holds those before, the last
first. -/
def readItems : (fuel depth : Nat) → (done : List Json) → List Char → Option (Json × List Char)
  | 0, _, _, _ => none
  | fuel + 1, depth, done, text =>
    match skipLines false text with
    | ']' :: after => some (.list done.reverse, after)
    | text =>
      match readValue fuel depth text with
      | none => none
      | some (item, rest) =>
        match skipLines false rest with
        | ',' :: rest => readItems fuel depth (item :: done) rest
        | ']' :: after => some (.list (item :: done).reverse, after)
        | _ => none

/-- The pairs of an inline table, after its opening brace or a comma. -/
def readPairs : (fuel depth : Nat) → Fields → List Char → Option (Json × List Char)
  | 0, _, _, _ => none
  | fuel + 1, depth, fields, text => do
    let (key, rest) ← readKey fuel maxDepth text
    let (value, rest) ← match rest with
      | '=' :: rest => readValue fuel depth (skipBlanks rest)
      | _ => none
    let fields ← fields.assign key value
    match skipBlanks rest with
    | ',' :: rest => readPairs fuel depth fields rest
    | '\x7d' :: after => return (fields.toJson, after)
    | _ => none

end

/-! ## Files -/

/-- A file that is being read. -/
structure Document where
  root : Fields := []
  /-- The path of the last header; keys belong to the table there. -/
  current : List String := []

/-- A line: a header, a key with its value, or nothing. No part of it takes more than `fuel`
steps. -/
def Document.readLine (fuel : Nat) (doc : Document) (text : List Char) :
    Option (Document × List Char) :=
  match skipComment text with
  | [] => some (doc, [])
  | '\n' :: rest => some (doc, '\n' :: rest)
  | '\r' :: rest => some (doc, '\r' :: rest)
  | '[' :: '[' :: rest => do
    let (path, rest) ← readKey fuel maxDepth rest
    match rest with
    | ']' :: ']' :: rest =>
      return ({ root := ← doc.root.openListed path, current := path }, skipComment rest)
    | _ => none
  | '[' :: rest => do
    let (path, rest) ← readKey fuel maxDepth rest
    match rest with
    | ']' :: rest =>
      return ({ root := ← doc.root.openTable path, current := path }, skipComment rest)
    | _ => none
  | text => do
    let (key, rest) ← readKey fuel maxDepth text
    match rest with
    | '=' :: rest =>
      let (value, rest) ← readValue fuel maxDepth (skipBlanks rest)
      return ({ doc with root := ← doc.root.assignAt doc.current key value }, skipComment rest)
    | _ => none

/-- All lines, at most `lines` of them. -/
def Document.readLines (fuel : Nat) : (lines : Nat) → Document → List Char → Option Document
  | 0, doc, _ => some doc
  | lines + 1, doc, text =>
    if text.isEmpty then some doc
    else do
      let (doc, rest) ← doc.readLine fuel text
      doc.readLines fuel lines (← lineEnd? rest)

/-- The record that a file describes; a byte order mark in front is passed over. No value takes more
steps than two for each character of the file. -/
def read? (text : String) : Option Json :=
  let chars := match text.toList with
    | '\ufeff' :: rest => rest
    | all => all
  let size := chars.length + 1
  (Document.readLines (2 * size) size {} chars).map fun doc => doc.root.toJson

end WeakIntern.Toml
