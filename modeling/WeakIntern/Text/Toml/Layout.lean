/-!
# Blanks, comments and line ends

What stands between the words of a configuration file. A line ends with a line feed, before which a
carriage return may stand, or with the text. A comment goes up to the end of its line.
-/

namespace WeakIntern.Toml

/-- A space or a tab. -/
def isSpacing (c : Char) : Bool := c == ' ' || c == '\t'

def skipBlanks (text : List Char) : List Char := text.dropWhile isSpacing

/-- Characters that may stand for themselves in a comment or a string: tabs, and all that are no
controls. -/
def isPlain (c : Char) : Bool := c == '\t' || (0x20 ≤ c.toNat && c.toNat != 0x7f)

/-- Blanks and a comment, up to the end of the line. -/
def skipComment (text : List Char) : List Char :=
  match skipBlanks text with
  | '#' :: rest => rest.dropWhile isPlain
  | rest => rest

/-- The text after a line feed, or after a carriage return with a line feed. -/
def newline? : List Char → Option (List Char)
  | '\n' :: rest => some rest
  | '\r' :: '\n' :: rest => some rest
  | _ => none

/-- The text after a line end, which the end of the text is too. -/
def lineEnd? : List Char → Option (List Char)
  | [] => some []
  | text => newline? text

/-- Blanks, comments and line ends, as they may stand in a list. -/
def skipLines : (inComment : Bool) → List Char → List Char
  | _, [] => []
  | _, '\n' :: rest => skipLines false rest
  | _, '\r' :: '\n' :: rest => skipLines false rest
  | true, c :: rest => if isPlain c then skipLines true rest else c :: rest
  | false, c :: rest =>
    if isSpacing c then skipLines false rest
    else if c = '#' then skipLines true rest
    else c :: rest

/-- Blanks and line ends, as a backslash at the end of a line drops them. -/
def skipFold : List Char → List Char
  | [] => []
  | '\r' :: '\n' :: rest => skipFold rest
  | c :: rest => if isSpacing c || c == '\n' then skipFold rest else c :: rest

end WeakIntern.Toml
