import WeakIntern.Text.Utf8
/-!
# Lines of the verbose dump

A dump line is the number of UTF-8 bytes of the string, a colon, a blank, and the string with its
control characters and backslashes escaped. A line therefore holds no line end of its own, and the
dump can be split into lines again.
-/

namespace WeakIntern

/-- The two lower-case hexadecimal digits of a number below 256. -/
def hexPair (n : Nat) : List Char := [Nat.digitChar (n / 16), Nat.digitChar (n % 16)]

/-- A character as a dump writes it. Above ASCII nothing is escaped. -/
def dumpChar (c : Char) : List Char :=
  if c = '\t' then ['\\', 't']
  else if c = '\r' then ['\\', 'r']
  else if c = '\n' then ['\\', 'n']
  else if c = '\\' then ['\\', '\\']
  else if c.toNat < 0x20 ∨ c.toNat = 0x7f then '\\' :: 'x' :: hexPair c.toNat
  else [c]

/-- A string as a dump writes it. -/
def dumpText (s : String) : String := String.ofList (s.toList.flatMap dumpChar)

/-- A whole dump line, without its line end. -/
def dumpLine (s : String) : String := toString (utf8Bytes s).length ++ ": " ++ dumpText s

end WeakIntern
