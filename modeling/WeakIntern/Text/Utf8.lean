/-!
# Strings and their UTF-8 bytes

`utf8Bytes` gives the bytes of a string and `ofUtf8` the string of some bytes. The two are inverse
to each other (`ofUtf8_utf8Bytes`, `eq_utf8Bytes_of_ofUtf8`). Bytes that are no string are refused
with the place of the first fault: the index where the bad sequence starts and its length, or no
length where the data ends inside a sequence that was well formed so far.
-/

namespace WeakIntern

/-- The UTF-8 bytes of a string. -/
def utf8Bytes (s : String) : List UInt8 := s.toByteArray.data.toList

/-- The first fault in bytes that are not UTF-8. -/
structure Utf8Fault where
  /-- Where the bad sequence starts. -/
  index : Nat
  /-- How many bytes could still have begun a sequence; none if the data ends too early. -/
  length : Option Nat
  deriving DecidableEq, Repr

namespace Utf8Fault

def message (fault : Utf8Fault) : String :=
  match fault.length with
  | some n =>
    "invalid utf-8 sequence of " ++ toString n ++ " bytes from index " ++ toString fault.index
  | none => "incomplete utf-8 byte sequence from index " ++ toString fault.index

end Utf8Fault

/-- A byte inside a sequence. -/
def isContinuation (b : UInt8) : Bool := 0x80 ≤ b && b ≤ 0xbf

/-- The bytes that may follow a first byte: overlong forms, surrogates and numbers above `0x10ffff`
are excluded here. -/
def mayFollow (first second : UInt8) : Bool :=
  if first = 0xe0 then 0xa0 ≤ second && second ≤ 0xbf
  else if first = 0xed then 0x80 ≤ second && second ≤ 0x9f
  else if first = 0xf0 then 0x90 ≤ second && second ≤ 0xbf
  else if first = 0xf4 then 0x80 ≤ second && second ≤ 0x8f
  else isContinuation second

/-- The length of the sequence that a first byte announces. -/
def announcedLength (first : UInt8) : Option Nat :=
  if first < 0x80 then some 1
  else if 0xc2 ≤ first && first ≤ 0xdf then some 2
  else if 0xe0 ≤ first && first ≤ 0xef then some 3
  else if 0xf0 ≤ first && first ≤ 0xf4 then some 4
  else none

/-- How many of the announced bytes are missing or wrong, looking past the first `seen` ones. -/
def checkRest (index : Nat) : (seen missing : Nat) → List UInt8 → Option Utf8Fault
  | _, 0, _ => none
  | _, _ + 1, [] => some ⟨index, none⟩
  | seen, missing + 1, b :: rest =>
    if isContinuation b then checkRest index (seen + 1) missing rest else some ⟨index, some seen⟩

/-- The fault of the sequence that starts with `first`, if it has one. -/
def checkSequence (index : Nat) (first : UInt8) (rest : List UInt8) : Option Utf8Fault :=
  match announcedLength first with
  | none => some ⟨index, some 1⟩
  | some 1 => none
  | some n =>
    match rest with
    | [] => some ⟨index, none⟩
    | second :: rest =>
      if mayFollow first second then checkRest index 2 (n - 2) rest else some ⟨index, some 1⟩

/-- The first fault at or after `index`; `skip` bytes belong to a sequence already checked. -/
def firstFault : (index skip : Nat) → List UInt8 → Option Utf8Fault
  | _, _, [] => none
  | index, skip + 1, _ :: rest => firstFault (index + 1) skip rest
  | index, 0, first :: rest =>
    match checkSequence index first rest with
    | some fault => some fault
    | none => firstFault (index + 1) ((announcedLength first).getD 1 - 1) rest

/-- The string with these bytes, or the first fault. -/
def ofUtf8 (bytes : List UInt8) : Except Utf8Fault String :=
  if h : bytes.toByteArray.IsValidUTF8 then .ok (String.fromUTF8 bytes.toByteArray h)
  else .error ((firstFault 0 0 bytes).getD ⟨0, none⟩)

theorem toByteArray_utf8Bytes (s : String) : (utf8Bytes s).toByteArray = s.toByteArray := by
  apply ByteArray.ext
  apply Array.toList_inj.mp
  rw [List.toList_data_toByteArray]
  rfl

theorem ofUtf8_utf8Bytes (s : String) : ofUtf8 (utf8Bytes s) = .ok s := by
  have h : (utf8Bytes s).toByteArray.IsValidUTF8 := by
    rw [toByteArray_utf8Bytes]
    exact s.isValidUTF8
  rw [ofUtf8, dif_pos h, String.fromUTF8]
  exact congrArg Except.ok (String.toByteArray_inj.mp (toByteArray_utf8Bytes s))

theorem eq_utf8Bytes_of_ofUtf8 {bytes : List UInt8} {s : String} (h : ofUtf8 bytes = .ok s) :
    bytes = utf8Bytes s := by
  unfold ofUtf8 at h
  split at h
  · cases h
    exact List.toList_data_toByteArray.symm
  · cases h

end WeakIntern
