import WeakIntern.Hash.Units
/-!
# The snapshot format

A snapshot is an immutable set of strings with a sorted index. All its integers are little-endian:

* `+0` the letters `STRA`, `+4` the version 1, `+8` the addressing of the index (one byte), then
  three bytes of padding;
* `+12` the number of index entries, `+16` the hash seed (eight bytes, always zero);
* `+24` the number of bytes in the heap region, `+28` the number of records in it;
* `+32` the entries, each a hash and a value, sorted by hash;
* then the heap region: each record is a length and as many bytes of UTF-8.
-/

namespace WeakIntern

/-- How an index entry refers to a record. -/
inductive Addressing where
  /-- By the offset of the record in the heap region. -/
  | offset
  /-- By the number of the record. -/
  | narrow
  deriving DecidableEq, Repr, Inhabited

namespace Addressing

def name : Addressing → String
  | .offset => "offset"
  | .narrow => "narrow"

def title : Addressing → String
  | .offset => "Offset"
  | .narrow => "Narrow"

/-- The byte that stands for it in a snapshot. -/
def toByte : Addressing → UInt8
  | .offset => 0
  | .narrow => 1

def ofByte? : UInt8 → Option Addressing
  | 0 => some .offset
  | 1 => some .narrow
  | _ => none

end Addressing

/-- Where the heap region of a snapshot lives. -/
inductive Backing where
  /-- In a file that is mapped, for good. -/
  | mapped
  /-- In memory that may move: its strings must be transferred. -/
  | loaded
  deriving DecidableEq, Repr, Inhabited

namespace Backing

def name : Backing → String
  | .mapped => "mapped"
  | .loaded => "loaded"

def title : Backing → String
  | .mapped => "Mapped"
  | .loaded => "Loaded"

end Backing

/-- An entry of the index: the default hash of a string, and the reference to its record. -/
structure IndexEntry where
  hash : UInt32
  value : UInt32
  deriving DecidableEq, Repr, Inhabited

namespace Snapshot

/-- The letters `STRA`. -/
def magic : List UInt8 := [0x53, 0x54, 0x52, 0x41]

def version : Nat := 1

def headerLength : Nat := 32

def entryLength : Nat := 8

/-- The value of little-endian bytes. -/
def littleEndian (bytes : List UInt8) : Nat := bytes.foldr (fun b n => b.toNat + 256 * n) 0

/-- The low `width` bytes of a number, little-endian. -/
def littleEndianBytes : (width : Nat) → Nat → List UInt8
  | 0, _ => []
  | width + 1, n => (n % 256).toUInt8 :: littleEndianBytes width (n / 256)

/-- Four bytes. -/
def wordBytes (n : Nat) : List UInt8 := littleEndianBytes 4 n

/-- The number in the four bytes at an offset. -/
def wordAt (bytes : List UInt8) (offset : Nat) : Nat := littleEndian ((bytes.drop offset).take 4)

end Snapshot

end WeakIntern
