import WeakIntern.Failure
import WeakIntern.Snapshot.Bisect
import WeakIntern.Snapshot.Format
import WeakIntern.Text.Column
import WeakIntern.Text.Utf8
/-!
# Snapshot images

An `Image` is a snapshot that has been read and checked: `Image.ofBytes` accepts exactly the bytes
of the format, and names the first fault of all others. Every entry of an image leads to a record
that has the hash of the entry.
-/

namespace WeakIntern

/-- Why bytes are no snapshot. -/
inductive ImageFault where
  | tooShort (length : Nat)
  | badMagic (found : List UInt8)
  | unsupportedVersion (found : Nat)
  | unknownAddressing (found : UInt8)
  | foreignSeed (seed : Nat)
  | wrongLength (expected entries heap found : Nat)
  | truncatedRecord (offset : Nat)
  | overrunningRecord (offset : Nat)
  | notUtf8 (offset : Nat) (fault : Utf8Fault)
  | recordCount (promised found : Nat)
  | unsortedEntry (index : Nat)
  | danglingEntry (index : Nat) (value : UInt32)
  | wrongHash (index : Nat) (hash : UInt32)
  deriving DecidableEq, Repr

namespace ImageFault

def message : ImageFault → String
  | .tooShort length => "image of " ++ toString length ++ " bytes is shorter than the header"
  | .badMagic found =>
    "bad magic [" ++ ", ".intercalate (found.map fun b => toString b.toNat) ++ "]"
  | .unsupportedVersion found => "unsupported version " ++ toString found
  | .unknownAddressing found => "unknown reference encoding " ++ toString found.toNat
  | .foreignSeed seed =>
    "entries hashed with seed " ++ hexNumber seed ++ ", expected the default hash"
  | .wrongLength expected entries heap found =>
    "expected " ++ toString expected ++ " bytes for " ++ toString entries ++ " entries and a " ++
      toString heap ++ " byte heap, found " ++ toString found
  | .truncatedRecord offset => "truncated record header at heap offset " ++ toString offset
  | .overrunningRecord offset =>
    "record at heap offset " ++ toString offset ++ " overruns the heap region"
  | .notUtf8 offset fault =>
    "record at heap offset " ++ toString offset ++ " is not UTF-8: " ++ fault.message
  | .recordCount promised found =>
    "header promises " ++ toString promised ++ " objects, heap holds " ++ toString found
  | .unsortedEntry index => "entry " ++ toString index ++ " is out of hash order"
  | .danglingEntry index value =>
    "entry " ++ toString index ++ " refers to nothing (" ++ hexNumber value.toNat ++ ")"
  | .wrongHash index hash =>
    "entry " ++ toString index ++ " hash " ++ hexNumber hash.toNat ++ " does not match its string"

end ImageFault

/-- The number of the record that a reference leads to, given the offsets of all records in
ascending order. A number is not checked against the count of records. -/
def Addressing.recordIndex? (addressing : Addressing) (offsets : Array Nat) (value : UInt32) :
    Option Nat :=
  match addressing with
  | .narrow => some value.toNat
  | .offset =>
    let i := bisect (fun i => offsets.getD i (value.toNat) < value.toNat) 0 offsets.size
    if offsets[i]? = some value.toNat then some i else none

/-- The string of the record that a reference leads to. -/
def Addressing.record? (addressing : Addressing) (offsets : Array Nat) (records : Array String)
    (value : UInt32) :
    Option String :=
  (addressing.recordIndex? offsets value).bind fun i => records[i]?

/-- A snapshot that has been read and checked. -/
structure Image where
  addressing : Addressing
  backing : Backing
  entries : Array IndexEntry
  /-- The strings of the records, in order. -/
  records : Array String
  /-- The offsets of the records in the heap region. -/
  offsets : Array Nat
  sorted : entries.toList.Pairwise fun a b => a.hash ≤ b.hash
  /-- Every entry leads to a record that has the hash of the entry. -/
  leads : ∀ entry ∈ entries.toList, (addressing.record? offsets records entry.value).map unitHash =
    some entry.hash

namespace Image

/-- The string that a reference leads to. -/
def decode? (image : Image) (value : UInt32) (addressing : Addressing) : Option String :=
  addressing.record? image.offsets image.records value

/-- The diagnostic text. -/
def describe (image : Image) : String :=
  "ArchiveImage \x7b encoding: " ++ image.addressing.title ++ ", entries: " ++
    toString image.entries.size ++ ", mapping: " ++ image.backing.title ++ " \x7d"

/-! ## Reading -/

/-- What the header says. -/
structure Header where
  addressing : Addressing
  entryCount : Nat
  heapLength : Nat
  recordCount : Nat
  deriving DecidableEq, Repr

/-- Read the header, and check it against the length of the whole. -/
def Header.ofBytes (bytes : List UInt8) : Except ImageFault Header := do
  let found := bytes.length
  if found < Snapshot.headerLength then throw (.tooShort found)
  if bytes.take 4 ≠ Snapshot.magic then throw (.badMagic (bytes.take 4))
  if Snapshot.wordAt bytes 4 ≠ Snapshot.version
    then throw (.unsupportedVersion (Snapshot.wordAt bytes 4))
  let code := (bytes.drop 8).headD 0
  let addressing ← match Addressing.ofByte? code with
    | some addressing => pure addressing
    | none => throw (.unknownAddressing code)
  let seed := Snapshot.littleEndian ((bytes.drop 16).take 8)
  if seed ≠ 0 then throw (.foreignSeed seed)
  let entryCount := Snapshot.wordAt bytes 12
  let heapLength := Snapshot.wordAt bytes 24
  let expected := Snapshot.headerLength + entryCount * Snapshot.entryLength + heapLength
  if found ≠ expected then throw (.wrongLength expected entryCount heapLength found)
  return { addressing, entryCount, heapLength, recordCount := Snapshot.wordAt bytes 28 }

/-- The records of a heap region, each with its offset. -/
def readRecords (offset : Nat) (region : List UInt8) : Except ImageFault (List (Nat × String)) :=
  match region with
  | [] => .ok []
  | a :: b :: c :: d :: body =>
    let length := Snapshot.littleEndian [a, b, c, d]
    let content := body.take length
    if content.length < length then .error (.overrunningRecord offset)
    else
      match ofUtf8 content with
      | .error fault => .error (.notUtf8 offset fault)
      | .ok s => (readRecords (offset + 4 + length) (body.drop length)).map ((offset, s) :: ·)
  | _ => .error (.truncatedRecord offset)
termination_by region.length
decreasing_by
  simp only [List.length_cons, List.length_drop]
  omega

/-- The pairs of words in the bytes of the index. -/
def entriesOf : (count : Nat) → List UInt8 → List IndexEntry
  | 0, _ => []
  | count + 1, bytes =>
    ⟨(Snapshot.wordAt bytes 0).toUInt32, (Snapshot.wordAt bytes 4).toUInt32⟩ ::
      entriesOf count (bytes.drop Snapshot.entryLength)

/-- Check one entry: it is not below the hash before it, leads to a record, and has the hash of that
record. -/
def checkEntry (decode : UInt32 → Option String) (index : Nat) (previous : UInt32)
    (entry : IndexEntry) :
    Except ImageFault Unit :=
  if entry.hash < previous then .error (.unsortedEntry index)
  else
    match decode entry.value with
    | none => .error (.danglingEntry index entry.value)
    | some s => if unitHash s = entry.hash then .ok () else .error (.wrongHash index entry.hash)

/-- Check the entries in order. -/
def checkEntries (decode : UInt32 → Option String) (index : Nat) (previous : UInt32) :
    List IndexEntry → Except ImageFault Unit
  | [] => .ok ()
  | entry :: rest => do
    checkEntry decode index previous entry
    checkEntries decode (index + 1) entry.hash rest

/-- The hashes of entries that pass the check ascend, and are those of the records. -/
theorem of_checkEntries_eq_ok {decode : UInt32 → Option String} {index : Nat} {previous : UInt32}
    {entries : List IndexEntry} (h : checkEntries decode index previous entries = .ok ()) :
    (∀ entry ∈ entries, previous ≤ entry.hash) ∧ (entries.Pairwise fun a b => a.hash ≤ b.hash) ∧
      ∀ entry ∈ entries, (decode entry.value).map unitHash = some entry.hash := by
  induction entries generalizing index previous with
  | nil => exact ⟨by simp, .nil, by simp⟩
  | cons entry rest ih =>
    rw [checkEntries, checkEntry] at h
    split at h
    · cases h
    · next hle =>
      replace hle := UInt32.not_lt.1 hle
      split at h
      · cases h
      · next s hs =>
        split at h
        · next hhash =>
          obtain ⟨habove, hsorted, hleads⟩ := ih h
          have hhead : (decode entry.value).map unitHash = some entry.hash := by
            rw [hs, Option.map_some, hhash]
          exact ⟨List.forall_mem_cons.2 ⟨hle, fun e he => UInt32.le_trans hle (habove e he)⟩,
            .cons habove hsorted, List.forall_mem_cons.2 ⟨hhead, hleads⟩⟩
        · cases h

/-- Put an image together from what was read, and check its entries. -/
def assemble (addressing : Addressing) (backing : Backing) (records : List (Nat × String))
    (entries : List IndexEntry) :
    Except ImageFault Image :=
  let offsets := (records.map Prod.fst).toArray
  let strings := (records.map Prod.snd).toArray
  match h : checkEntries (addressing.record? offsets strings) 0 0 entries with
  | .error fault => .error fault
  | .ok () =>
    .ok {
      addressing, backing, offsets
      entries := entries.toArray
      records := strings
      sorted := (of_checkEntries_eq_ok h).2.1
      leads := (of_checkEntries_eq_ok h).2.2 }

/-- Read a snapshot, or name its first fault: the header is read first, then the records, then the
entries. -/
def ofBytes (backing : Backing) (bytes : List UInt8) : Except ImageFault Image := do
  let header ← Header.ofBytes bytes
  let body := bytes.drop Snapshot.headerLength
  let records ← readRecords 0 (body.drop (header.entryCount * Snapshot.entryLength))
  if records.length ≠ header.recordCount then throw (.recordCount header.recordCount records.length)
  assemble header.addressing backing records (entriesOf header.entryCount body)

/-- Read a snapshot. Bytes that are none are malformed, whatever their fault. -/
def read (backing : Backing) (bytes : List UInt8) : Except Failure Image :=
  (ofBytes backing bytes).mapError fun fault => .malformedSnapshot fault.message

end Image

end WeakIntern
