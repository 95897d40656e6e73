import Std.Data.TreeSet
import WeakIntern.Failure
import WeakIntern.Number.Instances
import WeakIntern.Snapshot.Format
import WeakIntern.Text.Utf8

/-!
# Writing snapshots

A `SnapshotDraft` collects strings, each once and in the order of their first arrival, and is
encoded as a snapshot. The records stand in that order; the index is sorted by hash and then by
reference.
-/

namespace WeakIntern

/-- The strings of a snapshot to be written. -/
structure SnapshotDraft where
  addressing : Addressing
  strings : Array String := #[]
  /-- The same strings as a set. -/
  known : Std.TreeSet String := {}
  mem_known : ∀ s, s ∈ known ↔ s ∈ strings := by simp

namespace SnapshotDraft

/-- Add a string, unless the draft holds it. -/
def add (draft : SnapshotDraft) (s : String) : SnapshotDraft :=
  if s ∈ draft.known then draft
  else
    { draft with
      strings := draft.strings.push s
      known := draft.known.insert s
      mem_known := fun t => by
        rw [Std.TreeSet.mem_insert, Std.LawfulEqCmp.compare_eq_iff_eq, draft.mem_known,
          Array.mem_push, or_comm, @eq_comm _ s t] }

theorem strings_add (draft : SnapshotDraft) (s : String) :
    (draft.add s).strings = if s ∈ draft.strings then draft.strings else draft.strings.push s := by
  simp only [add, ← draft.mem_known]
  split <;> rfl

theorem addressing_add (draft : SnapshotDraft) (s : String) :
    (draft.add s).addressing = draft.addressing := by
  unfold add
  split <;> rfl

/-- The draft of a list of strings. -/
def ofList (addressing : Addressing) (strings : List String) : SnapshotDraft :=
  strings.foldl add { addressing }

/-- The record of a string: its length and its bytes. -/
def recordBytes (s : String) : List UInt8 :=
  Snapshot.wordBytes (utf8Bytes s).length ++ utf8Bytes s

/-- A number that no four bytes can hold. -/
def tooLarge (n : Nat) : Bool := 2 ^ 32 ≤ n

/-- The entries and the records of strings, the first of which has the given number and offset. -/
def layOut (addressing : Addressing) : (index offset : Nat) → List String →
    Except Failure (List IndexEntry × List UInt8)
  | _, offset, [] => if tooLarge offset then .error (.snapshotTooLarge offset) else .ok ([], [])
  | index, offset, s :: rest =>
    let record := recordBytes s
    let value := match addressing with
      | .offset => offset
      | .narrow => index
    if tooLarge (utf8Bytes s).length then .error (.snapshotTooLarge (utf8Bytes s).length)
    else if tooLarge value then .error (.snapshotTooLarge (offset + record.length))
    else
      (layOut addressing (index + 1) (offset + record.length) rest).map fun (entries, heap) =>
        (⟨unitHash s, value.toUInt32⟩ :: entries, record ++ heap)

/-- The order of the index. -/
def entryBefore (a b : IndexEntry) : Bool :=
  a.hash < b.hash || (a.hash == b.hash && a.value ≤ b.value)

/-- The bytes of an entry. -/
def entryBytes (entry : IndexEntry) : List UInt8 :=
  Snapshot.wordBytes entry.hash.toNat ++ Snapshot.wordBytes entry.value.toNat

/-- The header of a snapshot. -/
def headerBytes (addressing : Addressing) (count heapLength : Nat) : List UInt8 :=
  Snapshot.magic ++ Snapshot.wordBytes Snapshot.version ++ [addressing.toByte, 0, 0, 0] ++
    Snapshot.wordBytes count ++ Snapshot.littleEndianBytes 8 0 ++ Snapshot.wordBytes heapLength ++
    Snapshot.wordBytes count

/-- The bytes of the snapshot. -/
def encode (draft : SnapshotDraft) : Except Failure (List UInt8) := do
  let (entries, heap) ← layOut draft.addressing 0 0 draft.strings.toList
  let index := entries.mergeSort entryBefore
  return headerBytes draft.addressing entries.length heap.length ++ index.flatMap entryBytes ++ heap

end SnapshotDraft

end WeakIntern
