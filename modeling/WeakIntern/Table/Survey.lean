import WeakIntern.Statistics
import WeakIntern.Table.Basic
/-!
# Going over a table

`Table.liveObjects` lists what a table holds, `Table.shape` counts it, and `Table.problems` checks
each slot of the active array: its cell must be in use, its hash must be that of its string, and its
bucket the one that the hash selects. Slots of dead strings are not checked.
-/

namespace WeakIntern

/-- Something wrong with a slot. -/
inductive SlotProblem where
  | hashMismatch (content : String) (stored expected : UInt32)
  | misplacedSlot (content : String) (bucket expected : Nat)
  | releasedSlotLinked (id : Nat)
  deriving DecidableEq, Repr, Inhabited

namespace SlotProblem

def kind : SlotProblem → String
  | .hashMismatch .. => "hash_mismatch"
  | .misplacedSlot .. => "misplaced_slot"
  | .releasedSlotLinked .. => "released_slot_linked"

/-- The diagnostic text. -/
def describe : SlotProblem → String
  | .hashMismatch content stored expected =>
    "HashMismatch \x7b content: " ++ quoted content ++ ", stored: " ++ toString stored.toNat ++
      ", expected: " ++ toString expected.toNat ++ " \x7d"
  | .misplacedSlot content bucket expected =>
    "MisplacedSlot \x7b content: " ++ quoted content ++ ", bucket: " ++ toString bucket ++
      ", expected: " ++ toString expected ++ " \x7d"
  | .releasedSlotLinked id => "ReleasedSlotLinked \x7b id: " ++ toString id ++ " \x7d"

end SlotProblem

/-- What is wrong with a slot in the bucket `place` of an array. -/
def BucketArray.problem? (a : BucketArray) (cells : CellStore) (heap : Heap) (place : Nat)
    (slot : Slot) :
    Option SlotProblem :=
  if cells.isReleased slot.ref then some (.releasedSlotLinked slot.ref.id)
  else
    match slot.ref.resolve? heap with
    | none => none
    | some o =>
      let content := heap.content o
      let expected := a.epoch.hash content
      if expected ≠ slot.hash then some (.hashMismatch content slot.hash expected)
      else if a.placeOf slot.hash ≠ place
        then some (.misplacedSlot content place (a.placeOf slot.hash))
      else none

/-- The live objects of an array, bucket by bucket. -/
def BucketArray.liveObjects (a : BucketArray) (heap : Heap) : List ObjectId :=
  a.buckets.toList.flatMap fun b => b.slots.filterMap fun slot => slot.ref.resolve? heap

namespace Table

/-- The live strings of the active array, bucket by bucket. -/
def liveObjects (t : Table) (heap : Heap) : List ObjectId := t.active.liveObjects heap

/-- The live strings, unless a structural task is under way. -/
def scan? (t : Table) (heap : Heap) : Option (List ObjectId) :=
  if t.owned then none else some (t.liveObjects heap)

/-- Everything that is wrong with the active array, bucket by bucket. -/
def problems (t : Table) (heap : Heap) : List SlotProblem :=
  t.active.buckets.toList.zipIdx.flatMap fun (b, place) =>
    b.slots.filterMap (t.active.problem? t.cells heap place)

/-- What is known of a bucket. -/
def bucketFigures (heap : Heap) (b : Bucket) : BucketFigures where
  length := b.slots.length
  literals := b.slots.filterMap fun slot =>
    (slot.ref.resolve? heap).map fun o => Heap.literalSize (heap.content o)

/-- The shape of the active array. -/
def shape (t : Table) (heap : Heap) : TableShape :=
  BucketFigures.summarize (t.active.buckets.toList.map (bucketFigures heap))

end Table

end WeakIntern
