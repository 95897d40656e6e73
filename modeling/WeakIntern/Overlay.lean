import WeakIntern.Heap
import WeakIntern.Number.Instances
import WeakIntern.Snapshot.Image
import WeakIntern.Text.Json

/-!
# The overlay

An `Overlay` answers for the strings of a snapshot. Nothing is added to it or removed from it; the
only change it ever sees is that it is *drained*, and from then on it is empty. The objects of the
snapshot live on after that, since the heap region holds them: only the index goes.
-/

namespace WeakIntern

/-- The heap region of a snapshot: its objects and where they stand. -/
structure Region where
  addressing : Addressing
  backing : Backing
  objects : Array ObjectId
  offsets : Array Nat
  deriving Repr, Inhabited

/-- The object that a reference leads to. -/
def Region.decode? (region : Region) (value : UInt32) : Option ObjectId :=
  (region.addressing.recordIndex? region.offsets value).bind fun i => region.objects[i]?

/-- The strings of a snapshot, by hash. -/
structure Overlay where
  /-- The index, sorted by hash; empty once the overlay is drained. -/
  entries : Array IndexEntry := #[]
  region : Option Region := none
  drained : Bool := false
  deriving Repr, Inhabited

/-- The shape of an overlay. -/
structure OverlayShape where
  entryCount : Nat
  literalBytes : Nat
  addressing : Option Addressing
  backing : Option Backing
  deriving DecidableEq, Repr

namespace OverlayShape

/-- The table of figures, under a name. -/
def print (shape : OverlayShape) (name : String) : String :=
  name ++ " statistics:\n" ++
    "Number of entries       : " ++ countColumn shape.entryCount ++ "\n" ++
    "Literal bytes           : " ++ countColumn shape.literalBytes ++ "\n" ++
    match shape.addressing, shape.backing with
    | some addressing, some backing =>
      "Encoding                : " ++ addressing.title ++ ", " ++ backing.title ++ "\n"
    | _, _ => ""

def toJson (shape : OverlayShape) : Json :=
  .record [("entry_count", .count shape.entryCount), ("literal_bytes", .count shape.literalBytes),
    ("encoding", (shape.addressing.map fun a => .string a.name).getD .null),
    ("mapping", (shape.backing.map fun b => .string b.name).getD .null)]

end OverlayShape

namespace Overlay

/-- The overlay of a snapshot. An object is allocated for each record and kept for good. -/
def ofImage (heap : Heap) (image : Image) : Overlay × Heap :=
  let (objects, heap) := heap.allocAll image.records.toList
  let region : Region :=
    { addressing := image.addressing
      backing := image.backing
      objects := objects.toArray
      offsets := image.offsets }
  ({ entries := image.entries, region := some region }, heap)

/-- The object that an entry leads to. -/
def object? (overlay : Overlay) (entry : IndexEntry) : Option ObjectId :=
  overlay.region.bind fun region => region.decode? entry.value

/-- The index of the first entry whose hash is not below `hash`. -/
def firstAt (overlay : Overlay) (hash : UInt32) : Nat :=
  bisect (fun i => (overlay.entries[i]?).any fun entry => entry.hash < hash) 0 overlay.entries.size

/-- The index of the first entry whose hash is above `hash`. -/
def firstAbove (overlay : Overlay) (hash : UInt32) : Nat :=
  bisect (fun i => (overlay.entries[i]?).any fun entry => entry.hash ≤ hash) 0 overlay.entries.size

/-- The entries with a hash: they stand side by side. -/
def entriesWith (overlay : Overlay) (hash : UInt32) : List IndexEntry :=
  (overlay.entries.extract (overlay.firstAt hash) (overlay.firstAbove hash)).toList

/-- The object of the first entry with this hash and this content. -/
def lookup? (overlay : Overlay) (heap : Heap) (s : String) (hash : UInt32) : Option ObjectId :=
  (overlay.entriesWith hash).findSome? fun entry =>
    (overlay.object? entry).filter fun o => heap.content o == s

def entryCount (overlay : Overlay) : Nat := overlay.entries.size

def isEmpty (overlay : Overlay) : Bool := overlay.entries.isEmpty

/-- Must the strings be transferred, because the region they live in may move? -/
def requiresTransfer (overlay : Overlay) : Bool :=
  !overlay.isEmpty && overlay.region.any fun region => region.backing = .loaded

/-- The objects that the overlay answers with, in the order of the index. -/
def objects (overlay : Overlay) : List ObjectId := overlay.entries.toList.filterMap overlay.object?

/-- Give all objects away and be empty from then on. -/
def drain (overlay : Overlay) : List ObjectId × Overlay :=
  (overlay.objects, { overlay with entries := #[], drained := true })

def shape (overlay : Overlay) (heap : Heap) : OverlayShape where
  entryCount := overlay.entryCount
  literalBytes := (overlay.objects.map fun o => Heap.literalSize (heap.content o)).sum
  addressing := overlay.region.map Region.addressing
  backing := overlay.region.map Region.backing

/-- The diagnostic text. -/
def describe (overlay : Overlay) : String :=
  "ArchiveOverlayTable \x7b entries: " ++ toString overlay.entryCount ++ ", drained: " ++
    toString overlay.drained ++ " \x7d"

end Overlay

end WeakIntern
