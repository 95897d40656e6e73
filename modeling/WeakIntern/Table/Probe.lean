import WeakIntern.Table.Basic
/-!
# Looking up and inserting

`Table.get?` finds the live string with a given content. `Table.insertIfAbsent` links a slot for a
string unless one with the same content is alive; who inserts gives the table a weak reference,
which the table gives back if it is not needed.

Both walk the chain that the hash selects. A walk over more slots than the alarm length raises the
alarm, whether or not it finds anything.
-/

namespace WeakIntern

/-- What a lookup is after: a content, or the content of an object that exists. -/
inductive LookupKey where
  | text (s : String)
  | object (o : ObjectId)
  deriving DecidableEq, Repr, Inhabited

namespace LookupKey

/-- The content that is looked up. -/
def content (heap : Heap) : LookupKey → String
  | .text s => s
  | .object o => heap.content o

/-- Has the candidate the content that is looked up? An object needs no look at its content to match
itself. -/
def matchesObject (heap : Heap) : LookupKey → ObjectId → Bool
  | .text s, candidate => heap.content candidate == s
  | .object o, candidate => o == candidate || heap.content o == heap.content candidate

theorem matchesObject_iff (heap : Heap) (key : LookupKey) (o : ObjectId) :
    key.matchesObject heap o = true ↔ heap.content o = key.content heap := by
  cases key with
  | text s => simp [matchesObject, content]
  | object p =>
    simp only [matchesObject, content, Bool.or_eq_true, beq_iff_eq]
    exact ⟨fun h => h.elim (fun h => h ▸ rfl) Eq.symm, fun h => .inr h.symm⟩

end LookupKey

/-- An answer, and whether a walk was too long. -/
structure Probe (α : Type) where
  value : α
  alarm : Bool
  deriving Repr, Inhabited

/-- Does the slot lead to a live string that the key is after? -/
def Slot.answer? (heap : Heap) (hash : UInt32) (key : LookupKey) (slot : Slot) : Option ObjectId :=
  if slot.hash = hash then (slot.ref.resolve? heap).filter (key.matchesObject heap) else none

/-- Walk a chain up to the string looked for. The number counts the slots visited. -/
def walkChain (heap : Heap) (hash : UInt32) (key : LookupKey) : List Slot → Option ObjectId × Nat
  | [] => (none, 0)
  | slot :: rest =>
    match slot.answer? heap hash key with
    | some o => (some o, 1)
    | none =>
      let (found, visited) := walkChain heap hash key rest
      (found, visited + 1)

namespace Table

/-- Look a key up in one array after another, as long as the buckets are redirected. -/
def searchArrays (heap : Heap) (limit : Nat) (key : LookupKey) :
    List BucketArray → Probe (Option ObjectId)
  | [] => ⟨none, false⟩
  | a :: rest =>
    let hash := a.epoch.hash (key.content heap)
    let bucket := a.bucketAt (a.placeOf hash)
    let (found, visited) := walkChain heap hash key bucket.slots
    let alarm : Bool := limit < visited
    if found.isSome || !bucket.redirected then ⟨found, alarm⟩
    else
      let probe := searchArrays heap limit key rest
      ⟨probe.value, alarm || probe.alarm⟩

/-- The live string that a key is after. -/
def get? (t : Table) (heap : Heap) (key : LookupKey) : Probe (Option ObjectId) :=
  searchArrays heap t.alarmLength key (t.active :: t.successors)

/-- What an insert meets. -/
inductive Landing where
  /-- A live string with the same content. -/
  | occupied (o : ObjectId)
  /-- The end of a chain without one: in which array, which bucket, and under which hash. -/
  | vacant (depth place : Nat) (hash : UInt32)
  /-- A redirected bucket with no array behind it; maintenance never leaves one. -/
  | stranded
  deriving DecidableEq, Repr

/-- Where the content of an object is, or would be linked: the first bucket on the way that is not
redirected decides. -/
def land (heap : Heap) (limit : Nat) (o : ObjectId) :
    (depth : Nat) → List BucketArray → Probe Landing
  | _, [] => ⟨.stranded, false⟩
  | depth, a :: rest =>
    let hash := a.epoch.hash (heap.content o)
    let place := a.placeOf hash
    let bucket := a.bucketAt place
    if bucket.redirected then land heap limit o (depth + 1) rest
    else
      match walkChain heap hash (.object o) bucket.slots with
      | (some existing, visited) => ⟨.occupied existing, limit < visited⟩
      | (none, visited) => ⟨.vacant depth place hash, limit < visited + 1⟩

/-- Link a slot in the array at a depth: the active one, or one behind it. -/
def linkAt (t : Table) (depth place : Nat) (slot : Slot) : Table :=
  match depth with
  | 0 => { t with active := t.active.link place slot }
  | depth + 1 => { t with successors := t.successors.modify depth fun a => a.link place slot }

/-- The outcome of an insert. -/
inductive Placement where
  /-- The string itself is in the table now. -/
  | linked
  /-- Another string with this content was there. -/
  | existing (o : ObjectId)
  /-- There was no place for it. -/
  | stranded
  deriving DecidableEq, Repr, Inhabited

/-- Insert an object unless a string with its content is alive in the table. The table takes the
weak reference over: it is linked, or given back. -/
def insertIfAbsent (t : Table) (heap : Heap) (o : ObjectId) (ref : WeakRef) :
    Probe Placement × Table :=
  let landing := land heap t.alarmLength o 0 (t.active :: t.successors)
  match landing.value with
  | .occupied existing => (⟨.existing existing, landing.alarm⟩, (t.release ref).2)
  | .vacant depth place hash =>
    let t := { t with items := t.items + 1 }
    (⟨.linked, landing.alarm⟩, t.linkAt depth place ⟨hash, ref⟩)
  | .stranded => (⟨.stranded, landing.alarm⟩, t)

/-- The object that stands for the content after an insert of `o`. -/
def Placement.canonical (o : ObjectId) : Placement → ObjectId
  | .linked | .stranded => o
  | .existing other => other

end Table

end WeakIntern
