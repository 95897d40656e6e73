import WeakIntern.Hash.Epoch
import WeakIntern.Settings
import WeakIntern.Weak.CellStore
/-!
# Intern tables

A `Table` is an array of buckets, each an ordered chain of slots; a slot is a hash and a weak
reference. While a grow or a rehash is under way a second array stands behind the active one: the
buckets that have been moved are *redirected*, and an operation that lands on one of them goes on to
the next array, under the hash of its epoch.

This module holds the types and the small operations on them.
-/

namespace WeakIntern

/-- An entry of a table: the hash of a string and a weak reference to it. -/
structure Slot where
  hash : UInt32
  ref : WeakRef
  deriving DecidableEq, Repr, Inhabited

/-- A chain of slots. -/
structure Bucket where
  slots : List Slot := []
  /-- The slots were moved to the next array. -/
  redirected : Bool := false
  deriving DecidableEq, Repr, Inhabited

/-- An array of buckets, in which slots are placed by the hash of one epoch. -/
structure BucketArray where
  log2 : Nat
  epoch : Epoch
  buckets : Array Bucket
  deriving Repr, Inhabited

namespace BucketArray

/-- `2 ^ log2` empty buckets; the exponent counts modulo the width of a word. -/
def empty (log2 : Nat) (epoch : Epoch) : BucketArray :=
  { log2, epoch, buckets := Array.replicate (2 ^ (log2 % 64)) {} }

def size (a : BucketArray) : Nat := a.buckets.size

/-- The index of the bucket that a hash selects. -/
def placeOf (a : BucketArray) (hash : UInt32) : Nat := hash.toNat % a.size

theorem size_empty (log2 : Nat) (epoch : Epoch) : (empty log2 epoch).size = 2 ^ (log2 % 64) := by
  simp [empty, size]

theorem placeOf_lt (a : BucketArray) (h : 0 < a.size) (hash : UInt32) : a.placeOf hash < a.size :=
  Nat.mod_lt _ h

/-- The bucket at an index, empty beyond the end. -/
def bucketAt (a : BucketArray) (place : Nat) : Bucket := a.buckets.getD place {}

/-- The chain at an index. -/
def slotsAt (a : BucketArray) (place : Nat) : List Slot := (a.bucketAt place).slots

/-- Link a slot at the end of a chain. -/
def link (a : BucketArray) (place : Nat) (slot : Slot) : BucketArray :=
  { a with buckets := a.buckets.modify place fun b => { b with slots := b.slots ++ [slot] } }

/-- Replace a chain. -/
def setSlots (a : BucketArray) (place : Nat) (slots : List Slot) : BucketArray :=
  { a with buckets := a.buckets.modify place fun b => { b with slots } }

/-- Note that the slots of a bucket were moved. -/
def redirect (a : BucketArray) (place : Nat) : BucketArray :=
  { a with buckets := a.buckets.modify place fun b => { b with redirected := true } }

theorem size_link (a : BucketArray) (place : Nat) (slot : Slot) :
    (a.link place slot).size = a.size := by
  simp [link, size]

theorem size_setSlots (a : BucketArray) (place : Nat) (slots : List Slot) :
    (a.setSlots place slots).size = a.size := by
  simp [setSlots, size]

theorem size_redirect (a : BucketArray) (place : Nat) : (a.redirect place).size = a.size := by
  simp [redirect, size]

/-- Linking touches one bucket, and that at its end. -/
theorem bucketAt_link (a : BucketArray) {place : Nat} (slot : Slot) (h : place < a.size) (i : Nat) :
    (a.link place slot).bucketAt i =
      if place = i then { a.bucketAt i with slots := a.slotsAt i ++ [slot] } else a.bucketAt i := by
  simp only [bucketAt, link, slotsAt, Array.getD_eq_getD_getElem?, Array.getElem?_modify]
  by_cases hi : place = i
  · subst hi
    simp [Array.getElem?_eq_getElem (show place < a.buckets.size from h)]
  · simp [hi]

theorem bucketAt_setSlots (a : BucketArray) {place : Nat} (slots : List Slot)
    (h : place < a.size) (i : Nat) :
    (a.setSlots place slots).bucketAt i = if place = i then { a.bucketAt i with slots }
      else a.bucketAt i := by
  simp only [bucketAt, setSlots, Array.getD_eq_getD_getElem?, Array.getElem?_modify]
  by_cases hi : place = i
  · subst hi
    simp [Array.getElem?_eq_getElem (show place < a.buckets.size from h)]
  · simp [hi]

/-- Redirecting a bucket leaves its chain in place. -/
theorem bucketAt_redirect (a : BucketArray) {place : Nat} (h : place < a.size) (i : Nat) :
    (a.redirect place).bucketAt i =
      if place = i then { a.bucketAt i with redirected := true } else a.bucketAt i := by
  simp only [bucketAt, redirect, Array.getD_eq_getD_getElem?, Array.getElem?_modify]
  by_cases hi : place = i
  · subst hi
    simp [Array.getElem?_eq_getElem (show place < a.buckets.size from h)]
  · simp [hi]

end BucketArray

/-- An intern table. -/
structure Table where
  active : BucketArray
  /-- Where redirected buckets lead, in order; empty unless slots are being moved. -/
  successors : List BucketArray := []
  cells : CellStore
  /-- Linked slots, live or dead. -/
  items : UInt64 := 0
  /-- Is a structural task under way? -/
  owned : Bool := false
  maxLog2 : Nat
  /-- A walk over more slots than this raises the alarm. -/
  alarmLength : Nat
  /-- Buckets that a task processes at a time. -/
  chunkBuckets : Nat
  /-- Lines for the process log. -/
  notices : Array Notice := #[]
  deriving Inhabited

namespace Table

/-- An empty table. -/
def ofSettings (s : Settings) (cells : CellStore) : Table :=
  { active := .empty s.initialLog2 .default
    cells
    maxLog2 := s.maxLog2.toNat
    alarmLength := s.alarmLength.toNat
    chunkBuckets := s.chunkBuckets.toNat }

def itemCount (t : Table) : Nat := t.items.toNat

def size (t : Table) : Nat := t.active.size

def log2 (t : Table) : Nat := t.active.log2

def epoch (t : Table) : Epoch := t.active.epoch

def isMaxSize (t : Table) : Bool := t.maxLog2 ≤ t.log2

/-- Slots to a bucket. Dead slots count, so the live load may be smaller. -/
def loadFactor (t : Table) : Float := t.items.toFloat / Float.ofNat t.size

/-- Dead strings to a bucket. -/
def deadFactor (t : Table) (numDead : Nat) : Float := Float.ofNat numDead / Float.ofNat t.size

/-- Say something in the process log. -/
def notify (t : Table) (notice : Notice) : Table := { t with notices := t.notices.push notice }

/-- Take a weak cell for an object. -/
def acquire (t : Table) (o : ObjectId) : WeakRef × Table :=
  let (ref, cells) := t.cells.acquire o
  (ref, { t with cells })

/-- Give a weak cell back; a second time is refused and reported. -/
def release (t : Table) (ref : WeakRef) : Bool × Table :=
  let notice := t.cells.doubleReleaseNotice ref
  let (released, cells) := t.cells.release ref
  let t := { t with cells }
  (released, if released then t else t.notify notice)

/-- Unlink a slot whose string is gone: its cell is given back and there is one item less. -/
def reap (t : Table) (slot : Slot) : Table :=
  let t := (t.release slot.ref).2
  { t with items := t.items - 1 }

/-- The diagnostic text. -/
def describe (t : Table) : String :=
  "InternTable \x7b size: " ++ toString t.size ++ ", items: " ++ toString t.itemCount ++
    ", alt_hash: " ++
    toString t.epoch.isAlternate ++ " \x7d"

end Table

end WeakIntern
