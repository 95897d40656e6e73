import WeakIntern.Text.Utf8
/-!
# The heap of string objects

The collector counts references: a string object is alive from its allocation until its last strong
reference goes, and then it is gone for good. Its content never changes. Objects are told apart by
identity, so two of them may hold the same content.

`isLive_drop_other`, `content_drop` and their companions say what each operation does to liveness
and content.
-/

namespace WeakIntern

/-- The identity of a string object. -/
structure ObjectId where
  index : Nat
  deriving DecidableEq, Repr, Inhabited, Ord

/-- A string object and the number of strong references to it. -/
structure HeapObject where
  content : String
  refs : Nat
  deriving Repr, Inhabited

/-- Every object ever allocated, the dead ones included. -/
structure Heap where
  objects : Array HeapObject := #[]
  deriving Repr, Inhabited

namespace Heap

/-- Allocate an object; the caller holds the one reference to it. -/
def alloc (h : Heap) (s : String) : ObjectId × Heap :=
  (⟨h.objects.size⟩, ⟨h.objects.push ⟨s, 1⟩⟩)

/-- The content of an object, dead or alive; empty for an identity that was never given out. -/
def content (h : Heap) (o : ObjectId) : String :=
  match h.objects[o.index]? with
  | some object => object.content
  | none => ""

/-- The number of strong references to an object. -/
def refs (h : Heap) (o : ObjectId) : Nat :=
  match h.objects[o.index]? with
  | some object => object.refs
  | none => 0

/-- Does the object still have a strong reference? -/
def isLive (h : Heap) (o : ObjectId) : Bool := h.refs o != 0

/-- What a weak reference sees: the content while the object is alive. -/
def peek? (h : Heap) (o : ObjectId) : Option String :=
  if h.isLive o then some (h.content o) else none

/-- Count one more reference. A dead object stays dead. -/
def retain (h : Heap) (o : ObjectId) : Heap :=
  ⟨h.objects.modify o.index fun object =>
    if object.refs = 0 then object else { object with refs := object.refs + 1 }⟩

/-- Give one reference up. -/
def drop (h : Heap) (o : ObjectId) : Heap :=
  ⟨h.objects.modify o.index fun object => { object with refs := object.refs - 1 }⟩

/-- Give up one reference to each object of a list. -/
def dropAll (h : Heap) (os : List ObjectId) : Heap := os.foldl drop h

/-- Allocate an object for each string. -/
def allocAll (h : Heap) : List String → List ObjectId × Heap
  | [] => ([], h)
  | s :: rest =>
    let (o, h) := h.alloc s
    let (os, h) := h.allocAll rest
    (o :: os, h)

/-- Bytes of an object's header. -/
def objectHeaderBytes : Nat := 24

/-- Bytes of the header of the array that holds the characters. -/
def arrayHeaderBytes : Nat := 16

/-- The bytes that a string object takes: both headers, and its UTF-8 bytes rounded up to a multiple
of eight. -/
def literalSize (s : String) : Nat :=
  objectHeaderBytes + arrayHeaderBytes + ((utf8Bytes s).length + 7) / 8 * 8

theorem content_drop (h : Heap) (o p : ObjectId) : (h.drop o).content p = h.content p := by
  simp only [content, drop, Array.getElem?_modify]
  by_cases hidx : o.index = p.index
  · rw [if_pos hidx]
    cases h.objects[p.index]? <;> rfl
  · rw [if_neg hidx]

theorem content_retain (h : Heap) (o p : ObjectId) : (h.retain o).content p = h.content p := by
  simp only [content, retain, Array.getElem?_modify]
  by_cases hidx : o.index = p.index
  · rw [if_pos hidx]
    cases h.objects[p.index]? with
    | none => rfl
    | some object =>
      by_cases hdead : object.refs = 0 <;> simp [hdead]
  · rw [if_neg hidx]

theorem refs_drop_other (h : Heap) {o p : ObjectId} (hne : p ≠ o) :
    (h.drop o).refs p = h.refs p := by
  have hidx : ¬ o.index = p.index := fun he => hne (by cases o; cases p; simp_all)
  simp only [refs, drop, Array.getElem?_modify, if_neg hidx]

theorem isLive_drop_other (h : Heap) {o p : ObjectId} (hne : p ≠ o) :
    (h.drop o).isLive p = h.isLive p := by
  simp only [isLive, h.refs_drop_other hne]

theorem refs_drop_self (h : Heap) (o : ObjectId) : (h.drop o).refs o = h.refs o - 1 := by
  simp only [refs, drop, Array.getElem?_modify, if_true]
  cases h.objects[o.index]? <;> rfl

end Heap

end WeakIntern
