import WeakIntern.Table.Probe
import WeakIntern.Proofs.Lifetime
/-!
# The slots of an array

An array is read bucket by bucket: `slotsAt` and the mark of each bucket say all there is to know of
it, and each operation is described by what it does to them. `appendAll` puts slots where their
hashes belong; it keeps their order within each chain (`slotsAt_appendAll`).
-/

namespace WeakIntern

/-! ## Walking a chain -/

theorem resolve?_eq_some_iff {r : WeakRef} {heap : Heap} {o : ObjectId} :
    r.resolve? heap = some o ↔ r.referent = o ∧ heap.isLive o = true := by
  unfold WeakRef.resolve?
  split
  · next h => exact ⟨fun he => by cases he; exact ⟨rfl, h⟩, fun he => by rw [he.1]⟩
  · next h => exact ⟨by simp, fun he => absurd (he.1 ▸ he.2) h⟩

theorem isDead_eq_false_iff {r : WeakRef} {heap : Heap} :
    r.isDead heap = false ↔ heap.isLive r.referent = true := by
  simp [WeakRef.isDead]

theorem isDead_iff {r : WeakRef} {heap : Heap} : r.isDead heap = true ↔
    heap.isLive r.referent = false := by
  simp [WeakRef.isDead]

theorem Slot.answer?_eq_some_iff {heap : Heap} {hash : UInt32} {key : LookupKey} {slot : Slot}
    {o : ObjectId} : slot.answer? heap hash key = some o ↔
      slot.hash = hash ∧ slot.ref.referent = o ∧ heap.isLive o = true ∧
        heap.content o = key.content heap := by
  unfold Slot.answer?
  split
  · next hh =>
    rw [Option.filter_eq_some_iff, resolve?_eq_some_iff, LookupKey.matchesObject_iff]
    exact ⟨fun ⟨⟨h₁, h₂⟩, h₃⟩ => ⟨hh, h₁, h₂, h₃⟩, fun ⟨_, h₁, h₂, h₃⟩ => ⟨⟨h₁, h₂⟩, h₃⟩⟩
  · next hh => exact ⟨by simp, fun h => absurd h.1 hh⟩

/-- A walk answers with the first slot that has an answer. -/
theorem walkChain_fst (heap : Heap) (hash : UInt32) (key : LookupKey) (slots : List Slot) :
    (walkChain heap hash key slots).1 = slots.findSome? (Slot.answer? heap hash key) := by
  induction slots with
  | nil => rfl
  | cons slot rest ih =>
    rw [walkChain, List.findSome?_cons, ← ih]
    cases slot.answer? heap hash key <;> rfl

namespace BucketArray

/-! ## Reading an array -/

theorem bucketAt_of_le {a : BucketArray} {i : Nat} (h : a.size ≤ i) : a.bucketAt i = {} := by
  simp [bucketAt, Array.getD_eq_getD_getElem?, Array.getElem?_eq_none h]

theorem slotsAt_of_le {a : BucketArray} {i : Nat} (h : a.size ≤ i) : a.slotsAt i = [] := by
  rw [slotsAt, bucketAt_of_le h]

theorem lt_size_of_mem {a : BucketArray} {i : Nat} {slot : Slot} (h : slot ∈ a.slotsAt i) :
    i < a.size := by
  refine Nat.lt_of_not_le ?_
  intro hle
  rw [slotsAt_of_le hle] at h
  exact List.not_mem_nil h

/-- The mark of a bucket: were its slots moved on? -/
def isMoved (a : BucketArray) (i : Nat) : Bool := (a.bucketAt i).redirected

/-- No bucket of the array was moved on. -/
def Unmoved (a : BucketArray) : Prop := ∀ i, a.isMoved i = false

/-- The bucket of a content. -/
def home (a : BucketArray) (s : String) : Nat := a.placeOf (a.epoch.hash s)

theorem bucketAt_empty (log2 : Nat) (epoch : Epoch) (i : Nat) :
    (empty log2 epoch).bucketAt i = {} := by
  simp only [bucketAt, empty, Array.getD_eq_getD_getElem?, Array.getElem?_replicate]
  split <;> rfl

theorem slotsAt_empty (log2 : Nat) (epoch : Epoch) (i : Nat) :
    (empty log2 epoch).slotsAt i = [] := by
  rw [slotsAt, bucketAt_empty]

theorem unmoved_empty (log2 : Nat) (epoch : Epoch) : (empty log2 epoch).Unmoved := fun i => by
  rw [isMoved, bucketAt_empty]

/-! ## Changing an array -/

theorem slotsAt_link {a : BucketArray} {place : Nat} (slot : Slot) (h : place < a.size) (i : Nat) :
    (a.link place slot).slotsAt i = if place = i then a.slotsAt i ++ [slot] else a.slotsAt i := by
  rw [slotsAt, bucketAt_link a slot h]
  split <;> rfl

theorem isMoved_link {a : BucketArray} {place : Nat} (slot : Slot) (h : place < a.size) (i : Nat) :
    (a.link place slot).isMoved i = a.isMoved i := by
  rw [isMoved, bucketAt_link a slot h]
  split <;> rfl

theorem slotsAt_setSlots {a : BucketArray} {place : Nat} (slots : List Slot) (h : place < a.size)
    (i : Nat) : (a.setSlots place slots).slotsAt i = if place = i then slots else a.slotsAt i := by
  rw [slotsAt, bucketAt_setSlots a slots h]
  split <;> rfl

theorem isMoved_setSlots {a : BucketArray} {place : Nat} (slots : List Slot) (h : place < a.size)
    (i : Nat) : (a.setSlots place slots).isMoved i = a.isMoved i := by
  rw [isMoved, bucketAt_setSlots a slots h]
  split <;> rfl

theorem setSlots_self (a : BucketArray) (place : Nat) : a.setSlots place (a.slotsAt place) = a := by
  have hbuckets : (a.setSlots place (a.slotsAt place)).buckets = a.buckets := by
    refine Array.ext (by simp [setSlots]) ?_
    intro i h₁ h₂
    simp only [setSlots, Array.getElem_modify]
    split
    · next hi =>
      subst hi
      simp [slotsAt, bucketAt, Array.getD_eq_getD_getElem?, Array.getElem?_eq_getElem h₂]
    · rfl
  cases a
  simp only [setSlots] at hbuckets ⊢
  rw [hbuckets]

theorem slotsAt_redirect {a : BucketArray} {place : Nat} (h : place < a.size) (i : Nat) :
    (a.redirect place).slotsAt i = a.slotsAt i := by
  rw [slotsAt, bucketAt_redirect a h]
  split <;> rfl

theorem isMoved_redirect {a : BucketArray} {place : Nat} (h : place < a.size) (i : Nat) :
    (a.redirect place).isMoved i = if place = i then true else a.isMoved i := by
  rw [isMoved, bucketAt_redirect a h]
  split <;> rfl

/-! ## Appending slots where they belong -/

/-- Link a slot at the end of the chain that its hash selects. -/
def append (a : BucketArray) (slot : Slot) : BucketArray := a.link (a.placeOf slot.hash) slot

/-- Link slots one after another. -/
def appendAll (a : BucketArray) (slots : List Slot) : BucketArray := slots.foldl append a

theorem appendAll_cons (a : BucketArray) (slot : Slot) (slots : List Slot) :
    a.appendAll (slot :: slots) = (a.append slot).appendAll slots := rfl

theorem size_append (a : BucketArray) (slot : Slot) : (a.append slot).size = a.size :=
  size_link a _ slot

theorem placeOf_append (a : BucketArray) (slot : Slot) : (a.append slot).placeOf = a.placeOf := by
  funext hash
  rw [placeOf, placeOf, size_append]

theorem log2_appendAll (a : BucketArray) (slots : List Slot) :
    (a.appendAll slots).log2 = a.log2 := by
  induction slots generalizing a with
  | nil => rfl
  | cons slot rest ih => rw [appendAll_cons, ih]; rfl

theorem epoch_appendAll (a : BucketArray) (slots : List Slot) :
    (a.appendAll slots).epoch = a.epoch := by
  induction slots generalizing a with
  | nil => rfl
  | cons slot rest ih => rw [appendAll_cons, ih]; rfl

theorem size_appendAll (a : BucketArray) (slots : List Slot) :
    (a.appendAll slots).size = a.size := by
  induction slots generalizing a with
  | nil => rfl
  | cons slot rest ih => rw [appendAll_cons, ih, size_append]

theorem placeOf_appendAll (a : BucketArray) (slots : List Slot) :
    (a.appendAll slots).placeOf = a.placeOf := by
  funext hash
  rw [placeOf, placeOf, size_appendAll]

theorem slotsAt_append {a : BucketArray} (h : 0 < a.size) (slot : Slot) (i : Nat) :
    (a.append slot).slotsAt i =
      if a.placeOf slot.hash = i then a.slotsAt i ++ [slot] else a.slotsAt i :=
  slotsAt_link slot (a.placeOf_lt h _) i

/-- Each chain is continued by the slots that belong there, in their order. -/
theorem slotsAt_appendAll {a : BucketArray} (h : 0 < a.size) (slots : List Slot) (i : Nat) :
    (a.appendAll slots).slotsAt i =
      a.slotsAt i ++ slots.filter (fun slot => a.placeOf slot.hash = i) := by
  induction slots generalizing a with
  | nil => simp [appendAll]
  | cons slot rest ih =>
    rw [appendAll_cons, ih (by rwa [size_append]), placeOf_append, slotsAt_append h,
      List.filter_cons]
    by_cases hi : a.placeOf slot.hash = i <;> simp [hi]

theorem isMoved_appendAll {a : BucketArray} (h : 0 < a.size) (slots : List Slot) (i : Nat) :
    (a.appendAll slots).isMoved i = a.isMoved i := by
  induction slots generalizing a with
  | nil => rfl
  | cons slot rest ih =>
    rw [appendAll_cons, ih (by rwa [size_append])]
    exact isMoved_link slot (a.placeOf_lt h _) i

end BucketArray

end WeakIntern
