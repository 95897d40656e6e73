import WeakIntern.Proofs.Slots
import WeakIntern.Table.Task
/-!
# What a task does to a bucket

A task that meets a bucket parts its slots into those whose strings are alive and those whose
strings are gone. The dead ones are reaped. The live ones stay where they are, or, if the task moves
slots, are carried over into the next array, each under the hash of that array. `migrateBucket_eq`
and `reapBucket_eq` say this exactly, up to lines for the process log.
-/

namespace WeakIntern

/-- Taking one item off, and then `n` more. -/
theorem sub_one_sub_ofNat (items : UInt64) (n : Nat) :
    items - 1 - UInt64.ofNat n = items - UInt64.ofNat (n + 1) := by
  rw [UInt64.ofNat_add]
  grind

/-- Give the cells of some references back. -/
def CellStore.releaseAll (store : CellStore) (refs : List WeakRef) : CellStore :=
  refs.foldl (fun store r => (store.release r).2) store

/-- The slots whose strings are alive. -/
def liveSlots (heap : Heap) (slots : List Slot) : List Slot :=
  slots.filter fun slot => !slot.ref.isDead heap

/-- The slots whose strings are gone. -/
def deadSlots (heap : Heap) (slots : List Slot) : List Slot :=
  slots.filter fun slot => slot.ref.isDead heap

theorem mem_liveSlots {heap : Heap} {slots : List Slot} {slot : Slot} :
    slot ∈ liveSlots heap slots ↔ slot ∈ slots ∧ heap.isLive slot.ref.referent = true := by
  simp [liveSlots, WeakRef.isDead]

/-- A slot on its way from one array to another; within one epoch it keeps its hash. -/
def carried (heap : Heap) (source target : BucketArray) (slot : Slot) : Slot where
  hash :=
    if target.epoch = source.epoch then slot.hash
    else target.epoch.hash (heap.content slot.ref.referent)
  ref := slot.ref

namespace Table

/-! ## Reaping -/

theorem release_eq (t : Table) (r : WeakRef) :
    ∃ notices, (t.release r).2 = { t with cells := (t.cells.release r).2, notices } := by
  unfold release
  dsimp only
  split
  · exact ⟨_, rfl⟩
  · exact ⟨_, rfl⟩

theorem reap_eq (t : Table) (slot : Slot) :
    ∃ notices, t.reap slot =
      { t with cells := (t.cells.release slot.ref).2, items := t.items - 1, notices } := by
  obtain ⟨notices, h⟩ := t.release_eq slot.ref
  exact ⟨notices, by simp only [reap, h]⟩

theorem foldl_reap_eq (slots : List Slot) (t : Table) :
    ∃ notices, slots.foldl reap t =
      { t with
        cells := t.cells.releaseAll (slots.map Slot.ref)
        items := t.items - .ofNat slots.length
        notices } := by
  induction slots generalizing t with
  | nil => exact ⟨t.notices, by simp [CellStore.releaseAll]⟩
  | cons slot rest ih =>
    obtain ⟨_, h₁⟩ := t.reap_eq slot
    obtain ⟨notices, h₂⟩ := ih (t.reap slot)
    refine ⟨notices, ?_⟩
    rw [List.foldl_cons, h₂, h₁]
    simp only [sub_one_sub_ofNat, CellStore.releaseAll, List.map_cons, List.foldl_cons,
      List.length_cons]

end Table

namespace Task

/-! ## A bucket -/

/-- The task after it has looked at some slots, of which it moved and reaped some. -/
def count (task : Task) (examined moved reclaimed : Nat) : Task :=
  { task with
    examined := task.examined + examined
    moved := task.moved + moved
    reclaimed := task.reclaimed + reclaimed }

theorem migrateSlot_dead {heap : Heap} {slot : Slot} (h : slot.ref.isDead heap = true) (task : Task)
    (t : Table) : migrateSlot heap (task, t) slot = (task.count 1 0 1, t.reap slot) := by
  have hnone : slot.ref.resolve? heap = none := by
    rw [isDead_iff] at h
    simp [WeakRef.resolve?, h]
  simp only [migrateSlot, hnone, count, Nat.add_zero]

theorem migrateSlot_live {heap : Heap} {slot : Slot} (h : slot.ref.isDead heap = false)
    (task : Task) {t : Table} {target : BucketArray} {rest : List BucketArray}
    (ht : t.successors = target :: rest) :
    migrateSlot heap (task, t) slot =
      (task.count 1 1 0,
        { t with successors := target.append (carried heap t.active target slot) :: rest }) := by
  have hsome : slot.ref.resolve? heap = some slot.ref.referent :=
    resolve?_eq_some_iff.2 ⟨rfl, isDead_eq_false_iff.1 h⟩
  simp only [migrateSlot, hsome, count, place, movedHash, ht, carried, BucketArray.append,
    Table.epoch, Nat.add_zero]
  rfl

theorem foldl_migrateSlot_eq (heap : Heap) (slots : List Slot) (task : Task) {t : Table}
    {target : BucketArray} {rest : List BucketArray} (ht : t.successors = target :: rest) :
    ∃ notices, slots.foldl (migrateSlot heap) (task, t) =
      (task.count slots.length (liveSlots heap slots).length (deadSlots heap slots).length,
        { t with
          successors :=
            target.appendAll ((liveSlots heap slots).map (carried heap t.active target)) :: rest
          cells := t.cells.releaseAll ((deadSlots heap slots).map Slot.ref)
          items := t.items - .ofNat (deadSlots heap slots).length
          notices }) := by
  induction slots generalizing task t target with
  | nil =>
    refine ⟨t.notices, ?_⟩
    simp [count, liveSlots, deadSlots, CellStore.releaseAll, BucketArray.appendAll, ← ht]
  | cons slot slots ih =>
    rw [List.foldl_cons]
    cases hdead : slot.ref.isDead heap with
    | true =>
      obtain ⟨_, hreap⟩ := t.reap_eq slot
      obtain ⟨notices, h⟩ :=
        ih (task.count 1 0 1) (show (t.reap slot).successors = target ::
          rest by rw [hreap]; exact ht)
      refine ⟨notices, ?_⟩
      rw [migrateSlot_dead hdead, h, hreap]
      simp [count, liveSlots, deadSlots, hdead, sub_one_sub_ofNat, CellStore.releaseAll,
        Nat.add_assoc, Nat.add_comm, Nat.add_left_comm]
    | false =>
      rw [migrateSlot_live hdead task ht]
      obtain ⟨notices, h⟩ := ih (task.count 1 1 0)
        (t := { t with successors := target.append (carried heap t.active target slot) :: rest })
          rfl
      refine ⟨notices, ?_⟩
      have hepoch : carried heap t.active (target.append (carried heap t.active target slot)) =
          carried heap t.active target := rfl
      rw [h]
      simp [count, liveSlots, deadSlots, hdead, hepoch, BucketArray.appendAll_cons, Nat.add_assoc,
        Nat.add_comm, Nat.add_left_comm]

/-- **Moving a bucket.** The slots stay behind in the old array, under the mark. -/
theorem migrateBucket_eq (heap : Heap) (task : Task) {t : Table} {target : BucketArray}
    (ht : t.successors = [target]) (index : Nat) :
    ∃ notices, migrateBucket heap task t index =
      (task.count (t.active.slotsAt index).length (liveSlots heap (t.active.slotsAt index)).length
          (deadSlots heap (t.active.slotsAt index)).length,
        { t with
          active := t.active.redirect index
          successors := [target.appendAll
            ((liveSlots heap (t.active.slotsAt index)).map (carried heap t.active target))]
          cells := t.cells.releaseAll ((deadSlots heap (t.active.slotsAt index)).map Slot.ref)
          items := t.items - .ofNat (deadSlots heap (t.active.slotsAt index)).length
          notices }) := by
  obtain ⟨notices, h⟩ := foldl_migrateSlot_eq heap (t.active.slotsAt index) task ht
  exact ⟨notices, by simp only [migrateBucket, h]⟩

/-- **Cleaning a bucket** in place. -/
theorem reapBucket_eq (heap : Heap) (task : Task) (t : Table) (index : Nat) :
    ∃ notices, reapBucket heap task t index =
      (task.count (t.active.slotsAt index).length 0
        (deadSlots heap (t.active.slotsAt index)).length, { t with
          active := t.active.setSlots index (liveSlots heap (t.active.slotsAt index))
          cells := t.cells.releaseAll ((deadSlots heap (t.active.slotsAt index)).map Slot.ref)
          items := t.items - .ofNat (deadSlots heap (t.active.slotsAt index)).length
          notices }) := by
  have hparts : (t.active.slotsAt index).partition (fun slot => slot.ref.isDead heap) =
      (deadSlots heap (t.active.slotsAt index), liveSlots heap (t.active.slotsAt index)) := by
    rw [List.partition_eq_filter_filter]
    rfl
  unfold reapBucket
  simp only [hparts]
  split
  · next hempty =>
    rw [List.isEmpty_iff] at hempty
    have hall : liveSlots heap (t.active.slotsAt index) = t.active.slotsAt index := by
      refine List.filter_eq_self.2 ?_
      intro slot hslot
      have hnot := List.filter_eq_nil_iff.1 hempty slot hslot
      simpa using hnot
    refine ⟨t.notices, ?_⟩
    rw [hempty, hall, BucketArray.setSlots_self]
    simp [count, CellStore.releaseAll]
  · next hempty =>
    obtain ⟨notices, h⟩ := Table.foldl_reap_eq (deadSlots heap (t.active.slotsAt index))
      { t with active := t.active.setSlots index (liveSlots heap (t.active.slotsAt index)) }
    exact ⟨notices, by rw [h]; rfl⟩

end Task

end WeakIntern
