import Mathlib.Data.List.SplitBy
import WeakIntern.Proofs.Sole
/-!
# Nothing to be found

`Table.problems` lists what is wrong with the slots of a table, and `Interner.verifyAndCompare`
counts spare objects besides. A table that is at rest in a tidy world has no problems, and as the
overlay of an interner answers for none of the contents of its table, no content has two objects
(`Interner.Keeps.verified`).
-/

namespace WeakIntern

open scoped List

/-! ## Slots -/

namespace BucketArray

variable {a : BucketArray} {heap : Heap}

theorem toList_buckets (a : BucketArray) :
    a.buckets.toList = (List.range a.size).map a.bucketAt := by
  refine List.ext_getElem (by simp [size]) fun i hi _ => ?_
  have hlt : i < a.buckets.size := by simpa using hi
  simp [bucketAt, Array.getD_eq_getD_getElem?, Array.getElem?_eq_getElem hlt]

/-- The live objects of an array are those that its slots lead to. -/
theorem liveObjects_eq (a : BucketArray) (heap : Heap) :
    a.liveObjects heap = a.slots.filterMap fun slot => slot.ref.resolve? heap := by
  rw [liveObjects, toList_buckets, List.flatMap_map, slots, List.filterMap_flatMap]
  rfl

/-- A slot in whose place nothing is wrong. -/
structure Sound (a : BucketArray) (cells : CellStore) (heap : Heap) (place : Nat)
    (slot : Slot) : Prop where
  inUse : cells.InUse slot.ref
  hash : slot.hash = a.epoch.hash (heap.content slot.ref.referent)
  /-- The size is a power of two, so that one less is the mask for the low bits of a hash. -/
  place : slot.hash.toNat &&& (a.size - 1) = place

theorem placeOf_eq_and (hsized : a.Sized) (hash : UInt32) :
    a.placeOf hash = hash.toNat &&& (a.size - 1) := by
  rw [placeOf, hsized, Nat.and_two_pow_sub_one_eq_mod]

theorem Sound.problem?_eq_none {cells : CellStore} {place : Nat} {slot : Slot}
    (h : a.Sound cells heap place slot) (hsized : a.Sized) :
    a.problem? cells heap place slot = none := by
  have hplace := h.place
  rw [← placeOf_eq_and hsized] at hplace
  rw [problem?, h.inUse.isReleased]
  cases hresolve : slot.ref.resolve? heap with
  | none => rfl
  | some o =>
    obtain ⟨rfl, -⟩ := resolve?_eq_some_iff.1 hresolve
    simp [← h.hash, hplace]

end BucketArray

namespace Table

variable {t : Table} {heap : Heap}

theorem problems_eq_nil (hsized : t.active.Sized)
    (hsound : ∀ place, ∀ slot ∈ t.active.slotsAt place, t.active.Sound t.cells heap place slot) :
    t.problems heap = [] := by
  rw [problems, List.flatMap_eq_nil_iff]
  rintro ⟨bucket, place⟩ hmem
  rw [List.filterMap_eq_nil_iff]
  intro slot hslot
  have hbucket : t.active.bucketAt place = bucket := by
    have hget : t.active.buckets[place]? = some bucket := by
      rw [← Array.getElem?_toList]
      exact List.mem_zipIdx_iff_getElem?.1 hmem
    rw [BucketArray.bucketAt, Array.getD_eq_getD_getElem?, hget, Option.getD_some]
  exact (hsound place slot (by rw [BucketArray.slotsAt, hbucket]; exact hslot)).problem?_eq_none
    hsized

theorem liveObjects_eq (hstill : t.Still) :
    t.liveObjects heap = t.linkedRefs.filterMap (·.resolve? heap) := by
  rw [liveObjects, BucketArray.liveObjects_eq, linkedRefs, linked_still hstill, List.filterMap_map]
  rfl

/-- The live slots of a table at rest have different contents, if they lead to different objects. -/
theorem nodup_contents_liveObjects (hstill : t.Still) (hcoherent : t.Coherent heap)
    (hsole : t.Sole heap) :
    ((t.liveObjects heap).map heap.content).Nodup := by
  rw [liveObjects_eq hstill, List.Nodup, List.pairwise_map, List.pairwise_filterMap]
  refine hsole.imp_of_mem ?_
  -- In a coherent table one content belongs to one object, and to that only one slot leads.
  intro r r' hr hr' hne o ho o' ho' hcontent
  obtain ⟨rfl, hlive⟩ := resolve?_eq_some_iff.1 ho
  obtain ⟨rfl, hlive'⟩ := resolve?_eq_some_iff.1 ho'
  exact hne hlive (hcoherent.unique _ _ (holds_of_mem_linkedRefs hr hlive)
    (holds_of_mem_linkedRefs hr' hlive') hcontent)

theorem holds_of_mem_liveObjects {o : ObjectId} (ho : o ∈ t.liveObjects heap) : t.Holds heap o := by
  rw [liveObjects, BucketArray.liveObjects_eq] at ho
  obtain ⟨slot, hslot, hresolve⟩ := List.mem_filterMap.1 ho
  obtain ⟨rfl, hlive⟩ := resolve?_eq_some_iff.1 hresolve
  obtain ⟨i, hslot⟩ := BucketArray.mem_slots.1 hslot
  exact ⟨t.active, List.mem_cons_self, hlive, i, slot, hslot, rfl⟩

end Table

namespace World

variable {cells : CellStore} {w : World}

/-- **The slots of a tidy world** are sound whenever no task is under way. -/
theorem Tidy.sound (h : w.Tidy cells) (hrest : w.table.AtRest) :
    ∀ place, ∀ slot ∈ w.table.active.slotsAt place,
      w.table.active.Sound w.table.cells w.heap place slot := by
  intro place slot hslot
  have hplaced := h.coherent.placed w.table.active List.mem_cons_self place slot hslot
  have hlinked : slot.ref ∈ w.table.linkedRefs := by
    refine List.mem_map_of_mem ?_
    rw [Table.linked_still hrest.still]
    exact BucketArray.mem_slots.2 ⟨place, hslot⟩
  refine ⟨h.kept.accounted.linked_inUse _ hlinked, hplaced.hash, ?_⟩
  rw [← BucketArray.placeOf_eq_and hrest.sized, hplaced.hash]
  exact hplaced.place

end World

namespace Interner

/-! ## Contents -/

/-- A string that is not repeated is counted once. -/
theorem le_one_of_mem_tally {strings : List String} (hnodup : strings.Nodup) {s : String}
    {copies : Nat} (h : (s, copies) ∈ tally strings) : copies ≤ 1 := by
  obtain ⟨group, hgroup, hcount⟩ := List.mem_filterMap.1 h
  obtain ⟨_, _, hpair⟩ := Option.map_eq_some_iff.1 hcount
  obtain rfl : group.length = copies := congrArg Prod.snd hpair
  have hsorted := (List.mergeSort_perm strings fun a b => decide (a ≤ b)).nodup_iff.2 hnodup
  generalize strings.mergeSort (fun a b => decide (a ≤ b)) = sorted at hgroup hsorted
  rw [← List.flatten_splitBy (· == ·) sorted] at hsorted
  have hdistinct := (List.pairwise_flatten.1 hsorted).1 group hgroup
  have hequal := List.isChain_of_mem_splitBy hgroup
  -- A group has equal strings by the way it was split off, and different ones as a part of the
  -- list.
  match group, hdistinct, hequal with
  | [], _, _ => exact Nat.zero_le _
  | [_], _, _ => exact Nat.le_refl _
  | a :: b :: rest, hdistinct, hequal =>
    have hne : a ≠ b := (List.pairwise_cons.1 hdistinct).1 b List.mem_cons_self
    have hab : a = b := by simpa using (List.isChain_cons_cons.1 hequal).1
    exact absurd hab hne

/-- An interner with which nothing is wrong. -/
structure Verified (i : Interner) : Prop where
  slots : ∀ place, ∀ slot ∈ i.table.active.slotsAt place,
    i.table.active.Sound i.table.cells i.heap place slot
  /-- Neither two live slots nor a live slot and an entry of the overlay have one content. -/
  contents : (i.contents i.visibleObjects).Nodup
  verify : i.verify.1 = 0
  verifyAndCompare : i.verifyAndCompare.1 = 0

/-- To the problems come the spare objects. -/
theorem verifyAndCompare_fst (i : Interner) : i.verifyAndCompare.1 = i.verify.1 +
    (((tally (i.contents i.visibleObjects)).filter fun (_, copies) => 1 < copies).map
      fun (_, copies) => copies - 1).sum := rfl

theorem tally_filter_of_nodup {strings : List String} (hnodup : strings.Nodup) :
    ((tally strings).filter fun (_, copies) => 1 < copies) = [] := by
  rw [List.filter_eq_nil_iff]
  rintro ⟨s, copies⟩ hmem
  simpa using le_one_of_mem_tally hnodup hmem

theorem verifyAndCompare_of_nodup {i : Interner} (hverify : i.verify.1 = 0)
    (hcontents : (i.contents i.visibleObjects).Nodup) : i.verifyAndCompare.1 = 0 := by
  rw [verifyAndCompare_fst, hverify, tally_filter_of_nodup hcontents]
  rfl

/-- Where nothing is wrong, nothing is recorded. -/
theorem Verified.verifyAndCompare_eq {i : Interner} (h : i.Verified) :
    i.verifyAndCompare = (0, i) := by
  have hproblems : i.table.problems i.heap = [] := List.length_eq_zero_iff.1 h.verify
  have hverify : i.verify = (0, i) := by
    rw [Interner.verify, hproblems]
    rfl
  rw [Interner.verifyAndCompare, hverify]
  dsimp only
  rw [tally_filter_of_nodup h.contents]
  rfl

variable {i : Interner} {m : WeakMap}

/-- What the overlay answers for is not in the table. -/
theorem Keeps.content_ne (h : i.Keeps m) {o p : ObjectId} (ho : o ∈ i.overlay.objects)
    (hp : i.table.Holds i.heap p) :
    i.heap.content o ≠ i.heap.content p := by
  intro hcontent
  have hentry :=
    (h.table.entry (i.heap.content p) p).2 ⟨h.heap ▸ hp, congrArg (Heap.content · p) h.heap⟩
  simp only [WeakMap.without] at hentry
  split at hentry
  · cases hentry
  · next hnone =>
    simp only [Bool.not_eq_true, Option.isSome_eq_false_iff, Option.isNone_iff_eq_none] at hnone
    have := List.find?_eq_none.1 hnone o ho
    simp [hcontent] at this

/-- **Nothing is wrong** with an interner whose table is at rest in a tidy world. -/
theorem Keeps.verified (h : i.Keeps m) {cells : CellStore} {passed : List WeakRef}
    {tasks : List Task}
    (htidy : World.Tidy cells { heap := i.heap, table := i.table, passed, tasks })
    (hoverlay : (i.contents i.overlay.objects).Nodup) (hfree : i.table.owned = false) :
    i.Verified := by
  have hrest := h.steady.rest hfree
  have hslots := htidy.sound hrest
  have hverify : i.verify.1 = 0 := congrArg List.length (Table.problems_eq_nil hrest.sized hslots)
  have hcontents : (i.contents i.visibleObjects).Nodup := by
    rw [Interner.contents, visibleObjects, List.map_append]
    -- The two halves are free of repetitions by themselves; between them stands what the overlay
    -- answers for.
    refine List.nodup_append.2 ⟨hoverlay,
      Table.nodup_contents_liveObjects hrest.still htidy.coherent htidy.sole, ?_⟩
    rintro s hs t ht rfl
    obtain ⟨o, ho, rfl⟩ := List.mem_map.1 hs
    obtain ⟨p, hp, hcontent⟩ := List.mem_map.1 ht
    exact h.content_ne ho (Table.holds_of_mem_liveObjects hp) hcontent.symm
  exact ⟨hslots, hcontents, hverify, verifyAndCompare_of_nodup hverify hcontents⟩

end Interner

end WeakIntern
