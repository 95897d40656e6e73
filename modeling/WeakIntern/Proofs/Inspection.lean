import Mathlib.Data.List.Dedup
import Mathlib.Data.List.Sort
import Mathlib.Data.String.Basic
import WeakIntern.Proofs.Flags
import WeakIntern.Proofs.Verification
/-!
# What verification finds

`Verification` shows that nothing is found where nothing is wrong. Here inserts are misused as well:
a reference may lead to another object than the one that is inserted, that object may be gone, and
the cell may have been given back before. Whatever comes of it, `Table.problems` reports each slot
that has a `Flaw`, once and in order, and nothing else. If there is nothing to report and no content
is live twice, each live slot can be found (`inspected_endure`).
-/

namespace WeakIntern

open scoped List

namespace BucketArray

/-- What can be wrong with a slot in the bucket `place`. -/
inductive Flaw (a : BucketArray) (cells : CellStore) (heap : Heap) (place : Nat) (slot : Slot) :
    SlotProblem → Prop where
  | released (hreleased : cells.isReleased slot.ref = true) :
    Flaw a cells heap place slot (.releasedSlotLinked slot.ref.id)
  | mismatch (o : ObjectId) (hheld : cells.isReleased slot.ref = false)
      (hlive : slot.ref.resolve? heap = some o)
      (hhash : slot.hash ≠ a.epoch.hash (heap.content o)) :
      Flaw a cells heap place slot
        (.hashMismatch (heap.content o) slot.hash (a.epoch.hash (heap.content o)))
  | misplaced (o : ObjectId) (hheld : cells.isReleased slot.ref = false)
      (hlive : slot.ref.resolve? heap = some o)
      (hhash : slot.hash = a.epoch.hash (heap.content o))
        (hplace : slot.hash.toNat &&& (a.size - 1) ≠ place) :
      Flaw a cells heap place slot
        (.misplacedSlot (heap.content o) place (slot.hash.toNat &&& (a.size - 1)))

/-- Of slots, each with its place, those that have a flaw are reported, one after another. -/
inductive Reports (a : BucketArray) (cells : CellStore) (heap : Heap) :
    List (Nat × Slot) → List SlotProblem → Prop where
  | nil : Reports a cells heap [] []
  | flaw {place : Nat} {slot : Slot} {problem : SlotProblem} {slots : List (Nat × Slot)}
      {problems : List SlotProblem} :
      Flaw a cells heap place slot problem → Reports a cells heap slots problems →
      Reports a cells heap ((place, slot) :: slots) (problem :: problems)
  | sound {place : Nat} {slot : Slot} {slots : List (Nat × Slot)} {problems : List SlotProblem} :
      (∀ problem, ¬Flaw a cells heap place slot problem) → Reports a cells heap slots problems →
      Reports a cells heap ((place, slot) :: slots) problems

/-- The slots with their places, bucket by bucket. -/
def placed (a : BucketArray) : List (Nat × Slot) :=
  (List.range a.size).flatMap fun i => (a.slotsAt i).map (Prod.mk i)

variable {a : BucketArray} {cells : CellStore} {heap : Heap} {place : Nat} {slot : Slot}
    {problem : SlotProblem}

theorem mem_placed : (place, slot) ∈ a.placed ↔ slot ∈ a.slotsAt place := by
  simp only [placed, List.mem_flatMap, List.mem_map, List.mem_range, Prod.mk.injEq]
  constructor
  · rintro ⟨i, -, other, hslot, rfl, rfl⟩
    exact hslot
  · intro hslot
    exact ⟨place, lt_size_of_mem hslot, slot, hslot, rfl, rfl⟩

theorem problem?_eq_some_iff (hsized : a.Sized) :
    a.problem? cells heap place slot = some problem ↔ Flaw a cells heap place slot problem := by
  rw [problem?]
  constructor
  · intro h
    split at h
    · next hreleased =>
      cases h
      exact .released hreleased
    · next hheld =>
      rw [Bool.not_eq_true] at hheld
      split at h
      · cases h
      · next o hlive =>
        dsimp only at h
        split at h
        · next hhash =>
          cases h
          exact .mismatch o hheld hlive (Ne.symm hhash)
        · next hhash =>
          split at h
          · next hplace =>
            cases h
            rw [placeOf_eq_and hsized] at hplace ⊢
            exact .misplaced o hheld hlive (Decidable.not_not.1 hhash).symm hplace
          · cases h
  · rintro (hreleased | ⟨o, hheld, hlive, hhash⟩ | ⟨o, hheld, hlive, hhash, hplace⟩)
    · simp [hreleased]
    · simp [hheld, hlive, Ne.symm hhash]
    · rw [← placeOf_eq_and hsized] at hplace ⊢
      simp [hheld, hlive, ← hhash, hplace]

theorem problem?_eq_none_iff (hsized : a.Sized) :
    a.problem? cells heap place slot = none ↔ ∀ problem, ¬Flaw a cells heap place slot problem := by
  simp only [← problem?_eq_some_iff hsized, Option.eq_none_iff_forall_ne_some, ne_eq]

theorem reports_filterMap (hsized : a.Sized) (slots : List (Nat × Slot)) :
    Reports a cells heap slots (slots.filterMap fun (place, slot) =>
      a.problem? cells heap place slot) := by
  induction slots with
  | nil => exact .nil
  | cons head slots ih =>
    obtain ⟨place, slot⟩ := head
    rw [List.filterMap_cons]
    split
    · next hnone => exact .sound ((problem?_eq_none_iff hsized).1 hnone) ih
    · next hsome => exact .flaw ((problem?_eq_some_iff hsized).1 hsome) ih

end BucketArray

namespace Table

variable {t : Table} {heap : Heap} {o : ObjectId} {key : LookupKey}

theorem problems_eq (t : Table) (heap : Heap) :
    t.problems heap = t.active.placed.filterMap fun (place, slot) =>
      t.active.problem? t.cells heap place slot := by
  have hzip : t.active.buckets.toList.zipIdx = (List.range t.active.size).map fun i =>
      (t.active.bucketAt i, i) := by
    rw [BucketArray.toList_buckets]
    refine List.ext_getElem (by simp) fun i _ _ => ?_
    simp
  rw [problems, hzip, BucketArray.placed, List.flatMap_map, List.filterMap_flatMap]
  simp only [List.filterMap_map]
  rfl

theorem reports_problems (hsized : t.active.Sized) (heap : Heap) :
    t.active.Reports t.cells heap t.active.placed (t.problems heap) := by
  rw [problems_eq]
  exact BucketArray.reports_filterMap hsized _

theorem mem_liveObjects : o ∈ t.liveObjects heap ↔
    ∃ place, ∃ slot ∈ t.active.slotsAt place, slot.ref.resolve? heap = some o := by
  rw [liveObjects, BucketArray.liveObjects_eq, List.mem_filterMap]
  simp only [BucketArray.mem_slots]
  constructor
  · rintro ⟨slot, ⟨place, hslot⟩, ho⟩
    exact ⟨place, slot, hslot, ho⟩
  · rintro ⟨place, slot, hslot, ho⟩
    exact ⟨slot, ⟨place, hslot⟩, ho⟩

/-- **A table that nothing is reported of** finds all that is live in it. -/
theorem get?_of_problems_eq_nil (hrest : t.AtRest) (hclean : t.problems heap = [])
    (hdistinct : ((t.liveObjects heap).map heap.content).Nodup) (ho : o ∈ t.liveObjects heap)
    (hkey : key.content heap = heap.content o) : (t.get? heap key).value = some o := by
  obtain ⟨place, slot, hslot, hresolve⟩ := mem_liveObjects.1 ho
  obtain ⟨hreferent, hlive⟩ := resolve?_eq_some_iff.1 hresolve
  have hnone : t.active.problem? t.cells heap place slot = none := by
    rw [problems_eq, List.filterMap_eq_nil_iff] at hclean
    exact hclean (place, slot) (BucketArray.mem_placed.2 hslot)
  have hflaw := (BucketArray.problem?_eq_none_iff hrest.sized).1 hnone
  have hheld : t.cells.isReleased slot.ref = false := by
    rw [← Bool.not_eq_true]
    exact fun hreleased => hflaw _ (.released hreleased)
  have hhash : slot.hash = t.active.epoch.hash (heap.content o) :=
    Classical.byContradiction fun hne => hflaw _ (.mismatch o hheld hresolve hne)
  have hplace : slot.hash.toNat &&& (t.active.size - 1) = place :=
    Classical.byContradiction fun hne => hflaw _ (.misplaced o hheld hresolve hhash hne)
  -- So the slot is in the bucket that the lookup walks.
  rw [← BucketArray.placeOf_eq_and hrest.sized, hhash] at hplace
  have hhome : slot ∈ t.active.slotsAt (t.active.home (key.content heap)) := by
    rw [hkey, BucketArray.home, hplace]
    exact hslot
  rw [get?_still hrest.still]
  cases hfind : t.active.find? heap key with
  | none =>
    refine absurd ?_
      (BucketArray.ne_of_find?_eq_none hfind hhome (hreferent ▸ hlive) (hreferent ▸ hhash))
    rw [hreferent, hkey]
  | some p =>
    obtain ⟨other, hother, hreferent', hlive', hcontent⟩ :=
      BucketArray.exists_of_find?_eq_some hfind
    have hp : p ∈ t.liveObjects heap :=
      mem_liveObjects.2 ⟨_, other, hother, resolve?_eq_some_iff.2 ⟨hreferent', hlive'⟩⟩
    rw [List.inj_on_of_nodup_map hdistinct hp ho (hcontent.trans hkey)]

/-- What a verification of the table says. -/
structure Inspected (t : Table) (heap : Heap) : Prop where
  reports : t.active.Reports t.cells heap t.active.placed (t.problems heap)
  found : t.problems heap = [] → ((t.liveObjects heap).map heap.content).Nodup →
    ∀ o ∈ t.liveObjects heap, (t.get? heap (.text (heap.content o))).value = some o ∧
    (t.get? heap (.object o)).value = some o

theorem AtRest.inspected (hrest : t.AtRest) (heap : Heap) : t.Inspected heap where
  reports := reports_problems hrest.sized heap
  found hclean hdistinct _ ho :=
    ⟨get?_of_problems_eq_nil hrest hclean hdistinct ho rfl,
      get?_of_problems_eq_nil hrest hclean hdistinct ho rfl⟩

end Table

namespace Interner

/-! ## Contents that are met more than once -/

/-- Strings, each as often as it is counted. -/
def spread (counted : List (String × Nat)) : List String :=
  counted.flatMap fun (s, copies) => List.replicate copies s

theorem spread_cons (s : String) (copies : Nat) (rest : List (String × Nat)) :
    spread ((s, copies) :: rest) = List.replicate copies s ++ spread rest := rfl

variable {strings : List String} {groups : List (List String)} {counted : List (String × Nat)}
    {s : String} {copies : Nat}

theorem head?_replicate_of_mem_splitBy {group : List String}
    (h : group ∈ strings.splitBy (· == ·)) :
    ∃ s, group.head? = some s ∧ List.replicate group.length s = group := by
  have hequal := List.isChain_of_mem_splitBy h
  cases group with
  | nil => exact absurd h (List.nil_notMem_splitBy _ _)
  | cons s rest =>
    refine ⟨s, rfl, (List.eq_replicate_iff.2 ⟨rfl, ?_⟩).symm⟩
    have hall : (s :: rest).Pairwise (· = ·) :=
      (hequal.imp fun _ _ hab => beq_iff_eq.1 hab).pairwise
    rintro other (_ | ⟨_, hother⟩)
    · rfl
    · exact ((List.pairwise_cons.1 hall).1 other hother).symm

/-- The groups of a list, counted and spread, are the list again. -/
theorem spread_splitBy (strings : List String) :
    spread ((strings.splitBy (· == ·)).filterMap fun group => group.head?.map fun s =>
      (s, group.length)) = strings := by
  have hgroups : ∀ group ∈ strings.splitBy (· == ·),
      ∃ s, group.head? = some s ∧ List.replicate group.length s = group :=
        fun _ => head?_replicate_of_mem_splitBy
  conv_rhs => rw [← List.flatten_splitBy (· == ·) strings]
  generalize strings.splitBy (· == ·) = groups at hgroups
  induction groups with
  | nil => rfl
  | cons group rest ih =>
    obtain ⟨s, hhead, hgroup⟩ := hgroups group List.mem_cons_self
    rw [List.filterMap_cons, hhead, Option.map_some, List.flatten_cons,
      ← ih fun other h => hgroups other (.tail _ h), spread_cons, hgroup]

/-- The groups of a sorted list ascend. -/
theorem pairwise_heads
    (hchain : groups.IsChain fun a b => ∃ ha hb, (a.getLast ha == b.head hb) = false)
    (hsorted : groups.flatten.Pairwise (· ≤ ·)) :
    (groups.filterMap List.head?).Pairwise (· < ·) := by
  induction groups with
  | nil => exact .nil
  | cons group rest ih =>
    rw [List.flatten_cons, List.pairwise_append] at hsorted
    obtain ⟨hgroup, hrest, hacross⟩ := hsorted
    have hheads := ih hchain.tail hrest
    cases rest with
    | nil => cases group <;> simp [List.filterMap_cons]
    | cons next rest =>
      obtain ⟨⟨hne, hne', hdiffer⟩, -⟩ := List.isChain_cons_cons.1 hchain
      obtain ⟨s, group, rfl⟩ := List.exists_cons_of_ne_nil hne
      obtain ⟨t, next, rfl⟩ := List.exists_cons_of_ne_nil hne'
      have hlast : s ≤ (s :: group).getLast hne := by
        rcases List.mem_cons.1 (List.getLast_mem hne) with heq | hmem
        · exact heq.symm.le
        · exact (List.pairwise_cons.1 hgroup).1 _ hmem
      have hle := hacross _ (List.getLast_mem hne) t (by simp)
      have hlt : s < t := hlast.trans_lt (hle.lt_of_ne (by simpa using hdiffer))
      -- The next head is greater, and those behind it are greater still.
      refine List.pairwise_cons.2 ⟨?_, hheads⟩
      rintro other (_ | ⟨_, hother⟩)
      · exact hlt
      · exact hlt.trans ((List.pairwise_cons.1 hheads).1 other hother)

/-- What a tally of strings is. -/
structure Counts (strings : List String) (counted : List (String × Nat)) : Prop where
  spread : (spread counted).Perm strings
  distinct : (counted.map Prod.fst).Nodup
  pos : ∀ s copies, (s, copies) ∈ counted → 0 < copies

theorem counts_tally (strings : List String) : Counts strings (tally strings) where
  spread := by
    rw [tally, spread_splitBy]
    exact List.mergeSort_perm _ _
  distinct := by
    have hsorted : strings.mergeSort.Pairwise (· ≤ ·) := List.pairwise_mergeSort' (· ≤ ·) strings
    have hheads := pairwise_heads (List.isChain_getLast_head_splitBy (· == ·) strings.mergeSort)
      (by rwa [List.flatten_splitBy])
    rw [tally, List.map_filterMap]
    simp only [Option.map_map, Function.comp_def, Option.map_id']
    exact hheads.imp ne_of_lt
  pos s copies h := by
    obtain ⟨group, hgroup, hcount⟩ := List.mem_filterMap.1 h
    obtain ⟨_, hhead, hpair⟩ := Option.map_eq_some_iff.1 hcount
    cases hpair
    cases group with
    | nil => cases hhead
    | cons => exact Nat.succ_pos _

theorem count_spread (hdistinct : (counted.map Prod.fst).Nodup) (h : (s, copies) ∈ counted) :
    (spread counted).count s = copies := by
  induction counted with
  | nil => cases h
  | cons head rest ih =>
    obtain ⟨t, n⟩ := head
    obtain ⟨hnew, hrest⟩ := List.nodup_cons.1 hdistinct
    rw [spread_cons, List.count_append, List.count_replicate]
    rcases List.mem_cons.1 h with heq | h
    · cases heq
      have hnone : (spread rest).count s = 0 := by
        refine List.count_eq_zero.2 fun hmem => hnew ?_
        obtain ⟨⟨t, n⟩, hpair, hmem⟩ := List.mem_flatMap.1 hmem
        rw [(List.mem_replicate.1 hmem).2]
        exact List.mem_map.2 ⟨_, hpair, rfl⟩
      simp [hnone]
    · have hne : t ≠ s := fun heq => hnew (List.mem_map.2 ⟨_, h, heq.symm⟩)
      simp [hne, ih hrest h]

theorem mem_spread : s ∈ spread counted ↔ ∃ copies, (s, copies) ∈ counted ∧ 0 < copies := by
  simp only [spread, List.mem_flatMap, List.mem_replicate, Prod.exists]
  constructor
  · rintro ⟨t, n, hpair, hn, rfl⟩
    exact ⟨n, hpair, Nat.pos_of_ne_zero hn⟩
  · rintro ⟨n, hpair, hn⟩
    exact ⟨s, n, hpair, hn.ne', rfl⟩

theorem Counts.mem_iff (h : Counts strings counted) :
    (s, copies) ∈ counted ↔ copies = strings.count s ∧ 0 < copies := by
  constructor
  · intro hmem
    exact ⟨(count_spread h.distinct hmem).symm.trans (h.spread.count_eq s), h.pos s copies hmem⟩
  · rintro ⟨rfl, hpos⟩
    obtain ⟨n, hmem, -⟩ := mem_spread.1 (h.spread.mem_iff.2 (List.count_pos_iff.1 hpos))
    rwa [← h.spread.count_eq s, count_spread h.distinct hmem]

theorem Counts.length_eq (h : Counts strings counted) : counted.length = strings.dedup.length := by
  rw [← List.length_map Prod.fst]
  refine List.Perm.length_eq ((List.perm_ext_iff_of_nodup h.distinct strings.nodup_dedup).2
    fun s => ?_)
  rw [List.mem_dedup, ← h.spread.mem_iff, mem_spread]
  simp only [List.mem_map, Prod.exists, exists_and_right, exists_eq_right]
  exact ⟨fun ⟨n, hmem⟩ => ⟨n, hmem, h.pos s n hmem⟩, fun ⟨n, hmem, _⟩ => ⟨n, hmem⟩⟩

/-- What was counted more than once, less one, is what was counted, less one. -/
theorem sum_spare (hpos : ∀ s copies, (s, copies) ∈ counted → 0 < copies) :
    ((counted.filter fun (_, copies) => 1 < copies).map fun (_, copies) => copies - 1).sum +
      counted.length = (spread counted).length := by
  induction counted with
  | nil => rfl
  | cons head rest ih =>
    obtain ⟨s, n⟩ := head
    have hn := hpos s n List.mem_cons_self
    have hrest := ih fun t m h => hpos t m (.tail _ h)
    rw [spread_cons, List.length_append, List.length_replicate, List.filter_cons, List.length_cons]
    by_cases h : 1 < n
    · rw [if_pos (by simpa using h), List.map_cons, List.sum_cons]
      dsimp only at hrest ⊢
      omega
    · rw [if_neg (by simpa using h)]
      omega

/-! ## Reports -/

/-- What is recorded of a problem. -/
def failureOf (p : SlotProblem) : Event := .verificationFailure p.kind p.describe

/-- What is recorded of a content that is met more than once. -/
def repetitionOf : String × Nat → Event
  | (content, copies) => .verificationFailure "duplicate"
    (quoted content ++ " present " ++ toString copies ++ " times")

/-- The contents that are met more than once, and how often. -/
def repeated (i : Interner) : List (String × Nat) :=
  (tally (i.contents i.visibleObjects)).filter fun (_, copies) => 1 < copies

/-- All failures of a verification that compares entries, in order. -/
def failures (i : Interner) : List Event :=
  (i.table.problems i.heap).map failureOf ++ i.repeated.map repetitionOf

theorem foldl_record_map {α : Type} (event : α → Event) (m : Maintenance) (xs : List α) :
    (xs.map event).foldl Maintenance.record m = xs.foldl (fun m x => m.record (event x)) m :=
  List.foldl_map

theorem verify_eq (i : Interner) : i.verify = ((i.table.problems i.heap).length,
    { i with maintenance := ((i.table.problems i.heap).map
      failureOf).foldl Maintenance.record i.maintenance }) := by
  rw [foldl_record_map]
  rfl

theorem verifyAndCompare_snd (i : Interner) :
    i.verifyAndCompare.2 =
      { i with maintenance := i.failures.foldl Maintenance.record i.maintenance } := by
  rw [failures, List.foldl_append, foldl_record_map, foldl_record_map]
  rfl

/-- A failure is recorded whenever the log is switched on, since no log keeps less than errors. -/
theorem events_foldl_record {m : Maintenance} (henabled : m.log.enabled = true)
    {events : List Event} (herror : ∀ e ∈ events, e.level = .error) :
    (events.foldl Maintenance.record m).log.events.toList = m.log.events.toList ++ events := by
  induction events generalizing m with
  | nil => simp
  | cons e rest ih =>
    have hkeeps : m.log.keeps e = true := by
      rw [EventLog.keeps, henabled, herror e List.mem_cons_self]
      simp [Level.passes, Level.rank]
    have henabled' : (m.record e).log.enabled = true := by
      rw [Maintenance.record, EventLog.record, if_pos hkeeps]
      exact henabled
    rw [List.foldl_cons, ih henabled' fun other h => herror other (.tail _ h), Maintenance.record,
      EventLog.events_record, if_pos hkeeps, List.append_assoc, List.singleton_append]

theorem level_of_mem_failures {i : Interner} {e : Event} (h : e ∈ i.failures) :
    e.level = .error := by
  rcases List.mem_append.1 h with h | h
  · obtain ⟨_, -, rfl⟩ := List.mem_map.1 h
    rfl
  · obtain ⟨_, -, rfl⟩ := List.mem_map.1 h
    rfl

/-- What a verification that compares entries says. -/
structure Compared (i : Interner) : Prop where
  verify : i.verify.1 = (i.table.problems i.heap).length
  /-- To the problems come the objects met, less one for each content. -/
  number : i.verifyAndCompare.1 = (i.table.problems i.heap).length +
    ((i.contents i.visibleObjects).length - (i.contents i.visibleObjects).dedup.length)
  /-- Each content that is met more than once is reported once, with the number of its objects. -/
  once : (i.repeated.map Prod.fst).Nodup
  repeated : ∀ s copies, (s, copies) ∈ i.repeated ↔
    copies = (i.contents i.visibleObjects).count s ∧ 1 < copies
  after : i.verifyAndCompare.2 =
    { i with maintenance := i.failures.foldl Maintenance.record i.maintenance }
  recorded : i.log.enabled = true →
    i.verifyAndCompare.2.log.events.toList = i.log.events.toList ++ i.failures

theorem compared (i : Interner) : i.Compared := by
  have hcounts := counts_tally (i.contents i.visibleObjects)
  constructor
  · rfl
  · have hsum := sum_spare hcounts.pos
    rw [hcounts.length_eq, hcounts.spread.length_eq] at hsum
    rw [verifyAndCompare_fst, verify_eq]
    dsimp only at hsum ⊢
    omega
  · exact hcounts.distinct.sublist (List.filter_sublist.map _)
  · intro s copies
    rw [repeated, List.mem_filter, hcounts.mem_iff]
    simp only [decide_eq_true_eq]
    constructor
    · rintro ⟨⟨hcount, -⟩, hmore⟩
      exact ⟨hcount, hmore⟩
    · rintro ⟨hcount, hmore⟩
      exact ⟨⟨hcount, Nat.zero_lt_of_lt hmore⟩, hmore⟩
  · exact verifyAndCompare_snd i
  · intro henabled
    rw [verifyAndCompare_snd]
    exact events_foldl_record henabled fun _ => level_of_mem_failures

end Interner

/-! ## Misused inserts -/

/-- A step in which a reference may also be given back before an insert takes it. -/
inductive Venture where
  | move (m : Move)
  | giveBack (ref : WeakRef)
  deriving DecidableEq, Repr

namespace World

variable {w : World}

/-- Take a step. A reference that is given back by its holder can still be offered. -/
def venture (w : World) : Venture → World
  | .move m => (w.move m).1
  | .giveBack ref => if w.spare.contains ref then { w with table := (w.table.release ref).2 } else w

/-- Take one step after another. -/
def endure (w : World) (ventures : List Venture) : World := ventures.foldl venture w

theorem Orderly.venture (h : w.Orderly) (v : Venture) : (w.venture v).Orderly := by
  cases v with
  | move m => exact h.move m
  | giveBack ref =>
    rw [World.venture]
    split
    · have hcells := h.congr w.heap (w.table.cells.release ref).2 w.spare w.passed
      rw [Table.release]
      dsimp only
      split
      · exact hcells
      · exact hcells.note _
    · exact h

theorem orderly_endure (h : w.Orderly) (ventures : List Venture) : (w.endure ventures).Orderly := by
  induction ventures generalizing w with
  | nil => exact h
  | cons v rest ih => exact ih (h.venture v)

/-- **Verification finds what is wrong**, and all of it, however inserts were misused, whenever no
task is under way; and an interner around the table, with any overlay, reports that and the objects
that are to spare. -/
theorem inspected_endure (settings : Settings) (cells : CellStore) (heap : Heap)
    (ventures : List Venture)
    (hfree : ((start settings cells heap).endure ventures).table.owned = false) :
    ((start settings cells heap).endure ventures).table.Inspected
      ((start settings cells heap).endure ventures).heap ∧
      ∀ i : Interner, Interner.Compared
        { i with
          heap := ((start settings cells heap).endure ventures).heap
          table := ((start settings cells heap).endure ventures).table } :=
  have horderly := orderly_endure (orderly_start settings cells heap) ventures
  ⟨(horderly.atRest_of_free hfree).inspected _, fun _ => Interner.compared _⟩

/-- Two references to one string are passed to inserts of another, the first of them after it was
given back. -/
def damagingVentures : List Venture :=
  [.move (.act (.allocate "a")), .move (.act (.allocate "b")), .move (.acquire ⟨1⟩),
    .giveBack ⟨1, ⟨1⟩⟩, .move (.offer ⟨0⟩ ⟨1, ⟨1⟩⟩), .move (.acquire ⟨1⟩),
    .move (.offer ⟨0⟩ ⟨2, ⟨1⟩⟩)]

theorem inspected_endure_damage :
    ((start oneBucket { name := "cells" } {}).endure damagingVentures).table.problems
        ((start oneBucket { name := "cells" } {}).endure damagingVentures).heap =
      [.releasedSlotLinked 1, .hashMismatch "b" 97 98] ∧
    ((start oneBucket { name := "cells" } {}).endure damagingVentures).table.owned = false ∧
    ((start oneBucket { name := "cells" } {}).endure damagingVentures).table.Inspected
      ((start oneBucket { name := "cells" } {}).endure damagingVentures).heap :=
  ⟨by decide, by decide,
    (inspected_endure oneBucket { name := "cells" } {} damagingVentures (by decide)).1⟩

end World

end WeakIntern
