import WeakIntern.Proofs.Pass
/-!
# Where a lookup and an insert end

A content has one bucket in each array. A lookup reads the one in the active array and, if its slots
were moved on, the one in the next array as well; an insert goes to the first of the two that is not
marked. `insertIfAbsent_inserted` lists all that an insert can come to: in a table that tasks have
worked on it is never stranded.
-/

namespace WeakIntern

/-- What a walk over the bucket of a content finds. -/
def BucketArray.find? (a : BucketArray) (heap : Heap) (key : LookupKey) : Option ObjectId :=
  (walkChain heap (a.epoch.hash (key.content heap)) key (a.slotsAt (a.home (key.content heap)))).1

/-- The slot that an object is linked with in an array. -/
def BucketArray.slotFor (a : BucketArray) (heap : Heap) (o : ObjectId) (ref : WeakRef) : Slot where
  hash := a.epoch.hash (heap.content o)
  ref := ref

namespace BucketArray

variable {a : BucketArray} {heap : Heap} {key : LookupKey} {o : ObjectId}

theorem exists_of_find?_eq_some (h : a.find? heap key = some o) :
    ∃ slot ∈ a.slotsAt (a.home (key.content heap)),
      slot.ref.referent = o ∧ heap.isLive o = true ∧ heap.content o = key.content heap := by
  rw [find?, walkChain_fst] at h
  obtain ⟨slot, hslot, hanswer⟩ := List.exists_of_findSome?_eq_some h
  obtain ⟨-, href, hlive, hcontent⟩ := Slot.answer?_eq_some_iff.1 hanswer
  exact ⟨slot, hslot, href, hlive, hcontent⟩

/-- A bucket in which nothing is found holds no live slot of the content. -/
theorem ne_of_find?_eq_none (h : a.find? heap key = none) {slot : Slot}
    (hslot : slot ∈ a.slotsAt (a.home (key.content heap)))
    (hlive : heap.isLive slot.ref.referent = true)
    (hhash : slot.hash = a.epoch.hash (heap.content slot.ref.referent)) :
    heap.content slot.ref.referent ≠ key.content heap := by
  intro hcontent
  rw [find?, walkChain_fst, List.findSome?_eq_none_iff] at h
  have hanswer : slot.answer? heap (a.epoch.hash (key.content heap)) key = some slot.ref.referent :=
    Slot.answer?_eq_some_iff.2 ⟨by rw [hhash, hcontent], rfl, hlive, hcontent⟩
  rw [h slot hslot] at hanswer
  cases hanswer

theorem Sized.append (h : a.Sized) (slot : Slot) : (a.append slot).Sized := by
  rw [Sized, size_append]
  exact h

theorem Sized.isMoved_append (h : a.Sized) (slot : Slot) (i : Nat) :
    (a.append slot).isMoved i = a.isMoved i :=
  isMoved_link slot (a.placeOf_lt h.pos _) i

theorem mem_appendAll (hsized : a.Sized) {slots : List Slot} {i : Nat} {slot : Slot} :
    slot ∈ (a.appendAll slots).slotsAt i ↔ slot ∈ a.slotsAt i ∨
      (slot ∈ slots ∧ a.placeOf slot.hash = i) := by
  rw [slotsAt_appendAll hsized.pos]
  simp

theorem mem_append_slotFor (hsized : a.Sized) {ref : WeakRef} {i : Nat} {slot : Slot} :
    slot ∈ (a.append (a.slotFor heap o ref)).slotsAt i ↔
      slot ∈ a.slotsAt i ∨ (slot = a.slotFor heap o ref ∧ a.home (heap.content o) = i) := by
  rw [show a.append (a.slotFor heap o ref) = a.appendAll [a.slotFor heap o ref] from rfl,
    mem_appendAll hsized]
  refine or_congr_right ⟨?_, ?_⟩
  · rintro ⟨hslot, hplace⟩
    rw [List.mem_singleton.1 hslot] at hplace ⊢
    exact ⟨rfl, hplace⟩
  · rintro ⟨rfl, hplace⟩
    exact ⟨List.mem_singleton_self _, hplace⟩

end BucketArray

namespace Table

/-- A table that is at rest or that slots are being moved in. -/
inductive Formed (t : Table) : Prop where
  | still (still : t.Still)
  | moving (target : BucketArray) (moving : t.Moving target)

variable {t : Table} {heap : Heap} {o : ObjectId} {ref : WeakRef}

/-! ## Lookups -/

theorem get?_still (h : t.Still) (heap : Heap) (key : LookupKey) :
    (t.get? heap key).value = t.active.find? heap key := by
  have hmark :
      (t.active.bucketAt (t.active.placeOf (t.active.epoch.hash (key.content heap)))).redirected =
        false :=
    h.unmoved _
  rw [get?, h.alone]
  simp only [searchArrays, hmark, Bool.not_false, Bool.or_true, if_true]
  rfl

theorem get?_moving {target : BucketArray} (h : t.Moving target) (heap : Heap) (key : LookupKey) :
    (t.get? heap key).value =
      match t.active.find? heap key with
      | some o => some o
      | none =>
        if t.active.isMoved (t.active.home (key.content heap)) then target.find? heap key
        else none := by
  have hmark :
      (target.bucketAt (target.placeOf (target.epoch.hash (key.content heap)))).redirected =
        false :=
    h.unmoved _
  rw [get?, h.next]
  simp only [searchArrays, hmark, Bool.not_false, Bool.or_true, if_true]
  change _ = match (walkChain heap _ key (t.active.bucketAt _).slots).1 with
    | some o => some o
    | none => if (t.active.bucketAt _).redirected then _ else none
  rw [BucketArray.home]
  cases hfound : (walkChain heap (t.active.epoch.hash (key.content heap)) key
    (t.active.bucketAt (t.active.placeOf (t.active.epoch.hash (key.content heap)))).slots).1 with
  | some o => simp
  | none =>
    cases (t.active.bucketAt (t.active.placeOf (t.active.epoch.hash (key.content heap)))).redirected
      with
    | false => simp
    | true => simp [BucketArray.find?, BucketArray.slotsAt, BucketArray.home]

/-! ## Inserts -/

/-- All that an insert of `o` under `ref` can come to. -/
inductive Inserted (t : Table) (heap : Heap) (o : ObjectId) (ref : WeakRef) :
    Placement → Table → Prop where
  | existing (p : ObjectId) (notices : Array Notice) (a : BucketArray)
      (hmem : a ∈ t.active :: t.successors)
      (hfind : a.find? heap (.object o) = some p) :
      Inserted t heap o ref (.existing p) { t with cells := (t.cells.release ref).2, notices }
  | active (hmark : t.active.isMoved (t.active.home (heap.content o)) = false)
      (hfind : t.active.find? heap (.object o) = none) :
      Inserted t heap o ref .linked
        { t with items := t.items + 1, active := t.active.append (t.active.slotFor heap o ref) }
  | next (target : BucketArray) (moving : t.Moving target)
      (hmark : t.active.isMoved (t.active.home (heap.content o)) = true)
      (hfind : target.find? heap (.object o) = none) :
      Inserted t heap o ref .linked
        { t with items := t.items + 1, successors := [target.append (target.slotFor heap o ref)] }

/-- An array in which the bucket of the content is not marked decides. -/
theorem land_of_not_isMoved {a : BucketArray} (hmark : a.isMoved (a.home (heap.content o)) = false)
    (limit depth : Nat) (rest : List BucketArray) :
    (land heap limit o depth (a :: rest)).value =
      match a.find? heap (.object o) with
      | some p => Landing.occupied p
      | none => Landing.vacant depth (a.home (heap.content o)) (a.epoch.hash (heap.content o)) := by
  have hredirected : (a.bucketAt (a.placeOf (a.epoch.hash (heap.content o)))).redirected =
    false := hmark
  simp only [land, hredirected, Bool.false_eq_true, if_false]
  change _ = match (walkChain heap _ _ (a.bucketAt _).slots).1 with
    | some p => Landing.occupied p
    | none => Landing.vacant depth _ _
  simp only [LookupKey.content, BucketArray.home]
  cases hwalk : walkChain heap (a.epoch.hash (heap.content o)) (.object o)
      (a.bucketAt (a.placeOf (a.epoch.hash (heap.content o)))).slots with
  | mk found visited => cases found <;> rfl

theorem land_of_isMoved {a : BucketArray} (hmark : a.isMoved (a.home (heap.content o)) = true)
    (limit depth : Nat) (rest : List BucketArray) :
    land heap limit o depth (a :: rest) = land heap limit o (depth + 1) rest := by
  have hredirected : (a.bucketAt (a.placeOf (a.epoch.hash (heap.content o)))).redirected = true :=
    hmark
  simp only [land, hredirected, if_true]

theorem insertIfAbsent_inserted (h : t.Formed) (heap : Heap) (o : ObjectId) (ref : WeakRef) :
    Inserted t heap o ref (t.insertIfAbsent heap o ref).1.value
      (t.insertIfAbsent heap o ref).2 := by
  have hrelease := t.release_eq ref
  cases hmark : t.active.isMoved (t.active.home (heap.content o)) with
  | false =>
    have hland := land_of_not_isMoved hmark t.alarmLength 0 t.successors
    cases hfind : t.active.find? heap (.object o) with
    | some p =>
      rw [hfind] at hland
      simp only [insertIfAbsent, hland]
      obtain ⟨notices, hrelease⟩ := hrelease
      rw [hrelease]
      exact .existing p notices t.active List.mem_cons_self hfind
    | none =>
      rw [hfind] at hland
      simp only [insertIfAbsent, hland]
      exact .active hmark hfind
  | true =>
    cases h with
    | still still =>
      rw [still.unmoved] at hmark
      cases hmark
    | moving target moving =>
      have hland : (land heap t.alarmLength o 0 (t.active :: t.successors)).value =
          match target.find? heap (.object o) with
          | some p => Landing.occupied p
          | none =>
            Landing.vacant 1 (target.home (heap.content o))
              (target.epoch.hash (heap.content o)) := by
        rw [land_of_isMoved hmark, moving.next, land_of_not_isMoved (moving.unmoved _)]
      cases hfind : target.find? heap (.object o) with
      | some p =>
        rw [hfind] at hland
        simp only [insertIfAbsent, hland]
        obtain ⟨notices, hrelease⟩ := hrelease
        rw [hrelease]
        refine .existing p notices target ?_ hfind
        rw [moving.next]
        exact List.mem_cons_of_mem _ List.mem_cons_self
      | none =>
        rw [hfind] at hland
        simp only [insertIfAbsent, hland]
        simp only [linkAt, moving.next]
        exact .next target moving hmark hfind

/-! ## The shape of a table after an insert -/

variable {placement : Placement} {t' : Table}

theorem Inserted.sameFrame (h : Inserted t heap o ref placement t') : t.SameFrame t' := by
  cases h with
  | existing p notices a hmem hfind => exact ⟨rfl, rfl, rfl, rfl, rfl, rfl, rfl⟩
  | active hmark hfind => exact ⟨rfl, rfl, rfl, rfl, BucketArray.size_append _ _, rfl, rfl⟩
  | next target moving hmark hfind => exact ⟨rfl, rfl, rfl, rfl, rfl, rfl, rfl⟩

/-- No insert marks a bucket. -/
theorem Inserted.isMoved (h : Inserted t heap o ref placement t')
    (hsized : t.active.Sized) (i : Nat) :
    t'.active.isMoved i = t.active.isMoved i := by
  cases h with
  | existing p notices a hmem hfind => rfl
  | active hmark hfind => exact hsized.isMoved_append _ i
  | next target moving hmark hfind => rfl

theorem Inserted.still (h : Inserted t heap o ref placement t') (hsized : t.active.Sized)
    (hstill : t.Still) :
    t'.Still := by
  refine ⟨?_, fun i => (h.isMoved hsized i).trans (hstill.unmoved i)⟩
  cases h with
  | existing p notices a hmem hfind => exact hstill.alone
  | active hmark hfind => exact hstill.alone
  | next target moving hmark hfind =>
    rw [hstill.unmoved] at hmark
    cases hmark

/-- The marks of the active array, and what is known of the next one, are as before. -/
theorem Inserted.moving (h : Inserted t heap o ref placement t') (hsized : t.active.Sized)
    {target : BucketArray} (hmoving : t.Moving target) :
    ∃ target', t'.Moving target' ∧ target'.log2 = target.log2 ∧
      target'.epoch = target.epoch ∧ t'.active.log2 = t.active.log2 ∧
        t'.active.epoch = t.active.epoch ∧
      ∀ i, t'.active.isMoved i = t.active.isMoved i := by
  cases h with
  | existing p notices a hmem hfind =>
    exact ⟨target, ⟨hmoving.next, hmoving.unmoved, hmoving.sized⟩, rfl, rfl, rfl, rfl, fun i => rfl⟩
  | active hmark hfind =>
    exact ⟨target, ⟨hmoving.next, hmoving.unmoved, hmoving.sized⟩, rfl, rfl, rfl, rfl,
      fun i => hsized.isMoved_append _ i⟩
  | next target' moving' hmark hfind =>
    have heq : target' = target := by
      have hnext := moving'.next.symm.trans hmoving.next
      simpa using hnext
    subst heq
    refine ⟨_, ⟨rfl, ?_, moving'.sized.append _⟩, rfl, rfl, rfl, rfl, fun i => rfl⟩
    intro i
    rw [moving'.sized.isMoved_append]
    exact moving'.unmoved i

theorem Inserted.sized (h : Inserted t heap o ref placement t') (hsized : t.active.Sized) :
    t'.active.Sized := by
  rw [BucketArray.Sized, h.sameFrame.size, h.sameFrame.log2]
  exact hsized

theorem Inserted.atRest (h : Inserted t heap o ref placement t') (hrest : t.AtRest) : t'.AtRest :=
  ⟨h.sameFrame.owned.trans hrest.free, h.still hrest.sized hrest.still, h.sized hrest.sized⟩

/-- A table that a task may have. If none has it, it is at rest. -/
structure Steady (t : Table) : Prop where
  formed : t.Formed
  sized : t.active.Sized
  rest : t.owned = false → t.AtRest

theorem AtRest.steady (h : t.AtRest) : t.Steady := ⟨.still h.still, h.sized, fun _ => h⟩

/-- The cells and the figures have no part in it. -/
theorem Steady.congr (h : t.Steady) (howned : t'.owned = t.owned) (hactive : t'.active = t.active)
    (hsuccessors : t'.successors = t.successors) : t'.Steady where
  formed := by
    cases h.formed with
    | still still => exact .still ⟨hsuccessors.trans still.alone, hactive ▸ still.unmoved⟩
    | moving target moving =>
      exact .moving target ⟨hsuccessors.trans moving.next, moving.unmoved, moving.sized⟩
  sized := hactive ▸ h.sized
  rest hfree := (h.rest (howned ▸ hfree)).congr howned hactive hsuccessors

theorem Inserted.steady (h : Inserted t heap o ref placement t') (hsteady : t.Steady) :
    t'.Steady where
  formed := by
    cases hsteady.formed with
    | still still => exact .still (h.still hsteady.sized still)
    | moving target moving =>
      obtain ⟨target', hmoving, -⟩ := h.moving hsteady.sized moving
      exact .moving target' hmoving
  sized := h.sized hsteady.sized
  rest hfree := h.atRest (hsteady.rest (h.sameFrame.owned ▸ hfree))

end Table

namespace Task

open Table

variable {t t' : Table} {heap : Heap} {o : ObjectId} {ref : WeakRef} {placement : Placement}
    {task : Task}

theorem Halfway.formed {kind : TaskKind} {done : Nat} (h : Halfway kind t done) : t.Formed := by
  cases h with
  | cleaning hkind still => exact .still still
  | moving hkind target moving suits moved => exact .moving target moving

theorem targetArray_congr {kind : TaskKind} {a a' : BucketArray} (hlog2 : a'.log2 = a.log2)
    (hepoch : a'.epoch = a.epoch) : targetArray kind a' = targetArray kind a := by
  cases kind <;> simp only [targetArray, hlog2, hepoch]

theorem Halfway.insert {kind : TaskKind} {done : Nat} (h : Halfway kind t done)
    (hins : Inserted t heap o ref placement t') (hsized : t.active.Sized) :
    Halfway kind t' done := by
  cases h with
  | cleaning hkind still => exact .cleaning hkind (hins.still hsized still)
  | moving hkind target moving suits moved =>
    obtain ⟨target', hmoving, hlog2, hepoch, hlog2', hepoch', hmarks⟩ := hins.moving hsized moving
    obtain ⟨blank, hblank, hblanklog2, hblankepoch⟩ := suits
    have hepoch'' : target'.epoch = blank.epoch := hepoch.trans hblankepoch
    refine .moving hkind target' hmoving ⟨blank, ?_, hlog2.trans hblanklog2, hepoch''⟩ ?_
    · rw [targetArray_congr hlog2' hepoch', hblank]
    · intro i hi
      rw [hmarks]
      exact moved i hi

theorem Drives.insert (h : Drives task t) (hins : Inserted t heap o ref placement t') :
    Drives task t' where
  owned := hins.sameFrame.owned.trans h.owned
  underWay := h.underWay
  hasSource := h.hasSource
  sized := hins.sized h.sized
  cursor_le := by
    rw [Table.size, hins.sameFrame.size]
    exact h.cursor_le
  chunk_pos := h.chunk_pos
  chunk_lt := h.chunk_lt
  halfway := h.halfway.insert hins h.sized

/-- A task that is run where it can, and nowhere else, leaves a table as it should be. -/
theorem steady_run (hsteady : t.Steady) (hlt : t.chunkBuckets < 2 ^ 64) (heap : Heap)
    (kind : TaskKind) :
    (run heap (.new t kind) t).table.Steady ∧
      (run heap (.new t kind) t).table.chunkBuckets = t.chunkBuckets := by
  cases howned : t.owned with
  | true =>
    rw [run_of_owned howned]
    exact ⟨hsteady, rfl⟩
  | false =>
    obtain ⟨hrest, hchunk⟩ := atRest_run (hsteady.rest howned) hlt heap kind
    exact ⟨hrest.steady, hchunk⟩

end Task

end WeakIntern
