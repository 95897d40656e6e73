import WeakIntern.Proofs.Landing
/-!
# The slots that are linked

A slot is *linked* if it is in the active array, or, while slots are being moved, in a bucket of the
active array that is not marked yet or in the next array (`Table.linked`). The slots that a task
leaves behind under a mark are not.

An insert links one slot more or none (`Inserted.recorded`), and all that a task does is to unlink
some slots whose strings are gone and to release their cells (`Reaped`).
-/

namespace WeakIntern

open scoped List

namespace BucketArray

/-- All slots, bucket by bucket. -/
def slots (a : BucketArray) : List Slot := (List.range a.size).flatMap a.slotsAt

/-- The slots in the buckets that are not marked. -/
def waiting (a : BucketArray) : List Slot :=
  (List.range a.size).flatMap fun i => if a.isMoved i then [] else a.slotsAt i

theorem flatMap_range_congr {f g : Nat → List Slot} {n : Nat} (h : ∀ i, i < n → f i = g i) :
    (List.range n).flatMap f = (List.range n).flatMap g := by
  rw [List.flatMap_def, List.flatMap_def, List.map_congr_left fun i hi => h i (List.mem_range.1 hi)]

/-- One bucket of many gives some of its slots up. -/
theorem flatMap_range_perm {f g : Nat → List Slot} (gone : List Slot) {n i : Nat} (hi : i < n)
    (hbucket : (f i).Perm (gone ++ g i)) (hothers : ∀ j, j ≠ i → f j = g j) :
    ((List.range n).flatMap f).Perm (gone ++ (List.range n).flatMap g) := by
  induction n with
  | zero => exact absurd hi (Nat.not_lt_zero i)
  | succ n ih =>
    rw [List.range_succ, List.flatMap_append, List.flatMap_append, List.flatMap_singleton,
      List.flatMap_singleton]
    by_cases hin : i = n
    · subst hin
      have hbelow : (List.range i).flatMap f = (List.range i).flatMap g :=
        flatMap_range_congr fun j hj => hothers j (Nat.ne_of_lt hj)
      rw [hbelow]
      exact (hbucket.append_left _).trans (List.perm_append_comm_assoc _ _ _)
    · have hbelow := ih (by omega)
      rw [hothers n (Ne.symm hin), ← List.append_assoc]
      exact hbelow.append_right _

theorem mem_slots {a : BucketArray} {slot : Slot} : slot ∈ a.slots ↔ ∃ i, slot ∈ a.slotsAt i := by
  simp only [slots, List.mem_flatMap, List.mem_range]
  exact ⟨fun ⟨i, _, hslot⟩ => ⟨i, hslot⟩, fun ⟨i, hslot⟩ => ⟨i, lt_size_of_mem hslot, hslot⟩⟩

theorem waiting_of_unmoved {a : BucketArray} (h : a.Unmoved) : a.waiting = a.slots := by
  rw [waiting, slots]
  exact flatMap_range_congr fun i _ => by rw [h i]; rfl

theorem waiting_of_moved {a : BucketArray} (h : ∀ i, i < a.size → a.isMoved i = true) :
    a.waiting = [] := by
  rw [waiting, List.flatMap_eq_nil_iff]
  intro i hi
  rw [h i (List.mem_range.1 hi), if_pos rfl]

theorem slots_empty (log2 : Nat) (epoch : Epoch) : (empty log2 epoch).slots = [] := by
  rw [slots, List.flatMap_eq_nil_iff]
  exact fun i _ => slotsAt_empty log2 epoch i

/-- A slot more, in whichever bucket. -/
theorem slots_append {a : BucketArray} (h : a.Sized) (slot : Slot) :
    (a.append slot).slots.Perm (slot :: a.slots) := by
  rw [slots, slots, size_append]
  refine flatMap_range_perm [slot] (a.placeOf_lt h.pos slot.hash) ?_ ?_
  · rw [slotsAt_append h.pos, if_pos rfl]
    exact List.perm_append_comm
  · intro j hj
    rw [slotsAt_append h.pos, if_neg (Ne.symm hj)]

theorem slots_appendAll {a : BucketArray} (h : a.Sized) (more : List Slot) :
    (a.appendAll more).slots.Perm (more ++ a.slots) := by
  induction more generalizing a with
  | nil => exact .refl _
  | cons slot rest ih =>
    rw [appendAll_cons]
    exact (ih (h.append slot)).trans
      (((slots_append h slot).append_left rest).trans List.perm_middle)

theorem waiting_append {a : BucketArray} (h : a.Sized) (slot : Slot)
    (hmark : a.isMoved (a.placeOf slot.hash) = false) :
    (a.append slot).waiting.Perm (slot :: a.waiting) := by
  rw [waiting, waiting, size_append]
  refine flatMap_range_perm [slot] (a.placeOf_lt h.pos slot.hash) ?_ ?_
  · rw [h.isMoved_append, slotsAt_append h.pos, hmark, if_pos rfl]
    exact List.perm_append_comm
  · intro j hj
    rw [h.isMoved_append, slotsAt_append h.pos, if_neg (Ne.symm hj)]

/-- The slots of a bucket that gets its mark wait no longer. -/
theorem waiting_redirect {a : BucketArray} {index : Nat} (hindex : index < a.size)
    (hmark : a.isMoved index = false) :
    a.waiting.Perm (a.slotsAt index ++ (a.redirect index).waiting) := by
  rw [waiting, waiting, size_redirect]
  refine flatMap_range_perm _ hindex ?_ ?_
  · rw [hmark, isMoved_redirect hindex, if_pos rfl]
    exact .of_eq (List.append_nil _).symm
  · intro j hj
    rw [isMoved_redirect hindex, if_neg (Ne.symm hj), slotsAt_redirect hindex]

theorem dead_append_live (heap : Heap) (slots : List Slot) :
    slots.Perm (deadSlots heap slots ++ liveSlots heap slots) :=
  (List.filter_append_perm _ slots).symm

theorem slots_cleaned {a : BucketArray} {index : Nat} (hindex : index < a.size) (heap : Heap) :
    a.slots.Perm (deadSlots heap (a.slotsAt index) ++
      (a.setSlots index (liveSlots heap (a.slotsAt index))).slots) := by
  rw [slots, slots, size_setSlots]
  refine flatMap_range_perm _ hindex ?_ ?_
  · rw [slotsAt_setSlots _ hindex, if_pos rfl]
    exact dead_append_live heap _
  · intro j hj
    rw [slotsAt_setSlots _ hindex, if_neg (Ne.symm hj)]

end BucketArray

namespace Table

/-- The slots that are linked. -/
def linked (t : Table) : List Slot :=
  match t.successors with
  | [] => t.active.slots
  | target :: _ => t.active.waiting ++ target.slots

/-- The references of the slots that are linked. -/
def linkedRefs (t : Table) : List WeakRef := t.linked.map Slot.ref

variable {t t' : Table} {heap : Heap} {o : ObjectId} {ref : WeakRef}

theorem linked_still (h : t.Still) : t.linked = t.active.slots := by
  rw [linked, h.alone]

theorem linked_moving {target : BucketArray} (h : t.Moving target) :
    t.linked = t.active.waiting ++ target.slots := by
  rw [linked, h.next]

theorem length_linkedRefs (t : Table) : t.linkedRefs.length = t.linked.length := List.length_map _

/-- The reference is in a slot, be it a slot that was left behind under a mark. -/
def Carries (t : Table) (r : WeakRef) : Prop :=
  ∃ a ∈ t.active :: t.successors, ∃ i, ∃ slot ∈ a.slotsAt i, slot.ref = r

/-- What is linked is in a slot. -/
theorem carries_of_mem_linkedRefs {r : WeakRef} (hr : r ∈ t.linkedRefs) : t.Carries r := by
  obtain ⟨slot, hslot, rfl⟩ := List.mem_map.1 hr
  rw [linked] at hslot
  split at hslot
  · obtain ⟨i, hslot⟩ := BucketArray.mem_slots.1 hslot
    exact ⟨t.active, List.mem_cons_self, i, slot, hslot, rfl⟩
  · next target rest hnext =>
    rcases List.mem_append.1 hslot with hslot | hslot
    · obtain ⟨i, -, hslot⟩ := List.mem_flatMap.1 hslot
      split at hslot
      · cases hslot
      · exact ⟨t.active, List.mem_cons_self, i, slot, hslot, rfl⟩
    · obtain ⟨i, hslot⟩ := BucketArray.mem_slots.1 hslot
      exact ⟨target, List.mem_cons_of_mem _ (hnext ▸ List.mem_cons_self), i, slot, hslot, rfl⟩

/-! ## Inserts -/

/-- What an insert does to the linked slots, the cells and the number of items. -/
def Recorded (t : Table) (ref : WeakRef) (t' : Table) : Placement → Prop
  | .existing _ => t'.linkedRefs = t.linkedRefs ∧ t'.cells = (t.cells.release ref).2 ∧
    t'.items = t.items
  | .linked =>
    t'.linkedRefs.Perm (ref :: t.linkedRefs) ∧ t'.cells = t.cells ∧ t'.items = t.items + 1
  | .stranded => False

/-- **An insert** links the reference or gives it back. -/
theorem Inserted.recorded {placement : Placement} (h : Inserted t heap o ref placement t')
    (hformed : t.Formed) (hsized : t.active.Sized) : Recorded t ref t' placement := by
  cases h with
  | existing p notices a hmem hfind => exact ⟨rfl, rfl, rfl⟩
  | active hmark hfind =>
    refine ⟨?_, rfl, rfl⟩
    suffices hlinked : (linked { t with
        items := t.items + 1, active := t.active.append (t.active.slotFor heap o ref) }).Perm
        (t.active.slotFor heap o ref :: t.linked) from hlinked.map Slot.ref
    cases hformed with
    | still still =>
      rw [linked_still still, linked, still.alone]
      exact BucketArray.slots_append hsized _
    | moving target moving =>
      rw [linked_moving moving, linked, moving.next]
      exact (BucketArray.waiting_append hsized (t.active.slotFor heap o ref) hmark).append_right _
  | next target moving hmark hfind =>
    refine ⟨?_, rfl, rfl⟩
    suffices hlinked : (linked { t with
        items := t.items + 1, successors := [target.append (target.slotFor heap o ref)] }).Perm
        (target.slotFor heap o ref :: t.linked) from hlinked.map Slot.ref
    rw [linked_moving moving]
    exact ((BucketArray.slots_append moving.sized _).append_left _).trans List.perm_middle

/-! ## Tasks -/

/-- A later table, from which the slots of some references were unlinked and their cells given
back. -/
structure Reaped (heap : Heap) (t t' : Table) (dead : List WeakRef) : Prop where
  linked : t.linkedRefs.Perm (dead ++ t'.linkedRefs)
  cells : t'.cells = t.cells.releaseAll dead
  items : t'.items = t.items - .ofNat dead.length
  gone : ∀ r ∈ dead, r.isDead heap = true

theorem Reaped.refl (heap : Heap) (t : Table) : Reaped heap t t [] where
  linked := .refl _
  cells := rfl
  items := by simp
  gone _ hr := absurd hr List.not_mem_nil

theorem Reaped.of_eq (heap : Heap) (hlinked : t'.linked = t.linked) (hcells : t'.cells = t.cells)
    (hitems : t'.items = t.items) : Reaped heap t t' [] where
  linked := by rw [linkedRefs, linkedRefs, hlinked]; exact .refl _
  cells := hcells
  items := by simp [hitems]
  gone _ hr := absurd hr List.not_mem_nil

theorem Reaped.trans {t'' : Table} {dead dead' : List WeakRef} (h : Reaped heap t t' dead)
    (h' : Reaped heap t' t'' dead') : Reaped heap t t'' (dead ++ dead') where
  linked := by
    rw [List.append_assoc]
    exact h.linked.trans (h'.linked.append_left dead)
  cells := by
    rw [h'.cells, h.cells, CellStore.releaseAll, CellStore.releaseAll, CellStore.releaseAll,
      List.foldl_append]
  items := by
    rw [h'.items, h.items, List.length_append, UInt64.ofNat_add]
    grind
  gone r hr := (List.mem_append.1 hr).elim (h.gone r) (h'.gone r)

theorem gone_deadSlots (heap : Heap) (slots : List Slot) :
    ∀ r ∈ (deadSlots heap slots).map Slot.ref, r.isDead heap = true := by
  intro r hr
  obtain ⟨slot, hslot, rfl⟩ := List.mem_map.1 hr
  exact (List.mem_filter.1 hslot).2

/-- **A bucket that is cleaned** loses its dead slots. -/
theorem reaped_reapBucket (still : t.Still) {index : Nat} (hindex : index < t.size) (heap : Heap)
    (task : Task) :
    Reaped heap t (Task.reapBucket heap task t index).2
      ((deadSlots heap (t.active.slotsAt index)).map Slot.ref) := by
  obtain ⟨notices, heq⟩ := Task.reapBucket_eq heap task t index
  rw [heq]
  refine ⟨?_, rfl, by rw [List.length_map], gone_deadSlots heap _⟩
  rw [linkedRefs, linkedRefs, linked_still still, linked, still.alone, ← List.map_append]
  exact (BucketArray.slots_cleaned hindex heap).map Slot.ref

/-- **A bucket that is moved** leaves its dead slots behind. -/
theorem reaped_migrateBucket {target : BucketArray} (moving : t.Moving target) {index : Nat}
    (hindex : index < t.size) (hmark : t.active.isMoved index = false) (heap : Heap) (task : Task) :
    Reaped heap t (Task.migrateBucket heap task t index).2
      ((deadSlots heap (t.active.slotsAt index)).map Slot.ref) := by
  obtain ⟨notices, heq⟩ := Task.migrateBucket_eq heap task moving.next index
  rw [heq]
  refine ⟨?_, rfl, by rw [List.length_map], gone_deadSlots heap _⟩
  rw [linkedRefs, linkedRefs, linked_moving moving, linked]
  dsimp only
  have hcarried :
      (((liveSlots heap (t.active.slotsAt index)).map (carried heap t.active target)).map
        Slot.ref) =
      (liveSlots heap (t.active.slotsAt index)).map Slot.ref := by
    rw [List.map_map]
    rfl
  have hwaiting := (BucketArray.waiting_redirect hindex hmark).map Slot.ref
  have hparts := (BucketArray.dead_append_live heap (t.active.slotsAt index)).map Slot.ref
  have htarget := (BucketArray.slots_appendAll moving.sized
    ((liveSlots heap (t.active.slotsAt index)).map (carried heap t.active target))).map Slot.ref
  simp only [List.map_append, hcarried] at hwaiting hparts htarget ⊢
  generalize (liveSlots heap (t.active.slotsAt index)).map Slot.ref = live at *
  generalize (deadSlots heap (t.active.slotsAt index)).map Slot.ref = dead at *
  generalize (t.active.redirect index).waiting.map Slot.ref = rest at *
  generalize target.slots.map Slot.ref = next at *
  calc t.active.waiting.map Slot.ref ++ next
    _ ~ (t.active.slotsAt index).map Slot.ref ++ rest ++ next := hwaiting.append_right _
    _ ~ dead ++ live ++ rest ++ next := (hparts.append_right _).append_right _
    _ = dead ++ (live ++ (rest ++ next)) := by simp only [List.append_assoc]
    _ ~ dead ++ (rest ++ (live ++ next)) :=
      (List.perm_append_comm_assoc live rest next).append_left _
    _ ~ _ := (htarget.symm.append_left _).append_left _

theorem linked_prepare (still : t.Still) {task task' : Task}
    (hprepare : task.prepare t = some (task', t')) :
    t'.linked = t.linked := by
  obtain ⟨-, -, -, -, rfl⟩ := Task.prepare_eq_some hprepare
  by_cases hkind : task.kind = .bulkDelete
  · simp only [hkind, Task.targetArray]
    rfl
  · obtain ⟨log2, epoch, htarget⟩ := Task.targetArray_ne_bulkDelete hkind t.active
    rw [linked_still still, linked]
    simp only [htarget, BucketArray.slots_empty, BucketArray.waiting_of_unmoved still.unmoved,
      List.append_nil]

theorem reaped_prepare (still : t.Still) {task task' : Task} (heap : Heap)
    (hprepare : task.prepare t = some (task', t')) : Reaped heap t t' [] := by
  have hlinked := linked_prepare still hprepare
  obtain ⟨-, -, -, -, rfl⟩ := Task.prepare_eq_some hprepare
  exact .of_eq heap hlinked rfl rfl

theorem reaped_finish {task : Task} (hdrives : task.Drives t) (hend : task.cursor = t.size)
    (heap : Heap) :
    Reaped heap t (task.finish t).2.2 [] := by
  cases hdrives.halfway with
  | cleaning hkind still =>
    rw [Task.finish, Task.publish_cleaning hkind]
    exact .of_eq heap rfl rfl rfl
  | moving hkind target moving suits moved =>
    rw [Task.finish, Task.publish_moving hkind moving.next]
    refine .of_eq heap ?_ rfl rfl
    rw [linked_moving moving, BucketArray.waiting_of_moved fun i hi => moved i (hend ▸ hi)]
    rfl

end Table

namespace Task

variable {heap : Heap} {task : Task} {t : Table}

/-- No bucket from an index on is marked; a task that moves nothing never marks any. -/
def Ahead (kind : TaskKind) (t : Table) (index : Nat) : Prop :=
  ∀ i, kind = .bulkDelete ∨ index ≤ i → t.active.isMoved i = false

theorem ahead_of_unmoved {kind : TaskKind} (h : t.active.Unmoved) (index : Nat) :
    Ahead kind t index := fun i _ => h i

theorem Ahead.processBucket {kind : TaskKind} {index : Nat} (h : Ahead kind t index)
    (hhalfway : Halfway kind t index) (hindex : index < t.size) (htask : task.kind = kind) :
    Ahead kind (Task.processBucket heap (task, t) index).2 (index + 1) := by
  intro i hi
  cases hhalfway with
  | cleaning hkind still =>
    obtain ⟨_, heq⟩ := reapBucket_eq heap task t index
    rw [processBucket_cleaning hkind heap htask, heq]
    dsimp only
    rw [BucketArray.isMoved_setSlots _ hindex]
    exact still.unmoved i
  | moving hkind target moving suits moved =>
    obtain ⟨_, heq⟩ := migrateBucket_eq heap task moving.next index
    rw [processBucket_moving hkind heap htask, heq]
    have hlt : index + 1 ≤ i := hi.resolve_left hkind
    dsimp only
    rw [BucketArray.isMoved_redirect hindex, if_neg (by omega)]
    exact h i (.inr (by omega))

/-- What a task has unlinked on the way from one table to another, and counted. -/
def Swept (heap : Heap) (task : Task) (t : Table) (task' : Task) (t' : Table) : Prop :=
  ∃ dead, Table.Reaped heap t t' dead ∧ task'.reclaimed = task.reclaimed + dead.length

theorem Swept.refl (heap : Heap) (task : Task) (t : Table) : Swept heap task t task t :=
  ⟨[], .refl heap t, rfl⟩

theorem Swept.trans {task' task'' : Task} {t' t'' : Table} (h : Swept heap task t task' t')
    (h' : Swept heap task' t' task'' t'') : Swept heap task t task'' t'' := by
  obtain ⟨dead, hreaped, hcount⟩ := h
  obtain ⟨dead', hreaped', hcount'⟩ := h'
  exact ⟨dead ++ dead', hreaped.trans hreaped',
    by rw [hcount', hcount, List.length_append, Nat.add_assoc]⟩

theorem swept_processBucket {kind : TaskKind} {index : Nat} (hahead : Ahead kind t index)
    (hhalfway : Halfway kind t index) (hindex : index < t.size) (htask : task.kind = kind) :
    Swept heap task t (processBucket heap (task, t) index).1
      (processBucket heap (task, t) index).2 := by
  refine ⟨(deadSlots heap (t.active.slotsAt index)).map Slot.ref, ?_⟩
  rw [List.length_map]
  cases hhalfway with
  | cleaning hkind still =>
    rw [processBucket_cleaning hkind heap htask]
    refine ⟨Table.reaped_reapBucket still hindex heap task, ?_⟩
    obtain ⟨_, heq⟩ := reapBucket_eq heap task t index
    rw [heq]
    rfl
  | moving hkind target moving suits moved =>
    rw [processBucket_moving hkind heap htask]
    refine ⟨Table.reaped_migrateBucket moving hindex
      (hahead index (.inr (Nat.le_refl _))) heap task, ?_⟩
    obtain ⟨_, heq⟩ := migrateBucket_eq heap task moving.next index
    rw [heq]
    rfl

/-- The pass so far has unlinked dead slots only, and marked no bucket ahead of it. -/
def Advanced (heap : Heap) (task₀ : Task) (t₀ : Table) (index : Nat) (task : Task)
    (t : Table) : Prop :=
  Ahead task₀.kind t index ∧ Swept heap task₀ t₀ task t

theorem Advanced.processBucket {task₀ : Task} {t₀ : Table} {index : Nat} (hindex : index < t₀.size)
    (hstage : Stage task₀ t₀ index task t) (h : Advanced heap task₀ t₀ index task t) :
    Advanced heap task₀ t₀ (index + 1) (Task.processBucket heap (task, t) index).1
      (Task.processBucket heap (task, t) index).2 := by
  obtain ⟨hahead, hswept⟩ := h
  have hlt : index < t.size := by
    rw [Table.size, hstage.frame.size]
    exact hindex
  exact ⟨hahead.processBucket hstage.halfway hlt hstage.same.kind,
    hswept.trans (swept_processBucket hahead hstage.halfway hlt hstage.same.kind)⟩

/-- A task that does not go back need not forget what is ahead of it. -/
theorem antitone_advanced (hback : task.goesBack = false) (hwraps : task.wraps = true) :
    Antitone (Advanced heap task t) := by
  rintro i j task' t' hij ⟨hahead, hswept⟩
  have hkind : task.kind = .bulkDelete := by
    rw [goesBack, hwraps, Bool.and_true, decide_eq_false_iff_not] at hback
    simpa using hback
  exact ⟨fun k _ => hahead k (.inl hkind), hswept⟩

theorem Drives.advanced_processChunk (h : Drives task t) (hback : task.goesBack = false)
    (hahead : Ahead task.kind t task.cursor) (heap : Heap) :
    Advanced heap task t (Task.processChunk heap task t).1.cursor (Task.processChunk heap task t).1
      (Task.processChunk heap task t).2 :=
  (h.processChunk_induction (P := Advanced heap task t)
    (fun _ _ _ hindex hstage hadvanced => hadvanced.processBucket hindex hstage)
    (fun _ _ _ _ hadvanced => hadvanced) (antitone_advanced hback) ⟨hahead, .refl heap task t⟩).1

theorem Drives.swept_complete (h : Drives task t) (hback : task.goesBack = false)
    (hahead : Ahead task.kind t task.cursor) (heap : Heap) :
    ∃ dead, Table.Reaped heap t (complete heap task t).2.2.2 dead := by
  obtain ⟨task', t', heq, ⟨-, dead, hreaped, -⟩, hdrives, hend, -⟩ :=
    h.complete_induction (P := Advanced heap task t)
      (fun _ _ _ hindex hstage hadvanced => hadvanced.processBucket hindex hstage)
      (fun _ _ _ _ hadvanced => hadvanced) (antitone_advanced hback) ⟨hahead, .refl heap task t⟩
  rw [heq]
  exact ⟨dead ++ [], hreaped.trans (Table.reaped_finish hdrives hend heap)⟩

theorem Drives.swept_abandon (h : Drives task t) (hback : task.goesBack = false)
    (hahead : Ahead task.kind t task.cursor) (heap : Heap) :
    ∃ dead, Table.Reaped heap t (abandon heap task t) dead := by
  obtain ⟨dead, hreaped⟩ := h.resumed.swept_complete hback hahead heap
  have hnotify : Table.Reaped heap t (t.notify task.abandonNotice) [] := .of_eq heap rfl rfl rfl
  rw [abandon_eq h]
  exact ⟨[] ++ dead, hnotify.trans hreaped⟩

/-- A task that is run from its start to its end unlinks dead slots only. -/
theorem swept_run (hrest : t.AtRest) (hlt : t.chunkBuckets < 2 ^ 64) (heap : Heap)
    (kind : TaskKind) :
    ∃ dead, Table.Reaped heap t (run heap (.new t kind) t).table dead := by
  rw [run]
  cases hprepare : (new t kind).prepare t with
  | none => exact ⟨[], .refl heap t⟩
  | some pair =>
    obtain ⟨task', t'⟩ := pair
    have hdrives := drives_prepare_new hprepare hrest hlt
    have hprepared := Table.reaped_prepare hrest.still heap hprepare
    obtain ⟨-, -, -, rfl, rfl⟩ := prepare_eq_some hprepare
    have hback : goesBack { new t kind with state := .running, hasSource := true } = false := by
      have hwraps : wraps { new t kind with state := .running, hasSource := true } = false := by
        rw [wraps, decide_eq_false_iff_not]
        show ¬ 2 ^ 64 ≤ 0 + max 1 t.chunkBuckets
        omega
      rw [goesBack, hwraps, Bool.and_false]
    obtain ⟨dead, hreaped⟩ :=
      hdrives.swept_complete hback (ahead_of_unmoved hrest.still.unmoved _) heap
    exact ⟨[] ++ dead, hprepared.trans hreaped⟩

end Task

end WeakIntern
