import WeakIntern.Proofs.Figures
import WeakIntern.Proofs.WeakMap
/-!
# A task is one pass

A task goes over a table chunk by chunk, but what it leaves behind is what one pass over all slots
leaves, bucket by bucket and in their order (`Task.OnePass`): dead slots are gone, and live ones
follow each other as before, in their bucket or in the one that their new hash selects. The size of
the chunks shows in the number of pauses only. A bulk delete right afterwards finds nothing to do.
-/

namespace WeakIntern

open scoped List

namespace CellStore

variable {store : CellStore} {r r' : WeakRef}

/-- A release, refused or not, marks one handle and leaves the others alone. -/
theorem handle?_release_eq (store : CellStore) (r r' : WeakRef) : (store.release r).2.handle? r' =
    (store.handle? r').map fun handle =>
      { handle with released := handle.released || decide (r.id = r'.id) } := by
  rw [release]
  split
  · next hreleased =>
    show store.handle? r' = _
    cases hhandle : store.handle? r' with
    | none => rfl
    | some handle =>
      by_cases hsame : r.id = r'.id
      · rw [isReleased, handle?, hsame, ← handle?, hhandle, Option.any_some] at hreleased
        obtain ⟨referent, released, marked⟩ := handle
        cases hreleased
        simp
      · simp [hsame]
  · refine (Handle.at?_update _ _ _ _).trans ?_
    split
    · next hsame => simp [handle?, hsame]
    · next hother => simp [handle?, hother]

theorem handle?_releaseAll (store : CellStore) (refs : List WeakRef) (r' : WeakRef) :
    (store.releaseAll refs).handle? r' =
      (store.handle? r').map fun handle =>
        { handle with released := handle.released || refs.any fun r => r.id = r'.id } := by
  induction refs generalizing store with
  | nil => simp [releaseAll]
  | cons r rest ih =>
    rw [releaseAll, List.foldl_cons]
    change (releaseAll _ rest).handle? r' = _
    rw [ih, handle?_release_eq, Option.map_map]
    simp only [Function.comp_def, List.any_cons, Bool.or_assoc]

end CellStore

/-! ## Slots in order -/

theorem liveSlots_append (heap : Heap) (slots more : List Slot) :
    liveSlots heap (slots ++ more) = liveSlots heap slots ++ liveSlots heap more :=
  List.filter_append ..

/-- The slots of the buckets below an index. -/
def BucketArray.slotsBelow (a : BucketArray) (index : Nat) : List Slot :=
  (List.range index).flatMap a.slotsAt

theorem BucketArray.slotsBelow_succ (a : BucketArray) (index : Nat) :
    a.slotsBelow (index + 1) = a.slotsBelow index ++ a.slotsAt index := by
  simp [slotsBelow, List.range_succ]

/-- A slot under the hash that a task of this kind gives it. -/
def TaskKind.rehashed (heap : Heap) (slot : Slot) : TaskKind → Slot
  | .rehash seed =>
    { slot with hash := (Epoch.alternate seed).hash (heap.content slot.ref.referent) }
  | .grow | .bulkDelete => slot

namespace Task

variable {heap : Heap} {kind : TaskKind} {task : Task} {t t₀ : Table} {blank : BucketArray}
    {index : Nat}

/-- Slots that have the hash of their string are carried under the hash of the new epoch, even if it
is the old one. -/
theorem carried_eq_rehashed (htarget : targetArray kind t₀.active = some blank)
    (hplaced : t₀.active.Placed heap) {slot : Slot} {i : Nat} (hslot : slot ∈ t₀.active.slotsAt i) :
    carried heap t₀.active blank slot = kind.rehashed heap slot := by
  have hhash := (hplaced i slot hslot).hash
  cases kind with
  | bulkDelete => cases htarget
  | grow =>
    cases htarget
    rw [carried, if_pos (by rfl)]
    rfl
  | rehash seed =>
    cases htarget
    rw [carried, TaskKind.rehashed]
    split
    · next hepoch =>
      rw [hhash, ← hepoch]
      rfl
    · rfl

/-- What is behind the active array when the buckets below an index are done with. -/
def behind (heap : Heap) (kind : TaskKind) (t₀ : Table) (index : Nat) : Option BucketArray :=
  (targetArray kind t₀.active).map fun blank =>
    blank.appendAll
      ((liveSlots heap (t₀.active.slotsBelow index)).map (carried heap t₀.active blank))

/-- A task has been over the buckets of `t₀` below an index, in their order. -/
structure Passed (heap : Heap) (kind : TaskKind) (t₀ : Table) (index : Nat) (t : Table) : Prop where
  slots : ∀ j, t.active.slotsAt j =
    if kind = .bulkDelete ∧ j < index then liveSlots heap (t₀.active.slotsAt j)
      else t₀.active.slotsAt j
  next : t.successors = (behind heap kind t₀ index).toList

theorem Passed.processBucket (h : Passed heap kind t₀ index t) (hhalfway : Halfway kind t index)
    (hindex : index < t.size) (htask : task.kind = kind)
    (hepoch : t.active.epoch = t₀.active.epoch) :
    Passed heap kind t₀ (index + 1) (Task.processBucket heap (task, t) index).2 := by
  have hbucket : t.active.slotsAt index = t₀.active.slotsAt index := by
    rw [h.slots, if_neg (by omega)]
  cases hhalfway with
  | cleaning hkind still =>
    obtain ⟨_, heq⟩ := reapBucket_eq heap task t index
    rw [processBucket_cleaning hkind heap htask, heq]
    constructor
    · intro j
      dsimp only
      rw [BucketArray.slotsAt_setSlots _ hindex]
      by_cases hj : index = j
      · subst hj
        rw [if_pos rfl, if_pos ⟨hkind, Nat.lt_succ_self _⟩, hbucket]
      · rw [if_neg hj, h.slots]
        simp only [hkind, true_and]
        congr 1
        exact propext ⟨fun hlt => by omega, fun hlt => by omega⟩
    · simp only [still.alone, behind, hkind, targetArray]
      rfl
  | moving hkind target moving suits moved =>
    obtain ⟨_, heq⟩ := migrateBucket_eq heap task moving.next index
    rw [processBucket_moving hkind heap htask, heq]
    obtain ⟨log2, epoch, htarget⟩ := targetArray_ne_bulkDelete hkind t₀.active
    have hnext := h.next
    simp only [moving.next, behind, htarget, Option.map_some, Option.toList_some, List.cons.injEq,
      and_true] at hnext
    constructor
    · intro j
      dsimp only
      rw [BucketArray.slotsAt_redirect hindex, h.slots]
      simp only [hkind, false_and]
    · have hcarried : carried heap t.active target =
          carried heap t₀.active (.empty log2 epoch) := by
        funext slot
        rw [carried, carried, hnext, BucketArray.epoch_appendAll, hepoch]
      simp only [behind, htarget, Option.map_some, Option.toList_some, List.cons.injEq, and_true]
      rw [hcarried, hnext, hbucket, BucketArray.slotsBelow_succ, liveSlots_append, List.map_append,
        BucketArray.appendAll, BucketArray.appendAll, BucketArray.appendAll, List.foldl_append]

theorem passed_prepare {task' : Task} (still : t.Still)
    (hprepare : task.prepare t = some (task', t₀)) :
    Passed heap task.kind t 0 t₀ := by
  obtain ⟨-, -, -, -, rfl⟩ := prepare_eq_some hprepare
  constructor
  · simp
  · by_cases hkind : task.kind = .bulkDelete
    · simp only [hkind, behind, targetArray, still.alone]
      rfl
    · obtain ⟨log2, epoch, htarget⟩ := targetArray_ne_bulkDelete hkind t.active
      simp only [behind, htarget]
      rfl

/-! ## Pauses -/

/-- Between two chunks lies a pause, and a chunk takes as many buckets as it may. -/
theorem pauses_processAll {fuel : Nat} (h : task.Drives t) (hwraps : task.wraps = false)
    (hfuel : task.distance t.size < fuel) : (processAll heap fuel task t).1 =
      (t.size - task.cursor + task.chunk - 1) / task.chunk - 1 := by
  induction fuel generalizing task t with
  | zero => exact absurd hfuel (Nat.not_lt_zero _)
  | succ fuel ih =>
    have hpos := h.chunk_pos
    have hle := h.cursor_le
    have hstage := h.processChunk_stage heap
    have hnext := h.processChunk heap
    have hcursor := processChunk_cursor heap task t
    rw [chunkEnd_of_not_wraps hwraps] at hcursor
    have hdistance : (processChunk heap task t).1.cursor < t.size → _ := h.distance_processChunk
    have hlater : (processChunk heap task t).1.cursor < t.size → _ :=
      h.not_wraps_processChunk hwraps
    rw [processAll]
    generalize processChunk heap task t = pair at *
    obtain ⟨task', t'⟩ := pair
    dsimp only at *
    have hsize : t'.size = t.size := hstage.frame.size
    have hchunk : task'.chunk = task.chunk := hstage.same.chunk
    cases hmore : task'.hasMore t' with
    | false =>
      rw [hasMore, decide_eq_false_iff_not, hsize, hcursor] at hmore
      simp only [Bool.false_eq_true, if_false]
      have hone : (t.size - task.cursor + task.chunk - 1) / task.chunk < 2 := by
        rw [Nat.div_lt_iff_lt_mul hpos]
        omega
      omega
    | true =>
      rw [hasMore, decide_eq_true_eq, hsize] at hmore
      have hrest := ih hnext (hlater hmore) (by
        rw [hsize]
        have := hdistance hmore
        omega)
      simp only [if_true]
      rw [hrest, hsize, hchunk, hcursor]
      rw [hcursor] at hmore
      -- What is left is less by one chunk, and is not nothing.
      have hless : t.size - task.cursor + task.chunk - 1 =
          (t.size - min (task.cursor + task.chunk) t.size + task.chunk - 1) + task.chunk := by omega
      have hone : 1 ≤ (t.size - min (task.cursor + task.chunk) t.size + task.chunk - 1) /
          task.chunk := by
        rw [Nat.le_div_iff_mul_le hpos]
        omega
      rw [hless, Nat.add_div_right _ hpos]
      omega

/-! ## A whole task -/

/-- A run of a task is one pass over the slots of a table. -/
structure OnePass (heap : Heap) (task : Task) (t : Table) (run : Run) : Prop where
  summary : run.summary = some
    { kind := task.kind
      oldSize := t.size
      newSize := run.table.size
      examined := t.active.slots.length
      moved := if task.kind = .bulkDelete then 0 else (liveSlots heap t.active.slots).length
      reclaimed := (deadSlots heap t.active.slots).length }
  /-- A bulk delete leaves in each bucket its live slots. -/
  cleaned : task.kind = .bulkDelete → ∀ j,
    run.table.active.slotsAt j = liveSlots heap (t.active.slotsAt j)
  /-- The other tasks leave in each bucket the live slots, of all buckets in turn, whose hash
  selects it. -/
  moved : task.kind ≠ .bulkDelete → ∀ j, run.table.active.slotsAt j =
    ((liveSlots heap t.active.slots).map fun slot => task.kind.rehashed heap slot).filter
      fun slot => run.table.active.placeOf slot.hash = j
  log2 : run.table.log2 = if task.kind = .grow then t.log2 + 1 else t.log2
  epoch : run.table.epoch = match task.kind with
    | .rehash seed => .alternate seed
    | .grow | .bulkDelete => t.epoch
  atRest : run.table.AtRest
  items : run.table.items = t.items - .ofNat (deadSlots heap t.active.slots).length
  /-- Given back are the cells of the dead slots, besides those that were. -/
  handle? : ∀ r, run.table.cells.handle? r = (t.cells.handle? r).map fun handle =>
    { handle with
      released :=
        handle.released || (deadSlots heap t.active.slots).any fun slot => slot.ref.id = r.id }
  pauses : run.pauses = (t.size + task.chunk - 1) / task.chunk - 1
  /-- A bulk delete would find nothing to do. -/
  again : ∀ chunk, ∃ summary,
    (Task.run heap (ofChunk run.table .bulkDelete chunk) run.table).summary = some summary ∧
    summary.reclaimed = 0 ∧
    (Task.run heap (ofChunk run.table .bulkDelete chunk) run.table).table = run.table

/-! ## The end of the pass -/

theorem Passed.finish_cleaning (h : Passed heap kind t₀ t₀.size t) (htask : task.kind = kind)
    (hkind : kind = .bulkDelete) (j : Nat) :
    (finish task t).2.2.active.slotsAt j = liveSlots heap (t₀.active.slotsAt j) := by
  rw [finish, publish_cleaning (htask.trans hkind)]
  dsimp only
  rw [h.slots]
  split
  · rfl
  · next hbeyond =>
    rw [BucketArray.slotsAt_of_le (Nat.le_of_not_lt fun hlt => hbeyond ⟨hkind, hlt⟩)]
    rfl

theorem Passed.finish_moving (h : Passed heap kind t₀ t₀.size t) (htask : task.kind = kind)
    (htarget : targetArray kind t₀.active = some blank) : (finish task t).2.2.active =
      blank.appendAll ((liveSlots heap t₀.active.slots).map (carried heap t₀.active blank)) := by
  have hkind : task.kind ≠ .bulkDelete := by
    rintro hcleaning
    rw [← htask, hcleaning] at htarget
    cases htarget
  have hnext := h.next
  simp only [behind, htarget, Option.map_some, Option.toList_some] at hnext
  rw [finish, publish_moving hkind hnext]
  rfl

/-- The slots that were carried over, in the bucket that their hash selects. -/
theorem slotsAt_appendAll_empty (log2 : Nat) (epoch : Epoch) (slots : List Slot) (j : Nat) :
    ((BucketArray.empty log2 epoch).appendAll slots).slotsAt j = slots.filter fun slot =>
      ((BucketArray.empty log2 epoch).appendAll slots).placeOf slot.hash = j := by
  rw [BucketArray.slotsAt_appendAll (BucketArray.sized_empty log2 epoch).pos,
    BucketArray.slotsAt_empty, List.nil_append, BucketArray.placeOf_appendAll]

theorem length_deadRefs (heap : Heap) (slots : List Slot) :
    (deadRefs heap (slots.map Slot.ref)).length = (deadSlots heap slots).length := by
  rw [deadRefs, deadSlots, List.filter_map, List.length_map]
  rfl

theorem length_liveRefs (heap : Heap) (slots : List Slot) :
    (liveRefs heap (slots.map Slot.ref)).length = (liveSlots heap slots).length := by
  rw [liveRefs, liveSlots, List.filter_map, List.length_map]
  rfl

theorem linkedRefs_atRest (hrest : t.AtRest) : t.linkedRefs = t.active.slots.map Slot.ref := by
  rw [Table.linkedRefs, Table.linked_still hrest.still]

/-! ## Nothing to do -/

theorem reapBucket_of_live (hlive : ∀ slot ∈ t.active.slotsAt index, slot.ref.isDead heap = false) :
    (reapBucket heap task t index).2 = t := by
  have hnone : (t.active.slotsAt index).filter (fun slot => slot.ref.isDead heap) = [] := by
    rw [List.filter_eq_nil_iff]
    intro slot hslot
    simp [hlive slot hslot]
  simp only [reapBucket, List.partition_eq_filter_filter, hnone]
  rfl

/-- A bulk delete of a table whose slots are all alive leaves it as it was. -/
theorem table_run_of_live (hrest : t.AtRest) (hwf : task.WellFormed) (hidle : task.state = .idle)
    (hkind : task.kind = .bulkDelete) (hlive : ∀ r ∈ t.linkedRefs, r.isDead heap = false) :
    (run heap task t).table = t := by
  cases hprepare : task.prepare t with
  | none => rw [run, hprepare]
  | some started =>
    obtain ⟨task₁, t₁⟩ := started
    have hdrives := drives_prepare hprepare hrest (hwf.fresh hidle).1 hwf.chunk_pos hwf.chunk_lt
    obtain ⟨-, -, -, rfl, ht₁⟩ := prepare_eq_some hprepare
    have hstep : ∀ i task' t', i < t₁.size →
        Stage { task with state := .running, hasSource := true } t₁ i task' t' →
        t' = t₁ → (processBucket heap (task', t') i).2 = t₁ := by
      intro i task' t' _ hstage hsame
      rw [processBucket_cleaning hkind heap hstage.same.kind, hsame]
      refine reapBucket_of_live fun slot hslot => hlive slot.ref ?_
      rw [linkedRefs_atRest hrest]
      rw [ht₁] at hslot
      exact List.mem_map_of_mem (BucketArray.mem_slots.2 ⟨i, hslot⟩)
    obtain ⟨task', t', heq, hsame, -, -, hstage⟩ :=
      hdrives.complete_induction (P := fun _ _ t' => t' = t₁) hstep
      (fun _ _ _ _ hsame => hsame) (fun _ _ _ _ _ _ hsame => hsame) rfl
    have htable : (run heap task t).table = (finish task' t').2.2 := by
      rw [run, hprepare, ← heq]
    rw [htable, finish, publish_cleaning (hstage.same.kind.trans hkind), hsame, ht₁]
    obtain ⟨-, hfree, -⟩ := prepare_eq_some hprepare
    simp only [hkind, targetArray, ← hfree]

/-! ## The whole task -/

/-- No first chunk wraps around. -/
theorem not_wraps_of_cursor (hcursor : task.cursor = 0) (hlt : task.chunk < 2 ^ 64) :
    task.wraps = false := by
  rw [wraps, hcursor, decide_eq_false_iff_not]
  omega

/-- A task that starts has been over all buckets when it is finished. -/
theorem run_passed (heap : Heap) {started : Task × Table} (hprepare : task.prepare t = some started)
    (hrest : t.AtRest) (hwf : task.WellFormed) : ∃ task' t',
      (run heap task t).table = (finish task' t').2.2 ∧ task'.kind = task.kind ∧
      Passed heap task.kind t t.size t' ∧ t'.active.epoch = t.active.epoch := by
  obtain ⟨task₁, t₁⟩ := started
  have hidle := (prepare_eq_some hprepare).1
  have hdrives := drives_prepare hprepare hrest (hwf.fresh hidle).1 hwf.chunk_pos hwf.chunk_lt
  have hpassed₁ : Passed heap task.kind t 0 t₁ := passed_prepare hrest.still hprepare
  obtain ⟨-, -, -, rfl, ht₁⟩ := prepare_eq_some hprepare
  have hwraps : wraps { task with state := .running, hasSource := true } = false :=
    not_wraps_of_cursor (hwf.fresh hidle).1 hwf.chunk_lt
  have hepoch₁ : t₁.active.epoch = t.active.epoch := by rw [ht₁]
  have hsize₁ : t₁.size = t.size := by rw [ht₁]; rfl
  have hstep : ∀ i task' t', i < t₁.size →
      Stage { task with state := .running, hasSource := true } t₁ i task' t' →
      Passed heap task.kind t i t' →
      Passed heap task.kind t (i + 1) (processBucket heap (task', t') i).2 := by
    intro i task' t' hi hstage hpassed
    have hlt : i < t'.size := by
      rw [Table.size, hstage.frame.size]
      exact hi
    exact hpassed.processBucket hstage.halfway hlt hstage.same.kind
      (hstage.frame.epoch.trans hepoch₁)
  obtain ⟨task', t', heq, hpassed, -, -, hstage⟩ :=
    hdrives.complete_induction (P := fun index _ t' => Passed heap task.kind t index t') hstep
      (fun _ _ _ _ hpassed => hpassed) (fun hback => absurd (hwraps.symm.trans hback) (by decide))
      (by rw [(hwf.fresh hidle).1]; exact hpassed₁)
  refine ⟨task', t', ?_, hstage.same.kind, hsize₁ ▸ hpassed, hstage.frame.epoch.trans hepoch₁⟩
  rw [run, hprepare, ← heq]

theorem pauses_run {started : Task × Table} (hprepare : task.prepare t = some started)
    (hrest : t.AtRest) (hwf : task.WellFormed) :
    (run heap task t).pauses = (t.size + task.chunk - 1) / task.chunk - 1 := by
  obtain ⟨task₁, t₁⟩ := started
  have hidle := (prepare_eq_some hprepare).1
  have hcursor := (hwf.fresh hidle).1
  have hdrives := drives_prepare hprepare hrest hcursor hwf.chunk_pos hwf.chunk_lt
  have hpauses :
      (run heap task t).pauses = (processAll heap (enoughChunks t₁.size) task₁ t₁).1 := by
    rw [run, hprepare]
    rfl
  have hwraps : task₁.wraps = false := by
    rw [(prepare_eq_some hprepare).2.2.2.1]
    exact not_wraps_of_cursor hcursor hwf.chunk_lt
  rw [hpauses, pauses_processAll hdrives hwraps (distance_lt_enoughChunks hdrives)]
  obtain ⟨-, -, -, rfl, rfl⟩ := prepare_eq_some hprepare
  dsimp only
  rw [hcursor]
  rfl

/-- **A task that starts is one pass.** -/
theorem run_onePass {started : Task × Table} (hprepare : task.prepare t = some started)
    (hrest : t.AtRest) (hplaced : t.active.Placed heap) (hwf : task.WellFormed)
    (hlt : t.chunkBuckets < 2 ^ 64) :
    OnePass heap task t (run heap task t) := by
  obtain ⟨hidle, -, hgrows, -, -⟩ := prepare_eq_some hprepare
  have hmax : ¬(task.kind = .grow ∧ t.isMaxSize = true) := by
    rintro ⟨hkind, hmax⟩
    rw [hgrows hkind] at hmax
    cases hmax
  have hcompleted := run_completed hrest hwf hidle heap
  rw [if_neg hmax] at hcompleted
  obtain ⟨⟨kind, oldSize, newSize, examined, moved, reclaimed⟩, hsummary, hdone⟩ := hcompleted
  obtain ⟨dead, hdead, hreaped⟩ := hdone.cells
  have hlinked := linkedRefs_atRest hrest
  rw [hlinked] at hdead
  obtain ⟨task', t', htable, hkind', hpassed, hepoch⟩ := run_passed heap hprepare hrest hwf
  constructor
  case summary =>
    have hexamined := hdone.examined
    have hmoved := hdone.moved
    have hreclaimed := hdone.reclaimed
    rw [hlinked, List.length_map] at hexamined
    rw [hlinked, length_liveRefs] at hmoved
    rw [hlinked, length_deadRefs] at hreclaimed
    rw [hsummary]
    simp only [Option.some.injEq, TaskSummary.mk.injEq]
    exact ⟨hdone.kind_eq, hdone.oldSize, hdone.newSize, hexamined, hmoved, hreclaimed⟩
  case cleaned =>
    intro hkind j
    rw [htable, hpassed.finish_cleaning hkind' hkind]
  case moved =>
    intro hkind j
    obtain ⟨log2, epoch, htarget⟩ := targetArray_ne_bulkDelete hkind t.active
    have hrehashed :
        (liveSlots heap t.active.slots).map (carried heap t.active (.empty log2 epoch)) =
        (liveSlots heap t.active.slots).map fun slot => task.kind.rehashed heap slot := by
      refine List.map_congr_left fun slot hslot => ?_
      obtain ⟨i, hi⟩ := BucketArray.mem_slots.1 (mem_liveSlots.1 hslot).1
      exact carried_eq_rehashed htarget hplaced hi
    rw [htable, hpassed.finish_moving hkind' htarget, hrehashed]
    exact slotsAt_appendAll_empty log2 epoch _ j
  case log2 => exact hdone.log2
  case epoch =>
    cases hkind : task.kind with
    | bulkDelete =>
      rw [htable, finish, publish_cleaning (hkind'.trans hkind)]
      exact hepoch
    | grow =>
      rw [htable, Table.epoch, hpassed.finish_moving hkind' (by rw [hkind]; rfl),
        BucketArray.epoch_appendAll]
      rfl
    | rehash seed =>
      rw [htable, Table.epoch, hpassed.finish_moving hkind' (by rw [hkind]; rfl),
        BucketArray.epoch_appendAll]
      rfl
  case atRest => exact hdone.atRest
  case items => rw [hreaped.items, hdead.length_eq, length_deadRefs]
  case handle? =>
    intro r
    have hany : (dead.any fun ref => ref.id = r.id) =
        (deadSlots heap t.active.slots).any fun slot => slot.ref.id = r.id := by
      rw [hdead.any_eq, deadRefs, deadSlots, List.filter_map, List.any_map]
      rfl
    rw [hreaped.cells, CellStore.handle?_releaseAll, hany]
  case pauses => exact pauses_run hprepare hrest hwf
  case again =>
    intro chunk
    have hwf' :=
      wellFormed_ofChunk (t := (run heap task t).table) .bulkDelete chunk (hdone.chunkBuckets ▸ hlt)
    have hidle' := state_ofChunk (t := (run heap task t).table) .bulkDelete chunk
    have hkind' := kind_ofChunk (t := (run heap task t).table) .bulkDelete chunk
    have hlive : ∀ r ∈ (run heap task t).table.linkedRefs, r.isDead heap = false := by
      intro r hr
      simpa using (List.mem_filter.1 (hdone.linked.mem_iff.1 hr)).2
    have hcompleted := run_completed hdone.atRest hwf' hidle' heap
    rw [if_neg (by rw [hkind']; simp)] at hcompleted
    obtain ⟨summary, hsummary, hdone'⟩ := hcompleted
    refine ⟨summary, hsummary, ?_, table_run_of_live hdone.atRest hwf' hidle' hkind' hlive⟩
    rw [hdone'.reclaimed, deadRefs, List.filter_eq_nil_iff.2 fun r hr => by simp [hlive r hr]]
    rfl

/-- What a task takes off the books, where they are kept. -/
structure Balanced (heap : Heap) (t t' : Table) : Prop where
  itemCount : t.active.slots.length < 2 ^ 64 → t'.itemCount +
    (deadSlots heap t.active.slots).length = t.itemCount
  allocated : t'.cells.allocated + (deadSlots heap t.active.slots).length = t.cells.allocated
  inUse : ∀ r, t'.cells.InUse r ↔ t.cells.InUse r ∧ r ∉ (deadSlots heap t.active.slots).map Slot.ref
  doubleReleases : t'.cells.doubleReleases = t.cells.doubleReleases

end Task

/-- An insert takes a reference to the very object that it inserts, if it takes one that was
acquired before. -/
def Move.Own : Move → Prop
  | .offer o ref => ref.referent = o
  | .act _ | .acquire _ => True

namespace World

variable {w : World} {m : WeakMap} {cells : CellStore}

theorem Mirrors.move (h : w.Mirrors m) {move : Move} (hown : move.Own) :
    ∃ m', (w.move move).1.Mirrors m' := by
  cases move with
  | act action => exact ⟨_, h.step action⟩
  | acquire o =>
    rw [World.move]
    split
    · exact ⟨m, h.orderly.congr _ _ _ _, h.heap, (h.acquire o).table⟩
    · exact ⟨m, h⟩
  | offer o ref =>
    rw [World.move]
    split
    · next hoffered =>
      have hlive : w.heap.isLive o = true := ((Bool.and_eq_true _ _).mp hoffered).1
      have hspare : Mirrors { w with spare := w.spare.erase ref } m :=
        ⟨h.orderly.congr _ _ _ _, h.heap, h.table⟩
      exact ⟨_, (hspare.pass hlive hown).1⟩
    · exact ⟨m, h⟩

theorem Mirrors.moves (h : w.Mirrors m) {moves : List Move} (hown : ∀ move ∈ moves, move.Own) :
    ∃ m', (w.run moves).Mirrors m' := by
  induction moves generalizing w m with
  | nil => exact ⟨m, h⟩
  | cons move rest ih =>
    obtain ⟨m', h'⟩ := h.move (hown move List.mem_cons_self)
    exact ih h' fun other hother => hown other (.tail _ hother)

/-- **A task is balanced** where the books are kept: the dead slots are on them, and they come
off. -/
theorem Kept.balanced (h : w.Kept cells) (hrest : w.table.AtRest) {kind : TaskKind} {t' : Table}
    {summary : TaskSummary} (hdone : Task.Completed w.heap kind w.table t' summary) :
    Task.Balanced w.heap w.table t' := by
  obtain ⟨dead, hdead, hreaped⟩ := hdone.cells
  have hlinked := Task.linkedRefs_atRest hrest
  have hlength : dead.length = (deadSlots w.heap w.table.active.slots).length := by
    rw [hdead.length_eq, hlinked, Task.length_deadRefs]
  have hmem : ∀ r, r ∈ dead ↔ r ∈ (deadSlots w.heap w.table.active.slots).map Slot.ref := by
    intro r
    rw [hdead.mem_iff, hlinked, deadRefs, deadSlots, List.filter_map]
    rfl
  have hledger : w.table.cells.Ledger (dead ++ (t'.linkedRefs ++ (w.spare ++ foreign cells))) := by
    rw [← List.append_assoc]
    exact h.ledger.perm (hreaped.linked.append_right _)
  obtain ⟨hledger', -, hdouble, -⟩ := hledger.releaseAll
  rw [← hreaped.cells] at hledger' hdouble
  have hslots : w.table.active.slots.length = dead.length + t'.linkedRefs.length := by
    have hperm := hreaped.linked.length_eq
    rwa [hlinked, List.length_map, List.length_append] at hperm
  constructor
  · intro hlt
    have hitems : t'.items = .ofNat t'.linkedRefs.length := by
      rw [hreaped.items, h.items, ← Table.length_linkedRefs, hlinked, List.length_map, hslots,
        UInt64.ofNat_add]
      grind
    rw [Table.itemCount, Table.itemCount, hitems, h.items, ← Table.length_linkedRefs w.table,
      hlinked, List.length_map, UInt64.toNat_ofNat_of_lt'
        (show t'.linkedRefs.length < 2 ^ 64 by omega), UInt64.toNat_ofNat_of_lt' hlt, ← hlength]
    omega
  · rw [hledger.allocated, hledger'.allocated, ← hlength]
    simp only [List.length_append]
    omega
  · intro r
    rw [← hmem, ← hledger.mem_iff, ← hledger'.mem_iff]
    constructor
    · intro hr
      exact ⟨List.mem_append_right _ hr, fun hgone =>
        (List.nodup_append.1 hledger.nodup).2.2 r hgone r hr rfl⟩
    · rintro ⟨hr, hnot⟩
      exact (List.mem_append.1 hr).resolve_left hnot
  · exact hdouble

/-- **A task that is run is one pass** over the table, whatever has happened to it, if inserts took
references of their own and no task is under way. Unless a task went back before, the dead slots
come off the books one by one. -/
theorem run_task_onePass (settings : Settings) (cells : CellStore) (heap : Heap) (moves : List Move)
    (hown : ∀ move ∈ moves, move.Own) (kind : TaskKind) (chunk : Option UInt64)
    (started : Task × Table)
    (hprepare : (Task.ofChunk ((start settings cells heap).run moves).table kind chunk).prepare
      ((start settings cells heap).run moves).table = some started) :
    Task.OnePass ((start settings cells heap).run moves).heap
        (.ofChunk ((start settings cells heap).run moves).table kind chunk)
        ((start settings cells heap).run moves).table
        (Task.run ((start settings cells heap).run moves).heap
          (.ofChunk ((start settings cells heap).run moves).table kind chunk)
          ((start settings cells heap).run moves).table) ∧
      ((start settings cells heap).neverGoesBack moves = true →
        Task.Balanced ((start settings cells heap).run moves).heap
          ((start settings cells heap).run moves).table
          (Task.run ((start settings cells heap).run moves).heap
            (.ofChunk ((start settings cells heap).run moves).table kind chunk)
            ((start settings cells heap).run moves).table).table) := by
  obtain ⟨m, hmirrors⟩ := (mirrors_start settings cells heap).moves hown
  have hkept : _ → ((start settings cells heap).run moves).Kept cells :=
    (kept_start settings cells heap).run
  generalize (start settings cells heap).run moves = w at hprepare hmirrors hkept ⊢
  obtain ⟨hidle, hfree, hgrows, -⟩ := Task.prepare_eq_some hprepare
  have hrest := hmirrors.orderly.atRest_of_free hfree
  have hlt := hmirrors.orderly.chunkBuckets_lt
  have hwf := Task.wellFormed_ofChunk (t := w.table) kind chunk hlt
  refine ⟨Task.run_onePass hprepare hrest ?_ hwf hlt, fun hback => ?_⟩
  · rw [← hmirrors.heap]
    exact hmirrors.table.coherent.placed _ List.mem_cons_self
  · have hcompleted := Task.run_completed hrest hwf hidle w.heap
    rw [if_neg fun hmax => by rw [hgrows hmax.1] at hmax; exact absurd hmax.2 (by decide)]
      at hcompleted
    obtain ⟨summary, -, hdone⟩ := hcompleted
    exact (hkept hback).balanced hrest hdone

/-- Three strings, one of which dies, in a table of two buckets. -/
def threeStrings : List Move :=
  [.act (.allocate "a"), .act (.allocate "b"), .act (.allocate "c"), .acquire ⟨0⟩,
    .offer ⟨0⟩ ⟨1, ⟨0⟩⟩, .act (.insert ⟨1⟩), .act (.insert ⟨2⟩), .act (.drop ⟨0⟩)]

theorem run_task_onePass_growth :
    let w := (start { initialSize := 2, maxLog2 := 4 } { name := "cells" } {}).run threeStrings
    let task := Task.ofChunk w.table .grow (some 1)
    (task.prepare w.table).isSome = true ∧ (Task.run w.heap task w.table).pauses = 1 ∧
      (List.range 4).map (Task.run w.heap task w.table).table.active.slotsAt =
        [[], [], [⟨98, ⟨2, ⟨1⟩⟩⟩], [⟨99, ⟨3, ⟨2⟩⟩⟩]] ∧
      Task.OnePass w.heap task w.table (Task.run w.heap task w.table) ∧
      Task.Balanced w.heap w.table (Task.run w.heap task w.table).table := by
  have hprepare : ((Task.ofChunk
      ((start { initialSize := 2, maxLog2 := 4 } { name := "cells" } {}).run threeStrings).table
        .grow (some 1)).prepare
      ((start { initialSize := 2, maxLog2 := 4 } { name := "cells" } {}).run
          threeStrings).table).isSome = true := by
    decide +kernel
  have h := run_task_onePass { initialSize := 2, maxLog2 := 4 } { name := "cells" } {} threeStrings
    (by simp [threeStrings, Move.Own]) .grow (some 1) _ (Option.some_get hprepare).symm
  exact ⟨hprepare, by decide +kernel, by decide +kernel, h.1, h.2 (by decide +kernel)⟩

/-- A task with very large chunks is asked for two chunks more after its last bucket. Then the
string dies, which it has linked twice. -/
def twiceLinkedMoves : List Move :=
  beforeWrapping ++ [.act (.prepare 0)] ++ duringWrapping ++ [.act (.commit 0), .act (.drop ⟨0⟩)]

/-- The next task finds two dead slots with one cell: of two releases one is refused, and two items
are taken off a count of one. -/
theorem run_task_unbalanced_after_wrapped_chunk :
    let w := (start oneBucket { name := "cells" } {}).run twiceLinkedMoves
    let task := Task.ofChunk w.table .bulkDelete none
    let run := Task.run w.heap task w.table
    (∀ move ∈ twiceLinkedMoves, move.Own) ∧ (task.prepare w.table).isSome = true ∧
      run.summary.map TaskSummary.reclaimed = some 2 ∧
      w.table.itemCount = 1 ∧ run.table.itemCount = 0xffffffffffffffff ∧
      w.table.cells.allocated = 1 ∧ run.table.cells.allocated = 0 ∧
      run.table.cells.doubleReleases = 1 ∧
      ¬ Task.Balanced w.heap w.table run.table := by
  intro w task run
  have hbefore : w.table.cells.allocated = 1 := by decide +kernel
  have hafter : run.table.cells.allocated = 0 := by decide +kernel
  have hdead : (deadSlots w.heap w.table.active.slots).length = 2 := by decide +kernel
  refine ⟨by simp [twiceLinkedMoves, beforeWrapping, duringWrapping, Move.Own], by decide +kernel,
    by decide +kernel, by decide +kernel, by decide +kernel, hbefore, hafter, by decide +kernel,
    fun h => ?_⟩
  have hallocated := h.allocated
  rw [hafter, hbefore, hdead] at hallocated
  cases hallocated

end World

end WeakIntern
