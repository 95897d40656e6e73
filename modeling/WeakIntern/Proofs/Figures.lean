import WeakIntern.Proofs.Settling
/-!
# The figures of a task

A task that is run from its start to its end looks at every linked slot once, and at no other: it
keeps those whose strings are alive and reclaims the others (`Task.run_completed`). So its figures,
and all that it leaves behind but the order of the slots, follow from what was linked. In particular
they do not depend on the hash that the slots are moved to.
-/

namespace WeakIntern

open scoped List

/-- The references whose objects are alive. -/
def liveRefs (heap : Heap) (refs : List WeakRef) : List WeakRef :=
  refs.filter fun r => !r.isDead heap

/-- The references whose objects are gone. -/
def deadRefs (heap : Heap) (refs : List WeakRef) : List WeakRef :=
  refs.filter fun r => r.isDead heap

/-- What was unlinked is what was dead, if nothing dead is left. -/
theorem perm_deadRefs {heap : Heap} {refs dead rest : List WeakRef}
    (hperm : refs.Perm (dead ++ rest)) (hdead : ∀ r ∈ dead, r.isDead heap = true)
    (hrest : ∀ r ∈ rest, r.isDead heap = false) :
    dead.Perm (deadRefs heap refs) ∧ rest.Perm (liveRefs heap refs) := by
  have hdead₁ : dead.filter (fun r => r.isDead heap) = dead := List.filter_eq_self.2 hdead
  have hdead₂ : dead.filter (fun r => !r.isDead heap) = [] :=
    List.filter_eq_nil_iff.2 fun r hr => by simp [hdead r hr]
  have hrest₁ : rest.filter (fun r => r.isDead heap) = [] :=
    List.filter_eq_nil_iff.2 fun r hr => by simp [hrest r hr]
  have hrest₂ : rest.filter (fun r => !r.isDead heap) = rest :=
    List.filter_eq_self.2 fun r hr => by simp [hrest r hr]
  have hparts₁ := hperm.filter fun r => r.isDead heap
  have hparts₂ := hperm.filter fun r => !r.isDead heap
  rw [List.filter_append, hdead₁, hrest₁, List.append_nil] at hparts₁
  rw [List.filter_append, hdead₂, hrest₂, List.nil_append] at hparts₂
  exact ⟨hparts₁.symm, hparts₂.symm⟩

theorem length_refs (heap : Heap) (refs : List WeakRef) :
    refs.length = (liveRefs heap refs).length + (deadRefs heap refs).length := by
  have hparts := (List.filter_append_perm (fun r : WeakRef => r.isDead heap) refs).length_eq
  rw [List.length_append] at hparts
  rw [liveRefs, deadRefs]
  omega

namespace Task

variable {heap : Heap} {task : Task} {t t' : Table}

/-! ## Slots that are kept -/

/-- The slots that a task has kept when it has been over the buckets below an index: those that it
has moved, or those that it left in place. -/
def kept (t : Table) (index : Nat) : List Slot :=
  match t.successors with
  | [] => (List.range index).flatMap t.active.slotsAt
  | target :: _ => target.slots

theorem kept_still (h : t.successors = []) (index : Nat) :
    kept t index = (List.range index).flatMap t.active.slotsAt := by
  rw [kept, h]

theorem kept_moving {target : BucketArray} (h : t.successors = [target]) (index : Nat) :
    kept t index = target.slots := by
  rw [kept, h]

/-- Every slot that the task has looked at was kept or reclaimed. -/
def Counted (task : Task) (t : Table) (index : Nat) : Prop :=
  task.examined = (kept t index).length + task.reclaimed

theorem Counted.processBucket {kind : TaskKind} {index : Nat} (h : task.Counted t index)
    (hhalfway : Halfway kind t index) (hindex : index < t.size) (htask : task.kind = kind) :
    (Task.processBucket heap (task, t) index).1.Counted (Task.processBucket heap (task, t) index).2
      (index + 1) := by
  have hparts := (BucketArray.dead_append_live heap (t.active.slotsAt index)).length_eq
  rw [List.length_append] at hparts
  cases hhalfway with
  | cleaning hkind still =>
    obtain ⟨_, heq⟩ := reapBucket_eq heap task t index
    rw [processBucket_cleaning hkind heap htask, heq]
    rw [Counted, kept_still still.alone] at h
    have hbelow :
        (List.range index).flatMap
          (t.active.setSlots index (liveSlots heap (t.active.slotsAt index))).slotsAt =
        (List.range index).flatMap t.active.slotsAt := by
      refine BucketArray.flatMap_range_congr fun i hi => ?_
      rw [BucketArray.slotsAt_setSlots _ hindex, if_neg (by omega)]
    have hbucket :
        (t.active.setSlots index (liveSlots heap (t.active.slotsAt index))).slotsAt index =
        liveSlots heap (t.active.slotsAt index) := by
      rw [BucketArray.slotsAt_setSlots _ hindex, if_pos rfl]
    rw [Counted, kept, still.alone]
    simp only [count, List.range_succ, List.flatMap_append, List.flatMap_singleton,
      List.length_append, hbelow, hbucket]
    omega
  | moving hkind target moving suits moved =>
    obtain ⟨_, heq⟩ := migrateBucket_eq heap task moving.next index
    rw [processBucket_moving hkind heap htask, heq]
    rw [Counted, kept_moving moving.next] at h
    have hcarried := (BucketArray.slots_appendAll moving.sized
      ((liveSlots heap (t.active.slotsAt index)).map (carried heap t.active target))).length_eq
    rw [List.length_append, List.length_map] at hcarried
    rw [Counted, kept_moving rfl]
    simp only [count, hcarried]
    omega

/-- At the beginning none is. -/
theorem kept_prepare (still : t.Still) {task' : Task}
    (hprepare : task.prepare t = some (task', t')) : kept t' 0 = [] := by
  obtain ⟨-, -, -, -, rfl⟩ := prepare_eq_some hprepare
  by_cases hkind : task.kind = .bulkDelete
  · simp only [kept, hkind, targetArray, still.alone]
    rfl
  · obtain ⟨log2, epoch, htarget⟩ := targetArray_ne_bulkDelete hkind t.active
    simp only [kept, htarget, BucketArray.slots_empty]

/-- At the end of the pass the kept slots are those that are linked. -/
theorem Counted.finish (h : task.Counted t task.cursor) (hdrives : task.Drives t)
    (hend : task.cursor = t.size) :
    task.examined = (task.finish t).2.2.linkedRefs.length + task.reclaimed := by
  rw [Counted, hend] at h
  rw [Table.length_linkedRefs, h]
  cases hdrives.halfway with
  | cleaning hkind still =>
    rw [kept_still still.alone, Task.finish, publish_cleaning hkind, Table.linked, still.alone]
    rfl
  | moving hkind target moving suits moved =>
    rw [kept_moving moving.next, Task.finish, publish_moving hkind moving.next]
    rfl

/-! ## A whole task -/

/-- What a task has done from its start to its end, and what it says of it. -/
structure Completed (heap : Heap) (kind : TaskKind) (t t' : Table)
    (summary : TaskSummary) : Prop where
  kind_eq : summary.kind = kind
  oldSize : summary.oldSize = t.size
  newSize : summary.newSize = t'.size
  /-- Every linked slot was looked at once. -/
  examined : summary.examined = t.linkedRefs.length
  moved : summary.moved = if kind = .bulkDelete then 0 else (liveRefs heap t.linkedRefs).length
  reclaimed : summary.reclaimed = (deadRefs heap t.linkedRefs).length
  /-- Those whose strings are alive are linked still, and the cells of the others were given
  back. -/
  linked : t'.linkedRefs.Perm (liveRefs heap t.linkedRefs)
  cells : ∃ dead, dead.Perm (deadRefs heap t.linkedRefs) ∧ Table.Reaped heap t t' dead
  log2 : t'.log2 = if kind = .grow then t.log2 + 1 else t.log2
  maxLog2 : t'.maxLog2 = t.maxLog2
  chunkBuckets : t'.chunkBuckets = t.chunkBuckets
  atRest : t'.AtRest

theorem maxLog2_finish (task : Task) (t : Table) : (finish task t).2.2.maxLog2 = t.maxLog2 := by
  cases hkind : task.kind <;> cases hnext : t.successors <;> simp [finish, publish, hkind, hnext]

/-- What is done when a task has been over all buckets. -/
theorem completed_finish {task₀ : Task} {t₀ : Table} (hfresh : task₀.reclaimed = 0)
    (hstage : Stage task₀ t₀ t₀.size task t) (hdrives : task.Drives t) (hend : task.cursor = t.size)
    (hswept : Swept heap task₀ t₀ task t) (htally : task.Tallied)
    (hcounted : task.Counted t task.cursor)
    (hpurged : ∀ r ∈ t₀.linkedRefs, r.isDead heap = true → Purged task.kind t task.cursor r) :
    Completed heap task₀.kind t₀ (task.finish t).2.2 (task.finish t).1 := by
  obtain ⟨dead, hreaped, hreclaimed⟩ := hswept
  have hfinished := hreaped.trans (Table.reaped_finish hdrives hend heap)
  rw [List.append_nil] at hfinished
  rw [hfresh, Nat.zero_add] at hreclaimed
  have hrest : ∀ r ∈ (task.finish t).2.2.linkedRefs, r.isDead heap = false := by
    intro r hr
    cases hdead : r.isDead heap with
    | false => rfl
    | true =>
      have hbefore := hfinished.linked.mem_iff.2 (List.mem_append_right _ hr)
      exact absurd hr ((hpurged r hbefore hdead).finish hdrives hend)
  obtain ⟨hdead, hlive⟩ := perm_deadRefs hfinished.linked hfinished.gone hrest
  have hexamined := hcounted.finish hdrives hend
  have hlength := length_refs heap t₀.linkedRefs
  rw [hreclaimed, hlive.length_eq, hdead.length_eq] at hexamined
  have hkind := hstage.same.kind
  obtain ⟨-, hgrow, hsame⟩ := hdrives.size_finish
  exact
    { kind_eq := hkind
      oldSize := hstage.frame.size
      newSize := rfl
      examined := hexamined.trans hlength.symm
      moved := by
        rw [← hkind]
        split
        · next hcleaning => exact (htally.cleaning hcleaning).1
        · next hmoving =>
          have hmoved := htally.moving hmoving
          rw [hreclaimed, hdead.length_eq] at hmoved
          show task.moved = _
          omega
      reclaimed := hreclaimed.trans hdead.length_eq
      linked := hlive
      cells := ⟨dead, hdead, hfinished⟩
      log2 := by
        rw [← hkind]
        split
        · next hgrows => exact (hgrow hgrows).trans (congrArg (· + 1) hstage.frame.log2)
        · next hother => exact (hsame hother).trans hstage.frame.log2
      maxLog2 := (maxLog2_finish task t).trans hstage.frame.maxLog2
      chunkBuckets := (chunkBuckets_finish task t).trans hstage.frame.chunkBuckets
      atRest := hdrives.atRest_finish }

/-- A task that has just taken a table is carried to its end. -/
theorem Drives.completed (h : task.Drives t) (heap : Heap) (hcursor : task.cursor = 0)
    (htally : task.Tallied) (hcounted : task.Counted t 0) (hreclaimed : task.reclaimed = 0)
    (hahead : Ahead task.kind t task.cursor)
    (hpurged : ∀ r ∈ t.linkedRefs, r.isDead heap = true → Purged task.kind t task.cursor r) :
    Completed heap task.kind t (complete heap task t).2.2.2 (complete heap task t).2.1 := by
  have hwraps : task.wraps = false := by
    have hlt := h.chunk_lt
    rw [wraps, hcursor, decide_eq_false_iff_not]
    omega
  obtain ⟨task', t', heq, ⟨⟨-, hswept⟩, htally', hcounted', hpurged'⟩, hdrives, hend, hstage⟩ :=
    h.complete_induction
      (P := fun index task' t' => Advanced heap task t index task' t' ∧ task'.Tallied ∧
        task'.Counted t' index ∧
        ∀ r ∈ t.linkedRefs, r.isDead heap = true → Purged task.kind t' index r)
      (fun index task' t' hindex hstage hprogress => by
        obtain ⟨hadvanced, htally, hcounted, hpurged⟩ := hprogress
        have hlt : index < t'.size := by
          rw [Table.size, hstage.frame.size]
          exact hindex
        exact ⟨hadvanced.processBucket hindex hstage,
          htally.processBucket hstage.halfway hstage.same.kind,
          hcounted.processBucket hstage.halfway hlt hstage.same.kind,
          fun r hr hdead => (hpurged r hr hdead).processBucket hstage.halfway hlt
            hstage.same.kind hdead⟩)
      (fun _ _ _ _ hprogress => by
        obtain ⟨hadvanced, htally, hcounted, hpurged⟩ := hprogress
        exact ⟨hadvanced, ⟨htally.moving, htally.cleaning⟩, hcounted, hpurged⟩)
      (fun hback => absurd (hwraps.symm.trans hback) (by decide))
      ⟨⟨hahead, .refl heap task t⟩, htally, hcursor ▸ hcounted, hpurged⟩
  rw [heq]
  have hcursor' : task'.cursor = t.size := hend.trans hstage.frame.size
  refine completed_finish hreclaimed hstage hdrives hend hswept htally' (hcursor' ▸ hcounted')
    fun r hr hdead => ?_
  rw [hcursor', hstage.same.kind]
  exact hpurged' r hr hdead

/-- **A task that is run from its start to its end** does just this, if it can start. -/
theorem run_completed (hrest : t.AtRest) (hwf : task.WellFormed) (hidle : task.state = .idle)
    (heap : Heap) :
    if task.kind = .grow ∧ t.isMaxSize = true then
      (run heap task t).summary = none ∧ (run heap task t).table = t
    else ∃ summary, (run heap task t).summary = some summary ∧
      Completed heap task.kind t (run heap task t).table summary := by
  rw [run]
  cases hprepare : task.prepare t with
  | none =>
    have hmax : task.kind = .grow ∧ t.isMaxSize = true := by
      simpa [prepare, hidle, hrest.free] using hprepare
    rw [if_pos hmax]
    exact ⟨rfl, rfl⟩
  | some pair =>
    obtain ⟨task', t'⟩ := pair
    obtain ⟨hcursor, hexamined, hmoved, hreclaimed⟩ := hwf.fresh hidle
    have hdrives := drives_prepare hprepare hrest hcursor hwf.chunk_pos hwf.chunk_lt
    have hlinked : t'.linkedRefs = t.linkedRefs :=
      congrArg (List.map Slot.ref) (Table.linked_prepare hrest.still hprepare)
    have hprepared := Table.reaped_prepare hrest.still heap hprepare
    have hpurged := purged_prepare hprepare
    have hkept := kept_prepare hrest.still hprepare
    obtain ⟨-, -, hgrows, rfl, ht'⟩ := prepare_eq_some hprepare
    have hmax : ¬ (task.kind = .grow ∧ t.isMaxSize = true) := by
      rintro ⟨hkind, hmax⟩
      rw [hgrows hkind] at hmax
      cases hmax
    have hcounted : Counted { task with state := .running, hasSource := true } t' 0 := by
      rw [Counted, hkept]
      exact hexamined.trans (by rw [hreclaimed]; rfl)
    have hahead : Ahead task.kind t' task.cursor := by
      rw [ht']
      exact ahead_of_unmoved hrest.still.unmoved _
    have hdone :=
      hdrives.completed heap hcursor (tallied_of_fresh hexamined hmoved hreclaimed) hcounted
      hreclaimed hahead fun r _ _ => hcursor ▸ hpurged r
    rw [if_neg hmax]
    dsimp only
    generalize complete heap { task with state := .running, hasSource := true } t' =
      ended at hdone ⊢
    obtain ⟨pauses, summary, task'', t''⟩ := ended
    dsimp only at hdone ⊢
    obtain ⟨dead, hdead, hreaped⟩ := hdone.cells
    exact ⟨summary, rfl,
      { kind_eq := hdone.kind_eq
        oldSize := by rw [hdone.oldSize, ht']; rfl
        newSize := hdone.newSize
        examined := hlinked ▸ hdone.examined
        moved := hlinked ▸ hdone.moved
        reclaimed := hlinked ▸ hdone.reclaimed
        linked := hlinked ▸ hdone.linked
        cells := ⟨dead, hlinked ▸ hdead, hprepared.trans hreaped⟩
        log2 := by rw [hdone.log2, ht']; rfl
        maxLog2 := by rw [hdone.maxLog2, ht']
        chunkBuckets := by rw [hdone.chunkBuckets, ht']
        atRest := hdone.atRest }⟩

end Task

end WeakIntern
