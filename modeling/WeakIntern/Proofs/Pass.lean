import WeakIntern.Proofs.Sweep
/-!
# A pass over a table

While a task is under way it *drives* its table (`Task.Drives`): the table is in its hands, every
bucket below the cursor is done with, and if slots are being moved there is exactly one array behind
the active one, of the size and the epoch that the kind of the task asks for. Otherwise the table is
at rest (`Table.AtRest`).

A chunk may end before it begins: the end of a chunk is a 64-bit sum, and a task that is asked for
more after its last bucket may be sent back by it. The facts of this module hold all the same;
`processAll_cursor` says that a task that goes on until no bucket remains does come to the end.
-/

namespace WeakIntern

/-! ## The shape of a table -/

/-- An array has as many buckets as its logarithm says, modulo the width of a word. -/
def BucketArray.Sized (a : BucketArray) : Prop := a.size = 2 ^ (a.log2 % 64)

theorem BucketArray.Sized.pos {a : BucketArray} (h : a.Sized) : 0 < a.size := by
  rw [h]
  exact Nat.two_pow_pos _

theorem BucketArray.Sized.le {a : BucketArray} (h : a.Sized) : a.size ≤ 2 ^ 63 := by
  rw [h]
  exact Nat.pow_le_pow_right (by decide) (by omega)

theorem BucketArray.sized_empty (log2 : Nat) (epoch : Epoch) : (empty log2 epoch).Sized :=
  size_empty log2 epoch

namespace Table

/-- No slots are being moved. -/
structure Still (t : Table) : Prop where
  alone : t.successors = []
  unmoved : t.active.Unmoved

/-- Slots are being moved into another array. -/
structure Moving (t : Table) (target : BucketArray) : Prop where
  next : t.successors = [target]
  unmoved : target.Unmoved
  sized : target.Sized

/-- A table that no task has. -/
structure AtRest (t : Table) : Prop where
  free : t.owned = false
  still : t.Still
  sized : t.active.Sized

/-- The cells and the figures have no part in the rest. -/
theorem AtRest.congr {t t' : Table} (h : t.AtRest) (howned : t'.owned = t.owned)
    (hactive : t'.active = t.active) (hsuccessors : t'.successors = t.successors) : t'.AtRest where
  free := howned.trans h.free
  still := ⟨hsuccessors.trans h.still.alone, hactive ▸ h.still.unmoved⟩
  sized := hactive ▸ h.sized

theorem atRest_ofSettings (settings : Settings) (cells : CellStore) :
    (Table.ofSettings settings cells).AtRest :=
  ⟨rfl, ⟨rfl, BucketArray.unmoved_empty _ _⟩, BucketArray.sized_empty _ _⟩

/-- What the work of a task on the slots leaves alone. -/
structure SameFrame (t t' : Table) : Prop where
  owned : t'.owned = t.owned
  maxLog2 : t'.maxLog2 = t.maxLog2
  alarmLength : t'.alarmLength = t.alarmLength
  chunkBuckets : t'.chunkBuckets = t.chunkBuckets
  size : t'.active.size = t.active.size
  log2 : t'.active.log2 = t.active.log2
  epoch : t'.active.epoch = t.active.epoch

theorem SameFrame.refl (t : Table) : SameFrame t t := ⟨rfl, rfl, rfl, rfl, rfl, rfl, rfl⟩

theorem SameFrame.trans {t₁ t₂ t₃ : Table} (h₁₂ : SameFrame t₁ t₂) (h₂₃ : SameFrame t₂ t₃) :
    SameFrame t₁ t₃ where
  owned := h₂₃.owned.trans h₁₂.owned
  maxLog2 := h₂₃.maxLog2.trans h₁₂.maxLog2
  alarmLength := h₂₃.alarmLength.trans h₁₂.alarmLength
  chunkBuckets := h₂₃.chunkBuckets.trans h₁₂.chunkBuckets
  size := h₂₃.size.trans h₁₂.size
  log2 := h₂₃.log2.trans h₁₂.log2
  epoch := h₂₃.epoch.trans h₁₂.epoch

end Table

namespace Task

/-- An array that a task of this kind may move the slots of another array into. -/
def Suits (kind : TaskKind) (source target : BucketArray) : Prop :=
  ∃ blank, targetArray kind source = some blank ∧ target.log2 = blank.log2 ∧
    target.epoch = blank.epoch

/-- A table whose buckets below `done` a task of this kind has been over. -/
inductive Halfway (kind : TaskKind) (t : Table) (done : Nat) : Prop where
  | cleaning (hkind : kind = .bulkDelete) (still : t.Still)
  | moving (hkind : kind ≠ .bulkDelete) (target : BucketArray) (moving : t.Moving target)
      (suits : Suits kind t.active target) (moved : ∀ i, i < done → t.active.isMoved i = true)

theorem Halfway.of_le {kind : TaskKind} {t : Table} {done done' : Nat} (h : Halfway kind t done)
    (hle : done' ≤ done) : Halfway kind t done' := by
  cases h with
  | cleaning hkind still => exact .cleaning hkind still
  | moving hkind target moving suits moved =>
    exact .moving hkind target moving suits fun i hi => moved i (by omega)

/-- The hold of a task on its table. -/
structure Drives (task : Task) (t : Table) : Prop where
  owned : t.owned = true
  underWay : task.isUnderWay = true
  hasSource : task.hasSource = true
  sized : t.active.Sized
  cursor_le : task.cursor ≤ t.size
  chunk_pos : 0 < task.chunk
  chunk_lt : task.chunk < 2 ^ 64
  halfway : Halfway task.kind t task.cursor

/-! ## One bucket -/

theorem processBucket_cleaning {kind : TaskKind} (hkind : kind = .bulkDelete) (heap : Heap)
    {task : Task} (htask : task.kind = kind) (t : Table) (index : Nat) :
    processBucket heap (task, t) index = reapBucket heap task t index := by
  simp only [processBucket, htask, hkind]

theorem processBucket_moving {kind : TaskKind} (hkind : kind ≠ .bulkDelete) (heap : Heap)
    {task : Task} (htask : task.kind = kind) (t : Table) (index : Nat) :
    processBucket heap (task, t) index = migrateBucket heap task t index := by
  cases hk : kind with
  | bulkDelete => exact absurd hk hkind
  | grow => simp only [processBucket, htask, hk]
  | rehash seed => simp only [processBucket, htask, hk]

/-- What a bucket does to the task. -/
theorem processBucket_fst {kind : TaskKind} {t : Table} {done : Nat} (h : Halfway kind t done)
    (heap : Heap) {task : Task} (htask : task.kind = kind) (index : Nat) :
    ∃ examined moved reclaimed,
      (processBucket heap (task, t) index).1 = task.count examined moved reclaimed := by
  cases h with
  | cleaning hkind still =>
    obtain ⟨_, h⟩ := reapBucket_eq heap task t index
    rw [processBucket_cleaning hkind heap htask, h]
    exact ⟨_, _, _, rfl⟩
  | moving hkind target moving suits moved =>
    obtain ⟨_, h⟩ := migrateBucket_eq heap task moving.next index
    rw [processBucket_moving hkind heap htask, h]
    exact ⟨_, _, _, rfl⟩

theorem processBucket_sameFrame {kind : TaskKind} {t : Table} {done : Nat} (h : Halfway kind t done)
    (heap : Heap) {task : Task} (htask : task.kind = kind) (index : Nat) :
    t.SameFrame (processBucket heap (task, t) index).2 := by
  cases h with
  | cleaning hkind still =>
    obtain ⟨_, h⟩ := reapBucket_eq heap task t index
    rw [processBucket_cleaning hkind heap htask, h]
    exact ⟨rfl, rfl, rfl, rfl, t.active.size_setSlots _ _, rfl, rfl⟩
  | moving hkind target moving suits moved =>
    obtain ⟨_, h⟩ := migrateBucket_eq heap task moving.next index
    rw [processBucket_moving hkind heap htask, h]
    exact ⟨rfl, rfl, rfl, rfl, t.active.size_redirect _, rfl, rfl⟩

theorem Halfway.processBucket {kind : TaskKind} {t : Table} {index : Nat} (h : Halfway kind t index)
    (hindex : index < t.size) (heap : Heap) {task : Task} (htask : task.kind = kind) :
    Halfway kind (Task.processBucket heap (task, t) index).2 (index + 1) := by
  cases h with
  | cleaning hkind still =>
    obtain ⟨_, h⟩ := reapBucket_eq heap task t index
    rw [processBucket_cleaning hkind heap htask, h]
    refine .cleaning hkind ⟨still.alone, ?_⟩
    intro i
    rw [BucketArray.isMoved_setSlots _ hindex]
    exact still.unmoved i
  | moving hkind target moving suits moved =>
    obtain ⟨_, h⟩ := migrateBucket_eq heap task moving.next index
    rw [processBucket_moving hkind heap htask, h]
    refine .moving hkind _ ⟨rfl, ?_, ?_⟩ ?_ ?_
    · intro i
      rw [BucketArray.isMoved_appendAll moving.sized.pos]
      exact moving.unmoved i
    · rw [BucketArray.Sized, BucketArray.size_appendAll, BucketArray.log2_appendAll]
      exact moving.sized
    · obtain ⟨blank, hblank, hlog2, hepoch⟩ := suits
      refine ⟨blank, ?_, by rw [BucketArray.log2_appendAll, hlog2],
        by rw [BucketArray.epoch_appendAll, hepoch]⟩
      rw [← hblank]
      rfl
    · intro i hi
      rw [BucketArray.isMoved_redirect hindex]
      split
      · rfl
      · exact moved i (by omega)

/-! ## A chunk -/

/-- The part of a task that its chunks leave alone. -/
structure SameTask (task task' : Task) : Prop where
  kind : task'.kind = task.kind
  state : task'.state = task.state
  hasSource : task'.hasSource = task.hasSource
  chunk : task'.chunk = task.chunk

theorem SameTask.refl (task : Task) : SameTask task task := ⟨rfl, rfl, rfl, rfl⟩

theorem SameTask.trans {task₁ task₂ task₃ : Task} (h₁₂ : SameTask task₁ task₂)
    (h₂₃ : SameTask task₂ task₃) :
    SameTask task₁ task₃ where
  kind := h₂₃.kind.trans h₁₂.kind
  state := h₂₃.state.trans h₁₂.state
  hasSource := h₂₃.hasSource.trans h₁₂.hasSource
  chunk := h₂₃.chunk.trans h₁₂.chunk

/-- Does the end of the next chunk, as a 64-bit number, wrap around? -/
def wraps (task : Task) : Bool := 2 ^ 64 ≤ task.cursor + task.chunk

/-- May the next chunk take the task back over buckets whose slots it has moved? -/
def goesBack (task : Task) : Bool := task.kind ≠ .bulkDelete && task.wraps

theorem chunkEnd_le (task : Task) (size : Nat) : task.chunkEnd size ≤ size := Nat.min_le_right _ _

theorem chunkEnd_of_not_wraps {task : Task} (h : task.wraps = false) (size : Nat) :
    task.chunkEnd size = min (task.cursor + task.chunk) size := by
  have hlt : task.cursor + task.chunk < 2 ^ 64 := by
    rw [wraps, decide_eq_false_iff_not] at h
    omega
  rw [chunkEnd, Nat.mod_eq_of_lt hlt]

theorem processChunk_cursor (heap : Heap) (task : Task) (t : Table) :
    (processChunk heap task t).1.cursor = task.chunkEnd t.size := rfl

/-- A fold over consecutive numbers, with a property that knows how far it has come. -/
theorem foldl_range'_induction {β : Type} {f : β → Nat → β} {P : Nat → β → Prop}
    {start n : Nat} {x : β} (hstart : P start x)
    (hstep : ∀ i y, start ≤ i → i < start + n → P i y → P (i + 1) (f y i)) :
    P (start + n) ((List.range' start n).foldl f x) := by
  induction n generalizing start x with
  | zero => exact hstart
  | succ n ih =>
    rw [List.range'_succ, List.foldl_cons, show start + (n + 1) = start + 1 + n by omega]
    refine ih (hstep start x (Nat.le_refl _) (by omega) hstart) fun i y h₁ h₂ =>
      hstep i y (by omega) (by omega)

/-- What holds of a table that is being gone over, at a bucket: the task and the table are still
those of the beginning, and the buckets below are done with. -/
structure Stage (task₀ : Task) (t₀ : Table) (index : Nat) (task : Task) (t : Table) : Prop where
  same : SameTask task₀ task
  frame : t₀.SameFrame t
  halfway : Halfway task₀.kind t index

theorem Drives.stage {task : Task} {t : Table} (h : Drives task t) :
    Stage task t task.cursor task t :=
  ⟨.refl task, .refl t, h.halfway⟩

theorem Stage.processBucket {task₀ task : Task} {t₀ t : Table} {index : Nat}
    (h : Stage task₀ t₀ index task t) (hindex : index < t₀.size) (heap : Heap) :
    Stage task₀ t₀ (index + 1) (processBucket heap (task, t) index).1
      (Task.processBucket heap (task, t) index).2 := by
  have hlt : index < t.size := by
    rw [Table.size, h.frame.size]
    exact hindex
  refine ⟨?_, h.frame.trans (processBucket_sameFrame h.halfway heap h.same.kind index),
    h.halfway.processBucket hlt heap h.same.kind⟩
  obtain ⟨examined, moved, reclaimed, hcount⟩ := processBucket_fst h.halfway heap h.same.kind index
  rw [hcount]
  exact ⟨h.same.kind, h.same.state, h.same.hasSource, h.same.chunk⟩

/-- A property of the buckets below an index that holds below a smaller one, too. -/
def Antitone (P : Nat → Task → Table → Prop) : Prop :=
  ∀ i j task t, i ≤ j → P j task t → P i task t

section Induction

variable {P : Nat → Task → Table → Prop} {heap : Heap} {task : Task} {t : Table}

/-- **What a chunk keeps.** A property of the buckets done with, kept by each bucket that is
processed, is kept by a chunk. If the chunk ends before it begins, it must be a property that may
forget buckets. -/
theorem Drives.processChunk_induction (h : Drives task t)
    (hstep : ∀ i task' t', i < t.size → Stage task t i task' t' → P i task' t' →
      P (i + 1) (processBucket heap (task', t') i).1 (processBucket heap (task', t') i).2)
    (hcursor : ∀ i task' t' cursor, P i task' t' → P i { task' with cursor } t')
    (hback : task.wraps = true → Antitone P) (hstart : P task.cursor task t) :
    P (task.chunkEnd t.size) (processChunk heap task t).1 (processChunk heap task t).2 ∧
      Stage task t (task.chunkEnd t.size)
    (processChunk heap task t).1 (processChunk heap task t).2 := by
  have hle := task.chunkEnd_le t.size
  -- The invariant is the property together with the stage of the pass, at the bucket that comes
  -- next.
  have hfold := foldl_range'_induction (f := processBucket heap)
    (P := fun i x => P i x.1 x.2 ∧ Stage task t i x.1 x.2)
    (n := task.chunkEnd t.size - task.cursor) (x := (task, t)) ⟨hstart, h.stage⟩
    fun i x _ hi ⟨hP, hstage⟩ =>
      ⟨hstep i x.1 x.2 (by omega) hstage hP, hstage.processBucket (by omega) heap⟩
  obtain ⟨hP, hsame, hframe, hhalfway⟩ := hfold
  have hP := hcursor _ _ _ (task.chunkEnd t.size) hP
  refine ⟨?_, ⟨hsame.kind, hsame.state, hsame.hasSource, hsame.chunk⟩, hframe,
    hhalfway.of_le (by omega)⟩
  -- A chunk that wraps around processes nothing, and its end is below the bucket that it began
  -- with.
  cases hwraps : task.wraps with
  | true => exact hback hwraps _ _ _ _ (by omega) hP
  | false =>
    have hend := chunkEnd_of_not_wraps hwraps t.size
    have hcursor_le := h.cursor_le
    rwa [show task.cursor + (task.chunkEnd t.size - task.cursor) = task.chunkEnd t.size by omega]
      at hP

theorem Stage.drives (h : Drives task t) {task' : Task} {t' : Table}
    (hstage : Stage task t task'.cursor task' t') (hle : task'.cursor ≤ t.size) :
    Drives task' t' where
  owned := hstage.frame.owned.trans h.owned
  underWay := by
    rw [isUnderWay, hstage.same.state]
    exact h.underWay
  hasSource := hstage.same.hasSource.trans h.hasSource
  sized := by
    rw [BucketArray.Sized, hstage.frame.size, hstage.frame.log2]
    exact h.sized
  cursor_le := by
    rw [Table.size, hstage.frame.size]
    exact hle
  chunk_pos := hstage.same.chunk ▸ h.chunk_pos
  chunk_lt := hstage.same.chunk ▸ h.chunk_lt
  halfway := hstage.same.kind ▸ hstage.halfway

theorem Drives.processChunk_stage (h : Drives task t) (heap : Heap) :
    Stage task t (task.chunkEnd t.size) (processChunk heap task t).1 (processChunk heap task t).2 :=
  (h.processChunk_induction (P := fun _ _ _ => True) (fun _ _ _ _ _ _ => trivial)
    (fun _ _ _ _ _ => trivial)
    (fun _ _ _ _ _ _ _ => trivial) trivial).2

theorem Drives.processChunk (h : Drives task t) (heap : Heap) :
    Drives (processChunk heap task t).1 (Task.processChunk heap task t).2 :=
  Stage.drives h (h.processChunk_stage heap) (task.chunkEnd_le t.size)

/-! ## All chunks that remain -/

/-- Only the first of several chunks can wrap around: a chunk that leaves buckets over is smaller
than the table. -/
theorem Drives.not_wraps_processChunk (h : Drives task t) (hwraps : task.wraps = false)
    (hmore : (Task.processChunk heap task t).1.cursor < t.size) :
    (Task.processChunk heap task t).1.wraps = false := by
  have hsize : t.size ≤ 2 ^ 63 := h.sized.le
  have hcursor := processChunk_cursor heap task t
  have hchunk := (h.processChunk_stage heap).same.chunk
  rw [chunkEnd_of_not_wraps hwraps] at hcursor
  rw [wraps, decide_eq_false_iff_not, hchunk]
  omega

/-- How far a task is from its end, however its chunks end: a chunk that is larger than the table
either ends it or takes the task back. -/
def distance (task : Task) (size : Nat) : Nat :=
  if task.chunk < size then size - task.cursor else task.cursor

theorem Drives.distance_processChunk (h : Drives task t)
    (hmore : (Task.processChunk heap task t).1.cursor < t.size) :
    (Task.processChunk heap task t).1.distance t.size < task.distance t.size := by
  have hsize : t.size ≤ 2 ^ 63 := h.sized.le
  have hchunk := (h.processChunk_stage heap).same.chunk
  have hpos := h.chunk_pos
  have hlt := h.chunk_lt
  have hle := h.cursor_le
  rw [processChunk_cursor, chunkEnd] at hmore
  simp only [distance, hchunk, processChunk_cursor, chunkEnd]
  -- A sum below 2^64 takes the task forward; a larger one leaves less than the cursor.
  by_cases hsum : task.cursor + task.chunk < 2 ^ 64
  · rw [Nat.mod_eq_of_lt hsum] at hmore ⊢
    split <;> omega
  · have hmod : (task.cursor + task.chunk) % 2 ^ 64 = task.cursor + task.chunk - 2 ^ 64 := by
      rw [Nat.mod_eq_sub_mod (by omega), Nat.mod_eq_of_lt (by omega)]
    rw [hmod] at hmore ⊢
    rw [if_neg (by omega), if_neg (by omega)]
    omega

theorem distance_lt_enoughChunks (h : Drives task t) :
    task.distance t.size < enoughChunks t.size := by
  have hle := h.cursor_le
  rw [distance, enoughChunks]
  split <;> omega

/-- **What the rest of a pass keeps**, and that it comes to its end. -/
theorem Drives.processAll_induction {fuel : Nat} (h : Drives task t)
    (hfuel : task.distance t.size < fuel)
    (hstep : ∀ i task' t', i < t.size → Stage task t i task' t' → P i task' t' →
      P (i + 1) (processBucket heap (task', t') i).1 (processBucket heap (task', t') i).2)
    (hcursor : ∀ i task' t' cursor, P i task' t' → P i { task' with cursor } t')
    (hback : task.wraps = true → Antitone P) (hstart : P task.cursor task t) :
    P t.size (processAll heap fuel task t).2.1 (processAll heap fuel task t).2.2 ∧
      (processAll heap fuel task t).2.1.cursor = t.size ∧
      Stage task t t.size (processAll heap fuel task t).2.1 (processAll heap fuel task t).2.2 := by
  induction fuel generalizing task t with
  | zero => exact absurd hfuel (Nat.not_lt_zero _)
  | succ fuel ih =>
    have hchunk := h.processChunk_induction hstep hcursor hback hstart
    have hnext := h.processChunk heap
    have hend := processChunk_cursor heap task t
    have hle := task.chunkEnd_le t.size
    have hdistance : (Task.processChunk heap task t).1.cursor < t.size → _ :=
      h.distance_processChunk
    have hfirst : task.wraps = false → (Task.processChunk heap task t).1.cursor < t.size → _ :=
      h.not_wraps_processChunk
    rw [processAll]
    generalize Task.processChunk heap task t = pair at *
    obtain ⟨task₁, t₁⟩ := pair
    obtain ⟨hP, hstage⟩ := hchunk
    dsimp only at *
    have hsize : t₁.size = t.size := hstage.frame.size
    rw [← hend] at hP hstage
    cases hmore : task₁.hasMore t₁ with
    | false =>
      have hcursor_eq : task₁.cursor = t.size := by
        rw [hasMore, decide_eq_false_iff_not, hsize] at hmore
        omega
      rw [hcursor_eq] at hP hstage
      exact ⟨hP, hcursor_eq, hstage⟩
    | true =>
      rw [hasMore, decide_eq_true_eq, hsize] at hmore
      have hrest := ih (t := t₁) hnext (by rw [hsize]; have := hdistance hmore; omega)
        (fun i task' t' hi hstage' hP' => hstep i task' t' (by rwa [hsize] at hi)
          ⟨hstage.same.trans hstage'.same, hstage.frame.trans hstage'.frame,
            hstage.same.kind ▸ hstage'.halfway⟩ hP')
        (fun hw => hback (by
          cases hwraps : task.wraps with
          | true => rfl
          | false => rw [hfirst hwraps hmore] at hw; exact absurd hw (by decide))) hP
      simp only [if_true]
      rw [hsize] at hrest
      obtain ⟨hP', hcursor', hstage'⟩ := hrest
      exact ⟨hP', hcursor', hstage.same.trans hstage'.same, hstage.frame.trans hstage'.frame,
        hstage.same.kind ▸ hstage'.halfway⟩

end Induction

/-! ## Beginning and end -/

section Ends

variable {task task' : Task} {t t' : Table}

theorem prepare_eq_some (h : task.prepare t = some (task', t')) :
    task.state = .idle ∧ t.owned = false ∧ (task.kind = .grow → t.isMaxSize = false) ∧
      task' = { task with state := .running, hasSource := true } ∧
      t' = { t with
        owned := true
        successors := match targetArray task.kind t.active with
          | some target => [target]
          | none => t.successors } := by
  unfold prepare at h
  split at h
  · cases h
  · next hguard =>
    simp only [ne_eq, Bool.or_eq_true, decide_eq_true_eq, Bool.and_eq_true, not_or,
      Decidable.not_not, not_and, Bool.not_eq_true] at hguard
    obtain ⟨⟨hidle, hfree⟩, hmax⟩ := hguard
    rw [Option.some.injEq, Prod.mk.injEq] at h
    exact ⟨hidle, hfree, hmax, h.1.symm, h.2.symm⟩

theorem targetArray_ne_bulkDelete {kind : TaskKind} (hkind : kind ≠ .bulkDelete)
    (source : BucketArray) :
    ∃ log2 epoch, targetArray kind source = some (.empty log2 epoch) := by
  cases kind with
  | grow => exact ⟨_, _, rfl⟩
  | rehash seed => exact ⟨_, _, rfl⟩
  | bulkDelete => exact absurd rfl hkind

/-- The empty array that slots are going to be moved into, if the task moves any. -/
theorem halfway_prepare (h : task.prepare t = some (task', t')) (hstill : t.Still) :
    Halfway task'.kind t' 0 := by
  obtain ⟨-, -, -, rfl, rfl⟩ := prepare_eq_some h
  by_cases hkind : task.kind = .bulkDelete
  · refine .cleaning hkind ⟨?_, hstill.unmoved⟩
    simp only [hkind, targetArray]
    exact hstill.alone
  · obtain ⟨log2, epoch, htarget⟩ := targetArray_ne_bulkDelete hkind t.active
    refine .moving hkind (.empty log2 epoch) ⟨?_, BucketArray.unmoved_empty log2 epoch,
      BucketArray.sized_empty log2 epoch⟩
      ⟨_, htarget, rfl, rfl⟩ fun i hi => absurd hi (Nat.not_lt_zero i)
    simp only [htarget]

theorem drives_prepare (h : task.prepare t = some (task', t')) (hrest : t.AtRest)
    (hcursor : task.cursor = 0) (hpos : 0 < task.chunk) (hlt : task.chunk < 2 ^ 64) :
    Drives task' t' := by
  have hhalfway := halfway_prepare h hrest.still
  obtain ⟨-, -, -, rfl, rfl⟩ := prepare_eq_some h
  refine ⟨rfl, rfl, rfl, hrest.sized, ?_, hpos, hlt, ?_⟩
  · rw [hcursor]
    exact Nat.zero_le _
  · rwa [hcursor]

theorem publish_cleaning (hkind : task.kind = .bulkDelete) : publish task t = t := by
  simp only [publish, hkind]

theorem publish_moving (hkind : task.kind ≠ .bulkDelete) {target : BucketArray}
    (ht : t.successors = [target]) :
    publish task t = { t with active := target, successors := [] } := by
  cases hk : task.kind with
  | bulkDelete => exact absurd hk hkind
  | grow => simp only [publish, hk, ht]
  | rehash seed => simp only [publish, hk, ht]

/-- A table that was gone over to the end is given up at rest. -/
theorem Drives.atRest_finish (h : Drives task t) : (finish task t).2.2.AtRest := by
  cases h.halfway with
  | cleaning hkind still =>
    rw [finish, publish_cleaning hkind]
    exact ⟨rfl, ⟨still.alone, still.unmoved⟩, h.sized⟩
  | moving hkind target moving suits moved =>
    rw [finish, publish_moving hkind moving.next]
    exact ⟨rfl, ⟨rfl, moving.unmoved⟩, moving.sized⟩

/-- **A pass that is carried to its end** is finished from a table whose buckets are all done
with. -/
theorem Drives.complete_induction {P : Nat → Task → Table → Prop} {heap : Heap} (h : Drives task t)
    (hstep : ∀ i task' t', i < t.size → Stage task t i task' t' → P i task' t' →
      P (i + 1) (processBucket heap (task', t') i).1 (processBucket heap (task', t') i).2)
    (hcursor : ∀ i task' t' cursor, P i task' t' → P i { task' with cursor } t')
    (hback : task.wraps = true → Antitone P) (hstart : P task.cursor task t) :
    ∃ task' t', (complete heap task t).2 = finish task' t' ∧ P t.size task' t' ∧ Drives task' t' ∧
      task'.cursor = t'.size ∧ Stage task t t.size task' t' := by
  have hall := h.processAll_induction (distance_lt_enoughChunks h) hstep hcursor hback hstart
  rw [complete]
  generalize processAll heap (enoughChunks t.size) task t = result at hall ⊢
  obtain ⟨pauses, task', t'⟩ := result
  obtain ⟨hP, hend, hstage⟩ := hall
  dsimp only at hend hstage
  have hstage' : Stage task t task'.cursor task' t' := by
    rw [hend]
    exact hstage
  exact ⟨task', t', rfl, hP, hstage'.drives h (Nat.le_of_eq hend),
    hend.trans hstage.frame.size.symm, hstage⟩

theorem Drives.complete_stage (h : Drives task t) (heap : Heap) :
    ∃ task' t', (complete heap task t).2 = finish task' t' ∧ Drives task' t' ∧
      task'.cursor = t'.size ∧
      Stage task t t.size task' t' := by
  obtain ⟨task', t', heq, -, hdrives, hend, hstage⟩ :=
    h.complete_induction (P := fun _ _ _ => True) (fun _ _ _ _ _ _ => trivial)
      (fun _ _ _ _ _ => trivial) (fun _ _ _ _ _ _ _ => trivial) trivial
  exact ⟨task', t', heq, hdrives, hend, hstage⟩

/-- The cells and the process log have no part in the hold of a task. -/
theorem Drives.aside (h : Drives task t) (cells : CellStore) (notices : Array Notice) :
    Drives task { t with cells, notices } where
  owned := h.owned
  underWay := h.underWay
  hasSource := h.hasSource
  sized := h.sized
  cursor_le := h.cursor_le
  chunk_pos := h.chunk_pos
  chunk_lt := h.chunk_lt
  halfway := by
    cases h.halfway with
    | cleaning hkind still => exact .cleaning hkind ⟨still.alone, still.unmoved⟩
    | moving hkind target moving suits moved =>
      exact .moving hkind target ⟨moving.next, moving.unmoved, moving.sized⟩ suits moved

/-! ## What calls come to -/

theorem doChunk_of_ne_running (h : task.state ≠ .running) (heap : Heap) (t : Table) :
    doChunk heap task t = .error (.invalidState TaskState.running.name task.state.name) := by
  rw [doChunk, require, if_neg h]
  rfl

theorem commit_of_ne_running (h : task.state ≠ .running) (t : Table) :
    commit task t = .error (.invalidState TaskState.running.name task.state.name) := by
  rw [commit, require, if_neg h]
  rfl

theorem Drives.requireSource_eq (h : Drives task t) : task.requireSource = .ok () :=
  if_pos h.hasSource

theorem Drives.doChunk_eq {heap : Heap} (h : Drives task t) (hrunning : task.state = .running) :
    doChunk heap task t =
      .ok ((Task.processChunk heap task t).1.hasMore (Task.processChunk heap task t).2,
        (Task.processChunk heap task t).1, (Task.processChunk heap task t).2) := by
  rw [doChunk, require, if_pos hrunning, h.requireSource_eq]
  rfl

theorem Drives.hasMore_iff (h : Drives task t) : task.hasMore t = true ↔ task.cursor ≠ t.size := by
  have hle := h.cursor_le
  rw [hasMore, decide_eq_true_eq]
  omega

theorem Drives.hasMore_eq_false_iff (h : Drives task t) :
    task.hasMore t = false ↔ task.cursor = t.size := by
  rw [← Bool.not_eq_true, h.hasMore_iff, ne_eq, Decidable.not_not]

theorem Drives.commit_eq (h : Drives task t) (hrunning : task.state = .running)
    (hend : task.cursor = t.size) : commit task t = .ok (finish task t) := by
  rw [commit, require, if_pos hrunning, h.requireSource_eq]
  simp only [h.hasMore_eq_false_iff.2 hend]
  rfl

theorem Drives.commit_of_ne_size (h : Drives task t) (hrunning : task.state = .running)
    (hend : task.cursor ≠ t.size) :
    commit task t = .error (.invalidState ("all " ++ toString t.size ++ " buckets processed")
      (toString task.cursor ++ " processed")) := by
  rw [commit, require, if_pos hrunning, h.requireSource_eq]
  simp only [h.hasMore_iff.2 hend]
  rfl

/-- A task that is under way drives its table, paused or not. -/
theorem Drives.restate {state : TaskState} (h : Drives task t)
    (hunder : { task with state }.isUnderWay = true) :
    Drives { task with state } t where
  owned := h.owned
  underWay := hunder
  hasSource := h.hasSource
  sized := h.sized
  cursor_le := h.cursor_le
  chunk_pos := h.chunk_pos
  chunk_lt := h.chunk_lt
  halfway := h.halfway

theorem Drives.resumed (h : Drives task t) :
    Drives { task with state := .running } (t.notify task.abandonNotice) :=
  (h.aside t.cells _).restate rfl

/-- What becomes of a table when the task that drives it is given up. -/
theorem abandon_eq {heap : Heap} (h : Drives task t) :
    abandon heap task t =
      (complete heap { task with state := .running } (t.notify task.abandonNotice)).2.2.2 := by
  rw [abandon, h.underWay]
  rfl

theorem chunkBuckets_finish (task : Task) (t : Table) :
    (finish task t).2.2.chunkBuckets = t.chunkBuckets := by
  cases hkind : task.kind <;> cases hnext : t.successors <;> simp [finish, publish, hkind, hnext]

/-- A task that is carried to its end leaves the table at rest. -/
theorem Drives.atRest_complete (h : Drives task t) (heap : Heap) :
    (complete heap task t).2.2.2.AtRest ∧
      (complete heap task t).2.2.2.chunkBuckets = t.chunkBuckets := by
  obtain ⟨task', t', heq, hdrives, -, hstage⟩ := h.complete_stage heap
  rw [heq]
  exact ⟨hdrives.atRest_finish, (chunkBuckets_finish _ _).trans hstage.frame.chunkBuckets⟩

theorem Drives.atRest_abandon (h : Drives task t) (heap : Heap) :
    (abandon heap task t).AtRest ∧ (abandon heap task t).chunkBuckets = t.chunkBuckets := by
  rw [abandon_eq h]
  exact h.resumed.atRest_complete heap

/-- A new task, run where it can start. -/
theorem drives_prepare_new {kind : TaskKind} (h : (Task.new t kind).prepare t = some (task', t'))
    (hrest : t.AtRest) (hlt : t.chunkBuckets < 2 ^ 64) : Drives task' t' := by
  refine drives_prepare h hrest rfl ?_ ?_
  · show 0 < max 1 t.chunkBuckets
    omega
  · show max 1 t.chunkBuckets < 2 ^ 64
    omega

/-- A task that cannot start leaves everything as it is. -/
theorem run_of_owned (h : t.owned = true) (heap : Heap) (kind : TaskKind) :
    (run heap (.new t kind) t).table = t := by
  have hprepare : (Task.new t kind).prepare t = none := by simp [prepare, h]
  rw [run, hprepare]

theorem atRest_run (hrest : t.AtRest) (hlt : t.chunkBuckets < 2 ^ 64) (heap : Heap)
    (kind : TaskKind) :
    (run heap (.new t kind) t).table.AtRest ∧
      (run heap (.new t kind) t).table.chunkBuckets = t.chunkBuckets := by
  rw [run]
  cases hprepare : (Task.new t kind).prepare t with
  | none => exact ⟨hrest, rfl⟩
  | some pair =>
    obtain ⟨task', t'⟩ := pair
    have hdone := (drives_prepare_new hprepare hrest hlt).atRest_complete heap
    obtain ⟨-, -, -, -, rfl⟩ := prepare_eq_some hprepare
    exact hdone

end Ends

end Task

end WeakIntern
