import WeakIntern.Proofs.Accounting
/-!
# Redirects lead somewhere

A marked bucket sends lookups and inserts on to the next array. In every reachable world they get
there: while slots are being moved there is exactly one array behind the active one, it is the one
that the task under way moves them into, and none of its buckets is marked; at any other time
nothing is marked and nothing is behind (`redirects_followable`). So no walk reads more than two
arrays, none comes to the end of them, and no insert is stranded.

The marked buckets are those below the cursor of the task that moves slots, unless a chunk that
wraps around takes its cursor back (`marks_stay_after_wrapped_chunk`).
-/

namespace WeakIntern

/-- Is the task moving slots from one array to another? -/
def Task.isMoving (task : Task) : Bool := task.isUnderWay && task.kind ≠ .bulkDelete

theorem Task.isMoving_iff {task : Task} :
    task.isMoving = true ↔ task.isUnderWay = true ∧ task.kind ≠ .bulkDelete := by
  simp [isMoving]

namespace Table

variable {heap : Heap} {limit : Nat} {t : Table}

/-- On the way of a content there is a bucket that is not marked. -/
def Decides (arrays : List BucketArray) (s : String) : Prop :=
  ∃ a ∈ arrays, a.isMoved (a.home s) = false

theorem Decides.tail {a : BucketArray} {rest : List BucketArray} {s : String}
    (h : Decides (a :: rest) s) (hmark : a.isMoved (a.home s) = true) : Decides rest s := by
  obtain ⟨b, hb, hunmoved⟩ := h
  rcases List.mem_cons.1 hb with rfl | hb
  · rw [hmark] at hunmoved
    cases hunmoved
  · exact ⟨b, hb, hunmoved⟩

/-- A lookup does not look behind an array that decides. -/
theorem searchArrays_append {key : LookupKey} {arrays : List BucketArray}
    (h : Decides arrays (key.content heap)) (more : List BucketArray) :
    searchArrays heap limit key (arrays ++ more) = searchArrays heap limit key arrays := by
  induction arrays with
  | nil =>
    obtain ⟨a, ha, -⟩ := h
    exact absurd ha List.not_mem_nil
  | cons a rest ih =>
    rw [List.cons_append, searchArrays, searchArrays]
    -- Either the first array decides, and nothing behind it is read, or the way goes on without it.
    cases hmark : a.isMoved (a.home (key.content heap)) with
    | false =>
      have hredirected : (a.bucketAt (a.placeOf (a.epoch.hash (key.content heap)))).redirected =
        false := hmark
      simp only [hredirected, Bool.not_false, Bool.or_true, if_true]
    | true => rw [ih (h.tail hmark)]

/-- Neither does an insert. -/
theorem land_append {o : ObjectId} {arrays : List BucketArray} (h : Decides arrays (heap.content o))
    (depth : Nat) (more : List BucketArray) :
    land heap limit o depth (arrays ++ more) = land heap limit o depth arrays := by
  induction arrays generalizing depth with
  | nil =>
    obtain ⟨a, ha, -⟩ := h
    exact absurd ha List.not_mem_nil
  | cons a rest ih =>
    cases hmark : a.isMoved (a.home (heap.content o)) with
    | false =>
      have hredirected : (a.bucketAt (a.placeOf (a.epoch.hash (heap.content o)))).redirected =
        false := hmark
      simp only [List.cons_append, land, hredirected, Bool.false_eq_true, if_false]
    | true => rw [List.cons_append, land_of_isMoved hmark, land_of_isMoved hmark, ih (h.tail hmark)]

/-- What a table has to be for its redirects to lead somewhere. -/
structure Leads (t : Table) : Prop where
  /-- There are no more than two arrays. -/
  atMostTwo : (t.active :: t.successors).length ≤ 2
  /-- One of them decides on each content. -/
  decides : ∀ s, Decides (t.active :: t.successors) s
  /-- A lookup does not come to the end of the arrays: more of them would make no difference. -/
  lookup : ∀ (heap : Heap) (key : LookupKey) (more : List BucketArray),
    searchArrays heap t.alarmLength key (t.active :: t.successors ++ more) = t.get? heap key
  /-- Nor does an insert. -/
  landing : ∀ (heap : Heap) (o : ObjectId) (more : List BucketArray),
    land heap t.alarmLength o 0 (t.active :: t.successors ++ more) =
      land heap t.alarmLength o 0 (t.active :: t.successors)
  /-- An insert finds a place, or a string that is there. -/
  insert : ∀ (heap : Heap) (o : ObjectId) (ref : WeakRef),
    (t.insertIfAbsent heap o ref).1.value = .linked ∨ ∃ p,
    (t.insertIfAbsent heap o ref).1.value = .existing p

theorem Formed.decides (h : t.Formed) (s : String) : Decides (t.active :: t.successors) s := by
  cases h with
  | still still => exact ⟨t.active, List.mem_cons_self, still.unmoved _⟩
  | moving target moving =>
    rw [moving.next]
    exact ⟨target, List.mem_cons_of_mem _ List.mem_cons_self, moving.unmoved _⟩

theorem Formed.leads (h : t.Formed) : t.Leads where
  atMostTwo := by
    cases h with
    | still still => simp [still.alone]
    | moving target moving => simp [moving.next]
  decides := h.decides
  lookup heap key more := searchArrays_append (h.decides _) more
  landing heap o more := land_append (h.decides _) 0 more
  insert heap o ref := by
    have hins := insertIfAbsent_inserted h heap o ref
    generalize (t.insertIfAbsent heap o ref).1.value = placement,
      (t.insertIfAbsent heap o ref).2 = t' at hins ⊢
    cases hins with
    | existing p notices a hmem hfind => exact .inr ⟨p, rfl⟩
    | active hmark hfind => exact .inl rfl
    | next target moving hmark hfind => exact .inl rfl

end Table

namespace Task

variable {task : Task} {t : Table}

/-- Behind the table of a task that moves slots is the array it moves them into. -/
theorem Drives.moving (h : task.Drives t) (hkind : task.kind ≠ .bulkDelete) :
    ∃ target, t.Moving target ∧ Suits task.kind t.active target ∧ ∀ j, j < task.cursor →
      t.active.isMoved j = true := by
  cases h.halfway with
  | cleaning hcleaning still => exact absurd hcleaning hkind
  | moving _ target moving suits moved => exact ⟨target, moving, suits, moved⟩

theorem Drives.still (h : task.Drives t) (hkind : task.kind = .bulkDelete) : t.Still := by
  cases h.halfway with
  | cleaning _ still => exact still
  | moving hmoving target moving suits moved => exact absurd hkind hmoving

end Task

namespace World

/-- The redirects of a table and the task that leaves them are in step. -/
structure Followable (w : World) : Prop where
  /-- What is behind the active array is the array that the task moves slots into, and slots are
  moved no further. -/
  target : ∀ task ∈ w.tasks, task.isMoving = true → ∃ target, w.table.successors = [target] ∧
    Task.Suits task.kind w.table.active target ∧ target.Unmoved
  /-- The task marks what it has been over. -/
  marked : ∀ task ∈ w.tasks, task.isMoving = true → ∀ j, j < task.cursor →
    w.table.active.isMoved j = true
  /-- Without such a task nothing is marked and nothing is behind. -/
  still : (∀ task ∈ w.tasks, task.isMoving = false) → w.table.Still
  leads : w.table.Leads

/-- A bucket is marked just if the task that moves slots has been over it. -/
def MarksPassed (w : World) : Prop :=
  ∀ j, w.table.active.isMoved j = true ↔ ∃ task ∈ w.tasks, task.isMoving = true ∧ j < task.cursor

variable {cells : CellStore} {w : World}

theorem Orderly.drives_of_mem (h : w.Orderly) {task : Task} (htask : task ∈ w.tasks)
    (hunder : task.isUnderWay = true) : task.Drives w.table := by
  obtain ⟨i, hi⟩ := List.mem_iff_getElem?.1 htask
  exact h.drives i task hi hunder

/-- A table in which no task moves slots, though one may be cleaning it. -/
theorem Orderly.still (h : w.Orderly) (hnone : ∀ task ∈ w.tasks, task.isMoving = false) :
    w.table.Still := by
  rcases h.cases with hrest | ⟨i, task, hi, hunder, hdrives⟩
  · exact hrest.still
  · refine hdrives.still ?_
    have hmoving := hnone task (List.mem_of_getElem? hi)
    rw [Task.isMoving, hunder, Bool.true_and, decide_eq_false_iff_not, Decidable.not_not] at hmoving
    exact hmoving

theorem Orderly.followable (h : w.Orderly) : w.Followable where
  target task htask hmoving := by
    obtain ⟨hunder, hkind⟩ := Task.isMoving_iff.1 hmoving
    obtain ⟨target, moving, suits, -⟩ := (h.drives_of_mem htask hunder).moving hkind
    exact ⟨target, moving.next, suits, moving.unmoved⟩
  marked task htask hmoving := by
    obtain ⟨hunder, hkind⟩ := Task.isMoving_iff.1 hmoving
    obtain ⟨target, -, -, moved⟩ := (h.drives_of_mem htask hunder).moving hkind
    exact moved
  still := h.still
  leads := h.formed.leads

/-- If no task ever went back, nothing is marked ahead of one. -/
theorem Kept.marksPassed (h : w.Kept cells) : w.MarksPassed := by
  intro j
  constructor
  · intro hmark
    by_cases hall : ∀ task ∈ w.tasks, task.isMoving = false
    · rw [(h.orderly.still hall).unmoved j] at hmark
      cases hmark
    · simp only [Classical.not_forall, Bool.not_eq_false] at hall
      obtain ⟨task, htask, hmoving⟩ := hall
      refine ⟨task, htask, hmoving, Nat.lt_of_not_le ?_⟩
      intro hle
      -- A mark at or ahead of the cursor could only have been left by a chunk that went back.
      obtain ⟨i, hi⟩ := List.mem_iff_getElem?.1 htask
      rw [h.clear i task hi (Task.isMoving_iff.1 hmoving).1 j (.inr hle)] at hmark
      cases hmark
  · rintro ⟨task, htask, hmoving, hj⟩
    exact h.orderly.followable.marked task htask hmoving j hj

/-- **Redirects can be followed** after all moves, of all kinds and in any order. The marked buckets
are those that the task under way has been over, if no task went back. -/
theorem redirects_followable (settings : Settings) (cells : CellStore) (heap : Heap)
    (moves : List Move) :
    ((start settings cells heap).run moves).Followable ∧
      ((start settings cells heap).neverGoesBack moves = true →
        ((start settings cells heap).run moves).MarksPassed) :=
  ⟨(orderly_run settings cells heap moves).followable,
    fun hback => ((kept_start settings cells heap).run hback).marksPassed⟩

/-- A string is moved, and another one is inserted behind the redirect. -/
def redirectingMoves : List Move :=
  [.act (.allocate "a"), .act (.insert ⟨0⟩), .act (.create .grow none), .act (.prepare 0),
    .act (.chunk 0), .act (.allocate "b"), .act (.insert ⟨1⟩)]

theorem redirects_followable_midway :
    (start oneBucket { name := "cells" } {}).neverGoesBack redirectingMoves = true ∧
      ((start oneBucket { name := "cells" } {}).run redirectingMoves).MarksPassed :=
  ⟨by decide, (redirects_followable oneBucket { name := "cells" } {} redirectingMoves).2
    (by decide)⟩

/-- A task with very large chunks is asked for one more after its last bucket. -/
def unmarkingMoves : List Move :=
  [.act (.create .grow (some 0xffffffffffffffff)), .act (.prepare 0), .act (.chunk 0),
    .act (.chunk 0)]

/-- Its cursor is back at the first bucket, and the bucket is still marked. -/
theorem marks_stay_after_wrapped_chunk :
    let w := (start oneBucket { name := "cells" } {}).run unmarkingMoves
    w.tasks.map Task.cursor = [0] ∧ w.table.active.isMoved 0 = true ∧ ¬ w.MarksPassed := by
  intro w
  have hcursor : ∀ task ∈ w.tasks, ¬ 0 < task.cursor := by decide
  have hmark : w.table.active.isMoved 0 = true := by decide
  refine ⟨by decide, hmark, fun h => ?_⟩
  obtain ⟨task, htask, -, hlt⟩ := (h 0).1 hmark
  exact hcursor task htask hlt

end World

end WeakIntern
