import WeakIntern.Proofs.Finishing
import WeakIntern.Proofs.Settling
/-!
# The progress of a task

From its beginning on, a task processes the buckets of its table one after another, and each of them
once, whatever runs between its chunks. A chunk that is asked for after the last bucket changes
nothing. Whenever the task is given up, the table becomes what it would have become if the task had
been carried on (`task_advances`).

The cursor comes forward as long as the end of a chunk does not wrap around; when it does, buckets
are processed again (`itinerary_repeats_after_wrapped_chunk`).
-/

namespace WeakIntern

namespace Task

variable {heap : Heap} {task : Task} {t : Table}

theorem Drives.cursor_le_chunkEnd (h : Drives task t) (hwraps : task.wraps = false) :
    task.cursor ≤ task.chunkEnd t.size := by
  have hle := h.cursor_le
  rw [chunkEnd_of_not_wraps hwraps]
  omega

/-- A chunk goes on where the last one has ended. -/
theorem Drives.range_append_nextBuckets (h : Drives task t) (hwraps : task.wraps = false) :
    List.range task.cursor ++ task.nextBuckets t.size = List.range (task.chunkEnd t.size) := by
  have hle := h.cursor_le_chunkEnd hwraps
  have happend :=
    List.range'_append_1 (s := 0) (m := task.cursor) (n := task.chunkEnd t.size - task.cursor)
  rw [Nat.zero_add, Nat.add_sub_cancel' hle] at happend
  rw [List.range_eq_range', List.range_eq_range', nextBuckets, happend]

/-- A chunk after the last bucket does nothing. -/
theorem processChunk_of_eq_size (hwraps : task.wraps = false) (hend : task.cursor = t.size) :
    processChunk heap task t = (task, t) := by
  have hstop : task.chunkEnd t.size = task.cursor := by
    rw [chunkEnd_of_not_wraps hwraps]
    omega
  have hnone : task.nextBuckets t.size = [] := by
    rw [nextBuckets, hstop, Nat.sub_self]
    rfl
  rw [processChunk, hnone, hstop]
  rfl

end Task

namespace World

/-! ## The way of a task -/

/-- The buckets that task `i` processes in a move that asks it for a chunk. -/
def visits (w : World) (i : Nat) : Move → List Nat
  | .act (.chunk j) =>
    if j = i then
      w.tasks[i]?.elim [] fun task => if task.state = .running
        then task.nextBuckets w.table.size else []
    else []
  | _ => []

/-- The buckets that task `i` processes in the course of some moves. -/
def itinerary (w : World) (i : Nat) : List Move → List Nat
  | [] => []
  | m :: rest => w.visits i m ++ (w.move m).1.itinerary i rest

/-- Does a move ask task `i` for a chunk whose end wraps around? -/
def wrapsAt (w : World) (i : Nat) : Move → Bool
  | .act (.chunk j) => j = i && w.tasks[i]?.any fun task => task.state = .running && task.wraps
  | _ => false

/-- No move does. -/
def neverWraps (w : World) (i : Nat) : List Move → Bool
  | [] => true
  | m :: rest => !w.wrapsAt i m && (w.move m).1.neverWraps i rest

theorem neverWraps_append (w : World) (i : Nat) (before after : List Move) :
    w.neverWraps i (before ++ after) =
      (w.neverWraps i before && (w.run before).neverWraps i after) := by
  induction before generalizing w with
  | nil => rfl
  | cons m rest ih =>
    rw [List.cons_append, neverWraps, neverWraps, ih, Bool.and_assoc]
    rfl

variable {w : World} {i : Nat} {task : Task}

theorem update_self (hi : w.tasks[i]? = some task) : w.update i task w.table = w := by
  obtain ⟨hlt, rfl⟩ := List.getElem?_eq_some_iff.1 hi
  rw [update, List.set_getElem_self]

theorem visits_of_ne {m : Move} (hne : m ≠ .act (.chunk i)) : w.visits i m = [] := by
  unfold visits
  split
  · next j => exact if_neg fun hji => hne (by rw [hji])
  · rfl

theorem visits_chunk (hi : w.tasks[i]? = some task) :
    w.visits i (.act (.chunk i)) = if task.state = .running then task.nextBuckets w.table.size
      else [] := by
  simp [visits, hi]

theorem wrapsAt_chunk (hi : w.tasks[i]? = some task) (hrunning : task.state = .running) :
    w.wrapsAt i (.act (.chunk i)) = task.wraps := by
  simp [wrapsAt, hi, hrunning]

/-- **A move takes a task forward**, over the buckets from its cursor on. -/
theorem Orderly.visits_move (h : w.Orderly) (hi : w.tasks[i]? = some task) {m : Move}
    (hwraps : w.wrapsAt i m = false) :
    ∃ task', (w.move m).1.tasks[i]? = some task' ∧ task.cursor ≤ task'.cursor ∧
      List.range task.cursor ++ w.visits i m = List.range task'.cursor := by
  by_cases hm : m = .act (.chunk i)
  · subst hm
    rw [visits_chunk hi]
    by_cases hrunning : task.state = .running
    · have hdrives := h.drives i task hi (Task.isUnderWay_iff.2 (.inl hrunning))
      rw [wrapsAt_chunk hi hrunning] at hwraps
      refine ⟨(task.processChunk w.heap w.table).1, ?_, hdrives.cursor_le_chunkEnd hwraps, ?_⟩
      · rw [World.move, step_chunk_eq hi hdrives hrunning]
        exact getElem?_update hi _ _
      · rw [if_pos hrunning]
        exact hdrives.range_append_nextBuckets hwraps
    · refine ⟨task, ?_, Nat.le_refl _, by rw [if_neg hrunning, List.append_nil]⟩
      rw [World.move, step_of_ne_state hi rfl hrunning]
      exact hi
  · obtain ⟨task', hi', hcalled⟩ := h.move_called hi m
    have hcursor : task'.cursor = task.cursor := by
      cases hcalled with
      | chunk hmove hrunning hdrives => exact absurd hmove hm
      | same | prepared _ | paused _ | resumed _ | retired => rfl
    exact ⟨task', hi', Nat.le_of_eq hcursor.symm, by rw [visits_of_ne hm, List.append_nil, hcursor]⟩

/-- A run does, too. -/
theorem Orderly.itinerary_run (h : w.Orderly) (hi : w.tasks[i]? = some task) {moves : List Move}
    (hwraps : w.neverWraps i moves = true) :
    ∃ task', (w.run moves).tasks[i]? = some task' ∧ task.cursor ≤ task'.cursor ∧
      List.range task.cursor ++ w.itinerary i moves = List.range task'.cursor := by
  induction moves generalizing w task with
  | nil => exact ⟨task, hi, Nat.le_refl _, List.append_nil _⟩
  | cons m rest ih =>
    rw [neverWraps, Bool.and_eq_true, Bool.not_eq_true'] at hwraps
    obtain ⟨task₁, hi₁, hle₁, hrange₁⟩ := h.visits_move hi hwraps.1
    obtain ⟨task₂, hi₂, hle₂, hrange₂⟩ := ih (h.move m) hi₁ hwraps.2
    refine ⟨task₂, hi₂, Nat.le_trans hle₁ hle₂, ?_⟩
    rw [itinerary, ← List.append_assoc, hrange₁, hrange₂]

/-! ## From the beginning on -/

/-- How task `i` comes forward in the course of some moves. -/
structure Advances (w : World) (i : Nat) (moves : List Move) : Prop where
  /-- Its cursor never decreases. -/
  forward : ∀ sofar rest, moves = sofar ++ rest → ∀ task task',
    (w.run sofar).tasks[i]? = some task →
    (w.run moves).tasks[i]? = some task' → task.cursor ≤ task'.cursor
  /-- It has processed each bucket below its cursor once, in order, and no other. -/
  once : ∀ task, (w.run moves).tasks[i]? = some task → w.itinerary i moves = List.range task.cursor
  /-- A chunk says that nothing remains when the cursor is at the end. -/
  ended : ∀ task more, ((w.run moves).step (.chunk i)).2 = .more more →
    ((w.run moves).step (.chunk i)).1.tasks[i]? = some task →
    (more = false ↔ task.cursor = ((w.run moves).step (.chunk i)).1.table.size)
  /-- At the end, a further chunk says so again and changes nothing. -/
  finished : ∀ task, (w.run moves).tasks[i]? = some task → task.state = .running →
    task.cursor = (w.run moves).table.size → (w.run moves).wrapsAt i (.act (.chunk i)) = false →
    (w.run moves).step (.chunk i) = (w.run moves, .more false)
  /-- When it commits, it has processed all buckets. -/
  all : ∀ summary, ((w.run moves).step (.commit i)).2 = .summary summary →
    w.itinerary i moves = List.range (w.run moves).table.size

/-- If task `i` is given up, its table becomes what it would become if the task were carried on, and
is free. -/
structure FinishesGivenUp (w : World) (i : Nat) : Prop where
  carriesOn : ∃ w', CarriesOn i w w'
  same : ∀ w', CarriesOn i w w' → w'.table.SameButLog (w.step (.abandon i)).1.table
  free : (w.step (.abandon i)).1.table.owned = false

theorem Orderly.begun_eq (h : w.Orderly) (hprepare : (w.step (.prepare i)).2 = .prepared true) :
    ∃ task, (w.begun i).tasks[i]? = some task ∧ task.state = .running ∧ task.cursor = 0 := by
  cases hi : w.tasks[i]? with
  | none =>
    rw [World.step, World.drive, hi] at hprepare
    cases hprepare
  | some task =>
    cases hsome : task.prepare w.table with
    | none =>
      rw [step_prepare_of_none hi hsome] at hprepare
      cases hprepare
    | some pair =>
      obtain ⟨task', t'⟩ := pair
      rw [begun, step_prepare_eq hi hsome]
      obtain ⟨hidle, -, -, rfl, -⟩ := Task.prepare_eq_some hsome
      have hwf := h.wellFormed task (List.mem_of_getElem? hi)
      exact ⟨_, getElem?_update hi _ t', rfl, (hwf.fresh hidle).1⟩

theorem Orderly.advances (h : w.Orderly) (hi : w.tasks[i]? = some task) (hcursor : task.cursor = 0)
    {moves : List Move} (hwraps : w.neverWraps i moves = true) : w.Advances i moves := by
  have hrun : (w.run moves).Orderly := run_induction (fun _ m h => h.move m) h moves
  obtain ⟨task', hi', -, hrange⟩ := h.itinerary_run hi hwraps
  rw [hcursor, List.range_zero, List.nil_append] at hrange
  constructor
  -- What runs after a part of the moves is a run of its own, from a cursor that is there already.
  · rintro sofar rest rfl before after hbefore hafter
    rw [neverWraps_append, Bool.and_eq_true] at hwraps
    have hsofar : (w.run sofar).Orderly := run_induction (fun _ m h => h.move m) h sofar
    obtain ⟨task'', hi'', hle, -⟩ := hsofar.itinerary_run hbefore hwraps.2
    rw [run_append] at hafter
    cases Option.some.inj (hafter.symm.trans hi'')
    exact hle
  · intro after hafter
    cases Option.some.inj (hi'.symm.trans hafter)
    exact hrange
  -- A chunk answers only a running task, and leaves it with a table whose end it can be compared
  -- to.
  · intro after more hmore hafter
    by_cases hrunning : task'.state = .running
    · have hdrives := hrun.drives i task' hi' (Task.isUnderWay_iff.2 (.inl hrunning))
      have hnext := hdrives.processChunk (w.run moves).heap
      have hstep := step_chunk_eq hi' hdrives hrunning
      rw [hstep] at hmore hafter ⊢
      cases Option.some.inj ((getElem?_update hi' _ _).symm.trans hafter)
      cases hmore
      exact hnext.hasMore_eq_false_iff
    · rw [step_of_ne_state hi' rfl hrunning] at hmore
      cases hmore
  · intro after hafter hrunning hend hwraps'
    have hdrives := hrun.drives i after hafter (Task.isUnderWay_iff.2 (.inl hrunning))
    rw [wrapsAt_chunk hafter hrunning] at hwraps'
    have hmore : after.hasMore (w.run moves).table = false := hdrives.hasMore_eq_false_iff.2 hend
    rw [step_chunk_eq hafter hdrives hrunning, Task.processChunk_of_eq_size hwraps' hend, hmore,
      update_self hafter]
  · intro summary hcommit
    obtain ⟨after, hafter, -, hend, -⟩ := commit_eq_summary hrun hcommit
    cases Option.some.inj (hi'.symm.trans hafter)
    rw [hrange, hend]

theorem Orderly.finishesGivenUp (h : w.Orderly) (hi : w.tasks[i]? = some task)
    (hunder : task.isUnderWay = true) :
    w.FinishesGivenUp i := by
  obtain ⟨hcarries, hsame⟩ := h.abandon_carriesOn hi hunder
  refine ⟨hcarries, hsame, ?_⟩
  rw [World.step, World.drive, hi]
  exact ((h.drives i task hi hunder).atRest_abandon w.heap).1.free

/-- **The progress of a task.** From its beginning on, in the course of any moves, a task comes
forward bucket by bucket, unless the end of one of its chunks wraps around; and at any time while it
is under way, giving it up is carrying it to its end. -/
theorem task_advances (settings : Settings) (cells : CellStore) (heap : Heap)
    (before during : List Move) (i : Nat)
    (hprepare : (((start settings cells heap).run before).step (.prepare i)).2 = .prepared true) :
    ((((start settings cells heap).run before).begun i).neverWraps i during = true →
        (((start settings cells heap).run before).begun i).Advances i during) ∧
      ∀ task, ((((start settings cells heap).run before).begun i).run during).tasks[i]? =
        some task →
        task.isUnderWay = true →
          ((((start settings cells heap).run before).begun i).run during).FinishesGivenUp i := by
  have horderly := orderly_run settings cells heap before
  have hbegun : (((start settings cells heap).run before).begun i).Orderly :=
    horderly.step (.prepare i)
  obtain ⟨first, hfirst, -, hcursor⟩ := horderly.begun_eq hprepare
  refine ⟨fun hwraps => hbegun.advances hfirst hcursor hwraps, fun task hi hunder => ?_⟩
  exact (run_induction (fun _ m h => h.move m) hbegun during).finishesGivenUp hi hunder

/-- The task of `beforeGrowth`, asked for a second chunk after the last bucket, and with a pause. -/
theorem task_advances_of_growth :
    let w := ((start oneBucket { name := "cells" } {}).run beforeGrowth).begun 0
    let during : List Move := duringGrowth ++ [.act (.chunk 0), .act (.pause 0)]
    w.Advances 0 during ∧ w.itinerary 0 during = [0] ∧ (w.run during).FinishesGivenUp 0 := by
  intro w during
  have hadvances := task_advances oneBucket { name := "cells" } {} beforeGrowth during 0 (by decide)
  exact ⟨hadvances.1 (by decide), by decide, hadvances.2 _ rfl (by decide)⟩

/-- The only bucket is processed twice, and the chunk between says that something remains. -/
theorem itinerary_repeats_after_wrapped_chunk :
    let w := ((start oneBucket { name := "cells" } {}).run beforeWrapping).begun 0
    w.itinerary 0 duringWrapping = [0, 0] ∧
      w.answers duringWrapping = [.more false, .more true, .more false] ∧
      ¬ w.Advances 0 duringWrapping := by
  intro w
  have htwice : w.itinerary 0 duringWrapping = [0, 0] := by decide
  refine ⟨htwice, by decide, fun h => ?_⟩
  have hall :=
    h.all { kind := .grow, oldSize := 1, newSize := 2, examined := 2, moved := 2, reclaimed := 0 }
      (by decide)
  rw [htwice] at hall
  exact absurd hall (by decide)

end World

end WeakIntern
