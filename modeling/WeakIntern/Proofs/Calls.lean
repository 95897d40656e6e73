import WeakIntern.Proofs.Order
/-!
# Calls on tasks

What a call on a task answers in an orderly world, and what it does to the task. A call that needs
the task in another state changes nothing at all (`step_of_ne_state`), and neither does a commit
that comes too early; in the right state each call succeeds. `Orderly.move_called` lists all that
can become of one task in a move.
-/

namespace WeakIntern

/-- The task that a call is for, and the state that the call needs it in. -/
def Action.requires : Action → Option (Nat × TaskState)
  | .chunk i | .pause i | .commit i => some (i, .running)
  | .resume i => some (i, .paused)
  | _ => none

/-- A task can start just if it is idle, the table is free and, for growth, below its greatest
size. -/
theorem Task.prepare_eq_none_iff {task : Task} {t : Table} : task.prepare t = none ↔
    ¬ (task.state = .idle ∧ t.owned = false ∧ (task.kind = .grow → t.log2 < t.maxLog2)) := by
  have hmax : t.isMaxSize = true ↔ ¬ t.log2 < t.maxLog2 := by simp [Table.isMaxSize]
  rw [prepare]
  split
  · next hguard =>
    simp only [ne_eq, Bool.or_eq_true, decide_eq_true_eq, Bool.and_eq_true, hmax] at hguard
    simp only [true_iff]
    rintro ⟨hidle, hfree, hgrow⟩
    rcases hguard with (hstate | howned) | ⟨hkind, hlt⟩
    · exact hstate hidle
    · rw [hfree] at howned
      cases howned
    · exact hlt (hgrow hkind)
  · next hguard =>
    simp only [ne_eq, Bool.or_eq_true, decide_eq_true_eq, Bool.and_eq_true, hmax, not_or,
      Decidable.not_not, not_and, Bool.not_eq_true] at hguard
    simp only [reduceCtorEq, false_iff, Decidable.not_not]
    exact ⟨hguard.1.1, hguard.1.2, hguard.2⟩

namespace World

variable {w : World} {i : Nat} {task : Task}

/-! ## Answers -/

theorem step_prepare_eq (hi : w.tasks[i]? = some task) {task' : Task} {t' : Table}
    (hprepare : task.prepare w.table = some (task', t')) :
    w.step (.prepare i) = (w.update i task' t', .prepared true) := by
  simp only [step, drive, hi, World.prepare, hprepare]

/-- A task that cannot start changes nothing. -/
theorem step_prepare_of_none (hi : w.tasks[i]? = some task)
    (hprepare : task.prepare w.table = none) :
    w.step (.prepare i) = (w, .prepared false) := by
  simp only [step, drive, hi, World.prepare, hprepare]

/-- A call on a task in another state is refused, and changes nothing. -/
theorem step_of_ne_state {action : Action} {state : TaskState} (hi : w.tasks[i]? = some task)
    (hrequires : action.requires = some (i, state)) (hne : task.state ≠ state) :
    w.step action = (w, .failed (.invalidState state.name task.state.name)) := by
  cases action with
  | chunk j =>
    cases hrequires
    simp only [step, drive, hi, World.chunk, Task.doChunk_of_ne_running hne]
  | pause j =>
    cases hrequires
    simp only [step, drive, hi, World.pause, Task.yieldPoint, Task.require, if_neg hne]
    rfl
  | resume j =>
    cases hrequires
    simp only [step, drive, hi, World.resume, Task.resume, Task.require, if_neg hne]
    rfl
  | commit j =>
    cases hrequires
    simp only [step, drive, hi, World.commit, Task.commit_of_ne_running hne]
  | allocate | retain | drop | insert | get | create | prepare | abandon => cases hrequires

theorem step_chunk_eq (hi : w.tasks[i]? = some task) (hdrives : task.Drives w.table)
    (hrunning : task.state = .running) :
    w.step (.chunk i) =
      (w.update i (task.processChunk w.heap w.table).1 (task.processChunk w.heap w.table).2,
        .more ((task.processChunk w.heap w.table).1.hasMore
          (task.processChunk w.heap w.table).2)) := by
  simp only [step, drive, hi, World.chunk, hdrives.doChunk_eq hrunning]

theorem step_pause_eq (hi : w.tasks[i]? = some task) (hrunning : task.state = .running) :
    w.step (.pause i) = (w.update i { task with state := .paused } w.table, .done) := by
  simp only [step, drive, hi, World.pause, Task.yieldPoint, Task.require, if_pos hrunning]
  rfl

theorem step_resume_eq (hi : w.tasks[i]? = some task) (hpaused : task.state = .paused) :
    w.step (.resume i) = (w.update i { task with state := .running } w.table, .done) := by
  simp only [step, drive, hi, World.resume, Task.resume, Task.require, if_pos hpaused]
  rfl

theorem step_commit_eq (hi : w.tasks[i]? = some task) (hdrives : task.Drives w.table)
    (hrunning : task.state = .running) (hend : task.cursor = w.table.size) :
    w.step (.commit i) =
      (w.update i (task.finish w.table).2.1 (task.finish w.table).2.2,
        .summary (task.finish w.table).1) := by
  simp only [step, drive, hi, World.commit, hdrives.commit_eq hrunning hend]

/-- A commit before the end of the pass is refused, and changes nothing. -/
theorem step_commit_of_ne_size (hi : w.tasks[i]? = some task) (hdrives : task.Drives w.table)
    (hrunning : task.state = .running) (hend : task.cursor ≠ w.table.size) :
    w.step (.commit i) =
      (w,
        .failed (.invalidState ("all " ++ toString w.table.size ++ " buckets processed")
          (toString task.cursor ++ " processed"))) := by
  simp only [step, drive, hi, World.commit, hdrives.commit_of_ne_size hrunning hend]

/-! ## What becomes of a task -/

/-- All that can become of task `i` in a move. -/
inductive Called (w : World) (i : Nat) (m : Move) (task : Task) : Task → Prop where
  | same : Called w i m task task
  | prepared (hidle : task.state = .idle) :
    Called w i m task { task with state := .running, hasSource := true }
  | chunk (hmove : m = .act (.chunk i)) (hrunning : task.state = .running)
      (hdrives : task.Drives w.table) :
      Called w i m task (task.processChunk w.heap w.table).1
  | paused (hrunning : task.state = .running) : Called w i m task { task with state := .paused }
  | resumed (hpaused : task.state = .paused) : Called w i m task { task with state := .running }
  | retired : Called w i m task { task with state := .done }

theorem getElem?_update (hi : w.tasks[i]? = some task) (task' : Task) (t' : Table) :
    (w.update i task' t').tasks[i]? = some task' :=
  (getElem?_set_of_some hi task' i).trans (if_pos rfl)

/-- A call on task `j` leaves the other tasks alone. -/
theorem called_drive {j : Nat} {m : Move} {f : Task → World × Answer} (hi : w.tasks[i]? = some task)
    (hf : ∀ other, w.tasks[j]? = some other → (f other).1 = w ∨
      ∃ other' t', (f other).1 = w.update j other' t' ∧ Called w j m other other') :
    ∃ task', (w.drive j f).1.tasks[i]? = some task' ∧ Called w i m task task' := by
  rw [drive]
  cases hj : w.tasks[j]? with
  | none => exact ⟨task, hi, .same⟩
  | some other =>
    rcases hf other hj with hsame | ⟨other', t', hupdate, hcalled⟩
    · exact ⟨task, by rw [hsame]; exact hi, .same⟩
    -- The call puts back its own task only; at any other place the list is as it was.
    · by_cases hji : j = i
      · subst hji
        cases Option.some.inj (hi.symm.trans hj)
        exact ⟨other', by rw [hupdate]; exact getElem?_update hi other' t', hcalled⟩
      · refine ⟨task, ?_, .same⟩
        rw [hupdate, World.update, getElem?_set_of_some hj, if_neg hji]
        exact hi

/-- **What a move does to a task.** -/
theorem Orderly.move_called (h : w.Orderly) (hi : w.tasks[i]? = some task) (m : Move) :
    ∃ task', (w.move m).1.tasks[i]? = some task' ∧ Called w i m task task' := by
  cases m with
  | act action =>
    cases action with
    | allocate | retain | drop | get => exact ⟨task, hi, .same⟩
    | insert o =>
      refine ⟨task, ?_, .same⟩
      rw [World.move, World.step]
      split <;> exact hi
    | create kind chunk =>
      refine ⟨task, ?_, .same⟩
      have hlt := (List.getElem?_eq_some_iff.1 hi).1
      cases chunk <;> exact (List.getElem?_append_left hlt).trans hi
    | prepare j =>
      refine called_drive hi fun other hj => ?_
      rw [World.prepare]
      cases hprepare : other.prepare w.table with
      | none => exact .inl rfl
      | some pair =>
        obtain ⟨other', t'⟩ := pair
        obtain ⟨hidle, -, -, rfl, -⟩ := Task.prepare_eq_some hprepare
        exact .inr ⟨_, t', rfl, .prepared hidle⟩
    | chunk j =>
      -- A running task is under way, so that the table is the one that the task drives, and the
      -- call succeeds.
      refine called_drive hi fun other hj => ?_
      rw [World.chunk]
      by_cases hrunning : other.state = .running
      · have hdrives := h.drives j other hj (Task.isUnderWay_iff.2 (.inl hrunning))
        rw [hdrives.doChunk_eq hrunning]
        exact .inr ⟨_, _, rfl, .chunk rfl hrunning hdrives⟩
      · rw [Task.doChunk_of_ne_running hrunning]
        exact .inl rfl
    | pause j =>
      refine called_drive hi fun other hj => ?_
      rw [World.pause, Task.yieldPoint, Task.require]
      by_cases hrunning : other.state = .running
      · rw [if_pos hrunning]
        exact .inr ⟨_, _, rfl, .paused hrunning⟩
      · rw [if_neg hrunning]
        exact .inl rfl
    | resume j =>
      refine called_drive hi fun other hj => ?_
      rw [World.resume, Task.resume, Task.require]
      by_cases hpaused : other.state = .paused
      · rw [if_pos hpaused]
        exact .inr ⟨_, _, rfl, .resumed hpaused⟩
      · rw [if_neg hpaused]
        exact .inl rfl
    | commit j =>
      refine called_drive hi fun other hj => ?_
      rw [World.commit]
      by_cases hrunning : other.state = .running
      · have hdrives := h.drives j other hj (Task.isUnderWay_iff.2 (.inl hrunning))
        by_cases hend : other.cursor = w.table.size
        · rw [hdrives.commit_eq hrunning hend]
          exact .inr ⟨_, _, rfl, .retired⟩
        · rw [hdrives.commit_of_ne_size hrunning hend]
          exact .inl rfl
      · rw [Task.commit_of_ne_running hrunning]
        exact .inl rfl
    | abandon j => exact called_drive hi fun other hj => .inr ⟨_, _, rfl, .retired⟩
  | acquire o =>
    refine ⟨task, ?_, .same⟩
    rw [World.move]
    split <;> exact hi
  | offer o ref =>
    refine ⟨task, ?_, .same⟩
    rw [World.move]
    split <;> exact hi

end World

end WeakIntern
