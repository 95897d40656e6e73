import WeakIntern.Proofs.Finishing
/-!
# Who has the table

A table is owned just while a task is under way, and no more than one task ever is. A task that
cannot start, a call on a task in the wrong state and a commit that comes too early change nothing,
so that the pass can be carried on and committed later; no other call fails. A task that is done
stays so (`tasks_governed`).
-/

namespace WeakIntern

namespace World

/-- Has the failure to do with the state that a task is in? -/
def IsInvalidState (failure : Failure) : Prop :=
  ∃ expected actual, failure = .invalidState expected actual

/-- How tasks share a table. -/
structure Governed (w : World) : Prop where
  /-- At most one task is under way. -/
  alone : ∀ (i j : Nat) (task other : Task), w.tasks[i]? = some task → w.tasks[j]? = some other →
    task.isUnderWay = true → other.isUnderWay = true → i = j
  /-- The table is owned just while one is. -/
  owned : w.table.owned = true ↔ ∃ task ∈ w.tasks, task.isUnderWay = true
  /-- A task starts just if it is idle, no task is under way and, for growth, the table is below its
  greatest size. -/
  starts : ∀ (i : Nat) (task : Task), w.tasks[i]? = some task →
    ((w.step (.prepare i)).2 = .prepared true ↔ task.state = .idle ∧
      (∀ other ∈ w.tasks, other.isUnderWay = false) ∧
      (task.kind = .grow → w.table.log2 < w.table.maxLog2))
  /-- A task that does not start says so, and changes nothing. -/
  notStarted : ∀ (i : Nat) (task : Task), w.tasks[i]? = some task →
    (w.step (.prepare i)).2 ≠ .prepared true →
    w.step (.prepare i) = (w, .prepared false)
  /-- A call on a task in the wrong state is refused, and changes nothing. -/
  wrongState : ∀ (action : Action) (i : Nat) (state : TaskState) (task : Task),
    action.requires = some (i, state) → w.tasks[i]? = some task → task.state ≠ state →
    w.step action = (w, .failed (.invalidState state.name task.state.name))
  /-- So is a commit with buckets left. -/
  early : ∀ (i : Nat) (task : Task), w.tasks[i]? = some task → task.state = .running →
    task.cursor < w.table.size →
    w.step (.commit i) =
      (w, .failed (.invalidState ("all " ++ toString w.table.size ++ " buckets processed")
      (toString task.cursor ++ " processed")))
  /-- No call fails for another reason, and none that fails changes anything. -/
  failed : ∀ (m : Move) (failure : Failure), (w.move m).2 = .failed failure →
    (w.move m).1 = w ∧ IsInvalidState failure
  /-- A task under way can be carried on to a commit that succeeds. -/
  carriesOn : ∀ (i : Nat) (task : Task), w.tasks[i]? = some task → task.isUnderWay = true → ∃ w',
    CarriesOn i w w'
  /-- A task that is done is so for good. -/
  done : ∀ (i : Nat) (task : Task), w.tasks[i]? = some task → task.state = .done → ∀ moves,
    ∃ task', (w.run moves).tasks[i]? = some task' ∧ task'.state = .done

variable {w : World} {i : Nat} {task : Task}

theorem Orderly.owned_iff (h : w.Orderly) : w.table.owned = true ↔
    ∃ task ∈ w.tasks, task.isUnderWay = true := by
  constructor
  · intro howned
    rcases h.cases with hrest | ⟨i, task, hi, hunder, -⟩
    · rw [hrest.free] at howned
      cases howned
    · exact ⟨task, List.mem_of_getElem? hi, hunder⟩
  · rintro ⟨task, htask, hunder⟩
    obtain ⟨i, hi⟩ := List.mem_iff_getElem?.1 htask
    exact (h.drives i task hi hunder).owned

theorem Orderly.free_iff (h : w.Orderly) : w.table.owned = false ↔
    ∀ task ∈ w.tasks, task.isUnderWay = false := by
  rw [← Bool.not_eq_true, h.owned_iff]
  simp

/-! ## Calls that fail -/

/-- A call that needs a state fails with nothing but the state. -/
theorem Orderly.failed_of_requires (h : w.Orderly) (hi : w.tasks[i]? = some task) {action : Action}
    {state : TaskState} {failure : Failure} (hrequires : action.requires = some (i, state))
    (hfailed : (w.step action).2 = .failed failure) :
    (w.step action).1 = w ∧ IsInvalidState failure := by
  by_cases hstate : task.state = state
  · cases action with
    | chunk j =>
      cases hrequires
      rw [step_chunk_eq hi (h.drives i task hi (Task.isUnderWay_iff.2 (.inl hstate))) hstate]
        at hfailed
      cases hfailed
    | pause j =>
      cases hrequires
      rw [step_pause_eq hi hstate] at hfailed
      cases hfailed
    | resume j =>
      cases hrequires
      rw [step_resume_eq hi hstate] at hfailed
      cases hfailed
    | commit j =>
      cases hrequires
      have hdrives := h.drives i task hi (Task.isUnderWay_iff.2 (.inl hstate))
      -- Of the calls in the right state, a commit alone can fail, before the end of the pass.
      by_cases hend : task.cursor = w.table.size
      · rw [step_commit_eq hi hdrives hstate hend] at hfailed
        cases hfailed
      · rw [step_commit_of_ne_size hi hdrives hstate hend] at hfailed ⊢
        cases hfailed
        exact ⟨rfl, _, _, rfl⟩
    | allocate | retain | drop | insert | get | create | prepare | abandon => cases hrequires
  · rw [step_of_ne_state hi hrequires hstate] at hfailed ⊢
    cases hfailed
    exact ⟨rfl, _, _, rfl⟩

/-- A call on a task that does not exist does not fail; it is not taken at all. -/
theorem step_of_requires_none {action : Action} {state : TaskState} (hi : w.tasks[i]? = none)
    (hrequires : action.requires = some (i, state)) : w.step action = (w, .refused) := by
  cases action with
  | chunk j | pause j | resume j | commit j =>
    cases hrequires
    simp only [World.step, drive, hi]
  | allocate | retain | drop | insert | get | create | prepare | abandon => cases hrequires

/-- Whatever needs no state does not fail. -/
theorem step_ne_failed {action : Action} (hrequires : action.requires = none) (failure : Failure) :
    (w.step action).2 ≠ .failed failure := by
  cases action with
  | allocate | retain | drop | get | create => simp [World.step]
  | insert o =>
    rw [World.step]
    split
    · simp [World.insert, pass]
    · simp
  | prepare j =>
    rw [World.step, drive]
    split
    · next task hj =>
      rw [World.prepare]
      split <;> simp
    · simp
  | abandon j =>
    rw [World.step, drive]
    split <;> simp [World.abandon]
  | chunk | pause | resume | commit => cases hrequires

/-- **What fails** fails for the state of a task, and changes nothing. -/
theorem Orderly.move_failed (h : w.Orderly) {m : Move} {failure : Failure}
    (hfailed : (w.move m).2 = .failed failure) :
    (w.move m).1 = w ∧ IsInvalidState failure := by
  cases m with
  | act action =>
    rw [World.move] at hfailed ⊢
    cases hrequires : action.requires with
    | none => exact absurd hfailed (step_ne_failed hrequires failure)
    | some pair =>
      obtain ⟨i, state⟩ := pair
      cases hi : w.tasks[i]? with
      | none =>
        rw [step_of_requires_none hi hrequires] at hfailed
        cases hfailed
      | some task => exact h.failed_of_requires hi hrequires hfailed
  | acquire o =>
    rw [World.move] at hfailed
    split at hfailed <;> cases hfailed
  | offer o ref =>
    rw [World.move] at hfailed
    split at hfailed <;> cases hfailed

/-! ## Tasks that are done -/

theorem Orderly.done_run (h : w.Orderly) (hi : w.tasks[i]? = some task) (hdone : task.state = .done)
    (moves : List Move) : ∃ task', (w.run moves).tasks[i]? = some task' ∧ task'.state = .done := by
  induction moves generalizing w task with
  | nil => exact ⟨task, hi, hdone⟩
  | cons m rest ih =>
    obtain ⟨task', hi', hcalled⟩ := h.move_called hi m
    refine ih (h.move m) hi' ?_
    -- All other calls need the task idle, running or paused.
    cases hcalled with
    | same => exact hdone
    | retired => rfl
    | prepared hidle => cases hdone.symm.trans hidle
    | chunk _ hrunning _ => cases hdone.symm.trans hrunning
    | paused hrunning => cases hdone.symm.trans hrunning
    | resumed hpaused => cases hdone.symm.trans hpaused

/-! ## All together -/

theorem Orderly.governed (h : w.Orderly) : w.Governed where
  alone := h.alone
  owned := h.owned_iff
  starts i task hi := by
    rw [← h.free_iff]
    cases hprepare : task.prepare w.table with
    | none =>
      rw [step_prepare_of_none hi hprepare]
      simpa using Task.prepare_eq_none_iff.1 hprepare
    | some pair =>
      rw [step_prepare_eq hi hprepare]
      rw [← Decidable.not_not (p := _ ∧ _), ← Task.prepare_eq_none_iff, hprepare]
      simp
  notStarted i task hi hnot := by
    cases hprepare : task.prepare w.table with
    | none => exact step_prepare_of_none hi hprepare
    | some pair => exact absurd (by rw [step_prepare_eq hi hprepare]) hnot
  wrongState action i state task hrequires hi hne := step_of_ne_state hi hrequires hne
  early i task hi hrunning hlt :=
    step_commit_of_ne_size hi (h.drives i task hi (Task.isUnderWay_iff.2 (.inl hrunning)))
      hrunning (by omega)
  failed m failure hfailed := h.move_failed hfailed
  carriesOn i task hi hunder := (h.abandon_carriesOn hi hunder).1
  done i task hi hdone moves := h.done_run hi hdone moves

/-- **Tasks share a table** in good order after all moves, of all kinds and in any order. -/
theorem tasks_governed (settings : Settings) (cells : CellStore) (heap : Heap) (moves : List Move) :
    ((start settings cells heap).run moves).Governed :=
  (orderly_run settings cells heap moves).governed

end World

end WeakIntern
