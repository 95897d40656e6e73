import Mathlib.Logic.Function.Iterate
import WeakIntern.Proofs.Order
import WeakIntern.Safepoint
/-!
# Pauses between chunks

`Task.run` carries a task from its start to its commit at once and counts the pause points on its
way. Whoever drives a task does it one operation after another: a chunk, a pause point and the way
back from it as long as buckets remain, and the commit. Each of these operations may fail, and a
hook is called at every pause point. `Task.turn` is one turn of that loop, and `Task.RunsStepwise`
says what its turns come to, one after another, if they come to an end. On a table and with a task
that a world has they do, no operation fails, and the result is what `Task.run` says, with a call
of the hook for each pause that is counted (`World.Orderly.runsStepwise_iff`). So a hook cannot be
noticed in the table, and a pause that was asked for holds the task once, if it comes to a pause
point at all.
-/

namespace WeakIntern

namespace Task

variable {σ : Type} {task : Task} {t : Table}

/-- One turn: a chunk, then a pause point and the way back from it as long as buckets remain, and
the commit when none does. -/
def turn (hook : σ → σ) (heap : Heap) (s : σ) (task : Task) (t : Table) :
    Except Failure ((σ × Task × Table) ⊕ (σ × TaskSummary × Task × Table)) := do
  let (more, task, t) ← task.doChunk heap t
  if more then
    let task ← task.yieldPoint
    let task ← task.resume
    return .inl (hook s, task, t)
  else
    let (summary, task, t) ← task.commit t
    return .inr (s, summary, task, t)

/-- What the turns come to, up to the first that fails or commits. -/
inductive Turns (hook : σ → σ) (heap : Heap) :
    σ → Task → Table → Except Failure (σ × TaskSummary × Task × Table) → Prop
  | failed {s task t failure} (h : turn hook heap s task t = .error failure) :
      Turns hook heap s task t (.error failure)
  | committed {s task t done} (h : turn hook heap s task t = .ok (.inr done)) :
      Turns hook heap s task t (.ok done)
  | again {s task t s' task' t' result} (h : turn hook heap s task t = .ok (.inl (s', task', t')))
      (rest : Turns hook heap s' task' t' result) : Turns hook heap s task t result

/-- What a task comes to, one operation after another; without a summary if it cannot start. -/
def RunsStepwise (hook : σ → σ) (heap : Heap) (s : σ) (task : Task) (t : Table)
    (result : Except Failure (σ × Option TaskSummary × Task × Table)) : Prop :=
  match task.prepare t with
  | none => result = .ok (s, none, task, t)
  | some (task, t) => ∃ done, Turns hook heap s task t done ∧
      result = done.map fun (s, summary, task, t) => (s, some summary, task, t)

section Turns

variable {hook : σ → σ} {heap : Heap} {s : σ}

/-- The turns come to one thing at most. -/
theorem Turns.unique {result result' : Except Failure (σ × TaskSummary × Task × Table)}
    (h : Turns hook heap s task t result) (h' : Turns hook heap s task t result') :
    result = result' := by
  induction h generalizing result' with
  | failed h =>
    cases h' with
    | failed h' => cases h.symm.trans h'; rfl
    | committed h' => cases h.symm.trans h'
    | again h' _ => cases h.symm.trans h'
  | committed h =>
    cases h' with
    | failed h' => cases h.symm.trans h'
    | committed h' => cases h.symm.trans h'; rfl
    | again h' _ => cases h.symm.trans h'
  | again h _ ih =>
    cases h' with
    | failed h' => cases h.symm.trans h'
    | committed h' => cases h.symm.trans h'
    | again h' rest' => cases h.symm.trans h'; exact ih rest'

/-! ## No operation fails -/

/-- An operation that answers is no end of a turn. -/
theorem ok_bind {α β : Type} (a : α) (next : α → Except Failure β) :
    (Except.ok a >>= next) = next a := rfl

theorem turn_of_more {task' : Task} {t' : Table}
    (hchunk : task.doChunk heap t = .ok (true, task', t')) (hrunning : task'.state = .running) :
    turn hook heap s task t = .ok (.inl (hook s, task', t')) := by
  have hyield : task'.yieldPoint = .ok { task' with state := .paused } := by
    rw [yieldPoint, require, if_pos hrunning]
    rfl
  have hresume : resume { task' with state := .paused } = .ok task' := by
    rw [resume, require, if_pos rfl, ← hrunning]
    rfl
  simp only [turn, hchunk, hyield, hresume, ok_bind, if_true]
  rfl

theorem turn_of_last {task' : Task} {t' : Table} {done : TaskSummary × Task × Table}
    (hchunk : task.doChunk heap t = .ok (false, task', t'))
    (hcommit : task'.commit t' = .ok done) :
    turn hook heap s task t = .ok (.inr (s, done)) := by
  simp only [turn, hchunk, hcommit, ok_bind, Bool.false_eq_true, if_false]
  rfl

/-- The turns of a running task, where the fuel bounds the chunks that are left. -/
theorem Drives.turns_processAll {fuel : Nat} (h : Drives task t)
    (hrunning : task.state = .running) (hfuel : task.distance t.size < fuel) :
    Turns hook heap s task t (.ok (hook^[(processAll heap fuel task t).1] s,
      (processAll heap fuel task t).2.1.finish (processAll heap fuel task t).2.2)) := by
  induction fuel generalizing s task t with
  | zero => exact absurd hfuel (Nat.not_lt_zero _)
  | succ fuel ih =>
    have hchunk : task.doChunk heap t = _ := h.doChunk_eq hrunning
    have hstage := h.processChunk_stage heap
    have hnext := h.processChunk heap
    have hdistance : (Task.processChunk heap task t).1.cursor < t.size → _ :=
      h.distance_processChunk
    rw [processAll]
    generalize Task.processChunk heap task t = pair at *
    obtain ⟨task', t'⟩ := pair
    dsimp only at *
    have hsize : t'.size = t.size := hstage.frame.size
    have hrunning' : task'.state = .running := hstage.same.state.trans hrunning
    cases hmore : task'.hasMore t' with
    | true =>
      rw [hmore] at hchunk
      rw [hasMore, decide_eq_true_eq, hsize] at hmore
      have hlt : task'.distance t'.size < fuel := by
        have hless := hdistance hmore
        rw [hsize]
        omega
      exact .again (turn_of_more hchunk hrunning') (ih hnext hrunning' hlt)
    | false =>
      rw [hmore] at hchunk
      exact .committed (turn_of_last hchunk
        (hnext.commit_eq hrunning' (hnext.hasMore_eq_false_iff.1 hmore)))

/-- **A running task is driven to the end that it comes to by itself.** -/
theorem Drives.turns_complete (h : Drives task t) (hrunning : task.state = .running) :
    Turns hook heap s task t
      (.ok (hook^[(complete heap task t).1] s, (complete heap task t).2)) :=
  h.turns_processAll hrunning (distance_lt_enoughChunks h)

/-- **A run is its operations one after another.** -/
theorem runsStepwise_iff (hrest : t.owned = false → t.AtRest) (hwf : task.WellFormed)
    {result : Except Failure (σ × Option TaskSummary × Task × Table)} :
    RunsStepwise hook heap s task t result ↔
      result = .ok (hook^[(run heap task t).pauses] s, (run heap task t).summary,
        (run heap task t).task, (run heap task t).table) := by
  rw [RunsStepwise, run]
  cases hprepare : task.prepare t with
  | none => rfl
  | some started =>
    obtain ⟨task', t'⟩ := started
    obtain ⟨hidle, hfree, -, rfl, -⟩ := prepare_eq_some hprepare
    have hdrives := drives_prepare hprepare (hrest hfree) (hwf.fresh hidle).1 hwf.chunk_pos
      hwf.chunk_lt
    have hturns : Turns hook heap s _ _ _ := hdrives.turns_complete rfl
    constructor
    · rintro ⟨done, hdone, rfl⟩
      rw [hdone.unique hturns]
      rfl
    · rintro rfl
      exact ⟨_, hturns, rfl⟩

end Turns

end Task

/-! ## In a world -/

namespace World

/-- **No operation of a run fails**, whatever the world has come to, and no hook changes what the
run comes to. -/
theorem Orderly.runsStepwise_iff {σ : Type} {w : World} (h : w.Orderly) {task : Task}
    (htask : task.WellFormed) {hook : σ → σ} {s : σ}
    {result : Except Failure (σ × Option TaskSummary × Task × Table)} :
    Task.RunsStepwise hook w.heap s task w.table result ↔
      result = .ok (hook^[(Task.run w.heap task w.table).pauses] s,
        (Task.run w.heap task w.table).summary, (Task.run w.heap task w.table).task,
        (Task.run w.heap task w.table).table) :=
  Task.runsStepwise_iff h.atRest_of_free htask

end World

/-! ## At a safepoint -/

namespace Safepoint

variable {p : Safepoint}

theorem iterate_pass_of_not_requested (h : p.isRequested = false) (n : Nat) : pass^[n] p = p := by
  induction n with
  | zero => rfl
  | succ n ih => rw [Function.iterate_succ_apply, pass_of_not_requested h, ih]

/-- A pause that was asked for holds a context at its first pause point, and at no other. -/
theorem iterate_pass_of_requested (h : p.isRequested = true) {n : Nat} (hn : n ≠ 0) :
    pass^[n] p = { state := .none, arrived := 0, pausesTaken := p.pausesTaken + 1 } := by
  obtain ⟨n, rfl⟩ := Nat.exists_eq_succ_of_ne_zero hn
  rw [Function.iterate_succ_apply, pass_of_requested h]
  exact iterate_pass_of_not_requested rfl n

end Safepoint

namespace World

variable {w : World} {task : Task} {p : Safepoint}

/-- **A pause holds a run once.** The run comes to what it would have come to without the pause; the
safepoint is free afterwards, unless all buckets were one chunk. -/
theorem Orderly.runsStepwise_of_requested (h : w.Orderly) (htask : task.WellFormed)
    (hrequested : p.isRequested = true) :
    Task.RunsStepwise Safepoint.pass w.heap p task w.table
      (.ok (if (Task.run w.heap task w.table).pauses = 0 then p
          else { state := .none, arrived := 0, pausesTaken := p.pausesTaken + 1 },
        (Task.run w.heap task w.table).summary, (Task.run w.heap task w.table).task,
        (Task.run w.heap task w.table).table)) := by
  rw [h.runsStepwise_iff htask]
  split
  case isTrue hnone => rw [hnone, Function.iterate_zero_apply]
  case isFalse hsome => rw [Safepoint.iterate_pass_of_requested hrequested hsome]

/-- Without a pause the safepoint stays as it is. -/
theorem Orderly.runsStepwise_of_not_requested (h : w.Orderly) (htask : task.WellFormed)
    (hrequested : p.isRequested = false) :
    Task.RunsStepwise Safepoint.pass w.heap p task w.table
      (.ok (p, (Task.run w.heap task w.table).summary, (Task.run w.heap task w.table).task,
        (Task.run w.heap task w.table).table)) := by
  rw [h.runsStepwise_iff htask, Safepoint.iterate_pass_of_not_requested hrequested]

end World

end WeakIntern
