import WeakIntern.Proofs.Landing
import WeakIntern.Proofs.World
/-!
# Order in the world

Whatever happens, the world stays `Orderly` (`orderly_run`): at most one task is under way, and it
drives the table; if none is, the table is at rest. A step of a task can do only what `Effect`
lists, and that is what later modules read off a step.
-/

namespace WeakIntern

namespace Task

/-- What holds of every task. -/
structure WellFormed (task : Task) : Prop where
  chunk_pos : 0 < task.chunk
  chunk_lt : task.chunk < 2 ^ 64
  /-- A task that was never started has done nothing. -/
  fresh : task.state = .idle → task.cursor = 0 ∧ task.examined = 0 ∧ task.moved = 0 ∧
    task.reclaimed = 0

theorem isUnderWay_iff {task : Task} : task.isUnderWay = true ↔
    task.state = .running ∨ task.state = .paused := by
  simp [isUnderWay]

theorem WellFormed.of_ne_idle {task task' : Task} (h : task.WellFormed)
    (hchunk : task'.chunk = task.chunk) (hstate : task'.state ≠ .idle) : task'.WellFormed where
  chunk_pos := hchunk ▸ h.chunk_pos
  chunk_lt := hchunk ▸ h.chunk_lt
  fresh hidle := absurd hidle hstate

/-- A new task for a table, with a size of its chunks or with that of the table. -/
def ofChunk (t : Table) (kind : TaskKind) : Option UInt64 → Task
  | some n => (Task.new t kind).withChunk n.toNat
  | none => .new t kind

variable {t : Table} (kind : TaskKind) (chunk : Option UInt64)

theorem state_ofChunk : (ofChunk t kind chunk).state = .idle := by cases chunk <;> rfl

theorem kind_ofChunk : (ofChunk t kind chunk).kind = kind := by cases chunk <;> rfl

theorem wellFormed_ofChunk (hlt : t.chunkBuckets < 2 ^ 64) : (ofChunk t kind chunk).WellFormed := by
  have hsize : 0 < (ofChunk t kind chunk).chunk ∧ (ofChunk t kind chunk).chunk < 2 ^ 64 := by
    cases chunk with
    | none =>
      simp only [ofChunk, Task.new]
      omega
    | some n =>
      have hn := n.toNat_lt
      simp only [ofChunk, Task.withChunk]
      omega
  refine ⟨hsize.1, hsize.2, fun _ => ?_⟩
  cases chunk <;> exact ⟨rfl, rfl, rfl, rfl⟩

end Task

namespace World

/-- A world as it should be. -/
structure Orderly (w : World) : Prop where
  wellFormed : ∀ task ∈ w.tasks, task.WellFormed
  chunkBuckets_lt : w.table.chunkBuckets < 2 ^ 64
  drives : ∀ (i : Nat) (task : Task), w.tasks[i]? = some task → task.isUnderWay = true →
    task.Drives w.table
  alone : ∀ (i j : Nat) (task other : Task), w.tasks[i]? = some task → w.tasks[j]? = some other →
    task.isUnderWay = true → other.isUnderWay = true → i = j
  atRest : (∀ task ∈ w.tasks, task.isUnderWay = false) → w.table.AtRest

variable {w : World}

theorem Orderly.atRest_of_free (h : w.Orderly) (hfree : w.table.owned = false) :
    w.table.AtRest := by
  refine h.atRest ?_
  intro task htask
  obtain ⟨i, hi⟩ := List.mem_iff_getElem?.1 htask
  cases hunder : task.isUnderWay with
  | false => rfl
  | true =>
    have howned := (h.drives i task hi hunder).owned
    rw [hfree] at howned
    cases howned

/-- A table is either at rest or driven. -/
theorem Orderly.cases (h : w.Orderly) :
    w.table.AtRest ∨ ∃ (i : Nat) (task : Task), w.tasks[i]? = some task ∧ task.isUnderWay = true ∧
      task.Drives w.table := by
  cases howned : w.table.owned with
  | false => exact .inl (h.atRest_of_free howned)
  | true =>
    by_cases hall : ∀ task ∈ w.tasks, task.isUnderWay = false
    · exact .inl (h.atRest hall)
    · simp only [Classical.not_forall, Bool.not_eq_false] at hall
      obtain ⟨task, htask, hunder⟩ := hall
      obtain ⟨i, hi⟩ := List.mem_iff_getElem?.1 htask
      exact .inr ⟨i, task, hi, hunder, h.drives i task hi hunder⟩

theorem Orderly.formed (h : w.Orderly) : w.table.Formed := by
  rcases h.cases with hrest | ⟨i, task, -, -, hdrives⟩
  · exact .still hrest.still
  · exact hdrives.halfway.formed

theorem Orderly.sized (h : w.Orderly) : w.table.active.Sized := by
  rcases h.cases with hrest | ⟨i, task, -, -, hdrives⟩
  · exact hrest.sized
  · exact hdrives.sized

theorem Orderly.steady (h : w.Orderly) : w.table.Steady := ⟨h.formed, h.sized, h.atRest_of_free⟩

theorem orderly_start (settings : Settings) (cells : CellStore) (heap : Heap) :
    (start settings cells heap).Orderly where
  wellFormed _ htask := absurd htask List.not_mem_nil
  chunkBuckets_lt := settings.chunkBuckets.toNat_lt
  drives i task hi _ := absurd hi (by simp [start])
  alone i j task other hi := absurd hi (by simp [start])
  atRest _ := Table.atRest_ofSettings settings cells

/-! ## What a step of a task comes to -/

/-- What a step of a task can do to an orderly world; `back` tells whether the task goes back. -/
inductive Effect (w : World) : (back : Bool) → World → Prop where
  /-- Nothing changes but the states of tasks, or their number; who is under way is so before and
  after. -/
  | tasks (tasks : List Task) (horderly : Orderly { w with tasks })
      (hsame : ∀ (i : Nat) (task : Task), w.tasks[i]? = some task →
        ∃ state, tasks[i]? = some { task with state } ∧
        { task with state }.isUnderWay = task.isUnderWay ∧
          (task.state = .done → state = .done))
      (hnone : ∀ (i : Nat) (task : Task), tasks[i]? = some task → task.isUnderWay = true →
        ∃ before, w.tasks[i]? = some before) :
      Effect w false { w with tasks }
  | prepared (i : Nat) (task task' : Task) (t' : Table) (hi : w.tasks[i]? = some task)
      (hrest : w.table.AtRest) (hprepare : task.prepare w.table = some (task', t'))
        (hdrives : task'.Drives t') :
      Effect w false (w.update i task' t')
  | chunk (i : Nat) (task : Task) (hi : w.tasks[i]? = some task) (hrunning : task.state = .running)
      (hdrives : task.Drives w.table) :
      Effect w task.goesBack
        (w.update i (task.processChunk w.heap w.table).1 (task.processChunk w.heap w.table).2)
  | commit (i : Nat) (task : Task) (hi : w.tasks[i]? = some task) (hrunning : task.state = .running)
      (hdrives : task.Drives w.table) (hend : task.cursor = w.table.size) :
      Effect w false (w.update i (task.finish w.table).2.1 (task.finish w.table).2.2)
  | abandon (i : Nat) (task : Task) (hi : w.tasks[i]? = some task) (hdrives : task.Drives w.table) :
      Effect w task.goesBack (w.update i { task with state := .done } (task.abandon w.heap w.table))

theorem getElem?_set_of_some {tasks : List Task} {i : Nat} {task : Task}
    (hi : tasks[i]? = some task) (task' : Task) (j : Nat) : (tasks.set i task')[j]? = if i = j
      then some task' else tasks[j]? := by
  rw [List.getElem?_set, if_pos (List.getElem?_eq_some_iff.1 hi).1]

/-- Task `i` goes on with the table, or gives it up, while no other task is under way. -/
theorem Orderly.update {i : Nat} {task task' : Task} {t' : Table} (h : w.Orderly)
    (hi : w.tasks[i]? = some task) (hothers : ∀ (j : Nat) (other : Task), j ≠ i →
      w.tasks[j]? = some other → other.isUnderWay = false)
    (hwf : task'.WellFormed) (hchunk : t'.chunkBuckets = w.table.chunkBuckets)
    (hdrives : task'.isUnderWay = true → task'.Drives t')
    (hrest : task'.isUnderWay = false → t'.AtRest) :
    (w.update i task' t').Orderly := by
  have hget : ∀ (j : Nat) (other : Task), (w.tasks.set i task')[j]? = some other →
      (j = i ∧ other = task') ∨ (j ≠ i ∧ w.tasks[j]? = some other) := by
    intro j other hj
    rw [getElem?_set_of_some hi] at hj
    split at hj
    · next hij => exact .inl ⟨hij.symm, (Option.some.inj hj).symm⟩
    · next hij => exact .inr ⟨fun he => hij he.symm, hj⟩
  -- In the new list task `i` alone can be under way.
  have hunder : ∀ (j : Nat) (other : Task), (w.tasks.set i task')[j]? = some other →
      other.isUnderWay = true →
      j = i ∧ other = task' := by
    intro j other hj hother
    rcases hget j other hj with hthis | ⟨hji, hj⟩
    · exact hthis
    · rw [hothers j other hji hj] at hother
      cases hother
  constructor
  · intro other hother
    obtain ⟨j, hj⟩ := List.mem_iff_getElem?.1 hother
    rcases hget j other hj with ⟨-, rfl⟩ | ⟨-, hj⟩
    · exact hwf
    · exact h.wellFormed other (List.mem_iff_getElem?.2 ⟨j, hj⟩)
  · exact hchunk ▸ h.chunkBuckets_lt
  · intro j other hj hother
    obtain ⟨-, rfl⟩ := hunder j other hj hother
    exact hdrives hother
  · intro j k other other' hj hk hother hother'
    exact (hunder j other hj hother).1.trans (hunder k other' hk hother').1.symm
  · intro hall
    exact hrest (hall task'
      (List.mem_iff_getElem?.2 ⟨i, (getElem?_set_of_some hi task' i).trans (if_pos rfl)⟩))

/-- Only states change, and of no task whether it is under way. -/
theorem Orderly.restate {i : Nat} {task : Task} {state : TaskState} (h : w.Orderly)
    (hi : w.tasks[i]? = some task) (hunder : { task with state }.isUnderWay = task.isUnderWay)
    (hidle : state ≠ .idle) (hdone : task.state = .done → state = .done) :
    Effect w false { w with tasks := w.tasks.set i { task with state } } := by
  have hback : ∀ (j : Nat) (other : Task), (w.tasks.set i { task with state })[j]? = some other →
      ∃ (before : Task) (state : TaskState), w.tasks[j]? = some before ∧
      other = { before with state } ∧
        other.isUnderWay = before.isUnderWay ∧ (state = before.state ∨ state ≠ .idle) := by
    intro j other hj
    rw [getElem?_set_of_some hi] at hj
    split at hj
    · next hij =>
      subst hij
      cases Option.some.inj hj
      exact ⟨task, state, hi, rfl, hunder, .inr hidle⟩
    · exact ⟨other, other.state, hj, rfl, rfl, .inl rfl⟩
  refine .tasks _ ⟨?_, h.chunkBuckets_lt, ?_, ?_, ?_⟩ ?_ fun j other hj _ =>
    (hback j other hj).imp fun _ ⟨_, hbefore⟩ => hbefore.1
  · intro other hother
    obtain ⟨j, hj⟩ := List.mem_iff_getElem?.1 hother
    obtain ⟨before, state, hbefore, rfl, -, hstate⟩ := hback j other hj
    have hwf := h.wellFormed before (List.mem_iff_getElem?.2 ⟨j, hbefore⟩)
    rcases hstate with rfl | hstate
    · exact hwf
    · exact hwf.of_ne_idle rfl hstate
  · intro j other hj hother
    obtain ⟨before, state, hbefore, rfl, hsame, -⟩ := hback j other hj
    exact (h.drives j before hbefore (hsame ▸ hother)).restate hother
  · intro j k other other' hj hk hother hother'
    obtain ⟨before, -, hbefore, -, hsame, -⟩ := hback j other hj
    obtain ⟨before', -, hbefore', -, hsame', -⟩ := hback k other' hk
    exact h.alone j k before before' hbefore hbefore' (hsame ▸ hother) (hsame' ▸ hother')
  · intro hall
    refine h.atRest ?_
    intro before hbefore
    obtain ⟨j, hj⟩ := List.mem_iff_getElem?.1 hbefore
    have hget := getElem?_set_of_some hi { task with state } j
    by_cases hji : i = j
    · subst hji
      cases Option.some.inj (hi.symm.trans hj)
      rw [← hunder]
      exact hall _ (List.mem_iff_getElem?.2 ⟨i, hget.trans (if_pos rfl)⟩)
    · exact hall _ (List.mem_iff_getElem?.2 ⟨j, (hget.trans (if_neg hji)).trans hj⟩)
  · intro j other hj
    have hget := getElem?_set_of_some hi { task with state } j
    by_cases hji : i = j
    · subst hji
      cases Option.some.inj (hi.symm.trans hj)
      exact ⟨state, hget.trans (if_pos rfl), hunder, hdone⟩
    · exact ⟨other.state, (hget.trans (if_neg hji)).trans hj, rfl, id⟩

theorem Effect.refl (h : w.Orderly) : Effect w false w :=
  .tasks w.tasks h (fun _ task hi => ⟨task.state, hi, rfl, id⟩) fun _ task hi _ => ⟨task, hi⟩

theorem Orderly.create (h : w.Orderly) (kind : TaskKind) (chunk : Option UInt64) :
    Effect w false (w.create kind chunk) := by
  have heq :
      w.create kind chunk = { w with tasks := w.tasks ++ [.ofChunk w.table kind chunk] } := by
    cases chunk <;> rfl
  have hwf := Task.wellFormed_ofChunk kind chunk h.chunkBuckets_lt
  have hidle : (Task.ofChunk w.table kind chunk).isUnderWay = false := by cases chunk <;> rfl
  rw [heq]
  generalize Task.ofChunk w.table kind chunk = task at hwf hidle
  have hget : ∀ (j : Nat) (other : Task), (w.tasks ++ [task])[j]? = some other →
      other.isUnderWay = true →
      w.tasks[j]? = some other := by
    intro j other hj hother
    by_cases hlt : j < w.tasks.length
    · rwa [List.getElem?_append_left hlt] at hj
    · have hmem := List.mem_of_getElem? (List.getElem?_append_right (Nat.le_of_not_lt hlt) ▸ hj)
      rw [List.mem_singleton.1 hmem, hidle] at hother
      cases hother
  refine .tasks _ ⟨?_, h.chunkBuckets_lt, ?_, ?_, ?_⟩ ?_ fun j other hj hother =>
    ⟨other, hget j other hj hother⟩
  · intro other hother
    rcases List.mem_append.1 hother with hother | hother
    · exact h.wellFormed other hother
    · exact List.mem_singleton.1 hother ▸ hwf
  · intro j other hj hother
    exact h.drives j other (hget j other hj hother) hother
  · intro j k other other' hj hk hother hother'
    exact h.alone j k other other' (hget j other hj hother)
      (hget k other' hk hother') hother hother'
  · intro hall
    exact h.atRest fun other hother => hall other (List.mem_append_left _ hother)
  · intro j other hj
    refine ⟨other.state, ?_, rfl, id⟩
    rw [List.getElem?_append_left (List.getElem?_eq_some_iff.1 hj).1]
    exact hj

theorem Orderly.prepare {i : Nat} {task : Task} (h : w.Orderly) (hi : w.tasks[i]? = some task) :
    Effect w false (w.prepare i task).1 := by
  have hwf := h.wellFormed task (List.mem_of_getElem? hi)
  rw [World.prepare]
  split
  · next task' t' hprepare =>
    obtain ⟨hidle, hfree, -⟩ := Task.prepare_eq_some hprepare
    have hrest := h.atRest_of_free hfree
    exact .prepared i task task' t' hi hrest hprepare
      (Task.drives_prepare hprepare hrest (hwf.fresh hidle).1 hwf.chunk_pos hwf.chunk_lt)
  · exact .refl h

theorem Orderly.chunk {i : Nat} {task : Task} (h : w.Orderly) (hi : w.tasks[i]? = some task) :
    Effect w (w.goesBack (.act (.chunk i))) (w.chunk i task).1 := by
  rw [World.chunk, goesBack, hi, Option.any_some]
  by_cases hrunning : task.state = .running
  · have hdrives := h.drives i task hi (Task.isUnderWay_iff.2 (.inl hrunning))
    rw [hdrives.doChunk_eq hrunning, decide_eq_true hrunning, Bool.true_and]
    exact .chunk i task hi hrunning hdrives
  · rw [Task.doChunk_of_ne_running hrunning, decide_eq_false hrunning, Bool.false_and]
    exact .refl h

theorem Orderly.pause {i : Nat} {task : Task} (h : w.Orderly) (hi : w.tasks[i]? = some task) :
    Effect w false (w.pause i task).1 := by
  rw [World.pause, Task.yieldPoint, Task.require]
  by_cases hrunning : task.state = .running
  · rw [if_pos hrunning]
    exact h.restate hi ((Task.isUnderWay_iff.2 (.inl hrunning)).symm ▸ rfl) (by simp)
      (by simp [hrunning])
  · rw [if_neg hrunning]
    exact .refl h

theorem Orderly.resume {i : Nat} {task : Task} (h : w.Orderly) (hi : w.tasks[i]? = some task) :
    Effect w false (w.resume i task).1 := by
  rw [World.resume, Task.resume, Task.require]
  by_cases hpaused : task.state = .paused
  · rw [if_pos hpaused]
    exact h.restate hi ((Task.isUnderWay_iff.2 (.inr hpaused)).symm ▸ rfl) (by simp)
      (by simp [hpaused])
  · rw [if_neg hpaused]
    exact .refl h

theorem Orderly.commit {i : Nat} {task : Task} (h : w.Orderly) (hi : w.tasks[i]? = some task) :
    Effect w false (w.commit i task).1 := by
  rw [World.commit]
  by_cases hrunning : task.state = .running
  · have hdrives := h.drives i task hi (Task.isUnderWay_iff.2 (.inl hrunning))
    by_cases hend : task.cursor = w.table.size
    · rw [hdrives.commit_eq hrunning hend]
      exact .commit i task hi hrunning hdrives hend
    · rw [hdrives.commit_of_ne_size hrunning hend]
      exact .refl h
  · rw [Task.commit_of_ne_running hrunning]
    exact .refl h

theorem Orderly.abandon {i : Nat} {task : Task} (h : w.Orderly) (hi : w.tasks[i]? = some task) :
    Effect w (w.goesBack (.act (.abandon i))) (w.abandon i task).1 := by
  rw [goesBack, hi, Option.any_some]
  cases hunder : task.isUnderWay with
  | true => exact .abandon i task hi (h.drives i task hi hunder)
  | false =>
    have habandon : task.abandon w.heap w.table = w.table := by
      rw [Task.abandon, hunder]
      rfl
    rw [World.abandon, habandon]
    exact h.restate hi (hunder.symm ▸ rfl) (by simp) fun _ => rfl

theorem Orderly.drive {i : Nat} {f : Task → World × Answer} {back : Bool} (h : w.Orderly)
    (hback : w.tasks[i]? = none → back = false)
    (hf : ∀ task : Task, w.tasks[i]? = some task → Effect w back (f task).1) :
    Effect w back (w.drive i f).1 := by
  rw [World.drive]
  split
  · next task hi => exact hf task hi
  · next hi => exact hback hi ▸ .refl h

/-- Tasks have no part in the heap and the references. -/
theorem Effect.aside {w' : World} {back : Bool} (heff : Effect w back w') :
    w'.heap = w.heap ∧ w'.spare = w.spare ∧ w'.passed = w.passed := by
  cases heff <;> exact ⟨rfl, rfl, rfl⟩

/-! ## Order is kept -/

theorem Orderly.idle_of_atRest (h : w.Orderly) (hrest : w.table.AtRest) {j : Nat} {other : Task}
    (hj : w.tasks[j]? = some other) : other.isUnderWay = false := by
  cases hother : other.isUnderWay with
  | false => rfl
  | true =>
    have howned := (h.drives j other hj hother).owned
    rw [hrest.free] at howned
    cases howned

theorem Orderly.idle_of_drives (h : w.Orderly) {i : Nat} {task : Task}
    (hi : w.tasks[i]? = some task) (hunder : task.isUnderWay = true) {j : Nat} {other : Task}
    (hji : j ≠ i) (hj : w.tasks[j]? = some other) :
    other.isUnderWay = false := by
  cases hother : other.isUnderWay with
  | false => rfl
  | true => exact absurd (h.alone j i other task hj hi hother hunder) hji

theorem Effect.orderly {w' : World} {back : Bool} (heff : Effect w back w') (h : w.Orderly) :
    w'.Orderly := by
  -- Each effect but the first replaces one task, while all others are idle or done.
  cases heff with
  | tasks tasks horderly hsame hnone => exact horderly
  | prepared i task task' t' hi hrest hprepare hdrives =>
    have hwf := h.wellFormed task (List.mem_of_getElem? hi)
    obtain ⟨-, -, -, rfl, rfl⟩ := Task.prepare_eq_some hprepare
    exact h.update hi (fun j other _ hj => h.idle_of_atRest hrest hj)
      (hwf.of_ne_idle rfl (by simp)) rfl
      (fun _ => hdrives) fun hidle => absurd hidle (by rw [hdrives.underWay]; decide)
  | chunk i task hi hrunning hdrives =>
    have hwf := h.wellFormed task (List.mem_of_getElem? hi)
    have hstage := hdrives.processChunk_stage w.heap
    have hnext := hdrives.processChunk w.heap
    refine h.update hi (fun j other hji hj => h.idle_of_drives hi hdrives.underWay hji hj)
      (hwf.of_ne_idle hstage.same.chunk ?_) hstage.frame.chunkBuckets (fun _ => hnext) ?_
    · simp [hstage.same.state, hrunning]
    · intro hidle
      rw [hnext.underWay] at hidle
      cases hidle
  | commit i task hi hrunning hdrives hend =>
    have hwf := h.wellFormed task (List.mem_of_getElem? hi)
    exact h.update hi (fun j other hji hj => h.idle_of_drives hi hdrives.underWay hji hj)
      (hwf.of_ne_idle rfl (by simp [Task.finish])) (Task.chunkBuckets_finish _ _)
      (by simp [Task.isUnderWay, Task.finish]) fun _ => hdrives.atRest_finish
  | abandon i task hi hdrives =>
    have hwf := h.wellFormed task (List.mem_of_getElem? hi)
    obtain ⟨hrest, hchunk⟩ := hdrives.atRest_abandon w.heap
    exact h.update hi (fun j other hji hj => h.idle_of_drives hi hdrives.underWay hji hj)
      (hwf.of_ne_idle rfl (by simp)) hchunk (by simp [Task.isUnderWay]) fun _ => hrest

/-- What an insert does to an orderly world. -/
theorem Orderly.pass (h : w.Orderly) (o : ObjectId) (ref : WeakRef) : (w.pass o ref).1.Orderly := by
  have hins := Table.insertIfAbsent_inserted h.formed w.heap o ref
  exact
    { wellFormed := h.wellFormed
      chunkBuckets_lt := hins.sameFrame.chunkBuckets ▸ h.chunkBuckets_lt
      drives := fun i task hi hunder => (h.drives i task hi hunder).insert hins
      alone := h.alone
      atRest := fun hall => hins.atRest (h.atRest hall) }

/-- The cells and the heap have no part in the order. -/
theorem Orderly.congr (h : w.Orderly) (heap : Heap) (cells : CellStore)
    (spare passed : List WeakRef) :
    Orderly { w with heap, table := { w.table with cells }, spare, passed } where
  wellFormed := h.wellFormed
  chunkBuckets_lt := h.chunkBuckets_lt
  drives i task hi hunder := (h.drives i task hi hunder).aside cells _
  alone := h.alone
  atRest hall :=
    have hrest := h.atRest hall
    ⟨hrest.free, ⟨hrest.still.alone, hrest.still.unmoved⟩, hrest.sized⟩

/-- Neither has the process log. -/
theorem Orderly.note (h : w.Orderly) (notices : Array Notice) :
    Orderly { w with table := { w.table with notices } } where
  wellFormed := h.wellFormed
  chunkBuckets_lt := h.chunkBuckets_lt
  drives i task hi hunder := (h.drives i task hi hunder).aside w.table.cells notices
  alone := h.alone
  atRest hall := (h.atRest hall).congr rfl rfl rfl

/-- A task may be run from its start to its end. On a table that is owned it does not start. -/
theorem Orderly.runTask (h : w.Orderly) (kind : TaskKind) :
    Orderly { w with table := (Task.run w.heap (.new w.table kind) w.table).table } := by
  have hlt := h.chunkBuckets_lt
  cases howned : w.table.owned with
  | true =>
    rw [Task.run_of_owned howned]
    exact h
  | false =>
    have hrest := h.atRest_of_free howned
    obtain ⟨hrest', hchunk⟩ := Task.atRest_run hrest hlt w.heap kind
    exact
      { wellFormed := h.wellFormed
        chunkBuckets_lt := hchunk ▸ hlt
        drives := fun i task hi hunder => by
          rw [h.idle_of_atRest hrest hi] at hunder
          cases hunder
        alone := h.alone
        atRest := fun _ => hrest' }

/-- **What a step of a task can do.** -/
theorem Orderly.step_task (h : w.Orderly) {action : Action} (htask : action.isTask = true) :
    Effect w (w.goesBack (.act action)) (w.step action).1 := by
  cases action with
  | create kind chunk => exact h.create kind chunk
  | prepare i => exact h.drive (fun _ => rfl) fun task hi => h.prepare hi
  | chunk i => exact h.drive (fun hi => by rw [goesBack, hi]; rfl) fun task hi => h.chunk hi
  | pause i => exact h.drive (fun _ => rfl) fun task hi => h.pause hi
  | resume i => exact h.drive (fun _ => rfl) fun task hi => h.resume hi
  | commit i => exact h.drive (fun _ => rfl) fun task hi => h.commit hi
  | abandon i => exact h.drive (fun hi => by rw [goesBack, hi]; rfl) fun task hi => h.abandon hi
  | allocate | retain | drop | insert | get => cases htask

theorem Orderly.step (h : w.Orderly) (action : Action) : (w.step action).1.Orderly := by
  cases htask : action.isTask with
  | true => exact (h.step_task htask).orderly h
  | false =>
    cases action with
    | allocate s => exact h.congr _ _ _ _
    | retain o => exact h.congr _ _ _ _
    | drop o => exact h.congr _ _ _ _
    | insert o =>
      rw [World.step]
      split
      · exact (h.congr _ _ _ _).pass o _
      · exact h
    | get key => exact h
    | create | prepare | chunk | pause | resume | commit | abandon => cases htask

/-- **Order is kept** by every move. -/
theorem Orderly.move (h : w.Orderly) (m : Move) : (w.move m).1.Orderly := by
  cases m with
  | act action => exact h.step action
  | acquire o =>
    rw [World.move]
    split
    · exact h.congr _ _ _ _
    · exact h
  | offer o ref =>
    rw [World.move]
    split
    · exact (h.congr _ _ _ _).pass o ref
    · exact h

/-- The heap only gets later. -/
theorem Orderly.later_move (h : w.Orderly) (m : Move) : Heap.Later w.heap (w.move m).1.heap := by
  cases m with
  | act action =>
    cases htask : action.isTask with
    | true =>
      have hheap : (w.move (.act action)).1.heap = w.heap := (h.step_task htask).aside.1
      rw [hheap]
      exact .refl _
    | false =>
      cases action with
      | allocate s => exact w.heap.later_alloc s
      | retain o => exact w.heap.later_retain o
      | drop o => exact w.heap.later_drop o
      | insert o =>
        rw [World.move, World.step]
        split <;> exact .refl _
      | get key => exact .refl _
      | create | prepare | chunk | pause | resume | commit | abandon => cases htask
  | acquire o =>
    rw [World.move]
    split <;> exact .refl _
  | offer o ref =>
    rw [World.move]
    split <;> exact .refl _

theorem orderly_run (settings : Settings) (cells : CellStore) (heap : Heap) (moves : List Move) :
    ((start settings cells heap).run moves).Orderly :=
  run_induction (fun _ m h => h.move m) (orderly_start settings cells heap) moves

end World

end WeakIntern
