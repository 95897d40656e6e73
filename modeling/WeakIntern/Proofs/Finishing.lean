import WeakIntern.Proofs.Calls
/-!
# Carrying a task to its end

A task that is under way can always be carried on: it processes chunks until none remains, and its
commit succeeds. Giving it up instead leaves the same table behind, but for a line in the process
log (`Orderly.abandon_carriesOn`). This holds for all chunks, those included whose ends wrap around:
whoever gives a task up goes over the buckets as the task would have.
-/

namespace WeakIntern

/-! ## The process log -/

namespace Table

/-- The tables differ in the process log only. -/
def SameButLog (t t' : Table) : Prop := ∃ notices, t' = { t with notices }

variable {t t' : Table}

theorem sameButLog_notify (t : Table) (notice : Notice) : t.SameButLog (t.notify notice) := ⟨_, rfl⟩

theorem SameButLog.reap (h : t.SameButLog t') (slot : Slot) :
    (t.reap slot).SameButLog (t'.reap slot) := by
  obtain ⟨notices, rfl⟩ := h
  obtain ⟨_, heq⟩ := t.reap_eq slot
  obtain ⟨notices', heq'⟩ := reap_eq { t with notices } slot
  exact ⟨notices', by rw [heq, heq']⟩

end Table

namespace Task

variable {heap : Heap}

/-- What has been done is the same, and has left the same behind but for the process log. -/
def SameWork (x y : Task × Table) : Prop := ∃ notices, y = (x.1, { x.2 with notices })

theorem SameWork.migrateSlot {x y : Task × Table} (h : SameWork x y) (slot : Slot) :
    SameWork (Task.migrateSlot heap x slot) (Task.migrateSlot heap y slot) := by
  obtain ⟨task, t⟩ := x
  obtain ⟨notices, rfl⟩ := h
  simp only [Task.migrateSlot]
  cases slot.ref.resolve? heap with
  | none =>
    obtain ⟨notices', heq⟩ := Table.SameButLog.reap ⟨notices, rfl⟩ slot
    exact ⟨notices', by rw [heq]⟩
  | some o => exact ⟨notices, rfl⟩

theorem SameWork.processBucket {x y : Task × Table} (h : SameWork x y) (index : Nat) :
    SameWork (Task.processBucket heap x index) (Task.processBucket heap y index) := by
  obtain ⟨task, t⟩ := x
  obtain ⟨notices, rfl⟩ := h
  have hmigrate : SameWork (migrateBucket heap task t index)
      (migrateBucket heap task { t with notices } index) := by
    obtain ⟨notices', heq⟩ :=
      List.foldl_rel (l := t.active.slotsAt index) (f := Task.migrateSlot heap)
      (g := Task.migrateSlot heap) (r := SameWork) (a := (task, t))
        (b := (task, { t with notices }))
      ⟨notices, rfl⟩ fun slot _ _ _ hwork => hwork.migrateSlot slot
    simp only [migrateBucket, heq]
    exact ⟨notices', rfl⟩
  simp only [Task.processBucket]
  cases task.kind with
  | bulkDelete =>
    obtain ⟨_, heq⟩ := reapBucket_eq heap task t index
    obtain ⟨notices', heq'⟩ := reapBucket_eq heap task { t with notices } index
    rw [heq, heq']
    exact ⟨notices', rfl⟩
  | grow => exact hmigrate
  | rehash seed => exact hmigrate

theorem sameWork_processChunk (heap : Heap) (task : Task) {t t' : Table} (h : t.SameButLog t') :
    SameWork (processChunk heap task t) (processChunk heap task t') := by
  obtain ⟨notices, rfl⟩ := h
  obtain ⟨notices', heq⟩ := List.foldl_rel (l := task.nextBuckets t.size)
    (f := processBucket heap) (g := processBucket heap) (r := SameWork) (a := (task, t))
      (b := (task, { t with notices }))
    ⟨notices, rfl⟩ fun index _ _ _ hwork => hwork.processBucket index
  refine ⟨notices', ?_⟩
  simp only [processChunk]
  exact congrArg (fun y : Task × Table => ({ y.1 with cursor := task.chunkEnd t.size }, y.2)) heq

theorem sameWork_processAll (heap : Heap) (fuel : Nat) (task : Task) {t t' : Table}
    (h : t.SameButLog t') :
    SameWork (processAll heap fuel task t).2 (processAll heap fuel task t').2 := by
  induction fuel generalizing task t t' with
  | zero =>
    obtain ⟨notices, rfl⟩ := h
    exact ⟨notices, rfl⟩
  | succ fuel ih =>
    obtain ⟨notices, heq⟩ := sameWork_processChunk heap task h
    rw [processAll, processAll, heq]
    generalize processChunk heap task t = x
    obtain ⟨task₁, t₁⟩ := x
    dsimp only
    -- Whether something remains does not depend on the log, so that both go on or both stop here.
    rw [show task₁.hasMore { t₁ with notices } = task₁.hasMore t₁ from rfl]
    split
    · exact ih task₁ ⟨notices, rfl⟩
    · exact ⟨notices, rfl⟩

theorem sameButLog_finish (task : Task) {t t' : Table} (h : t.SameButLog t') :
    (task.finish t).2.2.SameButLog (task.finish t').2.2 := by
  obtain ⟨notices, rfl⟩ := h
  refine ⟨notices, ?_⟩
  cases hkind : task.kind <;> cases hnext : t.successors <;> simp [finish, publish, hkind, hnext]

/-- A pass that is carried to its end does not depend on the process log. -/
theorem sameButLog_complete (task : Task) {t t' : Table} (h : t.SameButLog t') :
    (complete heap task t).2.2.2.SameButLog (complete heap task t').2.2.2 := by
  obtain ⟨notices, rfl⟩ := h
  obtain ⟨notices', heq⟩ := sameWork_processAll heap (enoughChunks t.size) task
    (show t.SameButLog { t with notices } from ⟨notices, rfl⟩)
  rw [complete, complete, show ({ t with notices } : Table).size = t.size from rfl]
  generalize processAll heap (enoughChunks t.size) task t = x at heq ⊢
  generalize processAll heap (enoughChunks t.size) task { t with notices } = y at heq ⊢
  obtain ⟨_, task₁, t₁⟩ := x
  obtain ⟨_, _⟩ := y
  subst heq
  exact sameButLog_finish task₁ ⟨notices', rfl⟩

end Task

/-! ## Carrying on -/

namespace World

/-- Task `i` is carried on, after a pause perhaps: it processes chunks until none remains, and
commits. -/
inductive CarriesOn (i : Nat) : World → World → Prop where
  | resume {w w' : World} (hresume : (w.step (.resume i)).2 = .done)
      (rest : CarriesOn i (w.step (.resume i)).1 w') :
      CarriesOn i w w'
  | chunk {w w' : World} (hmore : (w.step (.chunk i)).2 = .more true)
      (rest : CarriesOn i (w.step (.chunk i)).1 w') :
      CarriesOn i w w'
  | commit {w : World} {summary : TaskSummary} (hmore : (w.step (.chunk i)).2 = .more false)
      (hcommit : ((w.step (.chunk i)).1.step (.commit i)).2 = .summary summary) :
      CarriesOn i w ((w.step (.chunk i)).1.step (.commit i)).1

variable {w : World} {i : Nat} {task : Task}

/-- A running task is carried on to the table that it would complete by itself. -/
theorem carriesOn_processAll {fuel : Nat} (hi : w.tasks[i]? = some task)
    (hdrives : task.Drives w.table) (hrunning : task.state = .running)
    (hfuel : task.distance w.table.size < fuel) :
    ∃ w', CarriesOn i w w' ∧ w'.table = ((Task.processAll w.heap fuel task w.table).2.1.finish
      (Task.processAll w.heap fuel task w.table).2.2).2.2 := by
  -- The fuel bounds the chunks that are left, since the distance to the end falls with each of
  -- them.
  induction fuel generalizing w task with
  | zero => exact absurd hfuel (Nat.not_lt_zero _)
  | succ fuel ih =>
    have hstep := step_chunk_eq hi hdrives hrunning
    have hstage := hdrives.processChunk_stage w.heap
    have hnext := hdrives.processChunk w.heap
    have hdistance : (Task.processChunk w.heap task w.table).1.cursor < w.table.size → _ :=
      hdrives.distance_processChunk
    have hcursor := Task.processChunk_cursor w.heap task w.table
    rw [Task.processAll]
    generalize Task.processChunk w.heap task w.table = pair at *
    obtain ⟨task₁, t₁⟩ := pair
    dsimp only at *
    have hsize : t₁.size = w.table.size := hstage.frame.size
    have hi₁ := getElem?_update hi task₁ t₁
    have hrunning₁ : task₁.state = .running := hstage.same.state.trans hrunning
    cases hmore : task₁.hasMore t₁ with
    | true =>
      rw [hmore] at hstep
      rw [Task.hasMore, decide_eq_true_eq, hsize] at hmore
      have hlt : task₁.distance (w.update i task₁ t₁).table.size < fuel := by
        have hless := hdistance hmore
        rw [show (w.update i task₁ t₁).table.size = w.table.size from hsize]
        omega
      obtain ⟨w', hcarries, htable⟩ := ih (w := w.update i task₁ t₁) hi₁ hnext hrunning₁ hlt
      refine ⟨w', .chunk (by rw [hstep]) (by rw [hstep]; exact hcarries), ?_⟩
      simp only [if_true]
      exact htable
    | false =>
      rw [hmore] at hstep
      have hend : task₁.cursor = (w.update i task₁ t₁).table.size :=
        hnext.hasMore_eq_false_iff.1 hmore
      have hcommit := step_commit_eq (w := w.update i task₁ t₁) hi₁ hnext hrunning₁ hend
      refine ⟨_, .commit (by rw [hstep]) (by rw [hstep, hcommit]), ?_⟩
      rw [hstep, hcommit]
      rfl

theorem carriesOn_complete (hi : w.tasks[i]? = some task) (hdrives : task.Drives w.table)
    (hrunning : task.state = .running) :
    ∃ w', CarriesOn i w w' ∧ w'.table = (Task.complete w.heap task w.table).2.2.2 := by
  obtain ⟨w', hcarries, htable⟩ :=
    carriesOn_processAll hi hdrives hrunning (Task.distance_lt_enoughChunks hdrives)
  refine ⟨w', hcarries, htable.trans ?_⟩
  rw [Task.complete]

/-- Whoever can be resumed does not process chunks. -/
theorem chunk_ne_more_of_resume {more : Bool} (hresume : (w.step (.resume i)).2 = .done) :
    (w.step (.chunk i)).2 ≠ .more more := by
  cases hi : w.tasks[i]? with
  | none => simp [step, drive, hi]
  | some task =>
    by_cases hpaused : task.state = .paused
    · have hrefused : w.step (.chunk i) = _ := step_of_ne_state hi rfl (by simp [hpaused])
      simp [hrefused]
    · have hrefused : w.step (.resume i) = _ := step_of_ne_state hi rfl hpaused
      rw [hrefused] at hresume
      cases hresume

/-- There is one way only to carry a task on. -/
theorem CarriesOn.unique {w₁ w₂ : World} (h₁ : CarriesOn i w w₁) (h₂ : CarriesOn i w w₂) :
    w₁ = w₂ := by
  induction h₁ with
  | resume hresume rest ih =>
    cases h₂ with
    | resume _ rest' => exact ih rest'
    | chunk hmore _ => exact absurd hmore (chunk_ne_more_of_resume hresume)
    | commit hmore _ => exact absurd hmore (chunk_ne_more_of_resume hresume)
  | chunk hmore rest ih =>
    cases h₂ with
    | resume hresume _ => exact absurd hmore (chunk_ne_more_of_resume hresume)
    | chunk _ rest' => exact ih rest'
    | commit hmore' _ =>
      rw [hmore] at hmore'
      cases hmore'
  | commit hmore hcommit =>
    cases h₂ with
    | resume hresume _ => exact absurd hmore (chunk_ne_more_of_resume hresume)
    | chunk hmore' _ =>
      rw [hmore] at hmore'
      cases hmore'
    | commit _ _ => rfl

/-- A task under way can be carried to its end. -/
theorem Orderly.carriesOn (h : w.Orderly) (hi : w.tasks[i]? = some task)
    (hunder : task.isUnderWay = true) :
    ∃ w', CarriesOn i w w' ∧ w'.table =
      (Task.complete w.heap { task with state := .running } w.table).2.2.2 := by
  have hdrives := h.drives i task hi hunder
  rcases Task.isUnderWay_iff.1 hunder with hrunning | hpaused
  · have hsame : { task with state := .running } = task := by rw [← hrunning]
    rw [hsame]
    exact carriesOn_complete hi hdrives hrunning
  · have hresume := step_resume_eq hi hpaused
    have hresumed : Task.Drives { task with state := .running } w.table := hdrives.restate rfl
    obtain ⟨w', hcarries, htable⟩ := carriesOn_complete (getElem?_update hi _ w.table) hresumed rfl
    dsimp only [World.update] at htable
    exact ⟨w', .resume (by rw [hresume]) (by rw [hresume]; exact hcarries), htable⟩

/-- **Giving a task up is carrying it to its end.** It can be carried there, and then the table is
the one that giving it up leaves behind, but for the process log. -/
theorem Orderly.abandon_carriesOn (h : w.Orderly) (hi : w.tasks[i]? = some task)
    (hunder : task.isUnderWay = true) :
    (∃ w', CarriesOn i w w') ∧
      ∀ w', CarriesOn i w w' → w'.table.SameButLog (w.step (.abandon i)).1.table := by
  have habandon : (w.step (.abandon i)).1.table =
      (Task.complete w.heap { task with state := .running }
        (w.table.notify task.abandonNotice)).2.2.2 := by
    rw [← Task.abandon_eq (h.drives i task hi hunder), World.step, World.drive, hi]
    rfl
  obtain ⟨w₁, hcarries₁, htable⟩ := h.carriesOn hi hunder
  -- There is one way only to carry on, so it is enough to have found one world that it leads to.
  refine ⟨⟨w₁, hcarries₁⟩, fun w' hcarries => ?_⟩
  rw [hcarries.unique hcarries₁, htable, habandon]
  exact Task.sameButLog_complete _ (w.table.sameButLog_notify _)

end World

end WeakIntern
