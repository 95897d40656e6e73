import WeakIntern.Proofs.Settling
/-!
# What a commit changes

The layout of a table is its size and the hash that it is under. Only the commit of a task changes
it: growth doubles the size, and a rehash puts the table under the hash of its seed. So a table goes
from one layout to the next as tasks commit (`Guided.step`). A rehash is allowed under the first
hash only, and then there is no more than one (`Commits.seeds`).
-/

namespace WeakIntern

/-- The seed of a rehash. -/
def TaskKind.seed? : TaskKind → Option UInt64
  | .rehash seed => some seed
  | .grow | .bulkDelete => none

/-- The seed of the hash, if it has one. -/
def Epoch.seeds : Epoch → List UInt64
  | .default => []
  | .alternate seed => [seed]

theorem Epoch.eq_of_seeds {epoch epoch' : Epoch} (h : epoch'.seeds = epoch.seeds) :
    epoch' = epoch := by
  cases epoch <;> cases epoch' <;> simp_all [seeds]

/-! ## Layouts -/

/-- The size of a table and the greatest that it may have, as logarithms, and the hash that it is
under. -/
structure Layout where
  log2 : Nat
  maxLog2 : Nat
  epoch : Epoch

namespace Layout

/-- The number of buckets. -/
def size (l : Layout) : Nat := 2 ^ l.log2

/-- The layout after the commit of a task. -/
def after (l : Layout) : TaskKind → Layout
  | .grow => { l with log2 := l.log2 + 1 }
  | .rehash seed => { l with epoch := .alternate seed }
  | .bulkDelete => l

/-- May a task be run? A table grows only below its greatest size, and is rehashed only once and
with a seed that is not zero. -/
def Allows (l : Layout) : TaskKind → Prop
  | .grow => l.log2 < l.maxLog2
  | .rehash seed => l.epoch = .default ∧ seed ≠ 0
  | .bulkDelete => True

/-- A table that is not too large. -/
structure Fits (l : Layout) : Prop where
  log2_le : l.log2 ≤ l.maxLog2
  maxLog2_le : l.maxLog2 ≤ Settings.maxLog2Limit

variable {l : Layout} {kind : TaskKind}

theorem Fits.after (h : l.Fits) (hallows : l.Allows kind) : (l.after kind).Fits := by
  cases kind with
  | grow => exact ⟨hallows, h.maxLog2_le⟩
  | rehash seed => exact ⟨h.log2_le, h.maxLog2_le⟩
  | bulkDelete => exact h

theorem log2_after (l : Layout) (kind : TaskKind) :
    (l.after kind).log2 = l.log2 + if kind = .grow then 1 else 0 := by
  cases kind <;> rfl

theorem maxLog2_after (l : Layout) (kind : TaskKind) : (l.after kind).maxLog2 = l.maxLog2 := by
  cases kind <;> rfl

theorem seeds_after (hallows : l.Allows kind) :
    (l.after kind).epoch.seeds = l.epoch.seeds ++ kind.seed?.toList := by
  cases kind with
  | grow => exact (List.append_nil _).symm
  | rehash seed =>
    obtain ⟨hdefault, -⟩ := hallows
    rw [hdefault]
    rfl
  | bulkDelete => exact (List.append_nil _).symm

end Layout

/-- The commits on the way from one layout to another, each of a task that may be run. -/
inductive Commits : Layout → List TaskSummary → Layout → Prop where
  | none (l : Layout) : Commits l [] l
  | commit {l l' : Layout} {summary : TaskSummary} {rest : List TaskSummary}
      (hallows : l.Allows summary.kind)
      (hold : summary.oldSize = l.size) (hnew : summary.newSize = (l.after summary.kind).size)
      (hrest : Commits (l.after summary.kind) rest l') : Commits l (summary :: rest) l'

namespace Commits

variable {l l' l'' : Layout} {commits commits' : List TaskSummary}

theorem append (h : Commits l commits l') (h' : Commits l' commits' l'') :
    Commits l (commits ++ commits') l'' := by
  induction h with
  | none l => exact h'
  | commit hallows hold hnew hrest ih => exact .commit hallows hold hnew (ih h')

theorem fits (h : Commits l commits l') (hfits : l.Fits) : l'.Fits := by
  induction h with
  | none l => exact hfits
  | commit hallows hold hnew hrest ih => exact ih (hfits.after hallows)

theorem maxLog2 (h : Commits l commits l') : l'.maxLog2 = l.maxLog2 := by
  induction h with
  | none l => rfl
  | commit hallows hold hnew hrest ih => exact ih.trans (Layout.maxLog2_after _ _)

/-- **Growth** alone changes the size, which it doubles. -/
theorem log2 (h : Commits l commits l') :
    l'.log2 = l.log2 + commits.countP fun summary => summary.kind = .grow := by
  induction h with
  | none l => rfl
  | commit hallows hold hnew hrest ih =>
    rw [ih, Layout.log2_after, List.countP_cons]
    simp only [decide_eq_true_eq]
    omega

theorem size (h : Commits l commits l') :
    l'.size = l.size * 2 ^ commits.countP fun summary => summary.kind = .grow := by
  rw [Layout.size, h.log2, Nat.pow_add]
  rfl

/-- **A rehash** alone changes the hash. Since a hash has one seed at most, there is one rehash at
most. -/
theorem seeds (h : Commits l commits l') :
    l'.epoch.seeds = l.epoch.seeds ++ commits.filterMap fun summary => summary.kind.seed? := by
  induction h with
  | none l => exact (List.append_nil _).symm
  | @commit l l' summary rest hallows hold hnew hrest ih =>
    rw [ih, Layout.seeds_after hallows, List.append_assoc, List.filterMap_cons]
    cases summary.kind.seed? <;> rfl

theorem seed_ne_zero (h : Commits l commits l') {seed : UInt64}
    (hseed : seed ∈ commits.filterMap fun summary => summary.kind.seed?) : seed ≠ 0 := by
  induction h with
  | none l => cases hseed
  | @commit l l' summary rest hallows hold hnew hrest ih =>
    obtain ⟨other, hother, hkind⟩ := List.mem_filterMap.1 hseed
    rcases List.mem_cons.1 hother with rfl | hother
    · cases hk : other.kind with
      | rehash seed' =>
        rw [hk] at hkind hallows
        cases hkind
        exact hallows.2
      | grow | bulkDelete =>
        rw [hk] at hkind
        cases hkind
    · exact ih (List.mem_filterMap.2 ⟨other, hother, hkind⟩)

theorem epoch_of_rehash {summary : TaskSummary} {seed : UInt64} (h : Commits l [summary] l')
    (hkind : summary.kind = .rehash seed) : l'.epoch = .alternate seed := by
  cases h with
  | commit hallows hold hnew hrest =>
    cases hrest
    rw [hkind]
    rfl

/-- Without a rehash the hash stays. -/
theorem epoch_eq (h : Commits l commits l')
    (hnone : ∀ summary ∈ commits, summary.kind.seed? = .none) :
    l'.epoch = l.epoch := by
  refine Epoch.eq_of_seeds ?_
  rw [h.seeds, List.filterMap_eq_nil_iff.2 hnone, List.append_nil]

end Commits

/-! ## The commit of a task -/

/-- The layout of a table. -/
def Table.layout (t : Table) : Layout where
  log2 := t.log2
  maxLog2 := t.maxLog2
  epoch := t.epoch

namespace Table

variable {t t' : Table}

theorem SameFrame.layout (h : t.SameFrame t') : t'.layout = t.layout := by
  rw [Table.layout, Table.layout, Table.log2, Table.epoch, h.log2, h.maxLog2, h.epoch]
  rfl

theorem size_eq (hsized : t.active.Sized) (hfits : t.layout.Fits) : t.size = t.layout.size := by
  have hlt : t.active.log2 < 64 :=
    Nat.lt_of_le_of_lt (Nat.le_trans hfits.log2_le hfits.maxLog2_le) (by decide)
  rw [Table.size, hsized, Nat.mod_eq_of_lt hlt]
  rfl

end Table

namespace Task

variable {task : Task} {t : Table} {heap : Heap}

theorem Drives.layout_finish (h : Drives task t) :
    (finish task t).2.2.layout = t.layout.after task.kind := by
  cases h.halfway with
  | cleaning hkind still =>
    rw [finish, publish_cleaning hkind, hkind]
    rfl
  | moving hkind target moving suits moved =>
    obtain ⟨blank, hblank, hlog2, hepoch⟩ := suits
    rw [finish, publish_moving hkind moving.next]
    cases hk : task.kind with
    | grow =>
      rw [hk] at hblank
      cases hblank
      simp only [Table.layout, Table.log2, Table.epoch, hlog2, hepoch]
      rfl
    | rehash seed =>
      rw [hk] at hblank
      cases hblank
      simp only [Table.layout, Table.log2, Table.epoch, hlog2, hepoch]
      rfl
    | bulkDelete => exact absurd hk hkind

theorem Drives.commits_finish (h : Drives task t) (hfits : t.layout.Fits)
    (hallows : t.layout.Allows task.kind) :
    Commits t.layout [(finish task t).1] (finish task t).2.2.layout := by
  have hlayout := h.layout_finish
  have hnew := Table.size_eq h.atRest_finish.sized (hlayout ▸ hfits.after hallows)
  rw [hlayout] at hnew ⊢
  exact .commit hallows (Table.size_eq h.sized hfits) hnew (.none _)

/-- **A task that is carried to its end** commits once. -/
theorem Drives.commits_complete (h : Drives task t) (heap : Heap) (hfits : t.layout.Fits)
    (hallows : t.layout.Allows task.kind) :
    Commits t.layout [(complete heap task t).2.1] (complete heap task t).2.2.2.layout ∧
      (complete heap task t).2.1.kind = task.kind := by
  obtain ⟨task', t', heq, hdrives, -, hstage⟩ := h.complete_stage heap
  rw [heq, ← hstage.frame.layout]
  refine ⟨hdrives.commits_finish (hstage.frame.layout ▸ hfits) ?_, hstage.same.kind⟩
  rw [hstage.frame.layout, hstage.same.kind]
  exact hallows

/-- Where a task starts, it may be run: growth does not start on a table of the greatest size. -/
theorem allows_prepare {task' : Task} {t' : Table} (h : task.prepare t = some (task', t'))
    (hrehash : ∀ seed, task.kind = .rehash seed → t.epoch = .default ∧ seed ≠ 0) :
    t.layout.Allows task.kind := by
  obtain ⟨-, -, hgrow, -, -⟩ := prepare_eq_some h
  cases hkind : task.kind with
  | grow =>
    have hlt := hgrow hkind
    rw [Table.isMaxSize, decide_eq_false_iff_not, Nat.not_le] at hlt
    exact hlt
  | rehash seed => exact hrehash seed hkind
  | bulkDelete => trivial

/-- **A task that is run** commits once, or does not start. -/
theorem commits_run (hrest : t.owned = false → t.AtRest) (hlt : t.chunkBuckets < 2 ^ 64)
    (hfits : t.layout.Fits) (heap : Heap) (kind : TaskKind)
    (hrehash : ∀ seed, kind = .rehash seed → t.epoch = .default ∧ seed ≠ 0) :
    Commits t.layout (run heap (.new t kind) t).summary.toList
      (run heap (.new t kind) t).table.layout ∧
      ∀ summary ∈ (run heap (.new t kind) t).summary, summary.kind = kind := by
  rw [run]
  cases hprepare : (Task.new t kind).prepare t with
  | none => exact ⟨.none _, fun _ h => absurd h (by simp)⟩
  | some pair =>
    obtain ⟨task', t'⟩ := pair
    have hallows := allows_prepare hprepare hrehash
    obtain ⟨-, hfree, -, htask, htable⟩ := prepare_eq_some hprepare
    have hdrives := drives_prepare_new hprepare (hrest hfree) hlt
    have hlayout : t'.layout = t.layout := by
      rw [htable]
      rfl
    have hkind : task'.kind = kind := by
      rw [htask]
      rfl
    obtain ⟨hcommits, hsummary⟩ :=
      hdrives.commits_complete heap (hlayout ▸ hfits) (hlayout ▸ hkind ▸ hallows)
    rw [hlayout] at hcommits
    refine ⟨hcommits, fun summary h => ?_⟩
    rw [← Option.some.inj h, hsummary, hkind]

theorem table_run_of_none {task : Task} (h : (run heap task t).summary = none) :
    (run heap task t).table = t := by
  rw [run] at h ⊢
  split
  · rfl
  · next hprepare =>
    rw [hprepare] at h
    cases h

end Task

/-! ## The commits of a world -/

namespace World

/-- What the tasks commit in a step; a task that is given up under way commits. -/
def commits (w : World) : Action → List TaskSummary
  | .commit i =>
    match (w.step (.commit i)).2 with
    | .summary summary => [summary]
    | _ => []
  | .abandon i =>
    match w.tasks[i]? with
    | some task =>
      if task.isUnderWay then
        [(Task.complete w.heap { task with state := .running }
          (w.table.notify task.abandonNotice)).2.1]
      else []
    | none => []
  | _ => []

/-- A world in which no task rehashes the table, and the one under way may be run. -/
structure Guided (w : World) : Prop where
  fits : w.table.layout.Fits
  plain : ∀ task ∈ w.tasks, task.kind.seed? = none
  allowed : ∀ task ∈ w.tasks, task.isUnderWay = true → w.table.layout.Allows task.kind

variable {w : World} {i : Nat} {task task' : Task} {t' : Table}

theorem plain_update (h : w.Guided) (hi : w.tasks[i]? = some task) (hkind : task'.kind = task.kind)
    {other : Task} (hother : other ∈ (w.update i task' t').tasks) : other.kind.seed? = none := by
  rcases List.mem_or_eq_of_mem_set hother with hother | rfl
  · exact h.plain other hother
  · rw [hkind]
    exact h.plain task (List.mem_of_getElem? hi)

theorem Guided.update (h : w.Guided) (hi : w.tasks[i]? = some task) (hkind : task'.kind = task.kind)
    (hlayout : t'.layout = w.table.layout)
    (hallowed : task'.isUnderWay = true → w.table.layout.Allows task.kind) :
    (w.update i task' t').Guided where
  fits := show t'.layout.Fits from hlayout ▸ h.fits
  plain _ hother := plain_update h hi hkind hother
  allowed other hother hunder := by
    show t'.layout.Allows other.kind
    rw [hlayout]
    rcases List.mem_or_eq_of_mem_set hother with hother | rfl
    · exact h.allowed other hother hunder
    · exact hkind ▸ hallowed hunder

/-- Calls that commit nothing leave the layout. -/
theorem Guided.drive (h : w.Guided) {f : Task → World × Answer}
    (hf : ∀ task, w.tasks[i]? = some task → (f task).1 = w ∨
      ∃ task' t', (f task).1 = w.update i task' t' ∧ task'.kind = task.kind ∧
        t'.layout = w.table.layout ∧
        (task'.isUnderWay = true → w.table.layout.Allows task.kind)) :
    (w.drive i f).1.Guided ∧ (w.drive i f).1.table.layout = w.table.layout := by
  rw [World.drive]
  split
  · next task hi =>
    rcases hf task hi with hsame | ⟨task', t', hupdate, hkind, hlayout, hallowed⟩
    · rw [hsame]
      exact ⟨h, rfl⟩
    · rw [hupdate]
      exact ⟨h.update hi hkind hlayout hallowed, hlayout⟩
  · exact ⟨h, rfl⟩

theorem Guided.create (h : w.Guided) {kind : TaskKind} (hplain : kind.seed? = none)
    (chunk : Option UInt64) :
    (w.create kind chunk).Guided := by
  obtain ⟨task, heq, hkind, hidle⟩ : ∃ task :
      Task, w.create kind chunk = { w with tasks := w.tasks ++ [task] } ∧
      task.kind = kind ∧ task.isUnderWay = false := by
    cases chunk <;> exact ⟨_, rfl, rfl, rfl⟩
  rw [heq]
  refine ⟨h.fits, fun other hother => ?_, fun other hother hunder => ?_⟩
  · rcases List.mem_append.1 hother with hother | hother
    · exact h.plain other hother
    · rw [List.mem_singleton.1 hother, hkind]
      exact hplain
  · rcases List.mem_append.1 hother with hother | hother
    · exact h.allowed other hother hunder
    · rw [List.mem_singleton.1 hother, hidle] at hunder
      cases hunder

theorem Guided.allows (h : w.Guided) (hi : w.tasks[i]? = some task)
    (hunder : task.isUnderWay = true) :
    w.table.layout.Allows task.kind :=
  h.allowed task (List.mem_of_getElem? hi) hunder

theorem Guided.prepare (h : w.Guided) (i : Nat) :
    (w.step (.prepare i)).1.Guided ∧ (w.step (.prepare i)).1.table.layout = w.table.layout := by
  refine h.drive fun task hi => ?_
  rw [World.prepare]
  cases hprepare : task.prepare w.table with
  | none => exact .inl rfl
  | some pair =>
    obtain ⟨task', t'⟩ := pair
    have hplain := h.plain task (List.mem_of_getElem? hi)
    have hallows := Task.allows_prepare hprepare fun seed hkind => by
      rw [hkind] at hplain
      cases hplain
    obtain ⟨-, -, -, rfl, rfl⟩ := Task.prepare_eq_some hprepare
    exact .inr ⟨_, _, rfl, rfl, rfl, fun _ => hallows⟩

theorem Guided.chunk (h : w.Guided) (horderly : w.Orderly) (i : Nat) :
    (w.step (.chunk i)).1.Guided ∧ (w.step (.chunk i)).1.table.layout = w.table.layout := by
  refine h.drive fun task hi => ?_
  rw [World.chunk]
  by_cases hrunning : task.state = .running
  · have hunder := Task.isUnderWay_iff.2 (.inl hrunning)
    have hdrives := horderly.drives i task hi hunder
    have hstage := hdrives.processChunk_stage w.heap
    rw [hdrives.doChunk_eq hrunning]
    exact .inr ⟨_, _, rfl, hstage.same.kind, hstage.frame.layout, fun _ => h.allows hi hunder⟩
  · rw [Task.doChunk_of_ne_running hrunning]
    exact .inl rfl

theorem Guided.pause (h : w.Guided) (i : Nat) :
    (w.step (.pause i)).1.Guided ∧ (w.step (.pause i)).1.table.layout = w.table.layout := by
  refine h.drive fun task hi => ?_
  rw [World.pause, Task.yieldPoint, Task.require]
  by_cases hrunning : task.state = .running
  · rw [if_pos hrunning]
    exact .inr ⟨_, _, rfl, rfl, rfl, fun _ => h.allows hi (Task.isUnderWay_iff.2 (.inl hrunning))⟩
  · rw [if_neg hrunning]
    exact .inl rfl

theorem Guided.resume (h : w.Guided) (i : Nat) :
    (w.step (.resume i)).1.Guided ∧ (w.step (.resume i)).1.table.layout = w.table.layout := by
  refine h.drive fun task hi => ?_
  rw [World.resume, Task.resume, Task.require]
  by_cases hpaused : task.state = .paused
  · rw [if_pos hpaused]
    exact .inr ⟨_, _, rfl, rfl, rfl, fun _ => h.allows hi (Task.isUnderWay_iff.2 (.inr hpaused))⟩
  · rw [if_neg hpaused]
    exact .inl rfl

/-! ## Steps that commit -/

/-- What a step commits, and what it leaves behind. -/
structure Ends (w : World) (commits : List TaskSummary) (w' : World) : Prop where
  leads : Commits w.table.layout commits w'.table.layout
  plain : ∀ summary ∈ commits, summary.kind.seed? = none
  guided : w'.Guided

theorem ends_nil {w' : World} (h : w'.Guided ∧ w'.table.layout = w.table.layout) :
    w.Ends [] w' where
  leads := by
    rw [h.2]
    exact .none _
  plain _ hsummary := absurd hsummary List.not_mem_nil
  guided := h.1

/-- Task `i` gives the table up with a commit. No task is under way then. -/
theorem Guided.ends_commit (h : w.Guided) (hi : w.tasks[i]? = some task) {summary : TaskSummary}
    (hcommits : Commits w.table.layout [summary] t'.layout) (hkind : summary.kind = task.kind)
    (hkind' : task'.kind = task.kind) (horderly : (w.update i task' t').Orderly)
    (hrest : t'.AtRest) :
    w.Ends [summary] (w.update i task' t') where
  leads := hcommits
  plain other hother := by
    rw [List.mem_singleton.1 hother, hkind]
    exact h.plain task (List.mem_of_getElem? hi)
  guided :=
    { fits := hcommits.fits h.fits
      plain := fun _ hother => plain_update h hi hkind' hother
      allowed := fun other hother hunder => by
        obtain ⟨j, hj⟩ := List.mem_iff_getElem?.1 hother
        rw [horderly.idle_of_atRest hrest hj] at hunder
        cases hunder }

theorem Guided.commit (h : w.Guided) (horderly : w.Orderly) (i : Nat) :
    w.Ends (w.commits (.commit i)) (w.step (.commit i)).1 := by
  have hnext := horderly.step (.commit i)
  simp only [World.commits]
  split
  · next summary hcommit =>
    obtain ⟨task, hi, hdrives, -, rfl, heq⟩ := commit_eq_summary horderly hcommit
    rw [heq] at hnext ⊢
    exact h.ends_commit hi (hdrives.commits_finish h.fits (h.allows hi hdrives.underWay))
      rfl rfl hnext
      hdrives.atRest_finish
  · next hrefused =>
    refine ends_nil (h.drive fun task hi => .inl ?_)
    rw [World.step, World.drive, hi] at hrefused
    dsimp only at hrefused
    rw [World.commit] at hrefused ⊢
    split
    · next heq =>
      rw [heq] at hrefused
      exact absurd rfl (hrefused _)
    · rfl

theorem Guided.abandon (h : w.Guided) (horderly : w.Orderly) (i : Nat) :
    w.Ends (w.commits (.abandon i)) (w.step (.abandon i)).1 := by
  have hnext := horderly.step (.abandon i)
  simp only [World.commits]
  cases hi : w.tasks[i]? with
  | none =>
    refine ends_nil (h.drive fun task hi' => ?_)
    rw [hi] at hi'
    cases hi'
  | some task =>
    have heq : (w.step (.abandon i)).1 =
        w.update i { task with state := .done } (task.abandon w.heap w.table) := by
      rw [World.step, World.drive, hi]
      rfl
    rw [heq] at hnext ⊢
    dsimp only
    cases hunder : task.isUnderWay with
    | true =>
      have hdrives := horderly.drives i task hi hunder
      have hallows := h.allows hi hunder
      obtain ⟨hcommits, hkind⟩ := hdrives.resumed.commits_complete w.heap h.fits hallows
      rw [← Task.abandon_eq hdrives] at hcommits
      exact h.ends_commit hi hcommits hkind rfl hnext (hdrives.atRest_abandon w.heap).1
    | false =>
      have habandon : task.abandon w.heap w.table = w.table := by
        rw [Task.abandon, hunder]
        rfl
      rw [habandon]
      exact ends_nil ⟨h.update hi rfl rfl fun hdone => (by cases hdone), rfl⟩

/-- **A step of a task** changes the layout by what it commits. -/
theorem Guided.step (h : w.Guided) (horderly : w.Orderly) {action : Action}
    (htask : action.isTask = true)
    (hplain : ∀ kind chunk, action = .create kind chunk → kind.seed? = none) :
    w.Ends (w.commits action) (w.step action).1 := by
  cases action with
  | create kind chunk =>
    exact ends_nil ⟨h.create (hplain kind chunk rfl) chunk, by cases chunk <;> rfl⟩
  | prepare i => exact ends_nil (h.prepare i)
  | chunk i => exact ends_nil (h.chunk horderly i)
  | pause i => exact ends_nil (h.pause i)
  | resume i => exact ends_nil (h.resume i)
  | commit i => exact h.commit horderly i
  | abandon i => exact h.abandon horderly i
  | allocate | retain | drop | insert | get => cases htask

end World

end WeakIntern
