import WeakIntern.Proofs.Alarms
import WeakIntern.Proofs.Flags
import WeakIntern.Proofs.Shape
/-!
# Pending work

Pending work is an alarm that is answered, if there is one, and then one task, which the load of the
table selects. If the table is free, the task does what it is for: no slot of a dead string is left,
and the one event that is recorded for it has its true figures (`Interner.Achieves`). As long as no
task went back before, the counts are those of the live slots (`Interner.InBalance`). If a task of
the callers has the table, the work is skipped, and the table is left as it is (`Interner.PutsOff`).
No lookup can tell either from nothing (`pending_work_settled`).

A task that goes back releases a cell twice, and takes a slot off an empty count. No work that is
done later mends the count (`count_off_after_pending_work`).
-/

namespace WeakIntern

open scoped List

/-- Of what is alive, nothing is left out a second time. -/
theorem liveRefs_perm {heap : Heap} {refs rest : List WeakRef}
    (h : rest.Perm (liveRefs heap refs)) :
    (liveRefs heap rest).Perm (liveRefs heap refs) := by
  have htwice : liveRefs heap (liveRefs heap refs) = liveRefs heap refs := by
    simp [liveRefs, List.filter_filter]
  rw [← htwice]
  exact h.filter _

/-! ## What is recorded -/

/-- Is it the event with which a piece of work ends, done or skipped? -/
def Event.endsWork : Event → Bool
  | .grown .. | .cleaned .. | .taskSkipped .. => true
  | _ => false

namespace WorkKind

/-- The event of a task that has made `t'` of the table `t`. -/
def report (heap : Heap) (t t' : Table) : WorkKind → Event
  | .grow => .grown t.size t'.size (liveRefs heap t.linkedRefs).length
    (deadRefs heap t.linkedRefs).length 0.0
  | .clean => .cleaned t.linkedRefs.length (deadRefs heap t.linkedRefs).length 0.0

/-- The event of work that another task was in the way of. -/
def skipped (kind : WorkKind) : Event :=
  .taskSkipped kind.taskKind.name (Maintenance.skipReason kind)

theorem taskKind_eq_grow_iff {kind : WorkKind} : kind.taskKind = .grow ↔ kind = .grow := by
  cases kind <;> simp [taskKind]

theorem workEvent_eq_report {kind : WorkKind} {heap : Heap} {t t' : Table} {summary : TaskSummary}
    (h : Task.Completed heap kind.taskKind t t' summary) :
    Maintenance.workEvent kind summary = kind.report heap t t' := by
  have hmoved := h.moved
  cases kind with
  | grow =>
    rw [if_neg (by simp [taskKind])] at hmoved
    rw [Maintenance.workEvent, report, h.oldSize, h.newSize, hmoved, h.reclaimed]
  | clean => rw [Maintenance.workEvent, report, h.examined, h.reclaimed]

end WorkKind

namespace Interner

/-- The interner as tasks see it that share its table. -/
def world (i : Interner) (tasks : List Task) : World := { heap := i.heap, table := i.table, tasks }

/-- What is recorded of an outstanding alarm when it is answered. -/
def alarmEvents (i : Interner) (tasks : List Task) (seed : UInt64) : List Event :=
  if i.maintenance.needsRehash then [(i.maintenance.choice (i.world tasks)).event i.table seed]
  else []

/-- Growth is selected just for a table that is overloaded and can grow. -/
def Overloaded (i : Interner) : Prop :=
  i.settings.preferredLoad < i.table.loadFactor ∧ i.table.log2 < i.table.maxLog2

/-- What pending work records: an event for the alarm that it answers, if there is one, and one for
the work. -/
structure Records (i i' : Interner) (answer : List Event) (last : Event) : Prop where
  events : i'.log.events.toList = i.log.events.toList ++ answer ++ [last]
  alarm : answer.length = i.maintenance.needsRehash.toNat
  others : ∀ e ∈ answer, e.endsWork = false

/-- **Work is done.** When the alarm was answered the interner was `j`, and it is `i'` in the
end. -/
structure Achieves (i j i' : Interner) (kind : WorkKind) : Prop where
  grows : kind = .grow ↔ j.Overloaded
  /-- Growth doubles the size. -/
  size : i'.table.size = if kind = .grow then 2 * i.table.size else i.table.size
  /-- Nothing was in the way, and the task reports its true figures. -/
  recorded : ∃ answer, Records i i' answer (kind.report j.heap j.table i'.table) ∧
    .rehashFailed ∉ answer
  hasWork : i'.maintenance.hasWork = false
  /-- The slots of dead strings are gone, and those of live ones are linked still. -/
  live : ∀ slot ∈ i'.table.linked, i'.heap.isLive slot.ref.referent = true
  linked : i'.table.linkedRefs.Perm (liveRefs i.heap i.table.linkedRefs)
  heap : i'.heap = i.heap
  lookup : ∀ s, (i'.lookup? s).1 = (i.lookup? s).1

/-- **Work is put off**, since another task has the table. -/
structure PutsOff (i j i' : Interner) (kind : WorkKind) : Prop where
  grows : kind = .grow ↔ j.Overloaded
  recorded : ∃ answer, Records i i' answer kind.skipped
  hasWork : i'.maintenance.hasWork = false
  /-- The table is as it was, but for the process log. -/
  table : i.table.SameButLog i'.table
  heap : i'.heap = i.heap
  lookup : ∀ s, (i'.lookup? s).1 = (i.lookup? s).1

/-- All counts are those of the live slots. -/
structure InBalance (i : Interner) : Prop where
  items : i.table.items = .ofNat (liveRefs i.heap i.table.linkedRefs).length
  itemCount : (liveRefs i.heap i.table.linkedRefs).length < UInt64.size →
    i.table.itemCount = (liveRefs i.heap i.table.linkedRefs).length
  allocated : i.table.cells.allocated = (liveRefs i.heap i.table.linkedRefs).length
  reportDead : i.reportDead.1 = 0

/-! ## The alarm comes first -/

/-- An interner in order while tasks share its table. -/
structure InService (tasks : List Task) (m : WeakMap) (i : Interner) : Prop where
  attentive : i.Attentive
  keeps : i.Keeps m
  orderly : (i.world tasks).Orderly
  roomy : (i.world tasks).Roomy

variable {i : Interner} {tasks : List Task} {m : WeakMap} {seed : UInt64}

theorem runs_answerAlarm (i : Interner) (seed : UInt64) : i.Runs (i.answerAlarm seed) := by
  rw [answerAlarm]
  split
  · exact i.runs_rehash seed
  · exact .refl i

theorem heap_answerAlarm (i : Interner) (seed : UInt64) : (i.answerAlarm seed).heap = i.heap := by
  rw [answerAlarm]
  split <;> rfl

/-- What maintenance notes of an alarm follows from the outcome that the rule selects. -/
theorem maintenance_rehash (horderly : (i.world tasks).Orderly) (seed : UInt64) :
    (i.rehash seed).2.maintenance =
      i.maintenance.answered i.table seed (i.maintenance.choice (i.world tasks)) := by
  show ((i.maintenance.rehash (i.world tasks).heap (i.world tasks).table seed).2.2.1 = _)
  by_cases heq : i.maintenance.choice (i.world tasks) = .rehashed
  · rw [Maintenance.rehash_of_eq horderly heq, heq]
    rfl
  · rw [Maintenance.rehash_of_ne horderly heq]
    rfl

theorem InService.answerAlarm (h : i.InService tasks m) (seed : UInt64) :
    (i.answerAlarm seed).InService tasks m := by
  obtain ⟨hattentive, hkeeps, -, -⟩ := h.attentive.answerAlarm h.keeps seed
  have hruns := i.runs_answerAlarm seed
  exact ⟨hattentive, hkeeps, h.orderly.errands hruns, h.roomy.errands h.orderly hruns⟩

theorem InService.events_answerAlarm (h : i.InService tasks m) (seed : UInt64) :
    (i.answerAlarm seed).log.events.toList = i.log.events.toList ++ i.alarmEvents tasks seed := by
  rw [Interner.answerAlarm, alarmEvents]
  split
  · rw [log, maintenance_rehash h.orderly]
    exact (EventLog.events_record _ _).trans (by rw [if_pos (h.attentive.alert.records _)]; rfl)
  · exact (List.append_nil _).symm

theorem endsWork_alarmEvents {e : Event} (he : e ∈ i.alarmEvents tasks seed) :
    e.endsWork = false := by
  rw [alarmEvents] at he
  split at he
  · rw [List.mem_singleton.1 he]
    cases i.maintenance.choice (i.world tasks) <;> rfl
  · cases he

theorem length_alarmEvents (i : Interner) (tasks : List Task) (seed : UInt64) :
    (i.alarmEvents tasks seed).length = i.maintenance.needsRehash.toNat := by
  rw [alarmEvents]
  cases i.maintenance.needsRehash <;> rfl

/-- On a free table no rehash fails. -/
theorem rehashFailed_notMem_alarmEvents (hfree : ∀ task ∈ tasks, task.isUnderWay = false) :
    .rehashFailed ∉ i.alarmEvents tasks seed := by
  intro hmem
  rw [alarmEvents] at hmem
  split at hmem
  · have hevent := List.mem_singleton.1 hmem
    cases hchoice : i.maintenance.choice (i.world tasks) with
    | busy =>
      obtain ⟨-, task, htask, hunder⟩ := Maintenance.of_choice_eq_busy hchoice
      rw [hfree task htask] at hunder
      cases hunder
    | preferGrow | alreadyRehashed | rehashed =>
      rw [hchoice] at hevent
      cases hevent
  · cases hmem

/-- An answer to an alarm leaves the size and the live slots of a free table as they were. -/
theorem InService.table_answerAlarm (h : i.InService tasks m)
    (hfree : ∀ task ∈ tasks, task.isUnderWay = false) (seed : UInt64) :
    (i.answerAlarm seed).table.size = i.table.size ∧
      (liveRefs i.heap (i.answerAlarm seed).table.linkedRefs).Perm
        (liveRefs i.heap i.table.linkedRefs) := by
  rw [Interner.answerAlarm]
  split
  · rcases i.table_rehash seed with htable | htable
    · rw [htable]
      exact ⟨rfl, .refl _⟩
    · obtain ⟨summary, -, hcompleted, hsize⟩ := h.orderly.completes_rehash hfree seed
      rw [htable]
      refine ⟨hsize, ?_⟩
      exact liveRefs_perm hcompleted.linked
  · exact ⟨rfl, .refl _⟩

/-! ## The work itself -/

end Interner

namespace Task

variable {heap : Heap} {kind : TaskKind} {t t' : Table} {summary : TaskSummary}

/-- On a table that is owned, a task does not start. -/
theorem run_eq_of_owned (h : t.owned = true) (heap : Heap) (kind : TaskKind) :
    run heap (.new t kind) t =
      { summary := none, pauses := 0, task := .new t kind, table := t } := by
  have hprepare : (Task.new t kind).prepare t = none := by simp [prepare, h]
  rw [run, hprepare]

/-- Growth doubles the number of buckets, and no other task changes it. -/
theorem Completed.size_eq (h : Completed heap kind t t' summary) (hrest : t.AtRest)
    (hfits : t.layout.Fits) (hroom : kind = .grow → t.log2 < t.maxLog2) : t'.size = if kind = .grow
      then 2 * t.size else t.size := by
  have hlog2 := h.log2
  split
  · next hgrow =>
    rw [if_pos hgrow] at hlog2
    have hfits' : t'.layout.Fits := by
      refine ⟨?_, ?_⟩
      · show t'.log2 ≤ t'.maxLog2
        rw [hlog2, h.maxLog2]
        exact hroom hgrow
      · show t'.maxLog2 ≤ _
        rw [h.maxLog2]
        exact hfits.maxLog2_le
    rw [Table.size_eq hrest.sized hfits, Table.size_eq h.atRest.sized hfits', Layout.size,
      Layout.size, Nat.mul_comm, ← Nat.pow_succ]
    exact congrArg _ hlog2
  · next hother =>
    rw [if_neg hother] at hlog2
    exact h.atRest.size_eq hrest hlog2

end Task

namespace Interner

variable {i : Interner} {tasks : List Task} {m : WeakMap} {seed : UInt64}

theorem doWork_eq_grow_iff (i : Interner) : i.doWork.1 = .grow ↔ i.Overloaded := by
  have hkind : i.doWork.1 = i.settings.selectWork i.table.loadFactor i.table.isMaxSize := rfl
  rw [hkind, Settings.selectWork, Settings.prefersGrowth, Overloaded, Table.isMaxSize]
  split
  · next hgrow => simpa using hgrow
  · next hclean => simpa using hclean

/-- Work on a table that is owned is skipped. -/
theorem doWork_of_owned (h : i.table.owned = true) : i.doWork.2.table = i.table ∧
    i.doWork.2.maintenance = { i.maintenance.record i.doWork.1.skipped with hasWork := false } := by
  have hrun (kind : TaskKind) := Task.run_eq_of_owned h i.heap kind
  simp only [doWork, Maintenance.doWork, hrun, true_and]
  rfl

/-- Work that comes to a summary is recorded with it. -/
theorem maintenance_doWork {summary : TaskSummary}
    (h : (Task.run i.heap (.new i.table i.doWork.1.taskKind) i.table).summary = some summary) :
    i.doWork.2.maintenance =
      { i.maintenance.record (Maintenance.workEvent i.doWork.1
        summary) with hasWork := false } := by
  simp only [doWork, Maintenance.doWork] at h ⊢
  rw [h]

/-- Work on a free table is done. -/
theorem InService.doWork_of_free (h : i.InService tasks m) (hfree : i.table.owned = false) :
    (∃ summary, Task.Completed i.heap i.doWork.1.taskKind i.table i.doWork.2.table summary) ∧
      i.doWork.2.maintenance =
        { i.maintenance.record (i.doWork.1.report i.heap i.table
          i.doWork.2.table) with hasWork := false } := by
  -- The rule that selects growth knows of the greatest size, so that the task can start.
  have hroom : i.doWork.1.taskKind = .grow → i.table.isMaxSize = false := by
    intro hgrow
    have hlt := (i.doWork_eq_grow_iff.1 (WorkKind.taskKind_eq_grow_iff.1 hgrow)).2
    rw [Table.isMaxSize, decide_eq_false_iff_not]
    exact Nat.not_le_of_lt hlt
  obtain ⟨summary, hsummary, hcompleted⟩ := h.orderly.completes hfree hroom
  refine ⟨⟨summary, hcompleted⟩, ?_⟩
  rw [maintenance_doWork hsummary, WorkKind.workEvent_eq_report hcompleted]
  rfl

/-! ## Pending work as a whole -/

/-- Pending work is what is done when the alarm was answered, but for a line in the process log. -/
theorem runPending_of_hasWork (hwork : (i.answerAlarm seed).maintenance.hasWork = true) :
    ∃ notices, i.runPending seed =
      (some (i.answerAlarm seed).doWork.1,
        { (i.answerAlarm seed).doWork.2 with
          table := { (i.answerAlarm seed).doWork.2.table with notices } }) := by
  rw [runPending_eq, if_pos hwork]
  split
  · exact ⟨_, rfl⟩
  · exact ⟨(i.answerAlarm seed).doWork.2.table.notices, rfl⟩

theorem InService.records (h : i.InService tasks m) {i' : Interner} {last : Event}
    (hmaintenance :
    i'.maintenance = { (i.answerAlarm seed).maintenance.record last with hasWork := false }) :
    Records i i' (i.alarmEvents tasks seed) last := by
  refine ⟨?_, i.length_alarmEvents tasks seed, fun e he => endsWork_alarmEvents he⟩
  rw [log, hmaintenance, ← h.events_answerAlarm seed]
  exact (EventLog.events_record _ _).trans
    (by rw [if_pos ((h.answerAlarm seed).attentive.alert.records _)]; rfl)

theorem InService.lookup_runPending (h : i.InService tasks m) (seed : UInt64) (s : String) :
    ((i.runPending seed).2.lookup? s).1 = (i.lookup? s).1 := by
  rw [((h.keeps.runPending seed).1.lookup? s).1, (h.keeps.lookup? s).1]

/-- **On a free table** pending work is done. -/
theorem InService.achieves (h : i.InService tasks m) (hwork : i.maintenance.hasWork = true)
    (hfree : ∀ task ∈ tasks, task.isUnderWay = false) (seed : UInt64) :
    (i.runPending seed).1 = some (i.answerAlarm seed).doWork.1 ∧
      i.Achieves (i.answerAlarm seed) (i.runPending seed).2 (i.answerAlarm seed).doWork.1 := by
  have hlookup := h.lookup_runPending seed
  have hheap := i.heap_answerAlarm seed
  obtain ⟨-, -, hquiet, hwork'⟩ := h.attentive.answerAlarm h.keeps seed
  obtain ⟨hsize, hlive⟩ := h.table_answerAlarm hfree seed
  have hafter := h.answerAlarm seed
  have hfree' := hafter.orderly.free_iff.2 hfree
  obtain ⟨⟨summary, hcompleted⟩, hmaintenance⟩ := hafter.doWork_of_free hfree'
  obtain ⟨notices, heq⟩ := runPending_of_hasWork (hwork'.trans hwork)
  have hgrow := (i.answerAlarm seed).doWork_eq_grow_iff
  have hlinked := hcompleted.linked
  rw [hheap] at hlinked
  rw [heq] at hlookup ⊢
  refine ⟨rfl, ?_⟩
  constructor
  case grows => exact hgrow
  case size =>
    have hdoubled :=
      hcompleted.size_eq (hafter.keeps.steady.rest hfree') hafter.roomy.fits fun hkind =>
        (hgrow.1 (WorkKind.taskKind_eq_grow_iff.1 hkind)).2
    simp only [WorkKind.taskKind_eq_grow_iff, hsize] at hdoubled
    exact hdoubled
  case recorded => exact ⟨_, h.records hmaintenance, rehashFailed_notMem_alarmEvents hfree⟩
  case hasWork => exact congrArg Maintenance.hasWork hmaintenance
  case live =>
    intro slot hslot
    have hmem := (List.mem_filter.1 (hlinked.mem_iff.1 (List.mem_map_of_mem hslot))).2
    rw [WeakRef.isDead, Bool.not_not] at hmem
    exact (congrArg (Heap.isLive · _) hheap).trans hmem
  case linked => exact hlinked.trans hlive
  case heap => exact hheap
  case lookup => exact hlookup

/-- **On a table that another task has**, pending work is put off. -/
theorem InService.putsOff (h : i.InService tasks m) (hwork : i.maintenance.hasWork = true)
    (hbusy : ∃ task ∈ tasks, task.isUnderWay = true) (seed : UInt64) :
    (i.runPending seed).1 = some (i.answerAlarm seed).doWork.1 ∧
      i.PutsOff (i.answerAlarm seed) (i.runPending seed).2 (i.answerAlarm seed).doWork.1 := by
  have hlookup := h.lookup_runPending seed
  obtain ⟨-, -, hquiet, hwork'⟩ := h.attentive.answerAlarm h.keeps seed
  have howned := h.orderly.owned_iff.2 hbusy
  have hafter := (h.answerAlarm seed).orderly.owned_iff.2 hbusy
  obtain ⟨htable, hmaintenance⟩ := doWork_of_owned hafter
  have hsame : (i.answerAlarm seed).table = i.table := by
    rw [Interner.answerAlarm]
    split
    · rcases i.table_rehash seed with heq | heq
      · exact heq
      · rw [heq]
        exact Task.run_of_owned howned i.heap _
    · rfl
  obtain ⟨notices, heq⟩ := runPending_of_hasWork (hwork'.trans hwork)
  have hgrow := (i.answerAlarm seed).doWork_eq_grow_iff
  rw [heq] at hlookup ⊢
  refine ⟨rfl, hgrow, ⟨_, h.records hmaintenance⟩, congrArg Maintenance.hasWork hmaintenance,
    ⟨notices, ?_⟩, i.heap_answerAlarm seed, hlookup⟩
  rw [htable, hsame]

end Interner

namespace Workshop

variable {region : List ObjectId} {w : Workshop} {r : Registry} {cells : CellStore}

/-- The table of a workshop stays within its bounds. -/
theorem Minded.roomy_run (h : w.Minded region r) (hroomy : (w.world []).Roomy) (deeds : List Deed) :
    ((w.run deeds).world []).Roomy := by
  induction deeds generalizing w r with
  | nil => exact hroomy
  | cons deed rest ih =>
    have hnext : (w.step deed).Minded region (r.run ([deed].filterMap Deed.request?)) :=
      h.run [deed]
    refine ih hnext ?_
    cases deed with
    | ask request => exact hroomy.errands h.orderly (h.mirrors.errands request)
    | work action htask =>
      have heff := h.orderly.step_task htask
      have hstep := heff.roomy h.orderly hroomy
      exact ⟨hstep.fits, hstep.room⟩

/-- **A workshop that is kempt** is in balance when no slot of a dead string is linked. -/
theorem Kempt.inBalance (h : w.Kempt region cells r) (hempty : cells.handles = #[])
    (hlive : ∀ slot ∈ w.session.interner.table.linked,
      w.session.interner.heap.isLive slot.ref.referent = true) :
    w.session.interner.InBalance := by
  obtain ⟨passed, htidy⟩ := h.tidy
  have haccounted := htidy.kept.accounted
  obtain ⟨hallocated, hdead⟩ := haccounted.allocated hempty rfl
  have hcount : (liveRefs w.session.interner.heap w.session.interner.table.linkedRefs).length =
      w.session.interner.table.linked.length := by
    have hall : ∀ r ∈ w.session.interner.table.linkedRefs, !r.isDead w.session.interner.heap := by
      intro ref href
      obtain ⟨slot, hslot, rfl⟩ := List.mem_map.1 href
      simp [WeakRef.isDead, hlive slot hslot]
    rw [liveRefs, List.filter_eq_self.2 hall, Table.length_linkedRefs]
  constructor
  case items => exact haccounted.items.trans (congrArg _ hcount.symm)
  case itemCount =>
    rw [hcount]
    exact haccounted.itemCount
  case allocated => exact hallocated.trans hcount.symm
  case reportDead =>
    refine hdead.trans (List.countP_eq_zero.2 fun slot hslot => ?_)
    rw [WeakRef.isDead, Workshop.world, hlive slot hslot]
    decide

/-- What is asked of an interner, and what its callers do with tasks, leaves it in service. -/
theorem inService_run {settings : Settings} {image : Option Image} {heap : Heap}
    {interner : Interner} {held : List ObjectId}
    (hstart : Interner.start settings image cells heap = .ok interner)
    (hheld : ∀ o, held.count o ≤ heap.refs o) (deeds : List Deed) :
    ∃ m, (run { session := { interner, held } } deeds).session.interner.InService
      (run { session := { interner, held } } deeds).tasks m := by
  have hbegun := minded_start hstart hheld
  have hroomy : (world { session := { interner, held } } []).Roomy := by
    obtain ⟨heap', herrands⟩ := Interner.runs_start hstart
    have hcheck := (Interner.start_eq_ok_iff.1 hstart).1
    have hfirst : (World.start settings (cells.listen Interner.listener) heap').Roomy :=
      World.roomy_run hcheck (cells.listen Interner.listener) heap' []
    exact hfirst.errands (World.orderly_start settings _ heap') herrands
  have hend := hbegun.run deeds
  exact ⟨_, hbegun.attentive_run (attentive_start hstart) deeds, hend.mirrors.keeps, hend.orderly,
    hbegun.roomy_run hroomy deeds⟩

/-- **Pending work is settled.** An interner is started with any settings that it accepts, any
snapshot and cells of its own. Whatever is asked of it, and whatever its callers do with tasks,
outstanding work is done in one go if the table is free, and put off if a task has the table. The
counts are those of the live slots afterwards, unless a task of the callers went back. -/
theorem pending_work_settled {settings : Settings} {image : Option Image} {cells : CellStore}
    {heap : Heap} {interner : Interner} {held : List ObjectId}
    (hstart : Interner.start settings image cells heap = .ok interner)
    (hheld : ∀ o, held.count o ≤ heap.refs o) (hown : cells.handles = #[]) (deeds : List Deed)
    (seed : UInt64) (hwork :
    (run { session := { interner, held } } deeds).session.interner.maintenance.hasWork = true) :
    let w := run { session := { interner, held } } deeds
    let i := w.session.interner
    ∃ kind, (i.runPending seed).1 = some kind ∧
      ((∀ task ∈ w.tasks, task.isUnderWay = false) →
        i.Achieves (i.answerAlarm seed) (i.runPending seed).2 kind ∧
          (neverGoesBack { session := { interner, held } } deeds = true →
            (i.runPending seed).2.InBalance)) ∧
      ((∃ task ∈ w.tasks, task.isUnderWay = true) →
        i.PutsOff (i.answerAlarm seed) (i.runPending seed).2 kind) := by
  intro w i
  obtain ⟨m, hservice⟩ := inService_run hstart hheld deeds
  by_cases hbusy : ∃ task ∈ w.tasks, task.isUnderWay = true
  · obtain ⟨hkind, hputsOff⟩ := hservice.putsOff hwork hbusy seed
    refine ⟨_, hkind, fun hfree => ?_, fun _ => hputsOff⟩
    obtain ⟨task, htask, hunder⟩ := hbusy
    rw [hfree task htask] at hunder
    cases hunder
  · have hfree : ∀ task ∈ w.tasks, task.isUnderWay = false := by
      intro task htask
      rw [← Bool.not_eq_true]
      exact fun hunder => hbusy ⟨task, htask, hunder⟩
    obtain ⟨hkind, hachieves⟩ := hservice.achieves hwork hfree seed
    refine ⟨_, hkind, fun _ => ⟨hachieves, fun hback => ?_⟩, fun h => absurd h hbusy⟩
    obtain ⟨r, hkempt⟩ := (kempt_start hstart hheld).run hback
    exact (hkempt.ask (.runPending seed)).inBalance hown hachieves.live

/-- Of three strings with one hash the first is dropped, and the last is found too far behind. -/
def alarmingDeeds : List Deed :=
  [.ask (.intern "AaAa"), .ask (.drop ⟨0⟩), .ask (.intern "AaBB"), .ask (.intern "BBAa")]

/-- A task of the callers takes the table besides. -/
def hinderingDeeds : List Deed :=
  alarmingDeeds ++ [.work (.create .bulkDelete none) (.refl true), .work (.prepare 0) (.refl true)]

theorem pending_work_settled_under_alarm :
    let i := (touchy.run alarmingDeeds).session.interner
    let hindered := (touchy.run hinderingDeeds).session.interner
    Interner.start touchy.session.interner.settings none Interner.ownCells {} =
      .ok touchy.session.interner ∧
      i.maintenance.needsRehash = true ∧ i.maintenance.hasWork = true ∧
      hindered.maintenance.hasWork = true ∧
      ((i.runPending 7).1 = some .clean ∧ (i.runPending 7).2.table.itemCount = 2 ∧
        i.Achieves (i.answerAlarm 7) (i.runPending 7).2 .clean ∧ (i.runPending 7).2.InBalance) ∧
      ∃ kind, (hindered.runPending 7).1 = some kind ∧
        hindered.PutsOff (hindered.answerAlarm 7) (hindered.runPending 7).2 kind := by
  intro i hindered
  have hstart : Interner.start touchy.session.interner.settings none Interner.ownCells {} =
    .ok touchy.session.interner := rfl
  have hheld : ∀ o, List.count o ([] : List ObjectId) ≤ Heap.refs {} o := fun _ => Nat.zero_le _
  have hwork : i.maintenance.hasWork = true := by decide +kernel
  have hwork' : hindered.maintenance.hasWork = true := by decide +kernel
  have hclean : (i.runPending 7).1 = some .clean := by decide +kernel
  have hfree : ∀ task ∈ (touchy.run alarmingDeeds).tasks, task.isUnderWay = false := by
    decide +kernel
  have hbusy : ∃ task ∈ (touchy.run hinderingDeeds).tasks, task.isUnderWay = true := by
    decide +kernel
  have hback : touchy.neverGoesBack alarmingDeeds = true := by decide +kernel
  have hbegin : ({ session := { interner := touchy.session.interner, held := [] } } : Workshop) =
    touchy := rfl
  have hsettled := pending_work_settled hstart hheld rfl alarmingDeeds 7 hwork
  have hsettled' := pending_work_settled hstart hheld rfl hinderingDeeds 7 hwork'
  rw [hbegin] at hsettled hsettled'
  obtain ⟨kind, hkind, hdone, -⟩ := hsettled
  obtain ⟨kind', hkind', -, hputOff⟩ := hsettled'
  obtain rfl : kind = .clean := Option.some.inj (hkind.symm.trans hclean)
  obtain ⟨hachieves, hbalance⟩ := hdone hfree
  exact ⟨hstart, by decide +kernel, hwork, hwork',
    ⟨hclean, by decide +kernel, hachieves, hbalance hback⟩, kind', hkind', hputOff hbusy⟩

/-- A task with very large chunks reaps the slot of a dead string twice, and the collector
reports. -/
def reapingDeeds : List Deed :=
  [.ask (.intern "a"), .ask (.drop ⟨0⟩),
    .work (.create .grow (some 0xffffffffffffffff)) (.refl true), .work (.prepare 0) (.refl true),
    .work (.chunk 0) (.refl true), .work (.chunk 0) (.refl true), .work (.chunk 0) (.refl true),
    .work (.commit 0) (.refl true), .ask (.notifyDead 1)]

/-- The table is free and empty, and work is done, but the count is off by one, below zero. -/
theorem count_off_after_pending_work :
    let i := (plain.run reapingDeeds).session.interner
    Interner.start World.oneBucket none Interner.ownCells {} = .ok plain.session.interner ∧
      i.maintenance.hasWork = true ∧
      (∀ task ∈ (plain.run reapingDeeds).tasks, task.isUnderWay = false) ∧
      (i.runPending 7).1 = some .grow ∧ (i.runPending 7).2.table.linkedRefs = [] ∧
      (i.runPending 7).2.table.itemCount = 0xffffffffffffffff ∧ ¬ (i.runPending 7).2.InBalance := by
  intro i
  have hlinked : (i.runPending 7).2.table.linkedRefs = [] := by decide +kernel
  have hcount : (i.runPending 7).2.table.itemCount = 0xffffffffffffffff := by decide +kernel
  refine ⟨rfl, by decide +kernel, by decide +kernel, by decide +kernel, hlinked, hcount,
    fun h => ?_⟩
  have hnone := h.itemCount
  rw [hlinked, hcount] at hnone
  exact absurd (hnone (by decide)) (by decide)

end Workshop

end WeakIntern
