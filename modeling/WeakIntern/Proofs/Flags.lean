import WeakIntern.Proofs.Course
/-!
# Work that is outstanding

Two flags say what is outstanding: an alarm that was not answered, and work that was not done. The
collector, long chains, answers to alarms and tasks set and clear them, and so does work that had to
be skipped. No alarm is ever outstanding without work (`Interner.Attentive`), so that pending work
is done just when it was asked for, and leaves nothing behind (`work_neither_lost_nor_repeated`).
-/

namespace WeakIntern

/-! ## Who listens -/

namespace CellStore

variable (store : CellStore)

theorem listener_releaseAll (refs : List WeakRef) :
    (store.releaseAll refs).listener = store.listener := by
  induction refs generalizing store with
  | nil => rfl
  | cons ref rest ih => exact (ih _).trans (store.listener_release ref)

end CellStore

theorem Table.listener_insertIfAbsent (t : Table) (heap : Heap) (o : ObjectId) (ref : WeakRef) :
    (t.insertIfAbsent heap o ref).2.cells.listener = t.cells.listener := by
  simp only [insertIfAbsent]
  cases (land heap t.alarmLength o 0 (t.active :: t.successors)).value with
  | occupied existing =>
    obtain ⟨notices, heq⟩ := t.release_eq ref
    dsimp only
    rw [heq]
    exact t.cells.listener_release ref
  | vacant depth place hash => cases depth <;> rfl
  | stranded => rfl

namespace Task

variable {task : Task} {t : Table}

theorem listener_processBucket {kind : TaskKind} {done : Nat} (h : Halfway kind t done)
    (heap : Heap) (htask : task.kind = kind) (index : Nat) :
    (processBucket heap (task, t) index).2.cells.listener = t.cells.listener := by
  cases h with
  | cleaning hkind still =>
    obtain ⟨_, h⟩ := reapBucket_eq heap task t index
    rw [processBucket_cleaning hkind heap htask, h]
    exact t.cells.listener_releaseAll _
  | moving hkind target moving suits moved =>
    obtain ⟨_, h⟩ := migrateBucket_eq heap task moving.next index
    rw [processBucket_moving hkind heap htask, h]
    exact t.cells.listener_releaseAll _

theorem Drives.listener_processChunk (h : task.Drives t) (heap : Heap) :
    (Task.processChunk heap task t).2.cells.listener = t.cells.listener :=
  (h.processChunk_induction (P := fun _ _ t' => t'.cells.listener = t.cells.listener)
    (fun i _ _ _ hstage heq =>
      (listener_processBucket hstage.halfway heap hstage.same.kind i).trans heq)
    (fun _ _ _ _ heq => heq) (fun _ _ _ _ _ _ heq => heq) rfl).1

theorem cells_finish (task : Task) (t : Table) : (finish task t).2.2.cells = t.cells := by
  cases hkind : task.kind <;> cases hnext : t.successors <;> simp [finish, publish, hkind, hnext]

theorem Drives.listener_complete (h : task.Drives t) (heap : Heap) :
    (complete heap task t).2.2.2.cells.listener = t.cells.listener := by
  obtain ⟨task', t', heq, hlistener, -⟩ :=
    h.complete_induction (P := fun _ _ t' => t'.cells.listener = t.cells.listener)
      (fun i _ _ _ hstage heq =>
        (listener_processBucket hstage.halfway heap hstage.same.kind i).trans heq)
      (fun _ _ _ _ heq => heq) (fun _ _ _ _ _ _ heq => heq) rfl
  rw [heq, cells_finish]
  exact hlistener

theorem listener_run (hsteady : t.Steady) (hlt : t.chunkBuckets < 2 ^ 64) (heap : Heap)
    (kind : TaskKind) :
    (run heap (.new t kind) t).table.cells.listener = t.cells.listener := by
  rw [run]
  cases hprepare : (Task.new t kind).prepare t with
  | none => rfl
  | some pair =>
    obtain ⟨task', t'⟩ := pair
    obtain ⟨-, hfree, -, -, ht'⟩ := prepare_eq_some hprepare
    have hdone := (drives_prepare_new hprepare (hsteady.rest hfree) hlt).listener_complete heap
    rw [ht'] at hdone ⊢
    exact hdone

end Task

/-- Tasks do not change who listens. -/
theorem World.Effect.listener {w w' : World} {back : Bool} (h : w.Effect back w') :
    w'.table.cells.listener = w.table.cells.listener := by
  cases h with
  | tasks tasks horderly hsame hnone => rfl
  | prepared i task task' t' hi hrest hprepare hdrives =>
    obtain ⟨-, -, -, -, ht'⟩ := Task.prepare_eq_some hprepare
    rw [ht']
    rfl
  | chunk i task hi hrunning hdrives => exact hdrives.listener_processChunk w.heap
  | commit i task hi hrunning hdrives hend =>
    exact congrArg CellStore.listener (Task.cells_finish task w.table)
  | abandon i task hi hdrives =>
    show (task.abandon w.heap w.table).cells.listener = _
    rw [Task.abandon_eq hdrives]
    exact hdrives.resumed.listener_complete w.heap

/-! ## Flags -/

theorem EventLog.keeps_record (log : EventLog) (e e' : Event) :
    (log.record e).keeps e' = log.keeps e' := by
  rw [record]
  split <;> rfl

namespace Maintenance

/-- No alarm is outstanding without work, and every event is recorded. -/
structure Alert (m : Maintenance) : Prop where
  alarm : m.needsRehash = true → m.hasWork = true
  records : ∀ e, m.log.keeps e = true

variable {m : Maintenance}

theorem Alert.record (h : m.Alert) (e : Event) : (m.record e).Alert :=
  ⟨h.alarm, fun e' => (m.log.keeps_record e e').trans (h.records e')⟩

theorem Alert.trigger (h : m.Alert) : m.trigger.Alert := ⟨fun _ => rfl, h.records⟩

theorem Alert.raiseAlarm (h : m.Alert) (t : Table) (raised : Bool) :
    (m.raiseAlarm t raised).Alert := by
  rw [Maintenance.raiseAlarm]
  split
  · exact ⟨fun _ => rfl, (h.record (.rehashRequested t.size)).records⟩
  · exact h

theorem Alert.notifyDead (h : m.Alert) (t : Table) (numDead : Nat) :
    (m.notifyDead t numDead).2.Alert := by
  simp only [Maintenance.notifyDead]
  split
  · exact h
  · exact (h.record _).trigger

/-- No alarm is outstanding any more, and work that was is outstanding still. -/
structure Answers (m m' : Maintenance) : Prop where
  alarm : m'.needsRehash = false
  work : m.hasWork = true → m'.hasWork = true
  alert : m.Alert → m'.Alert

theorem answers_rehash (m : Maintenance) (heap : Heap) (t : Table) (seed : UInt64) :
    m.Answers (m.rehash heap t seed).2.2.1 := by
  have hanswers : ∀ m' : Maintenance, (m.hasWork = true → m'.hasWork = true) →
      (m.Alert → m'.Alert) →
      m.Answers { m' with needsRehash := false } := by
    intro m' hwork halert
    exact ⟨rfl, hwork, fun h => ⟨nofun, (halert h).records⟩⟩
  simp only [rehash, rekey]
  split
  · exact hanswers _ (fun _ => rfl) fun h => (h.record _).trigger
  · split
    · exact hanswers _ (fun _ => rfl) fun h => (h.record _).trigger
    · split
      · exact hanswers _ id fun h => Alert.record (m := { m with rehashed := true })
          ⟨h.alarm, h.records⟩ _
      · exact hanswers _ id fun h => h.record _

/-- Once work was done, none is outstanding. -/
theorem Alert.doWork (h : m.Alert) (hanswered : m.needsRehash = false) (heap : Heap) (t : Table) :
    (m.doWork heap t).2.2.1.Alert ∧ (m.doWork heap t).2.2.1.needsRehash = false := by
  have halarm : (m.doWork heap t).2.2.1.needsRehash = false := hanswered
  refine ⟨⟨fun htrue => ?_, (h.record _).records⟩, halarm⟩
  rw [halarm] at htrue
  cases htrue

end Maintenance

namespace Interner

/-- An interner that is alert, and that is told of dead strings while it is running. -/
structure Attentive (i : Interner) : Prop where
  alert : i.maintenance.Alert
  listener : i.table.cells.listener = if i.running then some listener else none

variable {i i' : Interner} {m : WeakMap}

theorem Attentive.change (h : i.Attentive) (hchange : i.Change i') : i'.Attentive := by
  cases hchange with
  | heap heap => exact ⟨h.alert, h.listener⟩
  | alarm raised => exact ⟨h.alert.raiseAlarm _ _, h.listener⟩
  | insert o =>
    exact ⟨h.alert, ((i.table.acquire o).2.listener_insertIfAbsent _ _ _).trans h.listener⟩
  | drain => exact ⟨h.alert, h.listener⟩
  | drained entries => exact ⟨h.alert.record _, h.listener⟩
  | notifyDead numDead => exact ⟨h.alert.notifyDead _ _, h.listener⟩
  | shutdown =>
    rw [shutdown]
    split
    · exact ⟨⟨h.alert.alarm, h.alert.records⟩, rfl⟩
    · exact h

theorem Attentive.changes (h : i.Attentive) (hchanges : i.Changes i') : i'.Attentive := by
  induction hchanges with
  | refl => exact h
  | tail before change ih => exact ih.change change

theorem listener_rehash (hkeeps : i.Keeps m) (seed : UInt64) :
    (i.rehash seed).2.table.cells.listener = i.table.cells.listener := by
  rcases i.table_rehash seed with htable | htable
  · rw [htable]
  · rw [htable, Task.listener_run hkeeps.steady hkeeps.chunkBuckets_lt]

theorem Attentive.rehash (h : i.Attentive) (hkeeps : i.Keeps m) (seed : UInt64) :
    (i.rehash seed).2.Attentive :=
  ⟨(i.maintenance.answers_rehash i.heap i.table seed).alert h.alert,
    (listener_rehash hkeeps seed).trans h.listener⟩

/-! ## Pending work -/

/-- What an answer to an alarm leaves, if there is one: work that was outstanding, or that the
answer asks for. -/
theorem Attentive.answerAlarm (h : i.Attentive) (hkeeps : i.Keeps m) (seed : UInt64) :
    (i.answerAlarm seed).Attentive ∧ (i.answerAlarm seed).Keeps m ∧
      (i.answerAlarm seed).maintenance.needsRehash = false ∧
      (i.answerAlarm seed).maintenance.hasWork = i.maintenance.hasWork := by
  rw [Interner.answerAlarm]
  split
  · next halarm =>
    have hanswers := i.maintenance.answers_rehash i.heap i.table seed
    -- The alarm that is answered did not stand without work, so that the answer cannot ask for
    -- more.
    have hwork := h.alert.alarm halarm
    exact ⟨h.rehash hkeeps seed, (hkeeps.rehash seed).1, hanswers.alarm,
      (hanswers.work hwork).trans hwork.symm⟩
  · next hquiet => exact ⟨h, hkeeps, Bool.not_eq_true _ ▸ hquiet, rfl⟩

theorem runPending_eq (i : Interner) (seed : UInt64) :
    i.runPending seed =
      if (i.answerAlarm seed).maintenance.hasWork then
        (some (i.answerAlarm seed).doWork.1,
          if (i.answerAlarm seed).doWork.2.settings.verbose then
            { (i.answerAlarm seed).doWork.2 with
              table := (i.answerAlarm seed).doWork.2.table.notify
                ((i.answerAlarm seed).doWork.2.workNotice (i.answerAlarm seed).doWork.1) }
          else (i.answerAlarm seed).doWork.2)
      else (none, i.answerAlarm seed) := rfl

/-- Where nothing is outstanding, nothing is done. -/
theorem runPending_of_idle (halarm : i.maintenance.needsRehash = false)
    (hwork : i.maintenance.hasWork = false) (seed : UInt64) : i.runPending seed = (none, i) := by
  have hanswered : i.answerAlarm seed = i := by simp [Interner.answerAlarm, halarm]
  rw [runPending_eq, hanswered, hwork]
  rfl

/-- **Pending work is done** just when there is some, and then none is outstanding. -/
theorem Attentive.runPending (h : i.Attentive) (hkeeps : i.Keeps m) (seed : UInt64) :
    (i.runPending seed).2.Attentive ∧
      ((i.runPending seed).1.isSome = true ↔ i.maintenance.hasWork = true) ∧
      (i.runPending seed).2.maintenance.hasWork = false ∧
        (i.runPending seed).2.maintenance.needsRehash = false := by
  obtain ⟨hattentive, hkeeps', halarm, hwork⟩ := h.answerAlarm hkeeps seed
  rw [runPending_eq]
  generalize i.answerAlarm seed = i' at *
  rw [← hwork]
  split
  · next hsome =>
    obtain ⟨halert, halarm'⟩ := hattentive.alert.doWork halarm i'.heap i'.table
    have hlistener : i'.doWork.2.table.cells.listener = i'.table.cells.listener :=
      Task.listener_run hkeeps'.steady hkeeps'.chunkBuckets_lt _ _
    have hdone : i'.doWork.2.Attentive := ⟨halert, hlistener.trans hattentive.listener⟩
    dsimp only
    split
    · exact ⟨⟨hdone.alert, hdone.listener⟩, by simp [hsome], rfl, halarm'⟩
    · exact ⟨hdone, by simp [hsome], rfl, halarm'⟩
  · next hnone => exact ⟨hattentive, by simp [hnone], Bool.not_eq_true _ ▸ hnone, halarm⟩

/-- **All pending work** is done in one go: however many attempts are allowed beyond that, there is
nothing left for them. -/
theorem Attentive.runAll (h : i.Attentive) (hkeeps : i.Keeps m) (seed : UInt64) {attempts : Nat}
    (hattempts : 2 ≤ attempts) :
    Interner.runAll seed attempts i = ((i.runPending seed).1.toList, (i.runPending seed).2) := by
  obtain ⟨spare, rfl⟩ := Nat.exists_eq_add_of_le' hattempts
  obtain ⟨-, -, hwork, halarm⟩ := h.runPending hkeeps seed
  rw [Interner.runAll]
  generalize i.runPending seed = result at hwork halarm ⊢
  obtain ⟨done, i'⟩ := result
  cases done with
  | none => rfl
  | some kind =>
    dsimp only
    rw [Interner.runAll, runPending_of_idle halarm hwork]
    rfl

end Interner

/-- **Every request** leaves an interner attentive. -/
theorem Session.Mirrors.attentive {region : List ObjectId} {c : Session} {r : Registry}
    (h : c.Mirrors region r) (hattentive : c.interner.Attentive) (request : Request) :
    (c.step request).2.interner.Attentive := by
  cases request with
  | runPending seed => exact (hattentive.runPending h.keeps seed).1
  | rehash seed => exact hattentive.rehash h.keeps seed
  | allocate | retain | drop | intern | internObject | lookup | notifyDead | reportDead
  | transferOverlay | shutdown =>
    exact hattentive.changes (c.changes_step rfl)

namespace Workshop

theorem attentive_start {settings : Settings} {image : Option Image} {cells : CellStore}
    {heap : Heap} {interner : Interner}
    (hstart : Interner.start settings image cells heap = .ok interner) :
    interner.Attentive := by
  obtain ⟨-, rfl⟩ := Interner.start_eq_ok_iff.1 hstart
  have hfresh : (Interner.fresh settings image cells heap).Attentive :=
    ⟨⟨nofun, fun e => by cases e <;> rfl⟩, rfl⟩
  split
  · exact hfresh.changes (Interner.changes_transferOverlay _)
  · exact hfresh

variable {region : List ObjectId} {w : Workshop} {r : Registry}

theorem Minded.attentive_step (h : w.Minded region r) (hattentive : w.session.interner.Attentive)
    (deed : Deed) :
    (w.step deed).session.interner.Attentive := by
  cases deed with
  | ask request => exact h.mirrors.attentive hattentive request
  | work action htask =>
    have hlistener := (h.orderly.step_task htask).listener
    exact ⟨hattentive.alert, hlistener.trans hattentive.listener⟩

theorem Minded.attentive_run (h : w.Minded region r) (hattentive : w.session.interner.Attentive)
    (deeds : List Deed) :
    (w.run deeds).session.interner.Attentive := by
  induction deeds generalizing w r with
  | nil => exact hattentive
  | cons deed rest ih =>
    have hnext : (w.step deed).Minded region (r.run ([deed].filterMap Deed.request?)) :=
      h.run [deed]
    exact ih hnext (h.attentive_step hattentive deed)

end Workshop

/-! ## How work is asked for and done -/

namespace Interner

/-- The interner after a report of dead strings by which it asked for work, and what the process log
was handed. -/
def asked (i : Interner) (numDead : Nat) (echoed : Array Notice) : Interner :=
  { i with
    maintenance :=
      { i.maintenance with
        hasWork := true
        wakePending := true
        log :=
          { i.log with
            looks := i.log.looks + 1
            records := i.log.records.push
              (i.log.stamp (.workTriggered i.table.loadFactor (i.table.deadFactor numDead) numDead))
            echoed } } }

/-- How an interner asks for work and does it. -/
structure Heedful (i : Interner) : Prop where
  /-- Work is outstanding as long as an alarm is. -/
  alarm : i.maintenance.needsRehash = true → i.maintenance.hasWork = true
  /-- A report of dead strings asks for work if none is outstanding and the table needs it. -/
  asks : ∀ numDead, (i.notifyDead numDead).1 = true ↔
    i.maintenance.hasWork = false ∧
    i.settings.needsWork i.table.loadFactor (i.table.deadFactor numDead) = true
  /-- That is noted and recorded, and nothing else changes but what the process log is handed. -/
  asked : ∀ numDead, (i.notifyDead numDead).1 = true → ∃ echoed,
    (i.notifyDead numDead).2 = i.asked numDead echoed
  ignored : ∀ numDead, (i.notifyDead numDead).1 = false → (i.notifyDead numDead).2 = i
  /-- The collector tells the interner of all dead strings, up to the shutdown. -/
  reports : i.reportDead = (i.table.cells.numDead i.heap,
    if i.running then (i.notifyDead (i.table.cells.numDead i.heap)).2 else i)
  /-- Pending work is done just when there is some, -/
  works : ∀ seed, (i.runPending seed).1.isSome = true ↔ i.maintenance.hasWork = true
  /-- and then nothing is outstanding, -/
  done : ∀ seed, (i.runPending seed).2.maintenance.hasWork = false ∧
    (i.runPending seed).2.maintenance.needsRehash = false
  /-- so that there is none the next time. -/
  idle : ∀ seed seed', (i.runPending seed).2.runPending seed' = (none, (i.runPending seed).2)

variable {i : Interner} {m : WeakMap}

theorem notifyDead_fst (i : Interner) (numDead : Nat) : (i.notifyDead numDead).1 = true ↔
    i.maintenance.hasWork = false ∧
      i.settings.needsWork i.table.loadFactor (i.table.deadFactor numDead) = true := by
  have hsettings : i.settings = i.maintenance.settings := rfl
  simp only [notifyDead, Maintenance.notifyDead, hsettings]
  cases i.maintenance.hasWork <;>
    cases i.maintenance.settings.needsWork i.table.loadFactor (i.table.deadFactor numDead) <;>
    simp

/-- What comes of a report of dead strings. -/
theorem Attentive.notifyDead_cases (h : i.Attentive) (numDead : Nat) :
    i.notifyDead numDead = (false, i) ∨ ∃ echoed,
      i.notifyDead numDead = (true, i.asked numDead echoed) := by
  simp only [notifyDead, Maintenance.notifyDead]
  split
  · exact .inl rfl
  · refine .inr ?_
    rw [Maintenance.record, EventLog.record, if_pos (h.alert.records _)]
    exact ⟨_, rfl⟩

/-- The collector tells the interner, if that is the one that listens. -/
theorem Attentive.reportDead (h : i.Attentive) : i.reportDead = (i.table.cells.numDead i.heap,
    if i.running then (i.notifyDead (i.table.cells.numDead i.heap)).2 else i) := by
  rw [Interner.reportDead, CellStore.report, h.listener]
  cases i.running <;> rfl

theorem Attentive.heedful (h : i.Attentive) (hkeeps : i.Keeps m) : i.Heedful where
  alarm := h.alert.alarm
  asks := i.notifyDead_fst
  asked numDead htrue := by
    rcases h.notifyDead_cases numDead with heq | ⟨echoed, heq⟩
    · rw [heq] at htrue
      cases htrue
    · exact ⟨echoed, congrArg Prod.snd heq⟩
  ignored numDead hfalse := by
    rcases h.notifyDead_cases numDead with heq | ⟨echoed, heq⟩
    · exact congrArg Prod.snd heq
    · rw [heq] at hfalse
      cases hfalse
  reports := h.reportDead
  works seed := (h.runPending hkeeps seed).2.1
  done seed := (h.runPending hkeeps seed).2.2
  idle seed seed' := by
    obtain ⟨-, -, hwork, halarm⟩ := h.runPending hkeeps seed
    exact runPending_of_idle halarm hwork seed'

end Interner

namespace Workshop

/-- **Work is neither lost nor repeated.** An interner is started with any settings that it accepts
and any snapshot. Whatever is asked of it, and whatever its callers do with tasks of their own, it
asks for work once when there is need, and does it once. -/
theorem work_neither_lost_nor_repeated {settings : Settings} {image : Option Image}
    {cells : CellStore} {heap : Heap} {interner : Interner} {held : List ObjectId}
    (hstart : Interner.start settings image cells heap = .ok interner)
    (hheld : ∀ o, held.count o ≤ heap.refs o) (deeds : List Deed) :
    (run { session := { interner, held } } deeds).session.interner.Heedful := by
  have hminded := minded_start hstart hheld
  exact (hminded.attentive_run (attentive_start hstart) deeds).heedful
    (hminded.run deeds).mirrors.keeps

/-- Work is done while a task of the callers has the table, so that it is skipped, and an interner
that was shut down is told nothing. -/
def busyDeeds : List Deed :=
  [.ask (.intern "a"), .work (.create .grow none) (.refl true), .work (.prepare 0) (.refl true),
    .ask (.drop ⟨0⟩), .ask .reportDead, .ask (.runPending 7), .ask .shutdown, .ask .reportDead]

theorem work_neither_lost_nor_repeated_while_busy :
    Interner.start World.oneBucket none Interner.ownCells {} = .ok plain.session.interner ∧
      (plain.run busyDeeds).session.interner.table.owned = true ∧
      (plain.run busyDeeds).session.interner.running = false ∧
        (plain.run busyDeeds).session.interner.Heedful := by
  have hstart : Interner.start World.oneBucket none Interner.ownCells {} =
    .ok plain.session.interner := rfl
  have hheld : ∀ o, List.count o ([] : List ObjectId) ≤ Heap.refs {} o := fun _ => Nat.zero_le _
  exact ⟨hstart, by decide +kernel, by decide +kernel,
    work_neither_lost_nor_repeated hstart hheld busyDeeds⟩

end Workshop

end WeakIntern
