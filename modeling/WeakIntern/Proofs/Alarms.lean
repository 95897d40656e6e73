import WeakIntern.Proofs.Ownership
import WeakIntern.Proofs.OnePass
import WeakIntern.Proofs.Seeds
/-!
# Alarms

What comes of an alarm, at any table, whatever maintenance has done before and whoever is at work on
the table. There are four outcomes, and a rule that selects one (`Maintenance.choice`). What
maintenance notes and records follows from the outcome alone (`Maintenance.answered`), and only one
outcome touches the table: it is gone over once, under the hash of the new seed (`Table.Rekeyed`).

That the cells of all dead strings are given back rests on an invariant of its own: every slot, in
whichever array, has a cell (`World.Celled`). It holds even where a task has gone back and the books
are off.
-/

namespace WeakIntern

open scoped List

/-! ## Slots have cells -/

namespace CellStore

variable {store : CellStore} {r : WeakRef}

/-- Releases, refused or not, leave every cell to its object. -/
theorem Issued.releaseAny (h : store.Issued r) (refs : List WeakRef) :
    (store.releaseAll refs).Issued r := by
  obtain ⟨handle, hhandle, href⟩ := h
  exact ⟨_, (handle?_releaseAll store refs r).trans (congrArg _ hhandle), href⟩

end CellStore

namespace Table

variable {heap : Heap} {t t' : Table} {task task' : Task} {o : ObjectId} {ref r : WeakRef}
    {placement : Placement}

/-- A later table, with the references in its slots and the cells that there were before. -/
structure Reuses (t t' : Table) : Prop where
  carries : ∀ r, t'.Carries r → t.Carries r
  issued : ∀ r, t.cells.Issued r → t'.cells.Issued r

theorem Reuses.refl (t : Table) : t.Reuses t := ⟨fun _ => id, fun _ => id⟩

theorem Reuses.trans {t'' : Table} (h : t.Reuses t') (h' : t'.Reuses t'') : t.Reuses t'' :=
  ⟨fun r hr => h.carries r (h'.carries r hr), fun r hr => h'.issued r (h.issued r hr)⟩

theorem Reuses.of_eq (hactive : t'.active = t.active) (hsuccessors : t'.successors = t.successors)
    (hcells : t'.cells = t.cells) : t.Reuses t' := by
  refine ⟨fun r hr => ?_, fun r hr => hcells ▸ hr⟩
  rwa [Carries, hactive, hsuccessors] at hr

/-- An insert puts its own reference into a slot, and no other. -/
theorem Inserted.carries (h : Inserted t heap o ref placement t') (hsized : t.active.Sized)
    (hr : t'.Carries r) :
    r = ref ∨ t.Carries r := by
  obtain ⟨a, ha, i, slot, hslot, rfl⟩ := hr
  cases h with
  | existing p notices b hmem hfind => exact .inr ⟨a, ha, i, slot, hslot, rfl⟩
  | active hmark hfind =>
    rcases List.mem_cons.1 ha with rfl | ha
    · rcases (BucketArray.mem_append_slotFor hsized).1 hslot with hslot | ⟨rfl, -⟩
      · exact .inr ⟨t.active, List.mem_cons_self, i, slot, hslot, rfl⟩
      · exact .inl rfl
    · exact .inr ⟨a, List.mem_cons_of_mem _ ha, i, slot, hslot, rfl⟩
  | next target moving hmark hfind =>
    rcases List.mem_cons.1 ha with rfl | ha
    · exact .inr ⟨t.active, List.mem_cons_self, i, slot, hslot, rfl⟩
    · rw [List.mem_singleton.1 ha] at hslot
      rcases (BucketArray.mem_append_slotFor moving.sized).1 hslot with hslot | ⟨rfl, -⟩
      · exact .inr ⟨target, by rw [moving.next]; exact .tail _ (.head _), i, slot, hslot, rfl⟩
      · exact .inl rfl

theorem Inserted.issued (h : Inserted t heap o ref placement t') (hr : t.cells.Issued r) :
    t'.cells.Issued r := by
  cases h with
  | existing p notices b hmem hfind => exact hr.releaseAny [ref]
  | active hmark hfind => exact hr
  | next target moving hmark hfind => exact hr

theorem reuses_processBucket {kind : TaskKind} {index : Nat} (hhalfway : Task.Halfway kind t index)
    (hindex : index < t.size) (htask : task.kind = kind) :
    t.Reuses (Task.processBucket heap (task, t) index).2 := by
  cases hhalfway with
  | cleaning hkind still =>
    obtain ⟨_, heq⟩ := Task.reapBucket_eq heap task t index
    rw [Task.processBucket_cleaning hkind heap htask, heq]
    refine ⟨?_, fun r hr => hr.releaseAny _⟩
    rintro r ⟨a, ha, i, slot, hslot, rfl⟩
    rcases List.mem_cons.1 ha with rfl | ha
    · exact ⟨t.active, List.mem_cons_self, i, slot,
        ((BucketArray.mem_cleaned hindex).1 hslot).1, rfl⟩
    · exact ⟨a, List.mem_cons_of_mem _ ha, i, slot, hslot, rfl⟩
  | moving hkind target moving suits moved =>
    obtain ⟨_, heq⟩ := Task.migrateBucket_eq heap task moving.next index
    rw [Task.processBucket_moving hkind heap htask, heq]
    refine ⟨?_, fun r hr => hr.releaseAny _⟩
    rintro r ⟨a, ha, i, slot, hslot, rfl⟩
    rcases List.mem_cons.1 ha with rfl | ha
    · exact ⟨t.active, List.mem_cons_self, i, slot, (BucketArray.mem_redirect hindex).1 hslot, rfl⟩
    · rw [List.mem_singleton.1 ha] at hslot
      rcases (BucketArray.mem_appendAll moving.sized).1 hslot with hslot | ⟨hslot, -⟩
      · exact ⟨target, by rw [moving.next]; exact .tail _ (.head _), i, slot, hslot, rfl⟩
      · -- What is carried over is in the old bucket too.
        obtain ⟨before, hbefore, rfl⟩ := List.mem_map.1 hslot
        exact ⟨t.active, List.mem_cons_self, index, before, (mem_liveSlots.1 hbefore).1, rfl⟩

theorem Reuses.processBucket (h : t.Reuses t') {task₀ : Task} {index : Nat}
    (hindex : index < t.size) (hstage : Task.Stage task₀ t index task t') :
    t.Reuses (Task.processBucket heap (task, t') index).2 := by
  have hlt : index < t'.size := by
    rw [Table.size, hstage.frame.size]
    exact hindex
  exact h.trans (reuses_processBucket hstage.halfway hlt hstage.same.kind)

theorem reuses_prepare (still : t.Still) (hprepare : task.prepare t = some (task', t')) :
    t.Reuses t' := by
  obtain ⟨-, -, -, -, rfl⟩ := Task.prepare_eq_some hprepare
  refine ⟨?_, fun _ => id⟩
  rintro r ⟨a, ha, i, slot, hslot, rfl⟩
  rcases List.mem_cons.1 ha with rfl | ha
  · exact ⟨t.active, List.mem_cons_self, i, slot, hslot, rfl⟩
  · -- The array that slots are to be moved into is empty.
    by_cases hkind : task.kind = .bulkDelete
    · simp only [hkind, Task.targetArray] at ha
      rw [still.alone] at ha
      exact absurd ha List.not_mem_nil
    · obtain ⟨log2, epoch, htarget⟩ := Task.targetArray_ne_bulkDelete hkind t.active
      simp only [htarget] at ha
      rw [List.mem_singleton.1 ha, BucketArray.slotsAt_empty] at hslot
      exact absurd hslot List.not_mem_nil

theorem reuses_finish (hdrives : task.Drives t) : t.Reuses (task.finish t).2.2 := by
  cases hdrives.halfway with
  | cleaning hkind still =>
    rw [Task.finish, Task.publish_cleaning hkind]
    exact .of_eq rfl rfl rfl
  | moving hkind target moving suits moved =>
    rw [Task.finish, Task.publish_moving hkind moving.next]
    refine ⟨?_, fun _ => id⟩
    rintro r ⟨a, ha, i, slot, hslot, rfl⟩
    rw [List.mem_singleton.1 ha] at hslot
    exact ⟨target, by rw [moving.next]; exact .tail _ (.head _), i, slot, hslot, rfl⟩

theorem reuses_processChunk (hdrives : task.Drives t) : t.Reuses (task.processChunk heap t).2 :=
  (hdrives.processChunk_induction (P := fun _ _ t' => t.Reuses t')
    (fun _ _ _ hindex hstage h => h.processBucket hindex hstage)
    (fun _ _ _ _ h => h) (fun _ _ _ _ _ _ h => h) (.refl t)).1

theorem reuses_abandon (hdrives : task.Drives t) : t.Reuses (task.abandon heap t) := by
  have hnotified : t.Reuses (t.notify task.abandonNotice) := .of_eq rfl rfl rfl
  obtain ⟨task', t', heq, hreuses, hdrives', -⟩ :=
    hdrives.resumed.complete_induction (P := fun _ _ t' => (t.notify task.abandonNotice).Reuses t')
      (fun _ _ _ hindex hstage h => h.processBucket hindex hstage) (fun _ _ _ _ h => h)
        (fun _ _ _ _ _ _ h => h) (.refl _)
  rw [Task.abandon_eq hdrives, heq]
  exact hnotified.trans (hreuses.trans (reuses_finish hdrives'))

end Table

namespace World

variable {w w' : World}

/-- Every slot has a cell, and so has every reference that waits for an insert. -/
structure Celled (w : World) : Prop where
  orderly : w.Orderly
  spare : ∀ r ∈ w.spare, w.table.cells.Issued r
  slots : ∀ r, w.table.Carries r → w.table.cells.Issued r

theorem celled_start (settings : Settings) (cells : CellStore) (heap : Heap) :
    (start settings cells heap).Celled where
  orderly := orderly_start settings cells heap
  spare _ hr := absurd hr List.not_mem_nil
  slots := by
    rintro r ⟨a, ha, i, slot, hslot, rfl⟩
    rw [List.mem_singleton.1 ha] at hslot
    exact absurd hslot
      (by rw [start, Table.ofSettings, BucketArray.slotsAt_empty]; exact List.not_mem_nil)

theorem Effect.reuses {back : Bool} (heff : Effect w back w') : w.table.Reuses w'.table := by
  cases heff with
  | tasks tasks horderly hsame hnone => exact .refl _
  | prepared i task task' t' hi hrest hprepare hdrives =>
    exact Table.reuses_prepare hrest.still hprepare
  | chunk i task hi hrunning hdrives => exact Table.reuses_processChunk hdrives
  | commit i task hi hrunning hdrives hend => exact Table.reuses_finish hdrives
  | abandon i task hi hdrives => exact Table.reuses_abandon hdrives

theorem Celled.acquire (h : w.Celled) (o : ObjectId) :
    Celled
      { w with table := (w.table.acquire o).2, spare := (w.table.acquire o).1 :: w.spare } where
  orderly := h.orderly.congr w.heap _ _ _
  spare r hr := by
    rcases List.mem_cons.1 hr with rfl | hr
    · exact (CellStore.inUse_acquire o).2 (.inl rfl) |>.issued
    · exact (h.spare r hr).acquire o
  slots r hr := (h.slots r hr).acquire o

theorem Celled.pass (h : w.Celled) (o : ObjectId) {ref : WeakRef}
    (href : w.table.cells.Issued ref) :
    (w.pass o ref).1.Celled := by
  have hins := Table.insertIfAbsent_inserted h.orderly.formed w.heap o ref
  refine ⟨h.orderly.pass o ref, fun r hr => hins.issued (h.spare r hr), fun r hr => hins.issued ?_⟩
  rcases hins.carries h.orderly.sized hr with rfl | hr
  · exact href
  · exact h.slots r hr

/-- Fewer references may wait. -/
theorem Celled.respare (h : w.Celled) {spare : List WeakRef} (hsub : ∀ r ∈ spare, r ∈ w.spare) :
    Celled { w with spare } :=
  ⟨h.orderly.congr _ _ _ _, fun r hr => h.spare r (hsub r hr), h.slots⟩

/-- **Every slot keeps a cell**, whatever happens to the table. -/
theorem Celled.move (h : w.Celled) (m : Move) : (w.move m).1.Celled := by
  cases m with
  | act action =>
    cases htask : action.isTask with
    | true =>
      have heff := h.orderly.step_task htask
      have hreuses := heff.reuses
      refine ⟨heff.orderly h.orderly, fun r hr => ?_,
        fun r hr => hreuses.issued r (h.slots r (hreuses.carries r hr))⟩
      have hspare := heff.aside.2.1
      exact hreuses.issued r (h.spare r (hspare ▸ hr))
    | false =>
      cases action with
      | allocate s => exact ⟨h.orderly.congr _ _ _ _, h.spare, h.slots⟩
      | retain o => exact ⟨h.orderly.congr _ _ _ _, h.spare, h.slots⟩
      | drop o => exact ⟨h.orderly.congr _ _ _ _, h.spare, h.slots⟩
      | insert o =>
        rw [World.move, World.step]
        split
        · have hacquired := h.acquire o
          exact (hacquired.respare fun r hr => .tail _ hr).pass o
            (hacquired.spare _ List.mem_cons_self)
        · exact h
      | get key => exact h
      | create | prepare | chunk | pause | resume | commit | abandon => cases htask
  | acquire o =>
    rw [World.move]
    split
    · exact h.acquire o
    · exact h
  | offer o ref =>
    rw [World.move]
    split
    · next hoffered =>
      have hspare : ref ∈ w.spare := by simpa using ((Bool.and_eq_true _ _).mp hoffered).2
      exact (h.respare fun r hr => List.mem_of_mem_erase hr).pass o (h.spare ref hspare)
    · exact h

theorem celled_run (settings : Settings) (cells : CellStore) (heap : Heap) (moves : List Move) :
    ((start settings cells heap).run moves).Celled :=
  run_induction (fun _ m h => h.move m) (celled_start settings cells heap) moves

end World

/-- A task comes to its end on a table that is free, and below its greatest size if the task is to
grow it. -/
theorem World.Orderly.completes {w : World} (h : w.Orderly) (hfree : w.table.owned = false)
    {kind : TaskKind} (hroom : kind = .grow → w.table.isMaxSize = false) :
    ∃ summary, (Task.run w.heap (.new w.table kind) w.table).summary = some summary ∧
      Task.Completed w.heap kind w.table (Task.run w.heap (.new w.table kind) w.table).table
        summary := by
  have hwf := Task.wellFormed_ofChunk (t := w.table) kind none h.chunkBuckets_lt
  have hcompleted := Task.run_completed (h.atRest_of_free hfree) hwf rfl w.heap
  have hstarts : ¬ ((Task.ofChunk w.table kind none).kind = .grow ∧ w.table.isMaxSize = true) := by
    rintro ⟨hgrow, hmax⟩
    rw [hroom hgrow] at hmax
    cases hmax
  rw [if_neg hstarts] at hcompleted
  exact hcompleted

/-- A rehash of a table that is free comes to its end, at the size of the table. -/
theorem World.Orderly.completes_rehash {w : World} (h : w.Orderly)
    (hfree : ∀ task ∈ w.tasks, task.isUnderWay = false) (seed : UInt64) :
    ∃ summary, (Task.run w.heap (.new w.table (.rehash seed)) w.table).summary = some summary ∧
      Task.Completed w.heap (.rehash seed) w.table
        (Task.run w.heap (.new w.table (.rehash seed)) w.table).table summary ∧
      (Task.run w.heap (.new w.table (.rehash seed)) w.table).table.size = w.table.size := by
  have hfree := h.free_iff.2 hfree
  obtain ⟨summary, hsummary, hcompleted⟩ :=
    h.completes hfree (show TaskKind.rehash seed = .grow → _ by simp)
  have hlog2 := hcompleted.log2.trans (if_neg (by simp))
  exact ⟨summary, hsummary, hcompleted, hcompleted.atRest.size_eq (h.atRest_of_free hfree) hlog2⟩

/-! ## The rule and its consequences -/

namespace RehashOutcome

/-- The event that goes with an outcome. -/
def event (t : Table) (seed : UInt64) : RehashOutcome → Event
  | .preferGrow => .rehashDeferredToGrow t.loadFactor
  | .alreadyRehashed => .rehashRepeated
  | .rehashed => .rehashed t.size seed 0.0
  | .busy => .rehashFailed

/-- Is ordinary work asked for in place of a rehash? -/
def asksForWork : RehashOutcome → Bool
  | .preferGrow | .alreadyRehashed => true
  | .rehashed | .busy => false

end RehashOutcome

namespace Maintenance

/-- The outcome for a table, by what is known before anything is done. -/
def choice (m : Maintenance) (w : World) : RehashOutcome :=
  if m.settings.preferredLoad < w.table.loadFactor ∧ w.table.isMaxSize = false then .preferGrow
  else if m.rehashed = true then .alreadyRehashed
  else if ∃ task ∈ w.tasks, task.isUnderWay = true then .busy
  else .rehashed

/-- What is noted and recorded when an alarm has come to an outcome. The alarm is over in any
case. -/
def answered (m : Maintenance) (t : Table) (seed : UInt64) (outcome : RehashOutcome) :
    Maintenance :=
  { m with
    hasWork := m.hasWork || outcome.asksForWork
    wakePending := m.wakePending || outcome.asksForWork
    needsRehash := false
    rehashed := m.rehashed || outcome = .rehashed
    log := m.log.record (outcome.event t seed) }

variable {m : Maintenance} {w : World} {seed : UInt64}

/-- The only outcome that takes the table into hand. -/
theorem choice_eq_rehashed_iff : m.choice w = .rehashed ↔
    m.settings.prefersGrowth w.table.loadFactor w.table.isMaxSize = false ∧ m.rehashed = false ∧
      ∀ task ∈ w.tasks, task.isUnderWay = false := by
  rw [choice, Settings.prefersGrowth]
  split
  · next hgrow => simp [hgrow]
  · next hgrow =>
    have hfalse :
        (decide (m.settings.preferredLoad < w.table.loadFactor) && !w.table.isMaxSize) = false := by
      simpa using hgrow
    rw [hfalse]
    split
    · next hdone => simp [hdone]
    · next hdone => split <;> simp_all

/-- A task can be in the way if it is under way, and of the first rehash only. -/
theorem of_choice_eq_busy (h : m.choice w = .busy) :
    m.rehashed = false ∧ ∃ task ∈ w.tasks, task.isUnderWay = true := by
  rw [choice] at h
  split at h
  · cases h
  · split at h
    · cases h
    · next hnot =>
      split at h
      · next hbusy => exact ⟨Bool.eq_false_iff.2 hnot, hbusy⟩
      · cases h

/-- **Any other outcome** leaves the table as it is. -/
theorem rehash_of_ne (h : w.Orderly) (hne : m.choice w ≠ .rehashed) : m.rehash w.heap w.table seed =
    (m.choice w, 0, m.answered w.table seed (m.choice w), w.table) := by
  rw [choice] at hne ⊢
  split
  · next hgrow =>
    have hprefers : m.settings.prefersGrowth w.table.loadFactor w.table.isMaxSize = true := by
      simpa [Settings.prefersGrowth] using hgrow
    simp only [rehash, hprefers, if_true, answered, RehashOutcome.event, RehashOutcome.asksForWork,
      trigger, record, Bool.or_true]
    simp
  · next hgrow =>
    have hprefers : m.settings.prefersGrowth w.table.loadFactor w.table.isMaxSize = false := by
      simpa [Settings.prefersGrowth] using hgrow
    split
    · next hdone =>
      simp only [rehash, hprefers, Bool.false_eq_true, if_false, hdone, if_true, answered,
        RehashOutcome.event, RehashOutcome.asksForWork, trigger, record, Bool.or_true, Bool.true_or]
    · next hdone =>
      split
      · next hbusy =>
        have hprepare : (Task.new w.table (.rehash seed)).prepare w.table = none :=
          Task.prepare_eq_none_iff.2 fun hstarts => by simp [h.owned_iff.2 hbusy] at hstarts
        simp only [rehash, hprefers, Bool.false_eq_true, if_false, hdone, rekey, Task.run, hprepare,
          answered, RehashOutcome.event, RehashOutcome.asksForWork, record, Bool.or_false]
        simp
      · next hfree =>
        rw [if_neg hgrow, if_neg hdone, if_neg hfree] at hne
        exact absurd rfl hne

/-- **A rehash** is a task of its own, run from its start to its end. -/
theorem rehash_of_eq (h : w.Orderly) (heq : m.choice w = .rehashed) : m.rehash w.heap w.table seed =
    (.rehashed, (Task.run w.heap (.new w.table (.rehash seed)) w.table).pauses,
      m.answered w.table seed .rehashed,
        (Task.run w.heap (.new w.table (.rehash seed)) w.table).table) := by
  obtain ⟨hprefers, hdone, hfree⟩ := choice_eq_rehashed_iff.1 heq
  obtain ⟨summary, hsummary, hcompleted, hsize⟩ := h.completes_rehash hfree seed
  simp only [rehash, hprefers, Bool.false_eq_true, if_false, hdone, rekey, hsummary,
    hcompleted.newSize, hsize, answered, RehashOutcome.event, RehashOutcome.asksForWork, record,
    Bool.or_false, Bool.false_or, decide_true]

end Maintenance

/-! ## The table under a new seed -/

/-- A table that was gone over once, under the hash of a seed. -/
structure Table.Rekeyed (heap : Heap) (seed : UInt64) (t t' : Table) : Prop where
  size : t'.size = t.size
  epoch : t'.epoch = .alternate seed
  atRest : t'.AtRest
  /-- The slots of live strings are linked still, and those of dead ones are gone. -/
  linked : t'.linkedRefs.Perm (liveRefs heap t.linkedRefs)
  items : t'.items = t.items - .ofNat (deadRefs heap t.linkedRefs).length
  /-- The cells of the dead ones were given back, and those of no others. -/
  released : ∀ r ∈ deadRefs heap t.linkedRefs, t'.cells.isReleased r = true
  others : ∀ r, (∀ dead ∈ deadRefs heap t.linkedRefs, dead.id ≠ r.id) →
    t'.cells.handle? r = t.cells.handle? r

/-- A table in which strings are found as before, under the hash of a seed. -/
structure Table.Rehashed (heap : Heap) (seed : UInt64) (t t' : Table) : Prop where
  get? : ∀ key, (t'.get? heap key).value = (t.get? heap key).value
  hash :
    ∀ slot ∈ t'.linked, slot.hash = (Epoch.alternate seed).hash (heap.content slot.ref.referent)

namespace World

variable {w : World} {m : WeakMap} {seed : UInt64}

theorem Orderly.epoch_rehash (h : w.Orderly) (hfree : ∀ task ∈ w.tasks, task.isUnderWay = false)
    (seed : UInt64) :
    (Task.run w.heap (.new w.table (.rehash seed)) w.table).table.epoch = .alternate seed := by
  have hrest := h.atRest_of_free (h.free_iff.2 hfree)
  have hwf := Task.wellFormed_ofChunk (t := w.table) (.rehash seed) none h.chunkBuckets_lt
  cases hprepare : (Task.ofChunk w.table (.rehash seed) none).prepare w.table with
  | none =>
    rw [Task.prepare_eq_none_iff] at hprepare
    simp [Task.ofChunk, Task.new, hrest.free] at hprepare
  | some started =>
    obtain ⟨task', t', htable, hkind, hpassed, -⟩ := Task.run_passed w.heap hprepare hrest hwf
    change (Task.run w.heap (Task.ofChunk w.table (.rehash seed) none) w.table).table.epoch = _
    rw [htable, Table.epoch, hpassed.finish_moving hkind rfl, BucketArray.epoch_appendAll]
    rfl

theorem Celled.rekeyed (h : w.Celled) (hfree : ∀ task ∈ w.tasks, task.isUnderWay = false) :
    w.table.Rekeyed w.heap seed (Task.run w.heap (.new w.table (.rehash seed)) w.table).table := by
  obtain ⟨summary, -, hcompleted, hsize⟩ := h.orderly.completes_rehash hfree seed
  obtain ⟨dead, hdead, hreaped⟩ := hcompleted.cells
  -- It does not matter in which order the dead are released.
  have hcell (r : WeakRef) := CellStore.handle?_releaseAll w.table.cells dead r
  have hany (r : WeakRef) : (dead.any fun d => d.id = r.id) =
      (deadRefs w.heap w.table.linkedRefs).any fun d => d.id = r.id := hdead.any_eq
  simp only [← hreaped.cells, hany] at hcell
  constructor
  case size => exact hsize
  case epoch => exact h.orderly.epoch_rehash hfree seed
  case atRest => exact hcompleted.atRest
  case linked => exact hcompleted.linked
  case items => exact hreaped.items.trans (by rw [hdead.length_eq])
  case released =>
    intro r hr
    have hlinked : r ∈ w.table.linkedRefs := (List.mem_filter.1 hr).1
    obtain ⟨handle, hbefore, -⟩ := h.slots r (Table.carries_of_mem_linkedRefs hlinked)
    have hmarked : ((deadRefs w.heap w.table.linkedRefs).any fun d => d.id = r.id) = true :=
      List.any_eq_true.2 ⟨r, hr, by simp⟩
    have hafter := hcell r
    rw [hbefore, hmarked, Option.map_some, Bool.or_true] at hafter
    exact congrArg (Option.any (·.released)) hafter
  case others =>
    intro r hother
    have hunmarked : ((deadRefs w.heap w.table.linkedRefs).any fun d => d.id = r.id) = false := by
      simpa using hother
    have hafter := hcell r
    simp only [hunmarked, Bool.or_false] at hafter
    exact hafter.trans Option.map_id'

theorem Mirrors.rehashed (h : w.Mirrors m)
    (hrekeyed :
      w.table.Rekeyed w.heap seed (Task.run w.heap (.new w.table (.rehash seed)) w.table).table) :
    w.table.Rehashed w.heap seed (Task.run w.heap (.new w.table (.rehash seed)) w.table).table := by
  have hsteady := h.orderly.steady
  have hcoherent : w.table.Coherent w.heap := h.heap ▸ h.table.coherent
  have hsame := hcoherent.run hsteady h.orderly.chunkBuckets_lt (.rehash seed)
  constructor
  case get? =>
    intro key
    have hmirrors := h.table.of_sameObjects (by rw [h.heap]; exact hsame)
    have hafter := hmirrors.get? (.still hrekeyed.atRest.still) key
    have hbefore := h.table.get? hsteady.formed key
    rw [h.heap] at hafter hbefore
    exact hafter.trans hbefore.symm
  case hash =>
    intro slot hslot
    rw [Table.linked_still hrekeyed.atRest.still] at hslot
    obtain ⟨i, hi⟩ := BucketArray.mem_slots.1 hslot
    have hepoch : (Task.run w.heap (.new w.table (.rehash seed)) w.table).table.active.epoch =
        .alternate seed :=
      hrekeyed.epoch
    rw [(hsame.coherent.placed _ List.mem_cons_self i slot hi).hash, hepoch]

/-- What an alarm comes to in a world. -/
structure Answered (w : World) (m : Maintenance) (seed : UInt64)
    (answer : RehashOutcome × Nat × Maintenance × Table) :
    Prop where
  outcome : answer.1 = m.choice w
  maintenance : answer.2.2.1 = m.answered w.table seed answer.1
  /-- One event is recorded, if events of its level are. -/
  events : answer.2.2.1.log.events.toList =
    m.log.events.toList ++ if m.log.keeps (answer.1.event w.table seed)
      then [answer.1.event w.table seed] else []
  same : answer.1 ≠ .rehashed → answer.2.2.2 = w.table
  rekeyed : answer.1 = .rehashed → w.table.Rekeyed w.heap seed answer.2.2.2
  /-- If a task was in the way, the next alarm that finds the table free and not overloaded has it
  rehashed. -/
  retried : answer.1 = .busy → ∀ (more : List Move) (seed' : UInt64),
    (∀ task ∈ (w.run more).tasks, task.isUnderWay = false) →
    m.settings.prefersGrowth (w.run more).table.loadFactor (w.run more).table.isMaxSize = false →
    ((answer.2.2.1.raiseAlarm (w.run more).table true).rehash (w.run more).heap
      (w.run more).table seed').1 = .rehashed

theorem Celled.answered (h : w.Celled) (m : Maintenance) (seed : UInt64) :
    w.Answered m seed (m.rehash w.heap w.table seed) := by
  have hevents (outcome : RehashOutcome) :=
    EventLog.events_record m.log (outcome.event w.table seed)
  by_cases heq : m.choice w = .rehashed
  · rw [Maintenance.rehash_of_eq h.orderly heq]
    obtain ⟨-, -, hfree⟩ := Maintenance.choice_eq_rehashed_iff.1 heq
    exact
      { outcome := heq.symm
        maintenance := rfl
        events := hevents .rehashed
        same := fun hne => absurd rfl hne
        rekeyed := fun _ => h.rekeyed hfree
        retried := fun hbusy => absurd hbusy (by simp) }
  · rw [Maintenance.rehash_of_ne h.orderly heq]
    refine ⟨rfl, rfl, hevents _, fun _ => rfl, fun hrehashed => absurd hrehashed heq, ?_⟩
    intro hbusy more seed' hfree hprefers
    have horderly : (w.run more).Orderly := run_induction (fun _ m h => h.move m) h.orderly more
    have hdone : m.rehashed = false := (Maintenance.of_choice_eq_busy hbusy).1
    have hchoice :
        ((m.answered w.table seed (m.choice w)).raiseAlarm (w.run more).table true).choice
          (w.run more) = .rehashed := by
      rw [Maintenance.choice_eq_rehashed_iff]
      exact ⟨hprefers, by simp [Maintenance.raiseAlarm, Maintenance.answered, Maintenance.trigger,
        Maintenance.record, hdone, heq], hfree⟩
    rw [Maintenance.rehash_of_eq horderly hchoice]

/-- **An alarm is answered by rule**, at every table, by maintenance in any state: the outcome is
the one that the rule selects, the alarm is over, one event says so, and unless the outcome is a
rehash the table is untouched. A rehash keeps the size and releases all dead strings. If inserts
took references of their own, every string is found as before, under the hash of the new seed; and
unless a task went back before, the dead slots come off the books one by one. -/
theorem alarm_answered (settings : Settings) (cells : CellStore) (heap : Heap) (moves : List Move)
    (m : Maintenance) (seed : UInt64) :
    let w := (start settings cells heap).run moves
    let answer := m.rehash w.heap w.table seed
    w.Answered m seed answer ∧
      ((∀ move ∈ moves, move.Own) → answer.1 = .rehashed →
        w.table.Rehashed w.heap seed answer.2.2.2) ∧
      ((start settings cells heap).neverGoesBack moves = true → answer.1 = .rehashed →
        Task.Balanced w.heap w.table answer.2.2.2) := by
  intro w answer
  have hcelled : w.Celled := celled_run settings cells heap moves
  have hanswered := hcelled.answered m seed
  have htable (hrehashed : answer.1 = .rehashed) : (∀ task ∈ w.tasks, task.isUnderWay = false) ∧
      answer.2.2.2 = (Task.run w.heap (.new w.table (.rehash seed)) w.table).table := by
    have heq : m.choice w = .rehashed := hanswered.outcome.symm.trans hrehashed
    obtain ⟨-, -, hfree⟩ := Maintenance.choice_eq_rehashed_iff.1 heq
    refine ⟨hfree, ?_⟩
    simp only [answer, Maintenance.rehash_of_eq hcelled.orderly heq]
  refine ⟨hanswered, fun hown hrehashed => ?_, fun hback hrehashed => ?_⟩
  · obtain ⟨hfree, heq⟩ := htable hrehashed
    obtain ⟨map, hmirrors⟩ := (mirrors_start settings cells heap).moves hown
    rw [heq]
    exact Mirrors.rehashed hmirrors (hcelled.rekeyed hfree)
  · obtain ⟨hfree, heq⟩ := htable hrehashed
    obtain ⟨summary, -, hcompleted, -⟩ := hcelled.orderly.completes_rehash hfree seed
    have hrest := hcelled.orderly.atRest_of_free (hcelled.orderly.free_iff.2 hfree)
    rw [heq]
    exact ((kept_start settings cells heap).run hback).balanced hrest hcompleted

/-- One string of three is dead, and the table is rehashed. -/
theorem alarm_answered_of_threeStrings :
    let w := (start { initialSize := 2, maxLog2 := 4 } { name := "cells" } {}).run threeStrings
    let m : Maintenance := { settings := { initialSize := 2, maxLog2 := 4 }, needsRehash := true }
    let answer := m.rehash w.heap w.table 7
    answer.1 = .rehashed ∧ answer.2.2.1.needsRehash = false ∧ answer.2.2.2.linkedRefs.length = 2 ∧
      w.Answered m 7 answer ∧ w.table.Rehashed w.heap 7 answer.2.2.2 ∧
      Task.Balanced w.heap w.table answer.2.2.2 := by
  have h := alarm_answered { initialSize := 2, maxLog2 := 4 } { name := "cells" } {} threeStrings
    { settings := { initialSize := 2, maxLog2 := 4 }, needsRehash := true } 7
  have houtcome :
      (Maintenance.rehash { settings := { initialSize := 2, maxLog2 := 4 }, needsRehash := true }
      ((start { initialSize := 2, maxLog2 := 4 } { name := "cells" } {}).run threeStrings).heap
      ((start { initialSize := 2, maxLog2 := 4 } { name := "cells" } {}).run threeStrings).table
        7).1 = .rehashed := by
    decide +kernel
  exact ⟨houtcome, by decide +kernel, by decide +kernel, h.1,
    h.2.1 (by simp [threeStrings, Move.Own]) houtcome, h.2.2 (by decide) houtcome⟩

end World

end WeakIntern
