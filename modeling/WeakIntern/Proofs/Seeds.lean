import Mathlib.Data.Multiset.Filter
import WeakIntern.Proofs.Figures
import WeakIntern.Proofs.Verification
/-!
# The seeds cannot be seen

A *script* says what is done with a table from its beginning: strings are allocated, kept and
dropped, inserted and looked up, and tasks are run from their start to their end. Two scripts that
differ in the seeds of their rehashes only cannot be told apart by what they answer, nor by any
figure of the table, its cells and its tasks (`seeds_unseen`). Only the order of the slots differs,
and the hashes that they are stored under.

What there is to be seen is in the *outline* of a table, which has its linked references in no
order. From the same outline the same is seen, and every turn leads from the same outline to the
same outline.
-/

namespace WeakIntern

open scoped List

/-! ## Cells are released in any order -/

namespace CellStore

/-- What there is to be seen of a store. The cells are those of the handles that were not released,
and stand in no order. -/
structure Outline where
  name : String
  handles : Array Handle
  releasedTotal : Nat
  doubleReleases : Nat
  listener : Option Nat

def outline (store : CellStore) : Outline :=
  ⟨store.name, store.handles, store.releasedTotal, store.doubleReleases, store.listener⟩

namespace Outline

variable (a : Outline)

/-- The reference to a new handle. -/
def next (o : ObjectId) : WeakRef := ⟨a.handles.size + 1, o⟩

def acquire (o : ObjectId) : Outline := { a with handles := a.handles.push { referent := o } }

def isReleased (r : WeakRef) : Bool := (Handle.at? a.handles r.id).any (·.released)

def release (r : WeakRef) : Outline :=
  if a.isReleased r then { a with doubleReleases := a.doubleReleases + 1 }
  else
    { a with
      handles := Handle.update a.handles r.id fun handle => { handle with released := true }
      releasedTotal := a.releasedTotal + 1 }

variable {r r' : WeakRef}

/-- What a release does depends on the number of the handle only. -/
theorem release_congr (h : r.id = r'.id) : a.release r = a.release r' := by
  rw [release, release, isReleased, isReleased, h]

theorem isReleased_release (h : r.id ≠ r'.id) : (a.release r).isReleased r' = a.isReleased r' := by
  rw [release]
  split
  · rfl
  · rw [isReleased, Handle.at?_update, if_neg h, isReleased]

theorem release_comm (r r' : WeakRef) : (a.release r).release r' = (a.release r').release r := by
  by_cases h : r.id = r'.id
  · rw [a.release_congr h, release_congr _ h]
  · have hother := a.isReleased_release h
    have hother' := a.isReleased_release (Ne.symm h)
    have hcomm := fun note => Handle.update_comm a.handles r.id r'.id note
    rw [release, hother, release.eq_def (a.release r'), hother']
    cases hr : a.isReleased r <;> cases hr' : a.isReleased r' <;> simp [release, hr, hr', hcomm]

end Outline

variable {store store' : CellStore}

theorem acquire_eq_next (store : CellStore) (o : ObjectId) :
    (store.acquire o).1 = store.outline.next o :=
  congrArg (fun id => (⟨id, o⟩ : WeakRef)) store.nextId_eq

theorem outline_release (store : CellStore) (r : WeakRef) :
    (store.release r).2.outline = store.outline.release r := by
  rw [release, Outline.release, show store.outline.isReleased r = store.isReleased r from rfl]
  split <;> rfl

theorem outline_releaseAll (store : CellStore) (refs : List WeakRef) :
    (store.releaseAll refs).outline = refs.foldl Outline.release store.outline := by
  induction refs generalizing store with
  | nil => rfl
  | cons r rest ih =>
    rw [List.foldl_cons, ← outline_release, ← ih]
    rfl

/-- **The order** in which cells are released is not to be seen. -/
theorem outline_releaseAll_perm {refs refs' : List WeakRef} (hperm : refs.Perm refs')
    (h : store.outline = store'.outline) :
    (store.releaseAll refs).outline = (store'.releaseAll refs').outline := by
  have : RightCommutative Outline.release := ⟨Outline.release_comm⟩
  rw [outline_releaseAll, outline_releaseAll, h]
  exact hperm.foldl_eq _

/-- The same cells are in use, in one order or another. -/
theorem ledger_of_outline (h : store.outline = store'.outline) : store'.Ledger store.cellRefs := by
  refine ⟨store.ledger_cellRefs.nodup, fun r => ?_⟩
  have hhandles : store.handles = store'.handles := congrArg Outline.handles h
  rw [store.ledger_cellRefs.mem_iff, InUse, InUse, handle?, handle?, hhandles]

theorem allocated_eq (h : store.outline = store'.outline) : store.allocated = store'.allocated := by
  rw [(ledger_of_outline h).allocated, store.ledger_cellRefs.allocated]

theorem numDead_eq (h : store.outline = store'.outline) (heap : Heap) :
    store.numDead heap = store'.numDead heap := by
  rw [(ledger_of_outline h).numDead, store.ledger_cellRefs.numDead]

end CellStore

theorem Table.AtRest.size_eq {t t' : Table} (h : t.AtRest) (h' : t'.AtRest)
    (hlog2 : t.log2 = t'.log2) : t.size = t'.size := by
  have hsize : t.size = 2 ^ (t.log2 % 64) := h.sized
  have hsize' : t'.size = 2 ^ (t'.log2 % 64) := h'.sized
  rw [hsize, hsize', hlog2]

/-! ## Scripts -/

/-- A turn of a script: a step of the program that is none of a task, or a whole task. -/
inductive Turn where
  | act (action : Action) (hplain : action.isTask = false)
  | run (kind : TaskKind) (chunk : Option UInt64)

/-- A kind of task whatever its seed. -/
def TaskKind.unkeyed : TaskKind → TaskKind
  | .rehash _ => .rehash 0
  | .grow => .grow
  | .bulkDelete => .bulkDelete

theorem TaskKind.unkeyed_eq_grow {kind : TaskKind} : kind.unkeyed = .grow ↔ kind = .grow := by
  cases kind <;> simp [unkeyed]

theorem TaskKind.unkeyed_eq_bulkDelete {kind : TaskKind} : kind.unkeyed = .bulkDelete ↔
    kind = .bulkDelete := by
  cases kind <;> simp [unkeyed]

def Turn.unkeyed : Turn → Turn
  | .act action hplain => .act action hplain
  | .run kind chunk => .run kind.unkeyed chunk

def TaskSummary.unkeyed (summary : TaskSummary) : TaskSummary :=
  { summary with kind := summary.kind.unkeyed }

def Answer.unkeyed : Answer → Answer
  | .summary figures => .summary figures.unkeyed
  | answer => answer

/-- What can be seen of a table after a turn. -/
structure Glance where
  answer : Answer
  size : Nat
  itemCount : Nat
  allocated : Nat
  releasedTotal : Nat
  doubleReleases : Nat
  numDead : Nat
  /-- The live objects, in no order. -/
  scan : Multiset ObjectId

namespace World

/-- Take a turn. A task that cannot start says so. -/
def turn (w : World) : Turn → World × Answer
  | .act action _ => w.step action
  | .run kind chunk =>
    let run := Task.run w.heap (.ofChunk w.table kind chunk) w.table
    ({ w with table := run.table }, match run.summary with
      | some summary => .summary summary
      | none => .prepared false)

/-- What can be seen after an answer. -/
def glance (w : World) (answer : Answer) : Glance where
  answer := answer.unkeyed
  size := w.table.size
  itemCount := w.table.itemCount
  allocated := w.table.cells.allocated
  releasedTotal := w.table.cells.releasedTotal
  doubleReleases := w.table.cells.doubleReleases
  numDead := w.table.cells.numDead w.heap
  scan := w.table.liveObjects w.heap

/-- What can be seen after each turn of a script. -/
def glances (w : World) : List Turn → List Glance
  | [] => []
  | turn :: rest => (w.turn turn).1.glance (w.turn turn).2 :: (w.turn turn).1.glances rest

/-! ## Outlines -/

/-- What there is to be seen of a table. -/
structure Outline where
  heap : Heap
  /-- The linked references, in no order. -/
  refs : Multiset WeakRef
  cells : CellStore.Outline
  log2 : Nat
  maxLog2 : Nat

def outline (w : World) : Outline :=
  ⟨w.heap, w.table.linkedRefs, w.table.cells.outline, w.table.log2, w.table.maxLog2⟩

/-- A tidy world without tasks. -/
structure Rested (cells : CellStore) (w : World) : Prop where
  tidy : w.Tidy cells
  idle : w.tasks = []

variable {cells : CellStore} {w w' : World} {o : ObjectId}

theorem Rested.atRest (h : w.Rested cells) : w.table.AtRest :=
  h.tidy.kept.orderly.atRest fun task htask => absurd htask (by simp [h.idle])

theorem rested_start (settings : Settings) (cells : CellStore) (heap : Heap) :
    (start settings cells heap).Rested cells :=
  ⟨tidy_start settings cells heap, rfl⟩

theorem Rested.holds_iff (h : w.Rested cells) :
    w.table.Holds w.heap o ↔ w.heap.isLive o = true ∧ ∃ r ∈ w.table.linkedRefs, r.referent = o := by
  rw [Table.holds_still h.atRest.still, BucketArray.Holds, Table.linkedRefs,
    Table.linked_still h.atRest.still]
  simp only [List.mem_map, BucketArray.mem_slots]
  constructor
  · rintro ⟨hlive, i, slot, hslot, rfl⟩
    exact ⟨hlive, slot.ref, ⟨slot, ⟨i, hslot⟩, rfl⟩, rfl⟩
  · rintro ⟨hlive, r, ⟨slot, ⟨i, hslot⟩, rfl⟩, rfl⟩
    exact ⟨hlive, i, slot, hslot, rfl⟩

/-- The map that a table mirrors. -/
def map (w : World) : WeakMap where
  heap := w.heap
  entry s := (w.table.get? w.heap (.text s)).value

theorem Rested.mirrors (h : w.Rested cells) : w.table.Mirrors w.map where
  coherent := h.tidy.coherent
  entry _ _ := h.tidy.coherent.get?_eq_some_iff h.atRest.steady.formed

/-! ## What an outline shows -/

/-- Two worlds at rest with the same outline. -/
structure Same (cells : CellStore) (w w' : World) : Prop where
  left : w.Rested cells
  right : w'.Rested cells
  outline : w.outline = w'.outline

theorem Same.heap (h : Same cells w w') : w.heap = w'.heap := congrArg Outline.heap h.outline

theorem Same.store (h : Same cells w w') : w.table.cells.outline = w'.table.cells.outline :=
  congrArg Outline.cells h.outline

theorem Same.log2 (h : Same cells w w') : w.table.log2 = w'.table.log2 :=
  congrArg Outline.log2 h.outline

theorem Same.maxLog2 (h : Same cells w w') : w.table.maxLog2 = w'.table.maxLog2 :=
  congrArg Outline.maxLog2 h.outline

theorem Same.refs (h : Same cells w w') : w.table.linkedRefs.Perm w'.table.linkedRefs :=
  Multiset.coe_eq_coe.1 (congrArg Outline.refs h.outline)

theorem Same.map (h : Same cells w w') : w.map = w'.map := by
  have hentry : w.map.entry = w'.map.entry := by
    funext s
    ext o
    have hholds : w.table.Holds w.heap o ↔ w'.table.Holds w'.heap o := by
      rw [h.left.holds_iff, h.right.holds_iff, h.heap]
      simp only [h.refs.mem_iff]
    rw [h.left.mirrors.entry, h.right.mirrors.entry]
    show w.table.Holds w.heap o ∧ w.heap.content o = s ↔
      w'.table.Holds w'.heap o ∧ w'.heap.content o = s
    rw [hholds, h.heap]
  have hheap : w.map.heap = w'.map.heap := h.heap
  rw [show w.map = ⟨w.map.heap, w.map.entry⟩ from rfl, hheap, hentry]

theorem Same.size (h : Same cells w w') : w.table.size = w'.table.size :=
  h.left.atRest.size_eq h.right.atRest h.log2

/-- **From the same outline the same is seen.** -/
theorem Same.glance (h : Same cells w w') {answer answer' : Answer}
    (hanswer : answer.unkeyed = answer'.unkeyed) :
    w.glance answer = w'.glance answer' := by
  have hitems : w.table.items = w'.table.items := by
    rw [h.left.tidy.kept.items, h.right.tidy.kept.items, ← Table.length_linkedRefs,
      ← Table.length_linkedRefs, h.refs.length_eq]
  have hscan : (w.table.liveObjects w.heap : Multiset ObjectId) = w'.table.liveObjects w'.heap := by
    rw [Table.liveObjects_eq h.left.atRest.still, Table.liveObjects_eq h.right.atRest.still, h.heap,
      Multiset.coe_eq_coe]
    exact h.refs.filterMap _
  have hreleased : w.table.cells.releasedTotal = w'.table.cells.releasedTotal :=
    congrArg CellStore.Outline.releasedTotal h.store
  have hdoubles : w.table.cells.doubleReleases = w'.table.cells.doubleReleases :=
    congrArg CellStore.Outline.doubleReleases h.store
  rw [World.glance, World.glance, hanswer, h.size, Table.itemCount, hitems,
    CellStore.allocated_eq h.store, CellStore.numDead_eq h.store, hreleased, hdoubles,
    hscan, h.heap]
  rfl

/-! ## Turns -/

/-- What comes of a whole task. -/
theorem Rested.run (h : w.Rested cells) (kind : TaskKind) (chunk : Option UInt64) :
    if kind = .grow ∧ w.table.isMaxSize = true then
      w.turn (.run kind chunk) = (w, .prepared false)
    else ∃ summary t', w.turn (.run kind chunk) = ({ w with table := t' }, .summary summary) ∧
      Task.Completed w.heap kind w.table t' summary := by
  have hwf := Task.wellFormed_ofChunk kind chunk h.tidy.kept.orderly.chunkBuckets_lt
  have hrun := Task.run_completed h.atRest hwf (Task.state_ofChunk kind chunk) w.heap
  rw [Task.kind_ofChunk] at hrun
  rw [World.turn]
  split at hrun
  · next hmax =>
    rw [if_pos hmax, hrun.1, hrun.2]
  · next hmax =>
    obtain ⟨summary, hsummary, hcompleted⟩ := hrun
    rw [if_neg hmax]
    refine ⟨summary, _, ?_, hcompleted⟩
    rw [hsummary]

theorem Rested.of_completed (h : w.Rested cells) {kind : TaskKind} {t' : Table}
    {summary : TaskSummary} (hsame : Table.SameObjects w.heap w.table t')
    (hcompleted : Task.Completed w.heap kind w.table t' summary) :
    Rested cells { w with table := t' } := by
  obtain ⟨dead, -, hreaped⟩ := hcompleted.cells
  have hidle : ∀ task ∈ w.tasks, False := by simp [h.idle]
  have horderly : Orderly { w with table := t' } :=
    { wellFormed := fun task htask => (hidle task htask).elim
      chunkBuckets_lt := hcompleted.chunkBuckets ▸ h.tidy.kept.orderly.chunkBuckets_lt
      drives := fun i task hi _ => (hidle task (List.mem_of_getElem? hi)).elim
      alone := fun i j task other hi _ _ _ => (hidle task (List.mem_of_getElem? hi)).elim
      atRest := fun _ => hcompleted.atRest }
  exact ⟨⟨h.tidy.kept.reaped hreaped horderly (horderly.clear_of_atRest hcompleted.atRest),
    hsame.coherent, h.tidy.sole.reaped hreaped⟩, h.idle⟩

theorem Rested.turn (h : w.Rested cells) (turn : Turn) : (w.turn turn).1.Rested cells := by
  cases turn with
  | run kind chunk =>
    have hwf := Task.wellFormed_ofChunk kind chunk h.tidy.kept.orderly.chunkBuckets_lt
    have hfresh := hwf.fresh (Task.state_ofChunk kind chunk)
    have hsame := h.tidy.coherent.run_of_atRest h.atRest hfresh.1 hwf.chunk_pos hwf.chunk_lt
    have hrun := h.run kind chunk
    split at hrun
    · rw [hrun]
      exact h
    · obtain ⟨summary, t', heq, hcompleted⟩ := hrun
      have htable : (Task.run w.heap (.ofChunk w.table kind chunk) w.table).table = t' :=
        congrArg (fun answered => answered.1.table) heq
      rw [heq]
      exact h.of_completed (htable ▸ hsame) hcompleted
  | act action hplain =>
    cases action with
    | allocate s => exact ⟨h.tidy.later (w.heap.later_alloc s), h.idle⟩
    | retain o => exact ⟨h.tidy.later (w.heap.later_retain o), h.idle⟩
    | drop o => exact ⟨h.tidy.later (w.heap.later_drop o), h.idle⟩
    | insert o =>
      rw [World.turn, World.step]
      split
      · next hlive => exact ⟨h.tidy.insert hlive, h.idle⟩
      · exact h
    | get key => exact h
    | create | prepare | chunk | pause | resume | commit | abandon => cases hplain

/-- The outline after an insert with this answer. -/
def Outline.insert (a : Outline) (o : ObjectId) : Table.Placement → Outline
  | .existing _ => { a with cells := (a.cells.acquire o).release (a.cells.next o) }
  | .linked | .stranded => { a with refs := a.cells.next o ::ₘ a.refs, cells := a.cells.acquire o }

/-- **An insert** answers as the map does, and does to the outline what it answers. -/
theorem Rested.insert (h : w.Rested cells) (hlive : w.heap.isLive o = true) :
    (w.insert o).2 = .placed (w.map.placement o) ∧
      (w.insert o).1.outline = w.outline.insert o (w.map.placement o) := by
  have hrest : (w.table.acquire o).2.AtRest := h.atRest.congr rfl rfl rfl
  have hmirrors : (w.table.acquire o).2.Mirrors w.map := h.mirrors.congr rfl rfl
  have href : (w.table.acquire o).1.referent = o := rfl
  have hvalue := (hmirrors.insert hrest.steady.formed hrest.sized hlive href).2
  have hins := Table.insertIfAbsent_inserted hrest.steady.formed w.heap o (w.table.acquire o).1
  have hrecorded := hins.recorded hrest.steady.formed hrest.sized
  have hframe := hins.sameFrame
  rw [show w.map.heap = w.heap from rfl] at hvalue
  simp only [World.insert, World.pass]
  generalize (w.table.acquire o).2.insertIfAbsent w.heap o (w.table.acquire o).1 =
    result at hvalue hrecorded hframe ⊢
  obtain ⟨⟨placement, alarm⟩, t'⟩ := result
  dsimp only at hvalue hrecorded hframe ⊢
  refine ⟨congrArg Answer.placed hvalue, ?_⟩
  rw [← hvalue, outline]
  have hlog2 : t'.log2 = w.table.log2 := hframe.log2
  have hmaxLog2 : t'.maxLog2 = w.table.maxLog2 := hframe.maxLog2
  cases placement with
  | existing p =>
    obtain ⟨hrefs, hcells, -⟩ := hrecorded
    have hoffered : (w.table.acquire o).1 = w.table.cells.outline.next o :=
      w.table.cells.acquire_eq_next o
    rw [hrefs, hcells, hlog2, hmaxLog2, CellStore.outline_release, hoffered]
    rfl
  | linked =>
    obtain ⟨hrefs, hcells, -⟩ := hrecorded
    have hmore : (t'.linkedRefs : Multiset WeakRef) =
        w.table.cells.outline.next o ::ₘ w.table.linkedRefs := by
      rw [← w.table.cells.acquire_eq_next]
      exact Multiset.coe_eq_coe.2 hrefs
    rw [hmore, hcells, hlog2, hmaxLog2]
    rfl
  | stranded => exact hrecorded.elim

/-! ## Two scripts -/

/-- Two whole tasks of one kind, whatever their seeds. -/
theorem Same.completed (h : Same cells w w') {kind kind' : TaskKind}
    (hkind : kind.unkeyed = kind'.unkeyed) {t t' : Table} {summary summary' : TaskSummary}
    (hdone : Task.Completed w.heap kind w.table t summary)
    (hdone' : Task.Completed w'.heap kind' w'.table t' summary') :
    summary.unkeyed = summary'.unkeyed ∧
      World.outline ({ w with table := t } : World) =
        World.outline ({ w' with table := t' } : World) := by
  have hgrow : kind = .grow ↔ kind' = .grow := by
    rw [← TaskKind.unkeyed_eq_grow, hkind, TaskKind.unkeyed_eq_grow]
  have hclean : kind = .bulkDelete ↔ kind' = .bulkDelete := by
    rw [← TaskKind.unkeyed_eq_bulkDelete, hkind, TaskKind.unkeyed_eq_bulkDelete]
  have hlive :
      (liveRefs w.heap w.table.linkedRefs).Perm (liveRefs w'.heap w'.table.linkedRefs) := by
    rw [h.heap]
    exact h.refs.filter _
  have hdead :
      (deadRefs w.heap w.table.linkedRefs).Perm (deadRefs w'.heap w'.table.linkedRefs) := by
    rw [h.heap]
    exact h.refs.filter _
  have hlog2 : t.log2 = t'.log2 := by
    rw [hdone.log2, hdone'.log2, h.log2]
    simp only [hgrow]
  have hsize : t.size = t'.size := hdone.atRest.size_eq hdone'.atRest hlog2
  constructor
  · have hmoved : summary.moved = summary'.moved := by
      rw [hdone.moved, hdone'.moved, hlive.length_eq]
      simp only [hclean]
    simp only [TaskSummary.unkeyed, TaskSummary.mk.injEq]
    refine ⟨?_, ?_, ?_, ?_, hmoved, ?_⟩
    · rw [hdone.kind_eq, hdone'.kind_eq, hkind]
    · rw [hdone.oldSize, hdone'.oldSize, h.size]
    · rw [hdone.newSize, hdone'.newSize, hsize]
    · rw [hdone.examined, hdone'.examined, h.refs.length_eq]
    · rw [hdone.reclaimed, hdone'.reclaimed, hdead.length_eq]
  · obtain ⟨dead, hperm, hreaped⟩ := hdone.cells
    obtain ⟨dead', hperm', hreaped'⟩ := hdone'.cells
    have hrefs : (t.linkedRefs : Multiset WeakRef) = t'.linkedRefs :=
      Multiset.coe_eq_coe.2 ((hdone.linked.trans hlive).trans hdone'.linked.symm)
    have hcells : t.cells.outline = t'.cells.outline := by
      rw [hreaped.cells, hreaped'.cells]
      exact CellStore.outline_releaseAll_perm ((hperm.trans hdead).trans hperm'.symm) h.store
    have hmaxLog2 : t.maxLog2 = t'.maxLog2 := by rw [hdone.maxLog2, hdone'.maxLog2, h.maxLog2]
    simp only [World.outline, hrefs, hcells, hlog2, hmaxLog2, h.heap]

theorem Same.run (h : Same cells w w') {kind kind' : TaskKind}
    (hkind : kind.unkeyed = kind'.unkeyed) (chunk : Option UInt64) :
    (w.turn (.run kind chunk)).2.unkeyed = (w'.turn (.run kind' chunk)).2.unkeyed ∧
      (w.turn (.run kind chunk)).1.outline = (w'.turn (.run kind' chunk)).1.outline := by
  have hgrow : kind = .grow ↔ kind' = .grow := by
    rw [← TaskKind.unkeyed_eq_grow, hkind, TaskKind.unkeyed_eq_grow]
  have hmax : w.table.isMaxSize = w'.table.isMaxSize := by
    rw [Table.isMaxSize, Table.isMaxSize, h.log2, h.maxLog2]
  have hrun := h.left.run kind chunk
  have hrun' := h.right.run kind' chunk
  simp only [← hgrow, ← hmax] at hrun'
  split at hrun
  · next hstuck =>
    rw [if_pos hstuck] at hrun'
    rw [hrun, hrun']
    exact ⟨rfl, h.outline⟩
  · next hfree =>
    rw [if_neg hfree] at hrun'
    obtain ⟨summary, t, heq, hdone⟩ := hrun
    obtain ⟨summary', t', heq', hdone'⟩ := hrun'
    obtain ⟨hsummary, houtline⟩ := h.completed hkind hdone hdone'
    rw [heq, heq']
    exact ⟨congrArg Answer.summary hsummary, houtline⟩

theorem Same.act (h : Same cells w w') {action : Action} (hplain : action.isTask = false) :
    (w.step action).2 = (w'.step action).2 ∧
      (w.step action).1.outline = (w'.step action).1.outline := by
  have hheap := h.heap
  have haside : ∀ heap, World.outline ({ w with heap := heap } : World) =
      World.outline ({ w' with heap := heap } : World) :=
    fun heap => congrArg (fun a : Outline => { a with heap := heap }) h.outline
  cases action with
  | allocate s =>
    simp only [World.step, hheap, true_and]
    exact haside _
  | retain o =>
    simp only [World.step, hheap, true_and]
    exact haside _
  | drop o =>
    simp only [World.step, hheap, true_and]
    exact haside _
  | get key =>
    refine ⟨congrArg Answer.found ?_, h.outline⟩
    calc (w.table.get? w.heap key).value
      _ = w.map.entry (key.content w.heap) := h.left.mirrors.get? h.left.atRest.steady.formed key
      _ = w'.map.entry (key.content w'.heap) := by rw [h.map, hheap]
      _ = (w'.table.get? w'.heap key).value :=
        (h.right.mirrors.get? h.right.atRest.steady.formed key).symm
  | insert o =>
    simp only [World.step, ← hheap]
    split
    · next hlive =>
      obtain ⟨hanswer, houtline⟩ := h.left.insert hlive
      obtain ⟨hanswer', houtline'⟩ := h.right.insert (hheap ▸ hlive)
      rw [hanswer, hanswer', houtline, houtline', h.map, h.outline]
      exact ⟨rfl, rfl⟩
    · exact ⟨rfl, h.outline⟩
  | create | prepare | chunk | pause | resume | commit | abandon => cases hplain

/-- **A turn** answers the same from the same outline, and leads to the same outline, whatever the
seed. -/
theorem Same.turn (h : Same cells w w') {turn turn' : Turn} (hturn : turn.unkeyed = turn'.unkeyed) :
    (w.turn turn).2.unkeyed = (w'.turn turn').2.unkeyed ∧
      Same cells (w.turn turn).1 (w'.turn turn').1 := by
  have hboth : (w.turn turn).2.unkeyed = (w'.turn turn').2.unkeyed ∧
      (w.turn turn).1.outline = (w'.turn turn').1.outline := by
    cases turn with
    | act action hplain =>
      cases turn' with
      | act action' hplain' =>
        cases hturn
        exact ⟨congrArg Answer.unkeyed (h.act hplain).1, (h.act hplain).2⟩
      | run kind' chunk' => cases hturn
    | run kind chunk =>
      cases turn' with
      | act action' hplain' => cases hturn
      | run kind' chunk' =>
        obtain ⟨hkind, rfl⟩ := Turn.run.inj hturn
        exact h.run hkind chunk
  exact ⟨hboth.1, h.left.turn turn, h.right.turn turn', hboth.2⟩

theorem Same.glances (h : Same cells w w') {script script' : List Turn}
    (hscripts : script.map Turn.unkeyed = script'.map Turn.unkeyed) :
    w.glances script = w'.glances script' := by
  induction script generalizing w w' script' with
  | nil =>
    cases script' with
    | nil => rfl
    | cons turn' rest' => cases hscripts
  | cons turn rest ih =>
    cases script' with
    | nil => cases hscripts
    | cons turn' rest' =>
      obtain ⟨hturn, hrest⟩ := List.cons.inj hscripts
      obtain ⟨hanswer, hsame⟩ := h.turn hturn
      rw [World.glances, World.glances, hsame.glance hanswer, ih hsame hrest]

/-- **The seeds cannot be seen.** Two scripts that differ in the seeds of their rehashes only show
the same. -/
theorem seeds_unseen (settings : Settings) (cells : CellStore) (heap : Heap)
    {script script' : List Turn} (hscripts : script.map Turn.unkeyed = script'.map Turn.unkeyed) :
    (start settings cells heap).glances script = (start settings cells heap).glances script' := by
  have hstart := rested_start settings cells heap
  exact Same.glances ⟨hstart, hstart, rfl⟩ hscripts

/-- A table grows and is rehashed, one of its strings dies, another one comes, and the table is
cleaned. -/
def rehashingScript (seed : UInt64) : List Turn :=
  [.act (.allocate "rose") rfl, .act (.insert ⟨0⟩) rfl, .act (.allocate "elm") rfl,
    .act (.insert ⟨1⟩) rfl, .run .grow none, .run (.rehash seed) none, .act (.drop ⟨0⟩) rfl,
    .act (.allocate "fir") rfl, .act (.insert ⟨2⟩) rfl, .act (.get (.text "elm")) rfl,
    .run .bulkDelete (some 1)]

theorem seeds_unseen_of_two_rehashes :
    (rehashingScript 7).map Turn.unkeyed = (rehashingScript 14).map Turn.unkeyed ∧
      (start oneBucket { name := "cells" } {}).glances (rehashingScript 7) =
        (start oneBucket { name := "cells" } {}).glances (rehashingScript 14) :=
  ⟨rfl, seeds_unseen oneBucket { name := "cells" } {} rfl⟩

end World

end WeakIntern
