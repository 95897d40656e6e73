import WeakIntern.Proofs.Ledger
import WeakIntern.Proofs.Linked
import WeakIntern.Proofs.Order
/-!
# Slots and cells are accounted for

Every reference that an insert takes is in one of two places ever after: it is linked, and then its
cell is in use, or its cell was given back. The number of items is the number of linked slots. This
is so in every run in which no task goes back over buckets that it has moved (`accounts_balance`),
whatever objects the references are for.

A task does go back if it is asked for one chunk more after its last bucket, and its chunks are so
large that the end of the chunk wraps around. Then slots are linked twice and cells are released
twice (`accounts_off_after_wrapped_chunk`).
-/

namespace WeakIntern

open scoped List

namespace World

/-- What can be said of the slots and the cells of a world whose table started with `cells`. -/
structure Accounted (cells : CellStore) (w : World) : Prop where
  /-- Items are counted in 64 bits. -/
  items : w.table.items = .ofNat w.table.linked.length
  itemCount : w.table.linked.length < 2 ^ 64 → w.table.itemCount = w.table.linked.length
  /-- A linked slot has a cell, and nobody gave it back. -/
  linked_inUse : ∀ r ∈ w.table.linkedRefs, w.table.cells.InUse r
  /-- No cell is linked twice. -/
  linked_once : (w.table.linkedRefs.map WeakRef.id).Nodup
  /-- A reference that an insert took is linked or given back. -/
  passed : ∀ r ∈ w.passed, (w.table.linkedRefs.count r = 1 ∧ w.table.cells.isReleased r = false) ∨
    (w.table.linkedRefs.count r = 0 ∧ w.table.cells.isReleased r = true)
  /-- No release was refused, so that what was given back was given back once. -/
  doubleReleases : w.table.cells.doubleReleases = cells.doubleReleases
  /-- Linked and given back is all that inserts took. In particular what was taken off the count was
  on it before: nothing was ever taken off an empty count. -/
  balance : w.table.linked.length + w.table.cells.releasedTotal = w.passed.length +
    cells.releasedTotal
  /-- If nothing else uses the cells, they are those of the slots. -/
  allocated : cells.handles = #[] → w.spare = [] → w.table.cells.allocated = w.table.linked.length ∧
    w.table.cells.numDead w.heap = w.table.linked.countP fun slot => slot.ref.isDead w.heap

/-- The references to cells that were in use from the start. -/
def foreign (cells : CellStore) : List WeakRef := cells.cellRefs

/-- Nothing is marked ahead of any task that is under way. -/
def Clear (w : World) : Prop :=
  ∀ (i : Nat) (task : Task), w.tasks[i]? = some task → task.isUnderWay = true →
    Task.Ahead task.kind w.table task.cursor

/-- The books that every move keeps. -/
structure Kept (cells : CellStore) (w : World) : Prop where
  orderly : w.Orderly
  clear : w.Clear
  ledger : w.table.cells.Ledger (w.table.linkedRefs ++ (w.spare ++ foreign cells))
  apart : (w.passed ++ (w.spare ++ foreign cells)).Nodup
  issued : ∀ r ∈ w.passed, w.table.cells.Issued r
  linked_passed : ∀ r ∈ w.table.linkedRefs, r ∈ w.passed
  /-- A reference was acquired for an object that existed. -/
  known : ∀ r, r ∈ w.passed ∨ r ∈ w.spare → w.heap.Knows r.referent
  items : w.table.items = .ofNat w.table.linked.length
  doubleReleases : w.table.cells.doubleReleases = cells.doubleReleases
  balance : w.table.linked.length + w.table.cells.releasedTotal = w.passed.length +
    cells.releasedTotal

variable {cells : CellStore} {w w' : World}

/-! ## What the books say -/

theorem Kept.nodup_linkedRefs (h : w.Kept cells) : w.table.linkedRefs.Nodup :=
  (List.nodup_append.1 h.ledger.nodup).1

theorem Kept.inUse_iff (h : w.Kept cells) {r : WeakRef} (hr : r ∈ w.passed) :
    w.table.cells.InUse r ↔ r ∈ w.table.linkedRefs := by
  rw [← h.ledger.mem_iff, List.mem_append]
  refine ⟨fun hmem => hmem.resolve_right ?_, .inl⟩
  intro hother
  exact (List.nodup_append.1 h.apart).2.2 r hr r hother rfl

theorem Kept.accounted (h : w.Kept cells) : w.Accounted cells where
  items := h.items
  itemCount hlt := by
    rw [Table.itemCount, h.items]
    exact UInt64.toNat_ofNat_of_lt' hlt
  linked_inUse r hr := (h.inUse_iff (h.linked_passed r hr)).2 hr
  linked_once := by
    have hids := h.ledger.nodup_ids
    rw [List.map_append] at hids
    exact (List.nodup_append.1 hids).1
  passed r hr := by
    by_cases hlinked : r ∈ w.table.linkedRefs
    · exact .inl ⟨by rw [h.nodup_linkedRefs.count, if_pos hlinked],
        ((h.inUse_iff hr).2 hlinked).isReleased⟩
    · exact .inr ⟨List.count_eq_zero.2 hlinked,
        (h.issued r hr).isReleased fun hin => hlinked ((h.inUse_iff hr).1 hin)⟩
  doubleReleases := h.doubleReleases
  balance := h.balance
  allocated hempty hspare := by
    have hledger := h.ledger
    rw [hspare, foreign, CellStore.cellRefs_of_handles hempty, List.nil_append, List.append_nil]
      at hledger
    refine ⟨hledger.allocated.trans (List.length_map _), ?_⟩
    rw [hledger.numDead, Table.linkedRefs, List.countP_map]
    rfl

theorem kept_start (settings : Settings) (cells : CellStore) (heap : Heap) :
    (start settings cells heap).Kept cells := by
  have hlinked : (start settings cells heap).table.linked = [] := BucketArray.slots_empty _ _
  have hrefs : (start settings cells heap).table.linkedRefs = [] := by
    rw [Table.linkedRefs, hlinked]; rfl
  have hledger := cells.ledger_cellRefs
  exact
    { orderly := orderly_start settings cells heap
      clear := fun i task hi => absurd hi (by simp [start])
      ledger := by
        rw [hrefs]
        exact hledger
      apart := hledger.nodup
      issued := by simp [start]
      linked_passed := by simp [hrefs]
      known := by simp [start]
      items := by
        rw [hlinked]
        rfl
      doubleReleases := rfl
      balance := by
        rw [hlinked]
        rfl }

/-! ## What the moves do to them -/

/-- The heap has no part in the books. -/
theorem Kept.later (h : w.Kept cells) {heap : Heap} (hlater : Heap.Later w.heap heap) :
    Kept cells { w with heap } where
  orderly := h.orderly.congr heap w.table.cells w.spare w.passed
  clear := h.clear
  ledger := h.ledger
  apart := h.apart
  issued := h.issued
  linked_passed := h.linked_passed
  known r hr := hlater.knows _ (h.known r hr)
  items := h.items
  doubleReleases := h.doubleReleases
  balance := h.balance

/-- The order of the spare references is of no account. -/
theorem Kept.respare (h : w.Kept cells) {spare : List WeakRef} (hperm : w.spare.Perm spare) :
    Kept cells { w with spare } where
  orderly := h.orderly.congr w.heap w.table.cells spare w.passed
  clear := h.clear
  ledger := h.ledger.perm ((hperm.append_right _).append_left _)
  apart := ((hperm.append_right _).append_left _).nodup_iff.1 h.apart
  issued := h.issued
  linked_passed := h.linked_passed
  known r hr := h.known r (hr.imp_right hperm.mem_iff.2)
  items := h.items
  doubleReleases := h.doubleReleases
  balance := h.balance

/-- **A reference that is acquired** is spare. -/
theorem Kept.acquire (h : w.Kept cells) {o : ObjectId} (hlive : w.heap.isLive o = true) :
    Kept cells
      { w with table := (w.table.acquire o).2, spare := (w.table.acquire o).1 :: w.spare } where
  orderly := h.orderly.congr w.heap _ _ w.passed
  clear := h.clear
  ledger := (h.ledger.acquire o).perm List.perm_middle.symm
  apart := by
    refine (List.perm_middle.nodup_iff).2 (List.nodup_cons.2 ⟨?_, h.apart⟩)
    intro hmem
    refine w.table.cells.not_issued_acquire o ?_
    rcases List.mem_append.1 hmem with hmem | hmem
    · exact h.issued _ hmem
    · exact ((h.ledger.mem_iff _).1 (List.mem_append_right _ hmem)).issued
  issued r hr := (h.issued r hr).acquire o
  linked_passed := h.linked_passed
  known r hr := by
    rcases hr with hr | hr
    · exact h.known r (.inl hr)
    · rcases List.mem_cons.1 hr with rfl | hr
      · exact Heap.knows_of_isLive hlive
      · exact h.known r (.inr hr)
  items := h.items
  doubleReleases := h.doubleReleases
  balance := h.balance

section

variable {ref : WeakRef} {t' : Table}

/-- What a reference refers to is known whether it is spare or passed. -/
theorem Kept.known_cons (h : Kept cells { w with spare := ref :: w.spare }) {r : WeakRef}
    (hr : r ∈ ref :: w.passed ∨ r ∈ w.spare) : w.heap.Knows r.referent := by
  rcases hr with hr | hr
  · rcases List.mem_cons.1 hr with rfl | hr
    · exact h.known r (.inr List.mem_cons_self)
    · exact h.known r (.inl hr)
  · exact h.known r (.inr (List.mem_cons_of_mem _ hr))

theorem Kept.ledger_cons (h : Kept cells { w with spare := ref :: w.spare }) :
    w.table.cells.Ledger (ref :: (w.table.linkedRefs ++ (w.spare ++ foreign cells))) :=
  h.ledger.perm List.perm_middle

theorem Kept.apart_cons (h : Kept cells { w with spare := ref :: w.spare }) :
    ((ref :: w.passed) ++ (w.spare ++ foreign cells)).Nodup :=
  List.perm_middle.nodup_iff.1 h.apart

/-- The reference at the head of the spare ones is given back. -/
theorem Kept.giveBack (h : Kept cells { w with spare := ref :: w.spare })
    (horderly : Orderly { w with table := t', passed := ref :: w.passed })
    (hclear : Clear { w with table := t' }) (hrefs : t'.linkedRefs = w.table.linkedRefs)
    (hcells : t'.cells = (w.table.cells.release ref).2) (hitems : t'.items = w.table.items) :
    Kept cells { w with table := t', passed := ref :: w.passed } := by
  have hin : w.table.cells.InUse ref := (h.ledger_cons.mem_iff ref).1 List.mem_cons_self
  obtain ⟨hrest, htotal, hdouble⟩ := h.ledger_cons.release
  have hlength : t'.linked.length = w.table.linked.length := by
    rw [← Table.length_linkedRefs, hrefs, Table.length_linkedRefs]
  exact
    { orderly := horderly
      clear := hclear
      ledger := by
        rw [hrefs, hcells]
        exact hrest
      apart := h.apart_cons
      issued := by
        intro r hr
        rw [hcells]
        rcases List.mem_cons.1 hr with rfl | hr
        · exact hin.issued.release hin
        · exact (h.issued r hr).release hin
      linked_passed := by
        intro r hr
        rw [hrefs] at hr
        exact List.mem_cons_of_mem _ (h.linked_passed r hr)
      known := fun r hr => h.known_cons hr
      items := by
        rw [hitems, hlength]
        exact h.items
      doubleReleases := by
        rw [hcells, hdouble]
        exact h.doubleReleases
      balance := by
        have hbalance := h.balance
        rw [hcells, htotal, hlength, List.length_cons]
        dsimp only at hbalance
        omega }

/-- The reference at the head of the spare ones is linked. -/
theorem Kept.link (h : Kept cells { w with spare := ref :: w.spare })
    (horderly : Orderly { w with table := t', passed := ref :: w.passed })
    (hclear : Clear { w with table := t' }) (hrefs : t'.linkedRefs.Perm (ref :: w.table.linkedRefs))
    (hcells : t'.cells = w.table.cells) (hitems : t'.items = w.table.items + 1) :
    Kept cells { w with table := t', passed := ref :: w.passed } := by
  have hlength : t'.linked.length = w.table.linked.length + 1 := by
    rw [← Table.length_linkedRefs, hrefs.length_eq, List.length_cons, Table.length_linkedRefs]
  exact
    { orderly := horderly
      clear := hclear
      ledger := by
        rw [hcells]
        exact h.ledger_cons.perm (hrefs.symm.append_right _)
      apart := h.apart_cons
      issued := by
        intro r hr
        rw [hcells]
        rcases List.mem_cons.1 hr with rfl | hr
        · exact ((h.ledger_cons.mem_iff r).1 List.mem_cons_self).issued
        · exact h.issued r hr
      linked_passed := by
        intro r hr
        rcases List.mem_cons.1 (hrefs.mem_iff.1 hr) with rfl | hr
        · exact List.mem_cons_self
        · exact List.mem_cons_of_mem _ (h.linked_passed r hr)
      known := fun r hr => h.known_cons hr
      items := by
        rw [hitems, hlength, UInt64.ofNat_add, h.items]
        rfl
      doubleReleases := by
        rw [hcells]
        exact h.doubleReleases
      balance := by
        have hbalance := h.balance
        rw [hcells, hlength, List.length_cons]
        dsimp only at hbalance
        omega }

/-- An insert takes the reference at the head of the spare ones: it links it, or gives it back. -/
theorem Kept.pass (h : Kept cells { w with spare := ref :: w.spare }) (o : ObjectId) :
    (w.pass o ref).1.Kept cells := by
  have hworld : w.Orderly := h.orderly.congr w.heap w.table.cells w.spare w.passed
  have horderly := hworld.pass o ref
  have hins := Table.insertIfAbsent_inserted hworld.formed w.heap o ref
  have hrecorded := hins.recorded hworld.formed hworld.sized
  have hmarks := hins.isMoved hworld.sized
  rw [World.pass] at horderly ⊢
  generalize w.table.insertIfAbsent w.heap o ref = result at hrecorded hmarks horderly ⊢
  obtain ⟨⟨placement, alarm⟩, t'⟩ := result
  dsimp only at hrecorded hmarks horderly ⊢
  have hclear : Clear { w with table := t' } := by
    intro i task hi hunder j hj
    rw [hmarks]
    exact h.clear i task hi hunder j hj
  cases placement with
  | existing p =>
    obtain ⟨hrefs, hcells, hitems⟩ := hrecorded
    exact h.giveBack horderly hclear hrefs hcells hitems
  | linked =>
    obtain ⟨hrefs, hcells, hitems⟩ := hrecorded
    exact h.link horderly hclear hrefs hcells hitems
  | stranded => exact hrecorded.elim

end

/-! ### Tasks -/

/-- A step of a task that does not go back unlinks dead slots and gives their cells back, and does
nothing else. -/
theorem Effect.reaped {back : Bool} (heff : Effect w back w') (hback : back = false)
    (hclear : w.Clear) :
    ∃ dead, Table.Reaped w.heap w.table w'.table dead := by
  cases heff with
  | tasks tasks horderly hsame hnone => exact ⟨[], .refl _ _⟩
  | prepared i task task' t' hi hrest hprepare hdrives =>
    exact ⟨[], Table.reaped_prepare hrest.still w.heap hprepare⟩
  | chunk i task hi hrunning hdrives =>
    obtain ⟨-, dead, hreaped, -⟩ :=
      hdrives.advanced_processChunk hback (hclear i task hi hdrives.underWay) w.heap
    exact ⟨dead, hreaped⟩
  | commit i task hi hrunning hdrives hend => exact ⟨[], Table.reaped_finish hdrives hend w.heap⟩
  | abandon i task hi hdrives =>
    exact hdrives.swept_abandon hback (hclear i task hi hdrives.underWay) w.heap

/-- Whoever is under way after task `i` has gone on is task `i`. -/
theorem Orderly.clear_update {i : Nat} {task task' : Task} {t' : Table}
    (h : (w.update i task' t').Orderly) (hi : w.tasks[i]? = some task)
    (hunder : task'.isUnderWay = true) (hahead : Task.Ahead task'.kind t' task'.cursor) :
    (w.update i task' t').Clear := by
  intro j other hj hother
  have hi' : (w.update i task' t').tasks[i]? = some task' :=
    (getElem?_set_of_some hi task' i).trans (if_pos rfl)
  obtain rfl := h.alone i j task' other hi' hj hunder hother
  cases Option.some.inj (hi'.symm.trans hj)
  exact hahead

theorem Orderly.clear_of_atRest (h : w.Orderly) (hrest : w.table.AtRest) : w.Clear := by
  intro i task hi hunder
  rw [h.idle_of_atRest hrest hi] at hunder
  cases hunder

theorem Effect.clear {back : Bool} (heff : Effect w back w') (h : w.Orderly) (hback : back = false)
    (hclear : w.Clear) : w'.Clear := by
  have horderly := heff.orderly h
  cases heff with
  | tasks tasks horderly hsame hnone =>
    intro i task' hi' hunder
    obtain ⟨task, hi⟩ := hnone i task' hi' hunder
    obtain ⟨state, hsome, hstate, -⟩ := hsame i task hi
    cases Option.some.inj (hi'.symm.trans hsome)
    exact hclear i task hi (hstate ▸ hunder)
  | prepared i task task' t' hi hrest hprepare hdrives =>
    refine horderly.clear_update hi hdrives.underWay ?_
    obtain ⟨-, -, -, -, rfl⟩ := Task.prepare_eq_some hprepare
    exact Task.ahead_of_unmoved hrest.still.unmoved _
  | chunk i task hi hrunning hdrives =>
    obtain ⟨hahead, -⟩ :=
      hdrives.advanced_processChunk hback (hclear i task hi hdrives.underWay) w.heap
    refine horderly.clear_update hi (hdrives.processChunk w.heap).underWay ?_
    rw [(hdrives.processChunk_stage w.heap).same.kind]
    exact hahead
  | commit i task hi hrunning hdrives hend => exact horderly.clear_of_atRest hdrives.atRest_finish
  | abandon i task hi hdrives => exact horderly.clear_of_atRest (hdrives.atRest_abandon w.heap).1

/-- **The books of a world whose dead slots were unlinked**, while everything else was left
alone. -/
theorem Kept.reaped (h : w.Kept cells) {t' : Table} {tasks : List Task} {dead : List WeakRef}
    (hreaped : Table.Reaped w.heap w.table t' dead)
    (horderly : Orderly { w with table := t', tasks })
    (hclear : Clear { w with table := t', tasks }) : Kept cells { w with table := t', tasks } := by
  have hlinked := hreaped.linked
  -- The dead references are a part of what is in use, so that all of them can be released, each
  -- once.
  have hledger : w.table.cells.Ledger (dead ++ (t'.linkedRefs ++ (w.spare ++ foreign cells))) := by
    rw [← List.append_assoc]
    exact h.ledger.perm (hlinked.append_right _)
  obtain ⟨hrest, htotal, hdouble, hissued⟩ := hledger.releaseAll
  have hlength : w.table.linked.length = dead.length + t'.linked.length := by
    rw [← Table.length_linkedRefs, hlinked.length_eq, List.length_append, Table.length_linkedRefs]
  exact
    { orderly := horderly
      clear := hclear
      ledger := by
        rw [hreaped.cells]
        exact hrest
      apart := h.apart
      issued := by
        intro r hr
        rw [hreaped.cells]
        exact hissued r (h.issued r hr)
      linked_passed := by
        intro r hr
        exact h.linked_passed r (hlinked.mem_iff.2 (List.mem_append_right _ hr))
      known := h.known
      items := by
        rw [hreaped.items, h.items, hlength, UInt64.ofNat_add]
        grind
      doubleReleases := by
        rw [hreaped.cells, hdouble]
        exact h.doubleReleases
      balance := by
        have hbalance := h.balance
        rw [hreaped.cells, htotal]
        dsimp only
        omega }

theorem Effect.kept {back : Bool} (heff : Effect w back w') (h : w.Kept cells)
    (hback : back = false) :
    w'.Kept cells := by
  obtain ⟨hheap, hspare, hpassed⟩ := heff.aside
  obtain ⟨dead, hreaped⟩ := heff.reaped hback h.clear
  have horderly := heff.orderly h.orderly
  have hclear := heff.clear h.orderly hback h.clear
  -- Only the table and the tasks have changed.
  obtain ⟨heap, table, spare, passed, tasks⟩ := w'
  dsimp only at hheap hspare hpassed
  subst hheap hspare hpassed
  exact h.reaped hreaped horderly hclear

/-! ### Runs -/

/-- **Every move keeps the books**, unless it takes a task back. -/
theorem Kept.move (h : w.Kept cells) {m : Move} (hback : w.goesBack m = false) :
    (w.move m).1.Kept cells := by
  cases m with
  | act action =>
    cases htask : action.isTask with
    | true => exact (h.orderly.step_task htask).kept h hback
    | false =>
      cases action with
      | allocate s => exact h.later (w.heap.later_alloc _)
      | retain o => exact h.later (w.heap.later_retain _)
      | drop o => exact h.later (w.heap.later_drop _)
      | insert o =>
        rw [World.move, World.step]
        split
        · next hlive => exact Kept.pass (h.acquire hlive) o
        · exact h
      | get key => exact h
      | create | prepare | chunk | pause | resume | commit | abandon => cases htask
  | acquire o =>
    rw [World.move]
    split
    · next hlive => exact h.acquire hlive
    · exact h
  | offer o ref =>
    rw [World.move]
    split
    · next hguard =>
      rw [Bool.and_eq_true, List.contains_iff_mem] at hguard
      have hkept : Kept cells { w with spare := ref :: w.spare.erase ref } :=
        h.respare (List.perm_cons_erase hguard.2)
      exact Kept.pass (w := { w with spare := w.spare.erase ref }) hkept o
    · exact h

theorem Kept.run (h : w.Kept cells) {moves : List Move} (hback : w.neverGoesBack moves = true) :
    (w.run moves).Kept cells := by
  induction moves generalizing w with
  | nil => exact h
  | cons m rest ih =>
    rw [neverGoesBack, Bool.and_eq_true, Bool.not_eq_true'] at hback
    exact ih (h.move hback.1) hback.2

/-- **Slots and cells are accounted for** after all moves, of all kinds and in any order, that let
no task go back. -/
theorem accounts_balance (settings : Settings) (cells : CellStore) (heap : Heap) (moves : List Move)
    (h : (start settings cells heap).neverGoesBack moves = true) :
    ((start settings cells heap).run moves).Accounted cells :=
  ((kept_start settings cells heap).run h).accounted

/-- A table of one bucket that can grow. -/
def oneBucket : Settings := { initialSize := 1, maxLog2 := 4 }

/-- A table grows while a string dies and another one, with the content of the first, is inserted
twice. -/
def growingMoves : List Move :=
  [.act (.allocate "a"), .act (.insert ⟨0⟩), .act (.create .grow none), .act (.prepare 0),
    .act (.drop ⟨0⟩), .act (.chunk 0), .act (.allocate "a"), .acquire ⟨1⟩, .act (.insert ⟨1⟩),
    .offer ⟨1⟩ ⟨2, ⟨1⟩⟩, .act (.commit 0)]

theorem accounts_balance_after_growth :
    (start oneBucket { name := "cells" } {}).neverGoesBack growingMoves = true ∧
      ((start oneBucket { name := "cells" } {}).run growingMoves).Accounted { name := "cells" } :=
  ⟨by decide, accounts_balance oneBucket { name := "cells" } {} growingMoves (by decide)⟩

/-- A task with very large chunks is given up after its last bucket, in which it found a dead
slot. -/
def wrappingMoves : List Move :=
  [.act (.allocate "a"), .act (.insert ⟨0⟩), .act (.drop ⟨0⟩),
    .act (.create .grow (some 0xffffffffffffffff)), .act (.prepare 0), .act (.chunk 0),
    .act (.abandon 0)]

/-- The dead slot is reaped a second time: its cell is released twice, and an item is taken off an
empty count. -/
theorem accounts_off_after_wrapped_chunk :
    ((start oneBucket { name := "cells" } {}).run wrappingMoves).table.items = 0xffffffffffffffff ∧
      ((start oneBucket { name := "cells" } {}).run wrappingMoves).table.cells.doubleReleases = 1 ∧
      ¬ ((start oneBucket { name := "cells" } {}).run wrappingMoves).Accounted
        { name := "cells" } :=
  ⟨by decide, by decide, fun h => absurd h.doubleReleases (by decide)⟩

end World

end WeakIntern
