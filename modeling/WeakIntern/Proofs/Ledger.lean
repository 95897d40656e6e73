import Mathlib.Data.List.Nodup
import WeakIntern.Weak.CellStore
import WeakIntern.Proofs.Sweep
/-!
# The ledger of a cell store

A `Ledger` lists the references whose cells are in use, each once and no others. Acquiring a cell
adds a line to it, releasing one strikes a line out, and a release of a cell that is on the ledger
is never refused.
-/

namespace WeakIntern

namespace CellStore

/-- The reference is to a handle, and to the object of that handle. -/
def Issued (store : CellStore) (r : WeakRef) : Prop :=
  ∃ handle, store.handle? r = some handle ∧ handle.referent = r.referent

/-- The reference is to a handle that was not released. -/
def InUse (store : CellStore) (r : WeakRef) : Prop :=
  ∃ handle, store.handle? r = some handle ∧ handle.released = false ∧ handle.referent = r.referent

/-- The references whose cells are in use. -/
structure Ledger (store : CellStore) (refs : List WeakRef) : Prop where
  nodup : refs.Nodup
  mem_iff : ∀ r, r ∈ refs ↔ store.InUse r

/-- The references of the cells, in the order of the map. -/
def cellRefs (store : CellStore) : List WeakRef :=
  store.cells.entries.toList.map fun (id, o) => ⟨id, o⟩

variable {store : CellStore} {refs : List WeakRef} {r : WeakRef}

/-- A cell is in use just if the map has it. -/
theorem mem_cells_iff : (r.id, r.referent) ∈ store.cells.entries ↔ store.InUse r := store.agree _ _

theorem InUse.issued (h : store.InUse r) : store.Issued r := by
  obtain ⟨handle, hhandle, -, href⟩ := h
  exact ⟨handle, hhandle, href⟩

theorem InUse.isReleased (h : store.InUse r) : store.isReleased r = false := by
  obtain ⟨handle, hhandle, hin, -⟩ := h
  rw [CellStore.isReleased, hhandle, Option.any_some, hin]

/-- A handle whose cell is not in use was released. -/
theorem Issued.isReleased (h : store.Issued r) (hnot : ¬ store.InUse r) :
    store.isReleased r = true := by
  obtain ⟨handle, hhandle, href⟩ := h
  rw [CellStore.isReleased, hhandle, Option.any_some]
  cases hreleased : handle.released with
  | true => rfl
  | false => exact absurd ⟨handle, hhandle, hreleased, href⟩ hnot

/-- A handle has one reference. -/
theorem Issued.eq_of_id {r' : WeakRef} (h : store.Issued r) (h' : store.Issued r')
    (hid : r.id = r'.id) : r = r' := by
  obtain ⟨handle, hhandle, href⟩ := h
  obtain ⟨handle', hhandle', href'⟩ := h'
  rw [handle?, hid] at hhandle
  rw [handle?, hhandle, Option.some.injEq] at hhandle'
  cases r
  cases r'
  simp_all

theorem InUse.eq_of_id {r' : WeakRef} (h : store.InUse r) (h' : store.InUse r')
    (hid : r.id = r'.id) : r = r' :=
  h.issued.eq_of_id h'.issued hid

/-- No two lines of a ledger are for one cell. -/
theorem Ledger.nodup_ids (h : store.Ledger refs) : (refs.map WeakRef.id).Nodup := by
  refine List.pairwise_map.2 (h.nodup.imp_of_mem fun hr hr' hne hid => hne ?_)
  exact ((h.mem_iff _).1 hr).eq_of_id ((h.mem_iff _).1 hr') hid

theorem Ledger.perm {refs' : List WeakRef} (h : store.Ledger refs) (hperm : refs.Perm refs') :
    store.Ledger refs' :=
  ⟨hperm.nodup_iff.1 h.nodup, fun r => by rw [← hperm.mem_iff, h.mem_iff]⟩

/-! ## Acquiring -/

theorem handle?_acquire (store : CellStore) (o : ObjectId) (r : WeakRef) :
    (store.acquire o).2.handle? r =
      if r.id = store.handles.size + 1 then some { referent := o } else store.handle? r :=
  Handle.at?_push _ _ _

theorem Issued.id_le (h : store.Issued r) : r.id ≤ store.handles.size := by
  obtain ⟨handle, hhandle, -⟩ := h
  exact Handle.id_le hhandle

theorem Issued.acquire (h : store.Issued r) (o : ObjectId) : (store.acquire o).2.Issued r := by
  have hle := h.id_le
  obtain ⟨handle, hhandle, href⟩ := h
  refine ⟨handle, ?_, href⟩
  rw [handle?_acquire, if_neg (by omega), hhandle]

/-- The number of a new handle is one more than there are handles. -/
theorem id_acquire (store : CellStore) (o : ObjectId) :
    (store.acquire o).1.id = store.handles.size + 1 :=
  store.nextId_eq

theorem not_issued_acquire (store : CellStore) (o : ObjectId) :
    ¬ store.Issued (store.acquire o).1 := by
  intro hissued
  have hle := hissued.id_le
  rw [id_acquire] at hle
  omega

theorem inUse_acquire (o : ObjectId) :
    (store.acquire o).2.InUse r ↔ r = (store.acquire o).1 ∨ store.InUse r := by
  have hnew := store.id_acquire o
  rw [InUse, handle?_acquire]
  split
  · next hid =>
    have hold : ¬ store.InUse r := fun hin => by
      have hle := hin.issued.id_le
      omega
    constructor
    · rintro ⟨handle, hhandle, -, href⟩
      cases hhandle
      refine .inl ?_
      rw [← hnew] at hid
      cases r
      exact WeakRef.mk.injEq .. ▸ ⟨hid, href.symm⟩
    · rintro (rfl | hin)
      · exact ⟨_, rfl, rfl, rfl⟩
      · exact absurd hin hold
  · next hid =>
    constructor
    · exact .inr
    · rintro (rfl | hin)
      · exact absurd hnew hid
      · exact hin

/-- **A new cell** is one line more. -/
theorem Ledger.acquire (h : store.Ledger refs) (o : ObjectId) :
    (store.acquire o).2.Ledger ((store.acquire o).1 :: refs) := by
  refine ⟨List.nodup_cons.2 ⟨?_, h.nodup⟩, ?_⟩
  · exact fun hmem => store.not_issued_acquire o ((h.mem_iff _).1 hmem).issued
  · intro r
    rw [List.mem_cons, inUse_acquire, h.mem_iff]

/-! ## Releasing -/

theorem handles_release_of_inUse (h : store.InUse r) : (store.release r).2.handles =
    Handle.update store.handles r.id fun handle => { handle with released := true } := by
  simp only [release, h.isReleased, Bool.false_eq_true, if_false]

theorem handle?_release (h : store.InUse r) (r' : WeakRef) : (store.release r).2.handle? r' =
    if r.id = r'.id then (store.handle? r').map fun handle => { handle with released := true }
    else store.handle? r' := by
  rw [handle?, handles_release_of_inUse h]
  exact Handle.at?_update _ _ _ _

theorem releasedTotal_release (h : store.InUse r) :
    (store.release r).2.releasedTotal = store.releasedTotal + 1 := by
  simp only [release, h.isReleased, Bool.false_eq_true, if_false]

theorem doubleReleases_release (h : store.InUse r) :
    (store.release r).2.doubleReleases = store.doubleReleases := by
  simp only [release, h.isReleased, Bool.false_eq_true, if_false]

theorem Issued.release {r' : WeakRef} (h : store.Issued r') (hin : store.InUse r) :
    (store.release r).2.Issued r' := by
  obtain ⟨handle, hhandle, href⟩ := h
  rw [Issued, handle?_release hin, hhandle]
  split
  · exact ⟨_, rfl, href⟩
  · exact ⟨_, rfl, href⟩

theorem inUse_release {r' : WeakRef} (h : store.InUse r) :
    (store.release r).2.InUse r' ↔ store.InUse r' ∧ r' ≠ r := by
  rw [InUse, handle?_release h]
  constructor
  · rintro ⟨handle, hhandle, hin, href⟩
    split at hhandle
    · obtain ⟨before, -, rfl⟩ := Option.map_eq_some_iff.1 hhandle
      cases hin
    · next hne => exact ⟨⟨handle, hhandle, hin, href⟩, fun heq => hne (by rw [heq])⟩
  · rintro ⟨hr', hne⟩
    rw [if_neg fun hid => hne (hr'.eq_of_id h hid.symm)]
    exact hr'

/-- **A release of a cell in use** strikes its line out, and is not refused. -/
theorem Ledger.release (h : store.Ledger (r :: refs)) :
    (store.release r).2.Ledger refs ∧ (store.release r).2.releasedTotal = store.releasedTotal + 1 ∧
      (store.release r).2.doubleReleases = store.doubleReleases := by
  have hin : store.InUse r := (h.mem_iff r).1 List.mem_cons_self
  obtain ⟨hnot, hnodup⟩ := List.nodup_cons.1 h.nodup
  refine ⟨⟨hnodup, ?_⟩, ?_, ?_⟩
  · intro r'
    rw [inUse_release hin, ← h.mem_iff, List.mem_cons]
    refine ⟨fun hr' => ⟨.inr hr', fun heq => hnot (heq ▸ hr')⟩, ?_⟩
    rintro ⟨rfl | hr', hne⟩
    · exact absurd rfl hne
    · exact hr'
  · exact releasedTotal_release hin
  · exact doubleReleases_release hin

theorem listener_release (store : CellStore) (r : WeakRef) :
    (store.release r).2.listener = store.listener := by
  rw [release]
  split <;> rfl

theorem Ledger.releaseAll {dead : List WeakRef} (h : store.Ledger (dead ++ refs)) :
    (store.releaseAll dead).Ledger refs ∧
      (store.releaseAll dead).releasedTotal = store.releasedTotal + dead.length ∧
      (store.releaseAll dead).doubleReleases = store.doubleReleases ∧
      ∀ r, store.Issued r → (store.releaseAll dead).Issued r := by
  induction dead generalizing store with
  | nil => exact ⟨h, rfl, rfl, fun _ hr => hr⟩
  | cons r dead ih =>
    obtain ⟨hledger, htotal, hdouble⟩ := Ledger.release h
    obtain ⟨ihledger, ihtotal, ihdouble, ihissued⟩ := ih hledger
    have hin : store.InUse r := (h.mem_iff r).1 List.mem_cons_self
    refine ⟨ihledger, ?_, ihdouble.trans hdouble, fun r' hr' => ihissued r' (hr'.release hin)⟩
    rw [CellStore.releaseAll, List.foldl_cons, List.length_cons]
    change (CellStore.releaseAll _ dead).releasedTotal = _
    omega

/-! ## Counting -/

theorem map_cellRefs (store : CellStore) :
    store.cellRefs.map (fun r => (r.id, r.referent)) = store.cells.entries.toList := by
  rw [cellRefs, List.map_map]
  exact List.map_id _

/-- **The map of the cells** is a ledger. -/
theorem ledger_cellRefs (store : CellStore) : store.Ledger store.cellRefs := by
  constructor
  · refine List.Nodup.of_map WeakRef.id ?_
    rw [cellRefs, List.map_map]
    exact store.cells.nodup
  · intro r
    rw [← mem_cells_iff, ← Array.mem_toList_iff, cellRefs, List.mem_map]
    constructor
    · rintro ⟨⟨id, o⟩, hmem, rfl⟩
      exact hmem
    · exact fun hmem => ⟨_, hmem, rfl⟩

/-- Any two ledgers of a store list the same lines. -/
theorem Ledger.perm_cellRefs (h : store.Ledger refs) : refs.Perm store.cellRefs := by
  have hall := store.ledger_cellRefs
  exact (List.perm_ext_iff_of_nodup h.nodup hall.nodup).2 fun r => by rw [h.mem_iff, hall.mem_iff]

theorem Ledger.allocated (h : store.Ledger refs) : store.allocated = refs.length := by
  rw [h.perm_cellRefs.length_eq, CellStore.cellRefs, List.length_map]
  rfl

theorem Ledger.numDead (h : store.Ledger refs) (heap : Heap) :
    store.numDead heap = refs.countP fun r => r.isDead heap := by
  rw [h.perm_cellRefs.countP_eq, CellStore.cellRefs, List.countP_map, CellStore.numDead,
    IndexMap.values, List.countP_map]
  rfl

theorem cellRefs_of_handles (hempty : store.handles = #[]) : store.cellRefs = [] := by
  refine List.eq_nil_iff_forall_not_mem.2 fun r hr => ?_
  obtain ⟨handle, hhandle, -⟩ := (store.ledger_cellRefs.mem_iff r).1 hr
  have hle := Handle.id_le hhandle
  rw [handle?, hempty] at hhandle
  rw [hempty] at hle
  cases hid : r.id with
  | zero =>
    rw [hid] at hhandle
    cases hhandle
  | succ i =>
    rw [hid] at hle
    cases hle

theorem allocated_acquire (store : CellStore) (o : ObjectId) :
    (store.acquire o).2.allocated = store.allocated + 1 := by
  rw [(store.ledger_cellRefs.acquire o).allocated, store.ledger_cellRefs.allocated,
    List.length_cons]

end CellStore

end WeakIntern
