import WeakIntern.Heap
import WeakIntern.Log.Level
import WeakIntern.Text.Quoted
import WeakIntern.Weak.IndexMap
/-!
# Weak cells

A slot of a table must not keep its string alive. It holds a handle, which refers to the object
through a cell of a `CellStore`. When the object is gone the handle is *dead*; the slot stays until
maintenance unlinks it and gives the cell back with `release`. A cell is given back once: a second
release is refused and reported.

Handles are numbered 1, 2, 3, … and a number is never used again. Whether a handle was released is
noted in the handle. The cell itself is an entry of the map `cells`, which is taken out. That the
two agree (`CellStore.Agree`) is a part of what a store is.
-/

namespace WeakIntern

/-- A weak reference to an object: the number of a handle, and the object that the handle is for. -/
structure WeakRef where
  id : Nat
  referent : ObjectId
  deriving DecidableEq, Repr, Inhabited

/-- Does the reference still lead to an object? -/
def WeakRef.isDead (r : WeakRef) (heap : Heap) : Bool := !heap.isLive r.referent

/-- The object that the reference leads to, while it is alive. -/
def WeakRef.resolve? (r : WeakRef) (heap : Heap) : Option ObjectId :=
  if heap.isLive r.referent then some r.referent else none

/-- A handle, which is noted in the place of its number. -/
structure Handle where
  referent : ObjectId
  released : Bool := false
  /-- A lookup met the handle after its object had gone; advisory. -/
  markedDead : Bool := false
  deriving Repr, Inhabited

namespace Handle

variable (handles : Array Handle)

/-- The handle with a number. Zero is the number of none. -/
def at? : Nat → Option Handle
  | 0 => none
  | i + 1 => handles[i]?

/-- Note something in the handle with a number. -/
def update (id : Nat) (note : Handle → Handle) : Array Handle :=
  match id with
  | 0 => handles
  | i + 1 => handles.modify i note

variable {handles} {handle : Handle} {id id' : Nat}

theorem id_le (h : at? handles id = some handle) : id ≤ handles.size := by
  cases id with
  | zero => exact Nat.zero_le _
  | succ i => exact (Array.getElem?_eq_some_iff.1 h).1

theorem at?_push (handles : Array Handle) (handle : Handle) (id : Nat) :
    at? (handles.push handle) id = if id = handles.size + 1 then some handle
      else at? handles id := by
  cases id with
  | zero => rfl
  | succ i => simp only [at?, Array.getElem?_push, Nat.add_right_cancel_iff]

theorem at?_update (handles : Array Handle) (id id' : Nat) (note : Handle → Handle) :
    at? (update handles id note) id' = if id = id' then (at? handles id').map note
      else at? handles id' := by
  cases id with
  | zero => cases id' <;> rfl
  | succ i =>
    cases id' with
    | zero => rfl
    | succ j => simp only [at?, update, Array.getElem?_modify, Nat.add_right_cancel_iff]

theorem size_update (handles : Array Handle) (id : Nat) (note : Handle → Handle) :
    (update handles id note).size = handles.size := by
  cases id with
  | zero => rfl
  | succ i => exact Array.size_modify

/-- What is noted in two handles is noted in either order. -/
theorem update_comm (handles : Array Handle) (id id' : Nat) (note : Handle → Handle) :
    update (update handles id note) id' note = update (update handles id' note) id note := by
  cases id with
  | zero => rfl
  | succ i =>
    cases id' with
    | zero => rfl
    | succ j =>
      refine Array.ext (by simp [update]) fun k _ _ => ?_
      simp only [update, Array.getElem_modify]
      split <;> split <;> rfl

end Handle

namespace CellStore

/-- There is a cell for each handle that was not released, with its object, and for no other
number. -/
def Agree (handles : Array Handle) (cells : IndexMap ObjectId) : Prop :=
  ∀ id o, (id, o) ∈ cells.entries ↔
    ∃ handle, Handle.at? handles id = some handle ∧ handle.released = false ∧ handle.referent = o

variable {handles : Array Handle} {cells : IndexMap ObjectId}

theorem nextId_empty : 1 = (#[] : Array Handle).size + 1 := rfl

theorem agree_empty : Agree #[] {} := by
  intro id o
  refine ⟨fun hmem => absurd hmem (Array.not_mem_empty _), ?_⟩
  rintro ⟨handle, hhandle, -⟩
  cases id <;> cases hhandle

/-- The number behind the last handle has no cell. -/
theorem Agree.fresh (h : Agree handles cells) :
    handles.size + 1 ∉ cells.entries.toList.map Prod.fst := by
  intro hmem
  obtain ⟨⟨id, o⟩, hentry, rfl⟩ := List.mem_map.1 hmem
  obtain ⟨handle, hhandle, -⟩ := (h _ o).1 (Array.mem_toList_iff.1 hentry)
  exact absurd (Handle.id_le hhandle) (Nat.not_succ_le_self _)

/-- **One more handle** has a cell of its own. -/
theorem Agree.acquire (h : Agree handles cells) (o : ObjectId) :
    Agree (handles.push { referent := o }) (cells.insert (handles.size + 1) o) := by
  intro id p
  rw [IndexMap.entries_insert h.fresh, Array.mem_push, h, Handle.at?_push, Prod.mk.injEq]
  split
  · next hid =>
    subst hid
    constructor
    · rintro (⟨handle, hhandle, -⟩ | ⟨-, rfl⟩)
      · exact absurd (Handle.id_le hhandle) (Nat.not_succ_le_self _)
      · exact ⟨_, rfl, rfl, rfl⟩
    · rintro ⟨handle, hhandle, -, rfl⟩
      cases hhandle
      exact .inr ⟨rfl, rfl⟩
  · next hid => exact or_iff_left fun hnew => hid hnew.1

/-- What is noted in a handle beside its release leaves the cells as they are. -/
theorem Agree.note (h : Agree handles cells) (id : Nat) {note : Handle → Handle}
    (hreleased : ∀ handle, (note handle).released = handle.released)
    (hreferent : ∀ handle, (note handle).referent = handle.referent) :
    Agree (Handle.update handles id note) cells := by
  intro id' o
  rw [h, Handle.at?_update]
  split
  · constructor
    · rintro ⟨handle, hhandle, hrest⟩
      refine ⟨note handle, ?_, ?_⟩
      · rw [hhandle, Option.map_some]
      · rw [hreleased, hreferent]
        exact hrest
    · rintro ⟨handle, hhandle, hrest⟩
      obtain ⟨before, hbefore, rfl⟩ := Option.map_eq_some_iff.1 hhandle
      rw [hreleased, hreferent] at hrest
      exact ⟨before, hbefore, hrest⟩
  · rfl

/-- **A release** takes out the cell of its handle and that of no other. -/
theorem Agree.release (h : Agree handles cells) (id : Nat) :
    Agree (Handle.update handles id fun handle => { handle with released := true })
      (cells.swapRemove id) := by
  intro id' o
  rw [IndexMap.mem_swapRemove, h, Handle.at?_update]
  split
  · next hid =>
    constructor
    · exact fun hboth => absurd hid.symm hboth.2
    · rintro ⟨handle, hhandle, hreleased, -⟩
      obtain ⟨before, -, rfl⟩ := Option.map_eq_some_iff.1 hhandle
      cases hreleased
  · next hid => exact and_iff_left fun heq => hid heq.symm

end CellStore

/-- A named category of weak cells. -/
structure CellStore where
  name : String
  /-- The cells in use: under the number of each handle its object. -/
  cells : IndexMap ObjectId := {}
  /-- The number of the next handle. -/
  nextId : Nat := 1
  /-- All handles that were given out, each in the place of its number. -/
  handles : Array Handle := #[]
  releasedTotal : Nat := 0
  /-- Releases that were refused because the handle had been released before. -/
  doubleReleases : Nat := 0
  /-- Who is told the number of dead cells. -/
  listener : Option Nat := none
  nextId_eq : nextId = handles.size + 1 := by exact CellStore.nextId_empty
  agree : CellStore.Agree handles cells := by exact CellStore.agree_empty

namespace CellStore

instance : Inhabited CellStore := ⟨{ name := "" }⟩

/-- The handle of a reference. -/
def handle? (store : CellStore) (r : WeakRef) : Option Handle := Handle.at? store.handles r.id

/-- Has the handle been released? -/
def isReleased (store : CellStore) (r : WeakRef) : Bool := (store.handle? r).any (·.released)

def isMarkedDead (store : CellStore) (r : WeakRef) : Bool := (store.handle? r).any (·.markedDead)

/-- Take a new cell for an object. -/
def acquire (store : CellStore) (o : ObjectId) : WeakRef × CellStore :=
  (⟨store.nextId, o⟩, { store with
    cells := store.cells.insert store.nextId o
    nextId := store.nextId + 1
    handles := store.handles.push { referent := o }
    nextId_eq := by rw [Array.size_push, store.nextId_eq]
    agree := store.nextId_eq ▸ store.agree.acquire o })

/-- Note that a lookup found the object gone. The cell stays until it is released. -/
def markDead (store : CellStore) (r : WeakRef) : CellStore :=
  { store with
    handles := Handle.update store.handles r.id fun handle => { handle with markedDead := true }
    nextId_eq := by rw [Handle.size_update, store.nextId_eq]
    agree := store.agree.note r.id (fun _ => rfl) fun _ => rfl }

/-- Give the cell of a handle back; `false` if the handle was released before. -/
def release (store : CellStore) (r : WeakRef) : Bool × CellStore :=
  if store.isReleased r then (false, { store with doubleReleases := store.doubleReleases + 1 })
  else
    (true, { store with
      cells := store.cells.swapRemove r.id
      handles := Handle.update store.handles r.id fun handle => { handle with released := true }
      releasedTotal := store.releasedTotal + 1
      nextId_eq := by rw [Handle.size_update, store.nextId_eq]
      agree := store.agree.release r.id })

/-- The report of a refused release. -/
def doubleReleaseNotice (store : CellStore) (r : WeakRef) : Notice where
  level := .error
  text := store.name ++ ": weak cell " ++ toString r.id ++ " released twice"

/-- Cells that are in use. -/
def allocated (store : CellStore) : Nat := store.cells.size

/-- Cells in use whose object is gone. -/
def numDead (store : CellStore) (heap : Heap) : Nat :=
  store.cells.values.countP fun o => !heap.isLive o

/-- Have `listener` told the number of dead cells, in place of any other. -/
def listen (store : CellStore) (listener : Nat) : CellStore :=
  { store with listener := some listener }

/-- Have nobody told. -/
def unlisten (store : CellStore) : CellStore := { store with listener := none }

/-- The collector's report after a collection: the number of dead cells, and who is told which
number. -/
def report (store : CellStore) (heap : Heap) : Nat × List (Nat × Nat) :=
  let dead := store.numDead heap
  (dead, store.listener.toList.map fun listener => (listener, dead))

/-- The diagnostic text of a reference. -/
def describeRef (store : CellStore) (heap : Heap) (r : WeakRef) : String :=
  "WeakHandle \x7b id: " ++ toString r.id ++ ", dead: " ++ toString (r.isDead heap) ++
    ", released: " ++ toString (store.isReleased r) ++ " \x7d"

/-- The diagnostic text of the store. -/
def describe (store : CellStore) : String :=
  "WeakStorage \x7b name: " ++ quoted store.name ++ ", allocated: " ++ toString store.allocated ++
    ", released_total: " ++ toString store.releasedTotal ++ " \x7d"

end CellStore

end WeakIntern
