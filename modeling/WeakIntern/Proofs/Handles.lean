import Mathlib.Data.List.Dedup
import WeakIntern.Proofs.Ledger
import WeakIntern.Proofs.Lifetime
/-!
# Handles on weak cells

A `Custody` is a cell store in use: the strong references that are out, and the handles that nobody
has dropped. Whoever has a handle may look through it, mark it dead, release its cell, as often as
he likes, or drop it without a release. Who has a strong reference may clone it, give it up, or
acquire one more cell for its object.

`Custody.log` is the record of what was done and replied. `Balances` reads all that the store shows
off this record: the numbers of the cells are the places of their handles in it, and the cells in
use are those of the handles that it nowhere releases.
-/

namespace WeakIntern

/-! ## Marking a cell -/

namespace CellStore

variable {store : CellStore} {r r' : WeakRef}

theorem handle?_markDead (store : CellStore) (r r' : WeakRef) : (store.markDead r).handle? r' =
    if r.id = r'.id then (store.handle? r').map fun handle => { handle with markedDead := true }
    else store.handle? r' :=
  Handle.at?_update _ _ _ _

theorem issued_markDead : (store.markDead r).Issued r' ↔ store.Issued r' := by
  simp only [Issued, handle?_markDead]
  split
  · cases store.handle? r' <;> simp
  · rfl

/-- A mark leaves a cell in use as it is. -/
theorem inUse_markDead : (store.markDead r).InUse r' ↔ store.InUse r' := by
  simp only [InUse, handle?_markDead]
  split
  · cases store.handle? r' <;> simp
  · rfl

theorem size_markDead : (store.markDead r).handles.size = store.handles.size :=
  Handle.size_update _ _ _

theorem size_release : (store.release r).2.handles.size = store.handles.size := by
  rw [release]
  split
  · rfl
  · exact Handle.size_update _ _ _

/-- A release leaves the cells of all other handles. -/
theorem mem_cells_release {id : Nat} {o : ObjectId} (h : store.Issued r) :
    (id, o) ∈ (store.release r).2.cells.entries ↔ (id, o) ∈ store.cells.entries ∧ id ≠ r.id := by
  rw [release]
  split
  · next hreleased =>
    refine ⟨fun hmem => ⟨hmem, fun hid => ?_⟩, And.left⟩
    have hin : store.InUse ⟨id, o⟩ := mem_cells_iff.1 hmem
    rw [hin.issued.eq_of_id h hid] at hin
    rw [hin.isReleased] at hreleased
    cases hreleased
  · exact IndexMap.mem_swapRemove

/-- Another store with the same cells, in use or not. -/
structure SameCells (store store' : CellStore) : Prop where
  size : store'.handles.size = store.handles.size
  issued : ∀ r, store.Issued r → store'.Issued r
  inUse : ∀ r, store'.InUse r ↔ store.InUse r
  releasedTotal : store'.releasedTotal = store.releasedTotal
  doubleReleases : store'.doubleReleases = store.doubleReleases

theorem SameCells.refl (store : CellStore) : store.SameCells store :=
  ⟨rfl, fun _ => id, fun _ => .rfl, rfl, rfl⟩

theorem sameCells_markDead (store : CellStore) (r : WeakRef) : store.SameCells (store.markDead r) :=
  ⟨size_markDead, fun _ => issued_markDead.2, fun _ => inUse_markDead, rfl, rfl⟩

/-! ## The books of a store -/

/-- `given` are the handles of all acquires, `back` those of all releases, the repeated ones
included. -/
structure Booked (store : CellStore) (given back : List WeakRef) : Prop where
  ids : given.map WeakRef.id = List.range' 1 store.handles.size
  cells : ∀ r ∈ given, store.Issued r
  inUse : ∀ r, store.InUse r ↔ r ∈ given ∧ r ∉ back
  given : ∀ r ∈ back, r ∈ given
  released : store.releasedTotal = back.dedup.length
  doubles : store.doubleReleases + back.dedup.length = back.length

variable {given back : List WeakRef}

theorem booked_nil (name : String) : Booked { name } [] [] where
  ids := rfl
  cells _ hr := nomatch hr
  inUse r := by cases r with | mk id o => cases id <;> simp [InUse, handle?, Handle.at?]
  given _ hr := nomatch hr
  released := rfl
  doubles := rfl

theorem Booked.nodup (h : store.Booked given back) : given.Nodup :=
  .of_map WeakRef.id (h.ids ▸ List.nodup_range')

/-- The number of a new cell was never used. -/
theorem Booked.fresh (h : store.Booked given back) (o : ObjectId) : (store.acquire o).1 ∉ given :=
  fun hmem => store.not_issued_acquire o (h.cells _ hmem)

theorem Booked.congr {store' : CellStore} (h : store.Booked given back)
    (hsame : store.SameCells store') :
    store'.Booked given back where
  ids := by rw [hsame.size, h.ids]
  cells r hr := hsame.issued r (h.cells r hr)
  inUse r := (hsame.inUse r).trans (h.inUse r)
  given := h.given
  released := hsame.releasedTotal.trans h.released
  doubles := by rw [hsame.doubleReleases, h.doubles]

theorem Booked.acquire (h : store.Booked given back) (o : ObjectId) :
    (store.acquire o).2.Booked (given ++ [(store.acquire o).1]) back := by
  have hfresh := h.fresh o
  refine ⟨?_, ?_, ?_, ?_, h.released, h.doubles⟩
  · have hsize : (store.acquire o).2.handles.size = store.handles.size + 1 := Array.size_push _
    rw [List.map_append, h.ids, hsize, List.range'_1_concat, List.map_singleton, id_acquire,
      Nat.add_comm]
  · intro r hr
    rcases List.mem_append.1 hr with hr | hr
    · exact (h.cells r hr).acquire o
    · exact ((inUse_acquire o).2 (.inl (List.mem_singleton.1 hr))).issued
  · intro r
    rw [inUse_acquire, h.inUse, List.mem_append, List.mem_singleton]
    constructor
    · rintro (rfl | ⟨hgiven, hnot⟩)
      · exact ⟨.inr rfl, fun hback => hfresh (h.given _ hback)⟩
      · exact ⟨.inl hgiven, hnot⟩
    · rintro ⟨hgiven | rfl, hnot⟩
      · exact .inr ⟨hgiven, hnot⟩
      · exact .inl rfl
  · exact fun r hr => List.mem_append_left _ (h.given r hr)

theorem length_dedup_concat_of_mem (h : r ∈ back) :
    (back ++ [r]).dedup.length = back.dedup.length := by
  refine ((List.perm_ext_iff_of_nodup (List.nodup_dedup _) (List.nodup_dedup _)).2 fun r' =>
    ?_).length_eq
  simp only [List.mem_dedup, List.mem_append, List.mem_singleton]
  exact ⟨fun hr' => hr'.elim id fun heq => heq ▸ h, .inl⟩

theorem length_dedup_concat_of_not_mem (h : r ∉ back) :
    (back ++ [r]).dedup.length = back.dedup.length + 1 := by
  have hnodup : (r :: back.dedup).Nodup :=
    List.nodup_cons.2 ⟨fun hr => h (List.mem_dedup.1 hr), List.nodup_dedup _⟩
  refine ((List.perm_ext_iff_of_nodup (List.nodup_dedup _) hnodup).2 fun r' => ?_).length_eq
  rw [List.mem_dedup, List.mem_append, List.mem_singleton, List.mem_cons, List.mem_dedup, or_comm]

/-- A handle notes whether somebody has released it. -/
theorem Booked.isReleased (h : store.Booked given back) (hr : r ∈ given) :
    store.isReleased r = decide (r ∈ back) := by
  by_cases hback : r ∈ back
  · rw [(h.cells r hr).isReleased fun hin => ((h.inUse r).1 hin).2 hback, decide_eq_true hback]
  · rw [((h.inUse r).2 ⟨hr, hback⟩).isReleased, decide_eq_false hback]

/-- A release answers whether it is the first one of its handle. -/
theorem Booked.fst_release (h : store.Booked given back) (hr : r ∈ given) :
    (store.release r).1 = decide (r ∉ back) := by
  have hreleased := h.isReleased hr
  by_cases hback : r ∈ back <;> simp [release, hreleased, hback]

/-- Further releases are counted, and do nothing else. -/
theorem Booked.release_again (h : store.Booked given back) (hr : r ∈ back) :
    (store.release r).2 = { store with doubleReleases := store.doubleReleases + 1 } := by
  have hreleased := (h.isReleased (h.given r hr)).trans (decide_eq_true hr)
  simp only [release, hreleased, if_true]

theorem Booked.release (h : store.Booked given back) (hr : r ∈ given) :
    (store.release r).2.Booked given (back ++ [r]) := by
  have hbacked : ∀ r' ∈ back ++ [r], r' ∈ given := by
    intro r' hr'
    rcases List.mem_append.1 hr' with hr' | hr'
    · exact h.given r' hr'
    · exact List.mem_singleton.1 hr' ▸ hr
  by_cases hback : r ∈ back
  · have hlength := length_dedup_concat_of_mem hback
    rw [h.release_again hback]
    refine ⟨h.ids, h.cells, ?_, hbacked, h.released.trans hlength.symm, ?_⟩
    · intro r'
      rw [List.mem_append, List.mem_singleton, not_or]
      refine (h.inUse r').trans (and_congr_right fun _ => ⟨fun hnot => ⟨hnot, ?_⟩, And.left⟩)
      exact fun heq => hnot (heq ▸ hback)
    · have hdoubles := h.doubles
      rw [List.length_append, List.length_singleton]
      dsimp only
      omega
  · have hin := (h.inUse r).2 ⟨hr, hback⟩
    have hlength := length_dedup_concat_of_not_mem hback
    refine ⟨?_, fun r' hr' => (h.cells r' hr').release hin, ?_, hbacked, ?_, ?_⟩
    · rw [size_release]
      exact h.ids
    · intro r'
      rw [inUse_release hin, h.inUse, List.mem_append, List.mem_singleton, not_or, and_assoc]
    · rw [releasedTotal_release hin, hlength]
      exact congrArg Nat.succ h.released
    · have hdoubles := h.doubles
      rw [doubleReleases_release hin, List.length_append, List.length_singleton, hlength]
      omega

/-- The handles whose cells nobody has released are the ledger of the store. -/
theorem Booked.ledger (h : store.Booked given back) : store.Ledger (given.filter (· ∉ back)) := by
  refine ⟨h.nodup.filter _, fun r => ?_⟩
  rw [List.mem_filter, decide_eq_true_iff, h.inUse]

/-- Each handle that was given out has its cell still, or has been released a first time. -/
theorem Booked.balance (h : store.Booked given back) :
    store.allocated + store.releasedTotal = given.length := by
  have hperm : back.dedup.Perm (given.filter (· ∈ back)) := by
    refine (List.perm_ext_iff_of_nodup (List.nodup_dedup _) (h.nodup.filter _)).2 fun r => ?_
    rw [List.mem_dedup, List.mem_filter, decide_eq_true_iff]
    exact ⟨fun hr => ⟨h.given r hr, hr⟩, And.right⟩
  have hsplit := List.length_eq_length_filter_add (l := given) (· ∈ back)
  rw [h.ledger.allocated, h.released, hperm.length_eq, hsplit, Nat.add_comm]
  simp only [decide_not]

end CellStore

/-! ## A store in use -/

/-- What somebody does with a cell store, with handles on its cells, or with the objects behind
them. -/
inductive Handling where
  | allocate (s : String)
  | retain (o : ObjectId)
  | drop (o : ObjectId)
  | acquire (o : ObjectId)
  | peek (r : WeakRef)
  | resolve (r : WeakRef)
  | markDead (r : WeakRef)
  | release (r : WeakRef)
  | forget (r : WeakRef)
  | listen (listener : Nat)
  | unlisten
  | report
  deriving DecidableEq, Repr

/-- What comes back. -/
inductive Reply where
  | done
  /-- The caller has no such reference or handle. -/
  | refused
  | object (o : Option ObjectId)
  | handle (r : WeakRef)
  | released (first : Bool)
  /-- The number of dead cells, and who was told which number. -/
  | dead (count : Nat) (told : List (Nat × Nat))
  deriving DecidableEq, Repr

/-- A cell store in use. -/
structure Custody where
  heap : Heap := {}
  store : CellStore
  /-- The strong references that are out. -/
  strong : List ObjectId := []
  /-- The handles that nobody has dropped. -/
  handles : List WeakRef := []

/-- Something that was done, and what came back. -/
abbrev Logged := Handling × Reply

namespace Custody

/-- A new store. -/
def start (name : String) : Custody := { store := { name } }

/-- Do one thing. References and handles can be used by those who have them. -/
def step (c : Custody) : Handling → Custody × Reply
  | .allocate s =>
    let (o, heap) := c.heap.alloc s
    ({ c with heap, strong := o :: c.strong }, .object (some o))
  | .retain o =>
    if o ∈ c.strong then ({ c with heap := c.heap.retain o, strong := o :: c.strong }, .done)
    else (c, .refused)
  | .drop o =>
    if o ∈ c.strong then ({ c with heap := c.heap.drop o, strong := c.strong.erase o }, .done)
    else (c, .refused)
  | .acquire o =>
    if o ∈ c.strong then
      let (r, store) := c.store.acquire o
      ({ c with store, handles := r :: c.handles }, .handle r)
    else (c, .refused)
  | .peek r => if r ∈ c.handles then (c, .object (r.resolve? c.heap)) else (c, .refused)
  | .resolve r =>
    if r ∈ c.handles then
      match r.resolve? c.heap with
      | some o => ({ c with heap := c.heap.retain o, strong := o :: c.strong }, .object (some o))
      | none => (c, .object none)
    else (c, .refused)
  | .markDead r =>
    if r ∈ c.handles then ({ c with store := c.store.markDead r }, .done) else (c, .refused)
  | .release r =>
    if r ∈ c.handles then
      let (first, store) := c.store.release r
      ({ c with store }, .released first)
    else (c, .refused)
  | .forget r =>
    if r ∈ c.handles then ({ c with handles := c.handles.erase r }, .done) else (c, .refused)
  | .listen listener => ({ c with store := c.store.listen listener }, .done)
  | .unlisten => ({ c with store := c.store.unlisten }, .done)
  | .report =>
    let (count, told) := c.store.report c.heap
    (c, .dead count told)

/-- Do one thing after another. -/
def run (c : Custody) : List Handling → Custody
  | [] => c
  | a :: rest => (c.step a).1.run rest

/-- The record of it. -/
def log (c : Custody) : List Handling → List Logged
  | [] => []
  | a :: rest => (a, (c.step a).2) :: (c.step a).1.log rest

end Custody

/-! ## Reading the record -/

namespace Logged

/-- The handle that was given out. -/
def issued? : Logged → Option WeakRef
  | (_, .handle r) => some r
  | _ => none

/-- The handle whose cell was to be released, for the first time or again. -/
def released? : Logged → Option WeakRef
  | (.release r, .released _) => some r
  | _ => none

/-- The handle that was dropped. -/
def forgotten? : Logged → Option WeakRef
  | (.forget r, .done) => some r
  | _ => none

/-- Who is to be told from now on, if that changes. -/
def listener (before : Option Nat) : Logged → Option Nat
  | (.listen listener, _) => some listener
  | (.unlisten, _) => none
  | _ => before

end Logged

/-- The handles that were given out, in order. -/
def issued (log : List Logged) : List WeakRef := log.filterMap Logged.issued?

/-- The handles of all releases, the repeated ones included. -/
def releases (log : List Logged) : List WeakRef := log.filterMap Logged.released?

/-- The handles that were dropped. -/
def forgotten (log : List Logged) : List WeakRef := log.filterMap Logged.forgotten?

/-- Who was asked last to be told. -/
def lastListener (log : List Logged) : Option Nat := log.foldl Logged.listener none

/-- The handles whose cells nobody has released. -/
def unreleased (log : List Logged) : List WeakRef := (issued log).filter (· ∉ releases log)

section Reading

variable (log : List Logged) (entry : Logged)

theorem issued_concat : issued (log ++ [entry]) = issued log ++ entry.issued?.toList := by
  rw [issued, List.filterMap_append, issued]
  cases h : entry.issued? <;> simp [h]

theorem releases_concat : releases (log ++ [entry]) = releases log ++ entry.released?.toList := by
  rw [releases, List.filterMap_append, releases]
  cases h : entry.released? <;> simp [h]

theorem forgotten_concat : forgotten (log ++ [entry]) = forgotten log ++
    entry.forgotten?.toList := by
  rw [forgotten, List.filterMap_append, forgotten]
  cases h : entry.forgotten? <;> simp [h]

theorem lastListener_concat : lastListener (log ++ [entry]) =
    entry.listener (lastListener log) := by
  rw [lastListener, List.foldl_append]
  rfl

end Reading

/-! ## What the record tells of a store -/

namespace Custody

/-- The references that are out are those that the heap counts. -/
structure Backed (heap : Heap) (strong : List ObjectId) (given : List WeakRef) : Prop where
  refs : ∀ o, heap.refs o = strong.count o
  known : ∀ r ∈ given, heap.Knows r.referent

/-- A handle can be used from its acquire until it is dropped. -/
structure Handed (handles given gone : List WeakRef) : Prop where
  nodup : handles.Nodup
  mem_iff : ∀ r, r ∈ handles ↔ r ∈ given ∧ r ∉ gone
  given : ∀ r ∈ gone, r ∈ given

/-- The references, the cells and the handles are those of the record. -/
structure Recorded (c : Custody) (log : List Logged) : Prop where
  backed : Backed c.heap c.strong (issued log)
  booked : c.store.Booked (issued log) (releases log)
  handed : Handed c.handles (issued log) (forgotten log)
  referents : ∀ o r, (Handling.acquire o, Reply.handle r) ∈ log → r.referent = o
  listener : c.store.listener = lastListener log

section Parts

variable {heap heap' : Heap} {strong : List ObjectId} {handles given gone : List WeakRef}
    {o : ObjectId} {r : WeakRef}

/-- A reference that is out keeps its object alive, and nothing else does. -/
theorem Backed.isLive_iff (h : Backed heap strong given) : heap.isLive o = true ↔ o ∈ strong := by
  rw [Heap.isLive_iff, h.refs, ← List.count_pos_iff]
  omega

theorem Backed.resolve?_eq (h : Backed heap strong given) :
    r.resolve? heap = if r.referent ∈ strong then some r.referent else none := by
  simp only [WeakRef.resolve?, h.isLive_iff]

theorem Backed.allocate (h : Backed heap strong given) (s : String) :
    Backed (heap.alloc s).2 ((heap.alloc s).1 :: strong) given := by
  refine ⟨fun o => ?_, fun r hr => (Heap.later_alloc heap s).knows _ (h.known r hr)⟩
  have hnew : strong.count (heap.alloc s).1 = 0 := by
    rw [← h.refs, Heap.refs_of_not_knows (heap.not_knows_alloc s)]
  rw [Heap.refs_alloc_eq, List.count_cons]
  by_cases ho : o = (heap.alloc s).1
  · simp [ho, hnew]
  · simp [ho, h.refs, Ne.symm ho]

theorem Backed.retain (h : Backed heap strong given) (ho : o ∈ strong) :
    Backed (heap.retain o) (o :: strong) given := by
  refine ⟨fun p => ?_, fun r hr => Heap.knows_retain.2 (h.known r hr)⟩
  have hlive := Heap.isLive_iff.1 (h.isLive_iff.2 ho)
  rw [Heap.refs_retain, List.count_cons, h.refs]
  by_cases hp : p = o
  · subst hp
    rw [h.refs] at hlive
    simp [hlive]
  · simp [hp, Ne.symm hp]

theorem Backed.drop (h : Backed heap strong given) (o : ObjectId) :
    Backed (heap.drop o) (strong.erase o) given := by
  refine ⟨fun p => ?_, fun r hr => Heap.knows_drop.2 (h.known r hr)⟩
  by_cases hp : p = o
  · rw [hp, Heap.refs_drop_self, List.count_erase_self, h.refs]
  · rw [Heap.refs_drop_other _ hp, List.count_erase_of_ne hp, h.refs]

theorem Backed.acquire (h : Backed heap strong given) (hr : r.referent ∈ strong) :
    Backed heap strong (given ++ [r]) := by
  refine ⟨h.refs, fun r' hr' => ?_⟩
  rcases List.mem_append.1 hr' with hr' | hr'
  · exact h.known r' hr'
  · rw [List.mem_singleton.1 hr']
    exact Heap.knows_of_isLive (h.isLive_iff.2 hr)

theorem Handed.acquire (h : Handed handles given gone) (hfresh : r ∉ given) :
    Handed (r :: handles) (given ++ [r]) gone := by
  refine ⟨List.nodup_cons.2 ⟨fun hr => hfresh ((h.mem_iff r).1 hr).1, h.nodup⟩, ?_, ?_⟩
  · intro r'
    rw [List.mem_cons, h.mem_iff, List.mem_append, List.mem_singleton]
    constructor
    · rintro (rfl | ⟨hgiven, hnot⟩)
      · exact ⟨.inr rfl, fun hgone => hfresh (h.given _ hgone)⟩
      · exact ⟨.inl hgiven, hnot⟩
    · rintro ⟨hgiven | rfl, hnot⟩
      · exact .inr ⟨hgiven, hnot⟩
      · exact .inl rfl
  · exact fun r' hr' => List.mem_append_left _ (h.given r' hr')

theorem Handed.forget (h : Handed handles given gone) (hr : r ∈ handles) :
    Handed (handles.erase r) given (gone ++ [r]) := by
  refine ⟨h.nodup.erase r, ?_, ?_⟩
  · intro r'
    rw [h.nodup.mem_erase_iff, h.mem_iff, List.mem_append, List.mem_singleton, not_or]
    exact ⟨fun ⟨hne, hgiven, hnot⟩ => ⟨hgiven, hnot, hne⟩,
      fun ⟨hgiven, hnot, hne⟩ => ⟨hne, hgiven, hnot⟩⟩
  · intro r' hr'
    rcases List.mem_append.1 hr' with hr' | hr'
    · exact h.given r' hr'
    · exact List.mem_singleton.1 hr' ▸ ((h.mem_iff r).1 hr).1

end Parts

variable {c : Custody} {log : List Logged} {r : WeakRef} {o : ObjectId}

theorem recorded_start (name : String) : (start name).Recorded [] where
  backed := ⟨fun _ => rfl, fun _ hr => nomatch hr⟩
  booked := CellStore.booked_nil name
  handed := ⟨.nil, fun r => by simp [start, issued], fun _ hr => nomatch hr⟩
  referents _ _ h := nomatch h
  listener := rfl

theorem Recorded.mem_issued (h : c.Recorded log) (hr : r ∈ c.handles) : r ∈ issued log :=
  ((h.handed.mem_iff r).1 hr).1

/-- An entry that gives out no handle says nothing of referents. -/
theorem Recorded.referents_concat (h : c.Recorded log) {entry : Logged}
    (hissued : entry.issued? = none) :
    ∀ o r, (Handling.acquire o, Reply.handle r) ∈ log ++ [entry] → r.referent = o := by
  intro o r hmem
  rcases List.mem_append.1 hmem with hmem | hmem
  · exact h.referents o r hmem
  · rw [← List.mem_singleton.1 hmem] at hissued
    cases hissued

/-- What neither issues, nor releases, nor drops a handle. -/
theorem Recorded.note (h : c.Recorded log) {heap : Heap} {store : CellStore}
    {strong : List ObjectId} {entry : Logged} (hbacked : Backed heap strong (issued log))
    (hsame : c.store.SameCells store) (hlistener : store.listener = entry.listener c.store.listener)
    (hissued : entry.issued? = none) (hreleased : entry.released? = none)
    (hforgotten : entry.forgotten? = none) :
    Recorded { c with heap, store, strong } (log ++ [entry]) := by
  have hi : issued (log ++ [entry]) = issued log := by simp [issued_concat, hissued]
  have hr : releases (log ++ [entry]) = releases log := by simp [releases_concat, hreleased]
  have hf : forgotten (log ++ [entry]) = forgotten log := by simp [forgotten_concat, hforgotten]
  refine ⟨?_, ?_, ?_, h.referents_concat hissued, ?_⟩
  · rw [hi]
    exact hbacked
  · rw [hi, hr]
    exact h.booked.congr hsame
  · rw [hi, hf]
    exact h.handed
  · rw [lastListener_concat, hlistener, h.listener]

theorem Recorded.acquire (h : c.Recorded log) (ho : o ∈ c.strong) :
    (c.step (.acquire o)).1.Recorded (log ++ [(.acquire o, (c.step (.acquire o)).2)]) := by
  simp only [step, ho, if_true]
  have hi : ∀ r, issued (log ++ [(.acquire o, .handle r)]) = issued log ++ [r] :=
    fun r => issued_concat log (.acquire o, .handle r)
  have hr : ∀ r, releases (log ++ [(.acquire o, .handle r)]) = releases log := by
    simp [releases_concat, Logged.released?]
  have hf : ∀ r, forgotten (log ++ [(.acquire o, .handle r)]) = forgotten log := by
    simp [forgotten_concat, Logged.forgotten?]
  refine ⟨?_, ?_, ?_, ?_, ?_⟩
  · rw [hi]
    exact h.backed.acquire ho
  · rw [hi, hr]
    exact h.booked.acquire o
  · rw [hi, hf]
    exact h.handed.acquire (h.booked.fresh o)
  · intro p r hmem
    rcases List.mem_append.1 hmem with hmem | hmem
    · exact h.referents p r hmem
    · cases List.mem_singleton.1 hmem
      rfl
  · rw [lastListener_concat]
    exact h.listener

theorem Recorded.release (h : c.Recorded log) (hr : r ∈ c.handles) :
    (c.step (.release r)).1.Recorded (log ++ [(.release r, (c.step (.release r)).2)]) := by
  simp only [step, hr, if_true]
  have hi : ∀ first, issued (log ++ [(.release r, .released first)]) = issued log := by
    simp [issued_concat, Logged.issued?]
  have hb : ∀ first, releases (log ++ [(.release r, .released first)]) = releases log ++ [r] :=
    fun first => releases_concat log (.release r, .released first)
  have hf : ∀ first, forgotten (log ++ [(.release r, .released first)]) = forgotten log := by
    simp [forgotten_concat, Logged.forgotten?]
  refine ⟨?_, ?_, ?_, h.referents_concat rfl, ?_⟩
  · rw [hi]
    exact h.backed
  · rw [hi, hb]
    exact h.booked.release (h.mem_issued hr)
  · rw [hi, hf]
    exact h.handed
  · rw [lastListener_concat]
    exact (c.store.listener_release r).trans h.listener

theorem Recorded.forget (h : c.Recorded log) (hr : r ∈ c.handles) :
    Recorded { c with handles := c.handles.erase r } (log ++ [(.forget r, .done)]) := by
  have hi : issued (log ++ [(.forget r, .done)]) = issued log := by
    simp [issued_concat, Logged.issued?]
  have hb : releases (log ++ [(.forget r, .done)]) = releases log := by
    simp [releases_concat, Logged.released?]
  have hf : forgotten (log ++ [(.forget r, .done)]) = forgotten log ++ [r] := forgotten_concat _ _
  refine ⟨?_, ?_, ?_, h.referents_concat rfl, ?_⟩
  · rw [hi]
    exact h.backed
  · rw [hi, hb]
    exact h.booked
  · rw [hi, hf]
    exact h.handed.forget hr
  · rw [lastListener_concat]
    exact h.listener

/-- What changes nothing leaves an entry of no consequence. -/
theorem Recorded.glance (h : c.Recorded log) {entry : Logged}
    (hlistener : ∀ before, entry.listener before = before) (hissued : entry.issued? = none)
    (hreleased : entry.released? = none) (hforgotten : entry.forgotten? = none) :
    c.Recorded (log ++ [entry]) :=
  h.note h.backed (.refl _) (hlistener _).symm hissued hreleased hforgotten

/-- **Whatever is done** is on the record. -/
theorem Recorded.step (h : c.Recorded log) (a : Handling) :
    (c.step a).1.Recorded (log ++ [(a, (c.step a).2)]) := by
  cases a with
  | allocate s => exact h.note (h.backed.allocate s) (.refl _) rfl rfl rfl rfl
  | retain o =>
    rw [Custody.step]
    split
    · next ho => exact h.note (h.backed.retain ho) (.refl _) rfl rfl rfl rfl
    · exact h.glance (fun _ => rfl) rfl rfl rfl
  | drop o =>
    rw [Custody.step]
    split
    · exact h.note (h.backed.drop o) (.refl _) rfl rfl rfl rfl
    · exact h.glance (fun _ => rfl) rfl rfl rfl
  | acquire o =>
    by_cases ho : o ∈ c.strong
    · exact h.acquire ho
    · rw [Custody.step, if_neg ho]
      exact h.glance (fun _ => rfl) rfl rfl rfl
  | peek r =>
    rw [Custody.step]
    split <;> exact h.glance (fun _ => rfl) rfl rfl rfl
  | resolve r =>
    rw [Custody.step]
    split
    · split
      · next o hresolve =>
        rw [h.backed.resolve?_eq, Option.ite_none_right_eq_some, Option.some.injEq] at hresolve
        exact h.note (h.backed.retain (hresolve.2 ▸ hresolve.1)) (.refl _) rfl rfl rfl rfl
      · exact h.glance (fun _ => rfl) rfl rfl rfl
    · exact h.glance (fun _ => rfl) rfl rfl rfl
  | markDead r =>
    rw [Custody.step]
    split
    · exact h.note h.backed (CellStore.sameCells_markDead _ r) rfl rfl rfl rfl
    · exact h.glance (fun _ => rfl) rfl rfl rfl
  | release r =>
    by_cases hr : r ∈ c.handles
    · exact h.release hr
    · rw [Custody.step, if_neg hr]
      exact h.glance (fun _ => rfl) rfl rfl rfl
  | forget r =>
    rw [Custody.step]
    split
    · next hr => exact h.forget hr
    · exact h.glance (fun _ => rfl) rfl rfl rfl
  | listen listener =>
    exact h.note h.backed ⟨rfl, fun _ => id, fun _ => .rfl, rfl, rfl⟩ rfl rfl rfl rfl
  | unlisten => exact h.note h.backed ⟨rfl, fun _ => id, fun _ => .rfl, rfl, rfl⟩ rfl rfl rfl rfl
  | report => exact h.glance (fun _ => rfl) rfl rfl rfl

theorem Recorded.run (h : c.Recorded log) (acts : List Handling) :
    (c.run acts).Recorded (log ++ c.log acts) := by
  induction acts generalizing c log with
  | nil =>
    rw [Custody.log, List.append_nil]
    exact h
  | cons a rest ih =>
    have hrest := ih (h.step a)
    rwa [List.append_assoc, List.singleton_append] at hrest

theorem later_step (c : Custody) (a : Handling) : Heap.Later c.heap (c.step a).1.heap := by
  cases a with
  | allocate s => exact Heap.later_alloc _ s
  | retain o =>
    rw [step]
    split
    · exact Heap.later_retain _ o
    · exact .refl _
  | drop o =>
    rw [step]
    split
    · exact Heap.later_drop _ o
    · exact .refl _
  | resolve r =>
    rw [step]
    split
    · split
      · exact Heap.later_retain _ _
      · exact .refl _
    · exact .refl _
  | listen | unlisten | report => exact .refl _
  | acquire | peek | markDead | release | forget =>
    rw [step]
    split <;> exact .refl _

theorem later_run (c : Custody) (acts : List Handling) : Heap.Later c.heap (c.run acts).heap := by
  induction acts generalizing c with
  | nil => exact .refl _
  | cons a rest ih => exact (c.later_step a).trans (ih _)

/-- What the store shows, read off the record. -/
structure Balances (c : Custody) (log : List Logged) : Prop where
  /-- Numbers are given out in order, and none a second time. -/
  ids : (issued log).map WeakRef.id = List.range' 1 (issued log).length
  nextId : c.store.nextId = (issued log).length + 1
  /-- A handle notes whether somebody has released it, -/
  flags : ∀ r ∈ issued log, c.store.isReleased r = decide (r ∈ releases log)
  /-- and the map has the cells of the handles that nobody has released, each once. -/
  cells : c.store.cells.entries.toList.Perm ((unreleased log).map fun r => (r.id, r.referent))
  inUse : ∀ r, c.store.InUse r ↔ r ∈ unreleased log
  allocated : c.store.allocated = (unreleased log).length
  balance : c.store.allocated + c.store.releasedTotal = (issued log).length
  doubles : c.store.doubleReleases + (releases log).dedup.length = (releases log).length
  numDead : c.store.numDead c.heap = (unreleased log).countP (·.referent ∉ c.strong)
  /-- A handle leads to the object that it was acquired for, while somebody has a reference to
  it. -/
  leads : ∀ o r, (Handling.acquire o, Reply.handle r) ∈ log → r.resolve? c.heap = if o ∈ c.strong
    then some o else none
  handles : ∀ r, r ∈ c.handles ↔ r ∈ issued log ∧ r ∉ forgotten log

theorem Recorded.balances (h : c.Recorded log) : c.Balances log where
  ids := by
    have hlength := congrArg List.length h.booked.ids
    rw [List.length_map, List.length_range'] at hlength
    rw [hlength, h.booked.ids]
  nextId := by
    have hlength := congrArg List.length h.booked.ids
    rw [List.length_map, List.length_range'] at hlength
    rw [hlength, c.store.nextId_eq]
  flags r hr := h.booked.isReleased hr
  cells := by
    rw [← CellStore.map_cellRefs]
    exact h.booked.ledger.perm_cellRefs.symm.map _
  inUse r := by rw [unreleased, List.mem_filter, decide_eq_true_iff, h.booked.inUse]
  allocated := h.booked.ledger.allocated
  balance := h.booked.balance
  doubles := h.booked.doubles
  numDead := by
    rw [h.booked.ledger.numDead]
    refine List.countP_congr fun r _ => ?_
    rw [WeakRef.isDead, decide_eq_true_iff, ← h.backed.isLive_iff, Bool.not_eq_true',
      Bool.not_eq_true]
  leads o r hacquired := by
    rw [h.backed.resolve?_eq, h.referents o r hacquired]
  handles := h.handed.mem_iff

/-- What comes back from the next call. -/
structure Replies (c : Custody) (log : List Logged) : Prop where
  peek : ∀ r ∈ c.handles, (c.step (.peek r)).2 = .object (r.resolve? c.heap)
  resolve : ∀ r ∈ c.handles, (c.step (.resolve r)).2 = .object (r.resolve? c.heap)
  /-- The first release of a handle is granted. -/
  release : ∀ r ∈ c.handles, (c.step (.release r)).2 = .released (decide (r ∉ releases log))
  /-- No other handle loses its cell. -/
  spares : ∀ r ∈ c.handles, ∀ id o, (id, o) ∈ (c.step (.release r)).1.store.cells.entries ↔
    (id, o) ∈ c.store.cells.entries ∧ id ≠ r.id
  /-- Each further one is counted, and changes nothing else. -/
  release_again : ∀ r ∈ c.handles, r ∈ releases log →
    (c.step (.release r)).1 =
      { c with store := { c.store with doubleReleases := c.store.doubleReleases + 1 } }
  /-- The one who was asked last to be told is told once, and nobody else is. -/
  report : c.step .report =
    (c, .dead (c.store.numDead c.heap) ((lastListener log).toList.map fun listener =>
      (listener, c.store.numDead c.heap)))

theorem Recorded.replies (h : c.Recorded log) : c.Replies log where
  peek r hr := by rw [Custody.step, if_pos hr]
  resolve r hr := by
    rw [Custody.step, if_pos hr]
    split
    · next hresolve => rw [hresolve]
    · next hresolve => rw [hresolve]
  release r hr := by
    rw [Custody.step, if_pos hr]
    exact congrArg Reply.released (h.booked.fst_release (h.mem_issued hr))
  spares r hr id o := by
    rw [Custody.step, if_pos hr]
    exact CellStore.mem_cells_release (h.booked.cells r (h.mem_issued hr))
  release_again r hr hagain := by
    rw [Custody.step, if_pos hr]
    exact congrArg (fun store => { c with store }) (h.booked.release_again hagain)
  report := by
    rw [Custody.step, ← h.listener]
    rfl

/-- A handle that leads nowhere never leads anywhere again. -/
theorem Recorded.stays_dead (h : c.Recorded log) (hr : r ∈ issued log)
    (hnone : r.resolve? c.heap = none) (later : List Handling) :
    r.resolve? (c.run later).heap = none := by
  rw [WeakRef.resolve?, ite_eq_right_iff] at hnone ⊢
  intro hlive
  exact hnone ((c.later_run later).live _ (h.backed.known r hr) hlive)

/-- **The books of a store** are right, whatever was done with it, its handles, and the objects
behind them: what it shows, and what it replies next, is what the record says. A handle whose object
is gone stays so. -/
theorem cells_accounted (name : String) (acts : List Handling) :
    ((start name).run acts).Balances ((start name).log acts) ∧
      ((start name).run acts).Replies ((start name).log acts) ∧
      ∀ r ∈ issued ((start name).log acts), r.resolve? ((start name).run acts).heap = none →
        ∀ later, r.resolve? (((start name).run acts).run later).heap = none := by
  have hrecorded : ((start name).run acts).Recorded ((start name).log acts) :=
    (recorded_start name).run acts
  exact ⟨hrecorded.balances, hrecorded.replies, fun r hr hnone => hrecorded.stays_dead hr hnone⟩

end Custody

end WeakIntern
