import WeakIntern.Proofs.Errands
import WeakIntern.Proofs.Receiving
/-!
# What an answer is worth

An interner that answers with an object hands out a reference to it, and takes none from anybody
(`Interner.Gives`). That is so whatever is in its table: what a walk finds is alive. So the
references that callers hold, and those of the region of a snapshot, count for as long as they are
not given up (`Session.Backed.step`).
-/

namespace WeakIntern

namespace Table

variable {t : Table} {heap : Heap} {o : ObjectId}

theorem isLive_searchArrays {limit : Nat} {key : LookupKey} {arrays : List BucketArray}
    (h : (searchArrays heap limit key arrays).value = some o) : heap.isLive o = true := by
  induction arrays with
  | nil => cases h
  | cons a rest ih =>
    rw [searchArrays] at h
    dsimp only at h
    split at h
    · rw [walkChain_fst] at h
      obtain ⟨slot, -, hanswer⟩ := List.exists_of_findSome?_eq_some h
      exact (Slot.answer?_eq_some_iff.1 hanswer).2.2.1
    · exact ih h

/-- The object that stands for a content after an insert is alive. -/
theorem isLive_canonical (h : t.Formed) (hlive : heap.isLive o = true) (ref : WeakRef) :
    heap.isLive ((t.insertIfAbsent heap o ref).1.value.canonical o) = true := by
  rw [value_insertIfAbsent h]
  cases hoccupant : t.occupant? heap o with
  | none => exact hlive
  | some p =>
    obtain ⟨-, -, -, hplive, -⟩ := linked_of_occupant? h hoccupant
    exact hplive

end Table

namespace Interner

variable {i i' : Interner} {o : ObjectId}

/-- The answer hands out one reference, to the object that it is, and takes none from anybody. -/
def Gives (i : Interner) (given : ObjectId × Interner) : Prop :=
  ∀ p, given.2.heap.refs p = if p = given.1 then i.heap.refs p + 1 else i.heap.refs p

theorem gives_give (hlive : i.heap.isLive o = true) : i.Gives (i.give o) :=
  Registry.refs_retain hlive

theorem gives_link (hsteady : i.table.Steady) (hlive : i.heap.isLive o = true) :
    i.Gives (i.link o) := by
  have hacquired : (i.table.acquire o).2.Steady := hsteady.congr rfl rfl rfl
  exact Registry.refs_retain (Table.isLive_canonical hacquired.formed hlive (i.table.acquire o).1)

/-- What the table finds is alive, and can be handed out. -/
theorem gives_probe {key : LookupKey} (h : i.probe key = (some o, i')) : i.Gives (i'.give o) := by
  obtain ⟨hfound, rfl⟩ := Prod.mk.inj h
  exact Registry.refs_retain (Table.isLive_searchArrays hfound)

theorem gives_internObject (hsteady : i.table.Steady)
    (hshared : ∀ s p, i.lookupShared? s = some p → i.heap.isLive p = true)
    (hlive : i.heap.isLive o = true) :
    i.Gives (i.internObject o) := by
  unfold internObject
  split
  · next p hp => exact gives_give (hshared _ p hp)
  · split
    · next hprobe => exact gives_probe hprobe
    · next i' hprobe =>
      obtain rfl : (i.probe (.object o)).2 = i' := congrArg Prod.snd hprobe
      exact gives_link hsteady hlive

/-- A new object is linked, and the reference to it is passed on or given up. -/
theorem gives_linkNew (hsteady : i.table.Steady) (s : String) :
    i.Gives (((i.newObject s).2.link (i.newObject s).1).1,
      ((i.newObject s).2.link (i.newObject s).1).2.dropReference (i.newObject s).1) := by
  have hnew : i.Gives (i.newObject s) := Registry.refs_allocate i.heap s
  have hlink : (i.newObject s).2.Gives ((i.newObject s).2.link (i.newObject s).1) :=
    gives_link hsteady (i.heap.isLive_alloc_self s)
  intro p
  show (((i.newObject s).2.link (i.newObject s).1).2.heap.drop (i.newObject s).1).refs p = _
  by_cases hp : p = (i.newObject s).1
  · subst hp
    rw [Heap.refs_drop_self, hlink, hnew, if_pos rfl]
    split <;> rfl
  · rw [Heap.refs_drop_other _ hp, hlink, hnew, if_neg hp]

theorem gives_intern (hsteady : i.table.Steady)
    (hshared : ∀ s p, i.lookupShared? s = some p → i.heap.isLive p = true) (s : String) :
    i.Gives (i.intern s) := by
  unfold intern
  split
  · next p hp => exact gives_give (hshared _ p hp)
  · split
    · next hprobe => exact gives_probe hprobe
    · next i' hprobe =>
      obtain rfl : (i.probe (.text s)).2 = i' := congrArg Prod.snd hprobe
      exact gives_linkNew (i := (i.probe (.text s)).2) hsteady s

theorem gives_lookup? (hshared : ∀ s p, i.lookupShared? s = some p → i.heap.isLive p = true)
    {s : String} (h : i.lookup? s = (some o, i')) : i.Gives (o, i') := by
  unfold lookup? at h
  split at h
  · next hp =>
    cases h
    exact gives_give (hshared _ _ hp)
  · split at h
    · next hprobe =>
      cases h
      exact gives_probe hprobe
    · cases h

theorem heap_lookup?_of_none {s : String} (h : i.lookup? s = (none, i')) : i'.heap = i.heap := by
  unfold lookup? at h
  split at h
  · cases h
  · split at h
    · cases h
    · next i' hprobe =>
      cases h
      exact (runs_probe hprobe).2

end Interner

theorem Interner.heap_runPending (i : Interner) (seed : UInt64) :
    (i.runPending seed).2.heap = i.heap := by
  have hanswered : (if i.maintenance.needsRehash then (i.rehash seed).2 else i).heap = i.heap := by
    split <;> rfl
  rw [runPending]
  generalize (if i.maintenance.needsRehash then (i.rehash seed).2 else i) = i' at hanswered ⊢
  rw [← hanswered]
  dsimp only
  split
  · split <;> rfl
  · rfl

theorem Interner.heap_shutdown (i : Interner) : i.shutdown.heap = i.heap := by
  rw [shutdown]
  split <;> rfl

namespace Session

variable {region : List ObjectId} {c : Session}

/-- Every reference counts: those that are held, and one to each object of the region. -/
def Backed (region : List ObjectId) (c : Session) : Prop :=
  ∀ o, c.held.count o + region.count o ≤ c.interner.heap.refs o

theorem Backed.answer (h : c.Backed region) {given : ObjectId × Interner}
    (hgives : c.interner.Gives given) :
    (c.answer given).2.Backed region := Registry.count_cons_le h hgives

theorem Backed.proceed (h : c.Backed region) {i : Interner} (hheap : i.heap = c.interner.heap) :
    (c.proceed i).2.Backed region := by
  show ∀ o, c.held.count o + region.count o ≤ i.heap.refs o
  rw [hheap]
  exact h

/-- **Every request** keeps the count of references. -/
theorem Backed.step (h : c.Backed region) (hsteady : c.interner.table.Steady)
    (hindex : c.interner.overlay.Indexed c.interner.heap)
    (hobjects : ∀ o ∈ c.interner.overlay.objects, o ∈ region) (request : Request) :
    (c.step request).2.Backed region := by
  have hshared : ∀ s p, c.interner.lookupShared? s = some p → c.interner.heap.isLive p = true := by
    intro s p hp
    rw [Interner.lookupShared?] at hp
    split at hp
    · cases hp
    · rw [hindex.lookup?_eq] at hp
      exact Registry.isLive_of_count_le h (hobjects p (Overlay.mem_of_first? hp))
  cases request with
  | allocate s => exact h.answer (Registry.refs_allocate c.interner.heap s)
  | retain o =>
    rw [Session.step]
    split
    · next hlive => exact h.answer (Interner.gives_give hlive)
    · exact h
  | drop o =>
    rw [Session.step]
    split
    · next ho => exact Registry.count_erase_le h ho
    · exact h
  | intern s => exact h.answer (Interner.gives_intern hsteady hshared s)
  | internObject o =>
    rw [Session.step]
    split
    · next hlive => exact h.answer (Interner.gives_internObject hsteady hshared hlive)
    · exact h
  | lookup s =>
    rw [Session.step]
    split
    · next o interner hlookup => exact h.answer (Interner.gives_lookup? hshared hlookup)
    · next interner hlookup => exact h.proceed (Interner.heap_lookup?_of_none hlookup)
  | notifyDead numDead => exact h.proceed rfl
  | reportDead =>
    obtain ⟨maintenance, heq⟩ := c.interner.reportDead_eq
    exact h.proceed (by rw [heq])
  | runPending seed => exact h.proceed (c.interner.heap_runPending seed)
  | rehash seed => exact h.proceed rfl
  | transferOverlay => exact h.proceed c.interner.heap_transferOverlay
  | shutdown => exact h.proceed c.interner.heap_shutdown

end Session

end WeakIntern
