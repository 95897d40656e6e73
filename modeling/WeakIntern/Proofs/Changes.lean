import Mathlib.Logic.Relation
import WeakIntern.Proofs.Session
/-!
# Small changes

A request that leads to no structural work comes to a few small changes of the interner, one after
another (`Session.changes_step`). An invariant that each `Interner.Change` keeps is kept by all
these requests.
-/

namespace WeakIntern

namespace Interner

/-- A small change of an interner. -/
inductive Change (i : Interner) : Interner → Prop where
  | heap (heap : Heap) : Change i { i with heap }
  | alarm (raised : Bool) : Change i (i.raiseAlarm raised)
  | insert (o : ObjectId) :
    Change i
      { i with table := ((i.table.acquire o).2.insertIfAbsent i.heap o (i.table.acquire o).1).2 }
  | drain : Change i { i with overlay := i.overlay.drain.2 }
  | drained (entries : Nat) :
    Change i { i with maintenance := i.maintenance.record (.overlayDrained entries) }
  | notifyDead (numDead : Nat) : Change i (i.notifyDead numDead).2
  | shutdown : Change i i.shutdown

/-- Small changes, one after another. -/
def Changes : Interner → Interner → Prop := Relation.ReflTransGen Change

variable {i i' i'' : Interner}

theorem Changes.refl (i : Interner) : i.Changes i := Relation.ReflTransGen.refl

theorem Changes.trans (h : i.Changes i') (h' : i'.Changes i'') : i.Changes i'' :=
  Relation.ReflTransGen.trans h h'

theorem Change.changes (h : i.Change i') : i.Changes i' := Relation.ReflTransGen.single h

/-! ## Interning -/

theorem changes_heap (i : Interner) (heap : Heap) : i.Changes { i with heap } :=
  (Change.heap heap).changes

theorem changes_probe {key : LookupKey} {found : Option ObjectId} (h : i.probe key = (found, i')) :
    i.Changes i' := by
  obtain rfl : (i.probe key).2 = i' := congrArg Prod.snd h
  exact (Change.alarm _).changes

theorem changes_link (i : Interner) (o : ObjectId) : i.Changes (i.link o).2 :=
  ((Change.insert o).changes.trans (Change.alarm _).changes).trans (changes_heap _ _)

theorem changes_internObject (i : Interner) (o : ObjectId) : i.Changes (i.internObject o).2 := by
  unfold internObject
  split
  · exact i.changes_heap _
  · split
    · next i' hprobe => exact (changes_probe hprobe).trans (i'.changes_heap _)
    · next i' hprobe => exact (changes_probe hprobe).trans (i'.changes_link o)

theorem changes_intern (i : Interner) (s : String) : i.Changes (i.intern s).2 := by
  unfold intern
  split
  · exact i.changes_heap _
  · split
    · next i' hprobe => exact (changes_probe hprobe).trans (i'.changes_heap _)
    · next i' hprobe =>
      have hnew : i'.Changes (i'.newObject s).2 := i'.changes_heap _
      exact (((changes_probe hprobe).trans hnew).trans ((i'.newObject s).2.changes_link _)).trans
        (changes_heap _ _)

theorem changes_lookup? (i : Interner) (s : String) : i.Changes (i.lookup? s).2 := by
  unfold lookup?
  split
  · exact i.changes_heap _
  · split
    · next i' hprobe => exact (changes_probe hprobe).trans (i'.changes_heap _)
    · next hprobe => exact changes_probe hprobe

/-! ## Upkeep -/

theorem changes_linkAll (i : Interner) (objects : List ObjectId) :
    i.Changes (objects.foldl linkOnly i) := by
  induction objects generalizing i with
  | nil => exact .refl i
  | cons o rest ih =>
    have hlink : i.Changes (i.linkOnly o) := (i.changes_link o).trans (changes_heap _ _)
    exact hlink.trans (ih _)

theorem changes_transferOverlay (i : Interner) : i.Changes i.transferOverlay.2 := by
  have hall :
      i.Changes (i.overlay.objects.foldl linkOnly { i with overlay := i.overlay.drain.2 }) :=
    Change.drain.changes.trans (changes_linkAll _ _)
  simp only [transferOverlay]
  split
  · exact hall
  · exact hall.trans (Change.drained _).changes

theorem changes_reportDead (i : Interner) : i.Changes i.reportDead.2 := by
  rw [reportDead]
  generalize i.table.cells.report i.heap = report
  obtain ⟨numDead, told⟩ := report
  dsimp only
  induction told generalizing i with
  | nil => exact .refl i
  | cons call rest ih =>
    obtain ⟨who, n⟩ := call
    rw [List.foldl_cons]
    dsimp only
    split
    · exact (Change.notifyDead n).changes.trans (ih _)
    · exact ih i

end Interner

/-- May a request lead to structural work? -/
def Request.isMaintenance : Request → Bool
  | .runPending _ | .rehash _ => true
  | _ => false

/-- **A request without structural work** comes to small changes. -/
theorem Session.changes_step (c : Session) {request : Request}
    (hother : request.isMaintenance = false) :
    c.interner.Changes (c.step request).2.interner := by
  cases request with
  | allocate s => exact c.interner.changes_heap _
  | retain o =>
    rw [Session.step]
    split
    · exact c.interner.changes_heap _
    · exact .refl _
  | drop o =>
    rw [Session.step]
    split
    · exact c.interner.changes_heap _
    · exact .refl _
  | intern s => exact c.interner.changes_intern s
  | internObject o =>
    rw [Session.step]
    split
    · exact c.interner.changes_internObject o
    · exact .refl _
  | lookup s =>
    have hchanges := c.interner.changes_lookup? s
    rw [Session.step]
    generalize c.interner.lookup? s = found at hchanges
    obtain ⟨found | o, i⟩ := found <;> exact hchanges
  | notifyDead numDead => exact (Interner.Change.notifyDead numDead).changes
  | reportDead => exact c.interner.changes_reportDead
  | transferOverlay => exact c.interner.changes_transferOverlay
  | shutdown => exact Interner.Change.shutdown.changes
  | runPending | rehash => cases hother

end WeakIntern
