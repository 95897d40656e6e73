import WeakIntern.Proofs.Accounting
import WeakIntern.Proofs.Errands
/-!
# Live objects are linked once

No two linked slots lead to one live object (`Table.Sole`). Contents are unique in a coherent table,
so no two live slots have one content either. A world is *tidy* if its books are kept, its table is
coherent, and live objects are linked once; it stays so through all errands, and through all steps
of tasks that do not go back.
-/

namespace WeakIntern

namespace Table

variable {heap : Heap} {t t' : Table} {ref : WeakRef}

/-- No two references that are linked lead to one live object. -/
def Sole (heap : Heap) (t : Table) : Prop :=
  t.linkedRefs.Pairwise fun r r' => heap.isLive r.referent = true → r.referent ≠ r'.referent

/-- Which of two references comes first makes no difference. -/
theorem sole_comm (heap : Heap) {r r' : WeakRef}
    (h : heap.isLive r.referent = true → r.referent ≠ r'.referent)
    (hlive : heap.isLive r'.referent = true) : r'.referent ≠ r.referent := by
  intro heq
  exact h (heq ▸ hlive) heq.symm

theorem Sole.later (h : t.Sole heap) {heap' : Heap} (hlater : Heap.Later heap heap')
    (hknown : ∀ r ∈ t.linkedRefs, heap.Knows r.referent) : t.Sole heap' :=
  h.imp_of_mem fun hr _ hne hlive => hne (hlater.live _ (hknown _ hr) hlive)

theorem Sole.reaped (h : t.Sole heap) {dead : List WeakRef} (hreaped : Reaped heap t t' dead) :
    t'.Sole heap := by
  have hall := (hreaped.linked.pairwise_iff (sole_comm heap)).1 h
  exact (List.pairwise_append.1 hall).2.1

/-- One reference more, to an object that no other leads to. -/
theorem Sole.link (h : t.Sole heap) (hrefs : t'.linkedRefs.Perm (ref :: t.linkedRefs))
    (hnone : ∀ r ∈ t.linkedRefs, heap.isLive r.referent = true → r.referent ≠ ref.referent) :
    t'.Sole heap := by
  refine (hrefs.pairwise_iff (sole_comm heap)).2 (List.pairwise_cons.2 ⟨?_, h⟩)
  intro r hr hlive heq
  exact hnone r hr (heq ▸ hlive) heq.symm

theorem holds_of_mem_linkedRefs {r : WeakRef} (hr : r ∈ t.linkedRefs)
    (hlive : heap.isLive r.referent = true) :
    t.Holds heap r.referent := by
  obtain ⟨a, ha, i, slot, hslot, rfl⟩ := carries_of_mem_linkedRefs hr
  exact ⟨a, ha, hlive, i, slot, hslot, rfl⟩

end Table

namespace World

/-- A world whose books are kept, and in whose table every live object is found and linked once. -/
structure Tidy (cells : CellStore) (w : World) : Prop where
  kept : w.Kept cells
  coherent : w.table.Coherent w.heap
  sole : w.table.Sole w.heap

variable {cells : CellStore} {w w' : World} {o : ObjectId}

theorem Tidy.known (h : w.Tidy cells) {r : WeakRef} (hr : r ∈ w.table.linkedRefs) :
    w.heap.Knows r.referent :=
  h.kept.known r (.inl (h.kept.linked_passed r hr))

theorem tidy_start (settings : Settings) (cells : CellStore) (heap : Heap) :
    (start settings cells heap).Tidy cells where
  kept := kept_start settings cells heap
  coherent := (Table.mirrors_ofSettings settings cells heap).coherent
  sole := by
    have hlinked : (start settings cells heap).table.linked = [] := BucketArray.slots_empty _ _
    rw [Table.Sole, Table.linkedRefs, hlinked]
    exact .nil

theorem Tidy.later (h : w.Tidy cells) {heap : Heap} (hlater : Heap.Later w.heap heap) :
    Tidy cells { w with heap } where
  kept := h.kept.later hlater
  coherent := h.coherent.later hlater
  sole := h.sole.later hlater fun _ hr => h.known hr

theorem Tidy.acquire (h : w.Tidy cells) (hlive : w.heap.isLive o = true) :
    Tidy cells
      { w with table := (w.table.acquire o).2, spare := (w.table.acquire o).1 :: w.spare } where
  kept := h.kept.acquire hlive
  coherent :=
    have hcongr : (w.table.acquire o).2.Coherent w.heap ∧ _ := h.coherent.congr rfl rfl
    hcongr.1
  sole := h.sole

/-- An insert of the object that the reference at the head of the spare ones is for. -/
theorem Tidy.pass {ref : WeakRef} (h : Tidy cells { w with spare := ref :: w.spare })
    (hlive : w.heap.isLive o = true) (href : ref.referent = o) : (w.pass o ref).1.Tidy cells := by
  have hformed : w.table.Formed := h.kept.orderly.formed
  have hsized : w.table.active.Sized := h.kept.orderly.sized
  have hcoherent : w.table.Coherent w.heap := h.coherent
  have hsole : w.table.Sole w.heap := h.sole
  have hins := Table.insertIfAbsent_inserted hformed w.heap o ref
  have hrecorded := hins.recorded hformed hsized
  -- That the new object was not linked is what the table has answered: it found nothing with the
  -- content.
  obtain ⟨hcoherent', hsettles⟩ := hcoherent.insert hformed hsized hlive href hins
  refine ⟨h.kept.pass o, hcoherent', ?_⟩
  show Table.Sole w.heap (w.table.insertIfAbsent w.heap o ref).2
  generalize w.table.insertIfAbsent w.heap o ref = result at hrecorded hsettles ⊢
  obtain ⟨⟨placement, alarm⟩, t'⟩ := result
  dsimp only at hrecorded hsettles ⊢
  cases placement with
  | existing p =>
    rw [Table.Sole, hrecorded.1]
    exact hsole
  | linked =>
    refine hsole.link hrecorded.1 ?_
    intro r hr hrlive heq
    exact hsettles.1 r.referent (Table.holds_of_mem_linkedRefs hr hrlive)
      (congrArg w.heap.content (heq.trans href))
  | stranded => exact hrecorded.elim

/-- **An insert** links an object that was not linked, or nothing. -/
theorem Tidy.insert (h : w.Tidy cells) (hlive : w.heap.isLive o = true) :
    (w.insert o).1.Tidy cells :=
  (h.acquire hlive).pass hlive rfl

/-- **A task that is run from its start to its end** leaves the books as they should be. -/
theorem Tidy.runTask (h : w.Tidy cells) (kind : TaskKind) :
    Tidy cells { w with table := (Task.run w.heap (.new w.table kind) w.table).table } := by
  have hlt := h.kept.orderly.chunkBuckets_lt
  -- On a table that is owned the task does not start, and otherwise no other is under way to
  -- disturb it.
  cases howned : w.table.owned with
  | true =>
    rw [Task.run_of_owned howned]
    exact h
  | false =>
    have hrest := h.kept.orderly.atRest_of_free howned
    have hsame := h.coherent.run hrest.steady hlt kind
    obtain ⟨dead, hreaped⟩ := Task.swept_run hrest hlt w.heap kind
    obtain ⟨hrest', -⟩ := Task.atRest_run hrest hlt w.heap kind
    have horderly := h.kept.orderly.runTask kind
    exact ⟨h.kept.reaped hreaped horderly (horderly.clear_of_atRest hrest'), hsame.coherent,
      h.sole.reaped hreaped⟩

/-- Who listens to the cells, and what is noted in the log, is of no account. -/
theorem Tidy.aside (h : w.Tidy cells) (listener : Option Nat) (notices : Array Notice) :
    Tidy cells
      { w with table := { w.table with cells := { w.table.cells with listener }, notices } } where
  kept :=
    { orderly := (h.kept.orderly.congr w.heap { w.table.cells with listener } w.spare
      w.passed).note notices
      clear := h.kept.clear
      ledger := ⟨h.kept.ledger.nodup, h.kept.ledger.mem_iff⟩
      apart := h.kept.apart
      issued := h.kept.issued
      linked_passed := h.kept.linked_passed
      known := h.kept.known
      items := h.kept.items
      doubleReleases := h.kept.doubleReleases
      balance := h.kept.balance }
  coherent :=
    have hcongr :
        Table.Coherent w.heap { w.table with cells := { w.table.cells with listener }, notices } ∧
        _ :=
      h.coherent.congr rfl rfl
    hcongr.1
  sole := h.sole

/-- **Errands** leave a world tidy. They may pass references to inserts. -/
theorem Tidy.errands (h : w.Tidy cells) {heap : Heap} {t : Table}
    (herrands : Errands w.heap w.table heap t) :
    ∃ passed, Tidy cells { w with heap, table := t, passed } := by
  induction herrands with
  | none => exact ⟨w.passed, h⟩
  | later before hlater ih =>
    obtain ⟨passed, ih⟩ := ih
    exact ⟨passed, ih.later hlater⟩
  | @link heap t o before hlive ih =>
    obtain ⟨passed, ih⟩ := ih
    exact ⟨(t.acquire o).1 :: passed, ih.insert hlive⟩
  | run before kind ih =>
    obtain ⟨passed, ih⟩ := ih
    exact ⟨passed, ih.runTask kind⟩
  | aside before listener notices ih =>
    obtain ⟨passed, ih⟩ := ih
    exact ⟨passed, ih.aside listener notices⟩

/-- **A step of a task** that does not go back leaves a world tidy. -/
theorem Effect.tidy {back : Bool} (heff : Effect w back w') (h : w.Tidy cells)
    (hback : back = false) :
    w'.Tidy cells := by
  have hsame := heff.sameObjects h.coherent
  obtain ⟨dead, hreaped⟩ := heff.reaped hback h.kept.clear
  refine ⟨heff.kept h.kept hback, ?_, ?_⟩
  · rw [heff.aside.1]
    exact hsame.coherent
  · rw [heff.aside.1]
    exact h.sole.reaped hreaped

end World

end WeakIntern
