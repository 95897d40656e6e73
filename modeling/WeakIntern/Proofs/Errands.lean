import WeakIntern.Proofs.Session
/-!
# What requests come to

Whatever is asked of an interner, only four things happen to its heap and its table, one after
another: the heap goes on, an object is linked, a task is run from its start to its end, or
something is noted that no slot sees. An `Errands` is such a sequence, and every request is one
(`Session.runs_step`).
-/

namespace WeakIntern

/-- What happens to a heap and a table on the way to others. -/
inductive Errands (heap : Heap) (t : Table) : Heap → Table → Prop where
  | none : Errands heap t heap t
  | later {heap' heap'' : Heap} {t' : Table} (before : Errands heap t heap' t')
    (hlater : Heap.Later heap' heap'') :
    Errands heap t heap'' t'
  | link {heap' : Heap} {t' : Table} {o : ObjectId} (before : Errands heap t heap' t')
    (hlive : heap'.isLive o = true) :
    Errands heap t heap' ((t'.acquire o).2.insertIfAbsent heap' o (t'.acquire o).1).2
  | run {heap' : Heap} {t' : Table} (before : Errands heap t heap' t') (kind : TaskKind) :
    Errands heap t heap' (Task.run heap' (.new t' kind) t').table
  | aside {heap' : Heap} {t' : Table} (before : Errands heap t heap' t') (listener : Option Nat)
      (notices : Array Notice) :
    Errands heap t heap' { t' with cells := { t'.cells with listener }, notices }

theorem Errands.trans {heap heap' heap'' : Heap} {t t' t'' : Table} (h : Errands heap t heap' t')
    (h' : Errands heap' t' heap'' t'') : Errands heap t heap'' t'' := by
  induction h' with
  | none => exact h
  | later before hlater ih => exact ih.later hlater
  | link before hlive ih => exact ih.link hlive
  | run before kind ih => exact ih.run kind
  | aside before listener notices ih => exact ih.aside listener notices

theorem Errands.heap_later {heap heap' : Heap} {t t' : Table} (h : Errands heap t heap' t') :
    Heap.Later heap heap' := by
  induction h with
  | none => exact .refl heap
  | later before hlater ih => exact ih.trans hlater
  | link before hlive ih => exact ih
  | run before kind ih => exact ih
  | aside before listener notices ih => exact ih

/-- **Errands** keep the order among the tasks of a world. -/
theorem World.Orderly.errands {w : World} (h : w.Orderly) {heap : Heap} {t : Table}
    (herrands : Errands w.heap w.table heap t) : World.Orderly { w with heap, table := t } := by
  induction herrands with
  | none => exact h
  | later before hlater ih => exact ih.congr _ _ w.spare w.passed
  | @link heap t o before hlive ih =>
    have hpass := (ih.congr heap (t.acquire o).2.cells w.spare w.passed).pass o (t.acquire o).1
    exact hpass.congr heap _ w.spare w.passed
  | run before kind ih => exact ih.runTask kind
  | @aside heap t before listener notices ih =>
    exact (ih.congr heap { t.cells with listener } w.spare w.passed).note notices

namespace Interner

variable {i : Interner} {o : ObjectId}

/-- What happens on the way from one interner to another. -/
def Runs (i i' : Interner) : Prop := Errands i.heap i.table i'.heap i'.table

theorem Runs.refl (i : Interner) : i.Runs i := .none

theorem Runs.trans {i' i'' : Interner} (h : i.Runs i') (h' : i'.Runs i'') : i.Runs i'' :=
  Errands.trans h h'

theorem runs_newObject (i : Interner) (s : String) : i.Runs (i.newObject s).2 :=
  Errands.later .none (i.heap.later_alloc s)

theorem runs_retain (i : Interner) (o : ObjectId) : i.Runs (i.retain o) :=
  Errands.later .none (i.heap.later_retain o)

theorem runs_dropReference (i : Interner) (o : ObjectId) : i.Runs (i.dropReference o) :=
  Errands.later .none (i.heap.later_drop o)

/-! ## Interning -/

/-- A lookup in the table leaves the heap and the table alone. -/
theorem runs_probe {key : LookupKey} {found : Option ObjectId} {i' : Interner}
    (h : i.probe key = (found, i')) :
    i.Runs i' ∧ i'.heap = i.heap := by
  obtain rfl : (i.probe key).2 = i' := congrArg Prod.snd h
  exact ⟨.none, rfl⟩

theorem runs_link (hlive : i.heap.isLive o = true) : i.Runs (i.link o).2 :=
  Errands.later (.link .none hlive) (i.heap.later_retain _)

theorem runs_internObject (hlive : i.heap.isLive o = true) : i.Runs (i.internObject o).2 := by
  unfold internObject
  split
  · exact i.runs_retain _
  · split
    · next found i' hprobe => exact (runs_probe hprobe).1.trans (i'.runs_retain found)
    · next i' hprobe =>
      obtain ⟨hruns, hheap⟩ := runs_probe hprobe
      exact hruns.trans (runs_link (hheap ▸ hlive))

theorem runs_intern (i : Interner) (s : String) : i.Runs (i.intern s).2 := by
  unfold intern
  split
  · exact i.runs_retain _
  · split
    · next found i' hprobe => exact (runs_probe hprobe).1.trans (i'.runs_retain found)
    · next i' hprobe =>
      -- A string that is new becomes an object, which is linked, and the reference to it is passed
      -- on.
      have hnew := i'.runs_newObject s
      have hlink : (i'.newObject s).2.Runs ((i'.newObject s).2.link (i'.newObject s).1).2 :=
        runs_link (i'.heap.isLive_alloc_self s)
      exact (((runs_probe hprobe).1.trans hnew).trans hlink).trans (runs_dropReference _ _)

theorem runs_lookup? (i : Interner) (s : String) : i.Runs (i.lookup? s).2 := by
  unfold lookup?
  split
  · exact i.runs_retain _
  · split
    · next found i' hprobe => exact (runs_probe hprobe).1.trans (i'.runs_retain found)
    · next i' hprobe => exact (runs_probe hprobe).1

/-! ## Upkeep -/

theorem heap_linkOnly (i : Interner) (o : ObjectId) : (i.linkOnly o).heap = i.heap :=
  i.heap.drop_retain _

theorem runs_linkAll {objects : List ObjectId} (hlive : ∀ o ∈ objects, i.heap.isLive o = true) :
    i.Runs (objects.foldl linkOnly i) := by
  induction objects generalizing i with
  | nil => exact .refl i
  | cons o rest ih =>
    have hfirst : i.Runs (i.linkOnly o) :=
      (runs_link (hlive o List.mem_cons_self)).trans (runs_dropReference _ _)
    refine hfirst.trans (ih ?_)
    intro p hp
    rw [heap_linkOnly]
    exact hlive p (List.mem_cons_of_mem _ hp)

theorem heap_linkAll (i : Interner) (objects : List ObjectId) :
    (objects.foldl linkOnly i).heap = i.heap := by
  induction objects generalizing i with
  | nil => rfl
  | cons o rest ih => exact (ih (i.linkOnly o)).trans (i.heap_linkOnly o)

theorem heap_transferOverlay (i : Interner) : i.transferOverlay.2.heap = i.heap := by
  obtain ⟨maintenance, heq⟩ := i.transferOverlay_eq
  rw [heq]
  exact heap_linkAll _ _

theorem runs_transferOverlay (hlive : ∀ o ∈ i.overlay.objects, i.heap.isLive o = true) :
    i.Runs i.transferOverlay.2 := by
  obtain ⟨maintenance, heq⟩ := i.transferOverlay_eq
  have hall : i.Runs (i.overlay.objects.foldl linkOnly { i with overlay := i.overlay.drain.2 }) :=
    runs_linkAll (i := { i with overlay := i.overlay.drain.2 }) hlive
  rw [heq]
  exact hall

theorem overlay_linkAll (i : Interner) (objects : List ObjectId) :
    (objects.foldl linkOnly i).overlay = i.overlay := by
  induction objects generalizing i with
  | nil => rfl
  | cons o rest ih => exact ih (i.linkOnly o)

theorem overlay_eq_drain (i : Interner) : i.transferOverlay.2.overlay = i.overlay.drain.2 := by
  obtain ⟨maintenance, heq⟩ := i.transferOverlay_eq
  rw [heq]
  exact overlay_linkAll _ _

/-- An overlay that was transferred has no objects. -/
theorem overlay_transferOverlay (i : Interner) : i.transferOverlay.2.overlay.objects = [] :=
  congrArg Overlay.objects i.overlay_eq_drain

/-- What happens to the empty table at the start: the strings of the snapshot may be linked. -/
theorem runs_start {settings : Settings} {image : Option Image} {cells : CellStore} {heap : Heap}
    (hstart : start settings image cells heap = .ok i) :
    ∃ heap', Errands heap' (.ofSettings settings (cells.listen listener)) i.heap i.table := by
  obtain ⟨-, rfl⟩ := start_eq_ok_iff.1 hstart
  obtain ⟨hkeeps, -⟩ := keeps_fresh settings image cells heap []
  refine ⟨(fresh settings image cells heap).heap, ?_⟩
  split
  · exact runs_transferOverlay hkeeps.alive
  · exact .none

theorem runs_rehash (i : Interner) (seed : UInt64) : i.Runs (i.rehash seed).2 := by
  have hheap : (i.rehash seed).2.heap = i.heap := rfl
  rw [Runs, hheap]
  rcases i.table_rehash seed with htable | htable
  · exact htable ▸ .none
  · exact htable ▸ .run .none _

theorem runs_runPending (i : Interner) (seed : UInt64) : i.Runs (i.runPending seed).2 := by
  have hanswered : i.Runs (if i.maintenance.needsRehash then (i.rehash seed).2 else i) := by
    split
    · exact i.runs_rehash seed
    · exact .refl i
  rw [runPending]
  -- A rehash that was asked for comes first, and the work is done on what it leaves.
  generalize (if i.maintenance.needsRehash then (i.rehash seed).2 else i) = i' at hanswered ⊢
  have hdone : i'.Runs i'.doWork.2 := Errands.run .none _
  dsimp only
  split
  · split
    · exact hanswered.trans (Errands.aside hdone _ _)
    · exact hanswered.trans hdone
  · exact hanswered

theorem runs_shutdown (i : Interner) : i.Runs i.shutdown := by
  rw [shutdown]
  split
  · exact Errands.aside .none _ _
  · exact .refl i

end Interner

namespace Session

variable {region : List ObjectId} {c : Session} {r : Registry}

/-- **Every request** comes to a sequence of errands, if the objects of the overlay are alive. -/
theorem runs_step (hlive : ∀ o ∈ c.interner.overlay.objects, c.interner.heap.isLive o = true)
    (request : Request) :
    c.interner.Runs (c.step request).2.interner := by
  cases request with
  | allocate s => exact c.interner.runs_newObject s
  | retain o =>
    rw [Session.step]
    split
    · exact c.interner.runs_retain o
    · exact .refl _
  | drop o =>
    rw [Session.step]
    split
    · exact c.interner.runs_dropReference o
    · exact .refl _
  | intern s => exact c.interner.runs_intern s
  | internObject o =>
    rw [Session.step]
    split
    · next hlive => exact Interner.runs_internObject hlive
    · exact .refl _
  | lookup s =>
    have hruns := c.interner.runs_lookup? s
    rw [Session.step]
    generalize c.interner.lookup? s = found at hruns
    obtain ⟨found | o, i⟩ := found <;> exact hruns
  | notifyDead numDead => exact .refl _
  | reportDead =>
    obtain ⟨maintenance, heq⟩ := c.interner.reportDead_eq
    show c.interner.Runs c.interner.reportDead.2
    rw [heq]
    exact .refl _
  | runPending seed => exact c.interner.runs_runPending seed
  | rehash seed => exact c.interner.runs_rehash seed
  | transferOverlay => exact Interner.runs_transferOverlay hlive
  | shutdown => exact c.interner.runs_shutdown

theorem Mirrors.errands (h : c.Mirrors region r) (request : Request) :
    c.interner.Runs (c.step request).2.interner := runs_step h.keeps.alive request

/-- No request gives the overlay an object. -/
theorem Mirrors.overlay_step (h : c.Mirrors region r) (request : Request) :
    (c.step request).2.interner.overlay.objects = c.interner.overlay.objects ∨
      (c.step request).2.interner.overlay.objects = [] := by
  cases request with
  | allocate s => exact .inl rfl
  | retain o =>
    left
    rw [Session.step]
    split <;> rfl
  | drop o =>
    left
    rw [Session.step]
    split <;> rfl
  | intern s => exact .inl (congrArg Overlay.objects (overlay_intern c.interner s))
  | internObject o =>
    left
    rw [Session.step]
    split
    · exact congrArg Overlay.objects (overlay_internObject c.interner o)
    · rfl
  | lookup s =>
    left
    have hoverlay := overlay_lookup? c.interner s
    rw [Session.step]
    generalize c.interner.lookup? s = found at hoverlay
    obtain ⟨found | o, i⟩ := found <;> exact congrArg Overlay.objects hoverlay
  | notifyDead numDead => exact .inl rfl
  | reportDead => exact .inl (congrArg Overlay.objects h.keeps.reportDead.2)
  | runPending seed => exact .inl (congrArg Overlay.objects (h.keeps.runPending seed).2)
  | rehash seed => exact .inl rfl
  | transferOverlay => exact .inr c.interner.overlay_transferOverlay
  | shutdown => exact .inl (congrArg Overlay.objects h.keeps.shutdown.2)

end Session

end WeakIntern
