import WeakIntern.Proofs.Interning
/-!
# Upkeep cannot be seen

Maintenance runs tasks on the table, and the overlay may be drained into it, at the start or later.
Neither changes an entry. A drained overlay answers for nothing; its objects are linked in the order
of the index, and those that come too late for their content find the first one in its place.
-/

namespace WeakIntern

namespace Interner

variable {i i' : Interner} {m : WeakMap}

/-! ## Draining -/

/-- An overlay that is drained leaves the table with the entries that it has. -/
theorem Keeps.drain (h : i.Keeps m) :
    Keeps { i with overlay := i.overlay.drain.2 } (m.without (i.overlay.first? i.heap)) := by
  have hnone : i.overlay.drain.2.objects = [] := rfl
  have hfirst := Overlay.first?_of_objects hnone i.heap
  constructor
  · exact h.heap
  · exact h.live.without _
  · exact h.steady
  · exact h.chunkBuckets_lt
  · exact ⟨.nil, by simp [Overlay.drain]⟩
  · intro o ho
    rw [hnone] at ho
    cases ho
  · intro s o ho
    rw [hfirst] at ho
    cases ho
  · rw [hfirst]
    exact h.table

/-- Link an object, and keep no reference to the one that stands for its content. -/
def linkOnly (i : Interner) (o : ObjectId) : Interner := (i.link o).2.dropReference (i.link o).1

/-- A transfer links all objects of the overlay, and makes a note of it. -/
theorem transferOverlay_eq (i : Interner) :
    ∃ maintenance, i.transferOverlay.2 =
      { i.overlay.objects.foldl linkOnly { i with overlay := i.overlay.drain.2 } with
        maintenance } := by
  simp only [transferOverlay]
  split <;> exact ⟨_, rfl⟩

theorem Keeps.linkOnly (h : i.Keeps m) (hdrained : i.overlay.objects = []) {o : ObjectId}
    (hlive : i.heap.isLive o = true) :
    (i.linkOnly o).Keeps (m.insert o) ∧ (i.linkOnly o).heap = i.heap ∧
      (i.linkOnly o).overlay = i.overlay := by
  have hnone := congrFun (Overlay.first?_of_objects hdrained i.heap) (i.heap.content o)
  obtain ⟨i', hlink, hkeeps, hheap, hoverlay⟩ := h.link hnone hlive
  have hnext : i.linkOnly o = i' := by
    rw [Interner.linkOnly, hlink]
    exact i'.dropReference_retain _
  rw [hnext]
  exact ⟨hkeeps, hheap, hoverlay⟩

theorem Keeps.linkAll (h : i.Keeps m) (hdrained : i.overlay.objects = []) {objects : List ObjectId}
    (hlive : ∀ o ∈ objects, i.heap.isLive o = true) :
    (objects.foldl Interner.linkOnly i).Keeps (objects.foldl WeakMap.insert m) ∧
      (objects.foldl Interner.linkOnly i).overlay = i.overlay := by
  induction objects generalizing i m with
  | nil => exact ⟨h, rfl⟩
  | cons o rest ih =>
    obtain ⟨hkeeps, hheap, hoverlay⟩ := h.linkOnly hdrained (hlive o List.mem_cons_self)
    rw [List.foldl_cons, List.foldl_cons, ← hoverlay]
    refine ih hkeeps (hoverlay ▸ hdrained) ?_
    intro p hp
    rw [hheap]
    exact hlive p (List.mem_cons_of_mem _ hp)

/-- **A transfer of the overlay** changes no entry. -/
theorem Keeps.transferOverlay (h : i.Keeps m) :
    i.transferOverlay.2.Keeps m ∧ i.transferOverlay.2.overlay.objects = [] := by
  obtain ⟨hlinked, hoverlay⟩ := h.drain.linkAll rfl h.alive
  have hrestored :
      i.overlay.objects.foldl WeakMap.insert (m.without (i.overlay.first? i.heap)) = m := by
    have hshared := h.shared
    rw [← h.heap] at hshared ⊢
    exact WeakMap.foldl_insert_without hshared
  rw [hrestored] at hlinked
  obtain ⟨maintenance, heq⟩ := i.transferOverlay_eq
  rw [heq]
  exact ⟨hlinked.congr rfl rfl rfl, congrArg Overlay.objects hoverlay⟩

/-! ## Maintenance -/

/-- A task that is run on the table moves no entry. -/
theorem Keeps.runTask (h : i.Keeps m) (kind : TaskKind) (hheap : i'.heap = i.heap)
    (hoverlay : i'.overlay = i.overlay)
    (htable : i'.table = (Task.run i.heap (.new i.table kind) i.table).table) : i'.Keeps m := by
  obtain ⟨hsteady, hchunk⟩ := Task.steady_run h.steady h.chunkBuckets_lt i.heap kind
  have hheld : (m.without (i.overlay.first? i.heap)).heap = i.heap := h.heap
  have hsame := h.table.coherent.run h.steady h.chunkBuckets_lt kind
  rw [hheld] at hsame
  refine h.of_table hheap hoverlay (htable ▸ hsteady) (htable ▸ hchunk) (h.table.of_sameObjects ?_)
  rw [hheld, htable]
  exact hsame

theorem Keeps.doWork (h : i.Keeps m) : i.doWork.2.Keeps m ∧ i.doWork.2.overlay = i.overlay :=
  ⟨h.runTask _ rfl rfl rfl, rfl⟩

/-- An alarm is answered by a task, or by nothing that the table sees. -/
theorem table_rehash (i : Interner) (seed : UInt64) :
    (i.rehash seed).2.table = i.table ∨
      (i.rehash seed).2.table = (Task.run i.heap (.new i.table (.rehash seed)) i.table).table := by
  simp only [rehash, Maintenance.rehash]
  split
  · exact .inl rfl
  · split
    · exact .inl rfl
    · right
      simp only [Maintenance.rekey]
      split <;> rfl

theorem Keeps.rehash (h : i.Keeps m) (seed : UInt64) :
    (i.rehash seed).2.Keeps m ∧ (i.rehash seed).2.overlay = i.overlay := by
  refine ⟨?_, rfl⟩
  rcases i.table_rehash seed with htable | htable
  · exact h.congr rfl htable rfl
  · exact h.runTask (.rehash seed) rfl rfl htable

/-- **Pending work** may be answered alarms, a task and a line in the log, and moves no entry. -/
theorem Keeps.runPending (h : i.Keeps m) (seed : UInt64) :
    (i.runPending seed).2.Keeps m ∧ (i.runPending seed).2.overlay = i.overlay := by
  have hanswered : (if i.maintenance.needsRehash then (i.rehash seed).2 else i).Keeps m ∧
      (if i.maintenance.needsRehash then (i.rehash seed).2 else i).overlay = i.overlay := by
    split
    · exact h.rehash seed
    · exact ⟨h, rfl⟩
  rw [Interner.runPending]
  generalize (if i.maintenance.needsRehash then (i.rehash seed).2 else i) = i' at hanswered ⊢
  obtain ⟨hkeeps, hoverlay⟩ := hanswered
  obtain ⟨hdone, hoverlay'⟩ := hkeeps.doWork
  dsimp only
  split
  · split
    · exact ⟨hdone.of_table rfl rfl (hdone.steady.congr rfl rfl rfl) rfl
        (hdone.table.congr rfl rfl), hoverlay'.trans hoverlay⟩
    · exact ⟨hdone, hoverlay'.trans hoverlay⟩
  · exact ⟨hkeeps, hoverlay⟩

theorem Keeps.notifyDead (h : i.Keeps m) (numDead : Nat) :
    (i.notifyDead numDead).2.Keeps m ∧ (i.notifyDead numDead).2.overlay = i.overlay :=
  ⟨h.congr rfl rfl rfl, rfl⟩

/-- A report ends in a note about dead strings, or in none. -/
theorem reportDead_eq (i : Interner) : ∃ maintenance, i.reportDead.2 = { i with maintenance } := by
  rw [Interner.reportDead]
  generalize i.table.cells.report i.heap = report
  obtain ⟨numDead, told⟩ := report
  dsimp only
  induction told generalizing i with
  | nil => exact ⟨_, rfl⟩
  | cons call rest ih =>
    obtain ⟨who, n⟩ := call
    rw [List.foldl_cons]
    dsimp only
    split
    · exact ih (i.notifyDead n).2
    · exact ih i

theorem Keeps.reportDead (h : i.Keeps m) : i.reportDead.2.Keeps m ∧
    i.reportDead.2.overlay = i.overlay := by
  obtain ⟨maintenance, heq⟩ := i.reportDead_eq
  rw [heq]
  exact ⟨h.congr rfl rfl rfl, rfl⟩

theorem Keeps.shutdown (h : i.Keeps m) : i.shutdown.Keeps m ∧ i.shutdown.overlay = i.overlay := by
  rw [Interner.shutdown]
  split
  · exact ⟨h.of_table rfl rfl (h.steady.congr rfl rfl rfl) rfl (h.table.congr rfl rfl), rfl⟩
  · exact ⟨h, rfl⟩

/-! ## The start -/

/-- The overlay of a snapshot, or an empty one. -/
def firstOverlay (image : Option Image) (heap : Heap) : Overlay × Heap :=
  match image with
  | some image => Overlay.ofImage heap image
  | none => ({}, heap)

/-- An interner that nothing was linked in. -/
def fresh (settings : Settings) (image : Option Image) (cells : CellStore) (heap : Heap) :
    Interner where
  heap := (firstOverlay image heap).2
  table := .ofSettings settings (cells.listen listener)
  overlay := (firstOverlay image heap).1
  maintenance := { settings, log := { options := { json := settings.jsonEvents } } }

theorem requiresTransfer_fresh (settings : Settings) (image : Image) (cells : CellStore)
    (heap : Heap) :
    (fresh settings (some image) cells heap).overlay.requiresTransfer =
      (!image.entries.isEmpty && decide (image.backing = .loaded)) := rfl

variable {settings : Settings} {image : Option Image} {cells : CellStore} {heap : Heap}

/-- An interner starts with settings that pass the check. The strings of its snapshot may have to be
transferred at once. -/
theorem start_eq_ok_iff : start settings image cells heap = .ok i ↔ settings.check = .ok () ∧
    (if (fresh settings image cells heap).overlay.requiresTransfer then
      (fresh settings image cells heap).transferOverlay.2 else fresh settings image cells heap) =
        i := by
  simp only [start]
  cases settings.check with
  | error cause => simp
  | ok _ =>
    simp only [true_and, Except.ok.injEq]
    rfl

/-- An overlay answers alone as long as nothing is linked. -/
theorem keeps_overlay {overlay : Overlay} (hindex : overlay.Indexed heap)
    (halive : ∀ o ∈ overlay.objects, heap.isLive o = true) (settings : Settings) (cells : CellStore)
    (maintenance : Maintenance) :
    Keeps { heap, table := .ofSettings settings cells, overlay, maintenance }
      { heap, entry := overlay.first? heap } := by
  have hnone : WeakMap.without { heap, entry := overlay.first? heap } (overlay.first? heap) =
      .empty heap := by
    simp only [WeakMap.without, WeakMap.empty, WeakMap.mk.injEq, true_and]
    funext s
    cases overlay.first? heap s <;> rfl
  constructor
  · rfl
  · exact WeakMap.live_first? halive
  · exact (Table.atRest_ofSettings settings cells).steady
  · exact settings.chunkBuckets.toNat_lt
  · exact hindex
  · exact halive
  · exact fun _ _ ho => ho
  · dsimp only
    rw [hnone]
    exact Table.mirrors_ofSettings settings cells heap

theorem keeps_fresh (settings : Settings) (image : Option Image) (cells : CellStore) (heap : Heap)
    (held : List ObjectId) :
    (fresh settings image cells heap).Keeps (Registry.start heap image held).map ∧
      ∀ o ∈ (fresh settings image cells heap).overlay.objects,
        o ∈ Registry.regionOf heap image := by
  cases image with
  | none =>
    have hindex : Overlay.Indexed heap {} := ⟨.nil, by simp⟩
    exact ⟨keeps_overlay hindex (by simp [Overlay.objects]) _ _ _,
      by simp [fresh, firstOverlay, Overlay.objects]⟩
  | some image =>
    exact ⟨keeps_overlay (Overlay.indexed_ofImage heap image)
      (fun o => Overlay.alive_ofImage) _ _ _,
      fun o ho => Overlay.mem_regionOf ho⟩

/-- **A started interner** keeps what the snapshot gives it, and its overlay has objects of the
snapshot only. -/
theorem keeps_start (hstart : start settings image cells heap = .ok i) (held : List ObjectId) :
    i.Keeps (Registry.start heap image held).map ∧ ∀ o ∈ i.overlay.objects,
      o ∈ Registry.regionOf heap image := by
  obtain ⟨-, rfl⟩ := start_eq_ok_iff.1 hstart
  obtain ⟨hkeeps, hobjects⟩ := keeps_fresh settings image cells heap held
  split
  · obtain ⟨hkeeps', hdrained⟩ := hkeeps.transferOverlay
    refine ⟨hkeeps', fun o ho => ?_⟩
    rw [hdrained] at ho
    cases ho
  · exact ⟨hkeeps, hobjects⟩

end Interner

end WeakIntern
