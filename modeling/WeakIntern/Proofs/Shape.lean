import Mathlib.Algebra.Order.BigOperators.Group.List
import Mathlib.Data.Set.Card
import WeakIntern.Proofs.Course
import WeakIntern.Proofs.Handover
import WeakIntern.Proofs.OnePass
import WeakIntern.Proofs.Ownership
import WeakIntern.Proofs.Redirects
import WeakIntern.Proofs.Verification
/-!
# Figures, scans and counts agree

A table counts its items as they are linked and unlinked, its shape is read off the slots, a scan
resolves them, and a lookup follows a hash. As long as no task moves slots the shape tells how many
slots are linked, how many of them are live, and how long the chains are, and the count of items is
the number of slots (`World.Figured`). While no task is under way a scan visits each live object
once, and just the contents that a lookup finds (`World.Scanned`).

A task that goes back over buckets that it has moved links a slot twice: it is counted once, and
visited twice (`scan_repeats_after_wrapped_chunk`).
-/

namespace WeakIntern

open scoped List

/-! ## What the shape is read off -/

namespace BucketFigures

theorem le_longest (buckets : List BucketFigures) (longest : Nat) :
    longest ≤ buckets.foldl (fun longest b => max longest b.length) longest ∧
      ∀ b ∈ buckets, b.length ≤ buckets.foldl (fun longest b => max longest b.length) longest := by
  induction buckets generalizing longest with
  | nil => exact ⟨Nat.le_refl _, fun _ hb => nomatch hb⟩
  | cons b rest ih =>
    obtain ⟨hle, hrest⟩ := ih (max longest b.length)
    refine ⟨Nat.le_trans (Nat.le_max_left _ _) hle, fun c hc => ?_⟩
    rcases List.mem_cons.1 hc with rfl | hc
    · exact Nat.le_trans (Nat.le_max_right _ _) hle
    · exact hrest c hc

theorem longest_eq (buckets : List BucketFigures) (longest : Nat) :
    buckets.foldl (fun longest b => max longest b.length) longest = longest ∨
      ∃ b ∈ buckets, b.length = buckets.foldl (fun longest b => max longest b.length) longest := by
  induction buckets generalizing longest with
  | nil => exact .inl rfl
  | cons b rest ih =>
    rw [List.foldl_cons]
    rcases ih (max longest b.length) with heq | ⟨c, hc, heq⟩
    · rcases Nat.le_total b.length longest with hle | hle
      · exact .inl (heq.trans (Nat.max_eq_left hle))
      · exact .inr ⟨b, List.mem_cons_self, (heq.trans (Nat.max_eq_right hle)).symm⟩
    · exact .inr ⟨c, List.mem_cons_of_mem _ hc, heq⟩

end BucketFigures

namespace Table

variable {t : Table} {heap : Heap}

theorem bucketCount_shape (t : Table) (heap : Heap) : (t.shape heap).bucketCount = t.size := by
  simp [shape, BucketFigures.summarize, Table.size, BucketArray.size]

theorem map_figures (t : Table) (heap : Heap) : t.active.buckets.toList.map (bucketFigures heap) =
    (List.range t.size).map fun i => bucketFigures heap (t.active.bucketAt i) := by
  rw [BucketArray.toList_buckets, List.map_map]
  rfl

theorem entryCount_shape (t : Table) (heap : Heap) :
    (t.shape heap).entryCount = t.active.slots.length := by
  simp only [shape, BucketFigures.summarize, map_figures, List.map_map, BucketArray.slots,
    List.length_flatMap]
  rfl

/-- The literals that are counted are the objects that a scan visits. -/
theorem literals_shape (t : Table) (heap : Heap) :
    (t.active.buckets.toList.map (bucketFigures heap)).flatMap BucketFigures.literals =
      (t.liveObjects heap).map fun o => Heap.literalSize (heap.content o) := by
  rw [List.flatMap_map, liveObjects, BucketArray.liveObjects, List.map_flatMap]
  refine List.flatMap_congr fun b _ => ?_
  rw [List.map_filterMap]
  rfl

theorem liveCount_shape (t : Table) (heap : Heap) :
    (t.shape heap).liveCount = (t.liveObjects heap).length := by
  rw [shape, BucketFigures.summarize, literals_shape]
  exact List.length_map _

theorem literalBytes_shape (t : Table) (heap : Heap) : (t.shape heap).literalBytes =
    ((t.liveObjects heap).map fun o => Heap.literalSize (heap.content o)).sum := by
  rw [shape, BucketFigures.summarize, literals_shape]

/-- No chain is longer than the greatest length. -/
theorem length_le_shape (t : Table) (heap : Heap) (i : Nat) :
    (t.active.slotsAt i).length ≤ (t.shape heap).maxBucketLength := by
  by_cases hi : i < t.size
  · have hmem : bucketFigures heap (t.active.bucketAt i) ∈ t.active.buckets.toList.map
        (bucketFigures heap) := by
      rw [map_figures]
      exact List.mem_map_of_mem (List.mem_range.2 hi)
    exact (BucketFigures.le_longest _ 0).2 _ hmem
  · rw [BucketArray.slotsAt_of_le (Nat.le_of_not_lt hi)]
    exact Nat.zero_le _

/-- And some chain is as long as that. -/
theorem exists_length_eq_shape (hpos : 0 < t.size) (heap : Heap) :
    ∃ i, i < t.size ∧ (t.active.slotsAt i).length = (t.shape heap).maxBucketLength := by
  rcases BucketFigures.longest_eq (t.active.buckets.toList.map (bucketFigures heap)) 0
    with hzero | ⟨b, hb, heq⟩
  · refine ⟨0, hpos, Nat.le_antisymm (t.length_le_shape heap 0) ?_⟩
    exact Nat.le_trans (Nat.le_of_eq hzero) (Nat.zero_le _)
  · rw [map_figures] at hb
    obtain ⟨i, hi, rfl⟩ := List.mem_map.1 hb
    exact ⟨i, List.mem_range.1 hi, heq⟩

theorem entryCount_le_shape (t : Table) (heap : Heap) :
    (t.shape heap).entryCount ≤ (t.shape heap).bucketCount * (t.shape heap).maxBucketLength := by
  rw [entryCount_shape, bucketCount_shape, BucketArray.slots, List.length_flatMap]
  refine Nat.le_trans (List.sum_le_card_nsmul _ (t.shape heap).maxBucketLength ?_) ?_
  · intro length hlength
    obtain ⟨i, -, rfl⟩ := List.mem_map.1 hlength
    exact t.length_le_shape heap i
  · rw [List.length_map, List.length_range]
    exact Nat.le_refl _

end Table

/-! ## The size of a table -/

/-- A task leaves a table that is not too large, if growth began below the greatest size. -/
theorem Layout.Fits.grown {l : Layout} {kind : TaskKind} (h : l.Fits)
    (hroom : kind = .grow → l.log2 < l.maxLog2) :
    (l.after kind).Fits := by
  cases kind with
  | grow => exact ⟨hroom rfl, h.maxLog2_le⟩
  | rehash seed => exact ⟨h.log2_le, h.maxLog2_le⟩
  | bulkDelete => exact h

theorem Task.Drives.layout_complete {task : Task} {t : Table} (h : task.Drives t) (heap : Heap) :
    (task.complete heap t).2.2.2.layout = t.layout.after task.kind := by
  obtain ⟨task', t', heq, hdrives, -, hstage⟩ := h.complete_stage heap
  rw [heq, hdrives.layout_finish, hstage.frame.layout, hstage.same.kind]

namespace World

variable {cells : CellStore} {w w' : World}

/-- The table is not too large, and a task that doubles it leaves it so. -/
structure Roomy (w : World) : Prop where
  fits : w.table.layout.Fits
  room : ∀ task ∈ w.tasks, task.isUnderWay = true → task.kind = .grow →
    w.table.layout.log2 < w.table.layout.maxLog2

theorem Roomy.of_atRest (horderly : w.Orderly) (hrest : w.table.AtRest)
    (hfits : w.table.layout.Fits) : w.Roomy where
  fits := hfits
  room task htask hunder := by
    obtain ⟨i, hi⟩ := List.mem_iff_getElem?.1 htask
    rw [horderly.idle_of_atRest hrest hi] at hunder
    cases hunder

/-- Task `i` goes on with a table of the same layout. -/
theorem Roomy.update (h : w.Roomy) {i : Nat} {task' : Task} {t' : Table}
    (hlayout : t'.layout = w.table.layout)
    (hroom : task'.kind = .grow → w.table.layout.log2 < w.table.layout.maxLog2) :
    (w.update i task' t').Roomy where
  fits := by
    show t'.layout.Fits
    rw [hlayout]
    exact h.fits
  room other hother hunder hgrow := by
    show t'.layout.log2 < t'.layout.maxLog2
    rw [hlayout]
    rcases List.mem_or_eq_of_mem_set hother with hother | rfl
    · exact h.room other hother hunder hgrow
    · exact hroom hgrow

/-- **A step of a task** leaves a table that is not too large. -/
theorem Effect.roomy {back : Bool} (heff : Effect w back w') (horderly : w.Orderly) (h : w.Roomy) :
    w'.Roomy := by
  have hnext := heff.orderly horderly
  cases heff with
  | tasks tasks horderly' hsame hnone =>
    refine ⟨h.fits, fun task' htask' hunder hgrow => ?_⟩
    obtain ⟨i, hi'⟩ := List.mem_iff_getElem?.1 htask'
    obtain ⟨task, hi⟩ := hnone i task' hi' hunder
    obtain ⟨state, hsome, hstate, -⟩ := hsame i task hi
    cases Option.some.inj (hi'.symm.trans hsome)
    exact h.room task (List.mem_of_getElem? hi) (hstate ▸ hunder) hgrow
  | prepared i task task' t' hi hrest hprepare hdrives =>
    obtain ⟨-, -, hgrows, rfl, rfl⟩ := Task.prepare_eq_some hprepare
    refine h.update rfl fun hgrow => ?_
    have hlt := hgrows hgrow
    rwa [Table.isMaxSize, decide_eq_false_iff_not, Nat.not_le] at hlt
  | chunk i task hi hrunning hdrives =>
    have hstage := hdrives.processChunk_stage w.heap
    refine h.update hstage.frame.layout fun hgrow => ?_
    rw [hstage.same.kind] at hgrow
    exact h.room task (List.mem_of_getElem? hi) hdrives.underWay hgrow
  | commit i task hi hrunning hdrives hend =>
    have hroom := h.room task (List.mem_of_getElem? hi) hdrives.underWay
    refine .of_atRest hnext hdrives.atRest_finish ?_
    show Layout.Fits (task.finish w.table).2.2.layout
    rw [hdrives.layout_finish]
    exact h.fits.grown hroom
  | abandon i task hi hdrives =>
    have hroom := h.room task (List.mem_of_getElem? hi) hdrives.underWay
    refine .of_atRest hnext (hdrives.atRest_abandon w.heap).1 ?_
    show Layout.Fits (task.abandon w.heap w.table).layout
    rw [Task.abandon_eq hdrives, hdrives.resumed.layout_complete]
    exact h.fits.grown hroom

theorem Roomy.pass (h : w.Roomy) (horderly : w.Orderly) (o : ObjectId) (ref : WeakRef) :
    (w.pass o ref).1.Roomy := by
  have hlayout := (Table.insertIfAbsent_inserted horderly.formed w.heap o ref).sameFrame.layout
  refine ⟨?_, fun task htask hunder hgrow => ?_⟩
  · show Layout.Fits (w.table.insertIfAbsent w.heap o ref).2.layout
    rw [hlayout]
    exact h.fits
  · show (w.table.insertIfAbsent w.heap o ref).2.layout.log2 <
      (w.table.insertIfAbsent w.heap o ref).2.layout.maxLog2
    rw [hlayout]
    exact h.room task htask hunder hgrow

theorem Roomy.move (h : w.Roomy) (horderly : w.Orderly) (m : Move) : (w.move m).1.Roomy := by
  cases m with
  | act action =>
    cases htask : action.isTask with
    | true => exact (horderly.step_task htask).roomy horderly h
    | false =>
      cases action with
      | insert o =>
        rw [World.move, World.step]
        split
        · exact Roomy.pass (w := { w with table := (w.table.acquire o).2 }) ⟨h.fits, h.room⟩
            (horderly.congr _ _ _ _) o _
        · exact h
      | allocate | retain | drop | get => exact ⟨h.fits, h.room⟩
      | create | prepare | chunk | pause | resume | commit | abandon => cases htask
  | acquire o =>
    rw [World.move]
    split
    · exact ⟨h.fits, h.room⟩
    · exact h
  | offer o ref =>
    rw [World.move]
    split
    · exact Roomy.pass (w := { w with spare := w.spare.erase ref }) ⟨h.fits, h.room⟩
        (horderly.congr _ _ _ _) o ref
    · exact h

/-- A task that is run leaves a table that is not too large. -/
theorem Roomy.runTask (h : w.Roomy) (horderly : w.Orderly) (kind : TaskKind) :
    Roomy { w with table := (Task.run w.heap (.new w.table kind) w.table).table } := by
  cases howned : w.table.owned with
  | true =>
    rw [Task.run_of_owned howned]
    exact h
  | false =>
    have hrest := horderly.atRest_of_free howned
    refine .of_atRest (horderly.runTask kind)
      (Task.atRest_run hrest horderly.chunkBuckets_lt w.heap kind).1 ?_
    show (Task.run w.heap (.new w.table kind) w.table).table.layout.Fits
    rw [Task.run]
    cases hprepare : (Task.new w.table kind).prepare w.table with
    | none => exact h.fits
    | some pair =>
      obtain ⟨task', t'⟩ := pair
      have hdrives := Task.drives_prepare_new hprepare hrest horderly.chunkBuckets_lt
      obtain ⟨-, -, hgrows, rfl, rfl⟩ := Task.prepare_eq_some hprepare
      show (Task.complete w.heap _ _).2.2.2.layout.Fits
      rw [hdrives.layout_complete]
      refine Layout.Fits.grown h.fits fun hgrow => ?_
      have hlt := hgrows hgrow
      rwa [Table.isMaxSize, decide_eq_false_iff_not, Nat.not_le] at hlt

/-- **Errands** leave a table that is not too large. -/
theorem Roomy.errands (h : w.Roomy) (horderly : w.Orderly) {heap : Heap} {t : Table}
    (herrands : Errands w.heap w.table heap t) : Roomy { w with heap, table := t } := by
  induction herrands with
  | none => exact h
  | later before hlater ih => exact ⟨ih.fits, ih.room⟩
  | @link heap t o before hlive ih =>
    have hroomy := Roomy.pass (w := { w with heap, table := (t.acquire o).2 }) ⟨ih.fits, ih.room⟩
      ((horderly.errands before).congr _ _ _ _) o (t.acquire o).1
    exact ⟨hroomy.fits, hroomy.room⟩
  | run before kind ih => exact ih.runTask (horderly.errands before) kind
  | aside before listener notices ih => exact ⟨ih.fits, ih.room⟩

theorem roomy_run {settings : Settings} (hcheck : settings.check = .ok ()) (cells : CellStore)
    (heap : Heap) (moves : List Move) : ((start settings cells heap).run moves).Roomy := by
  have hstart : (start settings cells heap).Roomy :=
    ⟨Workshop.fits_firstLayout hcheck, fun _ htask => nomatch htask⟩
  have horderly := orderly_start settings cells heap
  generalize start settings cells heap = w at hstart horderly ⊢
  induction moves generalizing w with
  | nil => exact hstart
  | cons m rest ih => exact ih _ (hstart.move horderly m) (horderly.move m)

/-! ## Tidy worlds -/

/-- **Every move leaves a world tidy**, unless it takes a task back or links an object under a
reference to another one. -/
theorem Tidy.move (h : w.Tidy cells) {m : Move} (hown : m.Own) (hback : w.goesBack m = false) :
    (w.move m).1.Tidy cells := by
  cases m with
  | act action =>
    cases htask : action.isTask with
    | true => exact (h.kept.orderly.step_task htask).tidy h hback
    | false =>
      cases action with
      | allocate s => exact h.later (w.heap.later_alloc s)
      | retain o => exact h.later (w.heap.later_retain o)
      | drop o => exact h.later (w.heap.later_drop o)
      | insert o =>
        rw [World.move, World.step]
        split
        · next hlive => exact h.insert hlive
        · exact h
      | get key => exact h
      | create | prepare | chunk | pause | resume | commit | abandon => cases htask
  | acquire o =>
    rw [World.move]
    split
    · next hlive => exact h.acquire hlive
    · exact h
  | offer o ref =>
    rw [World.move]
    split
    · next hoffered =>
      rw [Bool.and_eq_true, List.contains_iff_mem] at hoffered
      have hspare : Tidy cells { w with spare := ref :: w.spare.erase ref } :=
        ⟨h.kept.respare (List.perm_cons_erase hoffered.2), h.coherent, h.sole⟩
      exact Tidy.pass (w := { w with spare := w.spare.erase ref }) hspare hoffered.1 hown
    · exact h

theorem Tidy.run (h : w.Tidy cells) {moves : List Move} (hown : ∀ m ∈ moves, m.Own)
    (hback : w.neverGoesBack moves = true) :
    (w.run moves).Tidy cells := by
  induction moves generalizing w with
  | nil => exact h
  | cons m rest ih =>
    rw [neverGoesBack, Bool.and_eq_true, Bool.not_eq_true'] at hback
    exact ih (h.move (hown m List.mem_cons_self) hback.1) (fun m hm => hown m (.tail _ hm)) hback.2

/-! ## The story they tell -/

/-- The figures of a table in which no slots are being moved. -/
structure Figured (w : World) : Prop where
  entryCount : (w.table.shape w.heap).entryCount = w.table.linked.length
  /-- Items are counted in 64 bits. -/
  itemCount : w.table.itemCount = (w.table.shape w.heap).entryCount % 2 ^ 64
  liveCount : (w.table.shape w.heap).liveCount = w.table.linked.countP fun slot =>
    w.heap.isLive slot.ref.referent
  deadCount : (w.table.shape w.heap).entryCount - (w.table.shape w.heap).liveCount =
    w.table.linked.countP fun slot => slot.ref.isDead w.heap
  /-- A live string takes 40 bytes, and those of its characters up to the next multiple of eight. -/
  literalBytes : (w.table.shape w.heap).literalBytes =
    ((w.table.linked.filter fun slot => w.heap.isLive slot.ref.referent).map fun slot =>
      40 + ((utf8Bytes (w.heap.content slot.ref.referent)).length + 7) / 8 * 8).sum
  /-- The greatest length is that of the longest chain. -/
  longest : IsGreatest {length | ∃ i, i < w.table.size ∧ (w.table.active.slotsAt i).length = length}
    (w.table.shape w.heap).maxBucketLength
  entryCount_le : (w.table.shape w.heap).entryCount ≤
    (w.table.shape w.heap).bucketCount * (w.table.shape w.heap).maxBucketLength

/-- What a scan visits. -/
structure Scanned (w : World) (objects : List ObjectId) : Prop where
  /-- Each live object that is linked is visited once, and nothing else is. -/
  count_eq : ∀ o, objects.count o =
    if w.heap.isLive o = true ∧ ∃ slot ∈ w.table.linked, slot.ref.referent = o then 1 else 0
  /-- No content is visited twice. -/
  nodup : (objects.map w.heap.content).Nodup
  /-- The contents are those that a lookup finds. -/
  get : ∀ s, s ∈ objects.map w.heap.content ↔ (w.table.get? w.heap (.text s)).value.isSome = true
  liveCount : (w.table.shape w.heap).liveCount = objects.length
  ncard : {s | (w.table.get? w.heap (.text s)).value.isSome = true}.ncard =
    (w.table.shape w.heap).liveCount

theorem liveObjects_still (hstill : w.table.Still) : w.table.liveObjects w.heap =
    (w.table.linked.filter fun slot => w.heap.isLive slot.ref.referent).map fun slot =>
      slot.ref.referent := by
  rw [Table.liveObjects_eq hstill, Table.linkedRefs, List.filterMap_map, ← List.filterMap_eq_map,
    ← List.filterMap_eq_filter, List.filterMap_filterMap]
  refine List.filterMap_congr fun slot _ => ?_
  simp only [Function.comp, WeakRef.resolve?, Option.guard]
  split <;> rfl

theorem Tidy.figured (h : w.Tidy cells) (hnone : ∀ task ∈ w.tasks, task.isMoving = false) :
    w.Figured := by
  have hstill := h.kept.orderly.still hnone
  have hlinked := Table.linked_still hstill
  have hlive := liveObjects_still hstill
  have hentries : (w.table.shape w.heap).entryCount = w.table.linked.length := by
    rw [Table.entryCount_shape, hlinked]
  have hlives : (w.table.shape w.heap).liveCount = w.table.linked.countP fun slot =>
      w.heap.isLive slot.ref.referent := by
    rw [Table.liveCount_shape, hlive, List.length_map, List.countP_eq_length_filter]
  constructor
  · exact hentries
  · rw [hentries, Table.itemCount, h.kept.items]
    exact UInt64.toNat_ofNat
  · exact hlives
  · have hsplit :=
      List.length_eq_countP_add_countP (fun slot : Slot => w.heap.isLive slot.ref.referent)
        (l := w.table.linked)
    have hdead :
        w.table.linked.countP (fun slot => decide ¬ w.heap.isLive slot.ref.referent = true) =
        w.table.linked.countP fun slot => slot.ref.isDead w.heap :=
      List.countP_congr fun slot _ => by simp [WeakRef.isDead]
    omega
  · rw [Table.literalBytes_shape, hlive, List.map_map]
    rfl
  · refine ⟨Table.exists_length_eq_shape h.kept.orderly.sized.pos w.heap, ?_⟩
    rintro length ⟨i, -, rfl⟩
    exact w.table.length_le_shape w.heap i
  · exact w.table.entryCount_le_shape w.heap

theorem Tidy.scanned (h : w.Tidy cells) (hrest : w.table.AtRest) :
    w.Scanned (w.table.liveObjects w.heap) := by
  have hstill := hrest.still
  have hmem : ∀ {o}, o ∈ w.table.liveObjects w.heap ↔ w.table.Holds w.heap o :=
    Table.mem_liveObjects_iff hstill
  have hnodup := Table.nodup_contents_liveObjects hstill h.coherent h.sole
  have hget : ∀ s, s ∈ (w.table.liveObjects w.heap).map w.heap.content ↔
      (w.table.get? w.heap (.text s)).value.isSome = true := by
    intro s
    rw [List.mem_map, Option.isSome_iff_exists]
    refine exists_congr fun o => ?_
    rw [hmem, h.coherent.get?_eq_some_iff h.kept.orderly.formed]
    rfl
  have hlength := Table.liveCount_shape w.table w.heap
  refine ⟨fun o => ?_, hnodup, hget, hlength, ?_⟩
  · have hiff : o ∈ w.table.liveObjects w.heap ↔
        w.heap.isLive o = true ∧ ∃ slot ∈ w.table.linked, slot.ref.referent = o := by
      rw [liveObjects_still hstill, List.mem_map]
      constructor
      · rintro ⟨slot, hslot, rfl⟩
        exact ⟨(List.mem_filter.1 hslot).2, slot, (List.mem_filter.1 hslot).1, rfl⟩
      · rintro ⟨hlive, slot, hslot, rfl⟩
        exact ⟨slot, List.mem_filter.2 ⟨hslot, hlive⟩, rfl⟩
    rw [(List.Nodup.of_map _ hnodup).count]
    simp only [hiff]
  · have hset : {s | (w.table.get? w.heap (.text s)).value.isSome = true} =
        ((w.table.liveObjects w.heap).map w.heap.content).toFinset := by
      ext s
      rw [Set.mem_ofPred_eq, ← hget, List.coe_toFinset, Set.mem_ofPred_eq]
    rw [hset, Set.ncard_coe_finset, List.toFinset_card_of_nodup hnodup, hlength, List.length_map]

/-- A scan waits for the task that is under way. -/
theorem Orderly.scan?_eq_none_iff (h : w.Orderly) :
    w.table.scan? w.heap = none ↔ ∃ task ∈ w.tasks, task.isUnderWay = true := by
  rw [← h.owned_iff, Table.scan?]
  cases w.table.owned <;> simp

/-- **Figures, scans and counts agree** after all moves of all kinds, if inserts took references of
their own and no task went back. -/
theorem figures_agree (settings : Settings) (cells : CellStore) (heap : Heap) (moves : List Move)
    (hown : ∀ move ∈ moves, move.Own) :
    let w := (start settings cells heap).run moves
    (settings.check = .ok () → (w.table.shape w.heap).bucketCount = 2 ^ w.table.log2) ∧
      (w.table.scan? w.heap = none ↔ ∃ task ∈ w.tasks, task.isUnderWay = true) ∧
      ((start settings cells heap).neverGoesBack moves = true →
        ((∀ task ∈ w.tasks, task.isMoving = false) → w.Figured) ∧
          ∀ objects, w.table.scan? w.heap = some objects → w.Scanned objects) := by
  intro w
  have horderly : w.Orderly := orderly_run settings cells heap moves
  refine ⟨fun hcheck => ?_, horderly.scan?_eq_none_iff, fun hback => ?_⟩
  · have hroomy : w.Roomy := roomy_run hcheck cells heap moves
    rw [Table.bucketCount_shape, Table.size_eq horderly.sized hroomy.fits]
    rfl
  · have htidy : w.Tidy cells := (tidy_start settings cells heap).run hown hback
    refine ⟨htidy.figured, fun objects hscan => ?_⟩
    rw [Table.scan?] at hscan
    split at hscan
    · cases hscan
    · next hfree =>
      rw [← Option.some.inj hscan]
      exact htidy.scanned (horderly.atRest_of_free (Bool.eq_false_of_not_eq_true hfree))

/-- Three strings in two buckets, and a second one dies while the buckets are cleaned of the
first. -/
def cleaningMoves : List Move :=
  threeStrings ++ [.act (.create .bulkDelete (some 1)), .act (.prepare 0), .act (.chunk 0),
    .act (.drop ⟨1⟩)]

/-- While the table is cleaned its figures are right, and a scan has to wait; afterwards the dead
string that was met too late is still counted. -/
theorem figures_agree_around_cleaning :
    let settings : Settings := { initialSize := 2, maxLog2 := 4 }
    let w := (start settings { name := "cells" } {}).run cleaningMoves
    let w' := (start settings { name := "cells" } {}).run (cleaningMoves ++ [.act (.abandon 0)])
    (w.table.shape w.heap).entryCount = 3 ∧ (w.table.shape w.heap).liveCount = 1 ∧ w.Figured ∧
      w.table.scan? w.heap = none ∧
      (w'.table.shape w'.heap).bucketCount = 2 ^ w'.table.log2 ∧ w'.table.itemCount = 2 ∧
      w'.Figured ∧
      w'.table.scan? w'.heap = some [⟨2⟩] ∧ w'.Scanned [⟨2⟩] := by
  intro settings w w'
  have hcheck : ({ initialSize := 2, maxLog2 := 4 } : Settings).check = .ok () := rfl
  have hown : ∀ move ∈ cleaningMoves, move.Own := by simp [cleaningMoves, threeStrings, Move.Own]
  have hown' : ∀ move ∈ cleaningMoves ++ [.act (.abandon 0)], move.Own := by
    simp [cleaningMoves, threeStrings, Move.Own]
  obtain ⟨-, hwaits, hmidway⟩ := figures_agree settings { name := "cells" } {} cleaningMoves hown
  obtain ⟨hbuckets, -, hafter⟩ :=
    figures_agree settings { name := "cells" } {} (cleaningMoves ++ [.act (.abandon 0)]) hown'
  have hfigured := (hmidway (by decide)).1 (by decide)
  obtain ⟨hfigured', hscanned⟩ := hafter (by decide)
  have hscan : w'.table.scan? w'.heap = some [⟨2⟩] := by decide
  exact ⟨by decide, by decide, hfigured, hwaits.2 (by decide), hbuckets hcheck, by decide,
    hfigured' (by decide), hscan, hscanned _ hscan⟩

/-- A task with very large chunks is asked for two chunks more after its last bucket. -/
def relinkingMoves : List Move :=
  beforeWrapping ++ [.act (.prepare 0)] ++ duringWrapping ++ [.act (.commit 0)]

/-- The one string is linked twice and counted once, and a scan visits it twice. -/
theorem scan_repeats_after_wrapped_chunk :
    let w := (start oneBucket { name := "cells" } {}).run relinkingMoves
    (∀ move ∈ relinkingMoves, move.Own) ∧ (∀ task ∈ w.tasks, task.isMoving = false) ∧
      (w.table.shape w.heap).entryCount = 2 ∧ w.table.itemCount = 1 ∧ ¬ w.Figured ∧
      w.table.scan? w.heap = some [⟨0⟩, ⟨0⟩] ∧ ¬ w.Scanned [⟨0⟩, ⟨0⟩] := by
  intro w
  have hentries : (w.table.shape w.heap).entryCount = 2 := by decide
  have hitems : w.table.itemCount = 1 := by decide
  refine ⟨by simp [relinkingMoves, beforeWrapping, duringWrapping, Move.Own], by decide, hentries,
    hitems, fun h => ?_, by decide,
    fun h => ?_⟩
  · have hcount := h.itemCount
    rw [hentries, hitems] at hcount
    cases hcount
  · have honce := h.count_eq ⟨0⟩
    split at honce <;> simp at honce

end World

end WeakIntern
