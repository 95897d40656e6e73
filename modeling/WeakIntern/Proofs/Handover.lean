import WeakIntern.Proofs.Addresses
import WeakIntern.Proofs.RoundTrip
import WeakIntern.Proofs.Workshop
/-!
# From one interner to the next

An interner can write a snapshot of itself, and another one can be started with it. What is handed
over are the strings that the first one has at that time, those of its overlay and the live ones of
its table, and nothing else (`handed_over`): neither a string that died nor one that was drained and
is in the table now comes twice, whatever hash the table is under and whatever was done to it. The
second interner never forgets them.
-/

namespace WeakIntern

open SnapshotDraft

namespace Table

variable {heap : Heap} {t t' : Table} {o : ObjectId}

/-- While no task is under way, the live objects are all that the table holds. -/
theorem mem_liveObjects_iff (hstill : t.Still) : o ∈ t.liveObjects heap ↔ t.Holds heap o := by
  constructor
  · exact holds_of_mem_liveObjects
  · intro hholds
    obtain ⟨hlive, i, slot, hslot, rfl⟩ := (holds_still hstill).1 hholds
    rw [liveObjects, BucketArray.liveObjects_eq]
    exact List.mem_filterMap.2 ⟨slot, BucketArray.mem_slots.2 ⟨i, hslot⟩,
      resolve?_eq_some_iff.2 ⟨rfl, hlive⟩⟩

end Table

namespace Interner

/-- The interner has a string: an object of its overlay or a live object in its table is one for
it. -/
def Has (i : Interner) (s : String) : Prop :=
  ∃ o, (o ∈ i.overlay.objects ∨ i.table.Holds i.heap o) ∧ i.heap.content o = s

variable {i : Interner} {m : WeakMap}

theorem mem_contents_visibleObjects (hstill : i.table.Still) {s : String} :
    s ∈ i.contents i.visibleObjects ↔ i.Has s := by
  simp only [contents, visibleObjects, List.mem_map, List.mem_append,
    Table.mem_liveObjects_iff hstill, Has]

/-! ## Counting what is linked -/

/-- An object whose content is new is one item more. -/
theorem Keeps.items_linkOnly (h : i.Keeps m) (hdrained : i.overlay.objects = []) {o : ObjectId}
    (hlive : i.heap.isLive o = true) (hnone : m.entry (i.heap.content o) = none) :
    (i.linkOnly o).table.items = i.table.items + 1 := by
  have hheld : (m.without (i.overlay.first? i.heap)).heap = i.heap := h.heap
  have hfirst := congrFun (Overlay.first?_of_objects hdrained i.heap) (i.heap.content o)
  have hsteady : (i.table.acquire o).2.Steady := h.steady.congr rfl rfl rfl
  have hmirrors : (i.table.acquire o).2.Mirrors (m.without (i.overlay.first? i.heap)) :=
    h.table.congr rfl rfl
  have href : (i.table.acquire o).1.referent = o := rfl
  have hplaced := (hmirrors.insert hsteady.formed hsteady.sized (hheld.symm ▸ hlive) href).2
  rw [WeakMap.placement, hheld, WeakMap.entry_without hfirst, hnone] at hplaced
  have hins := Table.insertIfAbsent_inserted hsteady.formed i.heap o (i.table.acquire o).1
  have hrecorded := hins.recorded hsteady.formed hsteady.sized
  rw [hplaced] at hrecorded
  exact hrecorded.2.2

/-- Objects with different contents that are new are as many items more. -/
theorem Keeps.items_linkAll (h : i.Keeps m) (hdrained : i.overlay.objects = [])
    {objects : List ObjectId} (hlive : ∀ o ∈ objects, i.heap.isLive o = true)
    (hdistinct : (i.contents objects).Nodup)
    (hnone : ∀ o ∈ objects, m.entry (i.heap.content o) = none) :
    (objects.foldl Interner.linkOnly i).table.items = i.table.items + .ofNat objects.length := by
  induction objects generalizing i m with
  | nil => simp
  | cons o rest ih =>
    obtain ⟨hfirst, hrest⟩ := List.nodup_cons.1 hdistinct
    have hitems :=
      h.items_linkOnly hdrained (hlive o List.mem_cons_self) (hnone o List.mem_cons_self)
    obtain ⟨hkeeps, hheap, hoverlay⟩ := h.linkOnly hdrained (hlive o List.mem_cons_self)
    have hall :=
      ih hkeeps (hoverlay ▸ hdrained)
        (fun p hp => by rw [hheap]; exact hlive p (List.mem_cons_of_mem _ hp))
      (by rw [contents, hheap]; exact hrest) ?_
    · rw [List.foldl_cons, hall, hitems, List.length_cons, Nat.add_comm, UInt64.ofNat_add,
        ← UInt64.add_assoc]
      rfl
    · intro p hp
      have hne : i.heap.content p ≠ i.heap.content o :=
        fun heq => hfirst (heq ▸ List.mem_map_of_mem hp)
      rw [hheap, WeakMap.entry_insert, h.heap, if_neg hne]
      exact hnone p (List.mem_cons_of_mem _ hp)

/-- **A transfer** links each object of the overlay, if they have different contents. -/
theorem Keeps.items_transferOverlay (h : i.Keeps m)
    (hdistinct : (i.contents i.overlay.objects).Nodup) :
    i.transferOverlay.2.table.items = i.table.items + .ofNat i.overlay.objects.length := by
  have hnone : ∀ o ∈ i.overlay.objects,
      (m.without (i.overlay.first? i.heap)).entry (i.heap.content o) = none := by
    intro o ho
    have hsome : (i.overlay.first? i.heap (i.heap.content o)).isSome = true := by
      rw [Overlay.first?, List.find?_isSome]
      exact ⟨o, ho, beq_self_eq_true _⟩
    simp only [WeakMap.without, hsome, if_true]
  obtain ⟨maintenance, heq⟩ := i.transferOverlay_eq
  rw [heq]
  exact h.drain.items_linkAll rfl h.alive hdistinct hnone

/-! ## The second interner -/

/-- What an interner has of a snapshot of some strings. -/
structure TakesOver (i : Interner) (backing : Backing) (heap : Heap)
    (strings : List String) : Prop where
  /-- A lookup answers for the strings, and for no others. -/
  lookup : ∀ s, (i.lookup? s).1.map i.heap.content = if s ∈ strings then some s else none
  loaded : backing = .loaded →
    i.overlay.isEmpty = true ∧ (i.overlay.drained = true ↔ strings ≠ []) ∧
    i.table.itemCount = strings.length
  mapped : backing = .mapped →
    i.overlay.entryCount = strings.length ∧ i.overlay.drained = false ∧ i.table.itemCount = 0
  /-- Whatever is asked of it, and whatever its callers do with tasks, it has them for good. -/
  stays : ∀ held : List ObjectId, (∀ o, held.count o ≤ heap.refs o) → ∀ deeds, ∀ s ∈ strings,
    let later := (Workshop.run { session := { interner := i, held } } deeds).session.interner
    (later.lookup? s).1.map later.heap.content = some s

/-- The interner can be archived, and whoever starts with the archive has its strings, no more and
no fewer. -/
def HandsOver (i : Interner) (addressing : Addressing) : Prop :=
  ∃ bytes, i.archive addressing = .ok bytes ∧ ∀ backing, ∃ image,
    Image.read backing bytes = .ok image ∧
    image.records.toList.Nodup ∧ (∀ s, s ∈ image.records.toList ↔ i.Has s) ∧
    ∀ settings cells heap, settings.check = .ok () →
      ∃ next, start settings (some image) cells heap = .ok next ∧
      next.TakesOver backing heap image.records.toList

variable {settings : Settings} {image : Image} {cells : CellStore} {heap : Heap}
    {draft : SnapshotDraft}
  {backing : Backing}

/-- A string of the snapshot has an object in the overlay. -/
theorem first?_of_imaged (himaged : draft.Imaged backing image) (heap : Heap) {s : String}
    (hs : s ∈ draft.strings.toList) :
    ∃ o, (Overlay.ofImage heap image).1.first? (Overlay.ofImage heap image).2 s = some o := by
  have hlookup := Image.lookup?_of_imaged himaged heap s
  rw [(Overlay.indexed_ofImage heap image).lookup?_eq, if_pos hs] at hlookup
  obtain ⟨o, ho, -⟩ := Option.map_eq_some_iff.1 hlookup
  exact ⟨o, ho⟩

/-- **What comes from a snapshot stays**, whatever is done to the interner. -/
theorem stays_of_imaged (himaged : draft.Imaged backing image)
    (hstart : start settings (some image) cells heap = .ok i) {held : List ObjectId}
    (hheld : ∀ o, held.count o ≤ heap.refs o) (deeds : List Deed) {s : String}
    (hs : s ∈ draft.strings.toList) :
    let later := (Workshop.run { session := { interner := i, held } } deeds).session.interner
    (later.lookup? s).1.map later.heap.content = some s := by
  have hbegun := Workshop.minded_start hstart hheld
  obtain ⟨hmirrors, -⟩ := hbegun.run deeds
  obtain ⟨o, hfirst⟩ := first?_of_imaged himaged heap hs
  have hentry :=
    hbegun.mirrors.sound.entry_run (Overlay.mem_regionOf (Overlay.mem_of_first? hfirst)) hfirst
    (deeds.filterMap Deed.request?)
  dsimp only
  rw [(hmirrors.keeps.lookup? s).1, hentry, Option.map_some, ← hmirrors.keeps.heap,
    (hmirrors.sound.live s o hentry).2]

theorem lookup_of_imaged (himaged : draft.Imaged backing image)
    (hstart : start settings (some image) cells heap = .ok i) (s : String) :
    (i.lookup? s).1.map i.heap.content = if s ∈ draft.strings.toList then some s else none := by
  have hkeeps := (keeps_start hstart []).1
  have hfirst :
      (i.lookup? s).1 = (Overlay.ofImage heap image).1.first? (Overlay.ofImage heap image).2 s :=
    (hkeeps.lookup? s).1
  have hheap : (Overlay.ofImage heap image).2 = i.heap := hkeeps.heap
  rw [hfirst, ← hheap, ← (Overlay.indexed_ofImage heap image).lookup?_eq]
  exact Image.lookup?_of_imaged himaged heap s

theorem length_of_imaged (himaged : draft.Imaged backing image) (heap : Heap) :
    image.entries.size = draft.strings.toList.length ∧
      (Overlay.ofImage heap image).1.objects.length = draft.strings.toList.length := by
  constructor
  · rw [← Array.length_toList, himaged.entries.length_eq, length_entriesFrom]
  · rw [← (Image.contents_of_imaged himaged heap).length_eq, List.length_map]

/-- Strings that may move are linked in the table, one item each. -/
theorem itemCount_of_imaged (himaged : draft.Imaged backing image) (hwritten : image.Written)
    (hsmall : draft.strings.toList.length < 2 ^ 64) (settings : Settings) (cells : CellStore)
    (heap : Heap) :
    (fresh settings (some image) cells heap).transferOverlay.2.table.itemCount =
      draft.strings.toList.length := by
  obtain ⟨hkeeps, -⟩ := keeps_fresh settings (some image) cells heap []
  have hitems := hkeeps.items_transferOverlay (Overlay.nodup_contents_ofImage hwritten heap)
  have hlength : (fresh settings (some image) cells heap).overlay.objects.length =
      draft.strings.toList.length :=
    (length_of_imaged himaged heap).2
  have hzero : (fresh settings (some image) cells heap).table.items = 0 := rfl
  rw [Table.itemCount, hitems, hlength, hzero, UInt64.zero_add, UInt64.toNat_ofNat_of_lt' hsmall]

/-- **The second interner** has what the snapshot was made of: in its table if the strings had to be
transferred, and in its overlay otherwise. -/
theorem takesOver_of_imaged (himaged : draft.Imaged backing image) (hwritten : image.Written)
    (hsmall : draft.strings.toList.length < 2 ^ 64) (hcheck : settings.check = .ok ())
    (cells : CellStore) (heap : Heap) : ∃ next, start settings (some image) cells heap = .ok next ∧
      next.TakesOver backing heap draft.strings.toList := by
  have hstart : start settings (some image) cells heap = .ok _ := start_eq_ok_iff.2 ⟨hcheck, rfl⟩
  refine ⟨_, hstart, lookup_of_imaged himaged hstart, ?_, ?_,
    fun held hheld deeds s => stays_of_imaged himaged hstart hheld deeds⟩
  · intro hbacking
    have hsize := (length_of_imaged himaged heap).1
    rw [requiresTransfer_fresh, himaged.backing, hbacking]
    cases hempty : image.entries.isEmpty with
    | true =>
      have hnil : draft.strings.toList = [] := by
        rw [Array.isEmpty_iff_size_eq_zero, hsize] at hempty
        exact List.length_eq_zero_iff.1 hempty
      rw [hnil]
      exact ⟨hempty, ⟨fun hdrained => (by cases hdrained), fun hne => absurd rfl hne⟩, rfl⟩
    | false =>
      have hne : draft.strings.toList ≠ [] := by
        intro hnil
        rw [hnil, List.length_nil, ← Array.isEmpty_iff_size_eq_zero, hempty] at hsize
        cases hsize
      show (fresh settings (some image) cells heap).transferOverlay.2.overlay.isEmpty = true ∧
        ((fresh settings (some image) cells heap).transferOverlay.2.overlay.drained = true ↔ _) ∧
        (fresh settings (some image) cells heap).transferOverlay.2.table.itemCount = _
      rw [overlay_eq_drain]
      exact ⟨rfl, ⟨fun _ => hne, fun _ => rfl⟩,
        itemCount_of_imaged himaged hwritten hsmall settings cells heap⟩
  · intro hbacking
    rw [requiresTransfer_fresh, himaged.backing, hbacking, Bool.and_comm]
    exact ⟨(length_of_imaged himaged heap).1, rfl, rfl⟩

/-! ## The first interner -/

/-- An interner can be archived, and the archive is read as an image of its strings, if they are not
too long for a snapshot. -/
theorem archive_of_lt
    (hregion : (regionBytes (i.contents i.visibleObjects).eraseDups).length < 2 ^ 32)
    (addressing : Addressing) :
    ∃ bytes, i.archive addressing = .ok bytes ∧ ∀ backing, ∃ image,
      Image.read backing bytes = .ok image ∧
      (ofList addressing (i.contents i.visibleObjects)).Imaged backing image ∧ image.Written := by
  obtain ⟨bytes, hencode⟩ : ∃ bytes, (ofList addressing (i.contents i.visibleObjects)).encode =
      .ok bytes :=
    encode_of_lt (by rwa [strings_ofList])
  refine ⟨bytes, hencode, fun backing => ?_⟩
  obtain ⟨image, hread, himaged⟩ := imaged_ofBytes hencode backing
  exact ⟨image, Image.read_eq_ok_iff.2 hread, himaged,
    ⟨addressing, _, bytes, hencode, himaged.backing.symm ▸ hread⟩⟩

/-- **An interner hands over its strings**, whenever no task is under way and they are not too long
for a snapshot. -/
theorem Keeps.handsOver (h : i.Keeps m) (hfree : i.table.owned = false)
    (hregion : (regionBytes (i.contents i.visibleObjects).eraseDups).length < 2 ^ 32)
    (addressing : Addressing) :
    i.HandsOver addressing := by
  have hstill := (h.steady.rest hfree).still
  have hstrings := strings_ofList addressing (i.contents i.visibleObjects)
  have hcount := length_le_regionBytes (i.contents i.visibleObjects).eraseDups
  obtain ⟨bytes, harchive, hread⟩ := archive_of_lt hregion addressing
  refine ⟨bytes, harchive, fun backing => ?_⟩
  obtain ⟨image, hread, himaged, hwritten⟩ := hread backing
  have hrecords : image.records.toList = (i.contents i.visibleObjects).eraseDups := by
    rw [himaged.records, hstrings]
  refine ⟨image, hread, ?_, fun s => ?_, fun settings cells heap hcheck => ?_⟩
  · rw [hrecords, ← hstrings]
    exact nodup_ofList addressing _
  · rw [hrecords, List.mem_eraseDups, mem_contents_visibleObjects hstill]
  · rw [hrecords, ← hstrings]
    exact takesOver_of_imaged himaged hwritten (by rw [hstrings]; omega) hcheck cells heap

end Interner

namespace Workshop

/-- **What an interner has is handed over**, in either addressing: of an interner that was started
with any settings that it accepts and any snapshot, after anything was asked of it and anything was
done by tasks, while none is under way. -/
theorem handed_over {settings : Settings} {image : Option Image} {cells : CellStore} {heap : Heap}
    {interner : Interner} {held : List ObjectId}
    (hstart : Interner.start settings image cells heap = .ok interner)
    (hheld : ∀ o, held.count o ≤ heap.refs o) (deeds : List Deed) {last : Interner}
    (hlast : (run { session := { interner, held } } deeds).session.interner = last)
    (hfree : last.table.owned = false)
    (hregion : (regionBytes (last.contents last.visibleObjects).eraseDups).length < 2 ^ 32)
    (addressing : Addressing) :
    last.HandsOver addressing := by
  subst hlast
  exact ((minded_start hstart hheld).run deeds).mirrors.keeps.handsOver hfree hregion addressing

/-- Of two strings that were interned one is dropped, and the string of the snapshot is drained into
the table. -/
def servedDeeds : List Deed :=
  [.ask (.intern "b"), .ask (.intern "c"), .ask (.drop ⟨1⟩),
    .work (.create .grow none) (.refl true), .work (.prepare 0) (.refl true), .ask .transferOverlay,
    .work (.abandon 0) (.refl true)]

theorem handed_over_after_service :
    Interner.start World.oneBucket (some single) Interner.ownCells {} =
      .ok stocked.session.interner ∧
      (stocked.run servedDeeds).session.interner.contents
        (stocked.run servedDeeds).session.interner.visibleObjects = ["c", "a"] ∧
      (stocked.run servedDeeds).session.interner.HandsOver .offset := by
  have hstart : Interner.start World.oneBucket (some single) Interner.ownCells {} =
    .ok stocked.session.interner := rfl
  have hheld : ∀ o, List.count o ([] : List ObjectId) ≤ Heap.refs {} o := fun _ => Nat.zero_le _
  have hcontents : (stocked.run servedDeeds).session.interner.contents
      (stocked.run servedDeeds).session.interner.visibleObjects = ["c", "a"] := by decide +kernel
  have hfree : (stocked.run servedDeeds).session.interner.table.owned = false := by decide +kernel
  have hregion : (regionBytes ((stocked.run servedDeeds).session.interner.contents
      (stocked.run servedDeeds).session.interner.visibleObjects).eraseDups).length < 2 ^ 32 := by
    rw [hcontents]
    decide
  exact ⟨hstart, hcontents, handed_over hstart hheld servedDeeds rfl hfree hregion .offset⟩

end Workshop

end WeakIntern
