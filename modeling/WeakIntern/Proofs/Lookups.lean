import Mathlib.Data.List.Find
import WeakIntern.Proofs.Addresses
import WeakIntern.Proofs.SharedIndex
/-!
# Overlay lookups against a search

A lookup in an overlay jumps to the entries with a hash. What it finds there is what a search from
the first entry to the last finds (`Indexed.lookup?_eq_find?`), however often hashes and contents
are repeated.

Both a lookup and a drain rely on what the reader has checked: that the index is sorted, and that
every entry leads to a record with the hash of the entry. `Overlay.drainChecked` is a drain that
does not rely on it and stops at the first thing that is wrong. With the overlay of a snapshot it
never stops.
-/

namespace WeakIntern

namespace Overlay

variable {heap : Heap} {overlay : Overlay} {s : String} {hash : UInt32}

/-! ## Lookups -/

/-- The entries with a hash, found from the first of them on. -/
theorem Indexed.entriesWith_eq_takeWhile (h : overlay.Indexed heap) (hash : UInt32) :
    overlay.entriesWith hash =
      (overlay.entries.toList.drop (overlay.firstAt hash)).takeWhile fun entry =>
        entry.hash = hash := by
  have hsplit := split_of_sorted hash h.sorted
  rw [h.entriesWith_eq, h.firstAt_eq]
  generalize overlay.entries.toList.filter (·.hash < hash) = below at hsplit ⊢
  generalize hsame : overlay.entries.toList.filter (·.hash = hash) = same at hsplit ⊢
  generalize habove : overlay.entries.toList.filter (hash < ·.hash) = above at hsplit
  have heq : ∀ e ∈ same, decide (e.hash = hash) = true := by simp [← hsame]
  have hne : above.takeWhile (fun entry => entry.hash = hash) = [] := by
    cases above with
    | nil => rfl
    | cons e rest =>
      have he :=
        List.mem_filter.1 (habove.symm ▸ List.mem_cons_self :
          e ∈ overlay.entries.toList.filter (hash < ·.hash))
      have hgt : hash < e.hash := of_decide_eq_true he.2
      rw [List.takeWhile_cons_of_neg]
      simpa using (UInt32.ne_of_lt hgt).symm
  rw [hsplit, List.drop_left, List.takeWhile_append_of_pos heq, hne, List.append_nil]

/-- **A lookup is a search** for the first entry with the hash and the content. -/
theorem Indexed.lookup?_eq_find? (h : overlay.Indexed heap) (s : String) (hash : UInt32) :
    overlay.lookup? heap s hash = (overlay.entries.toList.find? fun entry =>
      entry.hash = hash ∧ (overlay.object? entry).map heap.content = some s).bind
        overlay.object? := by
  rw [lookup?, h.entriesWith_eq]
  generalize overlay.entries.toList = entries
  induction entries with
  | nil => rfl
  | cons entry rest ih =>
    rw [List.filter_cons, List.find?_cons]
    by_cases hhash : entry.hash = hash
    · cases ho : overlay.object? entry with
      | none => simpa [hhash, ho] using ih
      | some o =>
        by_cases hcontent : heap.content o = s
        · simp [hhash, ho, hcontent]
        · simpa [hhash, ho, hcontent] using ih
    · simpa [hhash] using ih

/-! ## Drains -/

/-- What a drain can stop at. -/
inductive DrainFault where
  /-- There is an index, but no region that its entries lead into. -/
  | noRegion
  | dangling (value : UInt32)
  deriving DecidableEq, Repr

/-- Give away the objects of some entries in turn, up to the first entry that leads to nothing. -/
def handOver (region : Region) : List IndexEntry → Except DrainFault (List ObjectId)
  | [] => .ok []
  | entry :: rest =>
    match region.decode? entry.value with
    | some o => (handOver region rest).map (o :: ·)
    | none => .error (.dangling entry.value)

/-- A drain that looks at everything it relies on. -/
def drainChecked (overlay : Overlay) : Except DrainFault (List ObjectId × Overlay) :=
  if overlay.isEmpty then .ok ([], { overlay with drained := true })
  else
    match overlay.region with
    | some region =>
      (handOver region overlay.entries.toList).map fun objects =>
        (objects, { overlay with entries := #[], drained := true })
    | none => .error .noRegion

theorem handOver_eq_ok {region : Region} {entries : List IndexEntry}
    (h : ∀ entry ∈ entries, (region.decode? entry.value).isSome = true) :
    handOver region entries = .ok (entries.filterMap fun entry => region.decode? entry.value) := by
  induction entries with
  | nil => rfl
  | cons entry rest ih =>
    obtain ⟨o, ho⟩ := Option.isSome_iff_exists.1 (h entry List.mem_cons_self)
    rw [handOver, ho, ih fun e he => h e (.tail _ he), List.filterMap_cons, ho]
    rfl

/-- **A drain does not stop** if every entry leads to an object. -/
theorem drainChecked_eq_ok
    (h : ∀ entry ∈ overlay.entries.toList, (overlay.object? entry).isSome = true) :
    overlay.drainChecked = .ok overlay.drain := by
  rw [drainChecked, drain]
  split
  · next hempty =>
    rw [objects_of_isEmpty hempty]
    obtain ⟨entries, region, drained⟩ := overlay
    simp only [isEmpty, Array.isEmpty_iff] at hempty
    rw [hempty]
  · next hfull =>
    cases hregion : overlay.region with
    | none =>
      -- An overlay with entries has one that leads nowhere.
      obtain ⟨entry, hentry⟩ : ∃ entry, entry ∈ overlay.entries.toList := by
        refine List.exists_mem_of_ne_nil _ fun hnil => hfull ?_
        simpa [isEmpty] using hnil
      have hnone := h entry hentry
      rw [object?, hregion] at hnone
      cases hnone
    | some region =>
      have hobject : overlay.object? = fun entry => region.decode? entry.value := by
        funext entry
        rw [object?, hregion, Option.bind_some]
      simp only [handOver_eq_ok fun entry hentry => hobject ▸ h entry hentry, objects, hobject]
      rfl

/-! ## The overlay of a snapshot -/

/-- An overlay that answers as its index says, in a heap. -/
structure Searched (image : Image) (heap : Heap) (overlay : Overlay) : Prop where
  /-- Every entry leads to an object, and that is one with the string that the snapshot has for
  it. -/
  leads : ∀ entry ∈ image.entries.toList, ∃ o, overlay.object? entry = some o ∧
    image.decode? entry.value image.addressing = some (heap.content o)
  /-- A lookup finds what a search from the first entry on finds. -/
  lookup : ∀ s hash, overlay.lookup? heap s hash = (image.entries.toList.find? fun entry =>
    entry.hash = hash ∧ image.decode? entry.value image.addressing = some s).bind overlay.object?
  hit : ∀ s, (overlay.lookup? heap s (unitHash s)).isSome = true ↔
    ∃ entry ∈ image.entries.toList, image.decode? entry.value image.addressing = some s
  /-- Under a hash that is not that of the string nothing is found. -/
  miss : ∀ s hash, hash ≠ unitHash s → overlay.lookup? heap s hash = none
  /-- All entries are visited, in the order of the index. -/
  visits : overlay.objects.map some = image.entries.toList.map overlay.object?
  drains : overlay.drainChecked = .ok overlay.drain

theorem map_some_objects
    (h : ∀ entry ∈ overlay.entries.toList, (overlay.object? entry).isSome = true) :
    overlay.objects.map some = overlay.entries.toList.map overlay.object? := by
  rw [objects]
  generalize overlay.entries.toList = entries at h
  induction entries with
  | nil => rfl
  | cons entry rest ih =>
    obtain ⟨o, ho⟩ := Option.isSome_iff_exists.1 (h entry List.mem_cons_self)
    rw [List.filterMap_cons_some ho, List.map_cons, List.map_cons,
      ih fun e he => h e (.tail _ he), ho]

section OfImage

variable {image : Image} {start heap : Heap}

theorem knows_ofImage {o : ObjectId} (ho : o ∈ (ofImage start image).1.objects) :
    (ofImage start image).2.Knows o :=
  Heap.knows_of_isLive (alive_ofImage ho)

/-- The heap may have gone on: the objects of the snapshot still have their strings. -/
theorem content_object?_later (hlater : Heap.Later (ofImage start image).2 heap)
    {entry : IndexEntry} (hentry : entry ∈ image.entries.toList) :
    ((ofImage start image).1.object? entry).map heap.content =
      image.decode? entry.value image.addressing := by
  rw [← content_object?_ofImage start image entry]
  cases ho : (ofImage start image).1.object? entry with
  | none => rfl
  | some o =>
    exact congrArg some
      (hlater.content o (knows_ofImage (List.mem_filterMap.2 ⟨entry, hentry, ho⟩)))

theorem decodes_of_mem {entry : IndexEntry} (hentry : entry ∈ image.entries.toList) :
    ∃ s, image.decode? entry.value image.addressing = some s ∧ unitHash s = entry.hash :=
  Option.map_eq_some_iff.1 (image.leads entry hentry)

theorem leads_ofImage (hlater : Heap.Later (ofImage start image).2 heap) {entry : IndexEntry}
    (hentry : entry ∈ image.entries.toList) : ∃ o, (ofImage start image).1.object? entry = some o ∧
      image.decode? entry.value image.addressing = some (heap.content o) := by
  obtain ⟨s, hs, -⟩ := decodes_of_mem hentry
  have hcontent := content_object?_later hlater hentry
  rw [hs] at hcontent ⊢
  obtain ⟨o, ho, hos⟩ := Option.map_eq_some_iff.1 hcontent
  exact ⟨o, ho, congrArg some hos.symm⟩

theorem lookup?_ofImage (hlater : Heap.Later (ofImage start image).2 heap) (s : String)
    (hash : UInt32) :
    (ofImage start image).1.lookup? heap s hash = (image.entries.toList.find? fun entry =>
      entry.hash = hash ∧ image.decode? entry.value image.addressing = some s).bind
        (ofImage start image).1.object? := by
  have hentries : (ofImage start image).1.entries = image.entries := rfl
  have hindexed := (indexed_ofImage start image).later hlater fun _ ho => knows_ofImage ho
  rw [hindexed.lookup?_eq_find?, hentries]
  congr 1
  refine List.find?_congr fun entry hentry => ?_
  rw [content_object?_later hlater hentry]

theorem isSome_lookup?_ofImage (hlater : Heap.Later (ofImage start image).2 heap) (s : String) :
    ((ofImage start image).1.lookup? heap s (unitHash s)).isSome = true ↔
      ∃ entry ∈ image.entries.toList, image.decode? entry.value image.addressing = some s := by
  rw [lookup?_ofImage hlater]
  constructor
  · intro hfound
    obtain ⟨o, ho⟩ := Option.isSome_iff_exists.1 hfound
    obtain ⟨entry, hfind, -⟩ := Option.bind_eq_some_iff.1 ho
    have hheld := List.find?_some hfind
    exact ⟨entry, List.mem_of_find?_eq_some hfind, (of_decide_eq_true hheld).2⟩
  · rintro ⟨entry, hentry, hs⟩
    obtain ⟨s', hs', hhash⟩ := decodes_of_mem hentry
    obtain rfl : s' = s := Option.some.inj (hs'.symm.trans hs)
    cases hfind : image.entries.toList.find? fun entry =>
        entry.hash = unitHash s' ∧ image.decode? entry.value image.addressing = some s' with
    | none =>
      have hnot := List.find?_eq_none.1 hfind entry hentry
      simp [hhash, hs] at hnot
    | some first =>
      obtain ⟨o, ho, -⟩ := leads_ofImage hlater (List.mem_of_find?_eq_some hfind)
      rw [Option.bind_some, ho, Option.isSome_some]

/-- An entry with a content has the hash of the content. -/
theorem lookup?_ofImage_of_ne (hlater : Heap.Later (ofImage start image).2 heap) {s : String}
    {hash : UInt32} (hne : hash ≠ unitHash s) :
    (ofImage start image).1.lookup? heap s hash = none := by
  rw [lookup?_ofImage hlater, Option.bind_eq_none_iff]
  intro entry hfind
  have hheld := List.find?_some hfind
  obtain ⟨rfl, hs⟩ := of_decide_eq_true hheld
  obtain ⟨s', hs', hhash⟩ := decodes_of_mem (List.mem_of_find?_eq_some hfind)
  rw [Option.some.inj (hs'.symm.trans hs)] at hhash
  exact absurd hhash.symm hne

/-- **The overlay of a snapshot** answers as a search of the index would, in whatever has become of
the heap. -/
theorem searched_ofImage (image : Image) (hlater : Heap.Later (ofImage start image).2 heap) :
    (ofImage start image).1.Searched image heap := by
  have hsome : ∀ entry ∈ image.entries.toList,
      ((ofImage start image).1.object? entry).isSome = true := by
    intro entry hentry
    obtain ⟨o, ho, -⟩ := leads_ofImage hlater hentry
    rw [ho, Option.isSome_some]
  exact
    { leads := fun _ hentry => leads_ofImage hlater hentry
      lookup := lookup?_ofImage hlater
      hit := isSome_lookup?_ofImage hlater
      miss := fun _ _ hne => lookup?_ofImage_of_ne hlater hne
      visits := map_some_objects hsome
      drains := drainChecked_eq_ok hsome }

theorem length_objects_ofImage (image : Image) (start : Heap) :
    (ofImage start image).1.objects.length = (ofImage start image).1.entryCount := by
  have hvisits :=
    congrArg List.length (searched_ofImage image (.refl (ofImage start image).2)).visits
  rw [List.length_map, List.length_map, Array.length_toList] at hvisits
  exact hvisits

end OfImage

end Overlay

namespace Image

/-- An image has as many entries as the header says. -/
theorem size_entries_of_ofBytes {backing : Backing} {bytes : List UInt8} {image : Image}
    (h : ofBytes backing bytes = .ok image) : image.entries.size = Snapshot.wordAt bytes 12 := by
  obtain ⟨header, hheader, h⟩ := bind_eq_ok.1 h
  obtain ⟨found, -, h⟩ := bind_eq_ok.1 h
  obtain ⟨-, h⟩ := guard_eq_ok.1 h
  obtain ⟨-, -, -, -, hindex⟩ := of_assemble_eq_ok h
  rw [hindex, List.size_toArray, length_entriesOf, (found_of_headerOfBytes hheader).entryCount]

open Overlay in
/-- **Lookups search, and drains never stop.** The overlay of any snapshot that is accepted has as
many entries as the header says, each of which leads to a string of its own hash. A lookup finds the
first entry with the hash and the content, under the hash of the content it finds one just if the
snapshot has the string, and no drain meets an entry that leads to nothing; all of that whatever
happens in the heap meanwhile. -/
theorem overlay_searched {backing : Backing} {bytes : List UInt8} {image : Image}
    (hread : read backing bytes = .ok image) (start : Heap) :
    (ofImage start image).1.entryCount = Snapshot.wordAt bytes 12 ∧
      (ofImage start image).1.objects.length = (ofImage start image).1.entryCount ∧
      ∀ heap, Heap.Later (ofImage start image).2 heap →
        (ofImage start image).1.Searched image heap := by
  have hcount : (ofImage start image).1.entryCount = Snapshot.wordAt bytes 12 :=
    size_entries_of_ofBytes (read_eq_ok_iff.1 hread)
  exact ⟨hcount, length_objects_ofImage image start,
    fun heap hlater => searched_ofImage image hlater⟩

/-- A snapshot in which one entry stands twice, next to one with the same hash. -/
def repeatingBytes : List UInt8 :=
  [0x53, 0x54, 0x52, 0x41, 1, 0, 0, 0, 1, 0, 0, 0, 3, 0, 0, 0, 0, 0, 0, 0, 0, 0, 0, 0, 12, 0, 0, 0,
    2, 0, 0, 0, 0x40, 8, 0, 0, 0, 0, 0, 0, 0x40, 8, 0, 0, 0, 0, 0, 0, 0x40, 8, 0, 0, 1, 0, 0, 0,
    2, 0, 0, 0, 0x41, 0x61, 2, 0, 0, 0, 0x42, 0x42]

theorem overlay_searched_of_repeats :
    ∃ image, read .loaded repeatingBytes = .ok image ∧
      image.entries = #[⟨2112, 0⟩, ⟨2112, 0⟩, ⟨2112, 1⟩] ∧
      (Overlay.ofImage {} image).1.objects.length = 3 ∧
      (Overlay.ofImage {} image).1.Searched image (Overlay.ofImage {} image).2 := by
  have hspells : Spells repeatingBytes .narrow [⟨2112, 0⟩, ⟨2112, 0⟩, ⟨2112, 1⟩] ["Aa", "BB"] := by
    refine ⟨⟨[0, 0, 0], rfl, by decide +kernel⟩, by decide, by decide +kernel, by decide, ?_⟩
    intro entry hentry
    simp only [List.mem_cons, List.not_mem_nil, or_false] at hentry
    rcases hentry with rfl | rfl | rfl
    · exact ⟨"Aa", ⟨0, rfl, rfl⟩, by decide +kernel⟩
    · exact ⟨"Aa", ⟨0, rfl, rfl⟩, by decide +kernel⟩
    · exact ⟨"BB", ⟨1, rfl, rfl⟩, by decide +kernel⟩
  obtain ⟨image, hread, -, -, hentries, -⟩ := ofBytes_of_spells hspells .loaded
  obtain ⟨hcount, hvisits, hsearched⟩ := overlay_searched (read_eq_ok_iff.2 hread) {}
  exact ⟨image, read_eq_ok_iff.2 hread, Array.toList_inj.1 hentries,
    hvisits.trans (hcount.trans (by decide)), hsearched _ (.refl _)⟩

end Image

end WeakIntern
