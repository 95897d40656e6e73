import Mathlib.Data.List.Induction
import Mathlib.Data.List.Nodup
import WeakIntern.Proofs.Snapshots
/-!
# A snapshot gives back what was written

Strings can be written as long as their records take less than `2 ^ 32` bytes (`encode_of_lt`), and
whoever reads the snapshot has them again (`written_read_back`): the records are the strings without
repetitions, in the order of their first arrival, each of them has one entry in the index, and an
overlay that is made from the snapshot answers for them and for nothing else.
-/

namespace WeakIntern

open scoped List

namespace SnapshotDraft

variable {addressing : Addressing} {strings : List String} {index offset : Nat}

/-! ## Writing -/

/-- A draft holds the strings without repetitions, in the order of their first arrival. -/
theorem strings_ofList (addressing : Addressing) (strings : List String) :
    (ofList addressing strings).strings.toList = strings.eraseDups := by
  induction strings using List.reverseRecOn with
  | nil => rfl
  | append_singleton before s ih =>
    have hlast : ofList addressing (before ++ [s]) = (ofList addressing before).add s := by
      rw [ofList, List.foldl_append]
      rfl
    have hmem : s ∈ (ofList addressing before).strings ↔ s ∈ before := by
      rw [← Array.mem_toList_iff, ih, List.mem_eraseDups]
    rw [hlast, strings_add, List.eraseDups_append, ← ih]
    by_cases hs : s ∈ before
    · rw [if_pos (hmem.2 hs)]
      simp [List.removeAll, hs]
    · rw [if_neg fun h => hs (hmem.1 h), Array.toList_push]
      simp [List.removeAll, List.eraseDups_cons, hs]

/-- Records that end below `2 ^ 32` can be laid out: a record is longer than its number is apart
from the one before. -/
theorem layOut_of_lt (hindex : index ≤ offset)
    (hregion : offset + (regionBytes strings).length < 2 ^ 32) :
    layOut addressing index offset strings =
      .ok (entriesFrom addressing index offset strings, regionBytes strings) := by
  induction strings generalizing index offset with
  | nil =>
    have hsmall : tooLarge offset = false := tooLarge_eq_false.2 hregion
    rw [layOut, hsmall]
    rfl
  | cons s rest ih =>
    have hlength := length_recordBytes s
    rw [regionBytes, List.flatMap_cons, List.length_append, ← regionBytes] at hregion
    have hrecord : tooLarge (utf8Bytes s).length = false := tooLarge_eq_false.2 (by omega)
    have hreference : tooLarge (reference addressing index offset) = false := by
      cases addressing with
      | offset => exact tooLarge_eq_false.2 (show offset < 2 ^ 32 by omega)
      | narrow => exact tooLarge_eq_false.2 (show index < 2 ^ 32 by omega)
    rw [layOut_cons, hrecord, hreference, ih (by omega) (by omega)]
    rfl

/-- **A draft can be encoded** as long as its heap region is below `2 ^ 32` bytes. -/
theorem encode_of_lt {draft : SnapshotDraft}
    (hregion : (regionBytes draft.strings.toList).length < 2 ^ 32) :
    ∃ bytes, draft.encode = .ok bytes := by
  rw [encode, layOut_of_lt (Nat.le_refl 0) (by rwa [Nat.zero_add])]
  exact ⟨_, rfl⟩

/-- The seed in a snapshot is zero: its hashes are the default ones. -/
theorem seed_of_encode {draft : SnapshotDraft} {bytes : List UInt8} (h : draft.encode = .ok bytes) :
    Snapshot.littleEndian ((bytes.drop 16).take 8) = 0 := by
  rw [encode] at h
  cases hlaid : layOut draft.addressing 0 0 draft.strings.toList with
  | error failure =>
    rw [hlaid] at h
    cases h
  | ok laid =>
    rw [hlaid] at h
    rw [← Except.ok.inj h]
    exact Snapshot.littleEndian_littleEndianBytes 8 0

/-- The index of an image is the one order of its entries that the index of a draft has. -/
theorem Imaged.entries_eq {draft : SnapshotDraft} {backing : Backing} {image : Image}
    (h : draft.Imaged backing image) :
    (entriesFrom draft.addressing 0 0 draft.strings.toList).mergeSort entryBefore =
      image.entries.toList := by
  have hperm :=
    (List.mergeSort_perm (entriesFrom draft.addressing 0 0 draft.strings.toList) entryBefore).trans
    h.entries.symm
  refine hperm.eq_of_pairwise ?_ (pairwise_mergeSort_entryBefore _) h.sorted
  intro a b _ _ hab hba
  rw [entryBefore_iff] at hab hba
  have hsame : a.hash = b.hash ∧ a.value = b.value := by
    rw [← UInt32.toNat_inj, ← UInt32.toNat_inj]
    omega
  cases a
  cases b
  obtain ⟨rfl, rfl⟩ := hsame
  rfl

/-! ## References -/

/-- Where a function tells all elements of a list apart, one element has a value. -/
theorem filter_eq_singleton {f : IndexEntry → Option Nat} {entries : List IndexEntry}
    (hnodup : (entries.map f).Nodup) {entry : IndexEntry} (hentry : entry ∈ entries) :
    entries.filter (f · = f entry) = [entry] := by
  induction entries with
  | nil => cases hentry
  | cons first rest ih =>
    rw [List.map_cons, List.nodup_cons] at hnodup
    obtain ⟨hfirst, hrest⟩ := hnodup
    rcases List.mem_cons.1 hentry with rfl | hentry
    · have hnone : rest.filter (f · = f entry) = [] := by
        simp only [List.filter_eq_nil_iff, decide_eq_true_eq]
        exact fun e he heq => hfirst (heq ▸ List.mem_map_of_mem he)
      rw [List.filter_cons_of_pos (by simp), hnone]
    · have hne : f first ≠ f entry := fun heq => hfirst (heq ▸ List.mem_map_of_mem hentry)
      rw [List.filter_cons_of_neg (by simpa using hne), ih hrest hentry]

/-- The entries of strings refer to the records, one after another. -/
theorem recordIndex?_entriesFrom (hfits : Fits addressing 0 0 strings) :
    (entriesFrom addressing 0 0 strings).map (fun entry =>
        addressing.recordIndex? (offsetsFrom 0 strings).toArray entry.value) =
      (List.range strings.length).map some := by
  refine List.ext_getElem (by simp [length_entriesFrom]) fun i hi _ => ?_
  have hlt : i < strings.length := by simpa [length_entriesFrom] using hi
  have hplace : (offsetsFrom 0 strings)[i]? = some _ :=
    List.getElem?_eq_getElem (by rwa [length_offsetsFrom])
  have hentry := getElem?_entriesFrom addressing 0 0 strings i
  rw [List.getElem?_eq_getElem hlt, hplace, List.getElem?_eq_getElem (by rwa [length_entriesFrom]),
    Option.bind_some, Option.map_some, Option.some.injEq, Nat.zero_add] at hentry
  rw [List.getElem_map, hentry, recordIndex?_reference hfits hlt hplace, List.getElem_map,
    List.getElem_range]

/-- The entry of a string is the only one that refers to its record. -/
theorem filter_entriesFrom (hfits : Fits addressing 0 0 strings) {i : Nat} {s : String}
    (hs : strings[i]? = some s) :
    ∃ entry, (entriesFrom addressing 0 0 strings).filter (fun entry =>
        addressing.recordIndex? (offsetsFrom 0 strings).toArray entry.value = some i) = [entry] ∧
      entry.hash = unitHash s := by
  obtain ⟨hlt, -⟩ := List.getElem?_eq_some_iff.1 hs
  have hplace : (offsetsFrom 0 strings)[i]? = some _ :=
    List.getElem?_eq_getElem (by rwa [length_offsetsFrom])
  have hentry := getElem?_entriesFrom addressing 0 0 strings i
  rw [hs, hplace, Option.bind_some, Option.map_some, Nat.zero_add] at hentry
  have hnodup := (List.nodup_range (n := strings.length)).map fun _ _ => Option.some.inj
  rw [← recordIndex?_entriesFrom hfits] at hnodup
  have hsole := filter_eq_singleton hnodup (List.mem_of_getElem? hentry)
  dsimp only at hsole
  rw [recordIndex?_reference hfits hlt hplace] at hsole
  exact ⟨_, hsole, rfl⟩

end SnapshotDraft

namespace Image

open SnapshotDraft

/-- The entries that refer to a record. -/
def entriesTo (image : Image) (i : Nat) : List IndexEntry :=
  image.entries.toList.filter fun entry =>
    image.addressing.recordIndex? image.offsets entry.value = some i

/-- What a snapshot gives back of the strings that were written to it. -/
structure Returns (image : Image) (addressing : Addressing) (strings : List String) : Prop where
  addressing : image.addressing = addressing
  /-- Later repetitions are left out. -/
  records : image.records.toList = strings.eraseDups
  /-- The index is sorted by hash, and then by reference. -/
  sorted : image.entries.toList.Pairwise fun a b => a.hash < b.hash ∨ a.hash = b.hash ∧
    a.value ≤ b.value
  entryCount : image.entries.size = strings.eraseDups.length
  /-- One entry refers to each record, under the hash of its string. -/
  sole : ∀ i s, image.records[i]? = some s → ∃ entry, image.entriesTo i = [entry] ∧
    entry.hash = unitHash s
  /-- An overlay answers for the strings, and for no others. -/
  lookup : ∀ heap s,
    ((Overlay.ofImage heap image).1.lookup? (Overlay.ofImage heap image).2 s (unitHash s)).map
    (Overlay.ofImage heap image).2.content = if s ∈ strings then some s else none

variable {image : Image} {draft : SnapshotDraft} {backing : Backing}

/-- The objects of an overlay are those of the strings of the draft. -/
theorem contents_of_imaged (h : draft.Imaged backing image) (heap : Heap) :
    ((Overlay.ofImage heap image).1.objects.map (Overlay.ofImage heap image).2.content).Perm
      draft.strings.toList := by
  rw [Overlay.contents_ofImage]
  exact h.decoded

/-- The strings that an overlay answers for are those of the draft. -/
theorem lookup?_of_imaged (h : draft.Imaged backing image) (heap : Heap) (s : String) :
    ((Overlay.ofImage heap image).1.lookup? (Overlay.ofImage heap image).2 s (unitHash s)).map
        (Overlay.ofImage heap image).2.content = if s ∈ draft.strings.toList then some s
          else none := by
  have hcontents := contents_of_imaged h heap
  rw [(Overlay.indexed_ofImage heap image).lookup?_eq]
  cases hfirst : (Overlay.ofImage heap image).1.first? (Overlay.ofImage heap image).2 s with
  | some o =>
    have hcontent := Overlay.content_of_first? hfirst
    have hmem : s ∈ draft.strings.toList :=
      hcontents.mem_iff.1 (hcontent ▸ List.mem_map_of_mem (Overlay.mem_of_first? hfirst))
    rw [Option.map_some, hcontent, if_pos hmem]
  | none =>
    have hmem : s ∉ draft.strings.toList := by
      intro hs
      obtain ⟨o, ho, hcontent⟩ := List.mem_map.1 (hcontents.mem_iff.2 hs)
      have hother := List.find?_eq_none.1 hfirst o ho
      simp [hcontent] at hother
    rw [if_neg hmem]
    rfl

/-- An image of a draft gives back the strings that the draft was made of. -/
theorem returns_of_imaged {addressing : Addressing} {strings : List String}
    (h : (ofList addressing strings).Imaged backing image) : image.Returns addressing strings := by
  have hstrings := strings_ofList addressing strings
  have hrecords : image.records.toList = strings.eraseDups := by rw [h.records, hstrings]
  constructor
  · rw [h.addressing, addressing_ofList]
  · exact hrecords
  · refine h.sorted.imp fun {a b} hab => ?_
    rw [entryBefore_iff] at hab
    rwa [UInt32.lt_iff_toNat_lt, UInt32.le_iff_toNat_le, ← UInt32.toNat_inj]
  · rw [← Array.length_toList, h.entries.length_eq, length_entriesFrom, hstrings]
  · intro i s hs
    rw [h.records, ← Array.getElem?_toList] at hs
    obtain ⟨entry, hfilter, hhash⟩ := filter_entriesFrom h.fits hs
    refine ⟨entry, List.perm_singleton.1 ?_, hhash⟩
    rw [← hfilter, entriesTo, h.addressing, h.offsets]
    exact h.entries.filter _
  · intro heap s
    rw [lookup?_of_imaged h heap s, hstrings]
    simp only [List.mem_eraseDups]

/-- **A snapshot gives back what was written**, in either addressing, as long as the heap region is
below `2 ^ 32` bytes. -/
theorem written_read_back (addressing : Addressing) (strings : List String)
    (hregion : (regionBytes strings.eraseDups).length < 2 ^ 32) :
    ∃ bytes, (ofList addressing strings).encode = .ok bytes ∧
      Snapshot.littleEndian ((bytes.drop 16).take 8) = 0 ∧
      ∀ backing, ∃ image, Image.ofBytes backing bytes = .ok image ∧ image.backing = backing ∧
        image.Returns addressing strings := by
  rw [← strings_ofList addressing] at hregion
  obtain ⟨bytes, hencode⟩ := encode_of_lt hregion
  refine ⟨bytes, hencode, seed_of_encode hencode, fun backing => ?_⟩
  obtain ⟨image, hread, himaged⟩ := imaged_ofBytes hencode backing
  exact ⟨image, hread, himaged.backing, returns_of_imaged himaged⟩

/-- Two strings with one hash, the empty string, and a repetition. -/
theorem collision_read_back :
    unitHash "Aa" = unitHash "BB" ∧ (regionBytes ["Aa", "", "BB", "Aa"].eraseDups).length < 2 ^ 32 ∧
      ∃ bytes, (ofList .offset ["Aa", "", "BB", "Aa"]).encode = .ok bytes ∧
        Snapshot.littleEndian ((bytes.drop 16).take 8) = 0 ∧
        ∀ backing, ∃ image, Image.ofBytes backing bytes = .ok image ∧ image.backing = backing ∧
          image.Returns .offset ["Aa", "", "BB", "Aa"] := by
  have hregion : (regionBytes ["Aa", "", "BB", "Aa"].eraseDups).length < 2 ^ 32 := by decide
  exact ⟨by decide, hregion, written_read_back .offset _ hregion⟩

end Image

end WeakIntern
