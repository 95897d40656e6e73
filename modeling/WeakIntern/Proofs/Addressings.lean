import Mathlib.Data.List.GetD
import WeakIntern.Proofs.Lookups
import WeakIntern.Proofs.RoundTrip
/-!
# The two addressings

A snapshot refers to its records by offset or by number, and sorts entries with one hash by the
reference. Offsets ascend with the numbers, so that both references sort alike: the index of a draft
lists its records by hash and then by number (`SnapshotDraft.ranked`), whichever addressing it is
written in. From this it follows byte by byte how the two snapshots of some strings differ, and that
nobody who reads them can tell one from the other (`Image.Interchangeable`).
-/

namespace WeakIntern

open scoped List

namespace SnapshotDraft

variable {addressing : Addressing} {strings : List String} {i j : Nat}

/-! ## The order of the index -/

/-- The entry of a record, by the number of the record. -/
def entryAt (addressing : Addressing) (strings : List String) (i : Nat) : IndexEntry where
  hash := unitHash (strings.getD i "")
  value := (reference addressing i ((offsetsFrom 0 strings).getD i 0)).toUInt32

/-- The order of two records in an index: by hash, and then by number. -/
def ranksBefore (strings : List String) (i j : Nat) : Bool :=
  unitHash (strings.getD i "") < unitHash (strings.getD j "") ||
    (unitHash (strings.getD i "") == unitHash (strings.getD j "") && i ≤ j)

/-- The numbers of the records in the order of the index. -/
def ranked (strings : List String) : List Nat :=
  (List.range strings.length).mergeSort (ranksBefore strings)

theorem ranked_perm (strings : List String) : (ranked strings).Perm (List.range strings.length) :=
  List.mergeSort_perm _ _

theorem mem_ranked : i ∈ ranked strings ↔ i < strings.length := by
  rw [(ranked_perm strings).mem_iff, List.mem_range]

theorem length_ranked (strings : List String) : (ranked strings).length = strings.length := by
  rw [(ranked_perm strings).length_eq, List.length_range]

theorem getElem?_offsetsFrom_getD (hi : i < strings.length) :
    (offsetsFrom 0 strings)[i]? = some ((offsetsFrom 0 strings).getD i 0) := by
  have hlt : i < (offsetsFrom 0 strings).length := by rwa [length_offsetsFrom]
  rw [List.getD_eq_getElem?_getD, List.getElem?_eq_getElem hlt, Option.getD_some]

theorem entriesFrom_eq_map (addressing : Addressing) (strings : List String) :
    entriesFrom addressing 0 0 strings =
      (List.range strings.length).map (entryAt addressing strings) := by
  refine List.ext_getElem (by simp [length_entriesFrom]) fun i hi _ => ?_
  have hlt : i < strings.length := by rwa [length_entriesFrom] at hi
  have hentry := getElem?_entriesFrom addressing 0 0 strings i
  rw [List.getElem?_eq_getElem hlt, getElem?_offsetsFrom_getD hlt, List.getElem?_eq_getElem hi,
    Option.bind_some, Option.map_some, Option.some.injEq, Nat.zero_add] at hentry
  rw [hentry, List.getElem_map, List.getElem_range, entryAt, List.getD_eq_getElem strings "" hlt]

/-- Offsets ascend with the numbers of the records, and all fit into 32 bits. -/
theorem value_entryAt_le_iff (hfits : Fits addressing 0 0 strings) (hi : i < strings.length)
    (hj : j < strings.length) :
    (entryAt addressing strings i).value ≤ (entryAt addressing strings j).value ↔ i ≤ j := by
  rw [UInt32.le_iff_toNat_le, entryAt, entryAt]
  cases addressing with
  | narrow =>
    have hbound := hfits.reference i hi rfl
    have hbound' := hfits.reference j hj rfl
    rw [Nat.zero_add] at hbound hbound'
    rw [reference, reference, Snapshot.toNat_toUInt32 hbound, Snapshot.toNat_toUInt32 hbound']
  | offset =>
    have hi' := getElem?_offsetsFrom_getD hi
    have hj' := getElem?_offsetsFrom_getD hj
    have hbound := le_of_mem_offsetsFrom (List.mem_of_getElem? hi')
    have hbound' := le_of_mem_offsetsFrom (List.mem_of_getElem? hj')
    have hregion := hfits.region
    rw [reference, reference, Snapshot.toNat_toUInt32 (by omega),
      Snapshot.toNat_toUInt32 (by omega)]
    have hascend := List.pairwise_iff_getElem.1 (offsetsFrom_ascend 0 strings)
    obtain ⟨hlt, heq⟩ := List.getElem?_eq_some_iff.1 hi'
    obtain ⟨hlt', heq'⟩ := List.getElem?_eq_some_iff.1 hj'
    rw [← heq, ← heq']
    rcases Nat.lt_trichotomy i j with hless | rfl | hless
    · have := hascend i j hlt hlt' hless
      omega
    · simp
    · have := hascend j i hlt' hlt hless
      omega

theorem ranksBefore_eq (hfits : Fits addressing 0 0 strings) (hi : i < strings.length)
    (hj : j < strings.length) :
    ranksBefore strings i j = entryBefore (entryAt addressing strings i)
    (entryAt addressing strings j) := by
  simp only [ranksBefore, entryBefore, value_entryAt_le_iff hfits hi hj]
  rfl

/-- **Both addressings sort alike.** -/
theorem mergeSort_entriesFrom (hfits : Fits addressing 0 0 strings) :
    (entriesFrom addressing 0 0 strings).mergeSort entryBefore =
      (ranked strings).map (entryAt addressing strings) := by
  rw [entriesFrom_eq_map, ranked]
  refine (List.map_mergeSort fun i hi j hj => ?_).symm
  exact ranksBefore_eq hfits (List.mem_range.1 hi) (List.mem_range.1 hj)

theorem recordIndex?_entryAt (hfits : Fits addressing 0 0 strings) (hi : i < strings.length) :
    addressing.recordIndex? (offsetsFrom 0 strings).toArray (entryAt addressing strings i).value =
      some i :=
  recordIndex?_reference hfits hi (getElem?_offsetsFrom_getD hi)

/-! ## The bytes -/

/-- A byte that depends on the addressing: the one that names it, and those of the values in the
index. -/
def Depends (count position : Nat) : Prop :=
  position = 8 ∨ Snapshot.headerLength ≤ position ∧
    position < Snapshot.headerLength + count * Snapshot.entryLength ∧
    4 ≤ (position - Snapshot.headerLength) % Snapshot.entryLength

theorem length_headerBytes (addressing : Addressing) (count heapLength : Nat) :
    (headerBytes addressing count heapLength).length = Snapshot.headerLength := by
  simp [headerBytes, Snapshot.length_wordBytes, Snapshot.length_littleEndianBytes, Snapshot.magic,
    Snapshot.headerLength]

/-- Two lists that differ in one place are alike in all others. -/
theorem getElem?_append_cons_of_ne (before : List UInt8) (x y : UInt8) (after : List UInt8)
    {position : Nat} (hne : position ≠ before.length) :
    (before ++ x :: after)[position]? = (before ++ y :: after)[position]? := by
  rcases Nat.lt_or_ge position before.length with hlt | hge
  · rw [List.getElem?_append_left hlt, List.getElem?_append_left hlt]
  · rw [List.getElem?_append_right hge, List.getElem?_append_right hge]
    obtain ⟨k, hk⟩ : ∃ k, position - before.length = k + 1 :=
      ⟨position - before.length - 1, by omega⟩
    rw [hk, List.getElem?_cons_succ, List.getElem?_cons_succ]

theorem getElem?_headerBytes (addressing addressing' : Addressing) (count heapLength : Nat)
    {position : Nat} (hne : position ≠ 8) :
    (headerBytes addressing count heapLength)[position]? =
      (headerBytes addressing' count heapLength)[position]? := by
  have hsplit (a : Addressing) : headerBytes a count heapLength =
      (Snapshot.magic ++ Snapshot.wordBytes Snapshot.version) ++ a.toByte ::
        ([0, 0, 0] ++ Snapshot.wordBytes count ++ Snapshot.littleEndianBytes 8 0 ++
          Snapshot.wordBytes heapLength ++
          Snapshot.wordBytes count) := by
    simp [headerBytes]
  rw [hsplit, hsplit]
  refine getElem?_append_cons_of_ne _ _ _ _ ?_
  simpa [Snapshot.magic, Snapshot.length_wordBytes] using hne

/-- Entries with the same hashes have the same bytes, up to the values. -/
theorem getElem?_flatMap_entryBytes {f g : Nat → IndexEntry} (hhash : ∀ i, (f i).hash = (g i).hash)
    (order : List Nat) {position : Nat} (hvalue : position % Snapshot.entryLength < 4) :
    ((order.map f).flatMap entryBytes)[position]? =
      ((order.map g).flatMap entryBytes)[position]? := by
  induction order generalizing position with
  | nil => rfl
  | cons i rest ih =>
    have hlength (entry : IndexEntry) : (entryBytes entry).length = Snapshot.entryLength := rfl
    simp only [List.map_cons, List.flatMap_cons]
    rcases Nat.lt_or_ge position Snapshot.entryLength with hlt | hge
    · rw [Nat.mod_eq_of_lt hlt] at hvalue
      rw [List.getElem?_append_left (by rwa [hlength]),
        List.getElem?_append_left (by rwa [hlength]), entryBytes, entryBytes, hhash i,
        List.getElem?_append_left (by rwa [Snapshot.length_wordBytes]),
        List.getElem?_append_left (by rwa [Snapshot.length_wordBytes])]
    · rw [List.getElem?_append_right (by rwa [hlength]),
        List.getElem?_append_right (by rwa [hlength]), hlength, hlength]
      refine ih ?_
      rwa [← Nat.mod_eq_sub_mod hge]

/-- The snapshot of some strings. -/
def snapshotBytes (addressing : Addressing) (strings : List String) : List UInt8 :=
  headerBytes addressing strings.length (regionBytes strings).length ++
    ((ranked strings).map (entryAt addressing strings)).flatMap entryBytes ++ regionBytes strings

/-- What a draft is encoded to. -/
theorem encode_eq (addressing : Addressing) {strings : List String}
    (hregion : (regionBytes strings.eraseDups).length < 2 ^ 32) :
    (ofList addressing strings).encode = .ok (snapshotBytes addressing strings.eraseDups) ∧
      Fits addressing 0 0 strings.eraseDups := by
  have hlaid : layOut addressing 0 0 strings.eraseDups =
      .ok (entriesFrom addressing 0 0 strings.eraseDups, regionBytes strings.eraseDups) :=
    layOut_of_lt (Nat.le_refl 0) (by rwa [Nat.zero_add])
  obtain ⟨-, hfits⟩ := layOut_eq_ok hlaid
  refine ⟨?_, hfits⟩
  rw [encode, addressing_ofList, strings_ofList, hlaid]
  simp only [bind, Except.bind, pure, Except.pure, mergeSort_entriesFrom hfits, length_entriesFrom,
    snapshotBytes]

theorem length_snapshotBytes (addressing : Addressing) (strings : List String) :
    (snapshotBytes addressing strings).length =
      Snapshot.headerLength + strings.length * Snapshot.entryLength +
        (regionBytes strings).length := by
  rw [snapshotBytes, List.length_append, List.length_append, length_headerBytes,
    length_flatMap_entryBytes, List.length_map, length_ranked]

/-- **The snapshots of some strings** in the two addressings are alike but for the bytes that depend
on it. -/
theorem getElem?_snapshotBytes (addressing addressing' : Addressing) (strings : List String)
    {position : Nat} (hsame : ¬ Depends strings.length position) :
    (snapshotBytes addressing strings)[position]? =
      (snapshotBytes addressing' strings)[position]? := by
  have hheader (a : Addressing) := length_headerBytes a strings.length (regionBytes strings).length
  have hindex (a : Addressing) :
      (((ranked strings).map (entryAt a strings)).flatMap entryBytes).length =
        strings.length * Snapshot.entryLength := by
    rw [length_flatMap_entryBytes, List.length_map, length_ranked]
  rcases Nat.lt_or_ge position Snapshot.headerLength with hlt | hge
  · simp only [snapshotBytes, List.append_assoc]
    rw [List.getElem?_append_left (by rwa [hheader]), List.getElem?_append_left (by rwa [hheader])]
    exact getElem?_headerBytes _ _ _ _ fun heq => hsame (.inl heq)
  · have hbehind (a : Addressing) : (snapshotBytes a strings)[position]? =
        (((ranked strings).map (entryAt a strings)).flatMap entryBytes ++
          regionBytes strings)[position - Snapshot.headerLength]? := by
      rw [snapshotBytes, List.append_assoc, List.getElem?_append_right (by rwa [hheader]), hheader]
    rw [hbehind, hbehind]
    rcases Nat.lt_or_ge (position - Snapshot.headerLength) (strings.length * Snapshot.entryLength)
      with hlt | hge'
    · rw [List.getElem?_append_left (by rwa [hindex]), List.getElem?_append_left (by rwa [hindex])]
      have hhash : ∀ i, (entryAt addressing strings i).hash =
        (entryAt addressing' strings i).hash := fun _ => rfl
      refine getElem?_flatMap_entryBytes hhash _
        (Nat.lt_of_not_le fun hvalue => hsame (.inr ⟨hge, ?_, hvalue⟩))
      omega
    · rw [List.getElem?_append_right (by rwa [hindex]),
        List.getElem?_append_right (by rwa [hindex]), hindex, hindex]

end SnapshotDraft

/-! ## The images -/

namespace Image

open SnapshotDraft

variable {addressing : Addressing} {strings : List String} {image : Image} {heap : Heap}

/-- An image whose index lists the records of strings by hash and then by number. -/
structure Ranks (image : Image) (addressing : Addressing) (strings : List String) : Prop where
  records : image.records = strings.toArray
  offsets : image.offsets = (offsetsFrom 0 strings).toArray
  entries : image.entries = ((ranked strings).map (entryAt addressing strings)).toArray
  fits : Fits addressing 0 0 strings
  addressing : image.addressing = addressing

/-- What is written is read back in the order of the index. -/
theorem ranks_of_encode (addressing : Addressing) {strings : List String}
    (hregion : (regionBytes strings.eraseDups).length < 2 ^ 32) (backing : Backing) :
    ∃ image, ofBytes backing (snapshotBytes addressing strings.eraseDups) = .ok image ∧
      image.Ranks addressing strings.eraseDups := by
  obtain ⟨hencode, hfits⟩ := encode_eq addressing hregion
  obtain ⟨image, hread, himaged⟩ := imaged_ofBytes hencode backing
  have hindex := himaged.entries_eq
  rw [addressing_ofList, strings_ofList, mergeSort_entriesFrom hfits] at hindex
  refine ⟨image, hread, ?_, ?_, ?_, hfits, ?_⟩
  · rw [himaged.records, ← strings_ofList addressing, Array.toArray_toList]
  · rw [himaged.offsets, strings_ofList]
  · rw [hindex, Array.toArray_toList]
  · rw [himaged.addressing, addressing_ofList]

/-- The entry of a record leads to the object of the record. -/
theorem Ranks.object?_entryAt (h : image.Ranks addressing strings) (heap : Heap) {i : Nat}
    (hi : i < strings.length) :
    (Overlay.ofImage heap image).1.object? (entryAt addressing strings i) =
      (Overlay.regionOf heap image)[i]? := by
  simp only [Overlay.object?, Overlay.ofImage, Option.bind_some, Region.decode?, h.addressing,
    h.offsets, recordIndex?_entryAt h.fits hi, List.getElem?_toArray]
  rfl

/-- The string that the entry of a record leads to. -/
theorem Ranks.decode?_entryAt (h : image.Ranks addressing strings) {i : Nat}
    (hi : i < strings.length) :
    image.decode? (entryAt addressing strings i).value image.addressing = strings[i]? := by
  rw [decode?, Addressing.record?, h.addressing, h.offsets, recordIndex?_entryAt h.fits hi,
    Option.bind_some, h.records, List.getElem?_toArray]

/-- Number of the record that a lookup finds: the first in the order of the index with the content
and the hash. -/
def rankOf? (strings : List String) (s : String) (hash : UInt32) : Option Nat :=
  (ranked strings).find? fun i => unitHash (strings.getD i "") = hash ∧ strings[i]? = some s

/-- **A lookup**, by the numbers of records. -/
theorem Ranks.lookup?_eq (h : image.Ranks addressing strings) (heap : Heap) (s : String)
    (hash : UInt32) :
    (Overlay.ofImage heap image).1.lookup? (Overlay.ofImage heap image).2 s hash =
      (rankOf? strings s hash).bind fun i => (Overlay.regionOf heap image)[i]? := by
  have hsearched := Overlay.searched_ofImage image (.refl (Overlay.ofImage heap image).2)
  rw [hsearched.lookup, h.entries, List.toList_toArray, List.find?_map, rankOf?]
  have hsame : (ranked strings).find? ((fun entry : IndexEntry => decide (entry.hash = hash ∧
        image.decode? entry.value image.addressing = some s)) ∘ entryAt addressing strings) =
      (ranked strings).find? fun i =>
        unitHash (strings.getD i "") = hash ∧ strings[i]? = some s := by
    refine List.find?_congr fun i hi => ?_
    rw [Function.comp_apply, h.decode?_entryAt (mem_ranked.1 hi)]
    rfl
  rw [hsame]
  cases hfind : (ranked strings).find? fun i => unitHash (strings.getD i "") = hash ∧
    strings[i]? = some s with
  | none => rfl
  | some i => exact h.object?_entryAt heap (mem_ranked.1 (List.mem_of_find?_eq_some hfind))

/-- **A visit of all strings**, by the numbers of records. -/
theorem Ranks.objects_eq (h : image.Ranks addressing strings) (heap : Heap) :
    (Overlay.ofImage heap image).1.objects.map some =
      (ranked strings).map fun i => (Overlay.regionOf heap image)[i]? := by
  have hsearched := Overlay.searched_ofImage image (.refl (Overlay.ofImage heap image).2)
  rw [hsearched.visits, h.entries, List.toList_toArray, List.map_map]
  exact List.map_congr_left fun i hi => h.object?_entryAt heap (mem_ranked.1 hi)

/-- Two images that nobody can tell apart, who does not look at the values of their entries. -/
structure Interchangeable (image image' : Image) : Prop where
  records : image.records = image'.records
  entryCount : image.entries.size = image'.entries.size
  /-- Entries in the same position have one hash, and lead to the record with the same number. -/
  entries : ∀ (p : Nat) (entry entry' : IndexEntry), image.entries[p]? = some entry →
    image'.entries[p]? = some entry' →
    entry.hash = entry'.hash ∧ ∃ i, i < image.records.size ∧
      image.addressing.recordIndex? image.offsets entry.value = some i ∧
      image'.addressing.recordIndex? image'.offsets entry'.value = some i
  /-- Lookups in overlays find the objects of the same record, or none. -/
  lookup : ∀ heap heap' s hash, ∃ found : Option Nat, (∀ i ∈ found, i < image.records.size) ∧
    (Overlay.ofImage heap image).1.lookup? (Overlay.ofImage heap image).2 s hash =
      found.bind (fun i => (Overlay.regionOf heap image)[i]?) ∧
    (Overlay.ofImage heap' image').1.lookup? (Overlay.ofImage heap' image').2 s hash =
      found.bind (fun i => (Overlay.regionOf heap' image')[i]?)
  /-- The objects of the records are visited in the same order, each once, and so they are
  drained. -/
  visits : ∀ heap heap', ∃ order : List Nat, order.Perm (List.range image.records.size) ∧
    (Overlay.ofImage heap image).1.objects.map some =
      order.map (fun i => (Overlay.regionOf heap image)[i]?) ∧
    (Overlay.ofImage heap' image').1.objects.map some =
      order.map (fun i => (Overlay.regionOf heap' image')[i]?) ∧
    (Overlay.ofImage heap image).1.drain.1.map some =
      order.map (fun i => (Overlay.regionOf heap image)[i]?) ∧
    (Overlay.ofImage heap' image').1.drain.1.map some =
      order.map (fun i => (Overlay.regionOf heap' image')[i]?)

theorem Ranks.interchangeable {addressing' : Addressing} {image' : Image}
    (h : image.Ranks addressing strings) (h' : image'.Ranks addressing' strings) :
    image.Interchangeable image' := by
  have hsize : image.records.size = strings.length := by rw [h.records, List.size_toArray]
  constructor
  case records => rw [h.records, h'.records]
  case entryCount => simp only [h.entries, h'.entries, List.size_toArray, List.length_map]
  case entries =>
    intro p entry entry' hentry hentry'
    rw [h.entries, List.getElem?_toArray, List.getElem?_map] at hentry
    rw [h'.entries, List.getElem?_toArray, List.getElem?_map] at hentry'
    obtain ⟨i, hi, rfl⟩ := Option.map_eq_some_iff.1 hentry
    rw [hi, Option.map_some, Option.some.injEq] at hentry'
    subst hentry'
    have hlt := mem_ranked.1 (List.mem_of_getElem? hi)
    refine ⟨rfl, i, hsize ▸ hlt, ?_, ?_⟩
    · rw [h.addressing, h.offsets, recordIndex?_entryAt h.fits hlt]
    · rw [h'.addressing, h'.offsets, recordIndex?_entryAt h'.fits hlt]
  case lookup =>
    intro heap heap' s hash
    refine ⟨rankOf? strings s hash, fun i hi => ?_, h.lookup?_eq heap s hash,
      h'.lookup?_eq heap' s hash⟩
    rw [hsize, ← mem_ranked]
    exact List.mem_of_find?_eq_some hi
  case visits =>
    intro heap heap'
    exact ⟨ranked strings, hsize ▸ ranked_perm strings, h.objects_eq heap, h'.objects_eq heap',
      h.objects_eq heap, h'.objects_eq heap'⟩

/-- **The two addressings are interchangeable**: as long as the heap region of some strings is below
`2 ^ 32` bytes, both their snapshots can be written. They are of one length, differ only in the byte
that names the addressing and in the values of the entries, and their images are interchangeable,
wherever they are kept. -/
theorem addressings_interchangeable (strings : List String)
    (hregion : (regionBytes strings.eraseDups).length < 2 ^ 32) :
    ∃ bytes bytes', (ofList .offset strings).encode = .ok bytes ∧
      (ofList .narrow strings).encode = .ok bytes' ∧
      bytes.length = bytes'.length ∧
      (∀ position, ¬ Depends strings.eraseDups.length position →
        bytes[position]? = bytes'[position]?) ∧
      ∀ backing backing', ∃ image image', ofBytes backing bytes = .ok image ∧
        ofBytes backing' bytes' = .ok image' ∧
        image.entries.size = strings.eraseDups.length ∧ image.records.toList = strings.eraseDups ∧
        image.Interchangeable image' := by
  refine ⟨snapshotBytes .offset strings.eraseDups, snapshotBytes .narrow strings.eraseDups,
    (encode_eq .offset hregion).1, (encode_eq .narrow hregion).1, ?_, ?_, ?_⟩
  · rw [length_snapshotBytes, length_snapshotBytes]
  · exact fun position => getElem?_snapshotBytes .offset .narrow _
  · intro backing backing'
    obtain ⟨image, hread, hranks⟩ := ranks_of_encode .offset hregion backing
    obtain ⟨image', hread', hranks'⟩ := ranks_of_encode .narrow hregion backing'
    refine ⟨image, image', hread, hread', ?_, ?_, hranks.interchangeable hranks'⟩
    · rw [hranks.entries, List.size_toArray, List.length_map, length_ranked]
    · rw [hranks.records]

/-- Two strings with one hash, with the empty string between them. -/
theorem addressings_interchangeable_of_collision :
    unitHash "Aa" = unitHash "BB" ∧ (regionBytes ["Aa", "", "BB", "Aa"].eraseDups).length < 2 ^ 32 ∧
      ∃ bytes bytes', (ofList .offset ["Aa", "", "BB", "Aa"]).encode = .ok bytes ∧
        (ofList .narrow ["Aa", "", "BB", "Aa"]).encode = .ok bytes' ∧ bytes.length = bytes'.length ∧
        ∃ image image', ofBytes .mapped bytes = .ok image ∧ ofBytes .loaded bytes' = .ok image' ∧
          image.records.toList = ["Aa", "", "BB"] ∧ image.Interchangeable image' := by
  have hregion : (regionBytes ["Aa", "", "BB", "Aa"].eraseDups).length < 2 ^ 32 := by decide
  obtain ⟨bytes, bytes', hencode, hencode', hlength, -, himages⟩ :=
    addressings_interchangeable _ hregion
  obtain ⟨image, image', hread, hread', -, hrecords, hsame⟩ := himages .mapped .loaded
  exact ⟨by decide, hregion, bytes, bytes', hencode, hencode', hlength, image, image', hread,
    hread', hrecords.trans (by decide), hsame⟩

end Image

end WeakIntern
