import WeakIntern.Proofs.Acceptance
import WeakIntern.Proofs.RoundTrip
/-!
# Canonical snapshots

The reader accepts more than what is ever written: any padding, records that are repeated, that no
entry or several entries refer to, and entries with one hash in any order. Nothing else is left
open. Bytes in which none of this happens are what is written when their own records are archived
again, and no other bytes are (`rewritten_iff`).
-/

namespace WeakIntern

open scoped List

open SnapshotDraft

/-- A list without repetitions keeps all its strings. -/
theorem eraseDups_of_nodup {strings : List String} (h : strings.Nodup) :
    strings.eraseDups = strings := by
  induction strings with
  | nil => rfl
  | cons s rest ih =>
    obtain ⟨hs, hrest⟩ := List.nodup_cons.1 h
    have hkept : rest.filter (fun t => !t == s) = rest := by
      simp only [List.filter_eq_self, Bool.not_eq_true', beq_eq_false_iff_ne]
      rintro t ht rfl
      exact hs ht
    rw [List.eraseDups_cons, hkept, ih hrest]

namespace Image

/-- An image of bytes that make no use of what the format leaves open. -/
structure Canonical (image : Image) (bytes : List UInt8) : Prop where
  padding : (bytes.drop 9).take 3 = [0, 0, 0]
  /-- No string has two records. -/
  distinct : image.records.toList.Nodup
  /-- Each record has one entry that refers to it. -/
  sole : ∀ i, i < image.records.size → (image.entriesTo i).length = 1
  /-- Entries with one hash are in the order of their references. -/
  ties : image.entries.toList.Pairwise fun a b => a.hash = b.hash → a.value ≤ b.value

variable {addressing : Addressing} {backing : Backing} {bytes : List UInt8}
    {entries : List IndexEntry}
  {records : List String} {image : Image} {draft : SnapshotDraft}

/-! ## The index -/

/-- An entry that stands for a record is the one that is written for it. -/
theorem mem_entriesFrom_of_standsFor {entry : IndexEntry} {s : String}
    (hstands : StandsFor addressing records entry.value s) (hhash : unitHash s = entry.hash) :
    entry ∈ entriesFrom addressing 0 0 records := by
  obtain ⟨i, hs, hvalue⟩ := hstands
  obtain ⟨hlt, -⟩ := List.getElem?_eq_some_iff.1 hs
  refine List.mem_of_getElem? (i := i) ?_
  rw [getElem?_entriesFrom, hs, getElem?_offsetsFrom hlt, Option.bind_some, Option.map_some,
    Nat.zero_add, Nat.zero_add, ← hvalue, hhash]
  cases entry
  simp

/-- Entries that are written, one for each record, are all that are written. -/
theorem perm_entriesFrom (hfits : Fits addressing 0 0 records)
    (hwritten : ∀ entry ∈ entries, entry ∈ entriesFrom addressing 0 0 records)
    (hsole : ∀ i, i < records.length → (entries.filter fun entry =>
      addressing.recordIndex? (offsetsFrom 0 records).toArray entry.value = some i).length = 1) :
    entries.Perm (entriesFrom addressing 0 0 records) := by
  have hindices := recordIndex?_entriesFrom hfits
  have hnodup := (List.nodup_range (n := records.length)).map fun _ _ => Option.some.inj
  rw [← hindices] at hnodup
  have hindex : ∀ entry ∈ entriesFrom addressing 0 0 records, ∃ i, i < records.length ∧
      addressing.recordIndex? (offsetsFrom 0 records).toArray entry.value = some i := by
    intro entry hentry
    have hmem := List.mem_map_of_mem
      (f := fun entry :
        IndexEntry => addressing.recordIndex? (offsetsFrom 0 records).toArray entry.value) hentry
    rw [hindices] at hmem
    obtain ⟨i, hi, heq⟩ := List.mem_map.1 hmem
    exact ⟨i, List.mem_range.1 hi, heq.symm⟩
  refine (List.perm_ext_iff_of_nodup ?_ hnodup.of_map).2 fun entry =>
    ⟨hwritten entry, fun hentry => ?_⟩
  · -- An entry that came twice would be counted twice for its record.
    rw [List.nodup_iff_count_le_one]
    intro entry
    by_cases hentry : entry ∈ entries
    · obtain ⟨i, hi, heq⟩ := hindex entry (hwritten entry hentry)
      have hcount := List.count_le_length (a := entry) (l := entries.filter fun entry =>
        addressing.recordIndex? (offsetsFrom 0 records).toArray entry.value = some i)
      rwa [List.count_filter (by simpa using heq), hsole i hi] at hcount
    · rw [List.count_eq_zero_of_not_mem hentry]
      exact Nat.zero_le 1
  · obtain ⟨i, hi, heq⟩ := hindex entry hentry
    obtain ⟨other, hother⟩ := List.length_eq_one_iff.1 (hsole i hi)
    have hmem := List.mem_filter.1 (hother ▸ List.mem_singleton_self other)
    have hsame := List.inj_on_of_nodup_map hnodup (hwritten other hmem.1) hentry
      ((of_decide_eq_true hmem.2).trans heq.symm)
    exact hsame ▸ hmem.1

/-! ## Writing again -/

/-- The offsets of an image are where its records stand. -/
theorem offsets_of_ofBytes (h : ofBytes backing bytes = .ok image) :
    image.offsets = (offsetsFrom 0 image.records.toList).toArray := by
  obtain ⟨header, -, h⟩ := bind_eq_ok.1 h
  obtain ⟨found, hrecords, h⟩ := bind_eq_ok.1 h
  obtain ⟨-, h⟩ := guard_eq_ok.1 h
  obtain ⟨-, -, hstrings, hplaces, -⟩ := of_assemble_eq_ok h
  rw [hplaces, hstrings, (of_readRecords_eq_ok hrecords).2]

/-- **A canonical image** is an image of the draft that is made of its records. -/
theorem Canonical.imaged (h : image.Canonical bytes) (hread : ofBytes backing bytes = .ok image) :
    (ofList image.addressing image.records.toList).Imaged backing image := by
  obtain ⟨hbacking, hspells⟩ := spells_of_ofBytes hread
  have hoffsets := offsets_of_ofBytes hread
  have hstrings : (ofList image.addressing image.records.toList).strings.toList =
      image.records.toList := by
    rw [strings_ofList, eraseDups_of_nodup h.distinct]
  have hfits : Fits image.addressing 0 0 image.records.toList :=
    (layOut_eq_ok (layOut_of_lt (Nat.le_refl 0) (by simpa using hspells.region))).2
  have hperm :
      image.entries.toList.Perm (entriesFrom image.addressing 0 0 image.records.toList) := by
    refine perm_entriesFrom hfits ?_ ?_
    · intro entry hentry
      obtain ⟨s, hstands, hhash⟩ := hspells.leads entry hentry
      exact mem_entriesFrom_of_standsFor hstands hhash
    · intro i hi
      rw [← hoffsets]
      exact h.sole i (by simpa using hi)
  constructor
  · rw [addressing_ofList]
  · exact hbacking
  · rw [← Array.toList_inj, hstrings]
  · rw [hoffsets, hstrings]
  · rwa [addressing_ofList, hstrings]
  · refine (hspells.sorted.and h.ties).imp fun {a b} ⟨hle, hties⟩ => ?_
    rw [entryBefore_iff]
    rcases Nat.lt_or_eq_of_le (UInt32.le_iff_toNat_le.1 hle) with hlt | heq
    · exact .inl hlt
    · exact .inr ⟨heq, UInt32.le_iff_toNat_le.1 (hties (UInt32.toNat_inj.1 heq))⟩
  · rwa [addressing_ofList, hstrings]

/-- An image of a draft has the bytes that the draft is written to, if its padding is zero. -/
theorem encode_of_imaged (himaged : draft.Imaged backing image)
    (hread : ofBytes backing bytes = .ok image) (hpadding : (bytes.drop 9).take 3 = [0, 0, 0]) :
    draft.encode = .ok bytes := by
  obtain ⟨padding, hthree, hbytes⟩ := (spells_of_ofBytes hread).2.layout
  have hzero : padding = [0, 0, 0] := by
    rw [← hpadding, hbytes]
    obtain ⟨p, q, r, rfl⟩ := List.length_eq_three.1 hthree
    rfl
  have hcount := himaged.entries.length_eq
  have hregion := himaged.fits.region
  have hlength := length_entriesFrom draft.addressing 0 0 draft.strings.toList
  rw [encode, layOut_of_lt (Nat.le_refl 0) hregion]
  simp only [bind, Except.bind, pure, Except.pure, himaged.entries_eq]
  rw [hbytes, hzero, himaged.addressing, himaged.records, hcount, hlength, paddedHeader_zero,
    List.append_assoc]

/-- What is written is canonical. -/
theorem canonical_of_encode (himaged : draft.Imaged backing image)
    (hencode : draft.encode = .ok bytes) (hnodup : draft.strings.toList.Nodup) :
    image.Canonical bytes := by
  constructor
  · rw [encode] at hencode
    cases hlaid : layOut draft.addressing 0 0 draft.strings.toList with
    | error failure =>
      rw [hlaid] at hencode
      cases hencode
    | ok laid =>
      rw [hlaid] at hencode
      rw [← Except.ok.inj hencode]
      rfl
  · rwa [himaged.records]
  · intro i hi
    rw [himaged.records, ← Array.length_toList] at hi
    obtain ⟨entry, hfilter, -⟩ := filter_entriesFrom himaged.fits (List.getElem?_eq_getElem hi)
    rw [entriesTo, himaged.addressing, himaged.offsets,
      (himaged.entries.filter _).length_eq, hfilter]
    rfl
  · refine himaged.sorted.imp fun {a b} hab heq => ?_
    rw [entryBefore_iff, heq] at hab
    rw [UInt32.le_iff_toNat_le]
    omega

/-- **What is read can be written again just if it is canonical**: archived anew, in the order of
its records and in its own addressing, an image gives the bytes that it was read from if nothing is
left open in them, and only then. In particular every snapshot that was ever written is canonical,
and reading it and writing it again changes no byte. -/
theorem rewritten_iff (backing : Backing) :
    (∀ bytes image, ofBytes backing bytes = .ok image →
      (image.Canonical bytes ↔ (ofList image.addressing image.records.toList).encode = .ok bytes)) ∧
    ∀ addressing strings bytes, (ofList addressing strings).encode = .ok bytes →
      ∃ image, ofBytes backing bytes = .ok image ∧ image.addressing = addressing ∧
        image.Canonical bytes ∧
        (ofList image.addressing image.records.toList).encode = .ok bytes := by
  constructor
  · intro bytes image hread
    constructor
    · intro hcanonical
      exact encode_of_imaged (hcanonical.imaged hread) hread hcanonical.padding
    · intro hencode
      obtain ⟨image', hread', himaged⟩ := imaged_ofBytes hencode backing
      obtain rfl : image' = image := Except.ok.inj (hread'.symm.trans hread)
      exact canonical_of_encode himaged hencode (nodup_ofList _ _)
  · intro addressing strings bytes hencode
    obtain ⟨image, hread, himaged⟩ := imaged_ofBytes hencode backing
    have hcanonical := canonical_of_encode himaged hencode (nodup_ofList addressing strings)
    have haddressing : image.addressing = addressing :=
      himaged.addressing.trans (addressing_ofList addressing strings)
    exact ⟨image, hread, haddressing, hcanonical,
      encode_of_imaged (hcanonical.imaged hread) hread hcanonical.padding⟩

/-- A snapshot of two strings with one hash. -/
def twinBytes : List UInt8 :=
  [0x53, 0x54, 0x52, 0x41, 1, 0, 0, 0, 0, 0, 0, 0, 2, 0, 0, 0, 0, 0, 0, 0, 0, 0, 0, 0, 12, 0, 0, 0,
    2, 0, 0, 0, 0x40, 8, 0, 0, 0, 0, 0, 0, 0x40, 8, 0, 0, 6, 0, 0, 0, 2, 0, 0, 0, 0x41, 0x61, 2, 0,
    0, 0, 0x42, 0x42]

theorem rewritten_twins :
    (ofList .offset ["Aa", "BB"]).encode = .ok twinBytes ∧
      ∃ image, ofBytes .mapped twinBytes = .ok image ∧ image.Canonical twinBytes ∧
        (ofList image.addressing image.records.toList).encode = .ok twinBytes := by
  have hencode : (ofList .offset ["Aa", "BB"]).encode = .ok twinBytes := by
    rw [encode, layOut_of_lt (Nat.le_refl 0) (by decide +kernel)]
    show Except.ok (_ ++ List.flatMap entryBytes (List.mergeSort _ _) ++ _) = _
    rw [List.mergeSort_of_pairwise (by decide +kernel)]
    decide +kernel
  obtain ⟨image, hread, -, hcanonical, -⟩ :=
    (rewritten_iff .mapped).2 .offset ["Aa", "BB"] twinBytes hencode
  exact ⟨hencode, image, hread, hcanonical,
    ((rewritten_iff .mapped).1 twinBytes image hread).1 hcanonical⟩

end Image

end WeakIntern
