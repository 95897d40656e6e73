import Mathlib.Data.List.Basic
import WeakIntern.Proofs.SharedIndex
import WeakIntern.Snapshot.Draft
/-!
# Snapshots read back

What a draft is encoded to is accepted by the reader, and read back: the records are the strings of
the draft in their order, and the index has one entry for each of them, which leads to it
(`imaged_ofBytes`). A draft holds no string twice, so the entries of a snapshot that was written
lead to different strings (`Imaged.decoded`).
-/

namespace WeakIntern

open scoped List

namespace Snapshot

/-! ## Numbers -/

theorem littleEndian_littleEndianBytes (width n : Nat) :
    littleEndian (littleEndianBytes width n) = n % 256 ^ width := by
  induction width generalizing n with
  | zero =>
    rw [Nat.pow_zero, Nat.mod_one]
    rfl
  | succ width ih =>
    have hbyte : (n % 256).toUInt8.toNat = n % 256 := by simp
    have hcons : littleEndian (littleEndianBytes (width + 1) n) =
        (n % 256).toUInt8.toNat + 256 * littleEndian (littleEndianBytes width (n / 256)) := rfl
    rw [hcons, ih, hbyte, Nat.pow_succ', Nat.mod_mul]

theorem littleEndian_wordBytes {n : Nat} (h : n < 2 ^ 32) : littleEndian (wordBytes n) = n := by
  rw [wordBytes, littleEndian_littleEndianBytes, Nat.mod_eq_of_lt h]

theorem wordAt_wordBytes {n : Nat} (h : n < 2 ^ 32) (rest : List UInt8) :
    wordAt (wordBytes n ++ rest) 0 = n :=
  littleEndian_wordBytes h

theorem length_littleEndianBytes (width n : Nat) : (littleEndianBytes width n).length = width := by
  induction width generalizing n with
  | zero => rfl
  | succ width ih => rw [littleEndianBytes, List.length_cons, ih]

theorem length_wordBytes (n : Nat) : (wordBytes n).length = 4 := length_littleEndianBytes 4 n

theorem toNat_toUInt32 {n : Nat} (h : n < 2 ^ 32) : n.toUInt32.toNat = n :=
  UInt32.toNat_ofNat_of_lt' h

theorem toUInt32_wordBytes (n : UInt32) (rest : List UInt8) :
    (wordAt (wordBytes n.toNat ++ rest) 0).toUInt32 = n := by
  rw [wordAt_wordBytes n.toNat_lt]
  simp

end Snapshot

namespace SnapshotDraft

/-! ## The layout of a draft -/

/-- A draft holds no string twice. -/
theorem nodup_ofList (addressing : Addressing) (strings : List String) :
    (ofList addressing strings).strings.toList.Nodup := by
  have hempty : ({ addressing } : SnapshotDraft).strings.toList.Nodup := List.nodup_nil
  refine List.foldlRecOn (motive := fun draft => draft.strings.toList.Nodup) strings add hempty ?_
  intro draft hdraft s _
  rw [strings_add]
  split
  · exact hdraft
  · next hs =>
    rw [Array.toList_push]
    refine List.nodup_append.2 ⟨hdraft, by simp, ?_⟩
    rintro t ht u hu rfl
    rw [List.mem_singleton.1 hu] at ht
    exact hs (Array.mem_toList_iff.1 ht)

theorem addressing_ofList (addressing : Addressing) (strings : List String) :
    (ofList addressing strings).addressing = addressing := by
  have hempty : ({ addressing } : SnapshotDraft).addressing = addressing := rfl
  refine List.foldlRecOn (motive := fun draft => draft.addressing = addressing) strings add
    hempty ?_
  intro draft hdraft s _
  exact (draft.addressing_add s).trans hdraft

/-- The heap region of some strings. -/
def regionBytes (strings : List String) : List UInt8 := strings.flatMap recordBytes

/-- A header with some padding. -/
def paddedHeader (addressing : Addressing) (padding : List UInt8)
    (entryCount heapLength recordCount : Nat) :
    List UInt8 :=
  Snapshot.magic ++ Snapshot.wordBytes Snapshot.version ++ addressing.toByte :: padding ++
    Snapshot.wordBytes entryCount ++ Snapshot.littleEndianBytes 8 0 ++
    Snapshot.wordBytes heapLength ++
    Snapshot.wordBytes recordCount

theorem paddedHeader_zero (addressing : Addressing) (count heapLength : Nat) :
    paddedHeader addressing [0, 0, 0] count heapLength count =
      headerBytes addressing count heapLength := rfl

/-- The offsets of the records of strings, the first of which is at `offset`. -/
def offsetsFrom (offset : Nat) : List String → List Nat
  | [] => []
  | s :: rest => offset :: offsetsFrom (offset + (recordBytes s).length) rest

/-- The reference to a record, by its number or its offset. -/
def reference : Addressing → (index offset : Nat) → Nat
  | .offset, _, offset => offset
  | .narrow, index, _ => index

/-- The entries of strings, the first of which has the given number and offset. -/
def entriesFrom (addressing : Addressing) : (index offset : Nat) → List String → List IndexEntry
  | _, _, [] => []
  | index, offset, s :: rest =>
    ⟨unitHash s, (reference addressing index offset).toUInt32⟩ ::
      entriesFrom addressing (index + 1) (offset + (recordBytes s).length) rest

/-- Everything that has to be counted in 32 bits is small enough. -/
structure Fits (addressing : Addressing) (index offset : Nat) (strings : List String) : Prop where
  length : ∀ s ∈ strings, (utf8Bytes s).length < 2 ^ 32
  region : offset + (regionBytes strings).length < 2 ^ 32
  reference : ∀ i, i < strings.length → addressing = .narrow → index + i < 2 ^ 32

variable {addressing : Addressing} {strings : List String} {index offset : Nat}

theorem length_recordBytes (s : String) : (recordBytes s).length = 4 + (utf8Bytes s).length := by
  rw [recordBytes, List.length_append]
  rfl

theorem tooLarge_eq_false {n : Nat} : tooLarge n = false ↔ n < 2 ^ 32 := by
  simp [tooLarge]

theorem layOut_cons (addressing : Addressing) (index offset : Nat) (s : String)
    (rest : List String) :
    layOut addressing index offset (s :: rest) =
      if tooLarge (utf8Bytes s).length then .error (.snapshotTooLarge (utf8Bytes s).length)
      else if tooLarge (reference addressing index offset) then
        .error (.snapshotTooLarge (offset + (recordBytes s).length))
      else
        (layOut addressing (index + 1) (offset + (recordBytes s).length) rest).map
          fun (entries, heap) =>
            (⟨unitHash s, (reference addressing index offset).toUInt32⟩ :: entries,
              recordBytes s ++ heap) := by
  cases addressing <;> rfl

/-- **What is laid out**, and that it fits. -/
theorem layOut_eq_ok {laid : List IndexEntry × List UInt8}
    (h : layOut addressing index offset strings = .ok laid) :
    laid = (entriesFrom addressing index offset strings, regionBytes strings) ∧
      Fits addressing index offset strings := by
  induction strings generalizing index offset laid with
  | nil =>
    rw [layOut] at h
    split at h
    · cases h
    · next hsmall =>
      cases h
      have hoffset : offset < 2 ^ 32 := tooLarge_eq_false.1 (by simpa using hsmall)
      exact ⟨rfl, by simp, hoffset, by simp⟩
  | cons s rest ih =>
    rw [layOut_cons] at h
    split at h
    · cases h
    · next hlength =>
      split at h
      · cases h
      · next hvalue =>
        cases hrest : layOut addressing (index + 1) (offset + (recordBytes s).length) rest with
        | error failure =>
          rw [hrest] at h
          cases h
        | ok laid' =>
          rw [hrest] at h
          obtain ⟨rfl, hfits⟩ := ih hrest
          cases h
          refine ⟨rfl, ?_, ?_, ?_⟩
          · intro t ht
            rcases List.mem_cons.1 ht with rfl | ht
            · exact tooLarge_eq_false.1 (by simpa using hlength)
            · exact hfits.length t ht
          · have hregion := hfits.region
            rw [regionBytes, List.flatMap_cons, List.length_append, ← regionBytes]
            omega
          · intro i hi hnarrow
            subst hnarrow
            cases i with
            | zero => exact tooLarge_eq_false.1 (by simpa [reference] using hvalue)
            | succ i =>
              have hbound := hfits.reference i (by simpa using hi) rfl
              omega

theorem length_entriesFrom (addressing : Addressing) (index offset : Nat) (strings : List String) :
    (entriesFrom addressing index offset strings).length = strings.length := by
  induction strings generalizing index offset with
  | nil => rfl
  | cons s rest ih => rw [entriesFrom, List.length_cons, ih, List.length_cons]

theorem length_offsetsFrom (offset : Nat) (strings : List String) :
    (offsetsFrom offset strings).length = strings.length := by
  induction strings generalizing offset with
  | nil => rfl
  | cons s rest ih => rw [offsetsFrom, List.length_cons, ih, List.length_cons]

theorem getElem?_entriesFrom (addressing : Addressing) (index offset : Nat)
    (strings : List String) (i : Nat) :
    (entriesFrom addressing index offset strings)[i]? = strings[i]?.bind fun s =>
      (offsetsFrom offset strings)[i]?.map fun place =>
        ⟨unitHash s, (reference addressing (index + i) place).toUInt32⟩ := by
  induction strings generalizing index offset i with
  | nil => simp [entriesFrom]
  | cons s rest ih =>
    cases i with
    | zero => rfl
    | succ i =>
      rw [entriesFrom, offsetsFrom, List.getElem?_cons_succ, List.getElem?_cons_succ,
        List.getElem?_cons_succ, ih, Nat.add_right_comm]
      rfl

theorem le_of_mem_offsetsFrom {place : Nat} (h : place ∈ offsetsFrom offset strings) :
    offset ≤ place ∧ place < offset + (regionBytes strings).length := by
  induction strings generalizing offset with
  | nil => cases h
  | cons s rest ih =>
    have hlength := length_recordBytes s
    rw [regionBytes, List.flatMap_cons, List.length_append, ← regionBytes]
    rcases List.mem_cons.1 h with rfl | h
    · omega
    · have hrest := ih h
      omega

theorem offsetsFrom_ascend (offset : Nat) (strings : List String) :
    (offsetsFrom offset strings).Pairwise (· < ·) := by
  induction strings generalizing offset with
  | nil => exact .nil
  | cons s rest ih =>
    refine .cons ?_ (ih _)
    intro place hplace
    have hlength := length_recordBytes s
    have hle := le_of_mem_offsetsFrom hplace
    omega

end SnapshotDraft

/-! ## References -/

/-- The offset of a record is found among the offsets of all. -/
theorem Addressing.recordIndex?_offset {offsets : List Nat}
    (hascend : offsets.Pairwise (· < ·)) {i : Nat} {value : UInt32}
    (hi : offsets[i]? = some value.toNat) :
    Addressing.offset.recordIndex? offsets.toArray value = some i := by
  obtain ⟨hlt, hvalue⟩ := List.getElem?_eq_some_iff.1 hi
  -- The offsets ascend, so that the bisection stops at the first that is not below the value: at
  -- `i`.
  have hbefore : ∀ j, j < i → decide (offsets.toArray.getD j value.toNat < value.toNat) = true := by
    intro j hj
    have hless := List.pairwise_iff_getElem.1 hascend j i (by omega) hlt hj
    have hjlt : j < offsets.length := by omega
    simp only [Array.getD_eq_getD_getElem?, List.getElem?_toArray, List.getElem?_eq_getElem hjlt,
      Option.getD_some, decide_eq_true_eq]
    omega
  have hafter : ∀ j, i ≤ j → decide (offsets.toArray.getD j value.toNat < value.toNat) = false := by
    intro j hj
    simp only [Array.getD_eq_getD_getElem?, List.getElem?_toArray,
      decide_eq_false_iff_not, Nat.not_lt]
    rcases Nat.lt_or_ge j offsets.length with hjlt | hjge
    · rw [List.getElem?_eq_getElem hjlt, Option.getD_some]
      rcases Nat.lt_or_eq_of_le hj with hj | rfl
      · have hless := List.pairwise_iff_getElem.1 hascend i j hlt hjlt hj
        omega
      · omega
    · have hnone : offsets[j]? = none := List.getElem?_eq_none hjge
      simp [hnone]
  have hbisect :=
    bisect_eq_of_split hbefore hafter 0 offsets.length (Nat.zero_le _) (Nat.le_of_lt hlt)
  simp only [Addressing.recordIndex?, List.size_toArray, hbisect, List.getElem?_toArray,
    hi, if_true]

namespace SnapshotDraft

variable {addressing : Addressing} {strings : List String}

/-- The string that a reference leads to among the records of strings. -/
def lookUp (addressing : Addressing) (strings : List String) : UInt32 → Option String :=
  addressing.record? (offsetsFrom 0 strings).toArray strings.toArray

/-- A reference is a place in the region or a number, and both have been checked to fit into 32
bits. -/
theorem recordIndex?_reference (hfits : Fits addressing 0 0 strings) {i place : Nat}
    (hlt : i < strings.length) (hplace : (offsetsFrom 0 strings)[i]? = some place) :
    addressing.recordIndex? (offsetsFrom 0 strings).toArray
      (reference addressing i place).toUInt32 = some i := by
  cases addressing with
  | offset =>
    have hmem := le_of_mem_offsetsFrom (List.mem_of_getElem? hplace)
    have hregion := hfits.region
    refine Addressing.recordIndex?_offset (offsetsFrom_ascend 0 strings) ?_
    rw [hplace, reference, Snapshot.toNat_toUInt32 (by omega)]
  | narrow =>
    have hbound := hfits.reference i hlt rfl
    rw [Nat.zero_add] at hbound
    rw [Addressing.recordIndex?, reference, Snapshot.toNat_toUInt32 hbound]

/-- The entry of a string leads to it. -/
theorem lookUp_entriesFrom (hfits : Fits addressing 0 0 strings) :
    (entriesFrom addressing 0 0 strings).map (fun entry => lookUp addressing strings entry.value) =
      strings.map some := by
  refine List.ext_getElem? ?_
  intro i
  rw [List.getElem?_map, List.getElem?_map, getElem?_entriesFrom]
  cases hs : strings[i]? with
  | none => rfl
  | some s =>
    obtain ⟨hlt, -⟩ := List.getElem?_eq_some_iff.1 hs
    have hlength := length_offsetsFrom 0 strings
    obtain ⟨place, hplace⟩ : ∃ place, (offsetsFrom 0 strings)[i]? = some place :=
      ⟨_, List.getElem?_eq_getElem (by omega)⟩
    rw [hplace]
    simp only [Option.bind_some, Option.map_some, lookUp, Addressing.record?, Nat.zero_add]
    rw [recordIndex?_reference hfits hlt hplace, Option.bind_some, List.getElem?_toArray, hs]

end SnapshotDraft

namespace Image

open SnapshotDraft

variable {strings : List String}

/-! ## Reading -/

theorem readRecords_cons (offset : Nat) {s : String} (hlength : (utf8Bytes s).length < 2 ^ 32)
    (rest : List UInt8) :
    readRecords offset (Snapshot.wordBytes (utf8Bytes s).length ++ (utf8Bytes s ++ rest)) =
      (readRecords (offset + 4 + (utf8Bytes s).length) rest).map ((offset, s) :: ·) := by
  have hword := Snapshot.littleEndian_wordBytes hlength
  obtain ⟨a, b, c, d, hbytes⟩ : ∃ a b c d, Snapshot.wordBytes (utf8Bytes s).length = [a, b, c, d] :=
    ⟨_, _, _, _, rfl⟩
  rw [hbytes] at hword ⊢
  show readRecords offset (a :: b :: c :: d :: (utf8Bytes s ++ rest)) = _
  simp only [readRecords, hword, List.take_left, List.drop_left, Nat.lt_irrefl, if_false,
    ofUtf8_utf8Bytes]

/-- **Records** are read back. -/
theorem readRecords_regionBytes (hlength : ∀ s ∈ strings, (utf8Bytes s).length < 2 ^ 32)
    (offset : Nat) :
    readRecords offset (regionBytes strings) = .ok ((offsetsFrom offset strings).zip strings) := by
  induction strings generalizing offset with
  | nil =>
    rw [regionBytes, List.flatMap_nil, readRecords]
    rfl
  | cons s rest ih =>
    have hrest :=
      ih (fun t ht => hlength t (List.mem_cons_of_mem _ ht)) (offset + (recordBytes s).length)
    rw [length_recordBytes, ← Nat.add_assoc] at hrest
    have hbytes : regionBytes (s :: rest) =
        Snapshot.wordBytes (utf8Bytes s).length ++ (utf8Bytes s ++ regionBytes rest) := by
      rw [regionBytes, List.flatMap_cons, recordBytes, List.append_assoc, ← regionBytes]
    rw [hbytes, readRecords_cons offset (hlength s List.mem_cons_self), hrest, offsetsFrom,
      length_recordBytes, List.zip_cons_cons, ← Nat.add_assoc]
    rfl

/-- The index is read back. -/
theorem entriesOf_flatMap (index : List IndexEntry) (rest : List UInt8) :
    entriesOf index.length (index.flatMap entryBytes ++ rest) = index := by
  induction index with
  | nil => rfl
  | cons entry index ih =>
    have hbytes : (entry :: index).flatMap entryBytes ++ rest =
        Snapshot.wordBytes entry.hash.toNat ++ (Snapshot.wordBytes entry.value.toNat ++
          (index.flatMap entryBytes ++ rest)) := by
      rw [List.flatMap_cons, entryBytes]
      simp only [List.append_assoc]
    have hvalue :
        Snapshot.wordAt (Snapshot.wordBytes entry.hash.toNat ++
          (Snapshot.wordBytes entry.value.toNat ++
        (index.flatMap entryBytes ++ rest))) 4 =
          Snapshot.wordAt (Snapshot.wordBytes entry.value.toNat ++
            (index.flatMap entryBytes ++ rest)) 0 := by
      rw [Snapshot.wordAt, List.drop_left' (Snapshot.length_wordBytes _)]
      rfl
    have hdrop : (Snapshot.wordBytes entry.hash.toNat ++ (Snapshot.wordBytes entry.value.toNat ++
        (index.flatMap entryBytes ++ rest))).drop Snapshot.entryLength =
          index.flatMap entryBytes ++ rest := rfl
    rw [hbytes, List.length_cons, entriesOf, hvalue, hdrop, ih, Snapshot.toUInt32_wordBytes,
      Snapshot.toUInt32_wordBytes]

/-- The header is read back, whatever its padding is, if the rest is as long as it says. -/
theorem headerOfBytes_paddedHeader (addressing : Addressing) {padding : List UInt8}
    (hpadding : padding.length = 3) {entryCount heapLength : Nat} (recordCount : Nat)
    (body : List UInt8) (hbody : body.length = entryCount * Snapshot.entryLength + heapLength)
    (hcount : entryCount < 2 ^ 32) (hheap : heapLength < 2 ^ 32) (hrecords : recordCount < 2 ^ 32) :
    Header.ofBytes (paddedHeader addressing padding entryCount heapLength recordCount ++ body) =
      .ok { addressing, entryCount, heapLength, recordCount } := by
  obtain ⟨p, q, r, rfl⟩ := List.length_eq_three.1 hpadding
  generalize hbytes : paddedHeader addressing [p, q, r] entryCount heapLength recordCount ++
    body = bytes
  have hlength : bytes.length = Snapshot.headerLength + entryCount * Snapshot.entryLength +
      heapLength := by
    rw [← hbytes, List.length_append, hbody, Nat.add_assoc]
    rfl
  -- Each field of the header stands alone, whatever is behind it.
  have hmagic : bytes.take 4 = Snapshot.magic := hbytes ▸ rfl
  have hversion : Snapshot.wordAt bytes 4 = Snapshot.version := hbytes ▸ rfl
  have hcode : (bytes.drop 8).headD 0 = addressing.toByte := hbytes ▸ rfl
  have hcount' : Snapshot.wordAt bytes 12 = entryCount :=
    hbytes ▸ Snapshot.littleEndian_wordBytes hcount
  have hseed : Snapshot.littleEndian ((bytes.drop 16).take 8) = 0 := by
    rw [← hbytes]
    exact Snapshot.littleEndian_littleEndianBytes 8 0
  have hheap' : Snapshot.wordAt bytes 24 = heapLength :=
    hbytes ▸ Snapshot.littleEndian_wordBytes hheap
  have hrecords' : Snapshot.wordAt bytes 28 = recordCount :=
    hbytes ▸ Snapshot.littleEndian_wordBytes hrecords
  have haddressing : Addressing.ofByte? addressing.toByte = some addressing := by
    cases addressing <;> rfl
  have hlong : ¬ Snapshot.headerLength + entryCount * Snapshot.entryLength + heapLength <
    Snapshot.headerLength := by omega
  rw [Header.ofBytes]
  simp only [hlength, hlong, hmagic, hversion, hcode, haddressing, hseed, hcount', hheap',
    hrecords', ne_eq, not_true_eq_false, if_false]
  rfl

/-- Entries that ascend and lead to strings with their hashes pass the check. -/
theorem checkEntries_eq_ok {decode : UInt32 → Option String} {index : Nat} {previous : UInt32}
    {entries : List IndexEntry} (habove : ∀ entry ∈ entries, previous ≤ entry.hash)
    (hsorted : entries.Pairwise fun a b => a.hash ≤ b.hash)
    (hleads : ∀ entry ∈ entries, (decode entry.value).map unitHash = some entry.hash) :
    checkEntries decode index previous entries = .ok () := by
  induction entries generalizing index previous with
  | nil => rfl
  | cons entry rest ih =>
    obtain ⟨habove', hsorted'⟩ := List.pairwise_cons.1 hsorted
    obtain ⟨s, hs, hhash⟩ := Option.map_eq_some_iff.1 (hleads entry List.mem_cons_self)
    have hentry : checkEntry decode index previous entry = .ok () := by
      rw [checkEntry, if_neg (UInt32.not_lt.2 (habove entry List.mem_cons_self)), hs]
      exact if_pos hhash
    rw [checkEntries, hentry]
    exact ih habove' hsorted' fun e he => hleads e (List.mem_cons_of_mem _ he)

/-- Entries that pass the check make an image. -/
theorem assemble_eq_ok {addressing : Addressing} (backing : Backing) {records : List (Nat × String)}
    {entries : List IndexEntry}
    (h : checkEntries
      (addressing.record? (records.map Prod.fst).toArray (records.map Prod.snd).toArray) 0 0
        entries = .ok ()) :
    ∃ image, assemble addressing backing records entries = .ok image ∧
      image.addressing = addressing ∧
      image.backing = backing ∧ image.records = (records.map Prod.snd).toArray ∧
      image.offsets = (records.map Prod.fst).toArray ∧ image.entries = entries.toArray := by
  unfold assemble
  dsimp only
  split
  · next fault hfault =>
    rw [h] at hfault
    cases hfault
  · exact ⟨_, rfl, rfl, rfl, rfl, rfl, rfl⟩

end Image

namespace SnapshotDraft

/-! ## What was written -/

variable {draft : SnapshotDraft} {addressing : Addressing} {strings : List String}

theorem entryBefore_iff (a b : IndexEntry) : entryBefore a b = true ↔
    a.hash.toNat < b.hash.toNat ∨ a.hash.toNat = b.hash.toNat ∧ a.value.toNat ≤ b.value.toNat := by
  simp [entryBefore, UInt32.lt_iff_toNat_lt, UInt32.le_iff_toNat_le, UInt32.toNat_inj]

theorem pairwise_mergeSort_entryBefore (entries : List IndexEntry) :
    (entries.mergeSort entryBefore).Pairwise fun a b => entryBefore a b = true := by
  refine List.pairwise_mergeSort ?_ ?_ entries
  · intro a b c hab hbc
    rw [entryBefore_iff] at hab hbc ⊢
    omega
  · intro a b
    rw [Bool.or_eq_true, entryBefore_iff, entryBefore_iff]
    omega

theorem length_flatMap_entryBytes (entries : List IndexEntry) :
    (entries.flatMap entryBytes).length = entries.length * Snapshot.entryLength := by
  induction entries with
  | nil => rfl
  | cons entry rest ih =>
    rw [List.flatMap_cons, List.length_append, ih, List.length_cons, Nat.succ_mul, Nat.add_comm]
    rfl

theorem length_le_regionBytes (strings : List String) :
    strings.length ≤ (regionBytes strings).length := by
  induction strings with
  | nil => exact Nat.le_refl _
  | cons s rest ih =>
    rw [regionBytes, List.flatMap_cons, List.length_append, length_recordBytes, ← regionBytes,
      List.length_cons]
    omega

theorem length_le_of_mem {s : String} (h : s ∈ strings) :
    (utf8Bytes s).length ≤ (regionBytes strings).length := by
  induction strings with
  | nil => cases h
  | cons t rest ih =>
    rw [regionBytes, List.flatMap_cons, List.length_append, length_recordBytes, ← regionBytes]
    rcases List.mem_cons.1 h with rfl | h
    · omega
    · have hle := ih h
      omega

/-- Each string is led to, and has the hash of its entry. -/
theorem leads_entriesFrom (hfits : Fits addressing 0 0 strings) :
    ∀ entry ∈ entriesFrom addressing 0 0 strings,
      (lookUp addressing strings entry.value).map unitHash = some entry.hash := by
  intro entry hentry
  obtain ⟨i, hi⟩ := List.mem_iff_getElem?.1 hentry
  have hrecord := congrArg (·[i]?) (lookUp_entriesFrom hfits)
  simp only [List.getElem?_map, hi, Option.map_some] at hrecord
  rw [getElem?_entriesFrom] at hi
  cases hs : strings[i]? with
  | none =>
    rw [hs] at hi
    cases hi
  | some s =>
    rw [hs, Option.bind_some] at hi
    obtain ⟨place, -, rfl⟩ := Option.map_eq_some_iff.1 hi
    rw [hs, Option.map_some, Option.some.injEq] at hrecord
    rw [hrecord, Option.map_some]

/-- An image of a draft: its records are the strings of the draft, and its index has an entry for
each of them. -/
structure Imaged (draft : SnapshotDraft) (backing : Backing) (image : Image) : Prop where
  addressing : image.addressing = draft.addressing
  backing : image.backing = backing
  records : image.records = draft.strings
  offsets : image.offsets = (offsetsFrom 0 draft.strings.toList).toArray
  entries : image.entries.toList.Perm (entriesFrom draft.addressing 0 0 draft.strings.toList)
  sorted : image.entries.toList.Pairwise fun a b => entryBefore a b = true
  fits : Fits draft.addressing 0 0 draft.strings.toList

/-- **The parts of a snapshot** are found where they were put. -/
theorem ofBytes_parts (addressing : Addressing) (padding : List UInt8)
    (hpadding : padding.length = 3) (index : List IndexEntry) (hcount : index.length < 2 ^ 32)
    (hregion : (regionBytes strings).length < 2 ^ 32) (backing : Backing) :
    Image.ofBytes backing
      (paddedHeader addressing padding index.length (regionBytes strings).length strings.length ++
        (index.flatMap entryBytes ++ regionBytes strings)) =
      Image.assemble addressing backing ((offsetsFrom 0 strings).zip strings) index := by
  have hstrings := length_le_regionBytes strings
  have hlength : ∀ s ∈ strings, (utf8Bytes s).length < 2 ^ 32 := fun s hs =>
    Nat.lt_of_le_of_lt (length_le_of_mem hs) hregion
  have hlong : (index.flatMap entryBytes ++ regionBytes strings).length =
      index.length * Snapshot.entryLength + (regionBytes strings).length := by
    rw [List.length_append, length_flatMap_entryBytes]
  have hheader :=
    Image.headerOfBytes_paddedHeader addressing hpadding strings.length _ hlong hcount
      hregion (by omega)
  have hafter :
      (index.flatMap entryBytes ++ regionBytes strings).drop (index.length * Snapshot.entryLength) =
      regionBytes strings := List.drop_left' (length_flatMap_entryBytes index)
  have hbody :
      (paddedHeader addressing padding index.length (regionBytes strings).length strings.length ++
      (index.flatMap entryBytes ++ regionBytes strings)).drop Snapshot.headerLength =
        index.flatMap entryBytes ++ regionBytes strings := by
    obtain ⟨p, q, r, rfl⟩ := List.length_eq_three.1 hpadding
    rfl
  have hrecords : ((offsetsFrom 0 strings).zip strings).length = strings.length := by
    rw [List.length_zip, length_offsetsFrom, Nat.min_self]
  rw [Image.ofBytes, hheader]
  simp only [bind, Except.bind, hbody, hafter, Image.readRecords_regionBytes hlength,
    Image.entriesOf_flatMap, hrecords, ne_eq, not_true_eq_false, if_false]

/-- Parts with an index that passes the check make an image. -/
theorem ofBytes_parts_eq_ok {addressing : Addressing} (padding : List UInt8)
    (hpadding : padding.length = 3) {index : List IndexEntry} (hcount : index.length < 2 ^ 32)
    (hregion : (regionBytes strings).length < 2 ^ 32)
    (hchecked : Image.checkEntries (lookUp addressing strings) 0 0 index = .ok ())
    (backing : Backing) :
    ∃ image, Image.ofBytes backing
      (paddedHeader addressing padding index.length (regionBytes strings).length
        strings.length ++ (index.flatMap entryBytes ++ regionBytes strings)) = .ok image ∧
      image.addressing = addressing ∧ image.backing = backing ∧ image.records = strings.toArray ∧
      image.offsets = (offsetsFrom 0 strings).toArray ∧ image.entries = index.toArray := by
  rw [ofBytes_parts addressing padding hpadding index hcount hregion backing]
  have hoffsets := length_offsetsFrom 0 strings
  have hfst := List.map_fst_zip (Nat.le_of_eq hoffsets)
  have hsnd := List.map_snd_zip (Nat.le_of_eq hoffsets.symm)
  generalize (offsetsFrom 0 strings).zip strings = records at hfst hsnd
  rw [lookUp, ← hfst, ← hsnd] at hchecked
  rw [← hfst, ← hsnd]
  exact Image.assemble_eq_ok backing hchecked

/-- The index of a draft passes the check. -/
theorem checkEntries_index {addressing : Addressing} (hfits : Fits addressing 0 0 strings)
    {index : List IndexEntry} (hperm : index.Perm (entriesFrom addressing 0 0 strings))
    (hsorted : index.Pairwise fun a b => entryBefore a b = true) :
    Image.checkEntries (lookUp addressing strings) 0 0 index = .ok () := by
  have hascend : index.Pairwise fun a b => a.hash ≤ b.hash := by
    refine hsorted.imp fun {a b} hab => ?_
    rw [entryBefore_iff] at hab
    rw [UInt32.le_iff_toNat_le]
    omega
  exact Image.checkEntries_eq_ok (fun _ _ => UInt32.zero_le) hascend fun entry hentry =>
    leads_entriesFrom hfits entry (hperm.mem_iff.1 hentry)

/-- **What is encoded is accepted**, and read back. -/
theorem imaged_ofBytes {bytes : List UInt8} (h : draft.encode = .ok bytes) (backing : Backing) :
    ∃ image, Image.ofBytes backing bytes = .ok image ∧ draft.Imaged backing image := by
  rw [encode] at h
  cases hlaid : layOut draft.addressing 0 0 draft.strings.toList with
  | error failure =>
    rw [hlaid] at h
    cases h
  | ok laid =>
    rw [hlaid] at h
    obtain ⟨rfl, hfits⟩ := layOut_eq_ok hlaid
    replace h := Except.ok.inj h
    have hcount := length_entriesFrom draft.addressing 0 0 draft.strings.toList
    have hperm :=
      List.mergeSort_perm (entriesFrom draft.addressing 0 0 draft.strings.toList) entryBefore
    have hsorted :=
      pairwise_mergeSort_entryBefore (entriesFrom draft.addressing 0 0 draft.strings.toList)
    -- From here on the order of the index does not matter, only that it is sorted and has these
    -- entries.
    generalize (entriesFrom draft.addressing 0 0 draft.strings.toList).mergeSort entryBefore =
      index at h hperm hsorted
    have hregion := hfits.region
    rw [Nat.zero_add] at hregion
    have hsame := hperm.length_eq.trans hcount
    have hstrings := length_le_regionBytes draft.strings.toList
    have hchecked := checkEntries_index hfits hperm hsorted
    obtain ⟨image, himage, haddressing, hbacking, hstrings, hplaces, hindex⟩ :=
      ofBytes_parts_eq_ok [0, 0, 0] rfl (by omega) hregion hchecked backing
    rw [← hsame, hperm.length_eq, ← List.append_assoc, paddedHeader_zero, h] at himage
    refine ⟨image, himage, haddressing, hbacking, ?_, ?_, ?_, ?_, hfits⟩
    · rw [hstrings]
    · rw [hplaces]
    · rw [hindex]
      exact hperm
    · rw [hindex]
      exact hsorted

/-- The strings that the entries lead to are those of the draft, each once. -/
theorem Imaged.decoded {backing : Backing} {image : Image} (h : draft.Imaged backing image) :
    (image.entries.toList.filterMap fun entry => image.decode? entry.value image.addressing).Perm
      draft.strings.toList := by
  have hdecode : (fun entry : IndexEntry => image.decode? entry.value image.addressing) =
      fun entry => lookUp draft.addressing draft.strings.toList entry.value := by
    funext entry
    rw [Image.decode?, h.addressing, h.records, h.offsets, lookUp, Array.toArray_toList]
  have hall : (entriesFrom draft.addressing 0 0 draft.strings.toList).filterMap
      (fun entry => lookUp draft.addressing draft.strings.toList entry.value) =
        draft.strings.toList := by
    rw [← Function.id_comp fun entry : IndexEntry =>
      lookUp draft.addressing draft.strings.toList entry.value, ← List.filterMap_map,
      lookUp_entriesFrom h.fits, List.filterMap_map, Function.id_comp, List.filterMap_some]
  have hperm :=
    h.entries.filterMap fun entry => lookUp draft.addressing draft.strings.toList entry.value
  rw [hall] at hperm
  rw [hdecode]
  exact hperm

end SnapshotDraft

/-- An image of a snapshot that was written, from any strings and in either addressing. -/
def Image.Written (image : Image) : Prop :=
  ∃ addressing strings bytes, (SnapshotDraft.ofList addressing strings).encode = .ok bytes ∧
    Image.ofBytes image.backing bytes = .ok image

/-- The contents of the objects of an overlay are what the entries of the snapshot lead to. -/
theorem Overlay.contents_ofImage (heap : Heap) (image : Image) :
    (ofImage heap image).1.objects.map (ofImage heap image).2.content =
      image.entries.toList.filterMap fun entry => image.decode? entry.value image.addressing := by
  rw [objects, List.map_filterMap]
  exact congrArg (image.entries.toList.filterMap ·) (funext (content_object?_ofImage heap image))

/-- The objects that an overlay gets from a snapshot that was written have different contents. -/
theorem Overlay.nodup_contents_ofImage {image : Image} (h : image.Written) (heap : Heap) :
    ((ofImage heap image).1.objects.map (ofImage heap image).2.content).Nodup := by
  obtain ⟨addressing, strings, bytes, hencode, hread⟩ := h
  obtain ⟨image', hread', himaged⟩ := SnapshotDraft.imaged_ofBytes hencode image.backing
  obtain rfl : image' = image := Except.ok.inj (hread'.symm.trans hread)
  rw [contents_ofImage]
  exact himaged.decoded.nodup_iff.2 (SnapshotDraft.nodup_ofList addressing strings)

end WeakIntern
