import WeakIntern.Proofs.Snapshots
/-!
# What the reader accepts

`Spells bytes addressing entries records` is the snapshot format: some bytes spell an index and some
records. The reader accepts the bytes that spell something, in whatever way they were made, and
gives back what they spell (`ofBytes_eq_ok_iff`). Bytes spell one thing at most, so an image is
determined by its bytes.
-/

namespace WeakIntern

namespace Snapshot

/-! ## Numbers -/

theorem littleEndian_cons (b : UInt8) (rest : List UInt8) :
    littleEndian (b :: rest) = b.toNat + 256 * littleEndian rest := rfl

theorem littleEndian_lt (bytes : List UInt8) : littleEndian bytes < 256 ^ bytes.length := by
  induction bytes with
  | nil => exact Nat.one_pos
  | cons b rest ih =>
    have hb := b.toNat_lt
    rw [littleEndian_cons, List.length_cons, Nat.pow_succ']
    omega

theorem littleEndianBytes_littleEndian (bytes : List UInt8) :
    littleEndianBytes bytes.length (littleEndian bytes) = bytes := by
  induction bytes with
  | nil => rfl
  | cons b rest ih =>
    have hb := b.toNat_lt
    have hlow : (b.toNat + 256 * littleEndian rest) % 256 = b.toNat := by omega
    have hhigh : (b.toNat + 256 * littleEndian rest) / 256 = littleEndian rest := by omega
    rw [List.length_cons, littleEndianBytes, littleEndian_cons, hlow, hhigh, ih]
    simp

theorem wordBytes_wordAt {bytes : List UInt8} {offset : Nat} (h : offset + 4 ≤ bytes.length) :
    wordBytes (wordAt bytes offset) = (bytes.drop offset).take 4 := by
  have hlength : ((bytes.drop offset).take 4).length = 4 := by
    rw [List.length_take, List.length_drop]
    omega
  have hbytes := littleEndianBytes_littleEndian ((bytes.drop offset).take 4)
  rwa [hlength] at hbytes

theorem wordAt_lt (bytes : List UInt8) (offset : Nat) : wordAt bytes offset < 2 ^ 32 := by
  have hlt := littleEndian_lt ((bytes.drop offset).take 4)
  have hle : 256 ^ ((bytes.drop offset).take 4).length ≤ 256 ^ 4 :=
    Nat.pow_le_pow_right (by decide) (List.length_take_le _ _)
  exact Nat.lt_of_lt_of_le hlt hle

end Snapshot

open SnapshotDraft

/-! ## The format -/

/-- A value stands for the record of its number, or for the one that starts at this place of the
heap region. -/
def StandsFor (addressing : Addressing) (records : List String) (value : UInt32)
    (s : String) : Prop :=
  ∃ i, records[i]? = some s ∧
    value.toNat = reference addressing i (regionBytes (records.take i)).length

/-- Bytes that spell an index and some records. -/
structure Spells (bytes : List UInt8) (addressing : Addressing) (entries : List IndexEntry)
    (records : List String) :
    Prop where
  /-- Everything is in its place, the lengths and counts of the header are those of what follows,
  and nothing is behind. -/
  layout : ∃ padding, padding.length = 3 ∧ bytes =
    paddedHeader addressing padding entries.length (regionBytes records).length records.length ++
      (entries.flatMap entryBytes ++ regionBytes records)
  entryCount : entries.length < 2 ^ 32
  region : (regionBytes records).length < 2 ^ 32
  sorted : entries.Pairwise fun a b => a.hash ≤ b.hash
  /-- Every entry stands for a record that has its hash. -/
  leads : ∀ entry ∈ entries, ∃ s, StandsFor addressing records entry.value s ∧
    unitHash s = entry.hash

/-! ## References -/

theorem SnapshotDraft.getElem?_offsetsFrom {strings : List String} {i : Nat}
    (h : i < strings.length) (offset : Nat) :
    (offsetsFrom offset strings)[i]? = some (offset + (regionBytes (strings.take i)).length) := by
  induction strings generalizing offset i with
  | nil => cases h
  | cons s rest ih =>
    cases i with
    | zero => rfl
    | succ i =>
      rw [offsetsFrom, List.getElem?_cons_succ, ih (by simpa using h), List.take_succ_cons,
        regionBytes, regionBytes, List.flatMap_cons, List.length_append, Nat.add_assoc]

/-- What a value leads to is what it stands for. -/
theorem Addressing.record?_eq_some_iff {addressing : Addressing} {records : List String}
    {value : UInt32} {s : String} :
    addressing.record? (offsetsFrom 0 records).toArray records.toArray value = some s ↔
      StandsFor addressing records value s := by
  rw [Addressing.record?, Option.bind_eq_some_iff]
  constructor
  · rintro ⟨i, hi, hs⟩
    rw [List.getElem?_toArray] at hs
    refine ⟨i, hs, ?_⟩
    cases addressing with
    | narrow => exact Option.some.inj hi
    | offset =>
      obtain ⟨hlt, -⟩ := List.getElem?_eq_some_iff.1 hs
      have hplace := getElem?_offsetsFrom hlt 0
      simp only [Addressing.recordIndex?] at hi
      split at hi
      · next hfound =>
        rw [Option.some.inj hi, List.getElem?_toArray, hplace, Nat.zero_add] at hfound
        exact (Option.some.inj hfound).symm
      · cases hi
  · rintro ⟨i, hs, hvalue⟩
    refine ⟨i, ?_, by rwa [List.getElem?_toArray]⟩
    cases addressing with
    | narrow => exact congrArg some hvalue
    | offset =>
      obtain ⟨hlt, -⟩ := List.getElem?_eq_some_iff.1 hs
      refine Addressing.recordIndex?_offset (offsetsFrom_ascend 0 records) ?_
      rw [getElem?_offsetsFrom hlt, hvalue, Nat.zero_add, reference]

namespace Image

/-! ## The parts of bytes that are accepted -/

theorem ofByte?_eq_some {code : UInt8} {addressing : Addressing}
    (h : Addressing.ofByte? code = some addressing) :
    code = addressing.toByte := by
  unfold Addressing.ofByte? at h
  split at h <;> cases h <;> rfl

/-- What the checks of a header have found, each in its place. -/
structure Header.Found (bytes : List UInt8) (header : Header) : Prop where
  magic : bytes.take 4 = Snapshot.magic
  version : Snapshot.wordAt bytes 4 = Snapshot.version
  addressing : (bytes.drop 8).headD 0 = header.addressing.toByte
  entryCount : Snapshot.wordAt bytes 12 = header.entryCount
  seed : Snapshot.littleEndian ((bytes.drop 16).take 8) = 0
  heapLength : Snapshot.wordAt bytes 24 = header.heapLength
  recordCount : Snapshot.wordAt bytes 28 = header.recordCount
  length : bytes.length = Snapshot.headerLength + header.entryCount * Snapshot.entryLength +
    header.heapLength

/-- What is accepted has passed each guard. -/
theorem guard_eq_ok {ε α : Type} {p : Prop} [Decidable p] {fault : ε} {next : Except ε α} {a : α} :
    (if p then .error fault else next) = .ok a ↔ ¬ p ∧ next = .ok a := by
  by_cases hp : p <;> simp [hp]

theorem bind_eq_ok {ε α β : Type} {first : Except ε α} {next : α → Except ε β} {b : β} :
    (first >>= next) = .ok b ↔ ∃ a, first = .ok a ∧ next a = .ok b := by
  cases first <;> simp [bind, Except.bind]

theorem found_of_headerOfBytes {bytes : List UInt8} {header : Header}
    (h : Header.ofBytes bytes = .ok header) :
    header.Found bytes := by
  simp only [Header.ofBytes, bind, Except.bind, throw, throwThe, MonadExceptOf.throw, pure,
    Except.pure] at h
  obtain ⟨-, h⟩ := guard_eq_ok.1 h
  obtain ⟨hmagic, h⟩ := guard_eq_ok.1 h
  obtain ⟨hversion, h⟩ := guard_eq_ok.1 h
  cases hcode : Addressing.ofByte? ((bytes.drop 8).headD 0) with
  | none =>
    rw [hcode] at h
    cases h
  | some addressing =>
    rw [hcode] at h
    obtain ⟨hseed, h⟩ := guard_eq_ok.1 h
    obtain ⟨hlength, h⟩ := guard_eq_ok.1 h
    cases h
    exact ⟨not_not.1 hmagic, not_not.1 hversion, ofByte?_eq_some hcode, rfl, not_not.1 hseed, rfl,
      rfl, not_not.1 hlength⟩

/-- The beginning of bytes that are accepted is a header. -/
theorem Header.Found.take_eq {bytes : List UInt8} {header : Header} (h : header.Found bytes) :
    bytes.take Snapshot.headerLength =
      paddedHeader header.addressing ((bytes.drop 9).take 3) header.entryCount header.heapLength
        header.recordCount := by
  have hlong : 32 ≤ bytes.length := by
    rw [h.length, Snapshot.headerLength, Nat.add_assoc]
    exact Nat.le_add_right _ _
  have hcode : (bytes.drop 8).take 1 = [header.addressing.toByte] := by
    have hbehind : (bytes.drop 8).length = bytes.length - 8 := List.length_drop
    rw [← h.addressing]
    cases hdrop : bytes.drop 8 with
    | nil =>
      rw [hdrop, List.length_nil] at hbehind
      omega
    | cons code rest => rfl
  have hseed : (bytes.drop 16).take 8 = Snapshot.littleEndianBytes 8 0 := by
    have hbytes := Snapshot.littleEndianBytes_littleEndian ((bytes.drop 16).take 8)
    have hlength : ((bytes.drop 16).take 8).length = 8 := by
      rw [List.length_take, List.length_drop]
      omega
    rw [h.seed, hlength] at hbytes
    exact hbytes.symm
  rw [paddedHeader, ← h.magic, ← h.version, ← h.entryCount, ← h.heapLength, ← h.recordCount,
    ← hseed, Snapshot.wordBytes_wordAt (by omega), Snapshot.wordBytes_wordAt (by omega),
    Snapshot.wordBytes_wordAt (by omega), Snapshot.wordBytes_wordAt (by omega),
    ← List.singleton_append, ← hcode, show Snapshot.headerLength = 4 + 4 + 1 + 3 + 4 + 8 +
    4 + 4 from rfl]
  rw [List.take_add, List.take_add, List.take_add, List.take_add, List.take_add, List.take_add,
    List.take_add]
  simp only [List.append_assoc, Nat.reduceAdd]

/-- Records that are accepted are the whole region. -/
theorem of_readRecords_eq_ok {offset : Nat} {region : List UInt8} {records : List (Nat × String)}
    (h : readRecords offset region = .ok records) :
    region = regionBytes (records.map Prod.snd) ∧
      records.map Prod.fst = offsetsFrom offset (records.map Prod.snd) := by
  fun_induction readRecords offset region generalizing records with
  | case1 offset =>
    cases h
    exact ⟨rfl, rfl⟩
  | case2 => cases h
  | case3 => cases h
  | case4 offset a b c d body length content hlength s hs =>
    rename_i ih
    cases hrest : readRecords (offset + 4 + length) (body.drop length) with
    | error fault =>
      rw [hrest] at h
      cases h
    | ok rest =>
      rw [hrest] at h
      cases h
      obtain ⟨hbytes, hplaces⟩ := ih hrest
      have hcontent : body.take length = utf8Bytes s := eq_utf8Bytes_of_ofUtf8 hs
      -- The length is the one that was read, so that its bytes and the content make the record.
      have hlast : (utf8Bytes s).length = length := by
        rw [← hcontent]
        exact Nat.le_antisymm (List.length_take_le _ _) (Nat.not_lt.1 hlength)
      have hword : Snapshot.wordBytes length = [a, b, c, d] :=
        Snapshot.littleEndianBytes_littleEndian [a, b, c, d]
      have hrecord : recordBytes s = a :: b :: c :: d :: utf8Bytes s := by
        rw [recordBytes, hlast, hword]
        rfl
      constructor
      · rw [List.map_cons, regionBytes, List.flatMap_cons, ← regionBytes, hrecord,
          ← hbytes, ← hcontent]
        simp only [List.cons_append, List.take_append_drop]
      · rw [List.map_cons, List.map_cons, offsetsFrom, hplaces, length_recordBytes, hlast,
          Nat.add_assoc]
  | case5 => cases h

/-- The bytes of the index are those of the entries that are read from them. -/
theorem flatMap_entriesOf {count : Nat} {bytes : List UInt8}
    (h : count * Snapshot.entryLength ≤ bytes.length) :
    (entriesOf count bytes).flatMap entryBytes = bytes.take (count * Snapshot.entryLength) := by
  induction count generalizing bytes with
  | zero => rw [Nat.zero_mul, List.take_zero, entriesOf, List.flatMap_nil]
  | succ count ih =>
    rw [Nat.succ_mul] at h
    have hlong : Snapshot.entryLength ≤ bytes.length := Nat.le_of_add_left_le h
    have hrest : count * Snapshot.entryLength ≤ (bytes.drop Snapshot.entryLength).length := by
      rw [List.length_drop]
      omega
    have hword (offset : Nat) (hoffset : offset + 4 ≤ bytes.length) :
        Snapshot.wordBytes (Snapshot.wordAt bytes offset).toUInt32.toNat =
          (bytes.drop offset).take 4 := by
      rw [Snapshot.toNat_toUInt32 (Snapshot.wordAt_lt _ _), Snapshot.wordBytes_wordAt hoffset]
    have hentry : bytes.take Snapshot.entryLength = (bytes.drop 0).take 4 ++
        (bytes.drop 4).take 4 := by
      show bytes.take (4 + 4) = _
      exact List.take_add
    rw [Snapshot.entryLength] at hlong
    rw [entriesOf, List.flatMap_cons, ih hrest, entryBytes, hword 0 (by omega), hword 4 (by omega),
      ← hentry, Nat.succ_mul, Nat.add_comm (count * _), List.take_add]

theorem length_entriesOf (count : Nat) (bytes : List UInt8) :
    (entriesOf count bytes).length = count := by
  induction count generalizing bytes with
  | zero => rfl
  | succ count ih => rw [entriesOf, List.length_cons, ih]

theorem of_assemble_eq_ok {addressing : Addressing} {backing : Backing}
    {records : List (Nat × String)} {entries : List IndexEntry} {image : Image}
    (h : assemble addressing backing records entries = .ok image) :
    image.addressing = addressing ∧ image.backing = backing ∧
      image.records = (records.map Prod.snd).toArray ∧
      image.offsets = (records.map Prod.fst).toArray ∧ image.entries = entries.toArray := by
  unfold assemble at h
  dsimp only at h
  split at h
  · cases h
  · cases h
    exact ⟨rfl, rfl, rfl, rfl, rfl⟩

/-! ## Acceptance -/

variable {backing : Backing} {bytes : List UInt8} {addressing : Addressing}
    {entries : List IndexEntry}
  {records : List String}

/-- Bytes that are accepted spell what the image holds. -/
theorem spells_of_ofBytes {image : Image} (h : ofBytes backing bytes = .ok image) :
    image.backing = backing ∧
      Spells bytes image.addressing image.entries.toList image.records.toList := by
  obtain ⟨header, hheader, h⟩ := bind_eq_ok.1 h
  obtain ⟨found, hrecords, h⟩ := bind_eq_ok.1 h
  obtain ⟨hcount, h⟩ := guard_eq_ok.1 h
  obtain ⟨haddressing, hbacking, hstrings, hplaces, hindex⟩ := of_assemble_eq_ok h
  replace hheader := found_of_headerOfBytes hheader
  obtain ⟨hregion, hoffsets⟩ := of_readRecords_eq_ok hrecords
  have hlength := hheader.length
  have hbody : (bytes.drop Snapshot.headerLength).length =
      header.entryCount * Snapshot.entryLength + header.heapLength := by
    rw [List.length_drop]
    omega
  have hentries : (entriesOf header.entryCount (bytes.drop Snapshot.headerLength)).length =
      header.entryCount :=
    length_entriesOf _ _
  have hheap : (regionBytes (found.map Prod.snd)).length = header.heapLength := by
    rw [← hregion, List.length_drop]
    omega
  have hrecordCount : (found.map Prod.snd).length = header.recordCount := by
    rw [List.length_map, not_not.1 hcount]
  refine ⟨hbacking, ?_, ?_, ?_, image.sorted, ?_⟩
  · refine ⟨(bytes.drop 9).take 3, ?_, ?_⟩
    · rw [Snapshot.headerLength] at hlength
      rw [List.length_take, List.length_drop]
      omega
    rw [haddressing, hindex, hstrings, List.toList_toArray, List.toList_toArray, hentries, hheap,
      hrecordCount, ← hheader.take_eq, flatMap_entriesOf (by omega), ← hregion,
      List.take_append_drop, List.take_append_drop]
  · rw [hindex, List.toList_toArray, hentries, ← hheader.entryCount]
    exact Snapshot.wordAt_lt _ _
  · rw [hstrings, List.toList_toArray, hheap, ← hheader.heapLength]
    exact Snapshot.wordAt_lt _ _
  · intro entry hentry
    obtain ⟨s, hs, hhash⟩ := Option.map_eq_some_iff.1 (image.leads entry hentry)
    refine ⟨s, ?_, hhash⟩
    rw [hplaces, hstrings, hoffsets] at hs
    rw [hstrings, List.toList_toArray]
    exact Addressing.record?_eq_some_iff.1 hs

/-- Bytes that spell something are accepted. -/
theorem ofBytes_of_spells (h : Spells bytes addressing entries records) (backing : Backing) :
    ∃ image, ofBytes backing bytes = .ok image ∧ image.addressing = addressing ∧
      image.backing = backing ∧
      image.entries.toList = entries ∧ image.records.toList = records := by
  obtain ⟨padding, hpadding, rfl⟩ := h.layout
  have hchecked : checkEntries (lookUp addressing records) 0 0 entries = .ok () := by
    refine checkEntries_eq_ok (fun _ _ => UInt32.zero_le) h.sorted fun entry hentry => ?_
    obtain ⟨s, hs, hhash⟩ := h.leads entry hentry
    rw [lookUp, Addressing.record?_eq_some_iff.2 hs, Option.map_some, hhash]
  obtain ⟨image, himage, haddressing, hbacking, hstrings, -, hindex⟩ :=
    ofBytes_parts_eq_ok padding hpadding h.entryCount h.region hchecked backing
  exact ⟨image, himage, haddressing, hbacking, by rw [hindex], by rw [hstrings]⟩

/-- **The reader accepts what spells something**, and gives it back. -/
theorem ofBytes_eq_ok_iff (backing : Backing) (bytes : List UInt8) (addressing : Addressing)
    (entries : List IndexEntry) (records : List String) :
    Spells bytes addressing entries records ↔ ∃ image, ofBytes backing bytes = .ok image ∧
      image.backing = backing ∧
      image.addressing = addressing ∧ image.entries.toList = entries ∧
        image.records.toList = records := by
  constructor
  · intro h
    obtain ⟨image, himage, haddressing, hbacking, hentries, hrecords⟩ := ofBytes_of_spells h backing
    exact ⟨image, himage, hbacking, haddressing, hentries, hrecords⟩
  · rintro ⟨image, himage, -, rfl, rfl, rfl⟩
    exact (spells_of_ofBytes himage).2

end Image

end WeakIntern
