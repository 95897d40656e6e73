import WeakIntern.Proofs.Acceptance
import WeakIntern.Statistics
/-!
# Reading by address

The reader takes the bytes of a snapshot apart as a list. In memory they are read by address: a
number or a content is a slice between two addresses, the addresses are computed in 64 bits from the
numbers that were found, and the records are walked from each length to the next. Such a walk might
leave the bytes, and it might go on for ever. It does neither (`walk_eq`): whatever the bytes are,
it finds what the reader finds.
-/

namespace WeakIntern

namespace Walk

/-- Why a walk over some bytes stops early. -/
inductive Stop where
  | fault (fault : ImageFault)
  /-- A slice that is not inside the bytes. -/
  | outside (start stop length : Nat)
  /-- More records than there is room for. -/
  | endless
  deriving DecidableEq, Repr

/-- The bytes from one address up to another. -/
def slice (bytes : List UInt8) (start stop : Nat) : Except Stop (List UInt8) :=
  if start ≤ stop ∧ stop ≤ bytes.length then .ok ((bytes.drop start).take (stop - start))
  else .error (.outside start stop bytes.length)

/-- The number in the four bytes at an address. -/
def word (bytes : List UInt8) (start : Nat) : Except Stop Nat :=
  (slice bytes start (wrapped (start + 4))).map Snapshot.littleEndian

/-- The address of an entry. -/
def entryStart (index : Nat) : Nat :=
  wrapped (Snapshot.headerLength + wrapped (index * Snapshot.entryLength))

def readHeader (bytes : List UInt8) : Except Stop Image.Header := do
  if bytes.length < Snapshot.headerLength then throw (.fault (.tooShort bytes.length))
  let letters ← slice bytes 0 4
  if letters ≠ Snapshot.magic then throw (.fault (.badMagic letters))
  let version ← word bytes 4
  if version ≠ Snapshot.version then throw (.fault (.unsupportedVersion version))
  let code := (← slice bytes 8 9).headD 0
  let addressing ← match Addressing.ofByte? code with
    | some addressing => pure addressing
    | none => throw (.fault (.unknownAddressing code))
  let entryCount ← word bytes 12
  let seed := Snapshot.littleEndian (← slice bytes 16 24)
  if seed ≠ 0 then throw (.fault (.foreignSeed seed))
  let heapLength ← word bytes 24
  let recordCount ← word bytes 28
  let expected := wrapped (entryStart entryCount + heapLength)
  if bytes.length ≠ expected
    then throw (.fault (.wrongLength expected entryCount heapLength bytes.length))
  return { addressing, entryCount, heapLength, recordCount }

/-- Walk the records from an address on, in some rounds at most. -/
def readRecords (region : List UInt8) : (rounds : Nat) → (start : Nat) →
    Except Stop (List (Nat × String))
  | 0, start => if start < region.length then .error .endless else .ok []
  | rounds + 1, start =>
    if start < region.length then do
      let body := wrapped (start + 4)
      if region.length < body then throw (.fault (.truncatedRecord start))
      let length ← word region start
      let stop := wrapped (body + length)
      if region.length < stop then throw (.fault (.overrunningRecord start))
      match ofUtf8 (← slice region body stop) with
      | .error fault => throw (.fault (.notUtf8 start fault))
      | .ok s => return (start, s) :: (← readRecords region rounds stop)
    else .ok []

def readEntry (bytes : List UInt8) (index : Nat) : Except Stop IndexEntry := do
  let hash ← word bytes (entryStart index)
  let value ← word bytes (wrapped (entryStart index + 4))
  return ⟨hash.toUInt32, value.toUInt32⟩

/-- Read the entries, and check each as soon as it is read. -/
def readEntries (decode : UInt32 → Option String) (bytes : List UInt8) :
    (left index : Nat) → (previous : UInt32) → Except Stop (List IndexEntry)
  | 0, _, _ => .ok []
  | left + 1, index, previous => do
    let entry ← readEntry bytes index
    (Image.checkEntry decode index previous entry).mapError .fault
    return entry :: (← readEntries decode bytes left (index + 1) entry.hash)

end Walk

open Walk in
/-- Read a snapshot by address: its addressing, its entries, and its records with their offsets. -/
def walk (bytes : List UInt8) :
    Except Stop (Addressing × List IndexEntry × List (Nat × String)) := do
  let header ← readHeader bytes
  let region ← slice bytes (entryStart header.entryCount) bytes.length
  -- Every record takes the four bytes of its length.
  let records ← readRecords region (header.heapLength / 4 + 1) 0
  if records.length ≠ header.recordCount
    then throw (.fault (.recordCount header.recordCount records.length))
  let decode :=
    header.addressing.record? (records.map Prod.fst).toArray (records.map Prod.snd).toArray
  let entries ← readEntries decode bytes header.entryCount 0 0
  return (header.addressing, entries, records)

namespace Walk

variable {bytes region : List UInt8}

theorem slice_eq {start stop : Nat} (h : start ≤ stop) (hstop : stop ≤ bytes.length) :
    slice bytes start stop = .ok ((bytes.drop start).take (stop - start)) := if_pos ⟨h, hstop⟩

theorem wrapped_eq {n : Nat} (h : n < 2 ^ 64) : wrapped n = n := Nat.mod_eq_of_lt h

theorem word_eq {start : Nat} (hstop : start + 4 ≤ bytes.length) (hsmall : start + 4 < 2 ^ 64) :
    word bytes start = .ok (Snapshot.wordAt bytes start) := by
  rw [word, wrapped_eq hsmall, slice_eq (Nat.le_add_right _ _) hstop, Nat.add_sub_cancel_left]
  rfl

theorem entryStart_eq {index : Nat} (h : index < 2 ^ 32) :
    entryStart index = Snapshot.headerLength + index * Snapshot.entryLength := by
  rw [entryStart, Snapshot.headerLength, Snapshot.entryLength,
    wrapped_eq (n := index * 8) (by omega), wrapped_eq (by omega)]

theorem mapError_guard {ε δ α : Type} {p : Prop} [Decidable p] {fault : ε} {next : Except ε α}
    {f : ε → δ} :
    (if p then .error fault else next).mapError f = if p then .error (f fault)
      else next.mapError f := by
  by_cases hp : p <;> simp only [hp, if_true, if_false, Except.mapError]

/-- The header is read inside the bytes. -/
theorem readHeader_eq (bytes : List UInt8) :
    readHeader bytes = (Image.Header.ofBytes bytes).mapError .fault := by
  rw [readHeader, Image.Header.ofBytes]
  by_cases hshort : bytes.length < Snapshot.headerLength
  · simp only [hshort, if_true]
    rfl
  · have hlong : 32 ≤ bytes.length := Nat.not_lt.1 hshort
    have hcount := Snapshot.wordAt_lt bytes 12
    have hheap := Snapshot.wordAt_lt bytes 24
    have hexpected : wrapped (entryStart (Snapshot.wordAt bytes 12) + Snapshot.wordAt bytes 24) =
        Snapshot.headerLength + Snapshot.wordAt bytes 12 * Snapshot.entryLength +
        Snapshot.wordAt bytes 24 := by
      rw [entryStart_eq hcount, wrapped_eq]
      rw [Snapshot.headerLength, Snapshot.entryLength]
      omega
    have hletters : slice bytes 0 4 = .ok (bytes.take 4) := slice_eq (Nat.zero_le 4) (by omega)
    have hcode : slice bytes 8 9 = .ok ((bytes.drop 8).take 1) := slice_eq (by omega) (by omega)
    have hseed : slice bytes 16 24 = .ok ((bytes.drop 16).take 8) := slice_eq (by omega) (by omega)
    have hword (start : Nat) (hstart : start ≤ 28) :
        word bytes start = .ok (Snapshot.wordAt bytes start) :=
      word_eq (by omega) (by omega)
    have hhead : ((bytes.drop 8).take 1).headD 0 = (bytes.drop 8).headD 0 := by
      cases bytes.drop 8 <;> rfl
    simp only [hshort, if_false, hletters, hcode, hseed, hword 4 (by decide), hword 12 (by decide),
      hword 24 (by decide), hword 28 (by decide), hhead, hexpected, bind, Except.bind, throw,
      throwThe, MonadExceptOf.throw, pure, Except.pure]
    cases Addressing.ofByte? ((bytes.drop 8).headD 0) <;> simp only [mapError_guard] <;> rfl

/-- A record whose length is cut off. -/
theorem readRecords_of_short (offset : Nat) {region : List UInt8} (h : region ≠ [])
    (hshort : region.length < 4) :
    Image.readRecords offset region = .error (.truncatedRecord offset) := by
  match region, h, hshort with
  | [_], _, _ | [_, _], _, _ | [_, _, _], _, _ =>
    unfold Image.readRecords
    rfl

/-- A record whose length can be read. -/
theorem readRecords_of_long (offset : Nat) (region : List UInt8) (hlong : 4 ≤ region.length) :
    Image.readRecords offset region =
      let length := Snapshot.wordAt region 0
      let content := (region.drop 4).take length
      if content.length < length then .error (.overrunningRecord offset)
      else
        match ofUtf8 content with
        | .error fault => .error (.notUtf8 offset fault)
        | .ok s =>
          (Image.readRecords (offset + 4 + length) ((region.drop 4).drop length)).map
              ((offset, s) :: ·) := by
  match region, hlong with
  | a :: b :: c :: d :: body, _ =>
    have hword : Snapshot.wordAt (a :: b :: c :: d :: body) 0 =
      Snapshot.littleEndian [a, b, c, d] := rfl
    have hbody : (a :: b :: c :: d :: body).drop 4 = body := rfl
    cases hutf8 : ofUtf8 (body.take (Snapshot.littleEndian [a, b, c, d])) with
    | error fault => simp only [Image.readRecords, hword, hbody, hutf8]
    | ok s => simp only [Image.readRecords, hword, hbody, hutf8]

/-- The records are walked inside the region, and a round for every four bytes is enough. -/
theorem readRecords_eq (hregion : region.length < 2 ^ 32) {rounds start : Nat}
    (hstart : start ≤ region.length) (hrounds : region.length ≤ start + 4 * rounds) :
    readRecords region rounds start =
      (Image.readRecords start (region.drop start)).mapError .fault := by
  induction rounds generalizing start with
  | zero =>
    have hend : ¬ start < region.length := by omega
    have hnil : region.drop start = [] := List.drop_eq_nil_of_le (by omega)
    rw [readRecords, if_neg hend, hnil, Image.readRecords]
    rfl
  | succ rounds ih =>
    by_cases hend : start < region.length
    case neg =>
      have hnil : region.drop start = [] := List.drop_eq_nil_of_le (by omega)
      rw [readRecords, if_neg hend, hnil, Image.readRecords]
      rfl
    have hbehind : (region.drop start).length = region.length - start := List.length_drop
    rw [readRecords, if_pos hend, wrapped_eq (by omega)]
    by_cases hshort : region.length < start + 4
    · have hne : region.drop start ≠ [] := List.ne_nil_of_length_pos (by omega)
      rw [if_pos hshort, readRecords_of_short start hne (by omega)]
      rfl
    · have hsmall := Snapshot.wordAt_lt region start
      have hread := readRecords_of_long start (region.drop start) (by omega)
      have hword : Snapshot.wordAt (region.drop start) 0 = Snapshot.wordAt region start := rfl
      rw [if_neg hshort, hread, hword, word_eq (by omega) (by omega)]
      generalize Snapshot.wordAt region start = length at hsmall
      have hstop : wrapped (start + 4 + length) = start + 4 + length := wrapped_eq (by omega)
      have hcontent : ((region.drop start).drop 4).take length =
          (region.drop (start + 4)).take length := by
        rw [List.drop_drop]
      have hnext : ((region.drop start).drop 4).drop length = region.drop (start + 4 + length) := by
        rw [List.drop_drop, List.drop_drop, Nat.add_assoc]
      have hcut : ((region.drop (start + 4)).take length).length < length ↔
          region.length < start + 4 + length := by
        rw [List.length_take, List.length_drop]
        omega
      simp only [hstop, hcontent, hnext, hcut, bind, Except.bind]
      by_cases hover : region.length < start + 4 + length
      · rw [if_pos hover, if_pos hover]
        rfl
      · have hslice : slice region (start + 4) (start + 4 + length) =
            .ok ((region.drop (start + 4)).take length) := by
          rw [slice_eq (Nat.le_add_right _ _) (by omega), Nat.add_sub_cancel_left]
        rw [if_neg hover, if_neg hover, hslice, ih (by omega) (by omega)]
        dsimp only
        cases ofUtf8 ((region.drop (start + 4)).take length) with
        | error fault => rfl
        | ok s =>
          cases Image.readRecords (start + 4 + length) (region.drop (start + 4 + length)) <;> rfl

theorem readEntry_eq {index : Nat}
    (hlong : Snapshot.headerLength + (index + 1) * Snapshot.entryLength ≤ bytes.length)
    (hindex : index < 2 ^ 32) :
    readEntry bytes index = .ok
      ⟨(Snapshot.wordAt
          (bytes.drop (Snapshot.headerLength + index * Snapshot.entryLength)) 0).toUInt32,
        (Snapshot.wordAt
          (bytes.drop (Snapshot.headerLength + index * Snapshot.entryLength)) 4).toUInt32⟩ := by
  rw [readEntry, entryStart_eq hindex]
  rw [Snapshot.headerLength, Snapshot.entryLength] at hlong ⊢
  have hvalue : Snapshot.wordAt (bytes.drop (32 + index * 8)) 4 =
      Snapshot.wordAt bytes (32 + index * 8 + 4) := by
    rw [Snapshot.wordAt, Snapshot.wordAt, List.drop_drop]
  rw [wrapped_eq (by omega), word_eq (by omega) (by omega), word_eq (by omega) (by omega), hvalue]
  rfl

/-- The entries are read inside the bytes, and checked one by one as all together. -/
theorem readEntries_eq (decode : UInt32 → Option String) (left index : Nat) (previous : UInt32)
    (hlong : Snapshot.headerLength + (index + left) * Snapshot.entryLength ≤ bytes.length)
    (hcount : index + left < 2 ^ 32) :
    readEntries decode bytes left index previous =
      let entries :=
        Image.entriesOf left (bytes.drop (Snapshot.headerLength + index * Snapshot.entryLength))
      ((Image.checkEntries decode index previous entries).map fun _ => entries).mapError
        .fault := by
  induction left generalizing index previous with
  | zero => rfl
  | succ left ih =>
    have hlater : index + (left + 1) = index + 1 + left := by omega
    rw [hlater] at hlong hcount
    have hone : (index + 1) * Snapshot.entryLength ≤ (index + 1 + left) * Snapshot.entryLength :=
      Nat.mul_le_mul_right _ (Nat.le_add_right _ _)
    have hrest :
        (bytes.drop (Snapshot.headerLength + index * Snapshot.entryLength)).drop
          Snapshot.entryLength =
        bytes.drop (Snapshot.headerLength + (index + 1) * Snapshot.entryLength) := by
      rw [List.drop_drop, Nat.succ_mul, Nat.add_assoc]
    rw [readEntries, readEntry_eq (by omega) (by omega), Image.entriesOf, hrest]
    generalize (⟨_, _⟩ : IndexEntry) = entry
    simp only [bind, Except.bind, Image.checkEntries, ih (index + 1) entry.hash hlong hcount]
    cases Image.checkEntry decode index previous entry with
    | error fault => rfl
    | ok _ =>
      cases Image.checkEntries decode (index + 1) entry.hash
        (Image.entriesOf
          left (bytes.drop (Snapshot.headerLength + (index + 1) * Snapshot.entryLength))) <;> rfl

/-- What an image says, and where its records are. -/
def parts (image : Image) : Addressing × List IndexEntry × List (Nat × String) :=
  (image.addressing, image.entries.toList, image.offsets.toList.zip image.records.toList)

theorem map_parts_assemble (addressing : Addressing) (backing : Backing)
    (records : List (Nat × String)) (entries : List IndexEntry) :
    (Image.assemble addressing backing records entries).map parts =
      (Image.checkEntries
        (addressing.record? (records.map Prod.fst).toArray (records.map Prod.snd).toArray) 0 0
        entries).map fun _ => (addressing, entries, records) := by
  have hzip : (records.map Prod.fst).zip (records.map Prod.snd) = records := by
    rw [← List.unzip_fst, ← List.unzip_snd, List.zip_unzip]
  unfold Image.assemble
  dsimp only
  split
  · next fault h =>
    rw [h]
    rfl
  · next h => simp only [Except.map, parts, hzip, h]

/-- **The walk finds what the reader finds**: it stays inside the bytes, and it ends. -/
theorem walk_eq (backing : Backing) (bytes : List UInt8) :
    walk bytes = ((Image.ofBytes backing bytes).map parts).mapError .fault := by
  rw [walk, readHeader_eq, Image.ofBytes]
  cases hheader : Image.Header.ofBytes bytes with
  | error fault => rfl
  | ok header =>
    have hfound := Image.found_of_headerOfBytes hheader
    have hlength := hfound.length
    have hcount : header.entryCount < 2 ^ 32 := hfound.entryCount ▸ Snapshot.wordAt_lt _ _
    have hheap : header.heapLength < 2 ^ 32 := hfound.heapLength ▸ Snapshot.wordAt_lt _ _
    have hregion : slice bytes (entryStart header.entryCount) bytes.length =
        .ok ((bytes.drop Snapshot.headerLength).drop
          (header.entryCount * Snapshot.entryLength)) := by
      rw [entryStart_eq hcount, slice_eq (by omega) (Nat.le_refl _), List.drop_drop,
        List.take_of_length_le]
      exact Nat.le_of_eq List.length_drop
    have hlong :
        ((bytes.drop Snapshot.headerLength).drop
          (header.entryCount * Snapshot.entryLength)).length =
        header.heapLength := by
      rw [List.length_drop, List.length_drop]
      omega
    have hentries (decode : UInt32 → Option String) :
        readEntries decode bytes header.entryCount 0 0 =
          ((Image.checkEntries decode 0 0
            (Image.entriesOf header.entryCount (bytes.drop Snapshot.headerLength))).map fun _ =>
              Image.entriesOf header.entryCount (bytes.drop Snapshot.headerLength)).mapError
                .fault :=
      readEntries_eq decode header.entryCount 0 0 (by rw [Nat.zero_add]; omega)
        (by rwa [Nat.zero_add])
    simp only [Except.mapError, bind, Except.bind, hregion]
    generalize (bytes.drop Snapshot.headerLength).drop (header.entryCount * Snapshot.entryLength) =
      region at hlong
    rw [readRecords_eq (by omega) (Nat.zero_le _) (by omega), List.drop_zero]
    cases Image.readRecords 0 region with
    | error fault => rfl
    | ok found =>
      simp only [Except.mapError]
      by_cases hpromised : found.length = header.recordCount
      case neg =>
        simp only [hpromised, ne_eq, not_false_eq_true, if_true]
        rfl
      have hassemble := map_parts_assemble header.addressing backing found
        (Image.entriesOf header.entryCount (bytes.drop Snapshot.headerLength))
      simp only [hpromised, ne_eq, not_true_eq_false, if_false, hentries, hassemble]
      cases Image.checkEntries
        (header.addressing.record? (found.map Prod.fst).toArray (found.map Prod.snd).toArray) 0 0
        (Image.entriesOf header.entryCount (bytes.drop Snapshot.headerLength)) <;> rfl

/-- A walk stops for a fault of the bytes only. -/
theorem stop_eq_fault {bytes : List UInt8} {stop : Stop} (h : walk bytes = .error stop) :
    ∃ fault, stop = .fault fault := by
  rw [walk_eq .loaded bytes] at h
  cases hread : Image.ofBytes .loaded bytes with
  | error fault =>
    rw [hread] at h
    exact ⟨fault, (Except.error.inj h).symm⟩
  | ok image =>
    rw [hread] at h
    cases h

end Walk

namespace Image

theorem read_eq_ok_iff {backing : Backing} {bytes : List UInt8} {image : Image} :
    read backing bytes = .ok image ↔ ofBytes backing bytes = .ok image := by
  rw [read]
  cases ofBytes backing bytes <;> simp [Except.mapError]

/-- **The snapshot format is what is accepted**, and it is given back; all other bytes are
malformed. Read by address, no byte outside is touched, and the walk over the records ends. -/
theorem accepts_format (backing : Backing) (bytes : List UInt8) :
    (∀ addressing entries records, Spells bytes addressing entries records ↔
      ∃ image, read backing bytes = .ok image ∧ image.backing = backing ∧
        image.addressing = addressing ∧
        image.entries.toList = entries ∧ image.records.toList = records) ∧
    ((¬ ∃ addressing entries records, Spells bytes addressing entries records) ↔
      ∃ detail, read backing bytes = .error (.malformedSnapshot detail)) ∧
    walk bytes = ((ofBytes backing bytes).map Walk.parts).mapError .fault ∧
    (¬ ∃ start stop length, walk bytes = .error (.outside start stop length)) ∧
    walk bytes ≠ .error .endless := by
  refine ⟨fun addressing entries records => ?_, ?_, Walk.walk_eq backing bytes, ?_, ?_⟩
  · simp only [read_eq_ok_iff]
    exact ofBytes_eq_ok_iff backing bytes addressing entries records
  · constructor
    · intro hnone
      cases hread : ofBytes backing bytes with
      | error fault =>
        rw [read, hread]
        exact ⟨_, rfl⟩
      | ok image => exact absurd ⟨_, _, _, (spells_of_ofBytes hread).2⟩ hnone
    · rintro ⟨detail, hdetail⟩ ⟨addressing, entries, records, hspells⟩
      obtain ⟨image, himage, -⟩ := ofBytes_of_spells hspells backing
      rw [read_eq_ok_iff.2 himage] at hdetail
      cases hdetail
  · rintro ⟨start, stop, length, hwalk⟩
    obtain ⟨fault, hfault⟩ := Walk.stop_eq_fault hwalk
    cases hfault
  · intro hwalk
    obtain ⟨fault, hfault⟩ := Walk.stop_eq_fault hwalk
    cases hfault

end Image

end WeakIntern
