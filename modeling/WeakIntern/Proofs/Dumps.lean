import WeakIntern.Proofs.Changes
import WeakIntern.Proofs.Ownership
import WeakIntern.Proofs.Workshop
import WeakIntern.Text.Hex
/-!
# Reading a dump

`readDump` reads the dump of all strings back: what was in the table, unless it could not be dumped,
and what was in the overlay. No string can be mistaken for anything else (`dump_read_back`): every
line that stands for a string begins with a number, the number and the escapes of the rest determine
the string, and no other line of a dump can be read so.
-/

namespace WeakIntern

/-! ## Reading lines -/

/-- The characters that an escaped text stands for. -/
def readText : List Char → Option (List Char)
  | [] => some []
  | '\\' :: 't' :: rest => (readText rest).map ('\t' :: ·)
  | '\\' :: 'r' :: rest => (readText rest).map ('\r' :: ·)
  | '\\' :: 'n' :: rest => (readText rest).map ('\n' :: ·)
  | '\\' :: '\\' :: rest => (readText rest).map ('\\' :: ·)
  | '\\' :: 'x' :: a :: b :: rest => (readText rest).map (Char.ofNat (hexNat [a, b]) :: ·)
  | '\\' :: _ => none
  | c :: rest => (readText rest).map (c :: ·)

/-- The string that a line stands for: after its length in bytes, a colon and a blank comes the
string, with escapes. -/
def readLine? (line : String) : Option String :=
  match line.toList.dropWhile (· ≠ ':') with
  | ':' :: ' ' :: text =>
    ((readText text).map String.ofList).filter fun s =>
      line.toList.takeWhile (· ≠ ':') = (toString (utf8Bytes s).length).toList
  | _ => none

/-- The strings of the lines up to the first that stands for none, and the lines from that one
on. -/
def readRows : List String → List String × List String
  | [] => ([], [])
  | line :: rest =>
    match readLine? line with
    | some s => (s :: (readRows rest).1, (readRows rest).2)
    | none => ([], line :: rest)

/-- The lines of a text; after the last line end there is an empty one. -/
def textLines (text : String) : List String := (text.toList.splitOn '\n').map String.ofList

/-! ## Reading a dump -/

/-- What a dump tells. -/
structure Dump where
  /-- The strings of the table, unless it could not be dumped. -/
  table : Option (List String)
  /-- The strings of the overlay. -/
  shared : List String
  deriving DecidableEq

/-- What is said of the table, and the lines that follow. -/
def readTable (lines : List String) : Option (List String) × List String :=
  if lines.head? = some "dump unavailable at this moment" then (none, lines.tail)
  else (some (readRows lines).1, (readRows lines).2)

/-- The lines between the strings of the table and those of the overlay. -/
def sharedHeader : List String := ["#----------------", "# Shared strings:", "#----------------"]

/-- What is said of the overlay. -/
def readShared (lines : List String) : Option (List String) :=
  if lines = [""] then some []
  else if lines.take 3 = sharedHeader ∧ (readRows (lines.drop 3)).2 = [""]
    then some (readRows (lines.drop 3)).1
  else none

/-- Read a dump of all strings. -/
def readDump (text : String) : Option Dump :=
  match textLines text with
  | "VERSION: 1.1" :: lines =>
    (readShared (readTable lines).2).map fun shared => ⟨(readTable lines).1, shared⟩
  | _ => none

/-! ## Characters -/

/-- Is this a control character of ASCII? -/
def IsControl (c : Char) : Prop := c.toNat < 0x20 ∨ c.toNat = 0x7f

instance : DecidablePred IsControl :=
  fun c => inferInstanceAs (Decidable (c.toNat < 0x20 ∨ c.toNat = 0x7f))

/-- That there is none in a list can be evaluated. -/
theorem not_isControl_of_all {chars : List Char}
    (hall : (chars.all fun c => !decide (IsControl c)) = true) {c : Char} (hc : c ∈ chars) :
    ¬ IsControl c := by
  simpa using List.all_eq_true.1 hall c hc

theorem hexValue_digitChar {d : Nat} (hd : d < 16) : hexValue (Nat.digitChar d) = d := by
  decide +revert

theorem not_isControl_digitChar {d : Nat} (hd : d < 16) : ¬ IsControl (Nat.digitChar d) := by
  decide +revert

theorem lt_of_isControl {c : Char} (h : IsControl c) : c.toNat / 16 < 16 := by
  unfold IsControl at h
  omega

theorem readText_dumpChar (c : Char) (rest : List Char) :
    readText (dumpChar c ++ rest) = (readText rest).map (c :: ·) := by
  unfold dumpChar
  split
  · next h => subst h; rfl
  split
  · next h => subst h; rfl
  split
  · next h => subst h; rfl
  split
  · next h => subst h; rfl
  split
  · next hcontrol =>
    have hnumber : hexNat (hexPair c.toNat) = c.toNat := by
      simp only [hexNat, hexPair, List.foldl_cons, List.foldl_nil,
        hexValue_digitChar (lt_of_isControl hcontrol),
        hexValue_digitChar (Nat.mod_lt c.toNat (by decide : 0 < 16))]
      omega
    show (readText rest).map (Char.ofNat (hexNat (hexPair c.toNat)) :: ·) = _
    rw [hnumber, Char.ofNat_toNat]
  · next hplain _ =>
    show readText (c :: rest) = _
    rw [readText.eq_def]
    split <;> simp_all

theorem readText_flatMap (chars : List Char) : readText (chars.flatMap dumpChar) = some chars := by
  induction chars with
  | nil => rfl
  | cons c rest ih => rw [List.flatMap_cons, readText_dumpChar, ih, Option.map_some]

theorem not_isControl_of_mem_dumpChar {c c' : Char} (h : c' ∈ dumpChar c) : ¬ IsControl c' := by
  unfold dumpChar at h
  split at h
  · exact not_isControl_of_all (by decide) h
  split at h
  · exact not_isControl_of_all (by decide) h
  split at h
  · exact not_isControl_of_all (by decide) h
  split at h
  · exact not_isControl_of_all (by decide) h
  split at h
  · next hcontrol =>
    simp only [hexPair, List.mem_cons, List.not_mem_nil, or_false] at h
    rcases h with rfl | rfl | rfl | rfl
    · decide
    · decide
    · exact not_isControl_digitChar (lt_of_isControl hcontrol)
    · exact not_isControl_digitChar (Nat.mod_lt _ (by decide))
  · next hplain =>
    obtain rfl := List.mem_singleton.1 h
    exact hplain

/-! ## Lines -/

theorem toList_dumpText (s : String) : (dumpText s).toList = s.toList.flatMap dumpChar :=
  String.toList_ofList

/-- **The escapes determine the string.** -/
theorem dumpText_injective : Function.Injective dumpText := by
  intro s s' h
  have hread : readText (dumpText s).toList = readText (dumpText s').toList := by rw [h]
  rw [toList_dumpText, toList_dumpText, readText_flatMap, readText_flatMap] at hread
  exact String.toList_inj.1 (Option.some.inj hread)

theorem isDigit_of_mem_toString {n : Nat} {c : Char} (h : c ∈ (toString n).toList) :
    c.isDigit = true := by
  rw [Nat.toString_eq_ofList_toDigits, String.toList_ofList] at h
  exact Nat.isDigit_of_mem_toDigits (by decide) (by decide) h

theorem toList_dumpLine (s : String) : (dumpLine s).toList =
    (toString (utf8Bytes s).length).toList ++ ':' :: ' ' :: s.toList.flatMap dumpChar := by
  rw [dumpLine, String.toList_append, String.toList_append, toList_dumpText, List.append_assoc]
  rfl

/-- A line begins with the number of bytes, up to the first colon. -/
theorem splitAtColon_dumpLine (s : String) :
    (dumpLine s).toList.takeWhile (· ≠ ':') = (toString (utf8Bytes s).length).toList ∧
      (dumpLine s).toList.dropWhile (· ≠ ':') = ':' :: ' ' :: s.toList.flatMap dumpChar := by
  have hdigits : ∀ c ∈ (toString (utf8Bytes s).length).toList, (decide (c ≠ ':')) = true := by
    intro c hc
    refine decide_eq_true fun heq => ?_
    have hdigit := isDigit_of_mem_toString hc
    rw [heq] at hdigit
    exact absurd hdigit (by decide)
  rw [toList_dumpLine, List.takeWhile_append_of_pos hdigits, List.dropWhile_append_of_pos hdigits]
  simp

/-- **A line can be read back.** -/
theorem readLine?_dumpLine (s : String) : readLine? (dumpLine s) = some s := by
  obtain ⟨htake, hdrop⟩ := splitAtColon_dumpLine s
  simp only [readLine?, hdrop, htake, readText_flatMap, Option.map_some, String.ofList_toList]
  simp

theorem not_isControl_of_mem_dumpLine {s : String} {c : Char} (h : c ∈ (dumpLine s).toList) :
    ¬ IsControl c := by
  rw [toList_dumpLine, List.mem_append, List.mem_cons, List.mem_cons, List.mem_flatMap] at h
  rcases h with h | rfl | rfl | ⟨c', -, h⟩
  · have hdigit := isDigit_of_mem_toString h
    simp only [Char.isDigit, Bool.and_eq_true, decide_eq_true_eq, ge_iff_le, UInt32.le_iff_toNat_le]
      at hdigit
    unfold IsControl
    have hge : 48 ≤ c.toNat := hdigit.1
    have hle : c.toNat ≤ 57 := hdigit.2
    omega
  · decide
  · decide
  · exact not_isControl_of_mem_dumpChar h

/-- Lines that are joined are read as they were. -/
theorem textLines_join {lines : List String} (hends : ∀ line ∈ lines, '\n' ∉ line.toList) :
    textLines (String.join (lines.map (· ++ "\n"))) = lines ++ [""] := by
  rw [textLines, String.toList_join]
  induction lines with
  | nil => rfl
  | cons line rest ih =>
    obtain ⟨hfirst, hrest⟩ := List.forall_mem_cons.1 hends
    have hline : (line ++ "\n").toList = line.toList ++ ['\n'] := String.toList_append
    have hsplit := List.splitOnP_append_cons (p := fun c => c == '\n') line.toList
      ((rest.map (· ++ "\n")).flatMap String.toList) (show ('\n' == '\n') = true from rfl)
    have hwhole : List.splitOnP (fun c => c == '\n') line.toList = [line.toList] :=
      List.splitOn_eq_singleton hfirst
    rw [List.map_cons, List.flatMap_cons, hline, List.append_assoc, List.singleton_append,
      List.splitOn, hsplit, hwhole, List.map_append, ← List.splitOn, ih hrest]
    simp

theorem readRows_append (strings : List String) {rest : List String}
    (hend : ∀ line ∈ rest.head?, readLine? line = none) :
    readRows (strings.map dumpLine ++ rest) = (strings, rest) := by
  induction strings with
  | nil =>
    cases rest with
    | nil => rfl
    | cons line rest => simp only [List.map_nil, List.nil_append, readRows, hend line rfl]
  | cons s strings ih =>
    rw [List.map_cons, List.cons_append, readRows]
    simp only [readLine?_dumpLine, ih]

/-! ## The dump of an interner -/

namespace Interner

/-- What the dump tells, and that in lines: first the table, -/
def tableLines (i : Interner) : List String :=
  match i.table.scan? i.heap with
  | some objects => (i.contents objects).map dumpLine
  | none => ["dump unavailable at this moment"]

/-- and then the overlay, under a header of its own if it has entries. -/
def overlayLines (i : Interner) : List String :=
  if i.overlay.isEmpty then [] else sharedHeader ++ (i.contents i.overlay.objects).map dumpLine

/-- The lines of the dump of all strings. -/
def allLines (i : Interner) : List String := "VERSION: 1.1" :: (i.tableLines ++ i.overlayLines)

variable (i : Interner)

theorem dumpStrings_eq : i.dumpStrings = String.join (i.allLines.map (· ++ "\n")) := by
  have hlines : ∀ strings, dumpLines strings =
      String.join ((strings.map dumpLine).map (· ++ "\n")) := by
    intro strings
    rw [dumpLines, List.map_map]
    rfl
  have htable : i.dumpTable = String.join (i.tableLines.map (· ++ "\n")) := by
    rw [dumpTable, tableLines]
    cases i.table.scan? i.heap with
    | some objects => exact hlines _
    | none => rfl
  have hoverlay : i.dumpOverlay = String.join (i.overlayLines.map (· ++ "\n")) := by
    rw [dumpOverlay, overlayLines]
    split
    · rfl
    · rw [hlines, List.map_append, String.join_append]
      rfl
  rw [dumpStrings, htable, hoverlay, allLines, List.map_cons, List.map_append, String.join_cons,
    String.join_append, String.append_assoc]
  rfl

/-- No line has a control character. -/
theorem not_isControl_of_mem_allLines {line : String} (hline : line ∈ i.allLines) {c : Char}
    (hc : c ∈ line.toList) :
    ¬ IsControl c := by
  have hstrings : ∀ strings : List String, line ∈ strings.map dumpLine → ¬ IsControl c := by
    intro strings hmem
    obtain ⟨s, -, rfl⟩ := List.mem_map.1 hmem
    exact not_isControl_of_mem_dumpLine hc
  have hheader :
      ∀ fixed ∈ sharedHeader, (fixed.toList.all fun c => !decide (IsControl c)) = true := by
    simp only [sharedHeader, List.forall_mem_cons]
    decide
  rw [allLines, List.mem_cons, List.mem_append] at hline
  rcases hline with rfl | hline | hline
  · exact not_isControl_of_all (by decide) hc
  · rw [tableLines] at hline
    split at hline
    · exact hstrings _ hline
    · obtain rfl := List.mem_singleton.1 hline
      exact not_isControl_of_all (by decide) hc
  · rw [overlayLines] at hline
    split at hline
    · cases hline
    · rcases List.mem_append.1 hline with hline | hline
      · exact not_isControl_of_all (hheader line hline) hc
      · exact hstrings _ hline

/-- **Each string has a line**, and no line breaks. -/
theorem textLines_dumpStrings : textLines i.dumpStrings = i.allLines ++ [""] := by
  rw [dumpStrings_eq]
  refine textLines_join fun line hline hend => ?_
  exact i.not_isControl_of_mem_allLines hline hend (by decide)

theorem readShared_overlayLines :
    readShared (i.overlayLines ++ [""]) =
      some (if i.overlay.isEmpty then [] else i.contents i.overlay.objects) := by
  rw [overlayLines]
  split
  · rfl
  · have hrows : readRows ((i.contents i.overlay.objects).map dumpLine ++ [""]) =
        (i.contents i.overlay.objects, [""]) :=
      readRows_append _ (by decide)
    have hmany : ¬ sharedHeader ++ (i.contents i.overlay.objects).map dumpLine ++ [""] = [""] := by
      simp [sharedHeader]
    have htake : (sharedHeader ++ (i.contents i.overlay.objects).map dumpLine ++ [""]).take 3 =
      sharedHeader := rfl
    have hdrop : (sharedHeader ++ (i.contents i.overlay.objects).map dumpLine ++ [""]).drop 3 =
        (i.contents i.overlay.objects).map dumpLine ++ [""] := rfl
    rw [readShared, if_neg hmany, htake, hdrop, hrows, if_pos ⟨rfl, rfl⟩]

/-- After the strings of the table comes a line that stands for no string. -/
theorem head_overlayLines {line : String} (h : (i.overlayLines ++ [""]).head? = some line) :
    readLine? line = none ∧ line ≠ "dump unavailable at this moment" := by
  have hheads : ∀ line ∈ ["", "#----------------"],
      readLine? line = none ∧ line ≠ "dump unavailable at this moment" := by decide
  refine hheads line ?_
  rw [overlayLines] at h
  split at h <;> cases h <;> decide

theorem readTable_tableLines :
    readTable (i.tableLines ++ (i.overlayLines ++ [""])) =
      ((i.table.scan? i.heap).map i.contents, i.overlayLines ++ [""]) := by
  rw [tableLines]
  cases i.table.scan? i.heap with
  | none => rfl
  | some objects =>
    have hrows :=
      readRows_append (i.contents objects) fun line hline => (i.head_overlayLines hline).1
    -- The line by which the table is unavailable stands for no string, and is no header either.
    have hhead : ((i.contents objects).map dumpLine ++ (i.overlayLines ++ [""])).head? ≠
        some "dump unavailable at this moment" := by
      cases i.contents objects with
      | nil => exact fun hsome => (i.head_overlayLines hsome).2 rfl
      | cons s rest =>
        intro hsome
        have hline : dumpLine s = "dump unavailable at this moment" := Option.some.inj hsome
        have hread := readLine?_dumpLine s
        have hnone : readLine? "dump unavailable at this moment" = none := by decide
        rw [hline, hnone] at hread
        cases hread
    rw [readTable, if_neg hhead, hrows]
    rfl

/-- **The dump can be read back.** -/
theorem readDump_dumpStrings : readDump i.dumpStrings = some
    { table := (i.table.scan? i.heap).map i.contents
      shared := if i.overlay.isEmpty then [] else i.contents i.overlay.objects } := by
  have hlines : textLines i.dumpStrings = "VERSION: 1.1" ::
      (i.tableLines ++ (i.overlayLines ++ [""])) := by
    rw [textLines_dumpStrings, allLines, List.cons_append, List.append_assoc]
  simp only [readDump, hlines, readTable_tableLines, readShared_overlayLines, Option.map_some]

end Interner

/-! ## The overlay -/

namespace Overlay

/-- Every entry leads to an object. -/
def Whole (overlay : Overlay) : Prop :=
  ∀ entry ∈ overlay.entries.toList, ∃ o, overlay.object? entry = some o

variable {overlay : Overlay}

theorem whole_drain (overlay : Overlay) : overlay.drain.2.Whole := nofun

theorem whole_ofImage (heap : Heap) (image : Image) : (ofImage heap image).1.Whole := by
  intro entry hentry
  have hleads := image.leads entry hentry
  rw [← Image.decode?, ← content_object?_ofImage heap image entry] at hleads
  cases hobject : (ofImage heap image).1.object? entry with
  | some o => exact ⟨o, rfl⟩
  | none =>
    rw [hobject] at hleads
    cases hleads

/-- An overlay without objects is empty. -/
theorem Whole.objects_eq_nil_iff (h : overlay.Whole) : overlay.objects = [] ↔
    overlay.isEmpty = true := by
  rw [isEmpty, ← Array.isEmpty_toList, List.isEmpty_iff, objects, List.filterMap_eq_nil_iff]
  constructor
  · intro hnone
    refine List.eq_nil_iff_forall_not_mem.2 fun entry hentry => ?_
    obtain ⟨o, ho⟩ := h entry hentry
    rw [hnone entry hentry] at ho
    cases ho
  · intro hnil entry hentry
    rw [hnil] at hentry
    cases hentry

end Overlay

namespace Interner

variable {i i' : Interner} {m : WeakMap}

/-- The one small change of an overlay is that it is drained. -/
theorem Changes.whole (h : i.Changes i') (hwhole : i.overlay.Whole) : i'.overlay.Whole := by
  induction h with
  | refl => exact hwhole
  | tail before change ih =>
    cases change with
    | drain => exact Overlay.whole_drain _
    | heap | alarm | insert | drained | notifyDead => exact ih
    | shutdown =>
      rw [shutdown]
      split <;> exact ih

theorem whole_start {settings : Settings} {image : Option Image} {cells : CellStore} {heap : Heap}
    (hstart : start settings image cells heap = .ok i) : i.overlay.Whole := by
  obtain ⟨-, rfl⟩ := start_eq_ok_iff.1 hstart
  have hfresh : (fresh settings image cells heap).overlay.Whole := by
    cases image with
    | none => exact nofun
    | some image => exact Overlay.whole_ofImage heap image
  split
  · exact (changes_transferOverlay _).whole hfresh
  · exact hfresh

end Interner

theorem Session.Mirrors.whole {region : List ObjectId} {c : Session} {r : Registry}
    (h : c.Mirrors region r) (hwhole : c.interner.overlay.Whole) (request : Request) :
    (c.step request).2.interner.overlay.Whole := by
  cases request with
  | runPending seed =>
    have hsame : (c.step (.runPending seed)).2.interner.overlay = c.interner.overlay :=
      (h.keeps.runPending seed).2
    rw [hsame]
    exact hwhole
  | rehash seed => exact hwhole
  | allocate | retain | drop | intern | internObject | lookup | notifyDead | reportDead
  | transferOverlay | shutdown =>
    exact (c.changes_step rfl).whole hwhole

namespace Workshop

variable {region : List ObjectId} {w : Workshop} {r : Registry}

theorem Minded.whole_run (h : w.Minded region r) (hwhole : w.session.interner.overlay.Whole)
    (deeds : List Deed) :
    (w.run deeds).session.interner.overlay.Whole := by
  induction deeds generalizing w r with
  | nil => exact hwhole
  | cons deed rest ih =>
    cases deed with
    | ask request => exact ih (h.ask request) (h.mirrors.whole hwhole request)
    | work action htask => exact ih (h.work htask) hwhole

/-! ## All together -/

/-- The strings that there are: those of the table, bucket by bucket, unless a task has it, and
those of the overlay, in the order of the index. -/
def inventory (w : Workshop) : Dump where
  table :=
    if w.tasks.any Task.isUnderWay then none
    else some
      (w.session.interner.contents (w.session.interner.table.liveObjects w.session.interner.heap))
  shared := w.session.interner.contents w.session.interner.overlay.objects

/-- What can be seen from the dump of an interner. -/
structure ReadBack (w : Workshop) : Prop where
  read : readDump w.session.interner.dumpStrings = some w.inventory
  shared : w.inventory.shared = [] ↔ w.session.interner.overlay.isEmpty = true
  /-- Split at its line ends, the dump has one line for each string. -/
  lines : textLines w.session.interner.dumpStrings = w.session.interner.allLines ++ [""]
  /-- A dump has no control characters but its line ends. -/
  plain : ∀ c ∈ w.session.interner.dumpStrings.toList, IsControl c → c = '\n'

theorem plain_dumpStrings (i : Interner) {c : Char} (hc : c ∈ i.dumpStrings.toList)
    (hcontrol : IsControl c) :
    c = '\n' := by
  rw [i.dumpStrings_eq, String.toList_join, List.mem_flatMap] at hc
  obtain ⟨text, htext, hc⟩ := hc
  obtain ⟨line, hline, rfl⟩ := List.mem_map.1 htext
  rw [String.toList_append, List.mem_append] at hc
  rcases hc with hc | hc
  · exact absurd hcontrol (i.not_isControl_of_mem_allLines hline hc)
  · exact List.mem_singleton.1 hc

theorem Minded.readBack (h : w.Minded region r) (hwhole : w.session.interner.overlay.Whole) :
    w.ReadBack where
  read := by
    have howned : w.session.interner.table.owned = w.tasks.any Task.isUnderWay := by
      rw [Bool.eq_iff_iff, List.any_eq_true]
      exact h.orderly.owned_iff
    have hshared : (if w.session.interner.overlay.isEmpty then [] else
        w.session.interner.contents w.session.interner.overlay.objects) =
          w.session.interner.contents w.session.interner.overlay.objects := by
      split
      · next hempty => rw [hwhole.objects_eq_nil_iff.2 hempty]; rfl
      · rfl
    rw [Interner.readDump_dumpStrings, hshared, inventory, Table.scan?, howned]
    split <;> rfl
  shared := by
    rw [← hwhole.objects_eq_nil_iff]
    exact List.map_eq_nil_iff
  lines := w.session.interner.textLines_dumpStrings
  plain c := plain_dumpStrings _

/-- **A dump can be read back**, whatever strings there are, at any time: an interner is started
with any settings that it accepts and any snapshot, whatever is asked of it and whatever its callers
do with tasks of their own. The number in the line of a string is that of its bytes, and the text
after it belongs to no other string. -/
theorem dump_read_back {settings : Settings} {image : Option Image} {cells : CellStore}
    {heap : Heap} {interner : Interner} {held : List ObjectId}
    (hstart : Interner.start settings image cells heap = .ok interner)
    (hheld : ∀ o, held.count o ≤ heap.refs o) (deeds : List Deed) :
    (run { session := { interner, held } } deeds).ReadBack ∧
      (∀ s, (dumpLine s).toList.takeWhile (· ≠ ':') = (toString (utf8Bytes s).length).toList) ∧
      Function.Injective dumpText := by
  have hminded := minded_start hstart hheld
  exact ⟨(hminded.run deeds).readBack (hminded.whole_run (Interner.whole_start hstart) deeds),
    fun s => (splitAtColon_dumpLine s).1, dumpText_injective⟩

/-- Strings that look like parts of a dump. -/
def trickyDeeds : List Deed :=
  [.ask (.intern "# Shared strings:"), .ask (.intern "3: abc\n\\"), .ask (.intern "\x1bé")]

theorem dump_read_back_of_tricky_strings :
    Interner.start World.oneBucket (some single) Interner.ownCells {} =
      .ok stocked.session.interner ∧
      (stocked.run trickyDeeds).ReadBack ∧
      (stocked.run trickyDeeds).inventory =
        ⟨some ["# Shared strings:", "3: abc\n\\", "\x1bé"], ["a"]⟩ := by
  have hstart : Interner.start World.oneBucket (some single) Interner.ownCells {} =
    .ok stocked.session.interner := rfl
  have hheld : ∀ o, List.count o ([] : List ObjectId) ≤ Heap.refs {} o := fun _ => Nat.zero_le _
  exact ⟨hstart, (dump_read_back hstart hheld trickyDeeds).1, by decide +kernel⟩

end Workshop

end WeakIntern
