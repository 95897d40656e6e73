import Mathlib.Data.List.Dedup
import WeakIntern.CommandLine.Run
import WeakIntern.Proofs.Canonical
import WeakIntern.Proofs.Dumps
import WeakIntern.Proofs.Handover
import WeakIntern.Proofs.StressRuns
/-!
# What is archived is dumped

`runArchive` leaves a snapshot of its words in a file, and `runDump` prints the strings of a
snapshot and of further words. The two need not be run under one profile. Each word that was
archived has one line in the dump, and so has each further word that was not (`archive_dumped`): all
in one section if the snapshot is loaded, and in two if it is mapped.
-/

namespace WeakIntern

open scoped List

/-! ## Files -/

namespace FileTree

variable {tree : FileTree} {place names : List String} {path : String} {bytes : List UInt8}

/-- A file can be written where the path leads. -/
def Writable (tree : FileTree) (path : String) : Prop :=
  ∃ names, tree.resolve? path = some names ∧ tree.isDirectory names = false

theorem isDirectory_addFile (h : tree.isDirectory place = true) (names : List String)
    (bytes : List UInt8) :
    (tree.addFile names bytes).isDirectory place = true := by
  simp only [isDirectory, addFile, Bool.or_eq_true, List.any_eq_true, List.mem_cons,
    List.mem_filter, Prod.exists] at h ⊢
  rcases h with h | ⟨file, content, hmem, hbelow⟩
  · exact .inl h
  · by_cases hfile : file = names
    · exact .inr ⟨names, bytes, .inl rfl, hfile ▸ hbelow⟩
    · exact .inr ⟨file, content, .inr ⟨hmem, by simpa using hfile⟩, hbelow⟩

/-- A path leads where it led before a file was added. -/
theorem walk_addFile {path place' : List String} (h : tree.walk place path = some place')
    (names : List String) (bytes : List UInt8) :
    (tree.addFile names bytes).walk place path = some place' := by
  induction path generalizing place with
  | nil => exact h
  | cons name rest ih =>
    rw [walk] at h ⊢
    split at h
    · cases h
    · next hopen =>
      simp only [Bool.or_eq_true, Bool.not_eq_true', not_or, Bool.not_eq_false] at hopen
      rw [if_neg (by simp [isDirectory_addFile hopen.1, hopen.2])]
      exact ih h

/-- **What is written is read.** -/
theorem Writable.read? (h : tree.Writable path) (bytes : List UInt8) :
    ∃ tree', tree.write? path bytes = some tree' ∧ tree'.read? path = some bytes := by
  obtain ⟨names, hresolve, hfree⟩ := h
  refine ⟨tree.addFile names bytes, by simp [write?, hresolve, hfree], ?_⟩
  have hresolve' : (tree.addFile names bytes).resolve? path = some names := by
    rw [resolve?] at hresolve ⊢
    split at hresolve
    · cases hresolve
    · next hshort =>
      rw [if_neg hshort]
      exact walk_addFile hresolve names bytes
  rw [FileTree.read?, hresolve', Option.bind_some, lookup_addFile]

end FileTree

/-! ## Interning words -/

theorem WeakMap.isSome_entry_intern (m : WeakMap) (s t : String) :
    ((m.intern s).2.entry t).isSome = true ↔ (m.entry t).isSome = true ∨ t = s := by
  rw [intern]
  cases hentry : m.entry s with
  | some o =>
    constructor
    · exact .inl
    · rintro (ht | rfl)
      · exact ht
      · exact Option.isSome_iff_exists.2 ⟨o, hentry⟩
  | none =>
    have hcontent : (m.step (.allocate s)).heap.content (m.heap.alloc s).1 = s :=
      m.heap.content_alloc_self s
    dsimp only
    rw [entry_insert, hcontent]
    split
    · next ht => simp [ht]
    · next ht => simp [ht, step]

namespace Interner

variable {i : Interner} {m : WeakMap} {s : String}

/-- What an interner has are its entries. -/
theorem Keeps.has_iff (h : i.Keeps m) : i.Has s ↔ (m.entry s).isSome = true := by
  have hheap : ∀ o, m.heap.content o = i.heap.content o := fun o => by rw [h.heap]
  constructor
  · rintro ⟨o, ho | ho, rfl⟩
    · cases hfirst : i.overlay.first? i.heap (i.heap.content o) with
      | some p => exact Option.isSome_iff_exists.2 ⟨p, h.shared _ p hfirst⟩
      | none =>
        have hnone := List.find?_eq_none.1 hfirst o ho
        simp at hnone
    · have hentry := (h.table.entry (i.heap.content o) o).2 ⟨h.heap ▸ ho, hheap o⟩
      simp only [WeakMap.without] at hentry
      split at hentry
      · cases hentry
      · exact Option.isSome_iff_exists.2 ⟨o, hentry⟩
  · intro hsome
    obtain ⟨o, hentry⟩ := Option.isSome_iff_exists.1 hsome
    cases hfirst : i.overlay.first? i.heap s with
    | some p => exact ⟨p, .inl (Overlay.mem_of_first? hfirst), Overlay.content_of_first? hfirst⟩
    | none =>
      obtain ⟨hholds, hcontent⟩ :=
        (h.table.entry s o).1 ((WeakMap.entry_without hfirst).trans hentry)
      exact ⟨o, .inr (h.heap ▸ hholds), (hheap o).symm.trans hcontent⟩

/-- An interner that has just these strings, each once, and whose table is free. -/
structure Stocked (i : Interner) (strings : List String) : Prop where
  free : i.table.owned = false
  contents : (i.contents i.visibleObjects).Perm strings.dedup

end Interner

namespace Workshop

variable {region : List ObjectId} {cells : CellStore} {i : Interner} {held : List ObjectId}
    {r : Registry}

theorem Tended.stocked (h : Tended region cells { session := { interner := i, held } } r)
    {strings : List String} (hentry : ∀ s, (r.map.entry s).isSome = true ↔ s ∈ strings) :
    i.Stocked strings := by
  have hrest := h.minded.orderly.atRest fun task htask => absurd htask List.not_mem_nil
  refine ⟨hrest.free,
    (List.perm_ext_iff_of_nodup (h.verified hrest.free).contents strings.nodup_dedup).2 fun s => ?_⟩
  rw [Interner.mem_contents_visibleObjects hrest.still, h.mirrors.keeps.has_iff, hentry,
    List.mem_dedup]

/-- **Words that are interned** are entries from then on, besides those that were. -/
theorem Tended.internAll (h : Tended region cells { session := { interner := i, held } } r)
    (strings : List String) :
    ∃ held' r', Tended region cells
      { session := { interner := (CommandLine.internAll i strings).2, held := held' } } r' ∧
      ∀ s, (r'.map.entry s).isSome = true ↔ (r.map.entry s).isSome = true ∨ s ∈ strings := by
  induction strings generalizing i held r with
  | nil => exact ⟨held, r, h, by simp⟩
  | cons word rest ih =>
    obtain ⟨held', r', htended, hentry⟩ := ih (h.ask (.intern word))
    refine ⟨held', r', htended, fun s => ?_⟩
    rw [hentry, show (r.step (.intern word)).2.map = (r.map.intern word).2 from rfl,
      WeakMap.isSome_entry_intern, List.mem_cons, or_assoc]

end Workshop

/-! ## The snapshot -/

open SnapshotDraft

/-- Bytes that are read, loaded or mapped, as an image of some strings, each once. -/
def IsSnapshotOf (bytes : List UInt8) (strings : List String) : Prop :=
  ∀ backing, ∃ (image : Image) (draft : SnapshotDraft), Image.read backing bytes = .ok image ∧
    draft.Imaged backing image ∧ image.Written ∧ draft.strings.toList.Perm strings.dedup

namespace Interner

variable {i : Interner} {strings : List String}

/-- **An archive** of an interner has one record for each of its strings. -/
theorem Stocked.archive (h : i.Stocked strings)
    (hsize : (regionBytes strings.dedup).length < 2 ^ 32) (addressing : Addressing) :
    ∃ bytes, i.archive addressing = .ok bytes ∧ IsSnapshotOf bytes strings := by
  have hsame := eraseDups_of_nodup (h.contents.nodup_iff.2 strings.nodup_dedup)
  have hregion : (regionBytes (i.contents i.visibleObjects).eraseDups).length < 2 ^ 32 := by
    rw [hsame, regionBytes, (h.contents.flatMap_right recordBytes).length_eq]
    exact hsize
  obtain ⟨bytes, harchive, hread⟩ := archive_of_lt hregion addressing
  refine ⟨bytes, harchive, fun backing => ?_⟩
  obtain ⟨image, himage, himaged, hwritten⟩ := hread backing
  refine ⟨image, _, himage, himaged, hwritten, ?_⟩
  rw [strings_ofList, hsame]
  exact h.contents

end Interner

/-! ## The dump -/

namespace CommandLine

/-- The text shows strings of the table only, one to a line. -/
def ShowsTable (text : String) (strings : List String) : Prop :=
  ∃ table : List String, table.Perm strings.dedup ∧ textLines text = "VERSION: 1.1" ::
    table.map dumpLine ++ [""]

/-- The text shows strings of the table and, under their header, shared ones. -/
def ShowsShared (text : String) (strings shared : List String) : Prop :=
  ∃ table overlay : List String, table.Perm strings.dedup ∧ overlay.Perm shared.dedup ∧
    textLines text = "VERSION: 1.1" :: table.map dumpLine ++
    (sharedHeader ++ overlay.map dumpLine) ++ [""]

variable {i : Interner}

theorem overlay_internAll (i : Interner) (strings : List String) :
    (internAll i strings).2.overlay = i.overlay := by
  induction strings generalizing i with
  | nil => rfl
  | cons s rest ih => exact (ih _).trans (Session.overlay_intern i s)

theorem tableLines_of_free (hfree : i.table.owned = false) :
    i.tableLines = (i.contents (i.table.liveObjects i.heap)).map dumpLine := by
  rw [Interner.tableLines, Table.scan?, hfree]
  rfl

/-- A stocked interner without an overlay shows its strings. -/
theorem showsTable_of_stocked {strings : List String} (h : i.Stocked strings)
    (hempty : i.overlay.isEmpty = true) :
    ShowsTable i.dumpStrings strings := by
  have hcontents := h.contents
  rw [Interner.visibleObjects, Overlay.objects_of_isEmpty hempty, List.nil_append] at hcontents
  refine ⟨_, hcontents, ?_⟩
  rw [i.textLines_dumpStrings, Interner.allLines, tableLines_of_free h.free,
    Interner.overlayLines, hempty]
  simp

/-- A stocked interner with an overlay shows what the overlay has apart from the rest. -/
theorem showsShared_of_stocked {strings shared : List String} (h : i.Stocked (shared ++ strings))
    (hshared : (i.contents i.overlay.objects).Perm shared.dedup)
    (hfull : i.overlay.isEmpty = false) :
    ShowsShared i.dumpStrings (strings.filter (· ∉ shared)) shared := by
  have hcontents : (i.contents i.overlay.objects ++ i.contents (i.table.liveObjects i.heap)).Perm
      (shared ++ strings).dedup := by
    have hall := h.contents
    rwa [Interner.contents, Interner.visibleObjects, List.map_append] at hall
  obtain ⟨-, hnodup, hapart⟩ := List.nodup_append.1 (hcontents.nodup_iff.2 (List.nodup_dedup _))
  refine ⟨_, _, (List.perm_ext_iff_of_nodup hnodup (List.nodup_dedup _)).2 fun s => ?_, hshared, ?_⟩
  · have hmem := hcontents.mem_iff (a := s)
    rw [List.mem_append, hshared.mem_iff] at hmem
    simp only [List.mem_dedup, List.mem_append, List.mem_filter, decide_eq_true_eq] at hmem ⊢
    constructor
    · intro hs
      have hnot : s ∉ shared :=
        fun hmem' => hapart s (hshared.mem_iff.2 (List.mem_dedup.2 hmem')) s hs rfl
      exact ⟨(hmem.1 (.inr hs)).resolve_left hnot, hnot⟩
    · rintro ⟨hs, hnot⟩
      exact (hmem.2 (.inr hs)).resolve_left hnot
  · rw [i.textLines_dumpStrings, Interner.allLines, tableLines_of_free h.free,
      Interner.overlayLines, hfull]
    simp

/-! ## The commands -/

variable {settings : Settings} {image : Image} {draft : SnapshotDraft} {backing : Backing}
    {tree : FileTree}
  {profile : Profile} {given texts : List String} {input : Option String} {output : String}
    {narrow : Bool}

theorem startTable_eq_ok (hcheck : settings.check = .ok ()) (image : Option Image) :
    ∃ i, startTable settings image = .ok i ∧
      Interner.start { settings with background := false } image Interner.ownCells {} = .ok i := by
  have hstart :
      Interner.start { settings with background := false } image Interner.ownCells {} = .ok _ :=
    Interner.start_eq_ok_iff.2 ⟨hcheck, rfl⟩
  exact ⟨_, by rw [startTable, hstart], hstart⟩

/-- The entries that a registry begins with are the strings of the snapshot. -/
theorem isSome_entry_start (himaged : draft.Imaged backing image) (heap : Heap)
    (held : List ObjectId) (s : String) :
    ((Registry.start heap (some image) held).map.entry s).isSome = true ↔
      s ∈ draft.strings.toList := by
  have hlookup := Image.lookup?_of_imaged himaged heap s
  rw [(Overlay.indexed_ofImage heap image).lookup?_eq] at hlookup
  rw [show (Registry.start heap (some image) held).map.entry s =
    (Overlay.ofImage heap image).1.first? (Overlay.ofImage heap image).2 s from rfl,
    ← Option.isSome_map, hlookup]
  split <;> simp [*]

/-- A table that was started and holds words has the words and the strings of its snapshot. -/
theorem stocked_holding {image : Option Image}
    (hstart : Interner.start settings image Interner.ownCells {} = .ok i)
    (hwritten : ∀ snapshot ∈ image, snapshot.Written) (shared : List String)
    (hshared : ∀ s, ((Registry.start {} image []).map.entry s).isSome = true ↔ s ∈ shared)
    (texts : List String) :
    (holding i texts).2.Stocked (shared ++ texts.flatMap words) := by
  have hheld : ∀ o, List.count o ([] : List ObjectId) ≤ Heap.refs {} o := fun _ => Nat.zero_le _
  obtain ⟨held, r, htended, hentry⟩ :=
    (Workshop.tended_start hstart hheld hwritten).internAll (texts.flatMap words)
  exact htended.stocked fun s => by rw [hentry, hshared, List.mem_append]

theorem isEmpty_overlay_of_loaded
    (hstart : Interner.start settings (some image) Interner.ownCells {} = .ok i)
    (hloaded : image.backing = .loaded) : i.overlay.isEmpty = true := by
  obtain ⟨-, rfl⟩ := Interner.start_eq_ok_iff.1 hstart
  rw [Interner.requiresTransfer_fresh, hloaded]
  cases hempty : image.entries.isEmpty with
  | true => exact hempty
  | false =>
    show (Interner.fresh settings (some image) Interner.ownCells
      {}).transferOverlay.2.overlay.isEmpty = true
    rw [Interner.overlay_eq_drain]
    rfl

/-- An overlay of a mapped snapshot keeps the strings of the snapshot, while words are interned. -/
theorem contents_overlay_of_mapped
    (hstart : Interner.start settings (some image) Interner.ownCells {} = .ok i)
    (himaged : draft.Imaged .mapped image) (strings : List String) :
    ((internAll i strings).2.contents (internAll i strings).2.overlay.objects).Perm
      draft.strings.toList := by
  obtain ⟨hkeeps, -⟩ := Interner.keeps_start hstart []
  have hlater := Errands.heap_later (runs_internAll i strings)
  have hkept : (internAll i strings).2.contents i.overlay.objects = i.contents i.overlay.objects :=
    List.map_congr_left fun o ho => hlater.content o (Heap.knows_of_isLive (hkeeps.alive o ho))
  rw [overlay_internAll, hkept]
  obtain ⟨-, rfl⟩ := Interner.start_eq_ok_iff.1 hstart
  rw [Interner.requiresTransfer_fresh, himaged.backing, Bool.and_comm]
  exact Image.contents_of_imaged himaged {}

theorem readImage_eq_ok {bytes : List UInt8} {path : String} (hread : tree.read? path = some bytes)
    (map : Bool) (himage : Image.read (if map then .mapped else .loaded) bytes = .ok image) :
    readImage tree path map = .ok image := by
  rw [readImage, hread]
  dsimp only
  rw [himage]
  rfl

theorem runDump_eq_ok {path : String} {map : Bool} (himage : readImage tree path map = .ok image)
    (htable : startTable profile.table (some image) = .ok i) (given : List String) :
    runDump profile tree given (some path) map true false =
      .ok (holding i given).2.dumpStrings := by
  simp only [runDump, himage, htable, bind, Except.bind, Except.map, pure, Except.pure]
  rfl

/-- The dump of a file and of further words shows what was archived in the file, and the further
words. -/
structure Profile.Dumps (profile : Profile) (tree : FileTree) (path : String)
    (archived further : List String) : Prop where
  loaded : ∃ text, runDump profile tree further (some path) false true false = .ok text ∧
    ShowsTable text (archived ++ further.flatMap words)
  mapped : ∃ text, runDump profile tree further (some path) true true false = .ok text ∧
    ShowsShared text ((further.flatMap words).filter (· ∉ archived)) archived

theorem runArchive_eq (htexts : archiveTexts tree given input = .ok texts)
    (htable : startTable profile.table none = .ok i) :
    runArchive profile tree given input output narrow =
      if texts.flatMap words = [] then .error (.validation "no words to archive")
      else
        match (holding i texts).2.archive (if narrow then .narrow else .offset) with
        | .error cause => .error (.table cause)
        | .ok bytes => match tree.write? output bytes with
          | some tree => .ok tree
          | none => .error .io := by
  have hempty : (holding i texts).1.isEmpty = true ↔ texts.flatMap words = [] := by
    rw [List.isEmpty_iff_length_eq_zero, holding, length_internAll, List.length_eq_zero_iff]
  simp only [runArchive, htexts, htable, bind, Except.bind, hempty]
  split
  · rfl
  · rfl

/-- A table of words is archived, if they are not too long for a snapshot. -/
theorem archive_holding (hcheck : settings.check = .ok ()) {archived : List String}
    (htexts : texts.flatMap words = archived)
    (hregion : (regionBytes archived.dedup).length < 2 ^ 32) (addressing : Addressing) :
    ∃ i bytes, startTable settings none = .ok i ∧
      (holding i texts).2.archive addressing = .ok bytes ∧
      IsSnapshotOf bytes archived := by
  obtain ⟨i, htable, hstart⟩ := startTable_eq_ok hcheck none
  have hstocked :=
    stocked_holding hstart nofun [] (fun s => by simp [Registry.start, WeakMap.empty]) texts
  rw [List.nil_append, htexts] at hstocked
  obtain ⟨bytes, harchive, hread⟩ := hstocked.archive hregion addressing
  exact ⟨i, bytes, htable, harchive, hread⟩

/-- A file with a snapshot is dumped in full. -/
theorem dumps_of_read {path : String} {bytes : List UInt8} {archived : List String}
    (hread : tree.read? path = some bytes) (hbytes : IsSnapshotOf bytes archived)
    (hsome : archived ≠ []) (hcheck : profile.table.check = .ok ()) (further : List String) :
    profile.Dumps tree path archived further := by
  have hstocked : ∀ {backing : Backing} {image : Image} {draft : SnapshotDraft} {i : Interner},
      draft.Imaged backing image → image.Written → draft.strings.toList.Perm archived.dedup →
      Interner.start { profile.table with background := false } (some image) Interner.ownCells {} =
        .ok i →
      (holding i further).2.Stocked (archived ++ further.flatMap words) := by
    intro backing image draft i himaged hwritten hperm hstart
    refine stocked_holding hstart ?_ archived ?_ further
    · rintro _ ⟨⟩
      exact hwritten
    · intro s
      rw [isSome_entry_start himaged, hperm.mem_iff, List.mem_dedup]
  constructor
  · obtain ⟨image, draft, himage, himaged, hwritten, hperm⟩ := hbytes .loaded
    obtain ⟨i, htable, hstart⟩ := startTable_eq_ok hcheck (some image)
    refine ⟨_, runDump_eq_ok (readImage_eq_ok hread false himage) htable further, ?_⟩
    refine showsTable_of_stocked (hstocked himaged hwritten hperm hstart) ?_
    rw [holding, overlay_internAll]
    exact isEmpty_overlay_of_loaded hstart himaged.backing
  · obtain ⟨image, draft, himage, himaged, hwritten, hperm⟩ := hbytes .mapped
    obtain ⟨i, htable, hstart⟩ := startTable_eq_ok hcheck (some image)
    have hcontents :
        ((holding i further).2.contents (holding i further).2.overlay.objects).Perm
          archived.dedup :=
      (contents_overlay_of_mapped hstart himaged (further.flatMap words)).trans hperm
    refine ⟨_, runDump_eq_ok (readImage_eq_ok hread true himage) htable further, ?_⟩
    refine showsShared_of_stocked (hstocked himaged hwritten hperm hstart) hcontents ?_
    -- An empty overlay would have no contents, but something was archived.
    refine Bool.eq_false_iff.2 fun hempty => hsome ?_
    rw [Overlay.objects_of_isEmpty hempty] at hcontents
    exact (List.dedup_eq_nil _).1 (List.nil_perm.1 hcontents)

/-- **What is archived is dumped**, whichever settings either command has, and in either addressing:
from a snapshot in memory in one section, and from a mapped one in two. Where there is no word to
archive, the command says so and leaves all files as they are. -/
theorem archive_dumped (hcheck : profile.table.check = .ok ())
    (htexts : archiveTexts tree given input = .ok texts) (output : String) (narrow : Bool) :
    (texts.flatMap words ≠ [] → tree.Writable output →
      (regionBytes (texts.flatMap words).dedup).length < 2 ^ 32 →
      ∃ tree', runArchive profile tree given input output narrow = .ok tree' ∧
        ∀ later : Profile, later.table.check = .ok () → ∀ further,
          later.Dumps tree' output (texts.flatMap words) further) ∧
    (texts.flatMap words = [] →
      runArchive profile tree given input output narrow =
        .error (.validation "no words to archive") ∧
        ∀ env seed args config,
          Request.ofArguments env args =
            .run { config, command := .archive given input output narrow } →
          Profile.find tree env config = .ok profile →
          run tree env seed args =
            { exitCode := 1
              message := some "Error: Validation error: no words to archive"
              tree }) := by
  constructor
  · intro hsome hwritable hregion
    obtain ⟨i, bytes, htable, harchive, hbytes⟩ :=
      archive_holding hcheck rfl hregion (if narrow then .narrow else .offset)
    obtain ⟨tree', hwrite, hread⟩ := hwritable.read? bytes
    refine ⟨tree', ?_, fun later hcheck' further =>
      dumps_of_read hread hbytes hsome hcheck' further⟩
    rw [runArchive_eq htexts htable, if_neg hsome, harchive]
    dsimp only
    rw [hwrite]
  · intro hnone
    obtain ⟨i, htable, -⟩ := startTable_eq_ok hcheck none
    have hrun : runArchive profile tree given input output narrow =
        .error (.validation "no words to archive") := by
      rw [runArchive_eq htexts htable, if_pos hnone]
    refine ⟨hrun, fun env seed args config hrequest hprofile => ?_⟩
    have hmessage : firstLine (Trouble.message (.validation "no words to archive")) =
        "Error: Validation error: no words to archive" := by decide +kernel
    rw [run, hrequest]
    simp only [hprofile, Command.run, hrun, bind, Except.bind, Except.map, hmessage]

/-- One word comes twice, and again when the file is dumped. -/
theorem archive_dumped_twice :
    ({} : Profile).table.check = .ok () ∧ archiveTexts {} ["b a", "a"] none = .ok ["b a", "a"] ∧
      ["b a", "a"].flatMap words = ["b", "a", "a"] ∧ FileTree.Writable {} "w" ∧
      ∃ tree', runArchive {} {} ["b a", "a"] none "w" true = .ok tree' ∧
        ({} : Profile).Dumps tree' "w" ["b", "a", "a"] ["c\ta"] := by
  have hcheck : ({} : Profile).table.check = .ok () := rfl
  have htexts : archiveTexts {} ["b a", "a"] none = .ok ["b a", "a"] := rfl
  have hwords : ["b a", "a"].flatMap words = ["b", "a", "a"] := by decide +kernel
  have hsplit : "w".splitOn "/" = ["w"] := by
    rw [String.splitOn, if_neg (by decide), String.splitOnAux, if_neg (by decide),
      if_neg (by decide), String.splitOnAux, if_pos (by decide)]
    decide
  have hresolve : FileTree.resolve? {} "w" = some ["w"] := by
    rw [FileTree.resolve?, hsplit]
    decide +kernel
  have hwritable : FileTree.Writable {} "w" := ⟨["w"], hresolve, by decide +kernel⟩
  have hregion : (regionBytes ["b", "a", "a"].dedup).length < 2 ^ 32 := by decide +kernel
  obtain ⟨harchived, -⟩ := archive_dumped hcheck htexts "w" true
  rw [hwords] at harchived
  obtain ⟨tree', harchive, hdumps⟩ := harchived (by decide) hwritable hregion
  exact ⟨hcheck, htexts, hwords, hwritable, tree', harchive, hdumps {} hcheck ["c\ta"]⟩


end CommandLine

end WeakIntern
