import WeakIntern.Overlay
import WeakIntern.Proofs.Lifetime
/-!
# The index of an overlay

The index of an overlay is sorted by hash, and what an entry leads to has the hash of the entry. So
the entries with one hash stand side by side, the two bisections bound them, and a lookup among them
finds the object of the first entry of the whole index that has the content (`Indexed.lookup?_eq`).

An overlay that was made from a snapshot has one object for each record, and the region of the
snapshot is the first to hold it.
-/

namespace WeakIntern

namespace Overlay

/-- The object of the first entry with a content. -/
def first? (overlay : Overlay) (heap : Heap) (s : String) : Option ObjectId :=
  overlay.objects.find? fun o => heap.content o == s

/-- The index is sorted, and each entry has the hash of its object. -/
structure Indexed (heap : Heap) (overlay : Overlay) : Prop where
  sorted : overlay.entries.toList.Pairwise fun a b => a.hash ≤ b.hash
  hash : ∀ entry ∈ overlay.entries.toList, ∀ o, overlay.object? entry = some o →
    unitHash (heap.content o) = entry.hash

/-! ## Bisection of the index -/

theorem split_of_sorted (hash : UInt32) {entries : List IndexEntry}
    (h : entries.Pairwise fun a b => a.hash ≤ b.hash) :
    entries = entries.filter (·.hash < hash) ++
      (entries.filter (·.hash = hash) ++ entries.filter (hash < ·.hash)) := by
  induction h with
  | nil => rfl
  | @cons entry rest hle hsorted ih =>
    by_cases hlt : entry.hash < hash
    · have hne : ¬ entry.hash = hash := UInt32.ne_of_lt hlt
      have hge : ¬ hash < entry.hash := UInt32.lt_asymm hlt
      simp only [List.filter_cons, hlt, hne, hge, decide_true, decide_false, if_true,
        List.cons_append]
      simpa using ih
    · -- Nothing that follows is below an entry that is not below the hash.
      have hbelow : rest.filter (·.hash < hash) = [] := by
        simp only [List.filter_eq_nil_iff, decide_eq_true_eq]
        intro e he hlt'
        exact hlt (UInt32.lt_of_le_of_lt (hle e he) hlt')
      rw [hbelow, List.nil_append] at ih
      by_cases heq : entry.hash = hash
      · subst heq
        simpa [hbelow, UInt32.lt_irrefl] using ih
      · have habove : hash < entry.hash := UInt32.lt_of_le_of_ne (UInt32.not_lt.1 hlt) (Ne.symm heq)
        have hsame : rest.filter (·.hash = hash) = [] := by
          simp only [List.filter_eq_nil_iff, decide_eq_true_eq]
          intro e he he'
          exact UInt32.lt_irrefl _ (UInt32.lt_of_lt_of_le habove (he' ▸ hle e he))
        rw [hsame, List.nil_append] at ih
        simpa [hbelow, hsame, hlt, heq, habove] using ih

/-- Bisection finds the seam between the entries that satisfy a predicate and those that do not. -/
theorem bisect_append {p : IndexEntry → Bool} {below above : List IndexEntry}
    (hbelow : ∀ e ∈ below, p e = true) (habove : ∀ e ∈ above, p e = false) :
    bisect (fun i => ((below ++ above)[i]?).any p) 0 (below ++ above).length = below.length := by
  refine bisect_eq_of_split ?_ ?_ 0 _ (Nat.zero_le _) (by simp)
  · intro i hi
    rw [List.getElem?_append_left hi, List.getElem?_eq_getElem hi, Option.any_some]
    exact hbelow _ (List.getElem_mem hi)
  · intro i hi
    rw [List.getElem?_append_right hi]
    cases hget : above[i - below.length]? with
    | none => rfl
    | some e => exact habove e (List.mem_of_getElem? hget)

variable {heap : Heap} {overlay : Overlay}

/-- The first bisection counts the entries below a hash. -/
theorem Indexed.firstAt_eq (h : overlay.Indexed heap) (hash : UInt32) :
    overlay.firstAt hash = (overlay.entries.toList.filter (·.hash < hash)).length := by
  have hsplit := split_of_sorted hash h.sorted
  simp only [firstAt, ← Array.getElem?_toList, ← Array.length_toList]
  rw [hsplit]
  rw [bisect_append (by simp)]
  · rw [← hsplit]
  · intro e he
    rcases List.mem_append.1 he with he | he
    · simp [(of_decide_eq_true (List.mem_filter.1 he).2), UInt32.lt_irrefl]
    · simpa using UInt32.le_of_lt (of_decide_eq_true (List.mem_filter.1 he).2)

/-- The second one counts those that are not above it. -/
theorem Indexed.firstAbove_eq (h : overlay.Indexed heap) (hash : UInt32) : overlay.firstAbove hash =
    (overlay.entries.toList.filter (·.hash < hash)).length +
      (overlay.entries.toList.filter (·.hash = hash)).length := by
  have hsplit := split_of_sorted hash h.sorted
  rw [← List.append_assoc] at hsplit
  simp only [firstAbove, ← Array.getElem?_toList, ← Array.length_toList]
  rw [hsplit]
  rw [bisect_append _ (by simp)]
  · rw [← hsplit, List.length_append]
  · intro e he
    rcases List.mem_append.1 he with he | he
    · simpa using UInt32.le_of_lt (of_decide_eq_true (List.mem_filter.1 he).2)
    · simp [(of_decide_eq_true (List.mem_filter.1 he).2)]

/-- The entries with a hash, whatever stands around them. -/
theorem Indexed.entriesWith_eq (h : overlay.Indexed heap) (hash : UInt32) :
    overlay.entriesWith hash = overlay.entries.toList.filter (·.hash = hash) := by
  have hsplit := split_of_sorted hash h.sorted
  rw [entriesWith, h.firstAt_eq, h.firstAbove_eq, Array.toList_extract, List.extract_eq_take_drop]
  generalize overlay.entries.toList.filter (·.hash < hash) = below at hsplit ⊢
  generalize overlay.entries.toList.filter (·.hash = hash) = same at hsplit ⊢
  rw [hsplit]
  simp

/-- **A lookup** answers with the object of the first entry that has the content. -/
theorem Indexed.lookup?_eq (h : overlay.Indexed heap) (s : String) :
    overlay.lookup? heap s (unitHash s) = overlay.first? heap s := by
  rw [lookup?, h.entriesWith_eq, first?, objects]
  have hhash := h.hash
  generalize overlay.entries.toList = entries at hhash ⊢
  induction entries with
  | nil => rfl
  | cons entry rest ih =>
    replace ih := ih fun e he => hhash e (List.mem_cons_of_mem _ he)
    cases ho : overlay.object? entry with
    | none =>
      rw [List.filterMap_cons_none ho, ← ih, List.filter_cons]
      split
      · rw [List.findSome?_cons, ho, Option.filter_none]
      · rfl
    | some o =>
      rw [List.filterMap_cons_some ho, List.find?_cons, List.filter_cons]
      by_cases hcontent : heap.content o = s
      · have hentry : entry.hash = unitHash s := by
          rw [← hcontent, hhash entry List.mem_cons_self o ho]
        simp [hentry, ho, hcontent]
      · have hother : (heap.content o == s) = false := by simpa using hcontent
        simp only [hother, ← ih]
        split
        · simp [ho, hother]
        · rfl

/-! ## First entries -/

variable {heap' : Heap} {s : String} {o : ObjectId}

theorem content_of_first? (h : overlay.first? heap s = some o) : heap.content o = s :=
  LawfulBEq.eq_of_beq (List.find?_some (p := fun o => heap.content o == s) h)

theorem mem_of_first? (h : overlay.first? heap s = some o) : o ∈ overlay.objects :=
  List.mem_of_find?_eq_some h

theorem first?_later (hlater : Heap.Later heap heap')
    (hknows : ∀ o ∈ overlay.objects, heap.Knows o) :
    overlay.first? heap' = overlay.first? heap := by
  funext s
  unfold first?
  generalize overlay.objects = objects at hknows ⊢
  induction objects with
  | nil => rfl
  | cons o rest ih =>
    rw [List.find?_cons, List.find?_cons, hlater.content o (hknows o List.mem_cons_self),
      ih fun p hp => hknows p (List.mem_cons_of_mem _ hp)]

theorem Indexed.later (h : overlay.Indexed heap) (hlater : Heap.Later heap heap')
    (hknows : ∀ o ∈ overlay.objects, heap.Knows o) : overlay.Indexed heap' where
  sorted := h.sorted
  hash entry hentry o ho := by
    rw [hlater.content o (hknows o (List.mem_filterMap.2 ⟨entry, hentry, ho⟩))]
    exact h.hash entry hentry o ho

theorem objects_of_isEmpty (h : overlay.isEmpty = true) : overlay.objects = [] := by
  simp only [isEmpty, Array.isEmpty_iff] at h
  rw [objects, h]
  rfl

theorem first?_of_objects (h : overlay.objects = []) (heap : Heap) :
    overlay.first? heap = fun _ => none := by
  funext s
  rw [first?, h, List.find?_nil]

/-! ## The objects of a snapshot -/

/-- The objects of a snapshot, one to a record. -/
def regionOf (heap : Heap) (image : Image) : List ObjectId := (heap.allocAll image.records.toList).1

theorem provides_ofImage (heap : Heap) (image : Image) :
    heap.Provides image.records.toList (regionOf heap image) (ofImage heap image).2 :=
  heap.provides_allocAll image.records.toList

theorem mem_region_of_object? {region : Region} (hregion : overlay.region = some region)
    {entry : IndexEntry} (ho : overlay.object? entry = some o) : o ∈ region.objects.toList := by
  rw [object?, hregion, Option.bind_some, Region.decode?] at ho
  obtain ⟨i, -, hi⟩ := Option.bind_eq_some_iff.1 ho
  exact Array.mem_toList_iff.2 (Array.mem_of_getElem? hi)

/-- An entry leads to the object of the record that the snapshot has for it. -/
theorem content_object?_ofImage (heap : Heap) (image : Image) (entry : IndexEntry) :
    ((ofImage heap image).1.object? entry).map (ofImage heap image).2.content =
      image.decode? entry.value image.addressing := by
  have hprovides := provides_ofImage heap image
  have hrecord : ∀ i : Nat, ((regionOf heap image)[i]?).map (ofImage heap image).2.content =
      image.records[i]? := by
    intro i
    rw [← List.getElem?_map, hprovides.contents, Array.getElem?_toList]
  simp only [object?, ofImage, Option.bind_some, Region.decode?, Image.decode?, Addressing.record?,
    Option.map_bind, List.getElem?_toArray]
  congr 1
  funext i
  exact hrecord i

theorem indexed_ofImage (heap : Heap) (image : Image) :
    (ofImage heap image).1.Indexed (ofImage heap image).2 where
  sorted := image.sorted
  hash entry hentry o ho := by
    have hleads := image.leads entry hentry
    rw [← Image.decode?, ← content_object?_ofImage heap image entry, ho] at hleads
    exact Option.some.inj hleads

theorem mem_regionOf {image : Image} (ho : o ∈ (ofImage heap image).1.objects) :
    o ∈ regionOf heap image := by
  obtain ⟨entry, -, hentry⟩ := List.mem_filterMap.1 ho
  exact mem_region_of_object? rfl hentry

theorem alive_ofImage {image : Image} (ho : o ∈ (ofImage heap image).1.objects) :
    (ofImage heap image).2.isLive o = true := by
  rw [Heap.isLive_iff, ((provides_ofImage heap image).fresh o (mem_regionOf ho)).2]
  exact Nat.one_ne_zero

/-- The object that an overlay has for a content of its snapshot is that of the first entry with the
content. -/
theorem first?_ofImage (heap : Heap) {image : Image} {entry : IndexEntry}
    (hfind : (image.entries.toList.find? fun entry =>
      image.decode? entry.value image.addressing = some s) = some entry) :
    ∃ o, (ofImage heap image).1.object? entry = some o ∧
      (ofImage heap image).1.first? (ofImage heap image).2 s = some o := by
  have hsame :
      (fun entry : IndexEntry => decide (image.decode? entry.value image.addressing = some s)) =
      fun entry => ((ofImage heap image).1.object? entry).any fun o =>
        (ofImage heap image).2.content o == s := by
    funext entry
    rw [← content_object?_ofImage heap image entry]
    cases (ofImage heap image).1.object? entry with
    | none => simp
    | some o => by_cases hcontent : (ofImage heap image).2.content o = s <;> simp [hcontent]
  rw [hsame] at hfind
  have hheld := List.find?_some hfind
  obtain ⟨o, ho, -⟩ := (Option.any_eq_true _ _).1 hheld
  refine ⟨o, ho, ?_⟩
  rw [first?, objects, List.find?_filterMap]
  show (image.entries.toList.find? _).bind _ = some o
  rw [hfind, Option.bind_some, ho]

end Overlay

end WeakIntern
