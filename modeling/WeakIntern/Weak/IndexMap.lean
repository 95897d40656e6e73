import Std.Data.TreeMap
/-!
# Maps with their entries in a row

An `IndexMap` keeps its entries in a row, and knows the place of each key. A new key comes at the
end of the row. To remove an entry the last one is put in its place, so that no other entry moves.

What matters to a reader of the map is which entries it has (`entries_insert`, `mem_swapRemove`).
-/

namespace WeakIntern

/-- The places of the keys in a row of entries. -/
def IndexMap.Places {α : Type} (entries : Array (Nat × α)) (places : Std.TreeMap Nat Nat) : Prop :=
  ∀ key i : Nat, places[key]? = some i ↔ entries[i]?.map Prod.fst = some key

theorem IndexMap.places_empty {α : Type} : Places (#[] : Array (Nat × α)) ∅ := by
  intro key i
  rw [Std.TreeMap.getElem?_emptyc, Array.getElem?_empty]
  exact iff_of_false nofun nofun

/-- A map from numbers to values. -/
structure IndexMap (α : Type) where
  /-- Where the entry of each key is. -/
  places : Std.TreeMap Nat Nat := ∅
  entries : Array (Nat × α) := #[]
  placed : IndexMap.Places entries places := by exact IndexMap.places_empty

namespace IndexMap

variable {α : Type} {entries : Array (Nat × α)} {places : Std.TreeMap Nat Nat} {key i : Nat}

/-! ## Rows of entries -/

/-- The row without its entry at a place. The last entry is put there. -/
def swapOut (entries : Array (Nat × α)) (i : Nat) (last : Nat × α) : Array (Nat × α) :=
  (entries.setIfInBounds i last).pop

theorem getElem?_swapOut (hi : i < entries.size) (last : Nat × α) (j : Nat) :
    (swapOut entries i last)[j]? =
      if j < entries.size - 1 then if i = j then some last else entries[j]? else none := by
  rw [swapOut, Array.getElem?_pop, Array.size_setIfInBounds, Array.getElem?_setIfInBounds]
  by_cases hij : i = j
  · subst hij
    simp only [hi, if_true]
  · simp only [hij, if_false]

namespace Places

theorem lt (h : Places entries places) (hplace : places[key]? = some i) : i < entries.size := by
  obtain ⟨entry, hentry, -⟩ := Option.map_eq_some_iff.1 ((h key i).1 hplace)
  exact (Array.getElem?_eq_some_iff.1 hentry).1

theorem key_mem_iff (h : Places entries places) :
    key ∈ entries.toList.map Prod.fst ↔ places[key]? ≠ none := by
  rw [List.mem_map, Option.ne_none_iff_exists']
  constructor
  · rintro ⟨entry, hmem, rfl⟩
    obtain ⟨i, hi⟩ := Array.mem_iff_getElem?.1 (Array.mem_toList_iff.1 hmem)
    exact ⟨i, (h _ i).2 (by rw [hi, Option.map_some])⟩
  · rintro ⟨i, hi⟩
    obtain ⟨entry, hentry, hkey⟩ := Option.map_eq_some_iff.1 ((h key i).1 hi)
    exact ⟨entry, Array.mem_toList_iff.2 (Array.mem_of_getElem? hentry), hkey⟩

/-- A key has one place. -/
theorem unique (h : Places entries places) {j : Nat} (hi : entries[i]?.map Prod.fst = some key)
    (hj : entries[j]?.map Prod.fst = some key) : i = j :=
  Option.some.inj (((h key i).2 hi).symm.trans ((h key j).2 hj))

theorem set (h : Places entries places) (hplace : places[key]? = some i) (value : α) :
    Places (entries.setIfInBounds i (key, value)) places := by
  intro key' j
  rw [h, Array.getElem?_setIfInBounds]
  split
  · next hij =>
    subst hij
    rw [if_pos (h.lt hplace), (h key i).1 hplace, Option.map_some]
  · rfl

theorem push (h : Places entries places) (hnew : places[key]? = none) (value : α) :
    Places (entries.push (key, value)) (places.insert key entries.size) := by
  intro key' j
  simp only [Std.TreeMap.getElem?_insert, Nat.compare_eq_eq, Array.getElem?_push]
  split
  · next hkey =>
    subst hkey
    split
    · next hj => simp [hj]
    · next hj =>
      rw [← h, hnew]
      simp [Ne.symm hj]
  · next hkey =>
    split
    · next hj =>
      subst hj
      rw [h]
      simp [hkey]
    · exact h key' j

/-- The last entry gets the place of the one that goes. -/
theorem swapOut (h : Places entries places) (hplace : places[key]? = some i) {last : Nat × α}
    (hlast : entries[entries.size - 1]? = some last) :
    Places (swapOut entries i last) ((places.insert last.1 i).erase key) := by
  have hi := h.lt hplace
  have hkey := (h key i).1 hplace
  have hend : entries[entries.size - 1]?.map Prod.fst = some last.1 := by
    rw [hlast, Option.map_some]
  intro key' j
  simp only [Std.TreeMap.getElem?_erase, Std.TreeMap.getElem?_insert, Nat.compare_eq_eq,
    getElem?_swapOut hi]
  -- a key and its place are those of the entry that goes, of the last one, or of another
  by_cases hgone : key = key'
  · subst hgone
    rw [if_pos rfl]
    refine iff_of_false nofun fun hj => ?_
    split at hj
    · next hlt =>
      split at hj
      · next hij =>
        have := h.unique hkey (hend.trans hj)
        omega
      · next hij => exact hij (h.unique hkey hj)
    · cases hj
  rw [if_neg hgone]
  by_cases hmoved : last.1 = key'
  · subst hmoved
    rw [if_pos rfl, Option.some.injEq]
    constructor
    · rintro rfl
      have hne : i ≠ entries.size - 1 := by
        intro heq
        rw [heq, hend] at hkey
        exact hgone (Option.some.inj hkey).symm
      rw [if_pos (by omega), if_pos rfl, Option.map_some]
    · intro hj
      split at hj
      · next hlt =>
        split at hj
        · next hij => exact hij
        · next hij =>
          have := h.unique hj hend
          omega
      · cases hj
  · rw [if_neg hmoved, h]
    split
    · next hlt =>
      split
      · next hij =>
        subst hij
        rw [hkey, Option.map_some, Option.some.injEq, Option.some.injEq]
        exact iff_of_false hgone hmoved
      · rfl
    · next hlt =>
      refine iff_of_false (fun hj => ?_) nofun
      have hsize := h.lt ((h key' j).2 hj)
      have hj' : j = entries.size - 1 := by omega
      rw [hj', hend] at hj
      exact hmoved (Option.some.inj hj)

theorem mem_swapOut (h : Places entries places) (hplace : places[key]? = some i)
    {last entry : Nat × α} (hlast : entries[entries.size - 1]? = some last) :
    entry ∈ IndexMap.swapOut entries i last ↔ entry ∈ entries ∧ entry.1 ≠ key := by
  have hi := h.lt hplace
  have hkey := (h key i).1 hplace
  simp only [Array.mem_iff_getElem?, getElem?_swapOut hi]
  constructor
  · rintro ⟨j, hj⟩
    split at hj
    · split at hj
      · next hij =>
        cases hj
        refine ⟨⟨_, hlast⟩, fun heq => ?_⟩
        have := h.unique hkey (by rw [hlast, Option.map_some, heq])
        omega
      · next hij =>
        exact ⟨⟨j, hj⟩, fun heq => hij (h.unique hkey (by rw [hj, Option.map_some, heq]))⟩
    · cases hj
  · rintro ⟨⟨j, hj⟩, hne⟩
    have hlt := (Array.getElem?_eq_some_iff.1 hj).1
    have hij : i ≠ j := by
      rintro rfl
      rw [hj, Option.map_some] at hkey
      exact hne (Option.some.inj hkey)
    by_cases hend : j = entries.size - 1
    · refine ⟨i, ?_⟩
      rw [if_pos (by omega), if_pos rfl, ← hlast, ← hend, hj]
    · refine ⟨j, ?_⟩
      rw [if_pos (by omega), if_neg hij, hj]

end Places

/-! ## The map -/

variable (m : IndexMap α)

/-- The number of entries. -/
def size : Nat := m.entries.size

def values : List α := m.entries.toList.map Prod.snd

/-- Give a key a value. -/
def insert (key : Nat) (value : α) : IndexMap α :=
  match hplace : m.places[key]? with
  | some i =>
    { places := m.places
      entries := m.entries.setIfInBounds i (key, value)
      placed := m.placed.set hplace value }
  | none =>
    { places := m.places.insert key m.entries.size
      entries := m.entries.push (key, value)
      placed := m.placed.push hplace value }

/-- Take the entry of a key out, if it has one. -/
def swapRemove (key : Nat) : IndexMap α :=
  match hplace : m.places[key]?, hlast : m.entries[m.entries.size - 1]? with
  | some i, some last =>
    { places := (m.places.insert last.1 i).erase key
      entries := swapOut m.entries i last
      placed := m.placed.swapOut hplace hlast }
  | _, _ => m

variable {m} {entry : Nat × α}

/-- No key has two entries. -/
theorem nodup (m : IndexMap α) : (m.entries.toList.map Prod.fst).Nodup := by
  refine List.pairwise_iff_getElem.2 fun i j hi hj hij heq => ?_
  rw [List.length_map, Array.length_toList] at hi hj
  rw [List.getElem_map, List.getElem_map, Array.getElem_toList, Array.getElem_toList] at heq
  have hi' : m.entries[i]?.map Prod.fst = some m.entries[j].1 := by
    rw [Array.getElem?_eq_getElem hi, Option.map_some, heq]
  have hj' : m.entries[j]?.map Prod.fst = some m.entries[j].1 := by
    rw [Array.getElem?_eq_getElem hj, Option.map_some]
  exact absurd (m.placed.unique hi' hj') (Nat.ne_of_lt hij)

theorem entries_insert (hnew : key ∉ m.entries.toList.map Prod.fst) (value : α) :
    (m.insert key value).entries = m.entries.push (key, value) := by
  have hnone := Decidable.not_not.1 (mt m.placed.key_mem_iff.2 hnew)
  unfold insert
  split
  · next hplace => cases hnone.symm.trans hplace
  · rfl

/-- **No other key** loses its entry by a removal. -/
theorem mem_swapRemove :
    entry ∈ (m.swapRemove key).entries ↔ entry ∈ m.entries ∧ entry.1 ≠ key := by
  unfold swapRemove
  split
  · next hplace hlast => exact m.placed.mem_swapOut hplace hlast
  · next hnone =>
    refine ⟨fun hmem => ⟨hmem, fun heq => ?_⟩, And.left⟩
    obtain ⟨i, hi⟩ := Array.mem_iff_getElem?.1 hmem
    have hplace := (m.placed key i).2 (by rw [hi, Option.map_some, heq])
    have hlt := m.placed.lt hplace
    exact hnone _ _ hplace (Array.getElem?_eq_getElem (by omega))

end IndexMap

end WeakIntern
