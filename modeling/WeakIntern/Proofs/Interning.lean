import WeakIntern.Interner
import WeakIntern.Proofs.Registry
/-!
# Two stores

An interner asks its overlay first and its table then. Together they keep the entries of one map:
the overlay answers for the contents of the snapshot, and the table has all other entries and none
of those. A drained overlay answers for nothing, and the table has them all; to drain it is to
insert its objects in the order of the index, so that the first one with a content is the one that
stays.
-/

namespace WeakIntern

namespace WeakMap

variable {m : WeakMap} {o : ObjectId} {shared : String → Option ObjectId}

/-- What is left of a map without the contents that are answered for elsewhere. -/
def without (m : WeakMap) (shared : String → Option ObjectId) : WeakMap :=
  { m with entry := fun s => if (shared s).isSome then none else m.entry s }

theorem entry_without (hnone : shared s = none) : (m.without shared).entry s = m.entry s := by
  simp [without, hnone]

theorem insert_without (hnone : shared (m.heap.content o) = none) :
    (m.insert o).without shared = (m.without shared).insert o := by
  have hentry : (m.without shared).entry (m.heap.content o) = m.entry (m.heap.content o) :=
    entry_without hnone
  unfold insert
  rw [show (m.without shared).heap = m.heap from rfl, hentry]
  cases m.entry (m.heap.content o) with
  | some p => rfl
  | none =>
    simp only [without, mk.injEq, true_and]
    funext s
    by_cases hs : s = m.heap.content o
    · simp [hs, hnone]
    · simp [hs]

theorem Live.without (h : m.Live) (shared : String → Option ObjectId) :
    (m.without shared).Live := by
  intro s o ho
  simp only [WeakMap.without] at ho
  split at ho
  · cases ho
  · exact h s o ho

theorem heap_foldl_insert (m : WeakMap) (objects : List ObjectId) :
    (objects.foldl insert m).heap = m.heap := by
  induction objects generalizing m with
  | nil => rfl
  | cons o rest ih => rw [List.foldl_cons, ih, heap_insert]

/-- Of several objects with one content the first to be inserted is the one that stays. -/
theorem entry_foldl_insert (m : WeakMap) (objects : List ObjectId) (s : String) :
    (objects.foldl insert m).entry s =
      (m.entry s).or (objects.find? fun o => m.heap.content o == s) := by
  induction objects generalizing m with
  | nil => simp
  | cons o rest ih =>
    rw [List.foldl_cons, ih, heap_insert, entry_insert, List.find?_cons]
    by_cases hs : s = m.heap.content o
    · subst hs
      cases m.entry (m.heap.content o) <;> simp
    · have hne : (m.heap.content o == s) = false := by simpa using Ne.symm hs
      rw [if_neg hs, hne]

/-- Objects that stand for their contents find their places again. -/
theorem foldl_insert_without {objects : List ObjectId}
    (hshared : ∀ s o, (objects.find? fun o => m.heap.content o == s) = some o →
      m.entry s = some o) :
    objects.foldl insert (m.without fun s => objects.find? fun o => m.heap.content o == s) = m := by
  have hheap :=
    heap_foldl_insert (m.without fun s => objects.find? fun o => m.heap.content o == s) objects
  have hentry :=
    entry_foldl_insert (m.without fun s => objects.find? fun o => m.heap.content o == s) objects
  cases hresult :
    objects.foldl insert (m.without fun s => objects.find? fun o => m.heap.content o == s) with
  | mk heap entry =>
    rw [hresult] at hheap hentry
    cases m with
    | mk heap' entry' =>
      simp only [without] at hheap hentry hshared
      subst hheap
      congr 1
      funext s
      rw [hentry s]
      cases hfind : objects.find? fun o => heap.content o == s with
      | none => simp
      | some o => simp [hshared s o hfind]

end WeakMap

namespace Interner

/-- The two stores of the interner keep the entries of the map. -/
structure Keeps (i : Interner) (m : WeakMap) : Prop where
  heap : m.heap = i.heap
  live : m.Live
  steady : i.table.Steady
  chunkBuckets_lt : i.table.chunkBuckets < 2 ^ 64
  index : i.overlay.Indexed i.heap
  alive : ∀ o ∈ i.overlay.objects, i.heap.isLive o = true
  /-- The overlay answers with entries. -/
  shared : ∀ s o, i.overlay.first? i.heap s = some o → m.entry s = some o
  /-- The table has all others. -/
  table : i.table.Mirrors (m.without (i.overlay.first? i.heap))

variable {i i' : Interner} {m : WeakMap} {o : ObjectId}

/-- Another table that has the same entries. -/
theorem Keeps.of_table (h : i.Keeps m) (hheap : i'.heap = i.heap)
    (hoverlay : i'.overlay = i.overlay) (hsteady : i'.table.Steady)
    (hchunk : i'.table.chunkBuckets = i.table.chunkBuckets)
    (htable : i'.table.Mirrors (m.without (i.overlay.first? i.heap))) : i'.Keeps m where
  heap := h.heap.trans hheap.symm
  live := h.live
  steady := hsteady
  chunkBuckets_lt := hchunk ▸ h.chunkBuckets_lt
  index := by rw [hheap, hoverlay]; exact h.index
  alive := by rw [hheap, hoverlay]; exact h.alive
  shared := by rw [hheap, hoverlay]; exact h.shared
  table := by rw [hheap, hoverlay]; exact htable

theorem Keeps.congr (h : i.Keeps m) (hheap : i'.heap = i.heap) (htable : i'.table = i.table)
    (hoverlay : i'.overlay = i.overlay) : i'.Keeps m :=
  h.of_table hheap hoverlay (htable ▸ h.steady) (htable ▸ rfl) (htable ▸ h.table)

theorem Keeps.raiseAlarm (h : i.Keeps m) (alarm : Bool) : (i.raiseAlarm alarm).Keeps m :=
  h.congr rfl rfl rfl

/-- The heap goes on, and the entries whose objects died go with them. No object of the snapshot may
die. -/
theorem Keeps.later (h : i.Keeps m) {heap' : Heap} (hlater : Heap.Later i.heap heap')
    {entry : String → Option ObjectId}
    (hentry : ∀ s o, entry s = some o ↔ m.entry s = some o ∧ heap'.isLive o = true)
    (hshared : ∀ o ∈ i.overlay.objects, heap'.isLive o = true) :
    Keeps { i with heap := heap' } { heap := heap', entry } := by
  have hknows : ∀ o ∈ i.overlay.objects, i.heap.Knows o :=
    fun o ho => Heap.knows_of_isLive (h.alive o ho)
  have hfirst := Overlay.first?_later hlater hknows
  constructor
  · rfl
  · exact h.live.later (h.heap ▸ hlater) fun s o => (hentry s o).1
  · exact h.steady
  · exact h.chunkBuckets_lt
  · exact h.index.later hlater hknows
  · exact hshared
  · intro s o ho
    rw [hfirst] at ho
    exact (hentry s o).2 ⟨h.shared s o ho, hshared o (Overlay.mem_of_first? ho)⟩
  · rw [hfirst]
    refine h.table.later (h.heap ▸ hlater) ?_
    intro s o
    simp only [WeakMap.without]
    split
    · simp
    · exact hentry s o

/-! ## References -/

/-- A heap in which nothing died has all entries. -/
theorem Keeps.later_of_live (h : i.Keeps m) {heap' : Heap} (hlater : Heap.Later i.heap heap')
    (hlive : ∀ o, i.heap.isLive o = true → heap'.isLive o = true) :
    Keeps { i with heap := heap' } { m with heap := heap' } := by
  refine h.later hlater ?_ fun o ho => hlive o (h.alive o ho)
  intro s o
  constructor
  · intro ho
    exact ⟨ho, hlive o (h.heap ▸ (h.live s o ho).1)⟩
  · exact fun ho => ho.1

theorem Keeps.newObject (h : i.Keeps m) (s : String) :
    (i.newObject s).2.Keeps (m.step (.allocate s)) := by
  rw [WeakMap.step, h.heap]
  refine h.later_of_live (i.heap.later_alloc s) ?_
  intro o ho
  show (i.heap.alloc s).2.isLive o = true
  rw [Heap.isLive_alloc (Heap.knows_of_isLive ho), ho]

theorem Keeps.retain (h : i.Keeps m) (o : ObjectId) : (i.retain o).Keeps (m.step (.retain o)) := by
  rw [WeakMap.step, h.heap]
  refine h.later_of_live (i.heap.later_retain o) ?_
  intro p hp
  rw [Heap.isLive_retain, hp]

theorem Keeps.dropReference (h : i.Keeps m) (o : ObjectId)
    (hshared : ∀ p ∈ i.overlay.objects, (i.heap.drop o).isLive p = true) :
    (i.dropReference o).Keeps (m.step (.drop o)) := by
  rw [WeakMap.step, h.heap]
  exact h.later (i.heap.later_drop o) (fun _ _ => Option.filter_eq_some_iff) hshared

/-! ## Lookups -/

theorem Keeps.lookupShared? (h : i.Keeps m) (s : String) :
    i.lookupShared? s = i.overlay.first? i.heap s := by
  rw [Interner.lookupShared?]
  split
  · next hempty => rw [Overlay.first?_of_objects (Overlay.objects_of_isEmpty hempty)]
  · exact h.index.lookup?_eq s

/-- What the overlay does not answer for is looked up in the table. -/
theorem Keeps.probe (h : i.Keeps m) (key : LookupKey)
    (hnone : i.overlay.first? i.heap (key.content i.heap) = none) :
    ∃ i' : Interner, i.probe key = (m.entry (key.content i.heap), i') ∧ i'.Keeps m ∧
      i'.heap = i.heap ∧
      i'.overlay = i.overlay := by
  have hget := h.table.get? h.steady.formed key
  -- The table holds what the overlay does not answer for.
  rw [show (m.without (i.overlay.first? i.heap)).heap = i.heap from h.heap,
    WeakMap.entry_without hnone] at hget
  exact ⟨_, Prod.ext hget rfl, h.raiseAlarm _, rfl, rfl⟩

theorem Keeps.acquire (h : i.Keeps m) (o : ObjectId) :
    Keeps { i with table := (i.table.acquire o).2 } m :=
  h.of_table rfl rfl (h.steady.congr rfl rfl rfl) rfl (h.table.congr rfl rfl)

/-- What is inserted in the table takes its place in the map, if the overlay does not answer for
it. -/
theorem Keeps.insert (h : i.Keeps m) (hnone : i.overlay.first? i.heap (i.heap.content o) = none)
    (hlive : i.heap.isLive o = true) (ref : WeakRef) (href : ref.referent = o) :
    Keeps { i with table := (i.table.insertIfAbsent i.heap o ref).2 } (m.insert o) ∧
      (i.table.insertIfAbsent i.heap o ref).1.value.canonical o =
        (m.entry (i.heap.content o)).getD o := by
  have hins := Table.insertIfAbsent_inserted h.steady.formed i.heap o ref
  have hinsert := h.table.insert h.steady.formed h.steady.sized (h.heap ▸ hlive) href
  have hentry : (m.without (i.overlay.first? i.heap)).entry (i.heap.content o) =
      m.entry (i.heap.content o) :=
    WeakMap.entry_without hnone
  rw [← WeakMap.insert_without (by rw [h.heap, hnone]), WeakMap.placement,
    show (m.without (i.overlay.first? i.heap)).heap = i.heap from h.heap, hentry] at hinsert
  constructor
  · constructor
    · rw [WeakMap.heap_insert]
      exact h.heap
    · exact h.live.insert (h.heap ▸ hlive)
    · exact hins.steady h.steady
    · exact hins.sameFrame.chunkBuckets ▸ h.chunkBuckets_lt
    · exact h.index
    · exact h.alive
    · intro s p hp
      have hs := h.shared s p hp
      rw [WeakMap.entry_insert]
      split
      · next hcontent => rw [← hcontent, hs, Option.getD_some]
      · exact hs
    · exact hinsert.1
  · rw [hinsert.2]
    cases m.entry (i.heap.content o) <;> rfl

/-- **What is linked** takes its place, and is answered for by the object that had the content, or
else by itself. -/
theorem Keeps.link (h : i.Keeps m) (hnone : i.overlay.first? i.heap (i.heap.content o) = none)
    (hlive : i.heap.isLive o = true) :
    ∃ i' : Interner, i.link o = i'.give ((m.entry (i.heap.content o)).getD o) ∧
      i'.Keeps (m.insert o) ∧
      i'.heap = i.heap ∧ i'.overlay = i.overlay := by
  have hinsert := (h.acquire o).insert hnone hlive (i.table.acquire o).1 rfl
  exact ⟨_, congrArg (Interner.give _) hinsert.2, hinsert.1.raiseAlarm _, rfl, rfl⟩

theorem dropReference_retain (i : Interner) (o : ObjectId) : (i.retain o).dropReference o = i := by
  cases i
  simp only [Interner.retain, Interner.dropReference, Heap.drop_retain]

/-! ## Answers -/

theorem Keeps.give (h : i.Keeps m) (o : ObjectId) :
    (i.give o).1 = (m.give o).1 ∧ (i.give o).2.Keeps (m.give o).2 :=
  ⟨rfl, h.retain o⟩

/-- **To look up a content** is to ask for the entry. -/
theorem Keeps.lookup? (h : i.Keeps m) (s : String) :
    (i.lookup? s).1 = m.entry s ∧
      (i.lookup? s).2.Keeps ((m.entry s).elim m fun o => (m.give o).2) := by
  rw [Interner.lookup?, h.lookupShared?]
  cases hfirst : i.overlay.first? i.heap s with
  | some o =>
    rw [h.shared s o hfirst]
    exact ⟨rfl, h.retain o⟩
  | none =>
    obtain ⟨i', hprobe, hkeeps, -, -⟩ := h.probe (.text s) hfirst
    rw [hprobe, LookupKey.content]
    cases m.entry s with
    | none => exact ⟨rfl, hkeeps⟩
    | some o => exact ⟨rfl, hkeeps.retain o⟩

/-- **To intern an object** is to make it the entry, if there is none. -/
theorem Keeps.internObject (h : i.Keeps m) (hlive : i.heap.isLive o = true) :
    (i.internObject o).1 = (m.internObject o).1 ∧
      (i.internObject o).2.Keeps (m.internObject o).2 := by
  have hinsert : ∀ p, m.entry (i.heap.content o) = some p → m.insert o = m := by
    intro p hp
    rw [WeakMap.insert, h.heap, hp]
  -- First the overlay is asked, then the table, and only then the object is linked.
  rw [Interner.internObject, h.lookupShared?, WeakMap.internObject, h.heap]
  cases hfirst : i.overlay.first? i.heap (i.heap.content o) with
  | some p =>
    have hentry := h.shared _ p hfirst
    rw [hentry, hinsert p hentry]
    exact h.give p
  | none =>
    obtain ⟨i', hprobe, hkeeps, hheap, hoverlay⟩ := h.probe (.object o) hfirst
    rw [hprobe, LookupKey.content]
    cases hentry : m.entry (i.heap.content o) with
    | some p =>
      rw [hinsert p hentry]
      exact hkeeps.give p
    | none =>
      rw [← hheap, ← hoverlay] at hfirst
      obtain ⟨i'', hlink, hkeeps', -, -⟩ := hkeeps.link hfirst (hheap ▸ hlive)
      rw [hheap, hentry] at hlink
      show (i'.link o).1 = _ ∧ (i'.link o).2.Keeps _
      rw [hlink]
      exact hkeeps'.give o

/-- **To intern a content** is to have a new object made for it, if there is none. -/
theorem Keeps.intern (h : i.Keeps m) (s : String) :
    (i.intern s).1 = (m.intern s).1 ∧ (i.intern s).2.Keeps (m.intern s).2 := by
  rw [Interner.intern, h.lookupShared?, WeakMap.intern]
  cases hfirst : i.overlay.first? i.heap s with
  | some p =>
    rw [h.shared s p hfirst]
    exact h.give p
  | none =>
    obtain ⟨i', hprobe, hkeeps, hheap, hoverlay⟩ := h.probe (.text s) hfirst
    rw [hprobe, LookupKey.content]
    cases hentry : m.entry s with
    | some p => exact hkeeps.give p
    | none =>
      -- The new object is known to nobody, so that the overlay cannot answer for it either.
      have hnew := hkeeps.newObject s
      have hcontent : (i'.newObject s).2.heap.content (i'.newObject s).1 = s :=
        i'.heap.content_alloc_self s
      have hsame : (i'.newObject s).2.overlay.first? (i'.newObject s).2.heap =
          i'.overlay.first? i'.heap :=
        Overlay.first?_later (i'.heap.later_alloc s) fun o ho =>
          Heap.knows_of_isLive (hkeeps.alive o ho)
      obtain ⟨i'', hlink, hkeeps', -, -⟩ := hnew.link (o := (i'.newObject s).1)
        (by rw [hsame, hcontent, hheap, hoverlay, hfirst]) (i'.heap.isLive_alloc_self s)
      rw [hcontent, show (m.step (.allocate s)).entry s = none from hentry] at hlink
      show ((i'.newObject s).2.link (i'.newObject s).1).1 = _ ∧
        (((i'.newObject s).2.link (i'.newObject s).1).2.dropReference (i'.newObject s).1).Keeps _
      rw [hlink, h.heap, ← hheap]
      exact ⟨rfl, (i''.dropReference_retain _).symm ▸ hkeeps'⟩

end Interner

end WeakIntern
