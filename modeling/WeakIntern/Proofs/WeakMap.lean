import WeakIntern.Proofs.Coherence
import WeakIntern.Proofs.Order
/-!
# A table is a weak map

Seen from outside, a table is a map from contents to objects that keeps nothing alive: an insert
makes an entry if there is none, an object that dies takes its entry with it, and nothing else ever
happens. Buckets, hashes, chunks and the tasks that are under way cannot be seen.
`table_refines_weakMap` says so of all runs.
-/

namespace WeakIntern

/-- For each content the one live object that stands for it. -/
structure WeakMap where
  heap : Heap
  entry : String → Option ObjectId

namespace WeakMap

/-- No entries. -/
def empty (heap : Heap) : WeakMap := { heap, entry := fun _ => none }

/-- Make an object the entry for its content, unless there is one. -/
def insert (m : WeakMap) (o : ObjectId) : WeakMap :=
  match m.entry (m.heap.content o) with
  | some _ => m
  | none => { m with entry := fun s => if s = m.heap.content o then some o else m.entry s }

/-- Take a step. Tasks do nothing. -/
def step (m : WeakMap) : Action → WeakMap
  | .allocate s => { m with heap := (m.heap.alloc s).2 }
  | .retain o => { m with heap := m.heap.retain o }
  | .drop o =>
    { heap := m.heap.drop o, entry := fun s => (m.entry s).filter (m.heap.drop o).isLive }
  | .insert o => if m.heap.isLive o then m.insert o else m
  | .get _ => m
  | .create .. | .prepare _ | .chunk _ | .pause _ | .resume _ | .commit _ | .abandon _ => m

/-- Take one step after another. -/
def run (m : WeakMap) (actions : List Action) : WeakMap := actions.foldl step m

/-- What an insert of an object answers. -/
def placement (m : WeakMap) (o : ObjectId) : Table.Placement :=
  match m.entry (m.heap.content o) with
  | some p => .existing p
  | none => .linked

end WeakMap

namespace Table

/-- The table is coherent, and holds what the map holds. -/
structure Mirrors (t : Table) (m : WeakMap) : Prop where
  coherent : t.Coherent m.heap
  entry : ∀ s o, m.entry s = some o ↔ t.Holds m.heap o ∧ m.heap.content o = s

variable {t t' : Table} {m : WeakMap} {o : ObjectId}

/-- What the map would answer is what the table answers. -/
theorem Mirrors.get? (h : t.Mirrors m) (hformed : t.Formed) (key : LookupKey) :
    (t.get? m.heap key).value = m.entry (key.content m.heap) := by
  ext o
  rw [h.coherent.get?_eq_some_iff hformed, h.entry]

/-- A table in which the same objects are found mirrors the same map. -/
theorem Mirrors.of_sameObjects (h : t.Mirrors m) (hsame : SameObjects m.heap t t') :
    t'.Mirrors m where
  coherent := hsame.coherent
  entry s o := by rw [h.entry, hsame.holds]

/-- What is aside from the arrays has no part in what a table holds. -/
theorem Mirrors.congr (h : t.Mirrors m) (hactive : t'.active = t.active)
    (hsuccessors : t'.successors = t.successors) :
    t'.Mirrors m :=
  have hcongr := h.coherent.congr hactive hsuccessors
  h.of_sameObjects ⟨hcongr.1, hcongr.2⟩

/-- The heap goes on, and the entries whose objects died go with them. -/
theorem Mirrors.later (h : t.Mirrors m) {heap' : Heap} (hlater : Heap.Later m.heap heap')
    {entry : String → Option ObjectId}
    (hentry : ∀ s o, entry s = some o ↔ m.entry s = some o ∧ heap'.isLive o = true) :
    t.Mirrors { heap := heap', entry } where
  coherent := h.coherent.later hlater
  entry s o := by
    rw [hentry, h.entry, h.coherent.holds_later_iff hlater]
    constructor
    · rintro ⟨⟨hholds, hcontent⟩, hlive⟩
      exact ⟨⟨hholds, hlive⟩, by rw [hlater.content o (h.coherent.knows hholds), hcontent]⟩
    · rintro ⟨⟨hholds, hlive⟩, hcontent⟩
      exact ⟨⟨hholds, by rw [← hlater.content o (h.coherent.knows hholds), hcontent]⟩, hlive⟩

/-- Entries are alive, so a heap in which nothing died changes none. -/
theorem Mirrors.later_of_live (h : t.Mirrors m) {heap' : Heap} (hlater : Heap.Later m.heap heap')
    (hlive : ∀ o, m.heap.isLive o = true → heap'.isLive o = true) :
    t.Mirrors { m with heap := heap' } :=
  h.later hlater fun s o => ⟨fun ho => ⟨ho, hlive o ((h.entry s o).1 ho).1.isLive⟩, fun ho => ho.1⟩

theorem Mirrors.allocate (h : t.Mirrors m) (s : String) : t.Mirrors (m.step (.allocate s)) := by
  refine h.later_of_live (m.heap.later_alloc s) ?_
  intro o ho
  rw [Heap.isLive_alloc (Heap.knows_of_isLive ho), ho]

theorem Mirrors.retain (h : t.Mirrors m) (o : ObjectId) : t.Mirrors (m.step (.retain o)) := by
  refine h.later_of_live (m.heap.later_retain o) ?_
  intro p hp
  rw [Heap.isLive_retain, hp]

theorem Mirrors.drop (h : t.Mirrors m) (o : ObjectId) : t.Mirrors (m.step (.drop o)) :=
  h.later (m.heap.later_drop o) fun _ _ => Option.filter_eq_some_iff

/-- **An insert** does to the table what it does to the map, and answers the same. -/
theorem Mirrors.insert (h : t.Mirrors m) (hformed : t.Formed) (hsized : t.active.Sized)
    {ref : WeakRef} (hlive : m.heap.isLive o = true) (href : ref.referent = o) :
    (t.insertIfAbsent m.heap o ref).2.Mirrors (m.insert o) ∧
      (t.insertIfAbsent m.heap o ref).1.value = m.placement o := by
  have hins := insertIfAbsent_inserted hformed m.heap o ref
  obtain ⟨hcoherent, hsettles⟩ := h.coherent.insert hformed hsized hlive href hins
  generalize t.insertIfAbsent m.heap o ref = result at hcoherent hsettles ⊢
  obtain ⟨⟨placement, alarm⟩, t'⟩ := result
  dsimp only at hcoherent hsettles ⊢
  -- The table says what it has done, and the map would have done just that.
  cases placement with
  | existing p =>
    obtain ⟨hp, hcontent, hholds⟩ := hsettles
    have hentry : m.entry (m.heap.content o) = some p := (h.entry _ p).2 ⟨hp, hcontent⟩
    rw [WeakMap.insert, WeakMap.placement, hentry]
    exact ⟨⟨hcoherent, fun s q => by rw [h.entry, hholds]⟩, rfl⟩
  | linked =>
    obtain ⟨hnone, hholds⟩ := hsettles
    have hentry : m.entry (m.heap.content o) = none := by
      rw [Option.eq_none_iff_forall_not_mem]
      intro p hp
      obtain ⟨hp, hcontent⟩ := (h.entry _ p).1 hp
      exact hnone p hp hcontent
    rw [WeakMap.insert, WeakMap.placement, hentry]
    refine ⟨⟨hcoherent, ?_⟩, rfl⟩
    intro s q
    dsimp only
    rw [hholds]
    split
    · next hs =>
      subst hs
      constructor
      · rintro hq
        cases hq
        exact ⟨.inr rfl, rfl⟩
      · rintro ⟨hq | rfl, hcontent⟩
        · exact absurd hcontent (hnone q hq)
        · rfl
    · next hs =>
      rw [h.entry]
      constructor
      · rintro ⟨hq, hcontent⟩
        exact ⟨.inl hq, hcontent⟩
      · rintro ⟨hq | rfl, hcontent⟩
        · exact ⟨hq, hcontent⟩
        · exact absurd hcontent.symm hs
  | stranded => exact hsettles.elim

theorem mirrors_ofSettings (settings : Settings) (cells : CellStore) (heap : Heap) :
    (Table.ofSettings settings cells).Mirrors (.empty heap) := by
  have hnot : ∀ o, ¬ (Table.ofSettings settings cells).Holds heap o := by
    rintro o ⟨a, ha, hholds⟩
    rw [List.mem_singleton.1 ha] at hholds
    exact BucketArray.not_holds_empty _ _ _ o hholds
  refine ⟨⟨?_, fun o p ho => absurd ho (hnot o), ?_, ?_⟩, ?_⟩
  · intro a ha
    rw [List.mem_singleton.1 ha]
    exact BucketArray.placed_empty _ _ _
  · exact fun target htarget => absurd htarget List.not_mem_nil
  · exact fun target htarget => absurd htarget List.not_mem_nil
  · intro s o
    constructor
    · intro hs
      cases hs
    · rintro ⟨ho, -⟩
      exact absurd ho (hnot o)

end Table

namespace World

/-- The world is orderly, and its table mirrors the map. -/
structure Mirrors (w : World) (m : WeakMap) : Prop where
  orderly : w.Orderly
  heap : m.heap = w.heap
  table : w.table.Mirrors m

/-- What the world and the map have in common from outside. -/
structure Refines (w : World) (m : WeakMap) : Prop where
  heap : w.heap = m.heap
  /-- The map has live objects only, each for its own content. -/
  live : ∀ s o, m.entry s = some o → m.heap.isLive o = true ∧ m.heap.content o = s
  /-- A lookup answers with the entry. -/
  get : ∀ key, (w.step (.get key)).2 = .found (m.entry (key.content m.heap))
  /-- An insert answers with the entry, and with the object itself if there is none. -/
  insert : ∀ o, w.heap.isLive o = true → (w.step (.insert o)).2 = .placed (m.placement o) ∧
    (m.placement o).canonical o = (m.entry (m.heap.content o)).getD o
  /-- From then on that object is the entry. -/
  entry_insert : ∀ o, w.heap.isLive o = true →
    (m.step (.insert o)).entry (m.heap.content o) = some ((m.placement o).canonical o)
  /-- A step of a task changes no lookup. -/
  task : ∀ action, action.isTask = true → ∀ key,
    ((w.step action).1.step (.get key)).2 = (w.step (.get key)).2

variable {w w' : World} {m : WeakMap} {o : ObjectId}

/-! ## Steps -/

/-- No task loses an object or finds one. -/
theorem Effect.sameObjects {back : Bool} (heff : Effect w back w') (h : w.table.Coherent w.heap) :
    Table.SameObjects w.heap w.table w'.table := by
  cases heff with
  | tasks tasks horderly hsame hnone => exact h.sameObjects
  | prepared i task task' t' hi hrest hprepare hdrives => exact h.prepare hrest.still hprepare
  | chunk i task hi hrunning hdrives => exact h.processChunk hdrives
  | commit i task hi hrunning hdrives hend => exact h.finish hdrives hend
  | abandon i task hi hdrives => exact h.abandon hdrives

/-- A world in which only the heap goes on. -/
theorem Mirrors.later (h : w.Mirrors m) {heap' : Heap} {m' : WeakMap} (hheap : m'.heap = heap')
    (htable : w.table.Mirrors m') : Mirrors { w with heap := heap' } m' :=
  ⟨h.orderly.congr heap' w.table.cells w.spare w.passed, hheap, htable⟩

theorem Mirrors.acquire (h : w.Mirrors m) (o : ObjectId) :
    Mirrors { w with table := (w.table.acquire o).2 } m :=
  ⟨h.orderly.congr w.heap _ w.spare w.passed, h.heap, h.table.congr rfl rfl⟩

/-- **An insert** does to the world what it does to the map, and answers the same. -/
theorem Mirrors.pass (h : w.Mirrors m) {ref : WeakRef} (hlive : w.heap.isLive o = true)
    (href : ref.referent = o) :
    (w.pass o ref).1.Mirrors (m.insert o) ∧ (w.pass o ref).2 = .placed (m.placement o) := by
  have hinsert := h.table.insert h.orderly.formed h.orderly.sized (h.heap ▸ hlive) href
  have horderly := h.orderly.pass o ref
  rw [World.pass] at horderly ⊢
  rw [h.heap] at hinsert
  refine ⟨⟨horderly, ?_, hinsert.1⟩, congrArg Answer.placed hinsert.2⟩
  rw [WeakMap.insert]
  cases m.entry (m.heap.content o) <;> exact h.heap

theorem Mirrors.step (h : w.Mirrors m) (action : Action) :
    (w.step action).1.Mirrors (m.step action) := by
  cases htask : action.isTask with
  | true =>
    have heff := h.orderly.step_task htask
    have hmap : m.step action = m := by cases action <;> first | rfl | cases htask
    have hheap := heff.aside.1
    rw [hmap]
    exact ⟨heff.orderly h.orderly, h.heap.trans hheap.symm,
      h.table.of_sameObjects (h.heap ▸ heff.sameObjects (h.heap ▸ h.table.coherent))⟩
  | false =>
    cases action with
    | allocate s => exact h.later (h.heap ▸ rfl) (h.table.allocate s)
    | retain o => exact h.later (h.heap ▸ rfl) (h.table.retain o)
    | drop o => exact h.later (h.heap ▸ rfl) (h.table.drop o)
    | insert o =>
      rw [WeakMap.step, h.heap, World.step]
      split
      · next hlive => exact ((h.acquire o).pass hlive rfl).1
      · exact h
    | get key => exact h
    | create | prepare | chunk | pause | resume | commit | abandon => cases htask

theorem Mirrors.run (h : w.Mirrors m) (actions : List Action) :
    (w.run (actions.map .act)).Mirrors (m.run actions) := by
  induction actions generalizing w m with
  | nil => exact h
  | cons action rest ih => exact ih (h.step action)

theorem mirrors_start (settings : Settings) (cells : CellStore) (heap : Heap) :
    (start settings cells heap).Mirrors (.empty heap) :=
  ⟨orderly_start settings cells heap, rfl, Table.mirrors_ofSettings settings cells heap⟩

theorem Mirrors.get? (h : w.Mirrors m) (key : LookupKey) :
    (w.step (.get key)).2 = .found (m.entry (key.content m.heap)) := by
  rw [← h.table.get? h.orderly.formed key, h.heap]
  rfl

theorem Mirrors.refines (h : w.Mirrors m) : w.Refines m where
  heap := h.heap.symm
  live s o ho := by
    obtain ⟨hholds, hcontent⟩ := (h.table.entry s o).1 ho
    exact ⟨hholds.isLive, hcontent⟩
  get := h.get?
  insert o hlive := by
    rw [World.step, if_pos hlive]
    constructor
    · exact ((h.acquire o).pass hlive rfl).2
    · rw [WeakMap.placement]
      cases m.entry (m.heap.content o) <;> rfl
  entry_insert o hlive := by
    rw [WeakMap.step, h.heap, if_pos hlive, WeakMap.insert, WeakMap.placement, h.heap]
    cases hentry : m.entry (w.heap.content o) with
    | some p => exact hentry
    | none => exact if_pos rfl
  task action htask key := by
    have hnext := h.step action
    have hmap : m.step action = m := by cases action <;> first | rfl | cases htask
    rw [hmap] at hnext
    rw [hnext.get?, h.get?]

/-- **A table refines a weak map**, in every run of inserts, lookups, dropped references and steps
of any tasks: each lookup answers with the entry of the map, each insert makes an entry exactly if
there is none, and tasks change nothing. -/
theorem table_refines_weakMap (settings : Settings) (cells : CellStore) (heap : Heap)
    (actions : List Action) :
    ((start settings cells heap).run (actions.map .act)).Refines
      ((WeakMap.empty heap).run actions) :=
  ((mirrors_start settings cells heap).run actions).refines

end World

end WeakIntern
