import WeakIntern.Proofs.SharedIndex
import WeakIntern.Proofs.WeakMap
/-!
# One object for each content

A `Registry` is what an interner is to its callers: the heap, the references that they hold, and for
each content the one object that stands for it, as long as that object is alive. A snapshot gives it
objects to begin with. To intern is to answer with the object that stands for the content, and to
make one if there is none; maintenance does nothing.

Two facts are all that callers rely on. An object that stands for its content does so until its last
reference goes (`stays`), and the objects of a snapshot have a reference that nobody can give up
(`Sound.entry_run`).
-/

namespace WeakIntern

/-- What callers ask of an interner, or do to their references. -/
inductive Request where
  | allocate (s : String)
  | retain (o : ObjectId)
  | drop (o : ObjectId)
  | intern (s : String)
  | internObject (o : ObjectId)
  | lookup (s : String)
  | notifyDead (numDead : Nat)
  | reportDead
  | runPending (seed : UInt64)
  | rehash (seed : UInt64)
  | transferOverlay
  | shutdown
  deriving DecidableEq, Repr

/-- The objects that stand for contents, and the references that callers hold. -/
structure Registry where
  map : WeakMap
  held : List ObjectId

namespace WeakMap

/-- Answer with an object: the caller gets a reference. -/
def give (m : WeakMap) (o : ObjectId) : ObjectId × WeakMap := (o, m.step (.retain o))

/-- The object that stands for a content; a new one if there is none. -/
def intern (m : WeakMap) (s : String) : ObjectId × WeakMap :=
  match m.entry s with
  | some o => m.give o
  | none =>
    let o := (m.heap.alloc s).1
    (o, (m.step (.allocate s)).insert o)

/-- The object that stands for the content of `o`, which is `o` itself if there is none. -/
def internObject (m : WeakMap) (o : ObjectId) : ObjectId × WeakMap :=
  (m.insert o).give ((m.entry (m.heap.content o)).getD o)

end WeakMap

namespace Registry

/-- The objects of a snapshot stand for their contents. Of several with one content it is that of
the first entry. -/
def start (heap : Heap) (image : Option Image) (held : List ObjectId) : Registry :=
  match image with
  | some image =>
    let (overlay, heap) := Overlay.ofImage heap image
    { map := { heap, entry := overlay.first? heap }, held }
  | none => { map := .empty heap, held }

/-- Answer with an object, to which the caller holds a reference from then on. -/
def answer (r : Registry) (given : ObjectId × WeakMap) : Option ObjectId × Registry :=
  (some given.1, { map := given.2, held := given.1 :: r.held })

/-- Serve a request. References can be made to live objects only, and given up by who holds them. -/
def step (r : Registry) : Request → Option ObjectId × Registry
  | .allocate s => r.answer ((r.map.heap.alloc s).1, r.map.step (.allocate s))
  | .retain o => if r.map.heap.isLive o then r.answer (r.map.give o) else (none, r)
  | .drop o =>
    if o ∈ r.held then (none, { map := r.map.step (.drop o), held := r.held.erase o })
    else (none, r)
  | .intern s => r.answer (r.map.intern s)
  | .internObject o => if r.map.heap.isLive o then r.answer (r.map.internObject o) else (none, r)
  | .lookup s =>
    match r.map.entry s with
    | some o => r.answer (r.map.give o)
    | none => (none, r)
  | .notifyDead _ | .reportDead | .runPending _ | .rehash _ | .transferOverlay | .shutdown =>
    (none, r)

/-- Serve one request after another. -/
def run (r : Registry) (requests : List Request) : Registry :=
  requests.foldl (fun r request => (r.step request).2) r

end Registry

namespace WeakMap

variable {m : WeakMap} {o : ObjectId}

/-- Entries are alive, each for its own content. -/
def Live (m : WeakMap) : Prop :=
  ∀ s o, m.entry s = some o → m.heap.isLive o = true ∧ m.heap.content o = s

theorem heap_insert (m : WeakMap) (o : ObjectId) : (m.insert o).heap = m.heap := by
  unfold insert
  split <;> rfl

theorem entry_insert (m : WeakMap) (o : ObjectId) (s : String) :
    (m.insert o).entry s =
      if s = m.heap.content o then some ((m.entry (m.heap.content o)).getD o) else m.entry s := by
  unfold insert
  cases hentry : m.entry (m.heap.content o) with
  | none => rfl
  | some p =>
    show m.entry s = _
    rw [Option.getD_some]
    split
    · next hs => rw [hs, hentry]
    · rfl

theorem live_first? {overlay : Overlay} {heap : Heap}
    (halive : ∀ o ∈ overlay.objects, heap.isLive o = true) :
    Live { heap, entry := overlay.first? heap } := by
  intro s o ho
  exact ⟨halive o (Overlay.mem_of_first? ho), Overlay.content_of_first? ho⟩

/-- The heap goes on, and no entry is kept whose object died. -/
theorem Live.later (h : m.Live) {heap' : Heap} (hlater : Heap.Later m.heap heap')
    {entry : String → Option ObjectId}
    (hentry : ∀ s o, entry s = some o → m.entry s = some o ∧ heap'.isLive o = true) :
    Live { heap := heap', entry } := by
  intro s o ho
  obtain ⟨ho, hlive⟩ := hentry s o ho
  obtain ⟨hbefore, hcontent⟩ := h s o ho
  exact ⟨hlive, by rw [hlater.content o (Heap.knows_of_isLive hbefore), hcontent]⟩

theorem Live.allocate (h : m.Live) (s : String) : (m.step (.allocate s)).Live := by
  refine h.later (m.heap.later_alloc s) ?_
  intro s' o ho
  exact ⟨ho, by rw [Heap.isLive_alloc (Heap.knows_of_isLive (h s' o ho).1), (h s' o ho).1]⟩

theorem Live.retain (h : m.Live) (o : ObjectId) : (m.step (.retain o)).Live := by
  refine h.later (m.heap.later_retain o) ?_
  intro s p hp
  exact ⟨hp, by rw [Heap.isLive_retain, (h s p hp).1]⟩

theorem Live.drop (h : m.Live) (o : ObjectId) : (m.step (.drop o)).Live :=
  h.later (m.heap.later_drop o) fun _ _ => Option.filter_eq_some_iff.1

theorem Live.insert (h : m.Live) (hlive : m.heap.isLive o = true) : (m.insert o).Live := by
  intro s p hp
  rw [heap_insert]
  rw [entry_insert] at hp
  split at hp
  · next hs =>
    subst hs
    cases hentry : m.entry (m.heap.content o) with
    | none =>
      rw [hentry] at hp
      cases hp
      exact ⟨hlive, rfl⟩
    | some q =>
      rw [hentry] at hp
      cases hp
      exact h _ q hentry
  · exact h s p hp

/-- The object that is the entry after an insert is alive. -/
theorem Live.isLive_getD (h : m.Live) (hlive : m.heap.isLive o = true) :
    m.heap.isLive ((m.entry (m.heap.content o)).getD o) = true := by
  cases hentry : m.entry (m.heap.content o) with
  | none => exact hlive
  | some p => exact (h _ p hentry).1

end WeakMap

namespace Registry

/-- Entries are alive, and every reference that is held counts: those of callers, and one to each
object of a region. -/
structure Sound (region : List ObjectId) (r : Registry) : Prop where
  live : r.map.Live
  backed : ∀ o, r.held.count o + region.count o ≤ r.map.heap.refs o

variable {region : List ObjectId} {r : Registry}

section Counting

variable {heap heap' : Heap} {held : List ObjectId} {o : ObjectId}

/-- A reference that is handed out must have been counted. -/
theorem count_cons_le (h : ∀ p, held.count p + region.count p ≤ heap.refs p)
    (hrefs : ∀ p, heap'.refs p = if p = o then heap.refs p + 1 else heap.refs p) (p : ObjectId) :
    (o :: held).count p + region.count p ≤ heap'.refs p := by
  have hbacked := h p
  have hcount := hrefs p
  rw [List.count_cons]
  by_cases hp : p = o
  · subst hp
    simp only [beq_self_eq_true, if_true] at hcount ⊢
    omega
  · have hne : (o == p) = false := by simpa using Ne.symm hp
    simp only [hne, hp, if_false, Bool.false_eq_true] at hcount ⊢
    omega

/-- One that is given up was held. -/
theorem count_erase_le (h : ∀ p, held.count p + region.count p ≤ heap.refs p) (ho : o ∈ held)
    (p : ObjectId) :
    (held.erase o).count p + region.count p ≤ (heap.drop o).refs p := by
  have hbacked := h p
  by_cases hp : p = o
  · subst hp
    have hpos : 0 < held.count p := List.count_pos_iff.2 ho
    rw [List.count_erase_self, Heap.refs_drop_self]
    omega
  · rw [List.count_erase_of_ne hp, Heap.refs_drop_other _ hp]
    exact hbacked

/-- So the objects of the region are alive. -/
theorem isLive_of_count_le (h : ∀ p, held.count p + region.count p ≤ heap.refs p)
    (ho : o ∈ region) :
    heap.isLive o = true := by
  have hpos : 0 < region.count o := List.count_pos_iff.2 ho
  have hbacked := h o
  rw [Heap.isLive_iff]
  omega

end Counting

/-- An answer hands out a reference. -/
theorem Sound.answer (h : r.Sound region) {o : ObjectId} {map : WeakMap} (hlive : map.Live)
    (hrefs : ∀ p, map.heap.refs p = if p = o then r.map.heap.refs p + 1 else r.map.heap.refs p) :
    (r.answer (o, map)).2.Sound region := ⟨hlive, count_cons_le h.backed hrefs⟩

theorem refs_allocate (heap : Heap) (s : String) (p : ObjectId) :
    (heap.alloc s).2.refs p = if p = (heap.alloc s).1 then heap.refs p + 1 else heap.refs p := by
  have hunknown := Heap.refs_of_not_knows (heap.not_knows_alloc s)
  rw [Heap.refs_alloc_eq]
  by_cases hp : p = (heap.alloc s).1
  · simp [hp, hunknown]
  · simp [hp]

theorem refs_retain {heap : Heap} {o : ObjectId} (hlive : heap.isLive o = true) (p : ObjectId) :
    (heap.retain o).refs p = if p = o then heap.refs p + 1 else heap.refs p := by
  rw [Heap.refs_retain]
  by_cases hp : p = o
  · subst hp
    simp [Heap.isLive_iff.1 hlive]
  · simp [hp]

theorem Sound.give (h : r.Sound region) {o : ObjectId} (hlive : r.map.heap.isLive o = true) :
    (r.answer (r.map.give o)).2.Sound region :=
  h.answer (h.live.retain o) (refs_retain hlive)

theorem Sound.drop (h : r.Sound region) {o : ObjectId} (ho : o ∈ r.held) :
    Sound region { map := r.map.step (.drop o), held := r.held.erase o } :=
  ⟨h.live.drop o, count_erase_le h.backed ho⟩

/-- **Every request** keeps the count of references. -/
theorem Sound.step (h : r.Sound region) (request : Request) : (r.step request).2.Sound region := by
  cases request with
  | allocate s => exact h.answer (h.live.allocate s) (refs_allocate r.map.heap s)
  | retain o =>
    rw [Registry.step]
    split
    · next hlive => exact h.give hlive
    · exact h
  | drop o =>
    rw [Registry.step]
    split
    · next ho => exact h.drop ho
    · exact h
  | intern s =>
    rw [Registry.step, WeakMap.intern]
    cases hentry : r.map.entry s with
    | some o => exact h.give (h.live s o hentry).1
    | none =>
      refine h.answer ((h.live.allocate s).insert (Heap.isLive_alloc_self _ _)) ?_
      intro p
      rw [WeakMap.heap_insert]
      exact refs_allocate r.map.heap s p
  | internObject o =>
    rw [Registry.step]
    split
    · next hlive =>
      refine h.answer ((h.live.insert hlive).retain _) ?_
      intro p
      show ((r.map.insert o).heap.retain _).refs p = _
      rw [WeakMap.heap_insert]
      exact refs_retain (h.live.isLive_getD hlive) p
    · exact h
  | lookup s =>
    rw [Registry.step]
    cases hentry : r.map.entry s with
    | some o => exact h.give (h.live s o hentry).1
    | none => exact h
  | notifyDead | reportDead | runPending | rehash | transferOverlay | shutdown => exact h

/-! ## Answers -/

theorem step_lookup (r : Registry) (s : String) : (r.step (.lookup s)).1 = r.map.entry s := by
  rw [Registry.step]
  cases r.map.entry s <;> rfl

/-- An interning answers with the entry, and makes one of a new object if there is none. -/
theorem step_intern (r : Registry) (s : String) :
    ∃ o, (r.step (.intern s)).1 = some o ∧ (r.step (.intern s)).2.map.entry s = some o ∧
      (r.map.entry s = some o ∨ r.map.entry s = none ∧ ¬ r.map.heap.Knows o) := by
  rw [Registry.step, WeakMap.intern]
  cases hentry : r.map.entry s with
  | some p => exact ⟨p, rfl, hentry, .inl rfl⟩
  | none =>
    have hcontent : (r.map.step (.allocate s)).heap.content (r.map.heap.alloc s).1 = s :=
      r.map.heap.content_alloc_self s
    refine ⟨(r.map.heap.alloc s).1, rfl, ?_, .inr ⟨rfl, r.map.heap.not_knows_alloc s⟩⟩
    show ((r.map.step (.allocate s)).insert (r.map.heap.alloc s).1).entry s = _
    rw [WeakMap.entry_insert, hcontent, if_pos rfl, show (r.map.step (.allocate s)).entry s =
      none from hentry, Option.getD_none]

theorem step_internObject {o : ObjectId} (hlive : r.map.heap.isLive o = true) :
    (r.step (.internObject o)).1 = some ((r.map.entry (r.map.heap.content o)).getD o) ∧
      (r.step (.internObject o)).2.map.entry (r.map.heap.content o) =
        some ((r.map.entry (r.map.heap.content o)).getD o) := by
  rw [Registry.step, if_pos hlive]
  refine ⟨rfl, ?_⟩
  show (r.map.insert o).entry (r.map.heap.content o) = _
  rw [WeakMap.entry_insert, if_pos rfl]

/-! ## What stays -/

/-- **An object stands for its content until its last reference goes.** -/
theorem stays {request : Request} {s : String} {o : ObjectId} (hentry : r.map.entry s = some o)
    (hlive : (r.step request).2.map.heap.isLive o = true) :
    (r.step request).2.map.entry s = some o := by
  have hinsert : ∀ (m : WeakMap) (p : ObjectId), m.entry s = some o →
      (m.insert p).entry s = some o := by
    intro m p hm
    rw [WeakMap.entry_insert]
    split
    · next hs => rw [← hs, hm, Option.getD_some]
    · exact hm
  cases request with
  | allocate s' => exact hentry
  | retain p =>
    rw [Registry.step]
    split <;> exact hentry
  | drop p =>
    rw [Registry.step] at hlive ⊢
    split at hlive
    · next hp =>
      rw [if_pos hp]
      exact Option.filter_eq_some_iff.2 ⟨hentry, hlive⟩
    · next hp =>
      rw [if_neg hp]
      exact hentry
  | intern s' =>
    rw [Registry.step, WeakMap.intern]
    cases r.map.entry s' with
    | some p => exact hentry
    | none => exact hinsert _ _ hentry
  | internObject p =>
    rw [Registry.step]
    split
    · exact hinsert _ _ hentry
    · exact hentry
  | lookup s' =>
    rw [Registry.step]
    cases r.map.entry s' <;> exact hentry
  | notifyDead | reportDead | runPending | rehash | transferOverlay | shutdown => exact hentry

theorem Sound.isLive (h : r.Sound region) {o : ObjectId} (ho : o ∈ region) :
    r.map.heap.isLive o = true :=
  isLive_of_count_le h.backed ho

theorem Sound.isLive_of_held (h : r.Sound region) {o : ObjectId} (ho : o ∈ r.held) :
    r.map.heap.isLive o = true := by
  have hpos : 0 < r.held.count o := List.count_pos_iff.2 ho
  have hbacked := h.backed o
  rw [Heap.isLive_iff]
  omega

/-- **An object of the region** stands for its content for good. -/
theorem Sound.entry_run (h : r.Sound region) {s : String} {o : ObjectId} (ho : o ∈ region)
    (hentry : r.map.entry s = some o) (requests : List Request) :
    (r.run requests).map.entry s = some o := by
  induction requests generalizing r with
  | nil => exact hentry
  | cons request rest ih => exact ih (h.step request) (stays hentry ((h.step request).isLive ho))

/-! ## The start -/

/-- The objects that nobody can give up. -/
def regionOf (heap : Heap) : Option Image → List ObjectId
  | some image => Overlay.regionOf heap image
  | none => []

theorem sound_start {heap : Heap} {held : List ObjectId} (image : Option Image)
    (hheld : ∀ o, held.count o ≤ heap.refs o) :
    (start heap image held).Sound (regionOf heap image) := by
  cases image with
  | none => exact ⟨fun s o ho => (by cases ho), hheld⟩
  | some image =>
    have hprovides := Overlay.provides_ofImage heap image
    refine ⟨WeakMap.live_first? fun o => Overlay.alive_ofImage, ?_⟩
    intro o
    show held.count o + (Overlay.regionOf heap image).count o ≤
      (Overlay.ofImage heap image).2.refs o
    have hcount := hheld o
    by_cases ho : o ∈ Overlay.regionOf heap image
    · obtain ⟨hunknown, hrefs⟩ := hprovides.fresh o ho
      rw [Heap.refs_of_not_knows hunknown] at hcount
      rw [hprovides.nodup.count, if_pos ho, hrefs]
      omega
    · rw [List.count_eq_zero_of_not_mem ho]
      by_cases hknows : heap.Knows o
      · rw [hprovides.refs o hknows]
        exact hcount
      · rw [Heap.refs_of_not_knows hknows] at hcount
        omega

end Registry

end WeakIntern
