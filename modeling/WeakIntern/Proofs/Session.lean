import WeakIntern.Proofs.Upkeep
/-!
# A session with an interner

A `Session` is an interner with all its callers and the references that they hold. Requests come one
after another, in any order: strings are interned, looked up and dropped, dead ones reported, work
is done, the table rehashed, the overlay drained at any time, and the interner shut down.

Whatever is asked, an interner serves a registry (`serves_registry`): it answers as the registry
does, so there is one object for a content as long as that object lives, and for a content of the
snapshot it is the same one for good.
-/

namespace WeakIntern

/-- An interner and the references that its callers hold. -/
structure Session where
  interner : Interner
  held : List ObjectId

namespace Session

/-- Answer with an object, to which the caller holds a reference from then on. -/
def answer (c : Session) (given : ObjectId × Interner) : Option ObjectId × Session :=
  (some given.1, { interner := given.2, held := given.1 :: c.held })

/-- Go on without an answer. -/
def proceed (c : Session) (interner : Interner) : Option ObjectId × Session :=
  (none, { c with interner })

/-- Serve a request. References can be made to live objects only, and given up by who holds them. -/
def step (c : Session) : Request → Option ObjectId × Session
  | .allocate s => c.answer (c.interner.newObject s)
  | .retain o => if c.interner.heap.isLive o then c.answer (c.interner.give o) else (none, c)
  | .drop o =>
    if o ∈ c.held then (none, { interner := c.interner.dropReference o, held := c.held.erase o })
    else (none, c)
  | .intern s => c.answer (c.interner.intern s)
  | .internObject o =>
    if c.interner.heap.isLive o then c.answer (c.interner.internObject o) else (none, c)
  | .lookup s =>
    match c.interner.lookup? s with
    | (some o, interner) => c.answer (o, interner)
    | (none, interner) => c.proceed interner
  | .notifyDead numDead => c.proceed (c.interner.notifyDead numDead).2
  | .reportDead => c.proceed c.interner.reportDead.2
  | .runPending seed => c.proceed (c.interner.runPending seed).2
  | .rehash seed => c.proceed (c.interner.rehash seed).2
  | .transferOverlay => c.proceed c.interner.transferOverlay.2
  | .shutdown => c.proceed c.interner.shutdown

/-- Serve one request after another. -/
def run (c : Session) (requests : List Request) : Session :=
  requests.foldl (fun c request => (c.step request).2) c

/-- What an interner owes its callers. -/
structure Serves (c : Session) (r : Registry) : Prop where
  heap : c.interner.heap = r.map.heap
  held : c.held = r.held
  /-- Whatever is asked next, the interner answers as the registry does. -/
  answers : ∀ request, (c.step request).1 = (r.step request).1
  /-- Live objects stand for contents, each for its own. -/
  live : ∀ s o, r.map.entry s = some o → r.map.heap.isLive o = true ∧ r.map.heap.content o = s
  /-- There is no second object for a content in the table. -/
  sole : ∀ o, c.interner.table.Holds c.interner.heap o → r.map.entry (r.map.heap.content o) = some o
  /-- A lookup answers with the object that stands for the content. -/
  lookup : ∀ s, (r.step (.lookup s)).1 = r.map.entry s
  /-- So does an interning, and if there was none it answers with a new object, which is the one
  from then on. -/
  intern : ∀ s, ∃ o, (r.step (.intern s)).1 = some o ∧ (r.step (.intern s)).2.map.entry s = some o ∧
    (r.map.entry s = some o ∨ r.map.entry s = none ∧ ¬ r.map.heap.Knows o)
  /-- An object that is interned is itself the one, if there was none. -/
  internObject : ∀ o, r.map.heap.isLive o = true →
    (r.step (.internObject o)).1 = some ((r.map.entry (r.map.heap.content o)).getD o) ∧
      (r.step (.internObject o)).2.map.entry (r.map.heap.content o) =
        some ((r.map.entry (r.map.heap.content o)).getD o)
  /-- An object stands for its content until its last reference goes. -/
  stays : ∀ request s o, r.map.entry s = some o → (r.step request).2.map.heap.isLive o = true →
    (r.step request).2.map.entry s = some o

/-- The interner keeps what is registered, and the overlay has objects of the region only. -/
structure Mirrors (region : List ObjectId) (c : Session) (r : Registry) : Prop where
  sound : r.Sound region
  held : c.held = r.held
  keeps : c.interner.Keeps r.map
  overlay : ∀ o ∈ c.interner.overlay.objects, o ∈ region

variable {region : List ObjectId} {c : Session} {r : Registry}

/-! ## Steps -/

theorem Mirrors.heap (h : c.Mirrors region r) : c.interner.heap = r.map.heap := h.keeps.heap.symm

/-- The two sessions after an answer with the same object. -/
theorem Mirrors.answer (h : c.Mirrors region r) {given : ObjectId × Interner}
    {expected : ObjectId × WeakMap} (hsound : (r.answer expected).2.Sound region)
    (hobject : given.1 = expected.1) (hkeeps : given.2.Keeps expected.2)
    (hoverlay : given.2.overlay = c.interner.overlay) :
    (c.answer given).1 = (r.answer expected).1 ∧
      (c.answer given).2.Mirrors region (r.answer expected).2 := by
  constructor
  · exact congrArg some hobject
  · constructor
    · exact hsound
    · show given.1 :: c.held = expected.1 :: r.held
      rw [hobject, h.held]
    · exact hkeeps
    · show ∀ o ∈ given.2.overlay.objects, o ∈ region
      rw [hoverlay]
      exact h.overlay

/-- Upkeep is not answered, and not seen in the registry. -/
theorem Mirrors.proceed (h : c.Mirrors region r) {interner : Interner}
    (hkeeps : interner.Keeps r.map) (hoverlay : interner.overlay = c.interner.overlay) :
    (c.proceed interner).2.Mirrors region r :=
  ⟨h.sound, h.held, hkeeps, hoverlay ▸ h.overlay⟩

theorem overlay_intern (i : Interner) (s : String) : (i.intern s).2.overlay = i.overlay := by
  unfold Interner.intern
  split
  · rfl
  · split
    · next heq => exact (congrArg (fun p => p.2.overlay) heq).symm
    · next heq => exact (congrArg (fun p => p.2.overlay) heq).symm

theorem overlay_internObject (i : Interner) (o : ObjectId) :
    (i.internObject o).2.overlay = i.overlay := by
  unfold Interner.internObject
  split
  · rfl
  · split
    · next heq => exact (congrArg (fun p => p.2.overlay) heq).symm
    · next heq => exact (congrArg (fun p => p.2.overlay) heq).symm

theorem overlay_lookup? (i : Interner) (s : String) : (i.lookup? s).2.overlay = i.overlay := by
  unfold Interner.lookup?
  split
  · rfl
  · split
    · next heq => exact (congrArg (fun p => p.2.overlay) heq).symm
    · next heq => exact (congrArg (fun p => p.2.overlay) heq).symm

/-- A reference can be given up without harm to the objects of the snapshot. -/
theorem Mirrors.drop (h : c.Mirrors region r) {o : ObjectId} (ho : o ∈ r.held) :
    Mirrors region { interner := c.interner.dropReference o, held := c.held.erase o }
      { map := r.map.step (.drop o), held := r.held.erase o } := by
  have hsound := h.sound.drop ho
  refine ⟨hsound, by rw [h.held], h.keeps.dropReference o ?_, h.overlay⟩
  intro p hp
  rw [h.heap]
  exact hsound.isLive (h.overlay p hp)

/-- **Every request** is answered as the registry answers it. -/
theorem Mirrors.step (h : c.Mirrors region r) (request : Request) :
    (c.step request).1 = (r.step request).1 ∧
      (c.step request).2.Mirrors region (r.step request).2 := by
  have hsound := h.sound.step request
  cases request with
  | allocate s =>
    refine h.answer hsound ?_ (h.keeps.newObject s) rfl
    rw [← h.heap]
    rfl
  | retain o =>
    rw [Session.step, Registry.step, h.heap]
    split
    · next hlive => exact h.answer (h.sound.give hlive) rfl (h.keeps.give o).2 rfl
    · exact ⟨rfl, h⟩
  | drop o =>
    rw [Session.step, Registry.step, h.held]
    split
    · next ho => exact ⟨rfl, h.held ▸ h.drop ho⟩
    · exact ⟨rfl, h⟩
  | intern s =>
    obtain ⟨hanswer, hkeeps⟩ := h.keeps.intern s
    exact h.answer hsound hanswer hkeeps (overlay_intern c.interner s)
  | internObject o =>
    rw [Registry.step] at hsound
    rw [Session.step, Registry.step, h.heap]
    split
    · next hlive =>
      rw [if_pos hlive] at hsound
      obtain ⟨hanswer, hkeeps⟩ := h.keeps.internObject (h.heap.symm ▸ hlive)
      exact h.answer hsound hanswer hkeeps (overlay_internObject c.interner o)
    · exact ⟨rfl, h⟩
  | lookup s =>
    obtain ⟨hanswer, hkeeps⟩ := h.keeps.lookup? s
    have hoverlay := overlay_lookup? c.interner s
    rw [Registry.step] at hsound
    rw [Session.step, Registry.step]
    generalize c.interner.lookup? s = result at hanswer hkeeps hoverlay ⊢
    obtain ⟨found, interner⟩ := result
    dsimp only at hanswer hoverlay
    subst hanswer
    cases hentry : r.map.entry s with
    | some o =>
      rw [hentry] at hkeeps hsound
      exact h.answer hsound rfl hkeeps hoverlay
    | none =>
      rw [hentry] at hkeeps
      exact ⟨rfl, h.proceed hkeeps hoverlay⟩
  | notifyDead numDead =>
    exact ⟨rfl, h.proceed (h.keeps.notifyDead numDead).1 (h.keeps.notifyDead numDead).2⟩
  | reportDead => exact ⟨rfl, h.proceed h.keeps.reportDead.1 h.keeps.reportDead.2⟩
  | runPending seed =>
    exact ⟨rfl, h.proceed (h.keeps.runPending seed).1 (h.keeps.runPending seed).2⟩
  | rehash seed => exact ⟨rfl, h.proceed (h.keeps.rehash seed).1 (h.keeps.rehash seed).2⟩
  | transferOverlay =>
    obtain ⟨hkeeps, hdrained⟩ := h.keeps.transferOverlay
    refine ⟨rfl, h.sound, h.held, hkeeps, ?_⟩
    intro o ho
    change o ∈ c.interner.transferOverlay.2.overlay.objects at ho
    simp [hdrained] at ho
  | shutdown => exact ⟨rfl, h.proceed h.keeps.shutdown.1 h.keeps.shutdown.2⟩

theorem Mirrors.run (h : c.Mirrors region r) (requests : List Request) :
    (c.run requests).Mirrors region (r.run requests) := by
  induction requests generalizing c r with
  | nil => exact h
  | cons request rest ih => exact ih (h.step request).2

theorem mirrors_start {settings : Settings} {image : Option Image} {cells : CellStore} {heap : Heap}
    {interner : Interner} {held : List ObjectId}
    (hstart : Interner.start settings image cells heap = .ok interner)
    (hheld : ∀ o, held.count o ≤ heap.refs o) :
    Mirrors (Registry.regionOf heap image) { interner, held } (.start heap image held) := by
  obtain ⟨hkeeps, hobjects⟩ := Interner.keeps_start hstart held
  refine ⟨Registry.sound_start image hheld, ?_, hkeeps, hobjects⟩
  cases image <;> rfl

/-! ## What is served -/

theorem Mirrors.serves (h : c.Mirrors region r) : c.Serves r where
  heap := h.heap
  held := h.held
  answers request := (h.step request).1
  live := h.sound.live
  sole o ho := by
    have hentry := (h.keeps.table.entry (r.map.heap.content o) o).2 ⟨h.heap ▸ ho, rfl⟩
    simp only [WeakMap.without] at hentry
    split at hentry
    · cases hentry
    · exact hentry
  lookup := r.step_lookup
  intern := r.step_intern
  internObject o := r.step_internObject
  stays request s o := Registry.stays

/-- **An interner serves its registry**, started with any settings that it accepts and with any
snapshot, whatever is asked of it. For a content of the snapshot the object of the first entry
stands, now and for good, drained or not. -/
theorem serves_registry {settings : Settings} {image : Option Image} {cells : CellStore}
    {heap : Heap} {interner : Interner} {held : List ObjectId}
    (hstart : Interner.start settings image cells heap = .ok interner)
    (hheld : ∀ o, held.count o ≤ heap.refs o) (requests : List Request) :
    (run { interner, held } requests).Serves ((Registry.start heap image held).run requests) ∧
      ∀ snapshot ∈ image, ∀ s entry,
        (snapshot.entries.toList.find? fun entry =>
          snapshot.decode? entry.value snapshot.addressing = some s) = some entry →
        ∃ o, (Overlay.ofImage heap snapshot).1.object? entry = some o ∧
          ((Registry.start heap image held).run requests).map.entry s = some o := by
  have hmirrors := mirrors_start hstart hheld
  refine ⟨(hmirrors.run requests).serves, ?_⟩
  intro snapshot hsnapshot s entry hfind
  cases hsnapshot
  obtain ⟨o, ho, hfirst⟩ := Overlay.first?_ofImage heap hfind
  exact ⟨o, ho, hmirrors.sound.entry_run (Overlay.mem_regionOf (Overlay.mem_of_first? hfirst))
    hfirst requests⟩

/-- A snapshot with two records of one string, the second of which is indexed first. -/
def twice : Image where
  addressing := .narrow
  backing := .mapped
  entries := #[⟨97, 1⟩, ⟨97, 0⟩]
  records := #["a", "a"]
  offsets := #[0, 5]
  sorted := by decide
  leads := by decide

theorem serves_registry_of_snapshot :
    ∃ interner, Interner.start {} (some twice) Interner.ownCells {} = .ok interner ∧
      (run { interner, held := [] } [.rehash 7, .transferOverlay, .intern "a", .drop ⟨1⟩]).Serves
        ((Registry.start {} (some twice) []).run [.rehash 7, .transferOverlay, .intern "a",
          .drop ⟨1⟩]) ∧
      ((Registry.start {} (some twice) []).run [.rehash 7, .transferOverlay, .intern "a",
        .drop ⟨1⟩]).map.entry "a" = some ⟨1⟩ := by
  obtain ⟨interner, hstart⟩ : ∃ interner, Interner.start {} (some twice) Interner.ownCells {} =
    .ok interner := ⟨_, rfl⟩
  have hheld : ∀ o, List.count o ([] : List ObjectId) ≤ Heap.refs {} o := fun _ => Nat.zero_le _
  obtain ⟨hserves, hfirst⟩ :=
    serves_registry hstart hheld [.rehash 7, .transferOverlay, .intern "a", .drop ⟨1⟩]
  obtain ⟨o, ho, hentry⟩ := hfirst twice rfl "a" ⟨97, 1⟩ (by decide)
  cases ho
  exact ⟨interner, hstart, hserves, hentry⟩

end Session

end WeakIntern
