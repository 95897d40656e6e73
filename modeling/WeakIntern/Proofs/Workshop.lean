import WeakIntern.Proofs.Snapshots
import WeakIntern.Proofs.Verification
/-!
# An interner whose table others work on

In a `Workshop` an interner serves its callers, as in a session, and the callers drive tasks of
their own on its table between one request and the next. Whenever no task is under way, nothing is
wrong with the interner (`nothing_wrong`), as long as no task went back over buckets that it has
moved. A task that did leaves a slot that is linked twice, and the interner counts a spare object
(`spare_object_after_wrapped_chunk`).
-/

namespace WeakIntern

open scoped List

/-- An interner with its callers, and all tasks that were ever created on its table. -/
structure Workshop where
  session : Session
  tasks : List Task := []

/-- Something is asked of the interner, or a task does something. -/
inductive Deed where
  | ask (request : Request)
  | work (action : Action) (htask : action.isTask = true)

namespace Workshop

/-- The table as the tasks see it, when inserts have taken some references. -/
def world (w : Workshop) (passed : List WeakRef) : World :=
  { heap := w.session.interner.heap, table := w.session.interner.table, passed, tasks := w.tasks }

/-- Put the table and the tasks of a world in the place of those that there are. -/
def putBack (w : Workshop) (next : World) : Workshop where
  session := { w.session with interner := { w.session.interner with table := next.table } }
  tasks := next.tasks

def step (w : Workshop) : Deed → Workshop
  | .ask request => { w with session := (w.session.step request).2 }
  | .work action _ => w.putBack ((w.world []).step action).1

def run (w : Workshop) (deeds : List Deed) : Workshop := deeds.foldl step w

/-- Does a task of the callers go back over buckets whose slots it has moved? -/
def goesBack (w : Workshop) : Deed → Bool
  | .ask _ => false
  | .work action _ => (w.world []).goesBack (.act action)

/-- No deed lets a task go back. -/
def neverGoesBack (w : Workshop) : List Deed → Bool
  | [] => true
  | deed :: rest => !w.goesBack deed && (w.step deed).neverGoesBack rest

end Workshop

/-! ## What lies aside -/

namespace World

variable {w : World} {i : Nat}

theorem drive_passed {f f' : Task → World × Answer} {passed : List WeakRef}
    (hf : ∀ task, (f' task).1 = { (f task).1 with passed }) :
    (({ w with passed } : World).drive i f').1 = { (w.drive i f).1 with passed } := by
  simp only [drive]
  cases w.tasks[i]? with
  | none => rfl
  | some task => exact hf task

/-- Tasks do not look at the references that inserts have taken. -/
theorem step_passed (w : World) {action : Action} (htask : action.isTask = true)
    (passed : List WeakRef) :
    (({ w with passed } : World).step action).1 = { (w.step action).1 with passed } := by
  cases action with
  | create kind chunk => rfl
  | prepare i =>
    refine drive_passed fun task => ?_
    simp only [World.prepare]
    cases task.prepare w.table <;> rfl
  | chunk i =>
    refine drive_passed fun task => ?_
    simp only [World.chunk]
    cases task.doChunk w.heap w.table <;> rfl
  | pause i =>
    refine drive_passed fun task => ?_
    simp only [World.pause]
    cases task.yieldPoint <;> rfl
  | resume i =>
    refine drive_passed fun task => ?_
    simp only [World.resume]
    cases task.resume <;> rfl
  | commit i =>
    refine drive_passed fun task => ?_
    simp only [World.commit]
    cases task.commit w.table <;> rfl
  | abandon i => exact drive_passed fun task => rfl
  | allocate | retain | drop | insert | get => cases htask

end World

/-! ## Order in the workshop -/

/-- The request in a deed. -/
def Deed.request? : Deed → Option Request
  | .ask request => some request
  | .work .. => none

namespace Workshop

/-- A workshop that is minded: the interner keeps what is registered, and its table belongs to one
task at most. -/
structure Minded (region : List ObjectId) (w : Workshop) (r : Registry) : Prop where
  mirrors : w.session.Mirrors region r
  orderly : (w.world []).Orderly

variable {region : List ObjectId} {cells : CellStore} {w : Workshop} {r : Registry}

theorem Minded.ask (h : w.Minded region r) (request : Request) :
    (w.step (.ask request)).Minded region (r.step request).2 :=
  ⟨(h.mirrors.step request).2, h.orderly.errands (h.mirrors.errands request)⟩

/-- A world with the same heap, in whose table the same objects are found, may be put back. -/
theorem Minded.putBack (h : w.Minded region r) {next : World}
    (hheap : next.heap = w.session.interner.heap) (horderly : next.Orderly)
    (hsame : Table.SameObjects w.session.interner.heap w.session.interner.table next.table) :
    (w.putBack next).Minded region r := by
  obtain ⟨heap, table, spare, passed, tasks⟩ := next
  dsimp only at hheap hsame
  subst hheap
  -- The heap is the same and so are the objects in the table, so that the registry need not change.
  have hkeeps := h.mirrors.keeps
  refine ⟨⟨h.mirrors.sound, h.mirrors.held, ?_, h.mirrors.overlay⟩,
    horderly.congr _ table.cells [] []⟩
  exact
    { hkeeps with
      steady := horderly.steady
      chunkBuckets_lt := horderly.chunkBuckets_lt
      table := hkeeps.table.of_sameObjects (hkeeps.heap ▸ hsame) }

/-- What a task does is not registered, even if it goes back. -/
theorem Minded.work (h : w.Minded region r) {action : Action} (htask : action.isTask = true) :
    (w.step (.work action htask)).Minded region r := by
  have hcoherent := h.mirrors.keeps.table.coherent
  rw [show (r.map.without _).heap = w.session.interner.heap from h.mirrors.keeps.heap] at hcoherent
  have heff := h.orderly.step_task htask
  exact h.putBack heff.aside.1 (heff.orderly h.orderly) (heff.sameObjects hcoherent)

/-- **A workshop stays minded**, and its registry knows of the requests only. -/
theorem Minded.run (h : w.Minded region r) (deeds : List Deed) :
    (w.run deeds).Minded region (r.run (deeds.filterMap Deed.request?)) := by
  induction deeds generalizing w r with
  | nil => exact h
  | cons deed rest ih =>
    cases deed with
    | ask request => exact ih (h.ask request)
    | work action htask => exact ih (h.work htask)

theorem minded_start {settings : Settings} {image : Option Image} {cells : CellStore} {heap : Heap}
    {interner : Interner} {held : List ObjectId}
    (hstart : Interner.start settings image cells heap = .ok interner)
    (hheld : ∀ o, held.count o ≤ heap.refs o) :
    Minded (Registry.regionOf heap image) { session := { interner, held } }
    (.start heap image held) := by
  obtain ⟨heap', herrands⟩ := Interner.runs_start hstart
  exact ⟨Session.mirrors_start hstart hheld,
    (World.orderly_start settings _ heap').errands herrands⟩

/-- A workshop that is kempt: the interner keeps what is registered, on a table that is tidy. -/
structure Kempt (region : List ObjectId) (cells : CellStore) (w : Workshop)
    (r : Registry) : Prop where
  mirrors : w.session.Mirrors region r
  tidy : ∃ passed, (w.world passed).Tidy cells

theorem Kempt.minded (h : w.Kempt region cells r) : w.Minded region r := by
  obtain ⟨passed, htidy⟩ := h.tidy
  exact ⟨h.mirrors, htidy.kept.orderly.congr _ _ [] []⟩

theorem Kempt.ask (h : w.Kempt region cells r) (request : Request) :
    (w.step (.ask request)).Kempt region cells (r.step request).2 := by
  obtain ⟨passed, htidy⟩ := h.tidy
  exact ⟨(h.mirrors.step request).2, htidy.errands (h.mirrors.errands request)⟩

theorem Kempt.work (h : w.Kempt region cells r) {action : Action} (htask : action.isTask = true)
    (hback : (w.world []).goesBack (.act action) = false) :
    (w.step (.work action htask)).Kempt region cells r := by
  obtain ⟨passed, htidy⟩ := h.tidy
  have heff := htidy.kept.orderly.step_task htask
  -- The tidy world has other references that were passed, which tasks do not see.
  have hback' : (w.world passed).goesBack (.act action) = false := by
    cases action <;> exact hback
  have htidy' := heff.tidy htidy hback'
  obtain ⟨hheap, hspare, -⟩ := heff.aside
  have hstep : ((w.world passed).step action).1 = { ((w.world []).step action).1 with passed } :=
    (w.world []).step_passed htask passed
  rw [hstep] at htidy' hheap hspare
  refine ⟨(h.minded.work htask).mirrors, passed, ?_⟩
  rw [step, putBack]
  generalize ((w.world []).step action).1 = next at hheap hspare htidy'
  obtain ⟨heap, table, spare, passed', tasks⟩ := next
  dsimp only at hheap hspare
  subst hheap hspare
  exact htidy'

/-- **A workshop stays kempt** as long as no task goes back. -/
theorem Kempt.run (h : w.Kempt region cells r) {deeds : List Deed}
    (hback : w.neverGoesBack deeds = true) :
    ∃ r', (w.run deeds).Kempt region cells r' := by
  induction deeds generalizing w r with
  | nil => exact ⟨r, h⟩
  | cons deed rest ih =>
    rw [neverGoesBack, Bool.and_eq_true, Bool.not_eq_true'] at hback
    cases deed with
    | ask request => exact ih (h.ask request) hback.2
    | work action htask => exact ih (h.work htask hback.1) hback.2

theorem kempt_start {settings : Settings} {image : Option Image} {cells : CellStore} {heap : Heap}
    {interner : Interner} {held : List ObjectId}
    (hstart : Interner.start settings image cells heap = .ok interner)
    (hheld : ∀ o, held.count o ≤ heap.refs o) :
    Kempt (Registry.regionOf heap image) (cells.listen Interner.listener)
    { session := { interner, held } }
      (.start heap image held) := by
  obtain ⟨heap', herrands⟩ := Interner.runs_start hstart
  exact ⟨Session.mirrors_start hstart hheld, (World.tidy_start settings _ heap').errands herrands⟩

/-- A workshop in order: the interner keeps what is registered, its table is tidy, and the objects
of its overlay have different contents. -/
structure Tended (region : List ObjectId) (cells : CellStore) (w : Workshop)
    (r : Registry) : Prop where
  mirrors : w.session.Mirrors region r
  tidy : ∃ passed, (w.world passed).Tidy cells
  distinct : (w.session.interner.contents w.session.interner.overlay.objects).Nodup

/-- The objects of an overlay that goes on with the heap have the contents that they had. -/
theorem nodup_contents_later {i i' : Interner} {m : WeakMap} (hkeeps : i.Keeps m)
    (hlater : Heap.Later i.heap i'.heap)
    (hoverlay : i'.overlay.objects = i.overlay.objects ∨ i'.overlay.objects = [])
    (h : (i.contents i.overlay.objects).Nodup) : (i'.contents i'.overlay.objects).Nodup := by
  rcases hoverlay with hoverlay | hoverlay
  · have hsame : i'.contents i'.overlay.objects = i.contents i.overlay.objects := by
      rw [hoverlay]
      exact List.map_congr_left fun o ho =>
        hlater.content o (Heap.knows_of_isLive (hkeeps.alive o ho))
    rw [hsame]
    exact h
  · rw [hoverlay]
    exact .nil

theorem Tended.kempt (h : w.Tended region cells r) : w.Kempt region cells r := ⟨h.mirrors, h.tidy⟩

theorem Tended.minded (h : w.Tended region cells r) : w.Minded region r := h.kempt.minded

theorem Tended.ask (h : w.Tended region cells r) (request : Request) :
    (w.step (.ask request)).Tended region cells (r.step request).2 := by
  obtain ⟨hmirrors, htidy⟩ := h.kempt.ask request
  have hlater := (h.mirrors.errands request).heap_later
  exact ⟨hmirrors, htidy,
    nodup_contents_later h.mirrors.keeps hlater (h.mirrors.overlay_step request) h.distinct⟩

theorem Tended.work (h : w.Tended region cells r) {action : Action} (htask : action.isTask = true)
    (hback : (w.world []).goesBack (.act action) = false) :
    (w.step (.work action htask)).Tended region cells r := by
  obtain ⟨hmirrors, htidy⟩ := h.kempt.work htask hback
  exact ⟨hmirrors, htidy, h.distinct⟩

theorem Tended.step (h : w.Tended region cells r) {deed : Deed} (hback : w.goesBack deed = false) :
    ∃ r', (w.step deed).Tended region cells r' := by
  cases deed with
  | ask request => exact ⟨_, h.ask request⟩
  | work action htask => exact ⟨r, h.work htask hback⟩

theorem Tended.run (h : w.Tended region cells r) {deeds : List Deed}
    (hback : w.neverGoesBack deeds = true) :
    ∃ r', (w.run deeds).Tended region cells r' := by
  induction deeds generalizing w r with
  | nil => exact ⟨r, h⟩
  | cons deed rest ih =>
    rw [neverGoesBack, Bool.and_eq_true, Bool.not_eq_true'] at hback
    obtain ⟨r', h'⟩ := h.step hback.1
    exact ih h' hback.2

/-- **A workshop in order** has an interner with which nothing is wrong, whenever no task is under
way. -/
theorem Tended.verified (h : w.Tended region cells r)
    (hfree : w.session.interner.table.owned = false) :
    w.session.interner.Verified := by
  obtain ⟨passed, htidy⟩ := h.tidy
  exact h.mirrors.keeps.verified htidy h.distinct hfree

/-! ## The beginning -/

/-- The objects of the first overlay have different contents, if the snapshot was written. -/
theorem distinct_start {settings : Settings} {image : Option Image} {cells : CellStore}
    {heap : Heap} {interner : Interner}
    (hstart : Interner.start settings image cells heap = .ok interner)
    (hwritten : ∀ snapshot ∈ image, snapshot.Written) :
    (interner.contents interner.overlay.objects).Nodup := by
  obtain ⟨-, rfl⟩ := Interner.start_eq_ok_iff.1 hstart
  split
  · rw [Interner.overlay_transferOverlay]
    exact .nil
  · cases image with
    | none => exact .nil
    | some image => exact Overlay.nodup_contents_ofImage (hwritten image rfl) heap

/-- A workshop begins in order. -/
theorem tended_start {settings : Settings} {image : Option Image} {cells : CellStore} {heap : Heap}
    {interner : Interner} {held : List ObjectId}
    (hstart : Interner.start settings image cells heap = .ok interner)
    (hheld : ∀ o, held.count o ≤ heap.refs o) (hwritten : ∀ snapshot ∈ image, snapshot.Written) :
    Tended (Registry.regionOf heap image) (cells.listen Interner.listener)
    { session := { interner, held } }
      (.start heap image held) := by
  obtain ⟨hmirrors, htidy⟩ := kempt_start hstart hheld
  exact ⟨hmirrors, htidy, distinct_start hstart hwritten⟩

/-- **Nothing is wrong with an interner**, with any settings that it accepts and any snapshot that
was written, whatever is asked of it and whatever its callers do with tasks of their own, whenever
no task is under way. -/
theorem nothing_wrong {settings : Settings} {image : Option Image} {cells : CellStore} {heap : Heap}
    {interner : Interner} {held : List ObjectId}
    (hstart : Interner.start settings image cells heap = .ok interner)
    (hheld : ∀ o, held.count o ≤ heap.refs o) (hwritten : ∀ snapshot ∈ image, snapshot.Written)
    (deeds : List Deed) (hback : neverGoesBack { session := { interner, held } } deeds = true)
    (hfree : (run { session := { interner, held } } deeds).session.interner.table.owned = false) :
    (run { session := { interner, held } } deeds).session.interner.Verified := by
  obtain ⟨r, hend⟩ := (tended_start hstart hheld hwritten).run hback
  exact hend.verified hfree

/-- A snapshot of one string. -/
def single : Image where
  addressing := .narrow
  backing := .mapped
  entries := #[⟨97, 0⟩]
  records := #["a"]
  offsets := #[0]
  sorted := by decide
  leads := by decide

theorem written_single : single.Written := by
  obtain ⟨bytes, hencode⟩ : ∃ bytes, (SnapshotDraft.ofList .narrow ["a"]).encode =
    .ok bytes := ⟨_, rfl⟩
  obtain ⟨image, hread, himaged⟩ := SnapshotDraft.imaged_ofBytes hencode .mapped
  have hentries : image.entries.toList = [⟨97, 0⟩] := List.perm_singleton.1 himaged.entries
  obtain rfl : image = single := by
    obtain ⟨addressing, backing, entries, records, offsets, sorted, leads⟩ := image
    obtain rfl : addressing = .narrow := himaged.addressing
    obtain rfl : backing = .mapped := himaged.backing
    obtain rfl : records = #["a"] := himaged.records
    obtain rfl : offsets = #[0] := himaged.offsets
    obtain rfl : entries = #[⟨97, 0⟩] := Array.toList_inj.1 hentries
    rfl
  exact ⟨.narrow, ["a"], bytes, hencode, hread⟩

/-- The interner that is started with the snapshot, and a table of one bucket. -/
def stocked : Workshop where
  session :=
    { held := []
      interner :=
        { heap := { objects := #[⟨"a", 1⟩] }
          table := .ofSettings World.oneBucket (Interner.ownCells.listen Interner.listener)
          overlay :=
            { entries := #[⟨97, 0⟩]
              region := some
                { addressing := .narrow, backing := .mapped, objects := #[⟨0⟩], offsets := #[0] } }
          maintenance := { settings := World.oneBucket } } }

/-- The table grows while strings are interned and dropped, and while the overlay is drained. -/
def growingDeeds : List Deed :=
  [.ask (.intern "b"), .work (.create .grow none) rfl, .work (.prepare 0) rfl, .ask (.intern "a"),
    .work (.chunk 0) rfl, .ask .transferOverlay, .ask (.intern "c"), .ask (.drop ⟨1⟩),
    .work (.commit 0) rfl]

theorem nothing_wrong_after_growth :
    Interner.start World.oneBucket (some single) Interner.ownCells {} =
      .ok stocked.session.interner ∧
      stocked.neverGoesBack growingDeeds = true ∧
        (stocked.run growingDeeds).session.interner.Verified := by
  have hstart : Interner.start World.oneBucket (some single) Interner.ownCells {} =
    .ok stocked.session.interner := rfl
  have hheld : ∀ o, List.count o ([] : List ObjectId) ≤ Heap.refs {} o := fun _ => Nat.zero_le _
  have hwritten : ∀ snapshot ∈ some single, snapshot.Written := by
    rintro _ ⟨⟩
    exact written_single
  have hback : stocked.neverGoesBack growingDeeds = true := by decide +kernel
  have hfree : (stocked.run growingDeeds).session.interner.table.owned = false := by decide +kernel
  exact ⟨hstart, hback, nothing_wrong hstart hheld hwritten growingDeeds hback hfree⟩

/-- An interner with a table of one bucket, and without a snapshot. -/
def plain : Workshop where
  session :=
    { held := []
      interner :=
        { table := .ofSettings World.oneBucket (Interner.ownCells.listen Interner.listener)
          maintenance := { settings := World.oneBucket } } }

/-- An interner with a table of two buckets, that takes walks over more than two slots for too
long. -/
def touchy : Workshop where
  session :=
    { held := []
      interner :=
        { table := .ofSettings { initialSize := 2, maxLog2 := 4, alarmLength := 2 }
            (Interner.ownCells.listen Interner.listener)
          maintenance := { settings := { initialSize := 2, maxLog2 := 4, alarmLength := 2 } } } }

/-- A task with very large chunks is asked for two chunks more after its last bucket. -/
def wrappingDeeds : List Deed :=
  [.ask (.intern "a"), .work (.create .grow (some 0xffffffffffffffff)) rfl, .work (.prepare 0) rfl,
    .work (.chunk 0) rfl, .work (.chunk 0) rfl, .work (.chunk 0) rfl, .work (.commit 0) rfl]

/-- The live slot is linked twice, and one of them counts as a spare object. -/
theorem spare_object_after_wrapped_chunk :
    Interner.start World.oneBucket none Interner.ownCells {} = .ok plain.session.interner ∧
      (plain.run wrappingDeeds).session.interner.table.owned = false ∧
      (plain.run wrappingDeeds).session.interner.verifyAndCompare.1 = 1 ∧
      ¬ (plain.run wrappingDeeds).session.interner.Verified := by
  have hcontents : (plain.run wrappingDeeds).session.interner.contents
      (plain.run wrappingDeeds).session.interner.visibleObjects = ["a", "a"] := by decide
  have hverify : (plain.run wrappingDeeds).session.interner.verify.1 = 0 := by decide
  have htally : Interner.tally ["a", "a"] = [("a", 2)] := by
    rw [Interner.tally, List.mergeSort_of_pairwise (by decide)]
    decide
  refine ⟨rfl, by decide, ?_, ?_⟩
  · rw [Interner.verifyAndCompare_fst, hverify, hcontents, htally]
    rfl
  · intro h
    have hnodup := h.contents
    rw [hcontents] at hnodup
    exact absurd hnodup (by decide)

end Workshop

end WeakIntern
