import WeakIntern.Proofs.Answers
import WeakIntern.Proofs.Inspection
import WeakIntern.Proofs.Lookups
import WeakIntern.Proofs.Workshop
/-!
# An overlay is drained once

In an `OpenWorkshop` the callers of an interner work on its table themselves: they acquire
references, insert under them as they like, give them back too early, and drive tasks. A transfer of
the overlay in the middle of that links each of its contents once, as long as the table has none of
them (`Interner.Transferred`), and with it the overlay is empty for good. If the callers leave the
table to the interner and to tasks, no content of the overlay ever gets there before
(`overlay_drained_once`).
-/

namespace WeakIntern

/-! ## What is transferred -/

/-- The overlay was drained, and has nothing left. -/
structure Overlay.Exhausted (overlay : Overlay) : Prop where
  drained : overlay.drained = true
  entryCount : overlay.entryCount = 0
  isEmpty : overlay.isEmpty = true
  objects : overlay.objects = []
  lookup : ∀ heap s hash, overlay.lookup? heap s hash = none
  stays : overlay.requiresTransfer = false

theorem Overlay.exhausted_of_drained {overlay : Overlay} (hdrained : overlay.drained = true)
    (hempty : overlay.entries = #[]) : overlay.Exhausted := by
  obtain ⟨entries, region, drained⟩ := overlay
  dsimp only at hdrained hempty
  subst hdrained hempty
  refine ⟨rfl, rfl, rfl, rfl, fun heap s hash => ?_, rfl⟩
  have hnone : entriesWith { region, drained := true } hash = [] := by simp [entriesWith]
  rw [lookup?, hnone, List.findSome?_nil]

/-- The number of entries in the report of a drained overlay. -/
def Event.drained? : Event → Option Nat
  | .overlayDrained entries => some entries
  | _ => none

/-- The numbers of entries in the reports of drained overlays that the log has. -/
def EventLog.drained (log : EventLog) : List Nat := log.events.toList.filterMap Event.drained?

namespace Maintenance

theorem drained_raiseAlarm (m : Maintenance) (t : Table) (alarm : Bool) :
    (m.raiseAlarm t alarm).log.drained = m.log.drained := by
  rw [raiseAlarm]
  split
  · exact m.log.filterMap_record rfl
  · rfl

theorem drained_notifyDead (m : Maintenance) (t : Table) (numDead : Nat) :
    (m.notifyDead t numDead).2.log.drained = m.log.drained := by
  simp only [notifyDead]
  split
  · rfl
  · exact m.log.filterMap_record rfl

theorem drained_doWork (m : Maintenance) (heap : Heap) (t : Table) :
    (m.doWork heap t).2.2.1.log.drained = m.log.drained := by
  refine m.log.filterMap_record ?_
  split
  · cases m.settings.selectWork t.loadFactor t.isMaxSize <;> rfl
  · rfl

theorem drained_rehash (m : Maintenance) (heap : Heap) (t : Table) (seed : UInt64) :
    (m.rehash heap t seed).2.2.1.log.drained = m.log.drained := by
  simp only [rehash]
  split
  · exact m.log.filterMap_record rfl
  · split
    · exact m.log.filterMap_record rfl
    · rw [rekey]
      split <;> exact m.log.filterMap_record rfl

end Maintenance

namespace Interner

/-- The number of different contents of the overlay. -/
def sharedContents (i : Interner) : Nat := (i.contents i.overlay.objects).dedup.length

/-- No content of the overlay is in the table. -/
def Vacant (i : Interner) : Prop := i.table.Vacant i.heap (i.contents i.overlay.objects)

instance (i : Interner) : Decidable i.Vacant := inferInstanceAs (Decidable (i.table.Vacant _ _))

/-- What a transfer of the overlay does, and the number that it answers with. -/
structure Transferred (i : Interner) (entries : Nat) (i' : Interner) : Prop where
  number : entries = i.overlay.entryCount
  exhausted : i'.overlay.Exhausted
  heap : i'.heap = i.heap
  /-- Each content of the overlay has one live slot, and that leads to the object of the first
  entry. -/
  sole : ∀ s ∈ i.contents i.overlay.objects, ∃ slot,
    i'.table.linked.filter (fun slot => i'.heap.peek? slot.ref.referent = some s) = [slot] ∧
      i.overlay.first? i.heap s = some slot.ref.referent
  items : i'.table.items = i.table.items + .ofNat i.sharedContents
  itemCount : i.table.itemCount + i.sharedContents < UInt64.size →
    i'.table.itemCount = i.table.itemCount + i.sharedContents
  allocated : i'.table.cells.allocated = i.table.cells.allocated + i.sharedContents
  releasedTotal : i'.table.cells.releasedTotal + i.sharedContents =
    i.table.cells.releasedTotal + entries
  doubleReleases : i'.table.cells.doubleReleases = i.table.cells.doubleReleases
  /-- All slots stay where they are; what is new stands behind them, in cells of its own. -/
  slots : ∃ here there : List Slot, i'.table.active = i.table.active.appendAll here ∧
    (i'.table.successors = i.table.successors.map fun target => target.appendAll there) ∧
    (here ++ there).length = i.sharedContents ∧
    ∀ slot ∈ here ++ there, i.table.cells.handles.size < slot.ref.id
  cells : ∀ k, k < i.table.cells.handles.size →
    i'.table.cells.handles[k]? = i.table.cells.handles[k]?
  frame : i.table.SameFrame i'.table

variable {i i' : Interner}

theorem table_linkAll (i : Interner) (objects : List ObjectId) :
    (objects.foldl linkOnly i).table = objects.foldl (Table.take i.heap) i.table := by
  induction objects generalizing i with
  | nil => rfl
  | cons o rest ih =>
    have htable : (i.linkOnly o).table = Table.take i.heap i.table o := rfl
    rw [List.foldl_cons, List.foldl_cons, ih, i.heap_linkOnly, htable]

theorem table_transferOverlay (i : Interner) :
    i.transferOverlay.2.table = i.overlay.objects.foldl (Table.take i.heap) i.table := by
  obtain ⟨maintenance, heq⟩ := i.transferOverlay_eq
  rw [heq]
  exact table_linkAll { i with overlay := i.overlay.drain.2 } i.overlay.objects

theorem fst_transferOverlay (i : Interner) : i.transferOverlay.1 = i.overlay.entryCount := by
  simp only [transferOverlay]
  split
  · next hnone => exact hnone.symm
  · rfl

/-- **A transfer** links each content of the overlay once, if the table has none of them. -/
theorem transferred (hsteady : i.table.Steady)
    (hlive : ∀ o ∈ i.overlay.objects, i.heap.isLive o = true)
    (hentries : i.overlay.objects.length = i.overlay.entryCount) (hvacant : i.Vacant) :
    i.Transferred i.transferOverlay.1 i.transferOverlay.2 := by
  have htable := i.table_transferOverlay
  have hheap := i.heap_transferOverlay
  obtain ⟨here, there, hreceived⟩ := Table.received_takeAll hsteady i.overlay.objects hlive hvacant
  have hlength : (here ++ there).length = i.sharedContents := hreceived.chosen.length_eq
  have hitems : i.transferOverlay.2.table.items = i.table.items + .ofNat i.sharedContents := by
    rw [htable, hreceived.items, hlength]
  have hcells := hreceived.cells
  rw [hlength, hentries] at hcells
  constructor
  · exact i.fst_transferOverlay
  · exact i.overlay_eq_drain ▸ Overlay.exhausted_of_drained rfl rfl
  · exact hheap
  · intro s hs
    rw [hheap, htable]
    exact hreceived.sole hsteady hlive hvacant hs
  · exact hitems
  · intro hlt
    have hitemCount : i.table.items.toNat + i.sharedContents < UInt64.size := hlt
    have hcontents : i.sharedContents < UInt64.size := by omega
    rw [Table.itemCount, hitems, UInt64.toNat_add, UInt64.toNat_ofNat_of_lt' hcontents,
      Nat.mod_eq_of_lt hitemCount]
    rfl
  · rw [htable]
    exact hcells.allocated
  · rw [htable, i.fst_transferOverlay]
    exact hcells.releasedTotal
  · rw [htable]
    exact hcells.doubleReleases
  · rw [htable]
    exact ⟨here, there, hreceived.extended.active, hreceived.extended.successors, hlength,
      hreceived.fresh⟩
  · rw [htable]
    exact hcells.cells
  · rw [htable]
    exact hreceived.extended.frame

/-- A transfer of an overlay that was drained before does nothing. -/
theorem transferOverlay_of_drained (hdrained : i.overlay.drained = true)
    (hempty : i.overlay.entries = #[]) :
    i.transferOverlay = (0, i) := by
  obtain ⟨heap, table, ⟨entries, region, drained⟩, maintenance, running, pauses⟩ := i
  dsimp only at hdrained hempty
  subst hdrained hempty
  rfl

/-! ## What other requests do to the overlay -/

/-- The overlay is as it was, and no transfer is reported. -/
structure SparesOverlay (i i' : Interner) : Prop where
  overlay : i'.overlay = i.overlay
  drained : i'.log.drained = i.log.drained

theorem SparesOverlay.refl (i : Interner) : i.SparesOverlay i := ⟨rfl, rfl⟩

theorem SparesOverlay.trans {i'' : Interner} (h : i.SparesOverlay i') (h' : i'.SparesOverlay i'') :
    i.SparesOverlay i'' :=
  ⟨h'.overlay.trans h.overlay, h'.drained.trans h.drained⟩

theorem sparesOverlay_link (i : Interner) (o : ObjectId) : i.SparesOverlay (i.link o).2 :=
  ⟨rfl, Maintenance.drained_raiseAlarm _ _ _⟩

theorem sparesOverlay_probe {key : LookupKey} {found : Option ObjectId}
    (h : i.probe key = (found, i')) :
    i.SparesOverlay i' := by
  obtain rfl : (i.probe key).2 = i' := congrArg Prod.snd h
  exact ⟨rfl, Maintenance.drained_raiseAlarm _ _ _⟩

theorem sparesOverlay_internObject (i : Interner) (o : ObjectId) :
    i.SparesOverlay (i.internObject o).2 := by
  unfold internObject
  split
  · exact ⟨rfl, rfl⟩
  · split
    · next i' hprobe => exact (sparesOverlay_probe hprobe).trans ⟨rfl, rfl⟩
    · next i' hprobe => exact (sparesOverlay_probe hprobe).trans (i'.sparesOverlay_link o)

theorem sparesOverlay_intern (i : Interner) (s : String) : i.SparesOverlay (i.intern s).2 := by
  unfold intern
  split
  · exact ⟨rfl, rfl⟩
  · split
    · next i' hprobe => exact (sparesOverlay_probe hprobe).trans ⟨rfl, rfl⟩
    · next i' hprobe =>
      have hlink := (i'.newObject s).2.sparesOverlay_link (i'.newObject s).1
      exact (sparesOverlay_probe hprobe).trans ⟨hlink.overlay, hlink.drained⟩

theorem sparesOverlay_lookup? (i : Interner) (s : String) : i.SparesOverlay (i.lookup? s).2 := by
  unfold lookup?
  split
  · exact ⟨rfl, rfl⟩
  · split
    · next i' hprobe => exact (sparesOverlay_probe hprobe).trans ⟨rfl, rfl⟩
    · next hprobe => exact sparesOverlay_probe hprobe

theorem sparesOverlay_linkAll (i : Interner) (objects : List ObjectId) :
    i.SparesOverlay (objects.foldl linkOnly i) := by
  induction objects generalizing i with
  | nil => exact .refl i
  | cons o rest ih =>
    have hlink : i.SparesOverlay (i.linkOnly o) := (i.sparesOverlay_link o).trans ⟨rfl, rfl⟩
    exact hlink.trans (ih _)

theorem sparesOverlay_reportDead (i : Interner) : i.SparesOverlay i.reportDead.2 := by
  rw [reportDead]
  generalize i.table.cells.report i.heap = report
  obtain ⟨numDead, told⟩ := report
  dsimp only
  induction told generalizing i with
  | nil => exact .refl i
  | cons call rest ih =>
    obtain ⟨who, n⟩ := call
    have hnote : i.SparesOverlay (i.notifyDead n).2 := ⟨rfl, Maintenance.drained_notifyDead _ _ _⟩
    rw [List.foldl_cons]
    dsimp only
    split
    · exact hnote.trans (ih _)
    · exact ih i

theorem sparesOverlay_rehash (i : Interner) (seed : UInt64) : i.SparesOverlay (i.rehash seed).2 :=
  ⟨rfl, Maintenance.drained_rehash _ _ _ _⟩

theorem sparesOverlay_runPending (i : Interner) (seed : UInt64) :
    i.SparesOverlay (i.runPending seed).2 := by
  have hanswered :
      i.SparesOverlay (if i.maintenance.needsRehash then (i.rehash seed).2 else i) := by
    split
    · exact i.sparesOverlay_rehash seed
    · exact .refl i
  rw [runPending]
  generalize (if i.maintenance.needsRehash then (i.rehash seed).2 else i) = i' at hanswered ⊢
  have hdone : i'.SparesOverlay i'.doWork.2 := ⟨rfl, Maintenance.drained_doWork _ _ _⟩
  dsimp only
  split
  · split
    · exact hanswered.trans ⟨hdone.overlay, hdone.drained⟩
    · exact hanswered.trans hdone
  · exact hanswered

theorem sparesOverlay_shutdown (i : Interner) : i.SparesOverlay i.shutdown := by
  rw [shutdown]
  split <;> exact ⟨rfl, rfl⟩

end Interner

/-- **Every other request** leaves the overlay alone. -/
theorem Session.sparesOverlay_step (c : Session) {request : Request}
    (hother : request ≠ .transferOverlay) :
    c.interner.SparesOverlay (c.step request).2.interner := by
  cases request with
  | allocate s => exact ⟨rfl, rfl⟩
  | retain o =>
    rw [Session.step]
    split <;> exact ⟨rfl, rfl⟩
  | drop o =>
    rw [Session.step]
    split <;> exact ⟨rfl, rfl⟩
  | intern s => exact c.interner.sparesOverlay_intern s
  | internObject o =>
    rw [Session.step]
    split
    · exact c.interner.sparesOverlay_internObject o
    · exact .refl _
  | lookup s =>
    have hspares := c.interner.sparesOverlay_lookup? s
    rw [Session.step]
    generalize c.interner.lookup? s = found at hspares
    obtain ⟨found | o, i⟩ := found <;> exact hspares
  | notifyDead numDead => exact ⟨rfl, Maintenance.drained_notifyDead _ _ _⟩
  | reportDead => exact c.interner.sparesOverlay_reportDead
  | runPending seed => exact c.interner.sparesOverlay_runPending seed
  | rehash seed => exact c.interner.sparesOverlay_rehash seed
  | transferOverlay => exact absurd rfl hother
  | shutdown => exact c.interner.sparesOverlay_shutdown

/-! ## An overlay over time -/

namespace Interner

/-- The overlay has all entries and no transfer was reported, or it was drained, which was reported
once at most. -/
structure Supplied (region : List ObjectId) (entries : Nat) (i : Interner) : Prop where
  index : i.overlay.Indexed i.heap
  objects : ∀ o ∈ i.overlay.objects, o ∈ region
  visits : i.overlay.objects.length = i.overlay.entryCount
  full : i.overlay.drained = false → i.overlay.entryCount = entries ∧ i.log.drained = []
  empty : i.overlay.drained = true → i.overlay.entries = #[] ∧
    (i.log.drained = [] ∨ i.log.drained = [entries])

variable {i i' : Interner} {region : List ObjectId} {entries : Nat}

theorem Supplied.spares (h : i.Supplied region entries)
    (hlive : ∀ o ∈ i.overlay.objects, i.heap.isLive o = true) (hlater : Heap.Later i.heap i'.heap)
    (hspares : i.SparesOverlay i') : i'.Supplied region entries where
  index := by
    rw [hspares.overlay]
    exact h.index.later hlater fun o ho => Heap.knows_of_isLive (hlive o ho)
  objects := hspares.overlay ▸ h.objects
  visits := hspares.overlay ▸ h.visits
  full := by
    rw [hspares.overlay, hspares.drained]
    exact h.full
  empty := by
    rw [hspares.overlay, hspares.drained]
    exact h.empty

/-- A transfer is reported if there was something to transfer. -/
theorem drained_transferOverlay (i : Interner) : i.transferOverlay.2.log.drained = i.log.drained ∨
    i.overlay.entryCount ≠ 0 ∧ i.transferOverlay.2.log.drained = i.log.drained ++
      [i.overlay.entryCount] := by
  have hlinked :=
    (sparesOverlay_linkAll { i with overlay := i.overlay.drain.2 } i.overlay.objects).drained
  simp only [transferOverlay]
  split
  · exact .inl hlinked
  · next hsome =>
    rw [← show _ = i.log.drained from hlinked]
    simp only [log, EventLog.drained, Maintenance.record, EventLog.events_record,
      List.filterMap_append]
    split
    · exact .inr ⟨hsome, rfl⟩
    · exact .inl (List.append_nil _)

theorem Supplied.transferOverlay (h : i.Supplied region entries) :
    i.transferOverlay.2.Supplied region entries := by
  have hoverlay := i.overlay_eq_drain
  constructor
  · rw [hoverlay]
    exact ⟨.nil, fun _ hentry => nomatch hentry⟩
  · rw [hoverlay]
    exact fun _ ho => nomatch ho
  · rw [hoverlay]
    rfl
  · rw [hoverlay]
    exact fun hdrained => nomatch hdrained
  · rw [hoverlay]
    refine fun _ => ⟨rfl, ?_⟩
    cases hdrained : i.overlay.drained with
    | false =>
      obtain ⟨hcount, hnone⟩ := h.full hdrained
      rcases i.drained_transferOverlay with heq | ⟨-, heq⟩
      · exact .inl (heq.trans hnone)
      · rw [heq, hnone, hcount]
        exact .inr rfl
    | true =>
      obtain ⟨hempty, hreported⟩ := h.empty hdrained
      rw [transferOverlay_of_drained hdrained hempty]
      exact hreported

/-- An interner that serves its callers alone has no content of the overlay in its table. -/
theorem Keeps.vacant {m : WeakMap} (h : i.Keeps m) : i.Vacant := by
  intro slot hslot hlive hmem
  have hholds := Table.holds_of_mem_linkedRefs (List.mem_map_of_mem hslot) hlive
  rw [← show (m.without (i.overlay.first? i.heap)).heap = i.heap from h.heap] at hholds
  have hentry := (h.table.entry _ _).2 ⟨hholds, rfl⟩
  rw [show (m.without (i.overlay.first? i.heap)).heap = i.heap from h.heap] at hentry
  -- The table has what the overlay does not answer for.
  obtain ⟨o, ho, hcontent⟩ := List.mem_map.1 hmem
  have hsome : (i.overlay.first? i.heap (i.heap.content slot.ref.referent)).isSome = true := by
    rw [Overlay.first?, List.find?_isSome]
    exact ⟨o, ho, beq_iff_eq.2 hcontent⟩
  simp only [WeakMap.without, hsome, if_true] at hentry
  cases hentry

end Interner

/-! ## Callers who reach into the table -/

/-- A workshop whose callers have references of their own to the table. -/
structure OpenWorkshop where
  workshop : Workshop
  /-- References that were acquired and that no insert has taken yet. -/
  spare : List WeakRef := []

/-- Something is asked of the interner, or done to its table directly. -/
inductive Visit where
  | ask (request : Request)
  | reach (venture : Venture)

/-- Is the table left to the interner and to tasks? -/
def Visit.isService : Visit → Bool
  | .ask _ => true
  | .reach (.move (.act action)) => action.isTask
  | .reach _ => false

namespace OpenWorkshop

def interner (w : OpenWorkshop) : Interner := w.workshop.session.interner

/-- The table as the callers see it. -/
def world (w : OpenWorkshop) : World := { w.workshop.world [] with spare := w.spare }

/-- What is done to objects is asked for: of what is done directly, the table, the tasks and the
references are kept. -/
def step (w : OpenWorkshop) : Visit → OpenWorkshop
  | .ask request => { w with workshop := w.workshop.step (.ask request) }
  | .reach venture =>
    let next := w.world.venture venture
    { workshop := w.workshop.putBack next, spare := next.spare }

def run (w : OpenWorkshop) (visits : List Visit) : OpenWorkshop := visits.foldl step w

/-- The overlay is empty, and a transfer does nothing. -/
def Finished (w : OpenWorkshop) : Prop :=
  w.interner.overlay.Exhausted ∧ w.interner.transferOverlay = (0, w.interner)

/-- The tasks share the table in order, every reference counts, and the overlay has all entries or
none. -/
structure Attended (region : List ObjectId) (entries : Nat) (w : OpenWorkshop) : Prop where
  orderly : w.world.Orderly
  backed : w.workshop.session.Backed region
  supplied : w.interner.Supplied region entries

variable {region : List ObjectId} {entries : Nat} {w : OpenWorkshop} {r : Registry}

theorem Attended.alive (h : w.Attended region entries) :
    ∀ o ∈ w.interner.overlay.objects, w.interner.heap.isLive o = true :=
  fun o ho => Registry.isLive_of_count_le h.backed (h.supplied.objects o ho)

theorem Attended.ask (h : w.Attended region entries) (request : Request) :
    (w.step (.ask request)).Attended region entries := by
  have hruns := w.workshop.session.runs_step h.alive request
  refine ⟨h.orderly.errands hruns,
    h.backed.step h.orderly.steady h.supplied.index h.supplied.objects request, ?_⟩
  by_cases htransfer : request = .transferOverlay
  · subst htransfer
    exact h.supplied.transferOverlay
  · exact h.supplied.spares h.alive hruns.heap_later
      (w.workshop.session.sparesOverlay_step htransfer)

/-- What is done to the table directly is nothing to the overlay. -/
theorem Attended.reach (h : w.Attended region entries) (venture : Venture) :
    (w.step (.reach venture)).Attended region entries where
  orderly :=
    have hnext := h.orderly.venture venture
    hnext.congr w.interner.heap (w.world.venture venture).table.cells
      (w.world.venture venture).spare []
  backed := h.backed
  supplied :=
    ⟨h.supplied.index, h.supplied.objects, h.supplied.visits, h.supplied.full, h.supplied.empty⟩

theorem Attended.step (h : w.Attended region entries) (visit : Visit) :
    (w.step visit).Attended region entries := by
  cases visit with
  | ask request => exact h.ask request
  | reach venture => exact h.reach venture

theorem Attended.run (h : w.Attended region entries) (visits : List Visit) :
    (w.run visits).Attended region entries := by
  induction visits generalizing w with
  | nil => exact h
  | cons visit rest ih => exact ih (h.step visit)

/-- An overlay that was drained is empty for good, and another transfer does nothing. -/
theorem Attended.permanent (h : w.Attended region entries)
    (hdrained : w.interner.overlay.drained = true) (visits : List Visit) :
    (w.run visits).Finished := by
  have hstays : (w.run visits).interner.overlay.drained = true := by
    induction visits generalizing w with
    | nil => exact hdrained
    | cons visit rest ih =>
      refine ih (h.step visit) ?_
      cases visit with
      | ask request =>
        by_cases htransfer : request = .transferOverlay
        · subst htransfer
          exact congrArg Overlay.drained w.interner.overlay_eq_drain
        · exact (congrArg Overlay.drained
            (w.workshop.session.sparesOverlay_step htransfer).overlay).trans hdrained
      | reach venture => exact hdrained
  have hempty := ((h.run visits).supplied.empty hstays).1
  exact ⟨Overlay.exhausted_of_drained hstays hempty,
    Interner.transferOverlay_of_drained hstays hempty⟩

/-- As long as the table is left to the interner and to tasks, the interner keeps what is
registered. -/
theorem minded_step (h : w.workshop.Minded region r) {visit : Visit}
    (hservice : visit.isService = true) :
    ∃ r', (w.step visit).workshop.Minded region r' := by
  cases visit with
  | ask request => exact ⟨_, h.ask request⟩
  | reach venture =>
    cases venture with
    | giveBack ref => cases hservice
    | move m =>
      cases m with
      | acquire o => cases hservice
      | offer o ref => cases hservice
      | act action =>
        have hcoherent := h.mirrors.keeps.table.coherent
        rw [show (r.map.without _).heap = w.interner.heap from h.mirrors.keeps.heap] at hcoherent
        have horderly : w.world.Orderly := h.orderly.congr _ w.interner.table.cells w.spare []
        have heff := horderly.step_task hservice
        exact ⟨r, h.putBack heff.aside.1 (heff.orderly horderly) (heff.sameObjects hcoherent)⟩

theorem minded_run (h : w.workshop.Minded region r) {visits : List Visit}
    (hservice : visits.all Visit.isService = true) :
    ∃ r', (w.run visits).workshop.Minded region r' := by
  induction visits generalizing w r with
  | nil => exact ⟨r, h⟩
  | cons visit rest ih =>
    rw [List.all_cons, Bool.and_eq_true] at hservice
    obtain ⟨r', h'⟩ := minded_step h hservice.1
    exact ih h' hservice.2

/-! ## The beginning -/

variable {settings : Settings} {image : Image} {cells : CellStore} {heap : Heap}
    {interner : Interner} {held : List ObjectId}

theorem supplied_fresh (settings : Settings) (image : Image) (cells : CellStore) (heap : Heap) :
    (Interner.fresh settings (some image) cells heap).Supplied
      (Overlay.regionOf heap image) image.entries.size where
  index := Overlay.indexed_ofImage heap image
  objects := fun _ ho => Overlay.mem_regionOf ho
  visits := Overlay.length_objects_ofImage image heap
  full := fun _ => ⟨rfl, rfl⟩
  empty := fun hdrained => nomatch hdrained

/-- The transfer at the start, if there must be one, is like any other. -/
theorem transferred_fresh (settings : Settings) (image : Image) (cells : CellStore) (heap : Heap) :
    (Interner.fresh settings (some image) cells heap).Transferred image.entries.size
      (Interner.fresh settings (some image) cells heap).transferOverlay.2 := by
  obtain ⟨hkeeps, -⟩ := Interner.keeps_fresh settings (some image) cells heap []
  have hsupplied := supplied_fresh settings image cells heap
  have htransferred :=
    Interner.transferred hkeeps.steady hkeeps.alive hsupplied.visits hkeeps.vacant
  rwa [Interner.fst_transferOverlay, (hsupplied.full rfl).1] at htransferred

theorem attended_start (hstart : Interner.start settings (some image) cells heap = .ok interner)
    (hheld : ∀ o, held.count o ≤ heap.refs o) :
    Attended (Overlay.regionOf heap image) image.entries.size
      { workshop := { session := { interner, held } } } := by
  have hminded := Workshop.minded_start hstart hheld
  have hbacked := (Registry.sound_start (some image) hheld).backed
  have hheap : (Overlay.ofImage heap image).2 = interner.heap := hminded.mirrors.keeps.heap
  refine ⟨hminded.orderly, ?_, ?_⟩
  · show ∀ o, held.count o + (Overlay.regionOf heap image).count o ≤ interner.heap.refs o
    rw [← hheap]
    exact hbacked
  · obtain ⟨-, heq⟩ := Interner.start_eq_ok_iff.1 hstart
    show interner.Supplied _ _
    rw [← heq]
    split
    · exact (supplied_fresh settings image cells heap).transferOverlay
    · exact supplied_fresh settings image cells heap

/-- What is true of the overlay of a snapshot whenever it may be drained. -/
structure DrainsOnce (image : Image) (w : OpenWorkshop) : Prop where
  full : w.interner.overlay.drained = false → w.interner.overlay.entryCount = image.entries.size
  transferred : w.interner.Vacant →
    w.interner.Transferred w.interner.transferOverlay.1 w.interner.transferOverlay.2
  /-- After a transfer the overlay is empty for good, whatever comes next. -/
  later : ∀ visits, ((w.step (.ask .transferOverlay)).run visits).Finished
  /-- So it is if it was drained before. -/
  permanent : w.interner.overlay.drained = true → ∀ visits, (w.run visits).Finished
  reported : w.interner.log.drained = [] ∨ w.interner.log.drained = [image.entries.size]

theorem Attended.drainsOnce (h : w.Attended region image.entries.size) : w.DrainsOnce image where
  full hdrained := (h.supplied.full hdrained).1
  transferred := Interner.transferred h.orderly.steady h.alive h.supplied.visits
  later := (h.step _).permanent (congrArg Overlay.drained w.interner.overlay_eq_drain)
  permanent := h.permanent
  reported := by
    cases hdrained : w.interner.overlay.drained with
    | false => exact .inl (h.supplied.full hdrained).2
    | true => exact (h.supplied.empty hdrained).2

/-- **An overlay is drained once.** In an interner that was started with any snapshot, whatever is
asked of it, and whatever its callers do to its table themselves, with tasks and with references of
their own: a transfer answers with the number of entries and leaves an empty overlay for good; each
content gets one slot, which leads to the object of its first entry; and all else is as before. That
needs a table that has none of the contents, which is so as long as callers leave it to the interner
and to tasks. A snapshot that must be transferred at once is transferred in the same way at the
start. -/
theorem overlay_drained_once
    (hstart : Interner.start settings (some image) cells heap = .ok interner)
    (hheld : ∀ o, held.count o ≤ heap.refs o) (visits : List Visit) :
    (run { workshop := { session := { interner, held } } } visits).DrainsOnce image ∧
      (visits.all Visit.isService = true →
        (run { workshop := { session := { interner, held } } } visits).interner.Vacant) ∧
      (image.entries ≠ #[] → image.backing = .loaded →
        (Interner.fresh settings (some image) cells heap).Transferred image.entries.size
          interner) := by
  refine ⟨((attended_start hstart hheld).run visits).drainsOnce, ?_, ?_⟩
  · intro hservice
    obtain ⟨r, hminded⟩ := minded_run (w := { workshop := { session := { interner, held } } })
      (Workshop.minded_start hstart hheld) hservice
    exact hminded.mirrors.keeps.vacant
  · intro hsome hloaded
    obtain ⟨-, heq⟩ := Interner.start_eq_ok_iff.1 hstart
    have hmust :
        (Interner.fresh settings (some image) cells heap).overlay.requiresTransfer = true := by
      rw [Interner.requiresTransfer_fresh, hloaded]
      simpa using hsome
    rw [if_pos hmust] at heq
    exact heq ▸ transferred_fresh settings image cells heap

/-- While the table grows, a slot that leads to one string is put where another belongs. -/
def clumsyVisits : List Visit :=
  [.ask (.intern "b"), .reach (.move (.act (.create .grow none))),
    .reach (.move (.act (.prepare 0))), .reach (.move (.act (.chunk 0))), .ask (.allocate "c"),
    .ask (.allocate "d"), .reach (.move (.acquire ⟨3⟩)), .reach (.move (.offer ⟨4⟩ ⟨2, ⟨3⟩⟩))]

/-- The interner that is started with two records of one string. -/
def doubled : OpenWorkshop where
  workshop.session.held := []
  workshop.session.interner :=
    Interner.fresh World.oneBucket (some Session.twice) Interner.ownCells {}

theorem overlay_drained_once_midway :
    Interner.start World.oneBucket (some Session.twice) Interner.ownCells {} =
      .ok doubled.interner ∧
      (doubled.run clumsyVisits).interner.table.successors.length = 1 ∧
      (doubled.run clumsyVisits).interner.sharedContents = 1 ∧
      (doubled.run clumsyVisits).interner.Transferred 2
        (doubled.run clumsyVisits).interner.transferOverlay.2 := by
  have hstart : Interner.start World.oneBucket (some Session.twice) Interner.ownCells {} =
    .ok doubled.interner := rfl
  have hheld : ∀ o, List.count o ([] : List ObjectId) ≤ Heap.refs {} o := fun _ => Nat.zero_le _
  have hvacant : (doubled.run clumsyVisits).interner.Vacant := by decide +kernel
  have htwo : (doubled.run clumsyVisits).interner.transferOverlay.1 = 2 := by decide +kernel
  have htransferred := (overlay_drained_once hstart hheld clumsyVisits).1.transferred hvacant
  exact ⟨hstart, by decide +kernel, by decide +kernel, htwo ▸ htransferred⟩

end OpenWorkshop

end WeakIntern
