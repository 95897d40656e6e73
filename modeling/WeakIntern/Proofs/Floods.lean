import Mathlib.Data.List.MinMax
import WeakIntern.Proofs.Chains
import WeakIntern.Proofs.Walks
/-!
# Floods of strings with one hash

Strings with one hash share a chain, whatever the size of the table, and there they stand in the
order in which they were linked. Hence of many strings that are interned, and that live, one is
found behind all others, and interning it raises the alarm (`Workshop.alarm_iff_overlong`), whatever
else is asked and done meanwhile.
-/

namespace WeakIntern

namespace Interner.Interned

variable {i : Interner} {s : String} {answer : ObjectId × Interner} {slot : Slot}

theorem answer_eq (h : i.Interned s answer slot) : slot.ref.referent = answer.1 := by
  cases h with
  | hit place hplace hslot hanswer hchain => exact hanswer
  | miss hplace hanswer hchain => exact hanswer

theorem mem_chain (h : i.Interned s answer slot) : slot ∈ answer.2.chain s := by
  cases h with
  | hit place hplace hslot hanswer hchain => exact hchain ▸ List.mem_of_getElem? hslot
  | miss hplace hanswer hchain =>
    exact hchain ▸ List.mem_append_right _ (List.mem_singleton_self slot)

end Interner.Interned

namespace Workshop

variable {region : List ObjectId} {limit : Nat} {w : Workshop} {s : String}

/-- A workshop whose interner heeds alarms, at a table whose chains are in order. -/
structure Watchful (region : List ObjectId) (limit : Nat) (w : Workshop) : Prop where
  minded : ∃ r, w.Minded region r
  attentive : w.session.interner.Attentive
  lined : (w.world []).Lined
  limit : w.session.interner.table.alarmLength = limit

/-- A later state of a workshop. -/
def Ahead (w w' : Workshop) : Prop :=
  Table.Ahead w.session.interner.heap w.session.interner.table w'.session.interner.heap
    w'.session.interner.table

theorem Watchful.step (h : w.Watchful region limit) (deed : Deed) :
    (w.step deed).Watchful region limit ∧ w.Ahead (w.step deed) := by
  obtain ⟨r, hminded⟩ := h.minded
  have hnext : ((w.step deed).world []).Lined ∧ w.Ahead (w.step deed) := by
    cases deed with
    | ask request => exact h.lined.errands (hminded.mirrors.errands request)
    | work action htask =>
      have heff := hminded.orderly.step_task htask
      obtain ⟨hheap, hspare, hpassed⟩ := heff.aside
      obtain ⟨hlined, hahead⟩ := h.lined.effect heff
      rw [Ahead, Workshop.step, putBack]
      generalize ((w.world []).step action).1 = next at *
      obtain ⟨heap, table, spare, passed, tasks⟩ := next
      dsimp only at hheap hspare hpassed
      subst hheap hspare hpassed
      exact ⟨hlined, hahead⟩
  refine ⟨⟨⟨_, hminded.run [deed]⟩, hminded.attentive_step h.attentive deed, hnext.1, ?_⟩, hnext.2⟩
  exact hnext.2.alarmLength.trans h.limit

theorem Watchful.run (h : w.Watchful region limit) (deeds : List Deed) :
    (w.run deeds).Watchful region limit ∧ w.Ahead (w.run deeds) := by
  induction deeds generalizing w with
  | nil => exact ⟨h, .refl _ _⟩
  | cons deed rest ih =>
    obtain ⟨hfirst, hahead⟩ := h.step deed
    obtain ⟨hrest, hahead'⟩ := ih hfirst
    exact ⟨hrest, hahead.trans hahead' hfirst.lined.lined.coherent⟩

theorem watchful_start {settings : Settings} {image : Option Image} {cells : CellStore}
    {heap : Heap} {interner : Interner} {held : List ObjectId}
    (hstart : Interner.start settings image cells heap = .ok interner)
    (hheld : ∀ o, held.count o ≤ heap.refs o) :
    Watchful (Registry.regionOf heap image) settings.alarmLength.toNat
      { session := { interner, held } } := by
  obtain ⟨heap', herrands⟩ := Interner.runs_start hstart
  have hfirst :=
    World.lined_start (Interner.start_eq_ok_iff.1 hstart).1 (cells.listen Interner.listener) heap'
  obtain ⟨hlined, hahead⟩ := hfirst.errands herrands
  exact ⟨⟨_, minded_start hstart hheld⟩, attentive_start hstart, hlined, hahead.alarmLength⟩

/-! ## Floods -/

/-- The states in which strings are interned, each after some deeds, with the strings. -/
def stops (w : Workshop) : List (List Deed × String) → List (Workshop × String)
  | [] => []
  | (deeds, s) :: rest => (w.run deeds, s) :: ((w.run deeds).step (.ask (.intern s))).stops rest

/-- The state after all of them. -/
def flooded (w : Workshop) : List (List Deed × String) → Workshop
  | [] => w
  | (deeds, s) :: rest => ((w.run deeds).step (.ask (.intern s))).flooded rest

/-- A state in which a string is interned under the first hash while no slots are being moved, and
is none of the overlay. -/
structure Plain (w : Workshop) (s : String) : Prop where
  epoch : w.session.interner.table.epoch = .default
  still : ∀ task ∈ w.tasks, task.isMoving = false
  shared : w.session.interner.lookupShared? s = none

theorem Watchful.watches (h : w.Watchful region limit)
    (hstill : ∀ task ∈ w.tasks, task.isMoving = false)
    (hshared : w.session.interner.lookupShared? s = none) : w.session.interner.Watches limit s := by
  obtain ⟨r, hminded⟩ := h.minded
  exact h.limit ▸ h.attentive.watches hminded.mirrors.keeps (hminded.orderly.still hstill) hshared

theorem Watchful.flooded (h : w.Watchful region limit) (blocks : List (List Deed × String)) :
    (w.flooded blocks).Watchful region limit ∧ w.Ahead (w.flooded blocks) ∧
      ∀ stop ∈ w.stops blocks, stop.1.Watchful region limit ∧
        (stop.1.step (.ask (.intern stop.2))).Ahead (w.flooded blocks) := by
  induction blocks generalizing w with
  | nil => exact ⟨h, .refl _ _, fun _ hstop => nomatch hstop⟩
  | cons block rest ih =>
    obtain ⟨deeds, s⟩ := block
    obtain ⟨hrun, hahead⟩ := h.run deeds
    obtain ⟨hstep, hahead'⟩ := hrun.step (.ask (.intern s))
    obtain ⟨hend, hahead'', hstops⟩ := ih hstep
    have hcoherent := hstep.lined.lined.coherent
    refine ⟨hend, (hahead.trans hahead' hrun.lined.lined.coherent).trans hahead'' hcoherent, ?_⟩
    rintro stop hstop
    rcases List.mem_cons.1 hstop with rfl | hstop
    · exact ⟨hrun, hahead''⟩
    · exact hstops stop hstop

theorem map_snd_stops (w : Workshop) (blocks : List (List Deed × String)) :
    (w.stops blocks).map Prod.snd = blocks.map Prod.snd := by
  induction blocks generalizing w with
  | nil => rfl
  | cons block rest ih => exact congrArg (block.2 :: ·) (ih _)

/-- The slot of a string that was interned, and that is alive in the end. -/
structure Stays (w : Workshop) (s : String) (final : Workshop) (slot : Slot) : Prop where
  interned : w.session.interner.Interned s (w.session.interner.intern s) slot
  live : final.session.interner.heap.isLive slot.ref.referent = true
  content : final.session.interner.heap.content slot.ref.referent = s
  carries : final.session.interner.table.Carries slot.ref

theorem Minded.content_intern {r : Registry} (h : w.Minded region r) (s : String) :
    (w.session.interner.intern s).2.heap.Knows (w.session.interner.intern s).1 ∧
      (w.session.interner.intern s).2.heap.content (w.session.interner.intern s).1 = s := by
  obtain ⟨hanswer, hmirrors⟩ := h.mirrors.step (.intern s)
  obtain ⟨o, hgiven, hentry, -⟩ := r.step_intern s
  obtain rfl : (w.session.interner.intern s).1 = o := Option.some.inj (hanswer.trans hgiven)
  rw [show (w.session.interner.intern s).2.heap = _ from hmirrors.heap]
  obtain ⟨hlive, hcontent⟩ := hmirrors.sound.live s _ hentry
  exact ⟨Heap.knows_of_isLive hlive, hcontent⟩

theorem Watchful.stays (h : w.Watchful region limit) (hplain : w.Plain s) {final : Workshop}
    (hahead : (w.step (.ask (.intern s))).Ahead final)
    (hlive : final.session.interner.heap.isLive (w.session.interner.intern s).1 = true) :
    ∃ slot, w.Stays s final slot := by
  obtain ⟨r, hminded⟩ := h.minded
  obtain ⟨slot, hinterned⟩ := (h.watches hplain.still hplain.shared).interned
  obtain ⟨hknows, hcontent⟩ := hminded.content_intern s
  have hlined := (h.step (.ask (.intern s))).1.lined.lined
  have hmem := hinterned.mem_chain
  have hcarries : (w.session.interner.intern s).2.table.Carries slot.ref :=
    ⟨_, List.mem_cons_self, _, slot, hmem, rfl⟩
  rw [← hinterned.answer_eq] at hknows hcontent hlive
  -- The object is held from then on, and never under another reference.
  have hlive' := hahead.later.live _ hknows hlive
  obtain ⟨a, ha, -, i, slot', hslot', href⟩ := hahead.holds _ (hcarries.holds hlive') hlive
  have hcarries' : final.session.interner.table.Carries slot'.ref := ⟨a, ha, i, slot', hslot', rfl⟩
  have hsame : slot'.ref = slot.ref := by
    rcases hahead.carries _ hcarries' (href ▸ hlive) with hbefore | ⟨-, hnot⟩
    · exact hlined.single _ _ hbefore hcarries (href ▸ hlive') href
    · exact absurd (href ▸ hcarries.holds hlive') hnot
  exact ⟨slot, hinterned, hlive, (hahead.later.content _ hknows).trans hcontent, hsame ▸ hcarries'⟩

/-- A slot with an earlier cell that stays is in the chain already, if its string has the same
hash. -/
theorem Watchful.mem_chain (h : w.Watchful region limit) (hplain : w.Plain s) {final : Workshop}
    (hahead : (w.step (.ask (.intern s))).Ahead final) {slot : Slot} (hstays : w.Stays s final slot)
    {r : WeakRef} (hr : final.session.interner.table.Carries r)
    (hlive : final.session.interner.heap.isLive r.referent = true)
    (hhash : unitHash (final.session.interner.heap.content r.referent) = unitHash s)
    (hid : r.id ≤ slot.ref.id) :
    r ∈ ((w.session.interner.intern s).2.chain s).map Slot.ref := by
  have hnext := (h.step (.ask (.intern s))).1
  have hlined := hnext.lined.lined
  have hslot : (w.session.interner.intern s).2.table.Carries slot.ref :=
    ⟨_, List.mem_cons_self, _, slot, hstays.interned.mem_chain, rfl⟩
  have hcarries : (w.session.interner.intern s).2.table.Carries r := by
    rcases hahead.carries r hr hlive with hbefore | ⟨hlt, -⟩
    · exact hbefore
    · exact absurd (Nat.lt_of_lt_of_le hlt (Nat.le_trans hid (hlined.issued _ hslot).id_le))
        (Nat.lt_irrefl _)
  have hstill : (w.session.interner.intern s).2.table.Still :=
    hnext.lined.orderly.still hplain.still
  have hepoch : (w.session.interner.intern s).2.table.active.epoch = .default :=
    (congrArg Layout.epoch (@Session.quiet_step w.session (.intern s) rfl).layout).trans
      hplain.epoch
  obtain ⟨a, ha, i, slot', hslot', rfl⟩ := hcarries
  rw [hstill.alone, List.mem_singleton] at ha
  subst ha
  have hwell : BucketArray.WellPlaced (w.session.interner.intern s).2.heap
      (w.session.interner.intern s).2.table.active i
      slot' := hlined.coherent.placed _ List.mem_cons_self i slot' hslot'
  have hcontent : final.session.interner.heap.content slot'.ref.referent =
      (w.session.interner.intern s).2.heap.content slot'.ref.referent :=
        hahead.later.content _ hwell.knows
  rw [hcontent] at hhash
  have hplace : (w.session.interner.intern s).2.table.active.home s = i := by
    rw [← hwell.place, BucketArray.home, BucketArray.home, hepoch]
    exact congrArg _ hhash.symm
  exact List.mem_map_of_mem (show slot' ∈ BucketArray.slotsAt _ _ from hplace ▸ hslot')

/-- More strings than a limit are interned, with different contents and one hash, and all objects
are alive in the end. -/
structure Floods (w : Workshop) (limit : Nat) (blocks : List (List Deed × String)) : Prop where
  many : limit < blocks.length
  nodup : (blocks.map Prod.snd).Nodup
  hash : ∀ s ∈ blocks.map Prod.snd, ∀ s' ∈ blocks.map Prod.snd, unitHash s = unitHash s'
  plain : ∀ stop ∈ w.stops blocks, stop.1.Plain stop.2
  alive : ∀ stop ∈ w.stops blocks,
    (w.flooded blocks).session.interner.heap.isLive (stop.1.session.interner.intern stop.2).1 = true

/-- **Of many strings with one hash that stay**, one is too far behind in its chain when it is
interned. -/
theorem Watchful.flood (h : w.Watchful region limit) {blocks : List (List Deed × String)}
    (hfloods : w.Floods limit blocks) :
    ∃ stop ∈ w.stops blocks, limit < (stop.1.session.interner.position? stop.2).getD
      ((stop.1.session.interner.chain stop.2).length + 1) := by
  obtain ⟨hmany, hnodup, hhash, hplain, halive⟩ := hfloods
  obtain ⟨hfinal, -, hstops⟩ := h.flooded blocks
  have hstays : ∀ stop ∈ w.stops blocks, ∃ slot, stop.1.Stays stop.2 (w.flooded blocks) slot :=
    fun stop hstop =>
      (hstops stop hstop).1.stays (hplain stop hstop) (hstops stop hstop).2 (halive stop hstop)
  choose! slot hslot using hstays
  have hsnd := w.map_snd_stops blocks
  -- The string whose slot has the last cell of all is behind all others in their chain.
  obtain ⟨stop, hstop, hlast⟩ : ∃ stop ∈ w.stops blocks, ∀ other ∈ w.stops blocks,
      (slot other).ref.id ≤ (slot stop).ref.id := by
    cases hmax : (w.stops blocks).argmax fun stop => (slot stop).ref.id with
    | none =>
      rw [List.argmax_eq_none.1 hmax] at hsnd
      rw [List.map_eq_nil_iff.1 hsnd.symm] at hmany
      exact absurd hmany (Nat.not_lt_zero _)
    | some stop =>
      exact ⟨stop, List.argmax_mem hmax, fun other hother =>
        List.le_of_mem_argmax (f := fun stop => (slot stop).ref.id) hother hmax⟩
  refine ⟨stop, hstop, ?_⟩
  have hcontents : ((w.stops blocks).map fun stop => (slot stop).ref).map
      (fun r => (w.flooded blocks).session.interner.heap.content r.referent) =
        blocks.map Prod.snd := by
    rw [List.map_map, ← hsnd]
    exact List.map_congr_left fun other hother => (hslot other hother).content
  have hrefs : ((w.stops blocks).map fun stop => (slot stop).ref).Nodup :=
    .of_map _ (hcontents ▸ hnodup)
  have hlength : ((w.stops blocks).map fun stop => (slot stop).ref).length = blocks.length := by
    simpa using congrArg List.length hcontents
  have hmem : ∀ r ∈ (w.stops blocks).map fun stop => (slot stop).ref,
      r ∈ ((stop.1.session.interner.intern stop.2).2.chain stop.2).map Slot.ref ∧
        (r ≠ (slot stop).ref → r.id < (slot stop).ref.id) := by
    intro r hr
    obtain ⟨other, hother, rfl⟩ := List.mem_map.1 hr
    have hissued := hfinal.lined.lined.issued
    obtain ⟨hat, hahead⟩ := hstops stop hstop
    refine ⟨hat.mem_chain (hplain stop hstop) hahead (hslot stop hstop) (hslot other hother).carries
      (hslot other hother).live ?_ (hlast other hother),
        fun hne => Nat.lt_of_le_of_ne (hlast other hother) fun hid => hne ?_⟩
    · rw [(hslot other hother).content]
      exact hhash _ (hsnd ▸ List.mem_map_of_mem hother) _ (hsnd ▸ List.mem_map_of_mem hstop)
    · exact (hissued _ (hslot other hother).carries).eq_of_id
        (hissued _ (hslot stop hstop).carries) hid
  cases (hslot stop hstop).interned with
  | miss hplace hanswer hchain =>
    have hle := (hrefs.subperm fun r hr => (hmem r hr).1).length_le
    rw [hlength, hchain, List.length_map, List.length_append, List.length_singleton] at hle
    rw [hplace]
    exact Nat.lt_of_lt_of_le hmany hle
  | hit place hplace hplaced hanswer hchain =>
    have hin :=
      (hstops stop hstop).1.lined.lined.inTurn _ List.mem_cons_self (hplain stop hstop).epoch
      (stop.1.session.interner.table.active.home stop.2)
    obtain ⟨hlt, hget⟩ := List.getElem?_eq_some_iff.1 hplaced
    have hsplit : (stop.1.session.interner.chain stop.2).map Slot.ref =
        ((stop.1.session.interner.chain stop.2).take place).map Slot.ref ++
          (slot stop).ref ::
          ((stop.1.session.interner.chain stop.2).drop (place + 1)).map Slot.ref := by
      rw [← hget, ← List.map_cons, ← List.drop_eq_getElem_cons hlt, ← List.map_append,
        List.take_append_drop]
    have hle := InTurn.length_le (hsplit ▸ hin) hrefs (hsplit ▸ hchain ▸ hmem)
    rw [hlength, List.length_map, List.length_take] at hle
    rw [hplace, Option.getD_some]
    omega

/-- **The alarm is raised just by walks that are too long.** An interner is started with any
settings that it accepts and any snapshot. Whatever is asked of it, and whatever its callers do with
tasks of their own, a lookup or an interning of a content that the overlay does not answer for
raises the alarm just if it visits or links a slot beyond the limit, as long as no slots are being
moved. So it is raised at the latest by the last of more strings than the limit with one hash, if
all of them stay, and the table is under its first hash whenever one is interned. -/
theorem alarm_iff_overlong {settings : Settings} {image : Option Image} {cells : CellStore}
    {heap : Heap} {interner : Interner} {held : List ObjectId}
    (hstart : Interner.start settings image cells heap = .ok interner)
    (hheld : ∀ o, held.count o ≤ heap.refs o) (deeds : List Deed) :
    let w := run { session := { interner, held } } deeds
    let limit := settings.alarmLength.toNat
    ((∀ task ∈ w.tasks, task.isMoving = false) → ∀ s, w.session.interner.lookupShared? s = none →
        w.session.interner.Watches limit s) ∧
      ∀ blocks, w.Floods limit blocks → ∃ stop ∈ w.stops blocks,
        limit < (stop.1.session.interner.position? stop.2).getD
          ((stop.1.session.interner.chain stop.2).length + 1) ∧
          (stop.1.session.interner.intern stop.2).2.maintenance.needsRehash = true := by
  intro w limit
  have hwatchful := ((watchful_start hstart hheld).run deeds).1
  refine ⟨fun hstill s hshared => hwatchful.watches hstill hshared, fun blocks hfloods => ?_⟩
  obtain ⟨stop, hstop, hlong⟩ := hwatchful.flood hfloods
  have hplain := hfloods.plain stop hstop
  have hwatches := ((hwatchful.flooded blocks).2.2 stop hstop).1.watches hplain.still hplain.shared
  exact ⟨stop, hstop, hlong, hwatches.intern.needsRehash.2 (.inr hlong)⟩

/-- Three strings with one hash, behind a dead one that is reaped when the table grows. -/
def collidingBlocks : List (List Deed × String) :=
  [([.ask (.intern "AaAa"), .ask (.drop ⟨0⟩)], "AaBB"),
    ([.work (.create .grow none) (.refl true), .work (.prepare 0) (.refl true),
      .work (.chunk 0) (.refl true), .work (.commit 0) (.refl true)], "BBAa"),
      ([.ask (.intern "a")], "BBBB")]

theorem alarm_iff_overlong_of_collisions :
    Interner.start { initialSize := 2, maxLog2 := 4, alarmLength := 2 } none Interner.ownCells {} =
        .ok touchy.session.interner ∧
      touchy.Floods 2 collidingBlocks ∧
      (∃ stop ∈ touchy.stops collidingBlocks,
        2 < (stop.1.session.interner.position? stop.2).getD
          ((stop.1.session.interner.chain stop.2).length + 1) ∧
          (stop.1.session.interner.intern stop.2).2.maintenance.needsRehash = true) ∧
      (touchy.flooded collidingBlocks).session.interner.position? "BBBB" = some 3 ∧
      (touchy.flooded collidingBlocks).session.interner.log.events.size = 1 := by
  have hstart :
    Interner.start { initialSize := 2, maxLog2 := 4, alarmLength := 2 } none Interner.ownCells {} =
    .ok touchy.session.interner := rfl
  have hheld : ∀ o, List.count o ([] : List ObjectId) ≤ Heap.refs {} o := fun _ => Nat.zero_le _
  have hepoch : ∀ stop ∈ touchy.stops collidingBlocks,
      stop.1.session.interner.table.epoch = .default := by
    decide +kernel
  have hstill : ∀ stop ∈ touchy.stops collidingBlocks, ∀ task ∈ stop.1.tasks,
      task.isMoving = false := by
    decide +kernel
  have hshared : ∀ stop ∈ touchy.stops collidingBlocks,
      stop.1.session.interner.lookupShared? stop.2 = none := by
    decide +kernel
  have hfloods : touchy.Floods 2 collidingBlocks :=
    ⟨by decide, by decide, by decide, fun stop hstop =>
      ⟨hepoch stop hstop, hstill stop hstop, hshared stop hstop⟩, by decide +kernel⟩
  exact ⟨hstart, hfloods, (alarm_iff_overlong hstart hheld []).2 collidingBlocks hfloods,
    by decide +kernel, by decide +kernel⟩

end Workshop

end WeakIntern
