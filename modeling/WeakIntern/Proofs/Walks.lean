import WeakIntern.Proofs.Flags
/-!
# Long walks

A lookup walks the chain of its content up to the slot that leads to the string, or to the end. An
insert that finds no string links a slot behind the last one. If the walk, or the chain with the new
slot, is longer than the limit of the table, the alarm is raised. What an interner makes of it is
the same for a lookup and for an interning, in which two walks may raise the alarm
(`Interner.Watches`).
-/

namespace WeakIntern

/-! ## Walks -/

/-- Does the slot lead to a live string with this content? -/
def Slot.leadsTo (heap : Heap) (s : String) (slot : Slot) : Bool :=
  heap.isLive slot.ref.referent && heap.content slot.ref.referent == s

theorem Slot.leadsTo_iff {heap : Heap} {s : String} {slot : Slot} :
    slot.leadsTo heap s = true ↔ heap.isLive slot.ref.referent = true ∧
      heap.content slot.ref.referent = s := by
  rw [leadsTo, Bool.and_eq_true, beq_iff_eq]

/-- A walk ends at the first slot that leads to what it is after, or has visited all. -/
theorem walkChain_eq {heap : Heap} {hash : UInt32} {key : LookupKey} {slots : List Slot}
    (h : ∀ slot ∈ slots, slot.leadsTo heap (key.content heap) = true → slot.hash = hash) :
    walkChain heap hash key slots =
      ((slots.find? (Slot.leadsTo heap (key.content heap))).map fun slot => slot.ref.referent,
        ((slots.findIdx? (Slot.leadsTo heap (key.content heap))).map (· + 1)).getD
          slots.length) := by
  induction slots with
  | nil => rfl
  | cons slot rest ih =>
    obtain ⟨hslot, hrest⟩ := List.forall_mem_cons.1 h
    rw [walkChain, List.find?_cons, List.findIdx?_cons]
    cases hleads : slot.leadsTo heap (key.content heap) with
    | true =>
      obtain ⟨hlive, hcontent⟩ := Slot.leadsTo_iff.1 hleads
      rw [Slot.answer?_eq_some_iff.2 ⟨hslot hleads, rfl, hlive, hcontent⟩]
      rfl
    | false =>
      have hnone : slot.answer? heap hash key = none := by
        rw [Option.eq_none_iff_forall_not_mem]
        intro o ho
        obtain ⟨-, rfl, hlive, hcontent⟩ := Slot.answer?_eq_some_iff.1 ho
        rw [Slot.leadsTo_iff.2 ⟨hlive, hcontent⟩] at hleads
        cases hleads
      rw [hnone, ih hrest]
      cases rest.findIdx? (Slot.leadsTo heap (key.content heap)) <;> rfl

namespace BucketArray

variable {a : BucketArray} {heap : Heap} {key : LookupKey} {o : ObjectId} {s : String}

/-- The chain of a content. -/
def chain (a : BucketArray) (s : String) : List Slot := a.slotsAt (a.home s)

/-- The place of the string with a content in its chain, counted from one. -/
def position? (a : BucketArray) (heap : Heap) (s : String) : Option Nat :=
  ((a.chain s).findIdx? (Slot.leadsTo heap s)).map (· + 1)

theorem Placed.walkChain_eq (h : a.Placed heap) (key : LookupKey) :
    walkChain heap (a.epoch.hash (key.content heap)) key (a.chain (key.content heap)) =
      (((a.chain (key.content heap)).find? (Slot.leadsTo heap (key.content heap))).map fun slot =>
        slot.ref.referent, (a.position? heap (key.content heap)).getD
          (a.chain (key.content heap)).length) := by
  refine WeakIntern.walkChain_eq fun slot hslot hleads => ?_
  rw [(h _ slot hslot).hash, (Slot.leadsTo_iff.1 hleads).2]

theorem Placed.find?_eq (h : a.Placed heap) (key : LookupKey) : a.find? heap key =
    ((a.chain (key.content heap)).find? (Slot.leadsTo heap (key.content heap))).map fun slot =>
      slot.ref.referent :=
  congrArg Prod.fst (h.walkChain_eq key)

/-- A string that has no place in a chain does not get one while it is not linked. -/
theorem Placed.position?_later {heap' : Heap} (h : a.Placed heap) (hlater : Heap.Later heap heap')
    (hnone : a.position? heap s = none) : a.position? heap' s = none := by
  rw [position?, Option.map_eq_none_iff, List.findIdx?_eq_none_iff] at hnone ⊢
  intro slot hslot
  have hknows := (h _ slot hslot).knows
  rw [← Bool.not_eq_true, Slot.leadsTo_iff]
  rintro ⟨hlive, hcontent⟩
  rw [hlater.content _ hknows] at hcontent
  have hleads := Slot.leadsTo_iff.2 ⟨hlater.live _ hknows hlive, hcontent⟩
  rw [hnone slot hslot] at hleads
  cases hleads

theorem chain_append_slotFor (hsized : a.Sized) (ref : WeakRef) :
    (a.append (a.slotFor heap o ref)).chain (heap.content o) =
      a.chain (heap.content o) ++ [a.slotFor heap o ref] := by
  have hhome : (a.append (a.slotFor heap o ref)).home = a.home := Table.home_append a _
  have hplace : a.placeOf (a.slotFor heap o ref).hash = a.home (heap.content o) := rfl
  rw [chain, hhome, slotsAt_append hsized.pos, if_pos hplace]
  rfl

/-- Where nothing is found, no slot has a place. -/
theorem Placed.position?_eq_none_iff (h : a.Placed heap) (key : LookupKey) :
    a.position? heap (key.content heap) = none ↔ a.find? heap key = none := by
  rw [h.find?_eq, position?, Option.map_eq_none_iff, Option.map_eq_none_iff,
    List.findIdx?_eq_none_iff, List.find?_eq_none]
  simp only [Bool.not_eq_true]

end BucketArray

/-! ## Alarms -/

namespace Table

variable {t : Table} {heap : Heap} {o : ObjectId} {ref : WeakRef}

/-- A lookup raises the alarm by the slots that it visits. -/
theorem alarm_get? (h : t.Still) (hplaced : t.active.Placed heap) (key : LookupKey) :
    (t.get? heap key).alarm =
      decide (t.alarmLength <
        (t.active.position? heap (key.content heap)).getD
          (t.active.chain (key.content heap)).length) := by
  have hmark :
    (t.active.bucketAt (t.active.placeOf (t.active.epoch.hash (key.content heap)))).redirected =
      false :=
    h.unmoved _
  have hvisited := congrArg Prod.snd (hplaced.walkChain_eq key)
  rw [get?, h.alone]
  simp only [searchArrays, hmark, Bool.not_false, Bool.or_true, if_true]
  exact congrArg (fun visited => decide (t.alarmLength < visited)) hvisited

/-- An insert raises the alarm by the slots that it visits, and by the slot that it links. -/
theorem alarm_insertIfAbsent (h : t.Still) (hplaced : t.active.Placed heap) (o : ObjectId)
    (ref : WeakRef) :
    (t.insertIfAbsent heap o ref).1.alarm = decide (t.alarmLength <
      (t.active.position? heap (heap.content o)).getD
        ((t.active.chain (heap.content o)).length + 1)) := by
  have hmark :
    (t.active.bucketAt (t.active.placeOf (t.active.epoch.hash (heap.content o)))).redirected =
      false :=
    h.unmoved _
  have hwalk : walkChain heap (t.active.epoch.hash (heap.content o)) (.object o)
      (t.active.bucketAt (t.active.placeOf (t.active.epoch.hash (heap.content o)))).slots =
        (_, (t.active.position? heap (heap.content o)).getD
          (t.active.chain (heap.content o)).length) :=
    hplaced.walkChain_eq (.object o)
  have hnone : t.active.position? heap (heap.content o) = none ↔ _ :=
    hplaced.position?_eq_none_iff (.object o)
  rw [hplaced.find?_eq] at hnone
  simp only [LookupKey.content] at hwalk hnone
  have halarm : (t.insertIfAbsent heap o ref).1.alarm =
      (land heap t.alarmLength o 0 (t.active :: t.successors)).alarm := by
    rw [insertIfAbsent]
    cases (land heap t.alarmLength o 0 (t.active :: t.successors)).value <;> rfl
  rw [halarm]
  simp only [land, hmark, Bool.false_eq_true, if_false, hwalk]
  cases hfound : (t.active.chain (heap.content o)).find? (Slot.leadsTo heap (heap.content o)) with
  | none =>
    rw [hfound] at hnone
    rw [hnone.2 rfl]
    rfl
  | some slot =>
    obtain ⟨place, hplace⟩ : ∃ place, t.active.position? heap (heap.content o) = some place := by
      rw [← Option.ne_none_iff_exists', ne_eq, hnone, hfound]
      exact Option.some_ne_none _
    rw [hplace]
    rfl

end Table

namespace Maintenance

/-- What is made of an alarm, raised or not, at a table of some size. -/
structure Raised (m : Maintenance) (size : Nat) (alarm : Prop) (m' : Maintenance) : Prop where
  needsRehash : m'.needsRehash = true ↔ m.needsRehash = true ∨ alarm
  /-- The first alarm since the last answer is recorded, once, and asks for work; -/
  recorded : alarm → m.needsRehash = false →
    m'.log.events.toList = m.log.events.toList ++ [.rehashRequested size] ∧ m'.hasWork = true ∧
    m'.wakePending = true
  /-- nothing else has an effect. -/
  unchanged : ¬ alarm ∨ m.needsRehash = true → m' = m

variable {m : Maintenance}

theorem Alert.raised (h : m.Alert) (t : Table) (alarm : Bool) :
    m.Raised t.size (alarm = true) (m.raiseAlarm t alarm) := by
  have hevents := EventLog.events_record m.log (.rehashRequested t.size)
  rw [if_pos (h.records _)] at hevents
  rw [Maintenance.raiseAlarm]
  split
  · next hfirst =>
    rw [Bool.and_eq_true, Bool.not_eq_true'] at hfirst
    obtain ⟨halarm, hneeds⟩ := hfirst
    exact ⟨⟨fun _ => .inr halarm, fun _ => rfl⟩, fun _ _ => ⟨hevents, rfl, rfl⟩,
      by simp [halarm, hneeds]⟩
  · next hother =>
    rw [Bool.and_eq_true, Bool.not_eq_true', not_and, Bool.not_eq_false] at hother
    refine ⟨⟨.inl, Or.rec id hother⟩, fun halarm hneeds => ?_, fun _ => rfl⟩
    rw [hother halarm] at hneeds
    cases hneeds

/-- If a walk raises the alarm, and the one after it as well, that is one alarm. -/
theorem raiseAlarm_twice {t t' : Table} (hsize : t'.size = t.size) {first second : Bool}
    (h : first = true → second = true) (m : Maintenance) :
    (m.raiseAlarm t first).raiseAlarm t' second = m.raiseAlarm t second := by
  cases first with
  | false =>
    simp only [raiseAlarm, Bool.false_and, Bool.false_eq_true, if_false, hsize]
  | true =>
    rw [h rfl]
    cases hneeds : m.needsRehash <;> simp [raiseAlarm, hneeds, trigger, record]

end Maintenance

namespace Interner

variable {i i' : Interner} {m : WeakMap} {o : ObjectId} {s : String}

/-- The chain that a content belongs to, with its dead slots. -/
def chain (i : Interner) (s : String) : List Slot := i.table.active.chain s

/-- The place of the live slot with a content in that chain, counted from one. -/
def position? (i : Interner) (s : String) : Option Nat := i.table.active.position? i.heap s

/-- An interning of a content that found a slot, or linked one. -/
inductive Interned (i : Interner) (s : String) (answer : ObjectId × Interner)
    (slot : Slot) : Prop where
  | hit (place : Nat) (hplace : i.position? s = some (place + 1))
      (hslot : (i.chain s)[place]? = some slot)
      (hanswer : slot.ref.referent = answer.1) (hchain : answer.2.chain s = i.chain s)
  | miss (hplace : i.position? s = none) (hanswer : slot.ref.referent = answer.1)
      (hchain : answer.2.chain s = i.chain s ++ [slot])

theorem probe_eq (hstill : i.table.Still) (hplaced : i.table.active.Placed i.heap) {key : LookupKey}
    (hkey : key.content i.heap = s) :
    i.probe key = (((i.chain s).find? (Slot.leadsTo i.heap s)).map fun slot => slot.ref.referent,
      i.raiseAlarm (decide (i.table.alarmLength < (i.position? s).getD (i.chain s).length))) := by
  subst hkey
  rw [probe, Table.get?_still hstill, hplaced.find?_eq, Table.alarm_get? hstill hplaced]
  rfl

/-- The place of a slot that was found. -/
theorem position?_of_find? {slot : Slot}
    (h : (i.chain s).find? (Slot.leadsTo i.heap s) = some slot) :
    ∃ place, i.position? s = some (place + 1) ∧ (i.chain s)[place]? = some slot := by
  rw [List.find?_eq_bind_findIdx?_getElem?, Option.bind_eq_some_iff] at h
  obtain ⟨place, hplace, hslot⟩ := h
  exact ⟨place, congrArg (Option.map (· + 1)) hplace, hslot⟩

theorem position?_of_find?_eq_none (h : (i.chain s).find? (Slot.leadsTo i.heap s) = none) :
    i.position? s = none := by
  rw [position?, BucketArray.position?, Option.map_eq_none_iff, List.findIdx?_eq_none_iff]
  intro slot hslot
  exact Bool.eq_false_iff.2 (List.find?_eq_none.1 h slot hslot)

/-- **An object that is linked** for a content that nobody stands for is the last in its chain. -/
theorem link_of_miss (hstill : i.table.Still) (hsized : i.table.active.Sized)
    (hplaced : i.table.active.Placed i.heap) (hcontent : i.heap.content o = s)
    (hnone : i.position? s = none) :
    (∃ slot, slot.ref.referent = (i.link o).1 ∧ (i.link o).2.chain s = i.chain s ++ [slot]) ∧
      (i.link o).2.table.size = i.table.size ∧
        (i.link o).2.maintenance = i.maintenance.raiseAlarm (i.link o).2.table
        (decide (i.table.alarmLength < (i.chain s).length + 1)) := by
  have hacquired : (i.table.acquire o).2.Still := ⟨hstill.alone, hstill.unmoved⟩
  have halarm := Table.alarm_insertIfAbsent hacquired hplaced o (i.table.acquire o).1
  have hins := Table.insertIfAbsent_inserted (.still hacquired) i.heap o (i.table.acquire o).1
  have hlinked : (i.link o).2.maintenance = i.maintenance.raiseAlarm (i.link o).2.table
      ((i.table.acquire o).2.insertIfAbsent i.heap o (i.table.acquire o).1).1.alarm := rfl
  have hmiss : i.table.active.find? i.heap (.object o) = none :=
    (hplaced.position?_eq_none_iff (.object o)).1 (by rw [LookupKey.content, hcontent]; exact hnone)
  rw [hcontent] at halarm
  rw [halarm, show (i.table.acquire o).2.active.position? i.heap s = none from hnone] at hlinked
  refine ⟨?_, hins.sameFrame.size, hlinked⟩
  simp only [link]
  generalize (i.table.acquire o).2.insertIfAbsent i.heap o (i.table.acquire o).1 = result at hins ⊢
  obtain ⟨⟨placement, alarm⟩, t'⟩ := result
  dsimp only at hins ⊢
  cases hins with
  | existing p notices b hmem hfind =>
    rw [show (i.table.acquire o).2.successors = [] from hstill.alone] at hmem
    rw [List.mem_singleton.1 hmem, show (i.table.acquire o).2.active.find? i.heap (.object o) =
      none from hmiss] at hfind
    cases hfind
  | active hmark hfind =>
    exact ⟨_, rfl, hcontent ▸ BucketArray.chain_append_slotFor hsized _⟩
  | next target moving hmark hfind =>
    rw [show (i.table.acquire o).2.active.isMoved _ = false from hstill.unmoved _] at hmark
    cases hmark

/-- What a limit on the length of walks means for those who ask for a content. -/
structure Watches (i : Interner) (limit : Nat) (s : String) : Prop where
  /-- A lookup visits the slots up to the one that it finds, or all. -/
  lookup : i.maintenance.Raised i.table.size (limit < (i.position? s).getD (i.chain s).length)
    (i.lookup? s).2.maintenance
  /-- An interning that finds none links one more. -/
  intern : i.maintenance.Raised i.table.size (limit < (i.position? s).getD ((i.chain s).length + 1))
    (i.intern s).2.maintenance
  interned : ∃ slot, i.Interned s (i.intern s) slot
  internObject : ∀ o, i.heap.isLive o = true → i.heap.content o = s →
    i.maintenance.Raised i.table.size (limit < (i.position? s).getD ((i.chain s).length + 1))
        (i.internObject o).2.maintenance ∧
      ∃ slot, i.Interned s (i.internObject o) slot

/-- **Two walks**, one that finds nothing and one after which an object is linked, raise one
alarm. -/
theorem Attentive.raised_of_miss {j : Interner} (h : i.Attentive) (hsized : i.table.active.Sized)
    (hstill : i.table.Still) (hplaced : i.table.active.Placed i.heap) (hnone : i.position? s = none)
    (htable : j.table = i.table)
    (hprobed : j.maintenance = i.maintenance.raiseAlarm i.table
      (decide (i.table.alarmLength < (i.chain s).length)))
    (hlater : Heap.Later i.heap j.heap) (hcontent : j.heap.content o = s) :
    i.maintenance.Raised i.table.size (i.table.alarmLength < (i.chain s).length + 1)
    (j.link o).2.maintenance ∧
      ∃ slot, slot.ref.referent = (j.link o).1 ∧ (j.link o).2.chain s = i.chain s ++ [slot] := by
  have hchain : j.chain s = i.chain s := by rw [chain, chain, htable]
  obtain ⟨hlinked, hsize, hmaintenance⟩ := link_of_miss (i := j) (htable ▸ hstill) (htable ▸ hsized)
    (by rw [htable]; exact fun k slot hslot => (hplaced k slot hslot).later hlater) hcontent
    (by rw [position?, htable]; exact hplaced.position?_later hlater hnone)
  rw [htable] at hsize hmaintenance
  rw [hchain] at hlinked hmaintenance
  have hraised := h.alert.raised i.table (decide (i.table.alarmLength < (i.chain s).length + 1))
  rw [decide_eq_true_eq] at hraised
  refine ⟨?_, hlinked⟩
  rw [hmaintenance, hprobed,
    Maintenance.raiseAlarm_twice hsize (by simp only [decide_eq_true_eq]; omega)]
  exact hraised

theorem Attentive.watches (h : i.Attentive) (hkeeps : i.Keeps m) (hstill : i.table.Still)
    (hnone : i.lookupShared? s = none) :
    i.Watches i.table.alarmLength s := by
  have hplaced : i.table.active.Placed i.heap :=
    (hkeeps.heap ▸ hkeeps.table.coherent).placed _ List.mem_cons_self
  have hsized := hkeeps.steady.sized
  have hprobe (key : LookupKey) (hkey : key.content i.heap = s) := probe_eq hstill hplaced hkey
  have hraised (n : Nat) := h.alert.raised i.table (decide (i.table.alarmLength < n))
  simp only [decide_eq_true_eq] at hraised
  cases hfind : (i.chain s).find? (Slot.leadsTo i.heap s) with
  | some slot =>
    obtain ⟨place, hplace, hslot⟩ := position?_of_find? hfind
    simp only [hfind, hplace, Option.map_some, Option.getD_some] at hprobe
    refine ⟨?_, ?_, ?_, fun o hlive hcontent => ?_⟩
    · rw [lookup?, hnone, hprobe (.text s) rfl, hplace]
      exact hraised (place + 1)
    · rw [Interner.intern, hnone, hprobe (.text s) rfl, hplace]
      exact hraised (place + 1)
    · rw [Interner.intern, hnone, hprobe (.text s) rfl]
      exact ⟨slot, .hit place hplace hslot rfl rfl⟩
    · rw [Interner.internObject, hcontent, hnone, hprobe (.object o) hcontent, hplace]
      exact ⟨hraised (place + 1), slot, .hit place hplace hslot rfl rfl⟩
  | none =>
    have hplace := position?_of_find?_eq_none hfind
    simp only [hfind, hplace, Option.map_none, Option.getD_none] at hprobe
    -- An interning of a content allocates an object between its two walks.
    have hnew := h.raised_of_miss (o := (i.heap.alloc s).1)
      (j := ((i.raiseAlarm (decide (i.table.alarmLength < (i.chain s).length))).newObject s).2)
        hsized hstill hplaced hplace
      rfl rfl (i.heap.later_alloc s) (i.heap.content_alloc_self s)
    refine ⟨?_, ?_, ?_, fun o hlive hcontent => ?_⟩
    · rw [lookup?, hnone, hprobe (.text s) rfl, hplace]
      exact hraised _
    · rw [Interner.intern, hnone, hprobe (.text s) rfl, hplace]
      exact hnew.1
    · rw [Interner.intern, hnone, hprobe (.text s) rfl]
      obtain ⟨slot, hanswer, hchain⟩ := hnew.2
      exact ⟨slot, .miss hplace hanswer hchain⟩
    · rw [Interner.internObject, hcontent, hnone, hprobe (.object o) hcontent, hplace]
      obtain ⟨hobject, slot, hanswer, hchain⟩ := h.raised_of_miss (o := o)
        (j := i.raiseAlarm (decide (i.table.alarmLength < (i.chain s).length))) hsized hstill
          hplaced hplace rfl rfl
        (.refl i.heap) hcontent
      exact ⟨hobject, slot, .miss hplace hanswer hchain⟩

end Interner

end WeakIntern
