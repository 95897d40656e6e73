import Mathlib.Data.List.Dedup
import Mathlib.Data.List.Induction
import WeakIntern.Proofs.Ledger
import WeakIntern.Proofs.Linked
/-!
# Objects that are linked one after another

When an overlay is drained, its objects are linked in a table one after another, each under a fresh
reference. Whatever task has the table, and even if other slots are not where they should be, the
outcome is known as long as none of the contents is in the table: the first object of each content
is linked, at the end of its bucket, the references to the others are given back, and nothing else
changes (`Table.received_takeAll`).
-/

namespace WeakIntern

open scoped List

namespace CellStore

/-- A later store with `more` handles at its end, of which `used` are in use. Nothing has been done
to the other handles. -/
structure Grown (store store' : CellStore) (used more : Nat) : Prop where
  cells : ∀ k, k < store.handles.size → store'.handles[k]? = store.handles[k]?
  size : store'.handles.size = store.handles.size + more
  allocated : store'.allocated = store.allocated + used
  releasedTotal : store'.releasedTotal + used = store.releasedTotal + more
  doubleReleases : store'.doubleReleases = store.doubleReleases

variable {store store' : CellStore} {used more : Nat}

theorem Grown.refl (store : CellStore) : store.Grown store 0 0 :=
  ⟨fun _ _ => rfl, rfl, rfl, rfl, rfl⟩

/-- One handle more, which stays in use. -/
theorem Grown.keep (h : store.Grown store' used more) (o : ObjectId) :
    store.Grown (store'.acquire o).2 (used + 1) (more + 1) := by
  have hsize := h.size
  constructor
  · intro k hk
    rw [← h.cells k hk, acquire, Array.getElem?_push, if_neg (by omega)]
  · rw [acquire, Array.size_push]
    omega
  · rw [allocated_acquire, h.allocated, Nat.add_assoc]
  · have htotal := h.releasedTotal
    rw [acquire]
    dsimp only
    omega
  · exact h.doubleReleases

/-- A fresh cell that is given back at once leaves a handle that was released. -/
theorem handles_release_acquire (store : CellStore) (o : ObjectId) :
    ((store.acquire o).2.release (store.acquire o).1).2.handles =
      store.handles.push { referent := o, released := true } := by
  have hin : (store.acquire o).2.InUse (store.acquire o).1 := (inUse_acquire o).2 (.inl rfl)
  rw [handles_release_of_inUse hin, id_acquire]
  refine Array.ext (by simp [Handle.update, acquire]) fun k hk hk' => ?_
  simp only [Handle.update, acquire, Array.getElem_modify, Array.getElem_push]
  rw [Array.size_push] at hk'
  split
  · next heq => simp [← heq]
  · next hne => rw [dif_pos (by omega), dif_pos (by omega)]

theorem Grown.giveBack (h : store.Grown store' used more) (o : ObjectId) :
    store.Grown ((store'.acquire o).2.release (store'.acquire o).1).2 used (more + 1) := by
  have hin : (store'.acquire o).2.InUse (store'.acquire o).1 := (inUse_acquire o).2 (.inl rfl)
  have hledger := ((store'.ledger_cellRefs.acquire o).release).1
  have hsize := h.size
  constructor
  · intro k hk
    rw [← h.cells k hk, handles_release_acquire, Array.getElem?_push, if_neg (by omega)]
  · rw [handles_release_acquire, Array.size_push]
    omega
  · rw [hledger.allocated, ← store'.ledger_cellRefs.allocated, h.allocated]
  · have htotal : (store'.acquire o).2.releasedTotal + used = store.releasedTotal + more :=
      h.releasedTotal
    rw [releasedTotal_release hin]
    omega
  · exact (doubleReleases_release hin).trans h.doubleReleases

end CellStore

namespace BucketArray

variable {a : BucketArray} {slot : Slot}

theorem mem_waiting : slot ∈ a.waiting ↔ ∃ i, a.isMoved i = false ∧ slot ∈ a.slotsAt i := by
  simp only [waiting, List.mem_flatMap, List.mem_range]
  constructor
  · rintro ⟨i, -, hslot⟩
    split at hslot
    · cases hslot
    · next hmark => exact ⟨i, by simpa using hmark, hslot⟩
  · rintro ⟨i, hmark, hslot⟩
    exact ⟨i, lt_size_of_mem hslot, by rwa [hmark]⟩

theorem waiting_appendAll (h : a.Sized) {more : List Slot}
    (hmark : ∀ slot ∈ more, a.isMoved (a.placeOf slot.hash) = false) :
    (a.appendAll more).waiting.Perm (more ++ a.waiting) := by
  induction more generalizing a with
  | nil => exact .refl _
  | cons slot rest ih =>
    have hrest := ih (h.append slot) fun other hother => by
      rw [h.isMoved_append, placeOf_append]
      exact hmark other (.tail _ hother)
    rw [appendAll_cons]
    exact (hrest.trans ((waiting_append h slot (hmark slot List.mem_cons_self)).append_left
      rest)).trans List.perm_middle

theorem appendAll_concat (a : BucketArray) (slots : List Slot) (slot : Slot) :
    a.appendAll (slots ++ [slot]) = (a.appendAll slots).append slot := List.foldl_append

theorem home_appendAll (a : BucketArray) (slots : List Slot) :
    (a.appendAll slots).home = a.home := by
  funext s
  rw [home, home, placeOf_appendAll, epoch_appendAll]

end BucketArray

/-- Of things of different kinds, one is the only one of its kind. -/
theorem filter_eq_singleton {α β : Type} [DecidableEq β] {f : α → β} {l : List α}
    (h : (l.map f).Nodup) {x : α} (hx : x ∈ l) : l.filter (fun y => f y = f x) = [x] := by
  refine List.perm_singleton.1
    ((List.perm_ext_iff_of_nodup (h.of_map.filter _) (List.nodup_singleton x)).2 fun y => ?_)
  rw [List.mem_filter, decide_eq_true_eq, List.mem_singleton]
  exact ⟨fun ⟨hy, heq⟩ => List.inj_on_of_nodup_map h hy hx heq,
    fun heq => ⟨heq ▸ hx, congrArg f heq⟩⟩

/-- The content that a slot leads to. -/
def Slot.content (heap : Heap) (slot : Slot) : String := heap.content slot.ref.referent

namespace Table

variable {t t' : Table} {heap : Heap} {o p : ObjectId} {slot : Slot}

/-! ## What is in the way -/

/-- The object that an insert of `o` meets in the bucket where it ends. -/
def occupant? (t : Table) (heap : Heap) (o : ObjectId) : Option ObjectId :=
  if t.active.isMoved (t.active.home (heap.content o)) then
    t.successors.head?.bind fun target => target.find? heap (.object o)
  else t.active.find? heap (.object o)

theorem value_insertIfAbsent (h : t.Formed) (heap : Heap) (o : ObjectId) (ref : WeakRef) :
    (t.insertIfAbsent heap o ref).1.value = (t.occupant? heap o).elim .linked .existing := by
  rw [occupant?]
  cases hmark : t.active.isMoved (t.active.home (heap.content o)) with
  | false =>
    have hland := land_of_not_isMoved hmark t.alarmLength 0 t.successors
    rw [if_neg (by simp)]
    cases hfind : t.active.find? heap (.object o) with
    | some p => simp only [insertIfAbsent, hland, hfind, Option.elim_some]
    | none => simp only [insertIfAbsent, hland, hfind, Option.elim_none]
  | true =>
    rw [if_pos rfl]
    cases h with
    | still still =>
      rw [still.unmoved] at hmark
      cases hmark
    | moving target moving =>
      have hunmoved : target.isMoved (target.home (heap.content o)) = false := moving.unmoved _
      have hland := land_of_not_isMoved hunmoved t.alarmLength 1 []
      rw [← moving.next, ← land_of_isMoved hmark t.alarmLength 0] at hland
      rw [moving.next, List.head?_cons, Option.bind_some]
      cases hfind : target.find? heap (.object o) with
      | some p => simp only [insertIfAbsent, hland, hfind, Option.elim_some]
      | none => simp only [insertIfAbsent, hland, hfind, Option.elim_none]

/-- What is in the way is linked. -/
theorem linked_of_occupant? (h : t.Formed) (hp : t.occupant? heap o = some p) :
    ∃ slot ∈ t.linked, slot.ref.referent = p ∧ heap.isLive p = true ∧
      heap.content p = heap.content o := by
  rw [occupant?] at hp
  split at hp
  · next hmark =>
    cases h with
    | still still =>
      rw [still.unmoved] at hmark
      cases hmark
    | moving target moving =>
      rw [moving.next, List.head?_cons, Option.bind_some] at hp
      obtain ⟨slot, hslot, hfound⟩ := BucketArray.exists_of_find?_eq_some hp
      rw [linked_moving moving]
      exact ⟨slot, List.mem_append_right _ (BucketArray.mem_slots.2 ⟨_, hslot⟩), hfound⟩
  · next hmark =>
    obtain ⟨slot, hslot, hfound⟩ := BucketArray.exists_of_find?_eq_some hp
    refine ⟨slot, ?_, hfound⟩
    cases h with
    | still still =>
      rw [linked_still still]
      exact BucketArray.mem_slots.2 ⟨_, hslot⟩
    | moving target moving =>
      rw [linked_moving moving]
      exact List.mem_append_left _ (BucketArray.mem_waiting.2 ⟨_, Bool.eq_false_iff.2 hmark, hslot⟩)

theorem sameFrame_acquire (t : Table) (o : ObjectId) : t.SameFrame (t.acquire o).2 :=
  ⟨rfl, rfl, rfl, rfl, rfl, rfl, rfl⟩

/-- Link an object under a fresh reference, unless its content is there. -/
def take (heap : Heap) (t : Table) (o : ObjectId) : Table :=
  ((t.acquire o).2.insertIfAbsent heap o (t.acquire o).1).2

/-- No live slot that is linked has one of the contents. -/
def Vacant (t : Table) (heap : Heap) (contents : List String) : Prop :=
  ∀ slot ∈ t.linked, heap.isLive slot.ref.referent = true → slot.content heap ∉ contents

instance (t : Table) (heap : Heap) (contents : List String) : Decidable (t.Vacant heap contents) :=
  inferInstanceAs (Decidable (∀ slot ∈ t.linked, _ → _))

/-! ## Slots for objects -/

/-- Of objects that come one after another, slots for the first one of each content. -/
structure Chosen (heap : Heap) (objects : List ObjectId) (slots : List Slot) : Prop where
  distinct : (slots.map (Slot.content heap)).Nodup
  contents : ∀ s, s ∈ slots.map (Slot.content heap) ↔ s ∈ objects.map heap.content
  first : ∀ slot ∈ slots, objects.find? (heap.content · == slot.content heap) =
    some slot.ref.referent

variable {objects : List ObjectId} {slots slots' here there here' there' : List Slot}

/-- An object that comes too late for its content. -/
theorem Chosen.skip (h : Chosen heap objects slots)
    (hmem : heap.content o ∈ objects.map heap.content) :
    Chosen heap (objects ++ [o]) slots where
  distinct := h.distinct
  contents s := by
    rw [h.contents, List.map_append, List.mem_append, List.map_singleton, List.mem_singleton]
    exact ⟨.inl, fun hs => hs.elim id fun heq => heq ▸ hmem⟩
  first slot hslot := by rw [List.find?_append, h.first slot hslot, Option.some_or]

/-- A new content, and a slot for it. -/
theorem Chosen.add (h : Chosen heap objects slots)
    (hnew : heap.content o ∉ objects.map heap.content) (hslot : slot.ref.referent = o)
    (hslots : slots'.Perm (slot :: slots)) : Chosen heap (objects ++ [o]) slots' := by
  have hcontent : slot.content heap = heap.content o := by rw [Slot.content, hslot]
  constructor
  · refine (hslots.map _).nodup_iff.2 (List.nodup_cons.2 ⟨?_, h.distinct⟩)
    rw [hcontent, h.contents]
    exact hnew
  · intro s
    rw [(hslots.map _).mem_iff, List.map_cons, List.mem_cons, h.contents, hcontent, List.map_append,
      List.mem_append, List.map_singleton, List.mem_singleton, or_comm]
  · intro other hother
    rw [List.find?_append]
    rcases List.mem_cons.1 (hslots.mem_iff.1 hother) with rfl | hother
    · have hnone : objects.find? (heap.content · == other.content heap) = none := by
        refine List.find?_eq_none.2 fun p hp heq => hnew (List.mem_map.2 ⟨p, hp, ?_⟩)
        rw [LawfulBEq.eq_of_beq heq, hcontent]
      have hsame : (heap.content o == other.content heap) = true := beq_iff_eq.2 hcontent.symm
      rw [hnone, Option.none_or, List.find?_cons, hsame, hslot]
    · rw [h.first other hother, Option.some_or]

theorem Chosen.length_eq (h : Chosen heap objects slots) :
    slots.length = (objects.map heap.content).dedup.length := by
  rw [← List.length_map (Slot.content heap)]
  refine List.Perm.length_eq ((List.perm_ext_iff_of_nodup h.distinct (List.nodup_dedup _)).2
    fun s => ?_)
  rw [h.contents, List.mem_dedup]

/-! ## Where they go -/

/-- The active array is where an insert looks for the content of the slot, and the slot has the hash
that it has there. -/
def SeatedActive (t : Table) (heap : Heap) (slot : Slot) : Prop :=
  t.active.isMoved (t.active.home (slot.content heap)) = false ∧
    slot.hash = t.active.epoch.hash (slot.content heap)

/-- The next array is. -/
def SeatedNext (t : Table) (heap : Heap) (slot : Slot) : Prop :=
  t.active.isMoved (t.active.home (slot.content heap)) = true ∧
    ∃ target, t.Moving target ∧ slot.hash = target.epoch.hash (slot.content heap)

/-- A later table, with the slots `here` behind those in its active array, and the slots `there`
behind those in the next one. -/
structure Extended (heap : Heap) (t : Table) (here there : List Slot) (t' : Table) : Prop where
  frame : t.SameFrame t'
  active : t'.active = t.active.appendAll here
  successors : t'.successors = t.successors.map fun target => target.appendAll there
  inActive : ∀ slot ∈ here, t.SeatedActive heap slot
  inNext : ∀ slot ∈ there, t.SeatedNext heap slot

theorem Extended.refl (heap : Heap) (t : Table) : Extended heap t [] [] t where
  frame := .refl t
  active := rfl
  successors := by
    rw [show (fun target : BucketArray => target.appendAll []) = id from rfl, List.map_id]
  inActive := fun _ hslot => nomatch hslot
  inNext := fun _ hslot => nomatch hslot

/-- What is aside from the arrays has no part in it. -/
theorem Extended.congr {t'' : Table} (h : Extended heap t here there t') (hframe : t'.SameFrame t'')
    (hactive : t''.active = t'.active) (hsuccessors : t''.successors = t'.successors) :
    Extended heap t here there t'' where
  frame := h.frame.trans hframe
  active := hactive.trans h.active
  successors := hsuccessors.trans h.successors
  inActive := h.inActive
  inNext := h.inNext

/-- One slot more in the active array. -/
theorem Extended.linkActive {t'' : Table} (h : Extended heap t here there t')
    (hframe : t'.SameFrame t'') (hactive : t''.active = t'.active.append slot)
    (hsuccessors : t''.successors = t'.successors) (hseated : t.SeatedActive heap slot) :
    Extended heap t (here ++ [slot]) there t'' where
  frame := h.frame.trans hframe
  active := by rw [hactive, h.active, BucketArray.appendAll_concat]
  successors := hsuccessors.trans h.successors
  inActive other hother := by
    rcases List.mem_append.1 hother with hother | hother
    · exact h.inActive other hother
    · exact List.mem_singleton.1 hother ▸ hseated
  inNext := h.inNext

/-- One slot more in the next array. -/
theorem Extended.linkNext {t'' : Table} (h : Extended heap t here there t')
    (hframe : t'.SameFrame t'') (hactive : t''.active = t'.active)
    (hsuccessors : t''.successors = t'.successors.map fun target => target.append slot)
    (hseated : t.SeatedNext heap slot) : Extended heap t here (there ++ [slot]) t'' where
  frame := h.frame.trans hframe
  active := hactive.trans h.active
  successors := by
    simp only [hsuccessors, h.successors, List.map_map, Function.comp_def,
      BucketArray.appendAll_concat]
  inActive := h.inActive
  inNext other hother := by
    rcases List.mem_append.1 hother with hother | hother
    · exact h.inNext other hother
    · exact List.mem_singleton.1 hother ▸ hseated

/-- No bucket has got another mark. -/
theorem Extended.isMoved_home (h : Extended heap t here there t') (hsteady : t.Steady)
    (s : String) :
    t'.active.isMoved (t'.active.home s) = t.active.isMoved (t.active.home s) := by
  rw [h.active, BucketArray.home_appendAll, BucketArray.isMoved_appendAll hsteady.sized.pos]

/-- The new slots are linked, and no others. -/
theorem Extended.linked (h : Extended heap t here there t') (hsteady : t.Steady) :
    t'.linked.Perm ((here ++ there) ++ t.linked) := by
  have hmark : ∀ slot ∈ here, t.active.isMoved (t.active.placeOf slot.hash) = false := by
    intro slot hslot
    obtain ⟨hmark, hhash⟩ := h.inActive slot hslot
    rw [hhash]
    exact hmark
  rw [Table.linked, h.active, h.successors]
  cases hsteady.formed with
  | still still =>
    have hthere : there = [] := by
      refine List.eq_nil_iff_forall_not_mem.2 fun slot hslot => ?_
      have hmoved := (h.inNext slot hslot).1
      rw [still.unmoved] at hmoved
      cases hmoved
    rw [still.alone, linked_still still, hthere, List.append_nil]
    exact BucketArray.slots_appendAll hsteady.sized here
  | moving target moving =>
    rw [moving.next, linked_moving moving]
    calc (t.active.appendAll here).waiting ++ (target.appendAll there).slots
      _ ~ (here ++ t.active.waiting) ++ (there ++ target.slots) :=
        (BucketArray.waiting_appendAll hsteady.sized hmark).append
          (BucketArray.slots_appendAll moving.sized there)
      _ = here ++ (t.active.waiting ++ (there ++ target.slots)) := List.append_assoc ..
      _ ~ here ++ (there ++ (t.active.waiting ++ target.slots)) :=
        (List.perm_append_comm_assoc ..).append_left here
      _ = (here ++ there) ++ (t.active.waiting ++ target.slots) := (List.append_assoc ..).symm

/-- An insert meets what has its content, if it is alive. -/
theorem Extended.isSome_occupant? (h : Extended heap t here there t') (hsteady : t.Steady)
    (hslot : slot ∈ here ++ there) (hlive : heap.isLive slot.ref.referent = true)
    (hcontent : slot.content heap = heap.content o) :
    (t'.occupant? heap o).isSome = true := by
  rw [Option.isSome_iff_ne_none, occupant?, h.isMoved_home hsteady, ← hcontent]
  rcases List.mem_append.1 hslot with hhere | hthere
  · obtain ⟨hmark, hhash⟩ := h.inActive slot hhere
    have hplace : slot ∈ t'.active.slotsAt (t'.active.home (heap.content o)) := by
      rw [h.active, BucketArray.home_appendAll, BucketArray.mem_appendAll hsteady.sized,
        hhash, hcontent]
      exact .inr ⟨hhere, rfl⟩
    have hhash' : slot.hash = t'.active.epoch.hash (slot.content heap) := by
      rw [h.active, BucketArray.epoch_appendAll]
      exact hhash
    rw [if_neg (by simp [hmark])]
    exact fun hnone => BucketArray.ne_of_find?_eq_none hnone hplace hlive hhash' hcontent
  · obtain ⟨hmark, target, moving, hhash⟩ := h.inNext slot hthere
    have hplace : slot ∈ (target.appendAll there).slotsAt
        ((target.appendAll there).home (heap.content o)) := by
      rw [BucketArray.home_appendAll, BucketArray.mem_appendAll moving.sized, hhash, hcontent]
      exact .inr ⟨hthere, rfl⟩
    have hhash' : slot.hash = (target.appendAll there).epoch.hash (slot.content heap) := by
      rw [BucketArray.epoch_appendAll]
      exact hhash
    rw [if_pos hmark, h.successors, moving.next, List.map_singleton, List.head?_cons,
      Option.bind_some]
    exact fun hnone => BucketArray.ne_of_find?_eq_none hnone hplace hlive hhash' hcontent

/-! ## One object after another -/

/-- What has become of a table in which objects were linked one after another. -/
structure Received (heap : Heap) (t : Table) (objects : List ObjectId) (here there : List Slot)
    (t' : Table) : Prop where
  steady : t'.Steady
  extended : Extended heap t here there t'
  chosen : Chosen heap objects (here ++ there)
  items : t'.items = t.items + .ofNat (here ++ there).length
  cells : t.cells.Grown t'.cells (here ++ there).length objects.length
  /-- The slots have handles of their own. -/
  fresh : ∀ slot ∈ here ++ there, t.cells.handles.size < slot.ref.id

theorem Received.refl (hsteady : t.Steady) (heap : Heap) : Received heap t [] [] [] t where
  steady := hsteady
  extended := .refl heap t
  chosen := ⟨.nil, fun _ => .rfl, fun _ hslot => nomatch hslot⟩
  items := by simp
  cells := .refl _
  fresh := fun _ hslot => nomatch hslot

/-- An object whose content was linked meets one that is in the way. -/
theorem Received.isSome_occupant? (h : Received heap t objects here there t') (hsteady : t.Steady)
    (hlive : ∀ p ∈ objects, heap.isLive p = true)
    (hmem : heap.content o ∈ objects.map heap.content) :
    (t'.occupant? heap o).isSome = true := by
  obtain ⟨slot, hslot, hcontent⟩ := List.mem_map.1 ((h.chosen.contents _).2 hmem)
  have hfirst := h.chosen.first slot hslot
  exact h.extended.isSome_occupant? hsteady hslot
    (hlive _ (List.mem_of_find?_eq_some hfirst)) hcontent

/-- An object whose content is new meets nothing. -/
theorem Received.occupant?_eq_none (h : Received heap t objects here there t') (hsteady : t.Steady)
    (hvacant : t.Vacant heap [heap.content o]) (hnew : heap.content o ∉ objects.map heap.content) :
    t'.occupant? heap o = none := by
  refine Option.eq_none_iff_forall_ne_some.2 fun p hp => ?_
  obtain ⟨slot, hslot, rfl, hlive, hcontent⟩ := linked_of_occupant? h.steady.formed hp
  rcases List.mem_append.1 ((h.extended.linked hsteady).mem_iff.1 hslot) with hslot | hslot
  · exact hnew ((h.chosen.contents _).1 (List.mem_map.2 ⟨slot, hslot, hcontent⟩))
  · exact hvacant slot hslot hlive (List.mem_singleton.2 hcontent)

/-- A content that was met before: the reference is given back. -/
theorem Received.existing (h : Received heap t objects here there t')
    (hmem : heap.content o ∈ objects.map heap.content) {notices : Array Notice} :
    Received heap t (objects ++ [o]) here there
      { t' with cells := (((t'.acquire o).2).cells.release (t'.acquire o).1).2, notices } where
  steady := h.steady.congr rfl rfl rfl
  extended := h.extended.congr ⟨rfl, rfl, rfl, rfl, rfl, rfl, rfl⟩ rfl rfl
  chosen := h.chosen.skip hmem
  items := h.items
  cells := by
    have hlength : (objects ++ [o]).length = objects.length + 1 := List.length_append
    rw [hlength]
    exact h.cells.giveBack o
  fresh := h.fresh

/-- A new content: the reference is in a slot more. -/
theorem Received.added {t'' : Table} (h : Received heap t objects here there t')
    (hnew : heap.content o ∉ objects.map heap.content) (hslot : slot.ref = (t'.acquire o).1)
    (hslots : (here' ++ there').Perm (slot :: (here ++ there))) (hsteady : t''.Steady)
    (hextended : Extended heap t here' there' t'') (hitems : t''.items = t'.items + 1)
    (hcells : t''.cells = (t'.acquire o).2.cells) :
    Received heap t (objects ++ [o]) here' there' t'' := by
  have hlength : (here' ++ there').length = (here ++ there).length + 1 := hslots.length_eq
  have hlength' : (objects ++ [o]).length = objects.length + 1 := List.length_append
  refine ⟨hsteady, hextended, h.chosen.add hnew (congrArg WeakRef.referent hslot) hslots, ?_, ?_,
    ?_⟩
  · rw [hitems, h.items, hlength, Nat.add_comm, UInt64.ofNat_add, UInt64.add_assoc,
      UInt64.add_comm (.ofNat 1)]
    rfl
  · rw [hlength, hlength', hcells]
    exact h.cells.keep o
  · intro other hother
    rcases List.mem_cons.1 (hslots.mem_iff.1 hother) with rfl | hother
    · rw [hslot]
      have hid : (t'.acquire o).1.id = t'.cells.handles.size + 1 := t'.cells.id_acquire o
      have hsize := h.cells.size
      omega
    · exact h.fresh other hother

/-- A new content that belongs in the active array. -/
theorem Received.added_active {t'' : Table} (h : Received heap t objects here there t')
    (hnew : heap.content o ∉ objects.map heap.content)
    (hmark : t.active.isMoved (t.active.home (heap.content o)) = false) (hsteady : t''.Steady)
    (hframe : t'.SameFrame t'')
    (hactive : t''.active = t'.active.append (t'.active.slotFor heap o (t'.acquire o).1))
    (hsuccessors : t''.successors = t'.successors) (hitems : t''.items = t'.items + 1)
    (hcells : t''.cells = (t'.acquire o).2.cells) :
    ∃ here', Received heap t (objects ++ [o]) here' there t'' := by
  have hseated : t.SeatedActive heap (t'.active.slotFor heap o (t'.acquire o).1) :=
    ⟨hmark, congrArg (Epoch.hash · (heap.content o)) h.extended.frame.epoch⟩
  have href : (t'.active.slotFor heap o (t'.acquire o).1).ref = (t'.acquire o).1 := rfl
  refine ⟨_, h.added hnew href ?_ hsteady (h.extended.linkActive hframe hactive hsuccessors hseated)
    hitems hcells⟩
  rw [List.append_assoc]
  exact List.perm_middle

/-- A new content that belongs in the next array. -/
theorem Received.added_next {t'' : Table} {target : BucketArray}
    (h : Received heap t objects here there t') (hmoving : t.Moving target)
    (hnew : heap.content o ∉ objects.map heap.content)
    (hmark : t.active.isMoved (t.active.home (heap.content o)) = true) (hsteady : t''.Steady)
    (hframe : t'.SameFrame t'') (hactive : t''.active = t'.active)
    (hsuccessors : t''.successors =
      [(target.appendAll there).append ((target.appendAll there).slotFor heap o (t'.acquire o).1)])
    (hitems : t''.items = t'.items + 1) (hcells : t''.cells = (t'.acquire o).2.cells) :
    ∃ there', Received heap t (objects ++ [o]) here there' t'' := by
  have hseated : t.SeatedNext heap ((target.appendAll there).slotFor heap o (t'.acquire o).1) :=
    ⟨hmark, target, hmoving,
      congrArg (Epoch.hash · (heap.content o)) (target.epoch_appendAll there)⟩
  have href : ((target.appendAll there).slotFor heap o (t'.acquire o).1).ref =
    (t'.acquire o).1 := rfl
  have hbefore : t'.successors = [target.appendAll there] := by
    rw [h.extended.successors, hmoving.next, List.map_singleton]
  have hlinked :=
    h.extended.linkNext hframe hactive (by rw [hsuccessors, hbefore, List.map_singleton]) hseated
  refine ⟨_, h.added hnew href ?_ hsteady hlinked hitems hcells⟩
  rw [← List.append_assoc]
  exact List.perm_append_singleton _ _

/-- **One object more**: it is linked if its content is new, and otherwise its reference is given
back. -/
theorem Received.take (h : Received heap t objects here there t') (hsteady : t.Steady)
    (hlive : ∀ p ∈ objects, heap.isLive p = true) (hvacant : t.Vacant heap [heap.content o]) :
    ∃ here' there', Received heap t (objects ++ [o]) here' there' (take heap t' o) := by
  have hacquired : (t'.acquire o).2.Steady := h.steady.congr rfl rfl rfl
  have hoccupant : (t'.acquire o).2.occupant? heap o = t'.occupant? heap o := rfl
  have hhome : (t'.acquire o).2.active.isMoved ((t'.acquire o).2.active.home (heap.content o)) =
    t.active.isMoved (t.active.home (heap.content o)) := h.extended.isMoved_home hsteady _
  have hvalue := value_insertIfAbsent hacquired.formed heap o (t'.acquire o).1
  have hins := insertIfAbsent_inserted hacquired.formed heap o (t'.acquire o).1
  have hnext := hins.steady hacquired
  have hframe := (t'.sameFrame_acquire o).trans hins.sameFrame
  rw [hoccupant] at hvalue
  rw [Table.take]
  generalize (t'.acquire o).2.insertIfAbsent heap o (t'.acquire o).1 =
    result at hvalue hins hnext hframe ⊢
  obtain ⟨⟨placement, alarm⟩, t''⟩ := result
  dsimp only at hvalue hins hnext hframe ⊢
  by_cases hmem : heap.content o ∈ objects.map heap.content
  · obtain ⟨p, hp⟩ := Option.isSome_iff_exists.1 (h.isSome_occupant? hsteady hlive hmem)
    rw [hp] at hvalue
    subst hvalue
    cases hins with
    | existing p notices a ha hfind => exact ⟨here, there, h.existing hmem⟩
  · rw [h.occupant?_eq_none hsteady hvacant hmem] at hvalue
    subst hvalue
    cases hins with
    | active hmark hfind =>
      obtain ⟨here', hreceived⟩ := h.added_active hmem (hhome ▸ hmark) hnext hframe rfl rfl rfl rfl
      exact ⟨here', there, hreceived⟩
    | next target' moving' hmark hfind =>
      rw [hhome] at hmark
      cases hsteady.formed with
      | still still =>
        rw [still.unmoved] at hmark
        cases hmark
      | moving target moving =>
        have hsuccessors := h.extended.successors
        rw [moving.next, List.map_singleton] at hsuccessors
        obtain rfl : target' = target.appendAll there :=
          List.singleton_inj.1 (moving'.next.symm.trans hsuccessors)
        obtain ⟨there', hreceived⟩ := h.added_next moving hmem hmark hnext hframe rfl rfl rfl rfl
        exact ⟨here, there', hreceived⟩

/-- **Of many objects** the first one of each content is linked, if none of the contents is in the
table. -/
theorem received_takeAll (hsteady : t.Steady) (objects : List ObjectId)
    (hlive : ∀ o ∈ objects, heap.isLive o = true)
    (hvacant : t.Vacant heap (objects.map heap.content)) :
    ∃ here there, Received heap t objects here there (objects.foldl (Table.take heap) t) := by
  induction objects using List.reverseRecOn with
  | nil => exact ⟨[], [], .refl hsteady heap⟩
  | append_singleton before o ih =>
    have hbefore : ∀ p ∈ before, heap.isLive p = true :=
      fun p hp => hlive p (List.mem_append_left _ hp)
    rw [List.map_append] at hvacant
    obtain ⟨here, there, hreceived⟩ := ih hbefore fun slot hslot hlive hmem =>
      hvacant slot hslot hlive (List.mem_append_left _ hmem)
    rw [List.foldl_append]
    exact hreceived.take hsteady hbefore fun slot hslot hlive hmem =>
      hvacant slot hslot hlive (List.mem_append_right _ hmem)

/-- **Each content** has exactly one live slot, and that leads to its first object. -/
theorem Received.sole (h : Received heap t objects here there t') (hsteady : t.Steady)
    (hlive : ∀ o ∈ objects, heap.isLive o = true)
    (hvacant : t.Vacant heap (objects.map heap.content)) {s : String}
    (hs : s ∈ objects.map heap.content) :
    ∃ slot, t'.linked.filter (fun slot => heap.peek? slot.ref.referent = some s) = [slot] ∧
      objects.find? (heap.content · == s) = some slot.ref.referent := by
  obtain ⟨slot, hslot, rfl⟩ := List.mem_map.1 ((h.chosen.contents s).2 hs)
  have hpeek : ∀ other : Slot, heap.peek? other.ref.referent = some (slot.content heap) ↔
      heap.isLive other.ref.referent = true ∧ other.content heap = slot.content heap := by
    intro other
    rw [Heap.peek?]
    split
    · next hother => simp [hother, Slot.content]
    · next hother => simp [hother]
  have hnew :
      (here ++ there).filter (fun other => heap.peek? other.ref.referent =
        some (slot.content heap)) = [slot] := by
    rw [← filter_eq_singleton h.chosen.distinct hslot]
    refine List.filter_congr fun other hother =>
      decide_eq_decide.2 ((hpeek other).trans (and_iff_right ?_))
    exact hlive _ (List.mem_of_find?_eq_some (h.chosen.first other hother))
  have hold :
      t.linked.filter (fun other => heap.peek? other.ref.referent = some (slot.content heap)) =
        [] := by
    refine List.filter_eq_nil_iff.2 fun other hother heq => ?_
    obtain ⟨hotherlive, hcontent⟩ := (hpeek other).1 (of_decide_eq_true heq)
    exact hvacant other hother hotherlive (hcontent ▸ hs)
  refine ⟨slot, List.perm_singleton.1 ?_, h.chosen.first slot hslot⟩
  have hall := (h.extended.linked hsteady).filter fun other =>
    decide (heap.peek? other.ref.referent = some (slot.content heap))
  rwa [List.filter_append, hnew, hold, List.append_nil] at hall

end Table

end WeakIntern
