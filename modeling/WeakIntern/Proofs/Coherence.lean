import WeakIntern.Proofs.Landing
/-!
# Coherence

A table *holds* a live object if some slot leads to it, in whichever array. What a lookup needs to
find exactly that object is that the table is `Coherent`: each slot stands where the hash of its
string puts it, no two live objects that the table holds have one content, the live slots of a
marked bucket are also in the next array, and that array has nothing whose bucket is not marked.

`Coherent.get?_eq_some_iff` says that lookups in a coherent table see what it holds, and the rest of
the module what each operation does to coherence and to the objects held. No step of a task changes
what a table holds.
-/

namespace WeakIntern

namespace BucketArray

/-- Some slot of the array leads to the live object. -/
def Holds (heap : Heap) (a : BucketArray) (o : ObjectId) : Prop :=
  heap.isLive o = true ∧ ∃ i, ∃ slot ∈ a.slotsAt i, slot.ref.referent = o

/-- A slot that has the hash of its string, in the bucket of its string. -/
structure WellPlaced (heap : Heap) (a : BucketArray) (i : Nat) (slot : Slot) : Prop where
  knows : heap.Knows slot.ref.referent
  hash : slot.hash = a.epoch.hash (heap.content slot.ref.referent)
  place : a.home (heap.content slot.ref.referent) = i

/-- Every slot of the array is well placed. -/
def Placed (heap : Heap) (a : BucketArray) : Prop :=
  ∀ i, ∀ slot ∈ a.slotsAt i, a.WellPlaced heap i slot

variable {heap : Heap} {a : BucketArray} {o : ObjectId} {key : LookupKey}

theorem holds_of_find? (h : a.find? heap key = some o) :
    a.Holds heap o ∧ heap.content o = key.content heap := by
  obtain ⟨slot, hslot, href, hlive, hcontent⟩ := exists_of_find?_eq_some h
  exact ⟨⟨hlive, _, slot, hslot, href⟩, hcontent⟩

/-- What is held is found. -/
theorem find?_ne_none (hplaced : a.Placed heap) (hholds : a.Holds heap o)
    (hcontent : heap.content o = key.content heap) : a.find? heap key ≠ none := by
  intro hnone
  obtain ⟨hlive, i, slot, hslot, rfl⟩ := hholds
  have hwell := hplaced i slot hslot
  have hi : a.home (key.content heap) = i := by rw [← hcontent, hwell.place]
  exact ne_of_find?_eq_none hnone (by rwa [hi]) hlive hwell.hash hcontent

theorem not_holds_empty (heap : Heap) (log2 : Nat) (epoch : Epoch) (o : ObjectId) :
    ¬ (empty log2 epoch).Holds heap o := by
  rintro ⟨-, i, slot, hslot, -⟩
  rw [slotsAt_empty] at hslot
  exact List.not_mem_nil hslot

theorem find?_object_ne_none {p : ObjectId} (hplaced : a.Placed heap) (hholds : a.Holds heap p)
    (hcontent : heap.content p = heap.content o) : a.find? heap (.object o) ≠ none :=
  find?_ne_none hplaced hholds hcontent

theorem placed_empty (heap : Heap) (log2 : Nat) (epoch : Epoch) :
    (empty log2 epoch).Placed heap := by
  intro i slot hslot
  rw [slotsAt_empty] at hslot
  exact absurd hslot List.not_mem_nil

theorem WellPlaced.later {heap' : Heap} {i : Nat} {slot : Slot} (h : a.WellPlaced heap i slot)
    (hlater : Heap.Later heap heap') : a.WellPlaced heap' i slot where
  knows := hlater.knows _ h.knows
  hash := by rw [h.hash, hlater.content _ h.knows]
  place := by rw [hlater.content _ h.knows, h.place]

/-! ## Appending -/

/-- A slot that has the hash of its string. -/
structure Hashed (heap : Heap) (a : BucketArray) (slot : Slot) : Prop where
  knows : heap.Knows slot.ref.referent
  hash : slot.hash = a.epoch.hash (heap.content slot.ref.referent)

theorem Placed.appendAll (h : a.Placed heap) (hsized : a.Sized) {slots : List Slot}
    (hslots : ∀ slot ∈ slots, a.Hashed heap slot) : (a.appendAll slots).Placed heap := by
  have hhome : (a.appendAll slots).home = a.home := by
    funext s
    rw [home, home, placeOf_appendAll, epoch_appendAll]
  intro i slot hslot
  rcases (mem_appendAll hsized).1 hslot with hslot | ⟨hslot, hi⟩
  · have hwell := h i slot hslot
    exact ⟨hwell.knows, by rw [epoch_appendAll, hwell.hash], by rw [hhome, hwell.place]⟩
  · have hhashed := hslots slot hslot
    exact ⟨hhashed.knows, by rw [epoch_appendAll, hhashed.hash],
      by rw [hhome, home, ← hhashed.hash, hi]⟩

theorem holds_appendAll (hsized : a.Sized) {slots : List Slot} :
    (a.appendAll slots).Holds heap o ↔
      a.Holds heap o ∨ (heap.isLive o = true ∧ ∃ slot ∈ slots, slot.ref.referent = o) := by
  constructor
  · rintro ⟨hlive, i, slot, hslot, href⟩
    rcases (mem_appendAll hsized).1 hslot with hslot | ⟨hslot, -⟩
    · exact .inl ⟨hlive, i, slot, hslot, href⟩
    · exact .inr ⟨hlive, slot, hslot, href⟩
  · rintro (⟨hlive, i, slot, hslot, href⟩ | ⟨hlive, slot, hslot, href⟩)
    · exact ⟨hlive, i, slot, (mem_appendAll hsized).2 (.inl hslot), href⟩
    · exact ⟨hlive, a.placeOf slot.hash, slot, (mem_appendAll hsized).2 (.inr ⟨hslot, rfl⟩), href⟩

end BucketArray

namespace Table

/-- The table holds the live object. -/
def Holds (heap : Heap) (t : Table) (o : ObjectId) : Prop :=
  ∃ a ∈ t.active :: t.successors, a.Holds heap o

/-- A table in which lookups find what it holds. -/
structure Coherent (heap : Heap) (t : Table) : Prop where
  placed : ∀ a ∈ t.active :: t.successors, a.Placed heap
  unique : ∀ o p, t.Holds heap o → t.Holds heap p → heap.content o = heap.content p → o = p
  /-- The live slots of a marked bucket were carried over. -/
  followed : ∀ target ∈ t.successors, ∀ i, t.active.isMoved i = true → ∀ slot ∈ t.active.slotsAt i,
    heap.isLive slot.ref.referent = true → target.Holds heap slot.ref.referent
  /-- What is in the next array belongs to a marked bucket. -/
  behind : ∀ target ∈ t.successors, ∀ i, ∀ slot ∈ target.slotsAt i,
    t.active.isMoved (t.active.home (heap.content slot.ref.referent)) = true

variable {heap : Heap} {t : Table} {o : ObjectId} {key : LookupKey}

theorem Holds.isLive (h : t.Holds heap o) : heap.isLive o = true := by
  obtain ⟨a, -, hlive, -⟩ := h
  exact hlive

theorem holds_still (h : t.Still) : t.Holds heap o ↔ t.active.Holds heap o := by
  simp [Holds, h.alone]

theorem holds_moving {target : BucketArray} (h : t.Moving target) :
    t.Holds heap o ↔ t.active.Holds heap o ∨ target.Holds heap o := by
  simp [Holds, h.next]

/-- The part of a table that matters for coherence. -/
theorem Coherent.congr {t' : Table} (h : t.Coherent heap) (hactive : t'.active = t.active)
    (hsuccessors : t'.successors = t.successors) :
    t'.Coherent heap ∧ ∀ o, t'.Holds heap o ↔ t.Holds heap o := by
  cases t with | mk
  cases t' with | mk
  subst hactive hsuccessors
  exact ⟨⟨h.placed, h.unique, h.followed, h.behind⟩, fun _ => Iff.rfl⟩

/-! ## Lookups -/

/-- An object that the table holds is found by its content. -/
theorem Coherent.get?_ne_none (h : t.Coherent heap) (hformed : t.Formed) (hholds : t.Holds heap o)
    (hcontent : heap.content o = key.content heap) : (t.get? heap key).value ≠ none := by
  cases hformed with
  | still still =>
    rw [get?_still still]
    exact BucketArray.find?_ne_none (h.placed _ List.mem_cons_self)
      ((holds_still still).1 hholds) hcontent
  | moving target moving =>
    rw [get?_moving moving]
    have htarget : target ∈ t.successors := by
      rw [moving.next]
      exact List.mem_singleton_self target
    rcases (holds_moving moving).1 hholds with hactive | hnext
    · have hfound := BucketArray.find?_ne_none (h.placed _ List.mem_cons_self) hactive hcontent
      split
      · simp
      · next hnone => exact absurd hnone hfound
    · have hfound :=
        BucketArray.find?_ne_none (h.placed _ (List.mem_cons_of_mem _ htarget)) hnext hcontent
      obtain ⟨-, i, slot, hslot, rfl⟩ := hnext
      have hmark := h.behind target htarget i slot hslot
      rw [hcontent] at hmark
      split
      · simp
      · rw [hmark]
        exact hfound

theorem holds_of_get? (hformed : t.Formed) (h : (t.get? heap key).value = some o) :
    t.Holds heap o ∧ heap.content o = key.content heap := by
  cases hformed with
  | still still =>
    rw [get?_still still] at h
    have hfound := BucketArray.holds_of_find? h
    exact ⟨⟨_, List.mem_cons_self, hfound.1⟩, hfound.2⟩
  | moving target moving =>
    rw [get?_moving moving] at h
    split at h
    · next p hp =>
      cases h
      have hfound := BucketArray.holds_of_find? hp
      exact ⟨⟨_, List.mem_cons_self, hfound.1⟩, hfound.2⟩
    · split at h
      · have hfound := BucketArray.holds_of_find? h
        exact ⟨(holds_moving moving).2 (.inr hfound.1), hfound.2⟩
      · cases h

/-- **A lookup sees what the table holds**, whatever task is under way. -/
theorem Coherent.get?_eq_some_iff (h : t.Coherent heap) (hformed : t.Formed) :
    (t.get? heap key).value = some o ↔ t.Holds heap o ∧ heap.content o = key.content heap := by
  refine ⟨holds_of_get? hformed, ?_⟩
  rintro ⟨hholds, hcontent⟩
  cases hget : (t.get? heap key).value with
  | none => exact absurd hget (h.get?_ne_none hformed hholds hcontent)
  | some p =>
    obtain ⟨hp, hpcontent⟩ := holds_of_get? hformed hget
    rw [h.unique o p hholds hp (hcontent.trans hpcontent.symm)]

/-! ## The heap goes on -/

theorem Coherent.knows (h : t.Coherent heap) (hholds : t.Holds heap o) : heap.Knows o := by
  obtain ⟨a, ha, -, i, slot, hslot, rfl⟩ := hholds
  exact (h.placed a ha i slot hslot).knows

theorem Coherent.holds_of_later {heap' : Heap} (h : t.Coherent heap)
    (hlater : Heap.Later heap heap') (hholds : t.Holds heap' o) : t.Holds heap o := by
  obtain ⟨a, ha, hlive, i, slot, hslot, rfl⟩ := hholds
  exact ⟨a, ha, hlater.live _ (h.placed a ha i slot hslot).knows hlive, i, slot, hslot, rfl⟩

theorem Coherent.holds_later_iff {heap' : Heap} (h : t.Coherent heap)
    (hlater : Heap.Later heap heap') :
    t.Holds heap' o ↔ t.Holds heap o ∧ heap'.isLive o = true := by
  refine ⟨fun hholds => ⟨h.holds_of_later hlater hholds, hholds.isLive⟩, ?_⟩
  rintro ⟨⟨a, ha, -, hslot⟩, hlive⟩
  exact ⟨a, ha, hlive, hslot⟩

theorem Coherent.later {heap' : Heap} (h : t.Coherent heap) (hlater : Heap.Later heap heap') :
    t.Coherent heap' where
  placed a ha i slot hslot := (h.placed a ha i slot hslot).later hlater
  unique o p ho hp hcontent := by
    have ho := h.holds_of_later hlater ho
    have hp := h.holds_of_later hlater hp
    rw [hlater.content o (h.knows ho), hlater.content p (h.knows hp)] at hcontent
    exact h.unique o p ho hp hcontent
  followed target htarget i hmark slot hslot hlive := by
    have hknows := (h.placed _ List.mem_cons_self i slot hslot).knows
    obtain ⟨-, hheld⟩ := h.followed target htarget i hmark slot hslot (hlater.live _ hknows hlive)
    exact ⟨hlive, hheld⟩
  behind target htarget i slot hslot := by
    have hknows := (h.placed target (List.mem_cons_of_mem _ htarget) i slot hslot).knows
    rw [hlater.content _ hknows]
    exact h.behind target htarget i slot hslot

/-! ## Inserts -/

/-- Where an insert links, nobody holds the content. -/
theorem Coherent.ne_of_active (h : t.Coherent heap) (hformed : t.Formed)
    (hmark : t.active.isMoved (t.active.home (heap.content o)) = false)
    (hfind : t.active.find? heap (.object o) = none) {p : ObjectId} (hp : t.Holds heap p) :
    heap.content p ≠ heap.content o := by
  intro hcontent
  cases hformed with
  | still still =>
    exact BucketArray.find?_object_ne_none (h.placed _ List.mem_cons_self)
      ((holds_still still).1 hp) hcontent hfind
  | moving target moving =>
    rcases (holds_moving moving).1 hp with hactive | ⟨-, i, slot, hslot, rfl⟩
    · exact BucketArray.find?_object_ne_none (h.placed _ List.mem_cons_self) hactive hcontent hfind
    · have hmoved := h.behind target (moving.next ▸ List.mem_singleton_self target) i slot hslot
      rw [hcontent, hmark] at hmoved
      cases hmoved

theorem Coherent.ne_of_next (h : t.Coherent heap) {target : BucketArray} (moving : t.Moving target)
    (hmark : t.active.isMoved (t.active.home (heap.content o)) = true)
    (hfind : target.find? heap (.object o) = none) {p : ObjectId} (hp : t.Holds heap p) :
    heap.content p ≠ heap.content o := by
  intro hcontent
  have htarget : target ∈ t.successors := moving.next ▸ List.mem_singleton_self target
  have hnext : target.Holds heap p := by
    rcases (holds_moving moving).1 hp with ⟨hlive, i, slot, hslot, rfl⟩ | hnext
    · have hplace := (h.placed _ List.mem_cons_self i slot hslot).place
      refine h.followed target htarget i ?_ slot hslot hlive
      rw [← hplace, hcontent, hmark]
    · exact hnext
  exact BucketArray.find?_object_ne_none (h.placed _ (List.mem_cons_of_mem _ htarget)) hnext
    hcontent hfind

/-- A table that holds one object more, with a content that nobody held, has no content twice. -/
theorem Coherent.unique_insert {t' : Table} (h : t.Coherent heap)
    (hnone : ∀ p, t.Holds heap p → heap.content p ≠ heap.content o)
    (hholds : ∀ q, t'.Holds heap q ↔ t.Holds heap q ∨ q = o) (p q : ObjectId) (hp : t'.Holds heap p)
    (hq : t'.Holds heap q) (hcontent : heap.content p = heap.content q) : p = q := by
  rcases (hholds p).1 hp with hp | rfl
  · rcases (hholds q).1 hq with hq | rfl
    · exact h.unique p q hp hq hcontent
    · exact absurd hcontent (hnone p hp)
  · rcases (hholds q).1 hq with hq | rfl
    · exact absurd hcontent.symm (hnone q hq)
    · rfl

/-- What an insert of `o` into a coherent table means. -/
def Settles (heap : Heap) (t : Table) (o : ObjectId) (t' : Table) : Placement → Prop
  | .existing p => t.Holds heap p ∧ heap.content p = heap.content o ∧ ∀ q, t'.Holds heap q ↔
    t.Holds heap q
  | .linked => (∀ p, t.Holds heap p → heap.content p ≠ heap.content o) ∧
      ∀ q, t'.Holds heap q ↔ t.Holds heap q ∨ q = o
  | .stranded => False

section Insert

variable {ref : WeakRef}

theorem hashed_slotFor (a : BucketArray) (hlive : heap.isLive o = true) (href : ref.referent = o) :
    ∀ slot ∈ [a.slotFor heap o ref], a.Hashed heap slot := by
  intro slot hslot
  rw [List.mem_singleton.1 hslot]
  exact ⟨Heap.knows_of_isLive (by rw [BucketArray.slotFor, href, hlive]),
    by rw [BucketArray.slotFor, href]⟩

theorem holds_append_slotFor {a : BucketArray} (hsized : a.Sized) (hlive : heap.isLive o = true)
    (href : ref.referent = o) {q : ObjectId} :
    (a.append (a.slotFor heap o ref)).Holds heap q ↔ a.Holds heap q ∨ q = o := by
  rw [show a.append (a.slotFor heap o ref) = a.appendAll [a.slotFor heap o ref] from rfl,
    BucketArray.holds_appendAll hsized]
  refine or_congr_right ⟨?_, ?_⟩
  · rintro ⟨-, slot, hslot, rfl⟩
    rw [List.mem_singleton.1 hslot, BucketArray.slotFor, href]
  · rintro rfl
    exact ⟨hlive, _, List.mem_singleton_self _, href⟩

theorem home_append (a : BucketArray) (slot : Slot) : (a.append slot).home = a.home := by
  funext s
  rw [BucketArray.home, BucketArray.placeOf_append]
  rfl

/-- **An insert keeps coherence**; it links the object exactly if the table holds none with its
content. -/
theorem Coherent.insert (h : t.Coherent heap) (hformed : t.Formed) (hsized : t.active.Sized)
    (hlive : heap.isLive o = true) (href : ref.referent = o) {placement : Placement} {t' : Table}
    (hins : Inserted t heap o ref placement t') :
    t'.Coherent heap ∧ Settles heap t o t' placement := by
  cases hins with
  | existing p notices a hmem hfind =>
    have hfound := BucketArray.holds_of_find? hfind
    have hcongr : Coherent heap { t with cells := (t.cells.release ref).2, notices } ∧ _ :=
      h.congr rfl rfl
    exact ⟨hcongr.1, ⟨a, hmem, hfound.1⟩, hfound.2, hcongr.2⟩
  | active hmark hfind =>
    -- The active bucket is not marked: nothing with the content can be behind, so that its answer
    -- is final.
    have hnone := fun p => h.ne_of_active hformed hmark hfind (p := p)
    have hholds : ∀ q, Holds heap
        { t with items := t.items + 1, active := t.active.append (t.active.slotFor heap o ref) } q ↔
          t.Holds heap q ∨ q = o := by
      intro q
      simp only [Holds, List.mem_cons, exists_eq_or_imp, holds_append_slotFor hsized hlive href]
      exact or_right_comm
    refine ⟨⟨?_, h.unique_insert hnone hholds, ?_, ?_⟩, hnone, hholds⟩
    · intro a ha
      rcases List.mem_cons.1 ha with rfl | ha
      · exact (h.placed _ List.mem_cons_self).appendAll hsized (hashed_slotFor _ hlive href)
      · exact h.placed a (List.mem_cons_of_mem _ ha)
    · intro target htarget i hi slot hslot hslotlive
      rw [hsized.isMoved_append] at hi
      rcases (BucketArray.mem_append_slotFor hsized).1 hslot with hslot | ⟨rfl, rfl⟩
      · exact h.followed target htarget i hi slot hslot hslotlive
      · rw [hmark] at hi
        cases hi
    · intro target htarget i slot hslot
      dsimp only
      rw [hsized.isMoved_append, home_append]
      exact h.behind target htarget i slot hslot
  | next target moving hmark hfind =>
    -- The active bucket is marked: what is alive in it was carried over, so that the target alone
    -- answers.
    have hnone := fun p => h.ne_of_next moving hmark hfind (p := p)
    have htarget : target ∈ t.successors := moving.next ▸ List.mem_singleton_self target
    have hholds : ∀ q, Holds heap
        { t with items := t.items + 1, successors := [target.append (target.slotFor heap o ref)] }
          q ↔ t.Holds heap q ∨ q = o := by
      intro q
      rw [holds_moving moving]
      simp only [Holds, List.mem_cons, List.not_mem_nil, or_false, exists_eq_or_imp, exists_eq_left,
        holds_append_slotFor moving.sized hlive href, or_assoc]
    refine ⟨⟨?_, h.unique_insert hnone hholds, ?_, ?_⟩, hnone, hholds⟩
    · intro a ha
      rcases List.mem_cons.1 ha with rfl | ha
      · exact h.placed _ List.mem_cons_self
      · rw [List.mem_singleton.1 ha]
        exact (h.placed _ (List.mem_cons_of_mem _ htarget)).appendAll moving.sized
          (hashed_slotFor _ hlive href)
    · intro target' htarget' i hi slot hslot hslotlive
      rw [List.mem_singleton.1 htarget', holds_append_slotFor moving.sized hlive href]
      exact .inl (h.followed target htarget i hi slot hslot hslotlive)
    · intro target' htarget' i slot hslot
      rw [List.mem_singleton.1 htarget'] at hslot
      rcases (BucketArray.mem_append_slotFor moving.sized).1 hslot with hslot | ⟨rfl, -⟩
      · exact h.behind target htarget i slot hslot
      · dsimp only [BucketArray.slotFor]
        rw [href]
        exact hmark

end Insert

end Table

/-! ## Tasks -/

namespace BucketArray

variable {heap : Heap} {a : BucketArray} {o : ObjectId} {index : Nat}

theorem mem_redirect (hindex : index < a.size) {i : Nat} {slot : Slot} :
    slot ∈ (a.redirect index).slotsAt i ↔ slot ∈ a.slotsAt i := by
  rw [slotsAt_redirect hindex]

theorem home_redirect (a : BucketArray) (index : Nat) : (a.redirect index).home = a.home := by
  funext s
  rw [home, home, placeOf, placeOf, size_redirect]
  rfl

theorem holds_redirect (hindex : index < a.size) : (a.redirect index).Holds heap o ↔
    a.Holds heap o := by
  simp only [Holds, mem_redirect hindex]

theorem Placed.redirect (h : a.Placed heap) (hindex : index < a.size) :
    (a.redirect index).Placed heap := by
  intro i slot hslot
  have hwell := h i slot ((mem_redirect hindex).1 hslot)
  exact ⟨hwell.knows, hwell.hash, by rw [home_redirect, hwell.place]⟩

/-- Carried slots have the hash of the array that they are carried into. -/
theorem Placed.hashed_carried (h : a.Placed heap) (target : BucketArray) (index : Nat) :
    ∀ slot ∈ (liveSlots heap (a.slotsAt index)).map (carried heap a target),
      target.Hashed heap slot := by
  intro slot hslot
  obtain ⟨before, hbefore, rfl⟩ := List.mem_map.1 hslot
  have hwell := h index before (mem_liveSlots.1 hbefore).1
  refine ⟨hwell.knows, ?_⟩
  simp only [carried]
  split
  · next hepoch => rw [hepoch, hwell.hash]
  · rfl

theorem mem_cleaned (hindex : index < a.size) {i : Nat} {slot : Slot} :
    slot ∈ (a.setSlots index (liveSlots heap (a.slotsAt index))).slotsAt i ↔
      slot ∈ a.slotsAt i ∧ (i = index → heap.isLive slot.ref.referent = true) := by
  rw [slotsAt_setSlots _ hindex]
  split
  · next hi =>
    subst hi
    rw [mem_liveSlots]
    exact and_congr_right fun _ => ⟨fun hlive _ => hlive, fun hlive => hlive rfl⟩
  · next hi => exact ⟨fun hslot => ⟨hslot, fun he => absurd he.symm hi⟩, fun hslot => hslot.1⟩

theorem holds_cleaned (hindex : index < a.size) :
    (a.setSlots index (liveSlots heap (a.slotsAt index))).Holds heap o ↔ a.Holds heap o := by
  constructor
  · rintro ⟨hlive, i, slot, hslot, href⟩
    exact ⟨hlive, i, slot, ((mem_cleaned hindex).1 hslot).1, href⟩
  · rintro ⟨hlive, i, slot, hslot, rfl⟩
    exact ⟨hlive, i, slot, (mem_cleaned hindex).2 ⟨hslot, fun _ => hlive⟩, rfl⟩

theorem Placed.cleaned (h : a.Placed heap) (hindex : index < a.size) :
    (a.setSlots index (liveSlots heap (a.slotsAt index))).Placed heap := by
  intro i slot hslot
  have hwell := h i slot ((mem_cleaned hindex).1 hslot).1
  refine ⟨hwell.knows, hwell.hash, ?_⟩
  rw [home, placeOf, size_setSlots]
  exact hwell.place

end BucketArray

namespace Table

variable {heap : Heap} {t t' : Table} {task : Task}

/-- A later table in which the same objects are found. -/
structure SameObjects (heap : Heap) (t t' : Table) : Prop where
  coherent : t'.Coherent heap
  holds : ∀ o, t'.Holds heap o ↔ t.Holds heap o

theorem Coherent.sameObjects (h : t.Coherent heap) : SameObjects heap t t := ⟨h, fun _ => Iff.rfl⟩

theorem SameObjects.trans {t'' : Table} (h : SameObjects heap t t') (h' : SameObjects heap t' t'') :
    SameObjects heap t t'' := ⟨h'.coherent, fun o => (h'.holds o).trans (h.holds o)⟩

/-- Contents stay unique while the objects stay the same. -/
theorem Coherent.unique_congr (h : t.Coherent heap) (hholds : ∀ o, t'.Holds heap o ↔ t.Holds heap o)
    (o p : ObjectId) (ho : t'.Holds heap o) (hp : t'.Holds heap p)
    (hcontent : heap.content o = heap.content p) :
    o = p :=
  h.unique o p ((hholds o).1 ho) ((hholds p).1 hp) hcontent

/-- **A bucket that is cleaned** loses no object. -/
theorem Coherent.reapBucket (h : t.Coherent heap) (still : t.Still) {index : Nat}
    (hindex : index < t.size) (task : Task) :
    SameObjects heap t (Task.reapBucket heap task t index).2 := by
  obtain ⟨notices, heq⟩ := Task.reapBucket_eq heap task t index
  rw [heq]
  have hholds : ∀ o, Holds heap { t with
      active := t.active.setSlots index (liveSlots heap (t.active.slotsAt index))
      cells := t.cells.releaseAll ((deadSlots heap (t.active.slotsAt index)).map Slot.ref)
      items := t.items - .ofNat (deadSlots heap (t.active.slotsAt index)).length
      notices } o ↔ t.Holds heap o := by
    intro o
    simp only [Holds, still.alone, List.mem_cons, List.not_mem_nil, or_false, exists_eq_left,
      BucketArray.holds_cleaned hindex]
  refine ⟨⟨?_, h.unique_congr hholds, ?_, ?_⟩, hholds⟩
  · intro a ha
    rw [still.alone] at ha
    rw [List.mem_singleton.1 ha]
    exact (h.placed _ List.mem_cons_self).cleaned hindex
  · intro target htarget
    rw [still.alone] at htarget
    exact absurd htarget List.not_mem_nil
  · intro target htarget
    rw [still.alone] at htarget
    exact absurd htarget List.not_mem_nil

/-- **A bucket that is moved**, even if it was moved before, loses no object. -/
theorem Coherent.migrateBucket (h : t.Coherent heap) {target : BucketArray}
    (moving : t.Moving target) {index : Nat} (hindex : index < t.size) (task : Task) :
    SameObjects heap t (Task.migrateBucket heap task t index).2 := by
  obtain ⟨notices, heq⟩ := Task.migrateBucket_eq heap task moving.next index
  rw [heq]
  have htarget : target ∈ t.successors := moving.next ▸ List.mem_singleton_self target
  have hactive := h.placed _ List.mem_cons_self
  have hhashed := hactive.hashed_carried target index
  -- The slots that are carried over stay in the marked bucket as well, so that the objects are the
  -- same as before.
  have hholds : ∀ o, Holds heap { t with
      active := t.active.redirect index
      successors := [target.appendAll
        ((liveSlots heap (t.active.slotsAt index)).map (carried heap t.active target))]
      cells := t.cells.releaseAll ((deadSlots heap (t.active.slotsAt index)).map Slot.ref)
      items := t.items - .ofNat (deadSlots heap (t.active.slotsAt index)).length
      notices } o ↔ t.Holds heap o := by
    intro o
    rw [holds_moving moving]
    simp only [Holds, List.mem_cons, List.not_mem_nil, or_false, exists_eq_or_imp, exists_eq_left,
      BucketArray.holds_redirect hindex, BucketArray.holds_appendAll moving.sized]
    refine ⟨?_, Or.imp_right .inl⟩
    rintro (ho | ho | ⟨hlive, slot, hslot, href⟩)
    · exact .inl ho
    · exact .inr ho
    · obtain ⟨before, hbefore, rfl⟩ := List.mem_map.1 hslot
      exact .inl ⟨hlive, index, before, (mem_liveSlots.1 hbefore).1, href⟩
  refine ⟨⟨?_, h.unique_congr hholds, ?_, ?_⟩, hholds⟩
  · intro a ha
    rcases List.mem_cons.1 ha with rfl | ha
    · exact hactive.redirect hindex
    · rw [List.mem_singleton.1 ha]
      exact (h.placed _ (List.mem_cons_of_mem _ htarget)).appendAll moving.sized hhashed
  · intro target' htarget' i hi slot hslot hlive
    dsimp only at hi hslot
    rw [List.mem_singleton.1 htarget', BucketArray.holds_appendAll moving.sized]
    rw [BucketArray.slotsAt_redirect hindex] at hslot
    rw [BucketArray.isMoved_redirect hindex] at hi
    split at hi
    · next hindex_eq =>
      subst hindex_eq
      exact .inr ⟨hlive, carried heap t.active target slot,
        List.mem_map_of_mem (mem_liveSlots.2 ⟨hslot, hlive⟩), rfl⟩
    · exact .inl (h.followed target htarget i hi slot hslot hlive)
  · intro target' htarget' i slot hslot
    dsimp only
    rw [BucketArray.home_redirect, BucketArray.isMoved_redirect hindex]
    split
    · rfl
    · next hne =>
      rw [List.mem_singleton.1 htarget'] at hslot
      rcases (BucketArray.mem_appendAll moving.sized).1 hslot with hslot | ⟨hslot, -⟩
      · exact h.behind target htarget i slot hslot
      · obtain ⟨before, hbefore, rfl⟩ := List.mem_map.1 hslot
        exact absurd (hactive index before (mem_liveSlots.1 hbefore).1).place.symm hne

theorem Coherent.processBucket (h : t.Coherent heap) {kind : TaskKind} {index : Nat}
    (hhalfway : Task.Halfway kind t index) (hindex : index < t.size) (htask : task.kind = kind) :
    SameObjects heap t (Task.processBucket heap (task, t) index).2 := by
  cases hhalfway with
  | cleaning hkind still =>
    rw [Task.processBucket_cleaning hkind heap htask]
    exact h.reapBucket still hindex task
  | moving hkind target moving suits moved =>
    rw [Task.processBucket_moving hkind heap htask]
    exact h.migrateBucket moving hindex task

/-- The empty array behind the active one holds nothing. -/
theorem Coherent.prepare (h : t.Coherent heap) (still : t.Still) {task' : Task}
    (hprepare : task.prepare t = some (task', t')) : SameObjects heap t t' := by
  obtain ⟨-, -, -, -, rfl⟩ := Task.prepare_eq_some hprepare
  -- Only a task that moves slots puts an array behind the active one.
  by_cases hkind : task.kind = .bulkDelete
  · have hcongr : Coherent heap { t with owned := true } ∧ _ := h.congr rfl rfl
    simp only [hkind, Task.targetArray]
    exact ⟨hcongr.1, hcongr.2⟩
  · obtain ⟨log2, epoch, htarget⟩ := Task.targetArray_ne_bulkDelete hkind t.active
    simp only [htarget]
    have hholds : ∀ o, Holds heap { t with owned := true, successors := [.empty log2 epoch] } o ↔
        t.Holds heap o := by
      intro o
      simp only [Holds, still.alone, List.mem_cons, List.not_mem_nil, or_false, exists_eq_or_imp,
        exists_eq_left, BucketArray.not_holds_empty]
    refine ⟨⟨?_, h.unique_congr hholds, ?_, ?_⟩, hholds⟩
    · intro a ha
      rcases List.mem_cons.1 ha with rfl | ha
      · exact h.placed _ List.mem_cons_self
      · rw [List.mem_singleton.1 ha]
        exact BucketArray.placed_empty heap log2 epoch
    · intro target _ i hi
      dsimp only at hi
      rw [still.unmoved] at hi
      cases hi
    · intro target htarget i slot hslot
      rw [List.mem_singleton.1 htarget, BucketArray.slotsAt_empty] at hslot
      exact absurd hslot List.not_mem_nil

/-- **At the end of a pass** the next array holds every object, so that the active one can go. -/
theorem Coherent.finish (h : t.Coherent heap) (hdrives : task.Drives t)
    (hend : task.cursor = t.size) :
    SameObjects heap t (task.finish t).2.2 := by
  cases hdrives.halfway with
  | cleaning hkind still =>
    rw [Task.finish, Task.publish_cleaning hkind]
    have hcongr : Coherent heap { t with owned := false } ∧ _ := h.congr rfl rfl
    exact ⟨hcongr.1, hcongr.2⟩
  | moving hkind target moving suits moved =>
    rw [Task.finish, Task.publish_moving hkind moving.next]
    have htarget : target ∈ t.successors := moving.next ▸ List.mem_singleton_self target
    have hholds : ∀ o, Holds heap { t with active := target, successors := [], owned := false } o ↔
        t.Holds heap o := by
      intro o
      rw [holds_moving moving]
      simp only [Holds, List.mem_cons, List.not_mem_nil, or_false, exists_eq_left]
      refine ⟨.inr, ?_⟩
      rintro (⟨hlive, i, slot, hslot, rfl⟩ | ho)
      · have hmark := moved i (hend ▸ BucketArray.lt_size_of_mem hslot)
        exact h.followed target htarget i hmark slot hslot hlive
      · exact ho
    refine ⟨⟨?_, h.unique_congr hholds, ?_, ?_⟩, hholds⟩
    · intro a ha
      rw [List.mem_singleton.1 ha]
      exact h.placed _ (List.mem_cons_of_mem _ htarget)
    · exact fun target htarget => absurd htarget List.not_mem_nil
    · exact fun target htarget => absurd htarget List.not_mem_nil

theorem SameObjects.processBucket (h : SameObjects heap t t') {task₀ task : Task} {index : Nat}
    (hindex : index < t.size) (hstage : Task.Stage task₀ t index task t') :
    SameObjects heap t (Task.processBucket heap (task, t') index).2 := by
  have hlt : index < t'.size := by
    rw [Table.size, hstage.frame.size]
    exact hindex
  exact h.trans (h.coherent.processBucket hstage.halfway hlt hstage.same.kind)

theorem Coherent.processChunk (h : t.Coherent heap) (hdrives : task.Drives t) :
    SameObjects heap t (task.processChunk heap t).2 :=
  (hdrives.processChunk_induction (P := fun _ _ t' => SameObjects heap t t')
    (fun _ _ _ hindex hstage hsame => hsame.processBucket hindex hstage)
      (fun _ _ _ _ hsame => hsame)
    (fun _ _ _ _ _ _ hsame => hsame) h.sameObjects).1

theorem Coherent.complete (h : t.Coherent heap) (hdrives : task.Drives t) :
    SameObjects heap t (task.complete heap t).2.2.2 := by
  obtain ⟨task', t', heq, hsame, hdrives', hend, -⟩ :=
    hdrives.complete_induction (P := fun _ _ t' => SameObjects heap t t')
      (fun _ _ _ hindex hstage hsame => hsame.processBucket hindex hstage)
        (fun _ _ _ _ hsame => hsame)
      (fun _ _ _ _ _ _ hsame => hsame) h.sameObjects
  rw [heq]
  exact hsame.trans (hsame.coherent.finish hdrives' hend)

theorem Coherent.abandon (h : t.Coherent heap) (hdrives : task.Drives t) :
    SameObjects heap t (task.abandon heap t) := by
  have hcongr : (t.notify task.abandonNotice).Coherent heap ∧ _ := h.congr rfl rfl
  rw [Task.abandon_eq hdrives]
  exact SameObjects.trans ⟨hcongr.1, hcongr.2⟩ (hcongr.1.complete hdrives.resumed)

theorem Coherent.run_of_atRest (h : t.Coherent heap) (hrest : t.AtRest) (hcursor : task.cursor = 0)
    (hpos : 0 < task.chunk) (hlt : task.chunk < 2 ^ 64) :
    SameObjects heap t (Task.run heap task t).table := by
  rw [Task.run]
  cases hprepare : task.prepare t with
  | none => exact h.sameObjects
  | some pair =>
    obtain ⟨task', t'⟩ := pair
    have hsame := h.prepare hrest.still hprepare
    exact hsame.trans
      (hsame.coherent.complete (Task.drives_prepare hprepare hrest hcursor hpos hlt))

/-- **A task that is run from its start to its end** loses no object. -/
theorem Coherent.run (h : t.Coherent heap) (hsteady : t.Steady) (hlt : t.chunkBuckets < 2 ^ 64)
    (kind : TaskKind) :
    SameObjects heap t (Task.run heap (.new t kind) t).table := by
  cases howned : t.owned with
  | true =>
    rw [Task.run_of_owned howned]
    exact h.sameObjects
  | false =>
    have hpos : 0 < (Task.new t kind).chunk := by
      simp only [Task.new]
      omega
    have hsmall : (Task.new t kind).chunk < 2 ^ 64 := by
      simp only [Task.new]
      omega
    exact h.run_of_atRest (hsteady.rest howned) rfl hpos hsmall

end Table

end WeakIntern
