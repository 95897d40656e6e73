import WeakIntern.Proofs.Alarms
import WeakIntern.Proofs.Shape
/-!
# Chains in order

New slots are linked behind all others, and tasks that move them or clean up keep them in order, so
that as long as the table is under its first hash the references in a chain are those of cells in
the order in which the cells were taken (`Table.Lined`). A task that goes back links some again, but
only behind slots with the same references. It is so whatever is asked of an interner and whatever
tasks do (`World.Lined`), and no slot of a live string is lost on the way (`Table.Ahead`).
-/

namespace WeakIntern

/-! ## References in turn -/

/-- References in the order of their cells. One that has had its turn may occur again. -/
inductive InTurn : List WeakRef → Prop where
  | nil : InTurn []
  | snoc {refs : List WeakRef} {r : WeakRef} (before : InTurn refs)
      (hr : r ∈ refs ∨ ∀ earlier ∈ refs, earlier.id < r.id) :
      InTurn (refs ++ [r])

namespace InTurn

variable {refs before behind more : List WeakRef} {r earlier : WeakRef}

theorem filter (h : InTurn refs) (p : WeakRef → Bool) : InTurn (refs.filter p) := by
  induction h with
  | nil => exact .nil
  | @snoc refs r _ hr ih =>
    rw [List.filter_append, List.filter_singleton]
    cases hp : p r with
    | false => exact (List.append_nil _).symm ▸ ih
    | true =>
      refine ih.snoc (hr.imp (fun hmem => List.mem_filter.2 ⟨hmem, hp⟩) fun hlt earlier hmem => ?_)
      exact hlt earlier (List.mem_filter.1 hmem).1

theorem append_of_mem (h : InTurn refs) (hmore : ∀ r ∈ more, r ∈ refs) : InTurn (refs ++ more) := by
  induction more generalizing refs with
  | nil => exact (List.append_nil refs).symm ▸ h
  | cons r rest ih =>
    obtain ⟨hr, hrest⟩ := List.forall_mem_cons.1 hmore
    rw [List.append_cons]
    exact ih (h.snoc (.inl hr)) fun r hmem => List.mem_append_left _ (hrest r hmem)

/-- A reference with an earlier cell occurs before. -/
theorem mem_before (h : InTurn refs) (hrefs : refs = before ++ r :: behind) (hmem : earlier ∈ refs)
    (hid : earlier.id < r.id) : earlier ∈ before := by
  induction h generalizing before behind with
  | nil => exact absurd hmem List.not_mem_nil
  | @snoc refs last hin hlast ih =>
    rcases List.eq_nil_or_concat behind with rfl | ⟨behind, last', rfl⟩
    · obtain ⟨rfl, hr⟩ := List.append_inj' hrefs rfl
      rcases List.mem_append.1 hmem with hmem | hmem
      · exact hmem
      · rw [List.mem_singleton.1 hmem, (List.cons.inj hr).1] at hid
        exact absurd hid (Nat.lt_irrefl _)
    · rw [List.concat_eq_append, ← List.cons_append, ← List.append_assoc] at hrefs
      have hinit : refs = before ++ r :: behind := List.append_inj_left' hrefs rfl
      rcases List.mem_append.1 hmem with hmem | hmem
      · exact ih hinit hmem
      · obtain rfl := List.mem_singleton.1 hmem
        rcases hlast with hlast | hlast
        · exact ih hinit hlast
        · have hlt := hlast r (hinit ▸ List.mem_append_right _ List.mem_cons_self)
          exact absurd hid (Nat.lt_asymm hlt)

/-- Different references, each of which is the given one or has an earlier cell, are not more than
stand before it. -/
theorem length_le (h : InTurn (before ++ r :: behind)) {others : List WeakRef}
    (hnodup : others.Nodup)
    (hothers : ∀ other ∈ others, other ∈ before ++ r :: behind ∧ (other ≠ r → other.id < r.id)) :
    others.length ≤ before.length + 1 := by
  have hsub : others ⊆ r :: before := by
    intro other hother
    by_cases heq : other = r
    · exact heq ▸ List.mem_cons_self
    · exact List.mem_cons_of_mem _
        (h.mem_before rfl (hothers other hother).1 ((hothers other hother).2 heq))
  exact (hnodup.subperm hsub).length_le

end InTurn

/-- Contents that share a chain share one in each smaller array under the same hash. -/
theorem BucketArray.home_eq_of_dvd {a target : BucketArray} (hdvd : a.size ∣ target.size)
    (hepoch : target.epoch = a.epoch) {s s' : String} (h : target.home s = target.home s') :
    a.home s = a.home s' := by
  simp only [home, placeOf, hepoch] at h ⊢
  rw [← Nat.mod_mod_of_dvd _ hdvd, h, Nat.mod_mod_of_dvd _ hdvd]

namespace CellStore

/-- A store in which all cells of another one exist is not smaller. -/
theorem size_le_of_issued {store store' : CellStore} (h : ∀ r, store.Issued r → store'.Issued r) :
    store.handles.size ≤ store'.handles.size := by
  rcases Nat.eq_zero_or_pos store.handles.size with hzero | hpos
  · exact hzero ▸ Nat.zero_le _
  · obtain ⟨handle, hhandle⟩ : ∃ handle, Handle.at? store.handles store.handles.size =
        some handle := by
      obtain ⟨last, hlast⟩ := Nat.exists_eq_add_one.2 hpos
      exact ⟨_, by rw [hlast]; exact Array.getElem?_eq_getElem (by omega)⟩
    have hlast : store.Issued ⟨store.handles.size, handle.referent⟩ := ⟨handle, hhandle, rfl⟩
    exact (h _ hlast).id_le

end CellStore

/-! ## Chains in order -/

namespace Table

variable {heap : Heap} {t t' : Table} {task : Task} {kind : TaskKind} {index : Nat}

/-- A table in whose chains, under the first hash, slots are in the order in which their cells were
taken. -/
structure Lined (heap : Heap) (t : Table) : Prop where
  coherent : t.Coherent heap
  issued : ∀ r, t.Carries r → t.cells.Issued r
  /-- A live object is linked under one reference. -/
  single : ∀ r r', t.Carries r → t.Carries r' → heap.isLive r.referent = true →
    r.referent = r'.referent → r = r'
  inTurn : ∀ a ∈ t.active :: t.successors, a.epoch = .default → ∀ i,
    InTurn ((a.slotsAt i).map Slot.ref)

/-- What a task that moves slots or reaps them leaves as it was. -/
structure Tends (heap : Heap) (t t' : Table) : Prop where
  same : SameObjects heap t t'
  reuses : t.Reuses t'
  alarmLength : t'.alarmLength = t.alarmLength
  inTurn : ∀ a ∈ t'.active :: t'.successors, a.epoch = .default → ∀ i,
    InTurn ((a.slotsAt i).map Slot.ref)

theorem Tends.lined (h : Tends heap t t') (hlined : t.Lined heap) : t'.Lined heap where
  coherent := h.same.coherent
  issued r hr := h.reuses.issued r (hlined.issued r (h.reuses.carries r hr))
  single r r' hr hr' := hlined.single r r' (h.reuses.carries r hr) (h.reuses.carries r' hr')
  inTurn := h.inTurn

theorem Lined.tends (h : t.Lined heap) : Tends heap t t :=
  ⟨h.coherent.sameObjects, .refl t, rfl, h.inTurn⟩

theorem Tends.trans {t'' : Table} (h : Tends heap t t') (h' : Tends heap t' t'') :
    Tends heap t t'' :=
  ⟨h.same.trans h'.same, h.reuses.trans h'.reuses, h'.alarmLength.trans h.alarmLength, h'.inTurn⟩

/-! ## Tasks -/

/-- The references that are carried over into a bucket. -/
theorem refs_carried {a target : BucketArray} (hplaced : a.Placed heap) (i : Nat) :
    (((liveSlots heap (a.slotsAt index)).map (carried heap a target)).filter
        fun slot => target.placeOf slot.hash = i).map Slot.ref =
      ((a.slotsAt index).map Slot.ref).filter fun r =>
        heap.isLive r.referent && target.home (heap.content r.referent) = i := by
  have hhashed := hplaced.hashed_carried target index
  rw [List.filter_map, List.map_map, List.filter_map, liveSlots, List.filter_filter]
  refine congrArg _ (List.filter_congr fun slot hslot => ?_)
  simp only [Function.comp, WeakRef.isDead, Bool.not_not]
  cases hlive : heap.isLive slot.ref.referent with
  | false => simp
  | true =>
    have hhash := (hhashed _ (List.mem_map_of_mem (mem_liveSlots.2 ⟨hslot, hlive⟩))).hash
    rw [hhash, Bool.true_and, Bool.and_true]
    rfl

/-- A chain that slots are carried over into is in turn: it was empty before, or it has the same
references already. -/
theorem Lined.inTurn_carried (h : t.Lined heap) {target : BucketArray} (hmoving : t.Moving target)
    (hdvd : t.active.size ∣ target.size) (hepoch : target.epoch = t.active.epoch)
    (hdefault : target.epoch = .default) (index i : Nat) : InTurn (((target.appendAll
      ((liveSlots heap (t.active.slotsAt index)).map (carried heap t.active target))).slotsAt i).map
        Slot.ref) := by
  have htarget : target ∈ t.successors := hmoving.next ▸ List.mem_singleton_self target
  have hplaced := h.coherent.placed _ List.mem_cons_self
  have hplaced' := h.coherent.placed _ (List.mem_cons_of_mem _ htarget)
  have hmem : ∀ r ∈ ((t.active.slotsAt index).map Slot.ref).filter (fun r =>
      heap.isLive r.referent && target.home (heap.content r.referent) = i),
        ∃ slot ∈ t.active.slotsAt index, slot.ref = r ∧ heap.isLive r.referent = true ∧
        target.home (heap.content r.referent) = i := by
    intro r hr
    rw [List.mem_filter, List.mem_map, Bool.and_eq_true, decide_eq_true_eq] at hr
    obtain ⟨⟨slot, hslot, rfl⟩, hlive, hhome⟩ := hr
    exact ⟨slot, hslot, rfl, hlive, hhome⟩
  rw [BucketArray.slotsAt_appendAll hmoving.sized.pos, List.map_append, refs_carried hplaced]
  have hin := h.inTurn target (List.mem_cons_of_mem _ htarget) hdefault i
  have hin' := (h.inTurn _ List.mem_cons_self (hepoch.symm.trans hdefault) index).filter fun r =>
    heap.isLive r.referent && target.home (heap.content r.referent) = i
  generalize ((t.active.slotsAt index).map Slot.ref).filter _ = more at hmem hin' ⊢
  cases hmark : t.active.isMoved index with
  | true =>
    refine hin.append_of_mem fun r hr => ?_
    obtain ⟨slot, hslot, rfl, hlive, hhome⟩ := hmem r hr
    obtain ⟨-, j, slot', hslot', href⟩ :=
      h.coherent.followed target htarget index hmark slot hslot hlive
    have hsame :=
      h.single slot'.ref slot.ref ⟨target, List.mem_cons_of_mem _ htarget, j, slot', hslot', rfl⟩
      ⟨t.active, List.mem_cons_self, index, slot, hslot, rfl⟩ (href ▸ hlive) href
    have hj := (hplaced' j slot' hslot').place
    rw [href, hhome] at hj
    exact List.mem_map.2 ⟨slot', hj ▸ hslot', hsame⟩
  | false =>
    cases more with
    | nil => exact (List.append_nil _).symm ▸ hin
    | cons r rest =>
      obtain ⟨slot, hslot, rfl, -, hhome⟩ := hmem r List.mem_cons_self
      have hempty : target.slotsAt i = [] := by
        refine List.eq_nil_iff_forall_not_mem.2 fun slot' hslot' => ?_
        have hmoved := h.coherent.behind target htarget i slot' hslot'
        have hhome' := (hplaced' i slot' hslot').place
        rw [BucketArray.home_eq_of_dvd hdvd hepoch (hhome'.trans hhome.symm),
          (hplaced index slot hslot).place, hmark] at hmoved
        cases hmoved
      rw [hempty]
      exact hin'

theorem Lined.tends_processBucket (h : t.Lined heap) (hfits : t.layout.Fits)
    (hsized : t.active.Sized) (hhalfway : Task.Halfway kind t index) (hindex : index < t.size)
    (htask : task.kind = kind) :
    Tends heap t (Task.processBucket heap (task, t) index).2 := by
  refine ⟨h.coherent.processBucket hhalfway hindex htask,
    reuses_processBucket hhalfway hindex htask,
    (Task.processBucket_sameFrame hhalfway heap htask index).alarmLength, ?_⟩
  cases hhalfway with
  | cleaning hkind still =>
    obtain ⟨_, heq⟩ := Task.reapBucket_eq heap task t index
    rw [Task.processBucket_cleaning hkind heap htask, heq]
    intro a ha hdefault i
    dsimp only at ha
    rw [still.alone, List.mem_singleton] at ha
    subst ha
    have hin := h.inTurn _ List.mem_cons_self hdefault i
    rw [BucketArray.slotsAt_setSlots _ hindex]
    split
    · next hi =>
      subst hi
      have hlive : (liveSlots heap (t.active.slotsAt index)).map Slot.ref =
          ((t.active.slotsAt index).map Slot.ref).filter fun r => !r.isDead heap := by
        rw [List.filter_map]
        rfl
      exact hlive ▸ hin.filter _
    · exact hin
  | moving hkind target moving suits moved =>
    obtain ⟨_, heq⟩ := Task.migrateBucket_eq heap task moving.next index
    rw [Task.processBucket_moving hkind heap htask, heq]
    intro a ha hdefault i
    rcases List.mem_cons.1 ha with rfl | ha
    · rw [BucketArray.slotsAt_redirect hindex]
      exact h.inTurn _ List.mem_cons_self hdefault i
    · obtain rfl := List.mem_singleton.1 ha
      rw [BucketArray.epoch_appendAll] at hdefault
      -- The next array is under the first hash only if the task grows the table.
      obtain ⟨blank, hblank, hlog2, hepoch⟩ := suits
      cases hk : kind with
      | bulkDelete => exact absurd hk hkind
      | rehash seed =>
        rw [hk] at hblank
        cases hblank
        rw [hdefault] at hepoch
        cases hepoch
      | grow =>
        rw [hk] at hblank
        cases hblank
        refine h.inTurn_carried moving ?_ hepoch hdefault index i
        have hle : t.active.log2 ≤ Settings.maxLog2Limit :=
          Nat.le_trans hfits.log2_le hfits.maxLog2_le
        rw [hsized, moving.sized, hlog2]
        refine Nat.pow_dvd_pow 2 ?_
        simp only [Settings.maxLog2Limit, BucketArray.empty] at hle ⊢
        omega

theorem Lined.tends_prepare (h : t.Lined heap) (still : t.Still) {task' : Task}
    (hprepare : task.prepare t = some (task', t')) : Tends heap t t' := by
  refine ⟨h.coherent.prepare still hprepare, reuses_prepare still hprepare, ?_, ?_⟩
  · obtain ⟨-, -, -, -, rfl⟩ := Task.prepare_eq_some hprepare
    rfl
  · obtain ⟨-, -, -, -, rfl⟩ := Task.prepare_eq_some hprepare
    intro a ha hdefault i
    rcases List.mem_cons.1 ha with rfl | ha
    · exact h.inTurn _ List.mem_cons_self hdefault i
    · by_cases hkind : task.kind = .bulkDelete
      · simp only [hkind, Task.targetArray] at ha
        exact h.inTurn a (List.mem_cons_of_mem _ ha) hdefault i
      · obtain ⟨log2, epoch, htarget⟩ := Task.targetArray_ne_bulkDelete hkind t.active
        simp only [htarget] at ha
        rw [List.mem_singleton.1 ha, BucketArray.slotsAt_empty]
        exact .nil

theorem Lined.tends_finish (h : t.Lined heap) (hdrives : task.Drives t)
    (hend : task.cursor = t.size) :
    Tends heap t (task.finish t).2.2 := by
  have hsame := h.coherent.finish hdrives hend
  have hreuses := reuses_finish hdrives
  cases hdrives.halfway with
  | cleaning hkind still =>
    rw [Task.finish, Task.publish_cleaning hkind] at hsame hreuses ⊢
    exact ⟨hsame, hreuses, rfl, h.inTurn⟩
  | moving hkind target moving suits moved =>
    rw [Task.finish, Task.publish_moving hkind moving.next] at hsame hreuses ⊢
    refine ⟨hsame, hreuses, rfl, fun a ha => h.inTurn a ?_⟩
    rw [moving.next]
    exact List.mem_cons_of_mem _ ha

theorem Tends.processBucket (h : Tends heap t t') (hlined : t.Lined heap) (hfits : t.layout.Fits)
    (hsized : t.active.Sized) {task₀ : Task} (hindex : index < t.size)
    (hstage : Task.Stage task₀ t index task t') :
    Tends heap t (Task.processBucket heap (task, t') index).2 := by
  have hlt : index < t'.size := by
    rw [Table.size, hstage.frame.size]
    exact hindex
  have hsized' : t'.active.Sized := by
    rw [BucketArray.Sized, hstage.frame.size, hstage.frame.log2]
    exact hsized
  exact h.trans ((h.lined hlined).tends_processBucket
    (hstage.frame.layout ▸ hfits) hsized' hstage.halfway hlt hstage.same.kind)

theorem Lined.tends_processChunk (h : t.Lined heap) (hfits : t.layout.Fits)
    (hdrives : task.Drives t) :
    Tends heap t (task.processChunk heap t).2 :=
  (hdrives.processChunk_induction (P := fun _ _ t' => Tends heap t t')
    (fun _ _ _ hindex hstage htends => htends.processBucket h hfits hdrives.sized hindex hstage)
      (fun _ _ _ _ htends => htends)
    (fun _ _ _ _ _ _ htends => htends) h.tends).1

theorem Lined.tends_complete (h : t.Lined heap) (hfits : t.layout.Fits) (hdrives : task.Drives t) :
    Tends heap t (task.complete heap t).2.2.2 := by
  obtain ⟨task', t', heq, htends, hdrives', hend, -⟩ :=
    hdrives.complete_induction (P := fun _ _ t' => Tends heap t t')
      (fun _ _ _ hindex hstage htends => htends.processBucket h hfits hdrives.sized hindex hstage)
        (fun _ _ _ _ htends => htends)
      (fun _ _ _ _ _ _ htends => htends) h.tends
  rw [heq]
  exact htends.trans ((htends.lined h).tends_finish hdrives' hend)

theorem Lined.tends_abandon (h : t.Lined heap) (hfits : t.layout.Fits) (hdrives : task.Drives t) :
    Tends heap t (task.abandon heap t) := by
  have hcongr : (t.notify task.abandonNotice).Coherent heap ∧ _ := h.coherent.congr rfl rfl
  have hnotified : Tends heap t (t.notify task.abandonNotice) :=
    ⟨⟨hcongr.1, hcongr.2⟩, .of_eq rfl rfl rfl, rfl, h.inTurn⟩
  rw [Task.abandon_eq hdrives]
  exact hnotified.trans ((hnotified.lined h).tends_complete hfits hdrives.resumed)

/-! ## Inserts -/

section Insert

variable {o : ObjectId} {ref : WeakRef} {placement : Placement}

/-- What an insert puts into a slot is its own reference, and that only if nobody held the
object. -/
theorem Lined.carries_insert (h : t.Lined heap) (hformed : t.Formed) (hsized : t.active.Sized)
    (hlive : heap.isLive o = true) (href : ref.referent = o)
    (hins : Inserted t heap o ref placement t') {r : WeakRef} (hr : t'.Carries r) :
    t.Carries r ∨ r = ref ∧ ¬ t.Holds heap o := by
  have hsettles := (h.coherent.insert hformed hsized hlive href hins).2
  have hcarries := (hins.carries hsized hr).symm
  cases hins with
  | existing p notices a hmem hfind => exact .inl hr
  | active hmark hfind =>
    exact hcarries.imp_right fun heq => ⟨heq, fun hholds => hsettles.1 o hholds rfl⟩
  | next target moving hmark hfind =>
    exact hcarries.imp_right fun heq => ⟨heq, fun hholds => hsettles.1 o hholds rfl⟩

/-- A slot that is linked last has the last cell. -/
theorem InTurn.append_slotFor {a : BucketArray} (hsized : a.Sized) {i : Nat}
    (hin : InTurn ((a.slotsAt i).map Slot.ref))
    (hlast : ∀ slot ∈ a.slotsAt i, slot.ref.id < ref.id) :
    InTurn (((a.append (a.slotFor heap o ref)).slotsAt i).map Slot.ref) := by
  rw [BucketArray.slotsAt_append hsized.pos]
  split
  · rw [List.map_append]
    exact hin.snoc (.inr (List.forall_mem_map.2 hlast))
  · exact hin

theorem Lined.insert (h : t.Lined heap) (hformed : t.Formed) (hsized : t.active.Sized)
    (hlive : heap.isLive o = true) (href : ref.referent = o) (hissued : t.cells.Issued ref)
    (hlast : ∀ r, t.Carries r → r.id < ref.id) (hins : Inserted t heap o ref placement t') :
    t'.Lined heap where
  coherent := (h.coherent.insert hformed hsized hlive href hins).1
  issued r hr := by
    rcases h.carries_insert hformed hsized hlive href hins hr with hr | ⟨rfl, -⟩
    · exact hins.issued (h.issued r hr)
    · exact hins.issued hissued
  single r r' hr hr' hrlive hsame := by
    have hheld {q : WeakRef} (hq : t.Carries q) (hqref : q.referent = o) : t.Holds heap o := by
      obtain ⟨a, ha, i, slot, hslot, rfl⟩ := hq
      exact ⟨a, ha, hlive, i, slot, hslot, hqref⟩
    rcases h.carries_insert hformed hsized hlive href hins hr with hr | ⟨rfl, hnot⟩ <;>
      rcases h.carries_insert hformed hsized hlive href hins hr' with hr' | ⟨rfl, hnot'⟩
    · exact h.single r r' hr hr' hrlive hsame
    · exact absurd (hheld hr (hsame.trans href)) hnot'
    · exact absurd (hheld hr' (hsame.symm.trans href)) hnot
    · rfl
  inTurn a ha hdefault i := by
    cases hins with
    | existing p notices b hmem hfind => exact h.inTurn a ha hdefault i
    | active hmark hfind =>
      rcases List.mem_cons.1 ha with rfl | ha
      · exact InTurn.append_slotFor hsized (h.inTurn _ List.mem_cons_self hdefault i)
          fun slot hslot => hlast _ ⟨_, List.mem_cons_self, i, slot, hslot, rfl⟩
      · exact h.inTurn a (List.mem_cons_of_mem _ ha) hdefault i
    | next target moving hmark hfind =>
      rcases List.mem_cons.1 ha with rfl | ha
      · exact h.inTurn _ List.mem_cons_self hdefault i
      · obtain rfl := List.mem_singleton.1 ha
        have htarget : target ∈ t.active :: t.successors := by simp [moving.next]
        exact InTurn.append_slotFor moving.sized (h.inTurn target htarget hdefault i)
          fun slot hslot => hlast _ ⟨target, htarget, i, slot, hslot, rfl⟩

end Insert

/-! ## Earlier and later tables -/

/-- A later heap with a later table. What was held is held as long as it lives, and a live object
under a new reference was not held. -/
structure Ahead (heap : Heap) (t : Table) (heap' : Heap) (t' : Table) : Prop where
  later : Heap.Later heap heap'
  alarmLength : t'.alarmLength = t.alarmLength
  size_le : t.cells.handles.size ≤ t'.cells.handles.size
  holds : ∀ o, t.Holds heap o → heap'.isLive o = true → t'.Holds heap' o
  carries : ∀ r, t'.Carries r → heap'.isLive r.referent = true →
    t.Carries r ∨ t.cells.handles.size < r.id ∧ ¬ t.Holds heap r.referent

section Ahead

variable {heap' heap'' : Heap} {t'' : Table} {r : WeakRef}

theorem Ahead.refl (heap : Heap) (t : Table) : Ahead heap t heap t :=
  ⟨.refl heap, rfl, Nat.le_refl _, fun _ hholds _ => hholds, fun _ hr _ => .inl hr⟩

theorem Carries.knows (hr : t.Carries r) (hcoherent : t.Coherent heap) : heap.Knows r.referent := by
  obtain ⟨a, ha, i, slot, hslot, rfl⟩ := hr
  exact (hcoherent.placed a ha i slot hslot).knows

theorem Carries.holds (hr : t.Carries r) (hlive : heap.isLive r.referent = true) :
    t.Holds heap r.referent := by
  obtain ⟨a, ha, i, slot, hslot, rfl⟩ := hr
  exact ⟨a, ha, hlive, i, slot, hslot, rfl⟩

theorem Ahead.trans (h : Ahead heap t heap' t') (h' : Ahead heap' t' heap'' t'')
    (hcoherent : t'.Coherent heap') :
    Ahead heap t heap'' t'' where
  later := h.later.trans h'.later
  alarmLength := h'.alarmLength.trans h.alarmLength
  size_le := Nat.le_trans h.size_le h'.size_le
  holds o hholds hlive :=
    have hknows := h.later.knows o (Heap.knows_of_isLive hholds.isLive)
    h'.holds o (h.holds o hholds (h'.later.live o hknows hlive)) hlive
  carries r hr hlive := by
    rcases h'.carries r hr hlive with hr | ⟨hnew, hnot⟩
    · exact h.carries r hr (h'.later.live _ (hr.knows hcoherent) hlive)
    · refine .inr ⟨Nat.lt_of_le_of_lt h.size_le hnew, fun hholds => hnot ?_⟩
      have hknows := h.later.knows _ (Heap.knows_of_isLive hholds.isLive)
      exact h.holds _ hholds (h'.later.live _ hknows hlive)

theorem Lined.ahead_later (h : t.Lined heap) (hlater : Heap.Later heap heap') :
    t.Lined heap' ∧ Ahead heap t heap' t := by
  refine ⟨⟨h.coherent.later hlater, h.issued, fun r r' hr hr' hlive => ?_, h.inTurn⟩, hlater, rfl,
    Nat.le_refl _,
    fun o hholds hlive => (h.coherent.holds_later_iff hlater).2 ⟨hholds, hlive⟩,
    fun _ hr _ => .inl hr⟩
  exact h.single r r' hr hr' (hlater.live _ (hr.knows h.coherent) hlive)

theorem Tends.ahead (h : Tends heap t t') : Ahead heap t heap t' :=
  ⟨.refl heap, h.alarmLength, CellStore.size_le_of_issued h.reuses.issued,
    fun o hholds _ => (h.same.holds o).2 hholds,
    fun r hr _ => .inl (h.reuses.carries r hr)⟩

/-- **An object that is linked** gets the last cell. -/
theorem Lined.ahead_link (h : t.Lined heap) (hsteady : t.Steady) {o : ObjectId}
    (hlive : heap.isLive o = true) :
    ((t.acquire o).2.insertIfAbsent heap o (t.acquire o).1).2.Lined heap ∧
      Ahead heap t heap ((t.acquire o).2.insertIfAbsent heap o (t.acquire o).1).2 := by
  have hcongr : (t.acquire o).2.Coherent heap ∧ _ := h.coherent.congr rfl rfl
  have hacquired : (t.acquire o).2.Lined heap :=
    ⟨hcongr.1, fun r hr => (h.issued r hr).acquire o, h.single, h.inTurn⟩
  have hsteady' : (t.acquire o).2.Steady := hsteady.congr rfl rfl rfl
  have hissued : (t.acquire o).2.cells.Issued (t.acquire o).1 :=
    ((CellStore.inUse_acquire o).2 (.inl rfl)).issued
  have hid : (t.acquire o).1.id = t.cells.handles.size + 1 := t.cells.id_acquire o
  have hlast : ∀ r, t.Carries r → r.id < (t.acquire o).1.id := fun r hr =>
    hid ▸ Nat.lt_succ_of_le (h.issued r hr).id_le
  have hins := insertIfAbsent_inserted hsteady'.formed heap o (t.acquire o).1
  have hsettles := (hcongr.1.insert hsteady'.formed hsteady'.sized hlive rfl hins).2
  have hcarries {r : WeakRef} :=
    hacquired.carries_insert hsteady'.formed hsteady'.sized hlive rfl hins (r := r)
  refine ⟨hacquired.insert hsteady'.formed hsteady'.sized hlive rfl hissued hlast hins, .refl heap,
    hins.sameFrame.alarmLength, CellStore.size_le_of_issued fun r hr => hins.issued (hr.acquire o),
    fun p hp _ => ?_,
    fun r hr _ => (hcarries hr).imp_right ?_⟩
  · generalize (t.acquire o).2.insertIfAbsent heap o (t.acquire o).1 = result at hsettles ⊢
    obtain ⟨⟨placement, alarm⟩, t'⟩ := result
    cases placement with
    | existing q => exact (hsettles.2.2 p).2 hp
    | linked => exact (hsettles.2 p).2 (.inl hp)
    | stranded => exact hsettles.elim
  · rintro ⟨rfl, hnot⟩
    exact ⟨hid ▸ Nat.lt_succ_self _, hnot⟩

end Ahead

end Table

/-! ## Whatever happens -/

namespace World

variable {w w' : World}

/-- A world in order, with a table whose chains are. -/
structure Lined (w : World) : Prop where
  orderly : w.Orderly
  roomy : w.Roomy
  lined : w.table.Lined w.heap

/-- **A step of a task** leaves chains in order. -/
theorem Lined.effect {back : Bool} (h : w.Lined) (heff : Effect w back w') :
    w'.Lined ∧ Table.Ahead w.heap w.table w'.heap w'.table := by
  have htends : Table.Tends w.heap w.table w'.table := by
    cases heff with
    | tasks tasks horderly hsame hnone => exact h.lined.tends
    | prepared i task task' t' hi hrest hprepare hdrives =>
      exact h.lined.tends_prepare hrest.still hprepare
    | chunk i task hi hrunning hdrives => exact h.lined.tends_processChunk h.roomy.fits hdrives
    | commit i task hi hrunning hdrives hend => exact h.lined.tends_finish hdrives hend
    | abandon i task hi hdrives => exact h.lined.tends_abandon h.roomy.fits hdrives
  have hheap : w'.heap = w.heap := heff.aside.1
  refine ⟨⟨heff.orderly h.orderly, heff.roomy h.orderly h.roomy, ?_⟩, ?_⟩
  · rw [hheap]
    exact htends.lined h.lined
  · rw [hheap]
    exact htends.ahead

/-- **A task that is run** leaves chains in order. -/
theorem Lined.tends_run (h : w.Lined) (kind : TaskKind) :
    Table.Tends w.heap w.table (Task.run w.heap (.new w.table kind) w.table).table := by
  rw [Task.run]
  cases hprepare : (Task.new w.table kind).prepare w.table with
  | none => exact h.lined.tends
  | some pair =>
    obtain ⟨task', t'⟩ := pair
    have hstarts := Task.prepare_eq_some hprepare
    have hrest := h.orderly.steady.rest hstarts.2.1
    have hprepared := h.lined.tends_prepare hrest.still hprepare
    have hlayout : t'.layout = w.table.layout := by rw [hstarts.2.2.2.2]; rfl
    exact hprepared.trans ((hprepared.lined h.lined).tends_complete (hlayout ▸ h.roomy.fits)
      (Task.drives_prepare_new hprepare hrest h.orderly.chunkBuckets_lt))

/-- **Whatever an interner is asked**, chains are left in order. -/
theorem Lined.errands (h : w.Lined) {heap : Heap} {t : Table}
    (herrands : Errands w.heap w.table heap t) :
    Lined { w with heap, table := t } ∧ Table.Ahead w.heap w.table heap t := by
  have hworld {heap : Heap} {t : Table} (herrands : Errands w.heap w.table heap t)
      (hlined : t.Lined heap) :
      Lined { w with heap, table := t } :=
    ⟨h.orderly.errands herrands, h.roomy.errands h.orderly herrands, hlined⟩
  suffices hlined :
    t.Lined heap ∧ Table.Ahead w.heap w.table heap t from ⟨hworld herrands hlined.1, hlined.2⟩
  induction herrands with
  | none => exact ⟨h.lined, .refl _ _⟩
  | later before hlater ih =>
    obtain ⟨hlined, hahead⟩ := ih
    obtain ⟨hlined', hahead'⟩ := hlined.ahead_later hlater
    exact ⟨hlined', hahead.trans hahead' hlined.coherent⟩
  | link before hlive ih =>
    obtain ⟨hlined, hahead⟩ := ih
    obtain ⟨hlined', hahead'⟩ := hlined.ahead_link (h.orderly.errands before).steady hlive
    exact ⟨hlined', hahead.trans hahead' hlined.coherent⟩
  | run before kind ih =>
    obtain ⟨hlined, hahead⟩ := ih
    have htends := (hworld before hlined).tends_run kind
    exact ⟨htends.lined hlined, hahead.trans htends.ahead hlined.coherent⟩
  | @aside heap t before listener notices ih =>
    obtain ⟨hlined, hahead⟩ := ih
    have hcongr : Table.Coherent heap { t with cells := { t.cells with listener }, notices } ∧ _ :=
      hlined.coherent.congr rfl rfl
    exact ⟨⟨hcongr.1, hlined.issued, hlined.single, hlined.inTurn⟩,
      hahead.later, hahead.alarmLength, hahead.size_le, hahead.holds, hahead.carries⟩

theorem lined_start {settings : Settings} (hcheck : settings.check = .ok ()) (cells : CellStore)
    (heap : Heap) :
    (start settings cells heap).Lined := by
  have hslots : ∀ a ∈ (start settings cells heap).table.active ::
      (start settings cells heap).table.successors, ∀ i, a.slotsAt i = [] := by
    intro a ha i
    rw [List.mem_singleton.1 ha]
    exact BucketArray.slotsAt_empty _ _ i
  refine ⟨orderly_start settings cells heap, ⟨Workshop.fits_firstLayout hcheck, nofun⟩,
    (Table.mirrors_ofSettings settings cells heap).coherent,
    (celled_start settings cells heap).slots, ?_, ?_⟩
  · rintro r - ⟨a, ha, i, slot, hslot, -⟩
    rw [hslots a ha i] at hslot
    exact absurd hslot List.not_mem_nil
  · intro a ha _ i
    rw [hslots a ha i]
    exact .nil

end World

end WeakIntern
