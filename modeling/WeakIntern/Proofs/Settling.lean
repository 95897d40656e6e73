import WeakIntern.Proofs.Accounting
/-!
# What a task has done when it commits

From the moment a task takes its table to its commit anything may run: inserts, lookups, dropped
references, and the steps of other tasks. At the commit, every slot that was dead when the task
began is gone and its cell was given back; every slot that was linked at any time since and whose
string is alive is linked once, under the reference it had; and the task has counted what it did
(`task_settles`).

All this needs that the task does not go back over buckets that it has moved, as a chunk that wraps
around makes it do (`settling_fails_after_wrapped_chunk`).
-/

namespace WeakIntern

open scoped List

namespace Task

variable {heap : Heap} {task : Task} {t t' : Table}

/-- What a task has counted agrees. -/
structure Tallied (task : Task) : Prop where
  moving : task.kind ≠ .bulkDelete → task.examined = task.moved + task.reclaimed
  cleaning : task.kind = .bulkDelete → task.moved = 0 ∧ task.reclaimed ≤ task.examined

/-- A task that has done nothing has counted nothing. -/
theorem tallied_of_fresh (hexamined : task.examined = 0) (hmoved : task.moved = 0)
    (hreclaimed : task.reclaimed = 0) :
    task.Tallied :=
  ⟨fun _ => by omega, fun _ => ⟨hmoved, by omega⟩⟩

theorem Tallied.processBucket {kind : TaskKind} {index : Nat} (h : task.Tallied)
    (hhalfway : Halfway kind t index) (htask : task.kind = kind) :
    (Task.processBucket heap (task, t) index).1.Tallied := by
  cases hhalfway with
  | cleaning hkind still =>
    obtain ⟨_, heq⟩ := reapBucket_eq heap task t index
    rw [processBucket_cleaning hkind heap htask, heq]
    refine ⟨fun hmoving => absurd (htask.trans hkind) hmoving, fun _ => ?_⟩
    obtain ⟨hmoved, hle⟩ := h.cleaning (htask.trans hkind)
    have hdead : (deadSlots heap (t.active.slotsAt index)).length ≤
        (t.active.slotsAt index).length :=
      List.length_filter_le _ _
    exact ⟨hmoved, Nat.add_le_add hle hdead⟩
  | moving hkind target moving suits moved =>
    obtain ⟨_, heq⟩ := migrateBucket_eq heap task moving.next index
    rw [processBucket_moving hkind heap htask, heq]
    refine ⟨fun _ => ?_, fun hcleaning => absurd (htask.symm.trans hcleaning) hkind⟩
    have hexamined := h.moving (htask ▸ hkind)
    have hparts := (BucketArray.dead_append_live heap (t.active.slotsAt index)).length_eq
    rw [List.length_append] at hparts
    simp only [count]
    omega

/-- What a task has been over does not link the reference any more. -/
structure Purged (kind : TaskKind) (t : Table) (done : Nat) (r : WeakRef) : Prop where
  cleaned : kind = .bulkDelete → ∀ i, i < done → ∀ slot ∈ t.active.slotsAt i, slot.ref ≠ r
  moved : kind ≠ .bulkDelete → ∀ target ∈ t.successors, ∀ i, ∀ slot ∈ target.slotsAt i, slot.ref ≠ r

variable {kind : TaskKind} {r : WeakRef}

theorem purged_prepare {task' : Task} (hprepare : task.prepare t = some (task', t')) (r : WeakRef) :
    Purged task'.kind t' 0 r := by
  obtain ⟨-, -, -, rfl, rfl⟩ := prepare_eq_some hprepare
  refine ⟨fun _ i hi => absurd hi (Nat.not_lt_zero i), ?_⟩
  intro hkind target htarget i slot hslot
  obtain ⟨log2, epoch, hempty⟩ := targetArray_ne_bulkDelete hkind t.active
  simp only at hempty htarget
  rw [hempty] at htarget
  rw [List.mem_singleton.1 htarget, BucketArray.slotsAt_empty] at hslot
  exact absurd hslot List.not_mem_nil

theorem Purged.of_le {done done' : Nat} (h : Purged kind t done r) (hle : done' ≤ done) :
    Purged kind t done' r :=
  ⟨fun hkind i hi => h.cleaned hkind i (by omega), h.moved⟩

theorem Purged.processBucket {index : Nat} (h : Purged kind t index r)
    (hhalfway : Halfway kind t index) (hindex : index < t.size) (htask : task.kind = kind)
    (hdead : r.isDead heap = true) :
    Purged kind (Task.processBucket heap (task, t) index).2 (index + 1) r := by
  -- What is kept or carried over is alive, and the dead reference is not among it.
  have hnot : ∀ slot ∈ liveSlots heap (t.active.slotsAt index), slot.ref ≠ r := by
    rintro slot hslot rfl
    have hlive := (mem_liveSlots.1 hslot).2
    rw [isDead_iff, hlive] at hdead
    cases hdead
  cases hhalfway with
  | cleaning hkind still =>
    obtain ⟨_, heq⟩ := reapBucket_eq heap task t index
    rw [processBucket_cleaning hkind heap htask, heq]
    refine ⟨?_, fun hmoving => absurd hkind hmoving⟩
    intro _ i hi slot hslot
    dsimp only at hslot
    rw [BucketArray.slotsAt_setSlots _ hindex] at hslot
    split at hslot
    · exact hnot slot hslot
    · exact h.cleaned hkind i (by omega) slot hslot
  | moving hkind target moving suits moved =>
    obtain ⟨_, heq⟩ := migrateBucket_eq heap task moving.next index
    rw [processBucket_moving hkind heap htask, heq]
    refine ⟨fun hcleaning => absurd hcleaning hkind, ?_⟩
    intro _ target' htarget' i slot hslot
    rw [List.mem_singleton.1 htarget'] at hslot
    rw [BucketArray.slotsAt_appendAll moving.sized.pos, List.mem_append] at hslot
    rcases hslot with hslot | hslot
    · exact h.moved hkind target (moving.next ▸ List.mem_singleton_self target) i slot hslot
    · obtain ⟨before, hbefore, rfl⟩ := List.mem_map.1 (List.mem_filter.1 hslot).1
      exact hnot before hbefore

/-- An insert of another reference brings none back. -/
theorem Purged.insert {o : ObjectId} {ref : WeakRef} {placement : Table.Placement} {done : Nat}
    (h : Purged kind t done r) (hins : Table.Inserted t heap o ref placement t')
    (hsized : t.active.Sized) (hne : ref ≠ r) : Purged kind t' done r := by
  have hslot : ∀ {a : BucketArray} {i : Nat} {slot : Slot}, a.Sized →
      slot ∈ (a.append (a.slotFor heap o ref)).slotsAt i → slot ∈ a.slotsAt i ∨ slot.ref ≠ r := by
    intro a i slot ha hslot
    rcases (BucketArray.mem_append_slotFor ha).1 hslot with hslot | ⟨rfl, -⟩
    · exact .inl hslot
    · exact .inr hne
  cases hins with
  | existing p notices a hmem hfind => exact ⟨h.cleaned, h.moved⟩
  | active hmark hfind =>
    exact ⟨fun hkind i hi slot hmem => (hslot hsized hmem).elim (h.cleaned hkind i hi slot) id,
      h.moved⟩
  | next target moving hmark hfind =>
    refine ⟨h.cleaned, ?_⟩
    intro hkind target' htarget' i slot hmem
    rw [List.mem_singleton.1 htarget'] at hmem
    exact (hslot moving.sized hmem).elim
      (h.moved hkind target (moving.next ▸ List.mem_singleton_self target) i slot) id

/-- At the end of the pass it is not linked at all. -/
theorem Purged.finish (h : Purged task.kind t task.cursor r) (hdrives : task.Drives t)
    (hend : task.cursor = t.size) :
    r ∉ (task.finish t).2.2.linkedRefs := by
  intro hr
  obtain ⟨slot, hslot, rfl⟩ := List.mem_map.1 hr
  cases hdrives.halfway with
  | cleaning hkind still =>
    rw [Task.finish, publish_cleaning hkind, Table.linked, still.alone] at hslot
    obtain ⟨i, hi⟩ := BucketArray.mem_slots.1 hslot
    exact h.cleaned hkind i (hend ▸ BucketArray.lt_size_of_mem hi) slot hi rfl
  | moving hkind target moving suits moved =>
    rw [Task.finish, publish_moving hkind moving.next] at hslot
    obtain ⟨i, hi⟩ := BucketArray.mem_slots.1 hslot
    exact h.moved hkind target (moving.next ▸ List.mem_singleton_self target) i slot hi rfl

/-- The size of the table that a task leaves behind. -/
theorem Drives.size_finish (h : task.Drives t) :
    (task.finish t).2.2.active.Sized ∧
      (task.kind = .grow → (task.finish t).2.2.active.log2 = t.active.log2 + 1) ∧
      (task.kind ≠ .grow → (task.finish t).2.2.active.log2 = t.active.log2) := by
  refine ⟨h.atRest_finish.sized, ?_⟩
  cases h.halfway with
  | cleaning hkind still =>
    rw [Task.finish, publish_cleaning hkind]
    exact ⟨by simp [hkind], fun _ => rfl⟩
  | moving hkind target moving suits moved =>
    obtain ⟨blank, hblank, hlog2, -⟩ := suits
    rw [Task.finish, publish_moving hkind moving.next]
    cases hk : task.kind with
    | grow =>
      rw [hk, targetArray, Option.some.injEq] at hblank
      exact ⟨fun _ => by rw [hlog2, ← hblank]; rfl, fun hne => absurd rfl hne⟩
    | rehash seed =>
      rw [hk, targetArray, Option.some.injEq] at hblank
      exact ⟨by simp, fun _ => by rw [hlog2, ← hblank]; rfl⟩
    | bulkDelete => exact absurd hk hkind

end Task

namespace World

variable {cells : CellStore} {w w' : World} {r : WeakRef}

/-! ## What stays linked -/

/-- A reference that is dead and known is dead for good. -/
theorem isDead_of_later {heap heap' : Heap} (hlater : Heap.Later heap heap')
    (hknows : heap.Knows r.referent) (hdead : r.isDead heap = true) : r.isDead heap' = true := by
  rw [isDead_iff] at hdead ⊢
  cases hlive : heap'.isLive r.referent with
  | false => rfl
  | true =>
    rw [hlater.live _ hknows hlive] at hdead
    cases hdead

theorem Kept.knows_linked (h : w.Kept cells) (hr : r ∈ w.table.linkedRefs) :
    w.heap.Knows r.referent :=
  h.known r (.inl (h.linked_passed r hr))

/-- Nothing that is linked is lost by an insert. -/
theorem Orderly.mem_linkedRefs_pass (h : w.Orderly) (o : ObjectId) (ref : WeakRef)
    (hr : r ∈ w.table.linkedRefs) :
    r ∈ (w.pass o ref).1.table.linkedRefs := by
  have hrecorded := (Table.insertIfAbsent_inserted h.formed w.heap o ref).recorded h.formed h.sized
  rw [World.pass]
  generalize w.table.insertIfAbsent w.heap o ref = result at hrecorded ⊢
  obtain ⟨⟨placement, alarm⟩, t'⟩ := result
  dsimp only at hrecorded ⊢
  cases placement with
  | existing p => exact hrecorded.1 ▸ hr
  | linked => exact hrecorded.1.mem_iff.2 (List.mem_cons_of_mem _ hr)
  | stranded => exact hrecorded.elim

/-- **What is linked stays linked**, or its string is gone. -/
theorem Kept.linked_move (h : w.Kept cells) {m : Move} (hback : w.goesBack m = false)
    (hr : r ∈ w.table.linkedRefs) :
    r ∈ (w.move m).1.table.linkedRefs ∨ r.isDead (w.move m).1.heap = true := by
  cases m with
  | act action =>
    cases htask : action.isTask with
    | true =>
      have heff := h.orderly.step_task htask
      obtain ⟨dead, hreaped⟩ := heff.reaped hback h.clear
      rcases List.mem_append.1 (hreaped.linked.mem_iff.1 hr) with hdead | hr
      · right
        have hheap : (w.move (.act action)).1.heap = w.heap := heff.aside.1
        rw [hheap]
        exact hreaped.gone r hdead
      · exact .inl hr
    | false =>
      left
      cases action with
      | allocate | retain | drop | get => exact hr
      | insert o =>
        rw [World.move, World.step]
        split
        · exact (h.orderly.congr w.heap _ w.spare w.passed).mem_linkedRefs_pass o _ hr
        · exact hr
      | create | prepare | chunk | pause | resume | commit | abandon => cases htask
  | acquire o =>
    left
    rw [World.move]
    split <;> exact hr
  | offer o ref =>
    left
    rw [World.move]
    split
    · exact (h.orderly.congr w.heap w.table.cells _ w.passed).mem_linkedRefs_pass o ref hr
    · exact hr

theorem Kept.dead_run (h : w.Kept cells) {moves : List Move} (hback : w.neverGoesBack moves = true)
    (hknows : w.heap.Knows r.referent) (hdead : r.isDead w.heap = true) :
    r.isDead (w.run moves).heap = true := by
  induction moves generalizing w with
  | nil => exact hdead
  | cons m rest ih =>
    rw [neverGoesBack, Bool.and_eq_true, Bool.not_eq_true'] at hback
    have hlater := h.orderly.later_move m
    exact ih (h.move hback.1) hback.2 (hlater.knows _ hknows) (isDead_of_later hlater hknows hdead)

theorem Kept.linked_run (h : w.Kept cells) {moves : List Move}
    (hback : w.neverGoesBack moves = true) (hr : r ∈ w.table.linkedRefs) :
    r ∈ (w.run moves).table.linkedRefs ∨ r.isDead (w.run moves).heap = true := by
  induction moves generalizing w with
  | nil => exact .inl hr
  | cons m rest ih =>
    rw [neverGoesBack, Bool.and_eq_true, Bool.not_eq_true'] at hback
    have hnext := h.move hback.1
    -- Once it is dead it stays so, whatever becomes of its slot.
    rcases h.linked_move hback.1 hr with hr | hdead
    · exact ih hnext hback.2 hr
    · right
      have hknows := (h.orderly.later_move m).knows _ (h.knows_linked hr)
      exact hnext.dead_run hback.2 hknows hdead

/-! ## Following a task -/

/-- What an answer adds to the slots linked. -/
def linksOf : Answer → Nat
  | .placed .linked => 1
  | _ => 0

theorem count_cons_answer (answer : Answer) (rest : List Answer) :
    (answer :: rest).count (.placed .linked) = linksOf answer + rest.count (.placed .linked) := by
  rw [List.count_cons, Nat.add_comm]
  congr 1
  match answer with
  | .placed .linked => rfl
  | .placed (.existing _) | .placed .stranded => rfl
  | .done | .refused | .found _ | .prepared _ | .more _ | .summary _ | .failed _ => rfl

/-- How far task `i`, which took its table in the world `w₀`, has come by now, after inserts that
linked so many slots. -/
structure Tracks (w₀ : World) (links : Nat) (w : World) (task : Task) : Prop where
  tally : task.Tallied
  log2 : w.table.active.log2 = w₀.table.active.log2
  count : w.table.linked.length + task.reclaimed = w₀.table.linked.length + links
  /-- What was dead from the start is not linked by what the task has been over. -/
  purged : ∀ r ∈ w₀.table.linkedRefs, r.isDead w₀.heap = true →
    r ∈ w.passed ∧ r.isDead w.heap = true ∧ Task.Purged task.kind w.table task.cursor r

/-- Task `i` is still at it, or done with its table. -/
inductive Follows (w₀ : World) (links : Nat) (i : Nat) (w : World) : Prop where
  | underWay (task : Task) (hi : w.tasks[i]? = some task) (hunder : task.isUnderWay = true)
      (htracks : Tracks w₀ links w task)
  | retired (task : Task) (hi : w.tasks[i]? = some task) (hdone : task.state = .done)

variable {w₀ : World} {links i : Nat}

/-- The start of a task. -/
theorem Kept.follows_prepare (h : w.Kept cells) {task task' : Task} {t' : Table}
    (hi : w.tasks[i]? = some task) (hprepare : task.prepare w.table = some (task', t')) :
    Follows w 0 i (w.update i task' t') := by
  have hwf := h.orderly.wellFormed task (List.mem_of_getElem? hi)
  obtain ⟨hidle, hfree, -, rfl, ht'⟩ := Task.prepare_eq_some hprepare
  have hrest := h.orderly.atRest_of_free hfree
  have hreaped := Table.reaped_prepare hrest.still w.heap hprepare
  have hhalfway := Task.halfway_prepare hprepare hrest.still
  obtain ⟨hcursor, hexamined, hmoved, hreclaimed⟩ := hwf.fresh hidle
  have hlinked := hreaped.linked.length_eq
  rw [List.nil_append, Table.length_linkedRefs, Table.length_linkedRefs] at hlinked
  refine .underWay _ ((getElem?_set_of_some hi _ i).trans (if_pos rfl)) rfl
    ⟨?_, ?_, ?_, fun r hr hdead => ?_⟩
  · exact Task.tallied_of_fresh hexamined hmoved hreclaimed
  · rw [World.update, ht']
  · rw [World.update]
    dsimp only
    omega
  · have hpurged := Task.purged_prepare hprepare r
    rw [← hcursor] at hpurged
    exact ⟨h.linked_passed r hr, hdead, hpurged⟩

/-- A chunk of the task itself. -/
theorem Tracks.processChunk {task : Task} (h : Tracks w₀ links w task)
    (hdrives : task.Drives w.table) (hback : task.goesBack = false)
    (hahead : Task.Ahead task.kind w.table task.cursor) :
    Tracks w₀ links
      (w.update i (task.processChunk w.heap w.table).1 (task.processChunk w.heap w.table).2)
    (task.processChunk w.heap w.table).1 := by
  have hchunk := hdrives.processChunk_induction
    (P := fun index task' t' => Task.Advanced w.heap task w.table index task' t' ∧ task'.Tallied ∧
      ∀ r ∈ w₀.table.linkedRefs, r.isDead w₀.heap = true → Task.Purged task.kind t' index r)
    (fun index task' t' hindex hstage ⟨hadvanced, htally, hpurged⟩ => by
      have hlt : index < t'.size := by
        rw [Table.size, hstage.frame.size]
        exact hindex
      exact ⟨hadvanced.processBucket hindex hstage,
        htally.processBucket hstage.halfway hstage.same.kind,
        fun r hr hdead => (hpurged r hr hdead).processBucket hstage.halfway hlt hstage.same.kind
          (h.purged r hr hdead).2.1⟩)
    (fun index task' t' cursor ⟨hadvanced, htally, hpurged⟩ =>
      ⟨hadvanced, ⟨htally.moving, htally.cleaning⟩, hpurged⟩)
    (fun hwraps index index' task' t' hle ⟨hadvanced, htally, hpurged⟩ =>
      ⟨Task.antitone_advanced hback hwraps index index' task' t' hle hadvanced, htally,
        fun r hr hdead => (hpurged r hr hdead).of_le hle⟩)
    ⟨⟨hahead, .refl w.heap task w.table⟩, h.tally, fun r hr hdead => (h.purged r hr hdead).2.2⟩
  obtain ⟨⟨⟨-, dead, hreaped, hreclaimed⟩, htally, hpurged⟩, hstage⟩ := hchunk
  refine ⟨htally, hstage.frame.log2.trans h.log2, ?_, ?_⟩
  · have hcount := h.count
    have hlinked := hreaped.linked.length_eq
    rw [List.length_append, Table.length_linkedRefs, Table.length_linkedRefs] at hlinked
    rw [World.update, hreclaimed]
    dsimp only
    omega
  · intro r hr hdead
    obtain ⟨hpassed, hgone, -⟩ := h.purged r hr hdead
    refine ⟨hpassed, hgone, ?_⟩
    rw [hstage.same.kind]
    exact hpurged r hr hdead

/-- A task of another number, or one that is not under way, has no part in it. -/
theorem Effect.follows {back : Bool} (heff : Effect w back w') (hback : back = false)
    (h : w.Kept cells) (hfollows : Follows w₀ links i w) : Follows w₀ links i w' := by
  cases hfollows with
  | underWay task hi hunder htracks =>
    have halone : ∀ (j : Nat) (other : Task), w.tasks[j]? = some other → other.isUnderWay = true →
        j = i ∧ other = task := by
      intro j other hj hother
      obtain rfl := h.orderly.alone j i other task hj hi hother hunder
      exact ⟨rfl, Option.some.inj (hj.symm.trans hi)⟩
    have hset : ∀ task' : Task, (w.tasks.set i task')[i]? = some task' := fun task' =>
      (getElem?_set_of_some hi task' i).trans (if_pos rfl)
    cases heff with
    | tasks tasks horderly hsame hnone =>
      obtain ⟨state, hsome, hstate, -⟩ := hsame i task hi
      exact .underWay _ hsome (hstate.trans hunder)
        ⟨⟨htracks.tally.moving, htracks.tally.cleaning⟩, htracks.log2, htracks.count,
          htracks.purged⟩
    | prepared j other other' t' hj hrest hprepare hdrives =>
      rw [h.orderly.idle_of_atRest hrest hi] at hunder
      cases hunder
    | chunk j other hj hrunning hdrives =>
      obtain ⟨rfl, rfl⟩ := halone j other hj hdrives.underWay
      exact .underWay _ (hset _) (hdrives.processChunk w.heap).underWay
        (htracks.processChunk hdrives hback (h.clear _ _ hi hunder))
    | commit j other hj hrunning hdrives hend =>
      obtain ⟨rfl, rfl⟩ := halone j other hj hdrives.underWay
      exact .retired _ (hset _) rfl
    | abandon j other hj hdrives =>
      obtain ⟨rfl, rfl⟩ := halone j other hj hdrives.underWay
      exact .retired _ (hset _) rfl
  | retired task hi hdone =>
    -- A task that is done is not the one that the effect is about.
    have hover : task.isUnderWay = false := by
      rw [Task.isUnderWay, hdone]
      rfl
    have hset : ∀ (j : Nat) (other other' : Task), w.tasks[j]? = some other → other.state ≠ .done →
        (w.tasks.set j other')[i]? = some task := by
      intro j other other' hj hother
      have hne : j ≠ i := by
        rintro rfl
        obtain rfl := Option.some.inj (hj.symm.trans hi)
        exact hother hdone
      exact (getElem?_set_of_some hj other' i).trans ((if_neg hne).trans hi)
    have hdriven : ∀ other : Task, other.Drives w.table → other.state ≠ .done := by
      intro other hdrives hother
      have hunder := hdrives.underWay
      rw [Task.isUnderWay, hother] at hunder
      cases hunder
    cases heff with
    | tasks tasks horderly hsame hnone =>
      obtain ⟨state, hsome, -, hstate⟩ := hsame i task hi
      exact .retired _ hsome (hstate hdone)
    | prepared j other other' t' hj hrest hprepare hdrives =>
      have hidle := (Task.prepare_eq_some hprepare).1
      exact .retired task (hset j other _ hj (by simp [hidle])) hdone
    | chunk j other hj hrunning hdrives =>
      exact .retired task (hset j other _ hj (hdriven other hdrives)) hdone
    | commit j other hj hrunning hdrives hend =>
      exact .retired task (hset j other _ hj (hdriven other hdrives)) hdone
    | abandon j other hj hdrives =>
      exact .retired task (hset j other _ hj (hdriven other hdrives)) hdone

/-- Only the table, the heap and the references passed on matter besides the task. -/
theorem Follows.congr (h : Follows w₀ links i w) (hlater : Heap.Later w.heap w'.heap)
    (hknown : ∀ r ∈ w.passed, w.heap.Knows r.referent) (hactive : w'.table.active = w.table.active)
    (hsuccessors : w'.table.successors = w.table.successors) (hpassed : w'.passed = w.passed)
    (htasks : w'.tasks = w.tasks) : Follows w₀ links i w' := by
  have hlinked : w'.table.linked = w.table.linked := by
    rw [Table.linked, Table.linked, hactive, hsuccessors]
  cases h with
  | underWay task hi hunder htracks =>
    have hcount := hlinked ▸ htracks.count
    refine .underWay task (htasks ▸ hi) hunder ⟨htracks.tally, hactive ▸ htracks.log2, hcount, ?_⟩
    intro r hr hdead
    obtain ⟨hmem, hgone, hpurged⟩ := htracks.purged r hr hdead
    refine ⟨hpassed ▸ hmem, isDead_of_later hlater (hknown r hmem) hgone, ?_, ?_⟩
    · rw [hactive]
      exact hpurged.cleaned
    · rw [hsuccessors]
      exact hpurged.moved
  | retired task hi hdone => exact .retired task (htasks ▸ hi) hdone

/-- An insert, of whatever reference that none has taken before. -/
theorem Follows.pass (h : Follows w₀ links i w) (horderly : w.Orderly) (o : ObjectId)
    {ref : WeakRef} (hfresh : ref ∉ w.passed) :
    Follows w₀ (links + linksOf (w.pass o ref).2) i (w.pass o ref).1 := by
  have hins := Table.insertIfAbsent_inserted horderly.formed w.heap o ref
  have hrecorded := hins.recorded horderly.formed horderly.sized
  rw [World.pass]
  generalize w.table.insertIfAbsent w.heap o ref = result at hins hrecorded ⊢
  obtain ⟨⟨placement, alarm⟩, t'⟩ := result
  dsimp only at hins hrecorded ⊢
  cases h with
  | retired task hi hdone => exact .retired task hi hdone
  | underWay task hi hunder htracks =>
    refine .underWay task hi hunder ⟨htracks.tally, hins.sameFrame.log2.trans htracks.log2, ?_, ?_⟩
    · have hcount := htracks.count
      -- The count of linked slots goes up just if the answer is that the slot was linked.
      have hlength : t'.linked.length = w.table.linked.length + linksOf (.placed placement) := by
        rw [← Table.length_linkedRefs, ← Table.length_linkedRefs]
        cases placement with
        | existing p =>
          rw [hrecorded.1]
          rfl
        | linked =>
          rw [hrecorded.1.length_eq]
          rfl
        | stranded => exact hrecorded.elim
      dsimp only
      omega
    · intro r hr hdead
      obtain ⟨hmem, hgone, hpurged⟩ := htracks.purged r hr hdead
      refine ⟨List.mem_cons_of_mem _ hmem, hgone, hpurged.insert hins horderly.sized ?_⟩
      rintro rfl
      exact hfresh hmem

theorem linksOf_step_task {action : Action} (htask : action.isTask = true) (w : World) :
    linksOf (w.step action).2 = 0 := by
  have hdrive : ∀ (i : Nat) (f : Task → World × Answer), (∀ task, linksOf (f task).2 = 0) →
      linksOf (w.drive i f).2 = 0 := by
    intro i f hf
    rw [drive]
    split
    · exact hf _
    · rfl
  cases action with
  | create kind chunk => rfl
  | prepare i => exact hdrive i _ fun task => by rw [prepare]; split <;> rfl
  | chunk i => exact hdrive i _ fun task => by rw [chunk]; split <;> rfl
  | pause i => exact hdrive i _ fun task => by rw [pause]; split <;> rfl
  | resume i => exact hdrive i _ fun task => by rw [resume]; split <;> rfl
  | commit i => exact hdrive i _ fun task => by rw [commit]; split <;> rfl
  | abandon i => exact hdrive i _ fun task => rfl
  | allocate | retain | drop | insert | get => cases htask

/-- A spare reference was not passed before. -/
theorem Kept.not_mem_passed (h : w.Kept cells) (hr : r ∈ w.spare) : r ∉ w.passed := fun hmem =>
  (List.nodup_append.1 h.apart).2.2 r hmem r (List.mem_append_left _ hr) rfl

/-- **Every move follows the task**, and counts what it links. -/
theorem Follows.move (hfollows : Follows w₀ links i w) (h : w.Kept cells) {m : Move}
    (hback : w.goesBack m = false) :
    Follows w₀ (links + linksOf (w.move m).2) i (w.move m).1 := by
  have hknown : ∀ r ∈ w.passed, w.heap.Knows r.referent := fun r hr => h.known r (.inl hr)
  cases m with
  | act action =>
    cases htask : action.isTask with
    | true =>
      rw [World.move, linksOf_step_task htask]
      exact (h.orderly.step_task htask).follows hback h hfollows
    | false =>
      cases action with
      | allocate s => exact hfollows.congr (w.heap.later_alloc s) hknown rfl rfl rfl rfl
      | retain o => exact hfollows.congr (w.heap.later_retain o) hknown rfl rfl rfl rfl
      | drop o => exact hfollows.congr (w.heap.later_drop o) hknown rfl rfl rfl rfl
      | insert o =>
        rw [World.move, World.step]
        split
        · next hlive =>
          have hacquired : Follows w₀ links i { w with table := (w.table.acquire o).2 } :=
            hfollows.congr (.refl _) hknown rfl rfl rfl rfl
          have hfresh : (w.table.acquire o).1 ∉ w.passed :=
            (h.acquire hlive).not_mem_passed List.mem_cons_self
          exact hacquired.pass (h.orderly.congr w.heap _ w.spare w.passed) o hfresh
        · exact hfollows
      | get key => exact hfollows
      | create | prepare | chunk | pause | resume | commit | abandon => cases htask
  | acquire o =>
    rw [World.move]
    split
    · exact hfollows.congr (.refl _) hknown rfl rfl rfl rfl
    · exact hfollows
  | offer o ref =>
    rw [World.move]
    split
    · next hguard =>
      rw [Bool.and_eq_true, List.contains_iff_mem] at hguard
      have hoffered : Follows w₀ links i { w with spare := w.spare.erase ref } :=
        hfollows.congr (.refl _) hknown rfl rfl rfl rfl
      exact hoffered.pass (h.orderly.congr w.heap w.table.cells _ w.passed) o
        (h.not_mem_passed hguard.2)
    · exact hfollows

theorem Follows.run (hfollows : Follows w₀ links i w) (h : w.Kept cells) {moves : List Move}
    (hback : w.neverGoesBack moves = true) :
    Follows w₀ (links + (w.answers moves).count (.placed .linked)) i (w.run moves) := by
  induction moves generalizing w links with
  | nil => exact hfollows
  | cons m rest ih =>
    rw [neverGoesBack, Bool.and_eq_true, Bool.not_eq_true'] at hback
    have hrest := ih (hfollows.move h hback.1) (h.move hback.1) hback.2
    rw [answers, count_cons_answer, ← Nat.add_assoc]
    exact hrest

/-! ## From the beginning to the commit -/

/-- The world in which task `i` has taken its table. -/
def begun (w : World) (i : Nat) : World := (w.step (.prepare i)).1

/-- The world in which it has committed, after some moves. -/
def committed (w : World) (i : Nat) (during : List Move) : World :=
  (((w.begun i).run during).step (.commit i)).1

theorem committed_eq (w : World) (i : Nat) (during : List Move) :
    w.committed i during = (w.begun i).run (during ++ [.act (.commit i)]) := by
  rw [run_append]
  rfl

/-- What task `i` has done by its commit, if it begins in the world `w` and there are some moves
before it commits. -/
structure Settled (w : World) (i : Nat) (during : List Move) (summary : TaskSummary) : Prop where
  /-- A slot that was dead at the beginning is gone, and its cell was given back. -/
  reaped : ∀ r ∈ w.table.linkedRefs, r.isDead w.heap = true →
    r ∉ (w.committed i during).table.linkedRefs ∧
    w.table.cells.isReleased r = false ∧ (w.committed i during).table.cells.isReleased r = true
  /-- No cell was given back twice. -/
  doubleReleases : (w.committed i during).table.cells.doubleReleases = w.table.cells.doubleReleases
  /-- A slot that was linked at any time since, and whose string is alive, is linked once. -/
  kept : ∀ sofar rest, during = sofar ++ rest → ∀ r ∈ ((w.begun i).run sofar).table.linkedRefs,
    r.isDead (w.committed i during).heap = false →
    (w.committed i during).table.linkedRefs.count r = 1
  /-- Slots come by inserts and go by being reclaimed. -/
  count : (w.committed i during).table.linked.length + summary.reclaimed =
    w.table.linked.length + ((w.begun i).answers during).count (.placed .linked)
  items : (w.committed i during).table.items = w.table.items +
    .ofNat (((w.begun i).answers during).count (.placed .linked)) - .ofNat summary.reclaimed
  moving : summary.kind ≠ .bulkDelete → summary.examined = summary.moved + summary.reclaimed
  cleaning : summary.kind = .bulkDelete → summary.moved = 0 ∧ summary.reclaimed ≤ summary.examined
  /-- No array has `2 ^ 63` buckets; their number could not be doubled. -/
  grown : summary.kind = .grow → w.table.size < 2 ^ 63 →
    (w.committed i during).table.size = 2 * w.table.size
  same : summary.kind ≠ .grow → (w.committed i during).table.size = w.table.size

/-- A commit that succeeds. -/
theorem commit_eq_summary {summary : TaskSummary} (h : w.Orderly)
    (hcommit : (w.step (.commit i)).2 = .summary summary) :
    ∃ task : Task, w.tasks[i]? = some task ∧ task.Drives w.table ∧ task.cursor = w.table.size ∧
      summary = (task.finish w.table).1 ∧
      (w.step (.commit i)).1 = w.update i (task.finish w.table).2.1 (task.finish w.table).2.2 := by
  rw [World.step, World.drive] at hcommit ⊢
  cases hi : w.tasks[i]? with
  | none =>
    rw [hi] at hcommit
    cases hcommit
  | some task =>
    rw [hi] at hcommit
    dsimp only at hcommit ⊢
    rw [World.commit] at hcommit ⊢
    by_cases hrunning : task.state = .running
    · have hdrives := h.drives i task hi (Task.isUnderWay_iff.2 (.inl hrunning))
      by_cases hend : task.cursor = w.table.size
      · rw [hdrives.commit_eq hrunning hend] at hcommit ⊢
        cases hcommit
        exact ⟨task, rfl, hdrives, hend, rfl, rfl⟩
      · rw [hdrives.commit_of_ne_size hrunning hend] at hcommit
        cases hcommit
    · rw [Task.commit_of_ne_running hrunning] at hcommit
      cases hcommit

/-- A task that says it has begun follows itself from there. -/
theorem Kept.follows_begun (h : w.Kept cells)
    (hprepare : (w.step (.prepare i)).2 = .prepared true) :
    Follows w 0 i (w.begun i) := by
  rw [begun, World.step, World.drive] at *
  cases hi : w.tasks[i]? with
  | none =>
    rw [hi] at hprepare
    cases hprepare
  | some task =>
    rw [hi] at hprepare
    dsimp only at hprepare ⊢
    rw [World.prepare] at hprepare ⊢
    cases hsome : task.prepare w.table with
    | none =>
      rw [hsome] at hprepare
      cases hprepare
    | some pair => exact h.follows_prepare hi hsome

/-- At its commit a task is at the end of its pass, and has been followed until then. -/
theorem Kept.tracks_commit {during : List Move} {summary : TaskSummary} (h : w.Kept cells)
    (hprepare : (w.step (.prepare i)).2 = .prepared true)
    (hback : (w.begun i).neverGoesBack during = true)
    (hcommit : (((w.begun i).run during).step (.commit i)).2 = .summary summary) :
    ∃ task : Task, task.Drives ((w.begun i).run during).table ∧
      task.cursor = ((w.begun i).run during).table.size ∧
      summary = (task.finish ((w.begun i).run during).table).1 ∧
      w.committed i during = ((w.begun i).run during).update i
        (task.finish ((w.begun i).run during).table).2.1
        (task.finish ((w.begun i).run during).table).2.2 ∧
      Tracks w (((w.begun i).answers during).count (.placed .linked))
    ((w.begun i).run during) task := by
  have hbegun : (w.begun i).Kept cells := h.move (m := .act (.prepare i)) rfl
  have hended := hbegun.run hback
  obtain ⟨task, hi, hdrives, hend, hsummary, hcommitted⟩ := commit_eq_summary hended.orderly hcommit
  refine ⟨task, hdrives, hend, hsummary, hcommitted, ?_⟩
  rw [← Nat.zero_add (((w.begun i).answers during).count (.placed .linked))]
  cases (h.follows_begun hprepare).run hbegun hback with
  | underWay task' hi' hunder htracks =>
    cases Option.some.inj (hi.symm.trans hi')
    exact htracks
  | retired task' hi' hdone =>
    cases Option.some.inj (hi.symm.trans hi')
    have hunder := hdrives.underWay
    rw [Task.isUnderWay, hdone] at hunder
    cases hunder

/-- What a task that is followed from its beginning has done at its commit. -/
theorem Kept.settled {during : List Move} {summary : TaskSummary} (h : w.Kept cells)
    (hprepare : (w.step (.prepare i)).2 = .prepared true)
    (hback : (w.begun i).neverGoesBack during = true)
    (hcommit : (((w.begun i).run during).step (.commit i)).2 = .summary summary) :
    Settled w i during summary := by
  obtain ⟨task, hdrives, hend, rfl, hcommitted, htracks⟩ := h.tracks_commit hprepare hback hcommit
  have hbegun : (w.begun i).Kept cells := h.move (m := .act (.prepare i)) rfl
  have hfinal : (w.committed i during).Kept cells :=
    (hbegun.run hback).move (m := .act (.commit i)) rfl
  have htable : (w.committed i during).table =
      (task.finish ((w.begun i).run during).table).2.2 := by
    rw [hcommitted, World.update]
  have hpassed : (w.committed i during).passed = ((w.begun i).run during).passed := by
    rw [hcommitted, World.update]
  have hcount : (w.committed i during).table.linked.length + task.reclaimed =
      w.table.linked.length + ((w.begun i).answers during).count (.placed .linked) := by
    have hreaped := Table.reaped_finish hdrives hend ((w.begun i).run during).heap
    have hlength := hreaped.linked.length_eq
    rw [List.nil_append, Table.length_linkedRefs, Table.length_linkedRefs] at hlength
    rw [htable, ← hlength, htracks.count]
  obtain ⟨hsized, hgrow, hsame⟩ := hdrives.size_finish
  have hsizes : w.table.size = 2 ^ (w.table.active.log2 % 64) := h.orderly.sized
  have hbuckets : (w.committed i during).table.size =
      2 ^ ((w.committed i during).table.active.log2 % 64) := by
    rw [htable]
    exact hsized
  exact {
    reaped := by
      intro r hr hdead
      obtain ⟨hmem, -, hpurged⟩ := htracks.purged r hr hdead
      have hgone : r ∉ (w.committed i during).table.linkedRefs := by
        rw [htable]
        exact hpurged.finish hdrives hend
      have hin := (h.ledger.mem_iff r).1 (List.mem_append_left _ hr)
      rcases hfinal.accounted.passed r (hpassed ▸ hmem) with ⟨hone, -⟩ | ⟨-, hreleased⟩
      · exact absurd (List.count_pos_iff.1 (hone ▸ Nat.one_pos)) hgone
      · exact ⟨hgone, hin.isReleased, hreleased⟩
    doubleReleases := hfinal.doubleReleases.trans h.doubleReleases.symm
    kept := by
      intro sofar rest hduring r hr hlive
      rw [hduring, neverGoesBack_append, Bool.and_eq_true] at hback
      have hrest : ((w.begun i).run sofar).neverGoesBack (rest ++ [.act (.commit i)]) = true := by
        rw [neverGoesBack_append, hback.2]
        rfl
      have hlinked := (hbegun.run hback.1).linked_run hrest hr
      rw [← run_append, ← List.append_assoc, ← hduring, ← committed_eq, hlive] at hlinked
      rw [hfinal.nodup_linkedRefs.count, if_pos (hlinked.resolve_right (by decide))]
    count := hcount
    items := by
      rw [hfinal.items, h.items]
      have hcount' := congrArg UInt64.ofNat hcount
      rw [UInt64.ofNat_add, UInt64.ofNat_add] at hcount'
      change _ = _ - UInt64.ofNat task.reclaimed
      grind
    moving := htracks.tally.moving
    cleaning := htracks.tally.cleaning
    grown := by
      intro hkind hlt
      have hlog2 : (w.committed i during).table.active.log2 = w.table.active.log2 + 1 := by
        rw [htable, hgrow hkind, htracks.log2]
      rw [hsizes] at hlt
      have hbits : w.table.active.log2 % 64 < 63 := (Nat.pow_lt_pow_iff_right (by decide)).1 hlt
      have hsucc : (w.table.active.log2 + 1) % 64 = w.table.active.log2 % 64 + 1 := by omega
      rw [hbuckets, hlog2, hsizes, ← Nat.pow_succ', hsucc]
    same := by
      intro hkind
      have hlog2 : (w.committed i during).table.active.log2 = w.table.active.log2 := by
        rw [htable, hsame hkind, htracks.log2]
      rw [hbuckets, hlog2, hsizes] }

/-- **What a task has done when it commits**, after any moves before it begins and any between its
steps, none of which lets a task go back. -/
theorem task_settles (settings : Settings) (cells : CellStore) (heap : Heap)
    (before during : List Move) (i : Nat) (summary : TaskSummary)
    (hbefore : (start settings cells heap).neverGoesBack before = true)
    (hprepare : (((start settings cells heap).run before).step (.prepare i)).2 = .prepared true)
    (hduring : (((start settings cells heap).run before).begun i).neverGoesBack during = true)
    (hcommit :
      (((((start settings cells heap).run before).begun i).run during).step (.commit i)).2 =
        .summary summary) :
    Settled ((start settings cells heap).run before) i during summary :=
  ((kept_start settings cells heap).run hbefore).settled hprepare hduring hcommit

/-- A dead slot, a live one, and a task to grow the table. -/
def beforeGrowth : List Move :=
  [.act (.allocate "a"), .act (.allocate "b"), .act (.insert ⟨0⟩), .act (.insert ⟨1⟩),
    .act (.drop ⟨0⟩), .act (.create .grow none)]

/-- What runs between the steps: an insert before the only bucket is moved and one after. -/
def duringGrowth : List Move :=
  [.act (.allocate "c"), .act (.insert ⟨2⟩), .act (.chunk 0), .act (.allocate "d"),
    .act (.insert ⟨3⟩)]

theorem task_settles_of_growth :
    (((start oneBucket { name := "cells" } {}).run beforeGrowth).begun 0).neverGoesBack
      duringGrowth = true ∧
      Settled ((start oneBucket { name := "cells" } {}).run beforeGrowth) 0 duringGrowth
        { kind := .grow, oldSize := 1, newSize := 2, examined := 3, moved := 2, reclaimed := 1 } :=
  ⟨by decide, task_settles oneBucket { name := "cells" } {} beforeGrowth duringGrowth 0 _
    (by decide) (by decide)
    (by decide) (by decide)⟩

/-- A live slot, and a task with very large chunks. -/
def beforeWrapping : List Move :=
  [.act (.allocate "a"), .act (.insert ⟨0⟩), .act (.create .grow (some 0xffffffffffffffff))]

/-- The task is asked for two chunks more after its last bucket. -/
def duringWrapping : List Move := [.act (.chunk 0), .act (.chunk 0), .act (.chunk 0)]

/-- The task begins and commits, and has linked the live slot twice. -/
theorem settling_fails_after_wrapped_chunk :
    let w := (start oneBucket { name := "cells" } {}).run beforeWrapping
    let summary : TaskSummary :=
      { kind := .grow, oldSize := 1, newSize := 2, examined := 2, moved := 2, reclaimed := 0 }
    (w.step (.prepare 0)).2 = .prepared true ∧
      (((w.begun 0).run duringWrapping).step (.commit 0)).2 = .summary summary ∧
      (w.committed 0 duringWrapping).table.linkedRefs.count ⟨1, ⟨0⟩⟩ = 2 ∧
      ¬ Settled w 0 duringWrapping summary := by
  intro w summary
  have htwice : (w.committed 0 duringWrapping).table.linkedRefs.count ⟨1, ⟨0⟩⟩ = 2 := by decide
  refine ⟨by decide, by decide, htwice, ?_⟩
  intro h
  have honce := h.kept [] duringWrapping rfl ⟨1, ⟨0⟩⟩ (by decide) (by decide)
  rw [htwice] at honce
  cases honce

end World

end WeakIntern
