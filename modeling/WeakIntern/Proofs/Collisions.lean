import Mathlib.Data.List.Induction
import Mathlib.Data.List.Nodup
import Mathlib.Data.Nat.ModEq
import Mathlib.Tactic.Ring
import WeakIntern.Proofs.Commits
import WeakIntern.Proofs.WeakMap
/-!
# Collisions of the first hash

The first hash is a polynomial in the units of a string, so the hash of two strings in a row follows
from their hashes and from the number of units of the second (`toNat_unitHash_append`), and a part
of a string may be replaced by another one of the same hash and length. The `2 ^ k` strings that
consist of `k` blocks `"Aa"` or `"BB"` have one hash for that reason.

Strings with one hash share a bucket of every array that is under the first hash. While a table is
not rehashed, all its arrays are, so however often it grows, and however far a growth has come, they
stay together (`collisions_stay_together`).
-/

namespace WeakIntern

/-! ## Units -/

/-- The number of UTF-16 units of a string; characters from `0x10000` up count twice. -/
def unitCount (s : String) : Nat := (s.toList.map fun c => if c.toNat < 0x10000 then 1 else 2).sum

theorem length_utf16Units (c : Char) :
    (utf16Units c).length = if c.toNat < 0x10000 then 1 else 2 := by
  unfold utf16Units
  split <;> rfl

theorem length_units16 (s : String) : (units16 s).length = unitCount s := by
  rw [units16, List.length_flatMap, unitCount]
  simp only [length_utf16Units]

theorem units16_append (a b : String) : units16 (a ++ b) = units16 a ++ units16 b := by
  rw [units16, String.toList_append, List.flatMap_append]
  rfl

theorem unitCount_append (a b : String) : unitCount (a ++ b) = unitCount a + unitCount b := by
  simp only [← length_units16, units16_append, List.length_append]

/-! ## The polynomial -/

theorem toNat_hashStep (h unit : UInt32) :
    (hashStep h unit).toNat = (31 * h.toNat + unit.toNat) % 2 ^ 32 := by
  rw [hashStep, UInt32.toNat_add, UInt32.toNat_mul, Nat.mod_add_mod]
  rfl

/-- A fold that starts with `h` has it as the coefficient of the next power. -/
theorem toNat_foldl_hashStep (h : UInt32) (units : List UInt32) : (units.foldl hashStep h).toNat ≡
    h.toNat * 31 ^ units.length + (units.foldl hashStep 0).toNat [MOD 2 ^ 32] := by
  induction units using List.reverseRecOn with
  | nil => simp [Nat.ModEq]
  | append_singleton units unit ih =>
    rw [List.foldl_append, List.foldl_append, List.length_append, List.length_singleton]
    simp only [List.foldl_cons, List.foldl_nil, toNat_hashStep]
    generalize (units.foldl hashStep h).toNat = whole at ih ⊢
    generalize (units.foldl hashStep 0).toNat = tail at ih ⊢
    calc (31 * whole + unit.toNat) % 2 ^ 32
      _ ≡ 31 * whole + unit.toNat [MOD 2 ^ 32] := Nat.mod_modEq _ _
      _ ≡ 31 * (h.toNat * 31 ^ units.length + tail) + unit.toNat [MOD 2 ^ 32] :=
        (ih.mul_left 31).add_right _
      _ = h.toNat * 31 ^ (units.length + 1) + (31 * tail + unit.toNat) := by ring
      _ ≡ h.toNat * 31 ^ (units.length + 1) + (31 * tail + unit.toNat) % 2 ^ 32 [MOD 2 ^ 32] :=
        (Nat.mod_modEq _ _).symm.add_left _

/-- **The hash of a concatenation.** -/
theorem toNat_unitHash_append (a b : String) : (unitHash (a ++ b)).toNat =
    ((unitHash a).toNat * 31 ^ unitCount b + (unitHash b).toNat) % 2 ^ 32 := by
  have hfold := toNat_foldl_hashStep (unitHash a) (units16 b)
  rw [length_units16] at hfold
  rw [unitHash, units16_append, List.foldl_append, ← Nat.mod_eq_of_lt (UInt32.toNat_lt _)]
  exact hfold

theorem unitHash_append_congr {a a' b b' : String} (ha : unitHash a = unitHash a')
    (hb : unitHash b = unitHash b') (hcount : unitCount b = unitCount b') :
    unitHash (a ++ b) = unitHash (a' ++ b') := by
  rw [← UInt32.toNat_inj, toNat_unitHash_append, toNat_unitHash_append, ha, hb, hcount]

/-! ## Blocks -/

/-- The two blocks, which have one hash and as many units. -/
def block (bit : Bool) : String := if bit then "BB" else "Aa"

/-- Blocks in a row. -/
def joinBlocks (bits : List Bool) : String := String.join (bits.map block)

/-- The string of `k` blocks that the lowest bits of a number choose, from the lowest one on. -/
def collision (k n : Nat) : String := joinBlocks ((List.range k).map n.testBit)

/-- All strings of `k` blocks. -/
def collisions (k : Nat) : List String := (List.range (2 ^ k)).map (collision k)

theorem joinBlocks_cons (bit : Bool) (bits : List Bool) :
    joinBlocks (bit :: bits) = block bit ++ joinBlocks bits := by
  rw [joinBlocks, List.map_cons, String.join_cons]
  rfl

theorem unitHash_block (bit bit' : Bool) : unitHash (block bit) = unitHash (block bit') := by
  revert bit bit'
  decide

theorem unitCount_block (bit : Bool) : unitCount (block bit) = 2 := by
  revert bit
  decide

theorem length_toList_block (bit bit' : Bool) :
    (block bit).toList.length = (block bit').toList.length := by
  revert bit bit'
  decide

theorem block_injective : Function.Injective block := by
  unfold Function.Injective
  decide

theorem unitCount_joinBlocks (bits : List Bool) :
    unitCount (joinBlocks bits) = 2 * bits.length := by
  induction bits with
  | nil => rfl
  | cons bit rest ih =>
    rw [joinBlocks_cons, unitCount_append, unitCount_block, ih, List.length_cons]
    omega

/-- As many blocks have one hash, whichever they are. -/
theorem unitHash_joinBlocks {bits bits' : List Bool} (hlength : bits.length = bits'.length) :
    unitHash (joinBlocks bits) = unitHash (joinBlocks bits') := by
  induction bits generalizing bits' with
  | nil => rw [List.length_eq_zero_iff.1 hlength.symm]
  | cons bit rest ih =>
    obtain _ | ⟨bit', rest'⟩ := bits'
    · cases hlength
    · have hrest : rest.length = rest'.length := Nat.succ.inj hlength
      rw [joinBlocks_cons, joinBlocks_cons]
      refine unitHash_append_congr (unitHash_block bit bit') (ih hrest) ?_
      rw [unitCount_joinBlocks, unitCount_joinBlocks, hrest]

/-- No string is made of blocks in two ways. -/
theorem joinBlocks_injective : Function.Injective joinBlocks := by
  intro bits bits' h
  have hlength : bits.length = bits'.length := by
    have hcount := congrArg unitCount h
    rw [unitCount_joinBlocks, unitCount_joinBlocks] at hcount
    omega
  induction bits generalizing bits' with
  | nil => exact (List.length_eq_zero_iff.1 hlength.symm).symm
  | cons bit rest ih =>
    obtain _ | ⟨bit', rest'⟩ := bits'
    · cases hlength
    · rw [joinBlocks_cons, joinBlocks_cons, ← String.toList_inj, String.toList_append,
        String.toList_append] at h
      obtain ⟨hblock, hrest⟩ := List.append_inj h (length_toList_block bit bit')
      rw [block_injective (String.toList_inj.1 hblock),
        ih (String.toList_inj.1 hrest) (Nat.succ.inj hlength)]

theorem collision_injOn {k n n' : Nat} (hn : n < 2 ^ k) (hn' : n' < 2 ^ k)
    (h : collision k n = collision k n') : n = n' := by
  have hbits := List.map_inj_left.1 (joinBlocks_injective h)
  refine Nat.eq_of_testBit_eq fun i => ?_
  by_cases hi : i < k
  · exact hbits i (List.mem_range.2 hi)
  · have hle : 2 ^ k ≤ 2 ^ i := Nat.pow_le_pow_right (by decide) (Nat.le_of_not_lt hi)
    rw [Nat.testBit_lt_two_pow (Nat.lt_of_lt_of_le hn hle),
      Nat.testBit_lt_two_pow (Nat.lt_of_lt_of_le hn' hle)]

theorem nodup_collisions (k : Nat) : (collisions k).Nodup :=
  List.Nodup.map_on (fun _ hn _ hn' h =>
    collision_injOn (List.mem_range.1 hn) (List.mem_range.1 hn') h) List.nodup_range

theorem mem_collisions_iff {k : Nat} {s : String} :
    s ∈ collisions k ↔ ∃ bits : List Bool, bits.length = k ∧ s = joinBlocks bits := by
  constructor
  · intro hs
    obtain ⟨n, -, rfl⟩ := List.mem_map.1 hs
    exact ⟨_, by simp, rfl⟩
  · rintro ⟨bits, rfl, rfl⟩
    refine List.mem_map.2 ⟨Nat.ofBits bits.get, List.mem_range.2 (Nat.ofBits_lt_two_pow _), ?_⟩
    refine congrArg joinBlocks (List.ext_getElem (by simp) fun i hi hi' => ?_)
    simp [Nat.testBit_ofBits_lt _ i hi']

theorem unitHash_of_mem_collisions {k : Nat} {s s' : String} (hs : s ∈ collisions k)
    (hs' : s' ∈ collisions k) :
    unitHash s = unitHash s' := by
  obtain ⟨bits, hbits, rfl⟩ := mem_collisions_iff.1 hs
  obtain ⟨bits', hbits', rfl⟩ := mem_collisions_iff.1 hs'
  exact unitHash_joinBlocks (hbits.trans hbits'.symm)

/-! ## Buckets -/

theorem BucketArray.home_eq_of_unitHash {a : BucketArray} (hdefault : a.epoch = .default)
    {s s' : String} (hhash : unitHash s = unitHash s') : a.home s = a.home s' := by
  rw [home, home, hdefault]
  exact congrArg a.placeOf hhash

namespace Table

/-- A bucket whose slots were not moved on has one for the object. -/
structure Lodges (t : Table) (a : BucketArray) (i : Nat) (o : ObjectId) : Prop where
  mem : a ∈ t.active :: t.successors
  mark : a.isMoved i = false
  slot : ∃ slot ∈ a.slotsAt i, slot.ref.referent = o

/-- Two objects share their buckets. -/
structure Together (t : Table) (o o' : ObjectId) : Prop where
  lodged : ∃ a i, t.Lodges a i o
  same : ∀ a i, t.Lodges a i o ↔ t.Lodges a i o'

variable {heap : Heap} {t : Table} {o o' : ObjectId}

/-- A slot of a marked bucket has a successor in the next array, which has no marks. -/
theorem Coherent.lodges (h : t.Coherent heap) (hformed : t.Formed) (ho : t.Holds heap o) :
    ∃ a i, t.Lodges a i o := by
  cases hformed with
  | still still =>
    obtain ⟨-, i, hslot⟩ := (holds_still still).1 ho
    exact ⟨t.active, i, List.mem_cons_self, still.unmoved i, hslot⟩
  | moving target moving =>
    have htarget : target ∈ t.successors := moving.next ▸ List.mem_singleton_self target
    suffices hactive : t.active.Holds heap o → ∃ a i, t.Lodges a i o by
      rcases (holds_moving moving).1 ho with hholds | ⟨-, i, hslot⟩
      · exact hactive hholds
      · exact ⟨target, i, List.mem_cons_of_mem _ htarget, moving.unmoved i, hslot⟩
    rintro ⟨hlive, i, slot, hslot, rfl⟩
    cases hmark : t.active.isMoved i with
    | false => exact ⟨t.active, i, List.mem_cons_self, hmark, slot, hslot, rfl⟩
    | true =>
      obtain ⟨-, j, hslot'⟩ := h.followed target htarget i hmark slot hslot hlive
      exact ⟨target, j, List.mem_cons_of_mem _ htarget, moving.unmoved j, hslot'⟩

/-- In arrays under the first hash, the bucket of an object has the held objects with the same hash
as well. -/
theorem Coherent.lodges_of_unitHash (h : t.Coherent heap) (hformed : t.Formed)
    (hdefault : ∀ a ∈ t.active :: t.successors, a.epoch = .default) (ho' : t.Holds heap o')
    (hhash : unitHash (heap.content o) = unitHash (heap.content o')) {a : BucketArray} {i : Nat}
    (hlodges : t.Lodges a i o) :
    t.Lodges a i o' := by
  obtain ⟨ha, hmark, slot, hslot, rfl⟩ := hlodges
  have hhome : ∀ b ∈ t.active :: t.successors, b.home (heap.content slot.ref.referent) =
      b.home (heap.content o') :=
    fun b hb => BucketArray.home_eq_of_unitHash (hdefault b hb) hhash
  have hplace := (h.placed a ha i slot hslot).place
  -- Where the array holds the other object at all, it does so in this bucket.
  suffices hholds : a.Holds heap o' by
    obtain ⟨-, j, slot', hslot', rfl⟩ := hholds
    have hplace' := (h.placed a ha j slot' hslot').place
    rw [← hhome a ha, hplace] at hplace'
    exact ⟨ha, hmark, slot', hplace' ▸ hslot', rfl⟩
  cases hformed with
  | still still =>
    rw [still.alone, List.mem_singleton] at ha
    exact ha ▸ (holds_still still).1 ho'
  | moving target moving =>
    have htarget : target ∈ t.successors := moving.next ▸ List.mem_singleton_self target
    rw [moving.next, List.mem_cons, List.mem_singleton] at ha
    rcases ha with rfl | rfl
    · rcases (holds_moving moving).1 ho' with hactive | ⟨-, j, slot', hslot', rfl⟩
      · exact hactive
      · have hmoved := h.behind target htarget j slot' hslot'
        rw [← hhome _ List.mem_cons_self, hplace, hmark] at hmoved
        cases hmoved
    · rcases (holds_moving moving).1 ho' with ⟨hlive, j, slot', hslot', rfl⟩ | hnext
      · refine h.followed a htarget j ?_ slot' hslot' hlive
        rw [← (h.placed _ List.mem_cons_self j slot' hslot').place, ← hhome _ List.mem_cons_self]
        exact h.behind a htarget i slot hslot
      · exact hnext

theorem Coherent.together (h : t.Coherent heap) (hformed : t.Formed)
    (hdefault : ∀ a ∈ t.active :: t.successors, a.epoch = .default) (ho : t.Holds heap o)
    (ho' : t.Holds heap o') (hhash : unitHash (heap.content o) = unitHash (heap.content o')) :
    t.Together o o' where
  lodged := h.lodges hformed ho
  same _ _ :=
    ⟨h.lodges_of_unitHash hformed hdefault ho' hhash,
      h.lodges_of_unitHash hformed hdefault ho hhash.symm⟩

end Table

/-! ## Tables that are not rehashed -/

/-- The seed, if a task is created that rehashes. -/
def Action.seed? : Action → Option UInt64
  | .create kind _ => kind.seed?
  | _ => none

theorem Layout.epoch_after {l : Layout} {kind : TaskKind} (hplain : kind.seed? = none) :
    (l.after kind).epoch = l.epoch := by
  cases kind with
  | grow | bulkDelete => rfl
  | rehash seed => cases hplain

namespace World

variable {w w' : World}

/-- A table under the first hash, and tasks that leave it there. -/
structure Unseeded (w : World) : Prop where
  epoch : w.table.layout.epoch = .default
  plain : ∀ task ∈ w.tasks, task.kind.seed? = none

/-- Task `i` goes on with a table under the same hash. -/
theorem Unseeded.update (h : w.Unseeded) {i : Nat} {task task' : Task} {t' : Table}
    (hi : w.tasks[i]? = some task) (hkind : task'.kind = task.kind)
    (hepoch : t'.layout.epoch = w.table.layout.epoch) : (w.update i task' t').Unseeded where
  epoch := hepoch.trans h.epoch
  plain other hother := by
    rcases List.mem_or_eq_of_mem_set hother with hother | rfl
    · exact h.plain other hother
    · rw [hkind]
      exact h.plain task (List.mem_of_getElem? hi)

/-- A call on task `i` that leaves the kind of the task alone, and the hash of the table. -/
def KeepsHash (w : World) (i : Nat) (f : Task → World × Answer) : Prop :=
  ∀ task, w.tasks[i]? = some task → (f task).1 = w ∨
    ∃ task' t', (f task).1 = w.update i task' t' ∧ task'.kind = task.kind ∧
    t'.layout.epoch = w.table.layout.epoch

theorem Unseeded.drive (h : w.Unseeded) {i : Nat} {f : Task → World × Answer}
    (hf : w.KeepsHash i f) :
    (w.drive i f).1.Unseeded := by
  rw [World.drive]
  split
  · next task hi =>
    rcases hf task hi with hsame | ⟨task', t', hupdate, hkind, hepoch⟩
    · rw [hsame]
      exact h
    · rw [hupdate]
      exact h.update hi hkind hepoch
  · exact h

theorem Unseeded.create (h : w.Unseeded) {kind : TaskKind} (hplain : kind.seed? = none)
    (chunk : Option UInt64) :
    (w.create kind chunk).Unseeded := by
  obtain ⟨task, heq, hkind⟩ : ∃ task : Task, (w.create kind chunk).tasks = w.tasks ++ [task] ∧
      task.kind = kind := by
    cases chunk <;> exact ⟨_, rfl, rfl⟩
  refine ⟨by cases chunk <;> exact h.epoch, fun other hother => ?_⟩
  rcases List.mem_append.1 (heq ▸ hother) with hother | hother
  · exact h.plain other hother
  · rw [List.mem_singleton.1 hother, hkind]
    exact hplain

theorem keepsHash_prepare (w : World) (i : Nat) : w.KeepsHash i (w.prepare i) := by
  intro task hi
  rw [World.prepare]
  cases hprepare : task.prepare w.table with
  | none => exact .inl rfl
  | some pair =>
    obtain ⟨task', t'⟩ := pair
    obtain ⟨-, -, -, rfl, rfl⟩ := Task.prepare_eq_some hprepare
    exact .inr ⟨_, _, rfl, rfl, rfl⟩

theorem keepsHash_pause (w : World) (i : Nat) : w.KeepsHash i (w.pause i) := by
  intro task hi
  rw [World.pause, Task.yieldPoint, Task.require]
  by_cases hrunning : task.state = .running
  · rw [if_pos hrunning]
    exact .inr ⟨_, _, rfl, rfl, rfl⟩
  · rw [if_neg hrunning]
    exact .inl rfl

theorem keepsHash_resume (w : World) (i : Nat) : w.KeepsHash i (w.resume i) := by
  intro task hi
  rw [World.resume, Task.resume, Task.require]
  by_cases hpaused : task.state = .paused
  · rw [if_pos hpaused]
    exact .inr ⟨_, _, rfl, rfl, rfl⟩
  · rw [if_neg hpaused]
    exact .inl rfl

theorem Orderly.keepsHash_chunk (h : w.Orderly) (i : Nat) : w.KeepsHash i (w.chunk i) := by
  intro task hi
  rw [World.chunk]
  by_cases hrunning : task.state = .running
  · have hdrives := h.drives i task hi (Task.isUnderWay_iff.2 (.inl hrunning))
    have hstage := hdrives.processChunk_stage w.heap
    rw [hdrives.doChunk_eq hrunning]
    exact .inr ⟨_, _, rfl, hstage.same.kind, congrArg Layout.epoch hstage.frame.layout⟩
  · rw [Task.doChunk_of_ne_running hrunning]
    exact .inl rfl

/-- A commit changes the hash only if the task rehashes. -/
theorem Unseeded.keepsHash_commit (h : w.Unseeded) (horderly : w.Orderly) (i : Nat) :
    w.KeepsHash i (w.commit i) := by
  intro task hi
  rw [World.commit]
  by_cases hrunning : task.state = .running
  · have hdrives := horderly.drives i task hi (Task.isUnderWay_iff.2 (.inl hrunning))
    by_cases hend : task.cursor = w.table.size
    · rw [hdrives.commit_eq hrunning hend]
      refine .inr ⟨_, _, rfl, rfl, ?_⟩
      rw [hdrives.layout_finish, Layout.epoch_after (h.plain task (List.mem_of_getElem? hi))]
    · rw [hdrives.commit_of_ne_size hrunning hend]
      exact .inl rfl
  · rw [Task.commit_of_ne_running hrunning]
    exact .inl rfl

/-- A task that is given up is brought to its end first. -/
theorem Unseeded.keepsHash_abandon (h : w.Unseeded) (horderly : w.Orderly) (i : Nat) :
    w.KeepsHash i (w.abandon i) := by
  intro task hi
  rw [World.abandon]
  refine .inr ⟨_, _, rfl, rfl, ?_⟩
  cases hunder : task.isUnderWay with
  | true =>
    have hdrives := horderly.drives i task hi hunder
    obtain ⟨task', t', heq, hdrives', -, hstage⟩ := hdrives.resumed.complete_stage w.heap
    rw [Task.abandon_eq hdrives, heq, hdrives'.layout_finish, hstage.same.kind,
      Layout.epoch_after (h.plain task (List.mem_of_getElem? hi))]
    exact congrArg Layout.epoch hstage.frame.layout
  | false =>
    rw [Task.abandon, hunder]
    rfl

theorem Unseeded.step_task (h : w.Unseeded) (horderly : w.Orderly) {action : Action}
    (htask : action.isTask = true) (hseed : action.seed? = none) : (w.step action).1.Unseeded := by
  cases action with
  | create kind chunk => exact h.create hseed chunk
  | prepare i => exact h.drive (keepsHash_prepare w i)
  | chunk i => exact h.drive (horderly.keepsHash_chunk i)
  | pause i => exact h.drive (keepsHash_pause w i)
  | resume i => exact h.drive (keepsHash_resume w i)
  | commit i => exact h.drive (h.keepsHash_commit horderly i)
  | abandon i => exact h.drive (h.keepsHash_abandon horderly i)
  | allocate | retain | drop | insert | get => cases htask

theorem Unseeded.step (h : w.Unseeded) (horderly : w.Orderly) {action : Action}
    (hseed : action.seed? = none) :
    (w.step action).1.Unseeded := by
  cases htask : action.isTask with
  | true => exact h.step_task horderly htask hseed
  | false =>
    cases action with
    | insert o =>
      rw [World.step]
      split
      · have hacquired := horderly.congr w.heap (w.table.cells.acquire o).2 w.spare w.passed
        have hins :=
          Table.insertIfAbsent_inserted hacquired.formed w.heap o (w.table.cells.acquire o).1
        exact ⟨(congrArg Layout.epoch hins.sameFrame.layout).trans h.epoch, h.plain⟩
      · exact h
    | allocate | retain | drop | get => exact ⟨h.epoch, h.plain⟩
    | create | prepare | chunk | pause | resume | commit | abandon => cases htask

/-- All arrays of such a table are under the first hash. -/
theorem Unseeded.epoch_eq (h : w.Unseeded) (horderly : w.Orderly) {a : BucketArray}
    (ha : a ∈ w.table.active :: w.table.successors) : a.epoch = .default := by
  rcases List.mem_cons.1 ha with rfl | ha
  · exact h.epoch
  · rcases horderly.cases with hrest | ⟨i, task, hi, -, hdrives⟩
    · rw [hrest.still.alone] at ha
      exact absurd ha List.not_mem_nil
    · cases hdrives.halfway with
      | cleaning hkind still =>
        rw [still.alone] at ha
        exact absurd ha List.not_mem_nil
      | moving hkind target moving suits moved =>
        obtain ⟨blank, hblank, -, hepoch⟩ := suits
        rw [moving.next, List.mem_singleton] at ha
        have hplain := h.plain task (List.mem_of_getElem? hi)
        cases hk : task.kind with
        | grow =>
          rw [hk] at hblank
          cases hblank
          rw [ha, hepoch]
          exact h.epoch
        | rehash seed =>
          rw [hk] at hplain
          cases hplain
        | bulkDelete => exact absurd hk hkind

theorem Unseeded.run (h : w.Unseeded) (horderly : w.Orderly) {actions : List Action}
    (hseeds : ∀ action ∈ actions, action.seed? = none) : (w.run (actions.map .act)).Unseeded := by
  induction actions generalizing w with
  | nil => exact h
  | cons action rest ih =>
    exact ih (h.step horderly (hseeds action List.mem_cons_self)) (horderly.step action)
      fun action' haction => hseeds action' (.tail _ haction)

theorem unseeded_start (settings : Settings) (cells : CellStore) (heap : Heap) :
    (start settings cells heap).Unseeded :=
  ⟨rfl, fun _ htask => absurd htask List.not_mem_nil⟩

end World

/-! ## Collisions stay together -/

/-- What the strings of `k` blocks have in common. -/
structure Collide (k : Nat) : Prop where
  length : (collisions k).length = 2 ^ k
  nodup : (collisions k).Nodup
  /-- They are all strings of `k` blocks. -/
  mem_iff : ∀ s, s ∈ collisions k ↔ ∃ bits : List Bool, bits.length = k ∧ s = joinBlocks bits
  hash : ∀ s ∈ collisions k, ∀ s' ∈ collisions k, unitHash s = unitHash s'
  /-- An array of any size has one bucket for them. -/
  home : ∀ a : BucketArray, a.epoch = .default → ∀ s ∈ collisions k, ∀ s' ∈ collisions k,
    a.home s = a.home s'
  /-- No growth separates them, between any two steps of it. -/
  together : ∀ (settings : Settings) (cells : CellStore) (heap : Heap) (actions : List Action),
    (∀ action ∈ actions, action.seed? = none) →
      let w := (World.start settings cells heap).run (actions.map .act)
      ∀ o o', w.table.Holds w.heap o → w.heap.content o ∈ collisions k → w.table.Holds w.heap o' →
        w.heap.content o' ∈ collisions k → w.table.Together o o'

theorem collide (k : Nat) : Collide k where
  length := by rw [collisions, List.length_map, List.length_range]
  nodup := nodup_collisions k
  mem_iff _ := mem_collisions_iff
  hash _ hs _ hs' := unitHash_of_mem_collisions hs hs'
  home _ hdefault _ hs _ hs' :=
    BucketArray.home_eq_of_unitHash hdefault (unitHash_of_mem_collisions hs hs')
  together settings cells heap actions hseeds := by
    intro w o o' ho hs ho' hs'
    have hmirrors := (World.mirrors_start settings cells heap).run actions
    have hunseeded :=
      (World.unseeded_start settings cells heap).run
        (World.orderly_start settings cells heap) hseeds
    have hcoherent : w.table.Coherent w.heap := hmirrors.heap ▸ hmirrors.table.coherent
    exact hcoherent.together hmirrors.orderly.formed
      (fun _ ha => hunseeded.epoch_eq hmirrors.orderly ha) ho ho'
      (unitHash_of_mem_collisions hs hs')

/-- **The first hash is easy to attack.** The hash of a concatenation is a polynomial in the hashes
of its parts, so a part may be replaced by another one of the same hash and length. There are `2 ^
k` strings of `k` blocks, all with one hash, and no table separates them, whatever its size, and
however it grows, as long as it is not rehashed. -/
theorem collisions_stay_together :
    (∀ a b, (unitHash (a ++ b)).toNat =
      ((unitHash a).toNat * 31 ^ unitCount b + (unitHash b).toNat) % 2 ^ 32) ∧
      (∀ before part part' behind, unitHash part = unitHash part' →
        unitCount part = unitCount part' →
        unitHash (before ++ part ++ behind) = unitHash (before ++ part' ++ behind)) ∧
      ∀ k, Collide k :=
  ⟨toNat_unitHash_append,
    fun _ _ _ _ hhash hcount => unitHash_append_congr
      (unitHash_append_congr rfl hhash hcount) rfl rfl, collide⟩

/-- One of two collisions is moved, and the other one is inserted behind the redirect. -/
def partingActions : List Action :=
  [.allocate "AaBB", .insert ⟨0⟩, .create .grow (some 1), .prepare 0, .chunk 0, .allocate "BBAa",
    .insert ⟨1⟩]

theorem collisions_stay_together_midway :
    let w :=
      (World.start { initialSize := 2, maxLog2 := 4 } { name := "cells" } {}).run
        (partingActions.map .act)
    w.tasks.map Task.cursor = [1] ∧ w.table.Together ⟨0⟩ ⟨1⟩ ∧
        unitHash ("x" ++ "Aa" ++ "y") = unitHash ("x" ++ "BB" ++ "y") := by
  intro w
  obtain ⟨-, hreplace, hcollide⟩ := collisions_stay_together
  have hformed : w.table.Formed :=
    (World.orderly_run { initialSize := 2, maxLog2 := 4 } { name := "cells" } {}
      (partingActions.map .act)).formed
  have hheld (o : ObjectId) (h : (w.table.get? w.heap (.object o)).value = some o) :=
    Table.holds_of_get? hformed h
  have hmoved : w.table.Holds w.heap ⟨0⟩ := (hheld ⟨0⟩ (by decide)).1
  have hlinked : w.table.Holds w.heap ⟨1⟩ := (hheld ⟨1⟩ (by decide)).1
  refine ⟨by decide, ?_, hreplace "x" "Aa" "BB" "y" (by decide) (by decide)⟩
  exact (hcollide 2).together _ _ _ partingActions (by decide) ⟨0⟩ ⟨1⟩ hmoved
    (by decide) hlinked (by decide)

end WeakIntern
