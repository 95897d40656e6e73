import Mathlib
import WeakIntern.Proofs.Doubles
import WeakIntern.Proofs.Shape
/-!
# Room to grow

Settings are accepted just if a table can be built with them and grown (`Settings.check_eq_ok_iff`).
The size that is asked for is rounded up to a power of two. The machine has a 64-bit operation for
that. Its arithmetic is that of an optimized build, which wraps around: for a size above `2 ^ 63`
the power does not fit and the result is zero (a build that checks its arithmetic would stop there).
The trailing zeros of the result are the logarithm all the same
(`Settings.initialLog2_eq_trailingZeros`).

From there on each Grow doubles the table, until it is as large as it may be (`World.Poised.grow`);
so the number of times that a table can be grown follows from the settings, whatever else happens
between one Grow and the next (`World.Poised.growAll`).
-/

namespace WeakIntern

/-! ## Rounding up to a power of two -/

/-- The least power of two that is not below a number, in 64 bits: where it does not fit the sum
wraps around to zero. -/
def nextPowerOfTwo (n : UInt64) : UInt64 :=
  if n ≤ 1 then 1 else (maxCount.toUInt64 >>> UInt64.ofBitVec (n - 1).toBitVec.clz) + 1

/-- The number of zeros at the end of the binary digits; of all sixty-four for zero. -/
def trailingZeros (n : UInt64) : Nat := if n = 0 then 64 else n.toBitVec.ctz.toNat

theorem trailingZeros_of_toNat_eq {n : UInt64} {k : Nat} (h : n.toNat = 2 ^ k) :
    trailingZeros n = k := by
  have hne : n ≠ 0 := by
    rintro rfl
    exact absurd h.symm (Nat.two_pow_pos k).ne'
  have hbit :=
    BitVec.getLsbD_true_ctz_of_ne_zero (x := n.toBitVec) fun h => hne (UInt64.toBitVec_inj.1 h)
  rw [trailingZeros, if_neg hne]
  rw [BitVec.getLsbD, UInt64.toNat_toBitVec, h, Nat.testBit_two_pow] at hbit
  exact (of_decide_eq_true hbit).symm

/-- As many ones as are left of sixty-four. -/
theorem maxCount_shiftRight {k : Nat} (hk : k < 64) : maxCount >>> (63 - k) = 2 ^ (k + 1) - 1 := by
  have hparts : 2 ^ (k + 1) * 2 ^ (63 - k) = 2 ^ 64 := by
    rw [← Nat.pow_add]
    congr 1
    omega
  have hpos := Nat.two_pow_pos (63 - k)
  rw [Nat.shiftRight_eq_div_pow]
  refine Nat.div_eq_of_lt_le ?_ ?_
  · rw [Nat.sub_mul, hparts, Nat.one_mul, maxCount]
    omega
  · rw [Nat.sub_add_cancel (Nat.two_pow_pos _), hparts]
    decide

/-- The operation of the machine, between two powers of two. -/
theorem toNat_nextPowerOfTwo {n : UInt64} {k : Nat} (hlow : 2 ^ k < n.toNat)
    (hhigh : n.toNat ≤ 2 ^ (k + 1)) :
    (nextPowerOfTwo n).toNat = 2 ^ (k + 1) % 2 ^ 64 := by
  have hone : ¬ n ≤ 1 := by
    rw [UInt64.le_iff_toNat_le]
    exact Nat.not_le.2 (Nat.lt_of_le_of_lt (Nat.two_pow_pos k) hlow)
  have hpred : (n - 1).toBitVec.toNat = n.toNat - 1 :=
    UInt64.toNat_sub_of_le _ _ (UInt64.le_of_lt (UInt64.not_le.1 hone))
  have hne : (n - 1).toBitVec ≠ 0#64 := by
    intro hzero
    have hpos := Nat.two_pow_pos k
    rw [hzero, BitVec.toNat_zero] at hpred
    omega
  -- The zeros before the first digit of `n - 1` tell between which powers of two it is.
  have hbelow := BitVec.two_pow_sub_clz_le_toNat_of_ne_zero (by decide : 0 < 64) hne
  have habove := BitVec.toNat_lt_two_pow_sub_clz (x := (n - 1).toBitVec)
  have hfew : (n - 1).toBitVec.clz.toNat < 64 := BitVec.clz_lt_iff_ne_zero.2 hne
  rw [hpred] at hbelow habove
  have hle :=
    (Nat.pow_lt_pow_iff_right (by decide)).1 (Nat.lt_of_le_of_lt (Nat.le_sub_one_of_lt hlow) habove)
  have hge :=
    (Nat.pow_lt_pow_iff_right (by decide)).1
      (Nat.lt_of_le_of_lt hbelow (Nat.sub_one_lt_of_le (by omega) hhigh))
  have hclz : (n - 1).toBitVec.clz.toNat = 63 - k := by omega
  have hwidth : (UInt64.ofBitVec (n - 1).toBitVec.clz).toNat % 64 = 63 - k := by
    rw [UInt64.toNat_ofBitVec, hclz]
    omega
  have hones : maxCount.toUInt64.toNat = maxCount := rfl
  rw [nextPowerOfTwo, if_neg hone, UInt64.toNat_add, UInt64.toNat_shiftRight, hwidth, hones,
    maxCount_shiftRight (by omega)]
  show (2 ^ (k + 1) - 1 + 1) % 2 ^ 64 = _
  rw [Nat.sub_add_cancel (Nat.two_pow_pos _)]

namespace Settings

theorem le_log2From (n fuel k : Nat) : k ≤ log2From n fuel k := by
  induction fuel generalizing k with
  | zero => exact Nat.le_refl k
  | succ fuel ih =>
    rw [log2From]
    split
    · exact Nat.le_refl k
    · exact Nat.le_of_succ_le (ih (k + 1))

/-- The search finds the least exponent, if its steps suffice. -/
theorem log2From_le_iff {n fuel k j : Nat} (hfuel : n ≤ 2 ^ (k + fuel)) (hj : k ≤ j) :
    log2From n fuel k ≤ j ↔ n ≤ 2 ^ j := by
  induction fuel generalizing k with
  | zero => exact iff_of_true hj (hfuel.trans (Nat.pow_le_pow_right (by decide) hj))
  | succ fuel ih =>
    rw [log2From]
    split
    · next hfound => exact iff_of_true hj (hfound.trans (Nat.pow_le_pow_right (by decide) hj))
    · next hmissed =>
      rcases Nat.eq_or_lt_of_le hj with rfl | hlt
      · exact iff_of_false (Nat.not_le.2 (le_log2From n fuel (k + 1))) hmissed
      · exact ih (by rwa [Nat.add_right_comm]) hlt

/-- **The logarithm of the size** is the least that will do. -/
theorem initialLog2_le_iff (s : Settings) (k : Nat) : s.initialLog2 ≤ k ↔
    s.initialSize.toNat ≤ 2 ^ k :=
  log2From_le_iff (Nat.le_of_lt (Nat.lt_of_lt_of_eq s.initialSize.toNat_lt (by rw [Nat.zero_add])))
    (Nat.zero_le k)

theorem initialLog2_le (s : Settings) : s.initialLog2 ≤ 64 :=
  (s.initialLog2_le_iff 64).2 (Nat.le_of_lt s.initialSize.toNat_lt)

theorem initialSize_le (s : Settings) : s.initialSize.toNat ≤ 2 ^ s.initialLog2 :=
  (s.initialLog2_le_iff _).1 (Nat.le_refl _)

/-- A size that is rounded up less than doubles. -/
theorem lt_initialSize (s : Settings) {k : Nat} (hk : k < s.initialLog2) :
    2 ^ k < s.initialSize.toNat :=
  Nat.not_le.1 fun hle => Nat.not_le.2 hk ((s.initialLog2_le_iff k).2 hle)

theorem isLeast_initialLog2 (s : Settings) :
    IsLeast {k | max s.initialSize.toNat 1 ≤ 2 ^ k} s.initialLog2 :=
  ⟨Nat.max_le.2 ⟨s.initialSize_le, Nat.two_pow_pos _⟩,
    fun _ hk => (s.initialLog2_le_iff _).2 (Nat.max_le.1 hk).1⟩

/-- **The machine** finds that logarithm, also where the power itself does not fit. -/
theorem initialLog2_eq_trailingZeros (s : Settings) :
    s.initialLog2 = trailingZeros (nextPowerOfTwo (max s.initialSize 1)) := by
  cases hlog2 : s.initialLog2 with
  | zero =>
    have hone : s.initialSize ≤ 1 :=
      UInt64.le_iff_toNat_le.2 ((s.initialLog2_le_iff 0).1 (Nat.le_of_eq hlog2))
    have hmax : max s.initialSize 1 = 1 := if_pos hone
    rw [hmax]
    exact (trailingZeros_of_toNat_eq (k := 0) rfl).symm
  | succ k =>
    have hlow := s.lt_initialSize (Nat.lt_of_lt_of_eq (Nat.lt_succ_self k) hlog2.symm)
    have hhigh := hlog2 ▸ s.initialSize_le
    have hmany : ¬ s.initialSize ≤ 1 := by
      rw [UInt64.le_iff_toNat_le]
      exact Nat.not_le.2 (Nat.lt_of_le_of_lt (Nat.two_pow_pos k) hlow)
    have hmax : max s.initialSize 1 = s.initialSize := if_neg hmany
    have hpower := toNat_nextPowerOfTwo hlow hhigh
    rw [hmax]
    rcases Nat.eq_or_lt_of_le (hlog2 ▸ s.initialLog2_le) with hlast | hlt
    · rw [hlast] at hpower ⊢
      have hzero : nextPowerOfTwo s.initialSize = 0 := UInt64.toNat_inj.1 hpower
      rw [hzero]
      rfl
    · rw [Nat.mod_eq_of_lt (Nat.pow_lt_pow_right (by decide) hlt)] at hpower
      exact (trailingZeros_of_toNat_eq hpower).symm

/-! ## Settings that are accepted -/

/-- Settings with which a table can be built and grown. -/
structure Sound (s : Settings) : Prop where
  maxLog2_le : s.maxLog2.toNat ≤ 30
  initialSize_pos : 1 ≤ s.initialSize.toNat
  initialSize_le : s.initialSize.toNat ≤ 2 ^ s.maxLog2.toNat
  alarmLength_pos : 1 ≤ s.alarmLength.toNat
  chunkBuckets_pos : 1 ≤ s.chunkBuckets.toNat
  preferredLoad_pos : (Binary64.ofFloat s.preferredLoad).IsPositive
  deadLimit_pos : (Binary64.ofFloat s.deadLimit).IsPositive

/-- A check that is passed, and with it those after it. -/
theorem passes_iff {p : Prop} [Decidable p] (e : SettingsError) (rest : Except SettingsError Unit) :
    (if p then .error e else rest) = .ok () ↔ ¬ p ∧ rest = .ok () := by
  split
  · next hp => exact iff_of_false (fun h => nomatch h) fun h => h.1 hp
  · next hp => exact (and_iff_right hp).symm

/-- **The settings that are accepted** are the sound ones. -/
theorem check_eq_ok_iff (s : Settings) : s.check = .ok () ↔ s.Sound := by
  have hpos (n : UInt64) : n ≠ 0 ↔ 1 ≤ n.toNat := by
    rw [ne_eq, ← UInt64.toNat_inj]
    exact Nat.pos_iff_ne_zero.symm
  have hsize := s.initialLog2_le_iff s.maxLog2.toNat
  simp only [check, passes_iff, hpos, Nat.not_lt, hsize, maxLog2Limit, Bool.not_eq_true',
    decide_eq_false_iff_not, Classical.not_not, Binary64.zero_lt_iff, and_true]
  constructor
  · rintro ⟨hinitial, hmax, hle, halarm, hpreferred, hdead, hchunk⟩
    exact ⟨hmax, hinitial, hle, halarm, hchunk, hpreferred, hdead⟩
  · rintro ⟨hmax, hinitial, hle, halarm, hchunk, hpreferred, hdead⟩
    exact ⟨hinitial, hmax, hle, halarm, hpreferred, hdead, hchunk⟩

end Settings

/-! ## One Grow after another -/

/-- Is the move a step of a task? -/
def Move.isTask : Move → Bool
  | .act action => action.isTask
  | .acquire _ | .offer .. => false

/-- A Grow that is run from its start to its end, and what happens before it: strings may come and
go and be looked up, and no task is at work. -/
structure Growth where
  before : List Move
  plain : ∀ m ∈ before, m.isTask = false
  /-- The number of buckets in a chunk, if it is not that of the table. -/
  chunk : Option UInt64 := none

namespace World

/-- Run a Grow; without a summary if it cannot start. -/
def grow (w : World) (g : Growth) : World × Option TaskSummary :=
  let w := w.run g.before
  let run := Task.run w.heap (.ofChunk w.table .grow g.chunk) w.table
  ({ w with table := run.table }, run.summary)

/-- Run one Grow after another. -/
def growAll (w : World) : List Growth → World
  | [] => w
  | g :: rest => (w.grow g).1.growAll rest

/-- Which of them succeed? -/
def successes (w : World) : List Growth → List Bool
  | [] => []
  | g :: rest => (w.grow g).2.isSome :: (w.grow g).1.successes rest

variable {w : World} {log2 maxLog2 : Nat}

/-- No task is at work on the table, whose size is this power of two. -/
structure Poised (w : World) (log2 maxLog2 : Nat) : Prop where
  orderly : w.Orderly
  atRest : w.table.AtRest
  log2 : w.table.layout.log2 = log2
  maxLog2 : w.table.layout.maxLog2 = maxLog2

theorem poised_start (s : Settings) (cells : CellStore) (heap : Heap) :
    (start s cells heap).Poised s.initialLog2 s.maxLog2.toNat :=
  ⟨orderly_start s cells heap, Table.atRest_ofSettings s cells, rfl, rfl⟩

theorem Poised.size_eq (h : w.Poised log2 maxLog2) (hle : log2 ≤ maxLog2)
    (hmax : maxLog2 ≤ Settings.maxLog2Limit) :
    w.table.size = 2 ^ log2 := by
  rw [Table.size_eq h.atRest.sized ⟨by rwa [h.log2, h.maxLog2], by rwa [h.maxLog2]⟩,
    Layout.size, h.log2]

theorem Poised.pass (h : w.Poised log2 maxLog2) (o : ObjectId) (ref : WeakRef) :
    (w.pass o ref).1.Poised log2 maxLog2 := by
  have hinserted := Table.insertIfAbsent_inserted h.orderly.formed w.heap o ref
  have hlayout := hinserted.sameFrame.layout
  exact ⟨h.orderly.pass o ref, hinserted.atRest h.atRest, hlayout ▸ h.log2, hlayout ▸ h.maxLog2⟩

theorem Poised.congr (h : w.Poised log2 maxLog2) (heap : Heap) (cells : CellStore)
    (spare passed : List WeakRef) :
    Poised { w with heap, table := { w.table with cells }, spare, passed } log2 maxLog2 :=
  ⟨h.orderly.congr heap cells spare passed, h.atRest.congr rfl rfl rfl, h.log2, h.maxLog2⟩

/-- What is no step of a task leaves the size alone. -/
theorem Poised.move (h : w.Poised log2 maxLog2) {m : Move} (hplain : m.isTask = false) :
    (w.move m).1.Poised log2 maxLog2 := by
  cases m with
  | act action =>
    cases action with
    | insert o =>
      rw [World.move, World.step]
      split
      · exact (h.congr w.heap (w.table.acquire o).2.cells w.spare w.passed).pass o _
      · exact h
    | allocate | retain | drop => exact h.congr _ w.table.cells w.spare w.passed
    | get key => exact h
    | create | prepare | chunk | pause | resume | commit | abandon => cases hplain
  | acquire o =>
    rw [World.move]
    split
    · exact h.congr w.heap (w.table.acquire o).2.cells _ w.passed
    · exact h
  | offer o ref =>
    rw [World.move]
    split
    · exact (h.congr w.heap w.table.cells (w.spare.erase ref) w.passed).pass o ref
    · exact h

theorem Poised.run (h : w.Poised log2 maxLog2) {moves : List Move}
    (hplain : ∀ m ∈ moves, m.isTask = false) :
    (w.run moves).Poised log2 maxLog2 := by
  induction moves generalizing w with
  | nil => exact h
  | cons m rest ih =>
    obtain ⟨hfirst, hrest⟩ := List.forall_mem_cons.1 hplain
    exact ih (h.move hfirst) hrest

/-- **A Grow** doubles the table if it may be larger than it is, and otherwise does nothing. -/
theorem Poised.grow (h : w.Poised log2 maxLog2) (g : Growth) :
    (w.grow g).2.isSome = decide (log2 < maxLog2) ∧
      (w.grow g).1.Poised (if log2 < maxLog2 then log2 + 1 else log2) maxLog2 := by
  replace h := h.run g.plain
  rw [World.grow]
  generalize w.run g.before = w at h ⊢
  have hlt := h.orderly.chunkBuckets_lt
  have hdone :=
    Task.run_completed h.atRest (Task.wellFormed_ofChunk .grow g.chunk hlt)
      (Task.state_ofChunk .grow g.chunk) w.heap
  have hmax : w.table.isMaxSize = true ↔ ¬ log2 < maxLog2 := by
    rw [Nat.not_lt, ← h.log2, ← h.maxLog2]
    exact decide_eq_true_iff
  simp only [Task.kind_ofChunk, true_and, hmax] at hdone
  dsimp only
  generalize Task.run w.heap (.ofChunk w.table .grow g.chunk) w.table = run at hdone ⊢
  by_cases hroom : log2 < maxLog2
  · rw [if_neg (not_not_intro hroom)] at hdone
    obtain ⟨summary, hsummary, hcompleted⟩ := hdone
    rw [hsummary, if_pos hroom]
    have horderly : Orderly { w with table := run.table } :=
      { wellFormed := h.orderly.wellFormed
        chunkBuckets_lt := hcompleted.chunkBuckets ▸ hlt
        drives := fun i task hi hunder => by
          rw [h.orderly.idle_of_atRest h.atRest hi] at hunder
          cases hunder
        alone := h.orderly.alone
        atRest := fun _ => hcompleted.atRest }
    exact ⟨(decide_eq_true hroom).symm, horderly, hcompleted.atRest,
      hcompleted.log2.trans (congrArg (· + 1) h.log2), hcompleted.maxLog2.trans h.maxLog2⟩
  · rw [if_pos hroom] at hdone
    obtain ⟨hsummary, htable⟩ := hdone
    rw [hsummary, htable, if_neg hroom]
    exact ⟨(decide_eq_false hroom).symm, h⟩

/-- **As many Grows succeed** as there is room for, and those are the first. -/
theorem Poised.growAll (h : w.Poised log2 maxLog2) (hle : log2 ≤ maxLog2) (growths : List Growth) :
    w.successes growths = List.replicate (min growths.length (maxLog2 - log2)) true ++
        List.replicate (growths.length - (maxLog2 - log2)) false ∧
      (w.growAll growths).Poised (min (log2 + growths.length) maxLog2) maxLog2 := by
  induction growths generalizing w log2 with
  | nil =>
    rw [List.length_nil, Nat.add_zero, Nat.min_eq_left hle, Nat.zero_min, Nat.zero_sub]
    exact ⟨rfl, h⟩
  | cons g rest ih =>
    obtain ⟨hsuccess, hpoised⟩ := h.grow g
    rw [World.successes, World.growAll, hsuccess, List.length_cons]
    by_cases hroom : log2 < maxLog2
    · rw [if_pos hroom] at hpoised
      obtain ⟨hrest, hend⟩ := ih hpoised hroom
      have hleft : min (rest.length + 1) (maxLog2 - log2) =
          min rest.length (maxLog2 - (log2 + 1)) + 1 := by
        omega
      have hover : rest.length + 1 - (maxLog2 - log2) = rest.length - (maxLog2 - (log2 + 1)) := by
        omega
      have hlast : log2 + (rest.length + 1) = log2 + 1 + rest.length := by omega
      rw [hrest, hleft, hover, hlast, decide_eq_true hroom]
      exact ⟨rfl, hend⟩
    · rw [if_neg hroom] at hpoised
      obtain ⟨hrest, hend⟩ := ih hpoised hle
      have hnone : maxLog2 - log2 = 0 := by omega
      have hlast : min (log2 + (rest.length + 1)) maxLog2 = min (log2 + rest.length) maxLog2 := by
        omega
      rw [hrest, hlast, hnone, decide_eq_false hroom, Nat.min_zero, Nat.min_zero]
      exact ⟨rfl, hend⟩

end World

/-! ## Accepted settings -/

/-- What a table with these settings is like, and how it grows. -/
structure Settings.Room (s : Settings) (cells : CellStore) (heap : Heap) : Prop where
  size : (Table.ofSettings s cells).size = 2 ^ s.initialLog2
  initialSize_le : s.initialSize.toNat ≤ (Table.ofSettings s cells).size
  size_lt : (Table.ofSettings s cells).size < 2 * s.initialSize.toNat
  log2_le : (Table.ofSettings s cells).log2 ≤ s.maxLog2.toNat
  /-- Grows succeed until the greatest size is reached, and none does from then on. -/
  successes : ∀ growths, (World.start s cells heap).successes growths =
    List.replicate (min growths.length (s.maxLog2.toNat - s.initialLog2)) true ++
      List.replicate (growths.length - (s.maxLog2.toNat - s.initialLog2)) false
  /-- Each of those doubles the table, which is never too large. -/
  grown : ∀ growths, ((World.start s cells heap).growAll growths).table.size =
    2 ^ min (s.initialLog2 + growths.length) s.maxLog2.toNat
  grown_le : ∀ growths, ((World.start s cells heap).growAll growths).table.size ≤ 2 ^ 30

theorem Settings.Sound.room {s : Settings} (h : s.Sound) (cells : CellStore) (heap : Heap) :
    s.Room cells heap := by
  have hstart := World.poised_start s cells heap
  have hle := (s.initialLog2_le_iff _).2 h.initialSize_le
  have hsize : (Table.ofSettings s cells).size = 2 ^ s.initialLog2 :=
    hstart.size_eq hle h.maxLog2_le
  have hgrown (growths : List Growth) : ((World.start s cells heap).growAll growths).table.size =
      2 ^ min (s.initialLog2 + growths.length) s.maxLog2.toNat :=
    (hstart.growAll hle growths).2.size_eq (Nat.min_le_right _ _) h.maxLog2_le
  exact
    { size := hsize
      initialSize_le := hsize ▸ s.initialSize_le
      size_lt := by
        rw [hsize]
        cases hlog2 : s.initialLog2 with
        | zero =>
          have hpos := h.initialSize_pos
          omega
        | succ k =>
          rw [Nat.pow_succ, Nat.mul_comm]
          exact Nat.mul_lt_mul_of_pos_left
            (s.lt_initialSize (Nat.lt_of_lt_of_eq (Nat.lt_succ_self k) hlog2.symm)) (by decide)
      log2_le := hle
      successes := fun growths => (hstart.growAll hle growths).1
      grown := hgrown
      grown_le := fun growths => by
        rw [hgrown]
        exact Nat.pow_le_pow_right (by decide) ((Nat.min_le_right _ _).trans h.maxLog2_le) }

/-- **Settings are accepted** just if they are sound, the size that they ask for is rounded up to
the next power of two whatever it is, and with those that are accepted there is the room that they
promise. -/
theorem Settings.check_exact (s : Settings) :
    (s.check = .ok () ↔ s.Sound) ∧
      IsLeast {k | max s.initialSize.toNat 1 ≤ 2 ^ k} s.initialLog2 ∧
      s.initialLog2 = trailingZeros (nextPowerOfTwo (max s.initialSize 1)) ∧
      (s.check = .ok () → ∀ cells heap, s.Room cells heap) :=
  ⟨s.check_eq_ok_iff, s.isLeast_initialLog2, s.initialLog2_eq_trailingZeros,
    fun hcheck cells heap => (s.check_eq_ok_iff.1 hcheck).room cells heap⟩

/-- A table for five strings has eight buckets, and grows twice if it may have thirty-two. -/
theorem Settings.check_exact_five :
    (Settings.check { initialSize := 5, maxLog2 := 5 } = .ok ()) ∧
      ∀ cells heap, (Table.ofSettings { initialSize := 5, maxLog2 := 5 } cells).size = 2 ^ 3 ∧
        (World.start { initialSize := 5, maxLog2 := 5 } cells heap).successes
          (List.replicate 3 ⟨[], nofun, none⟩) = [true, true, false] := by
  obtain ⟨hsound, -, -, hroom⟩ := Settings.check_exact { initialSize := 5, maxLog2 := 5 }
  have hcheck :=
    hsound.2 ⟨by decide, by decide, by decide, by decide, by decide, by decide +kernel,
      by decide +kernel⟩
  exact ⟨hcheck, fun cells heap =>
    ⟨(hroom hcheck cells heap).size, (hroom hcheck cells heap).successes _⟩⟩

/-- The power does not fit, and its logarithm is found all the same. -/
example : nextPowerOfTwo (2 ^ 63 + 1) = 0 ∧
    Settings.initialLog2 { initialSize := 2 ^ 63 + 1 } = 64 := by decide +kernel

end WeakIntern
