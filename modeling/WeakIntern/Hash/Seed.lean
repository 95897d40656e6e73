/-!
# Drawing a seed

The seed of a keyed hash is a random word, and never zero, which stands for the default hash. Words
are drawn from a source until one is not zero (`RandomSource.drawSeed`).
-/

namespace WeakIntern

/-- A source of random words. However many were drawn, one that is not zero will come. -/
structure RandomSource where
  word : Nat → UInt64
  lively : ∀ n, ∃ k, word (n + k) ≠ 0

namespace RandomSource

variable (source : RandomSource)

/-- Another word is drawn after one that is zero. -/
def DrawsOn (later n : Nat) : Prop := source.word n = 0 ∧ later = n + 1

theorem wellFounded_drawsOn : WellFounded source.DrawsOn := by
  refine ⟨fun n => ?_⟩
  obtain ⟨k, hk⟩ := source.lively n
  induction k generalizing n with
  | zero => exact ⟨_, fun _ hdraws => absurd hdraws.1 hk⟩
  | succ k ih =>
    refine ⟨_, ?_⟩
    rintro _ ⟨-, rfl⟩
    exact ih (n + 1) (Nat.add_right_comm n 1 k ▸ hk)

/-- Draw a seed after `n` words. With it comes the number of words that are drawn by then. -/
def drawSeed (n : Nat) : UInt64 × Nat :=
  if source.word n = 0 then drawSeed (n + 1) else (source.word n, n + 1)
termination_by source.wellFounded_drawsOn.wrap n
decreasing_by exact ⟨‹_›, rfl⟩

/-- **A seed** is the first word that is not zero, among those that were not drawn before. -/
theorem drawSeed_spec (n : Nat) : ∃ k, (∀ j < k, source.word (n + j) = 0) ∧
    source.word (n + k) ≠ 0 ∧ source.drawSeed n = (source.word (n + k), n + k + 1) := by
  fun_induction source.drawSeed n with
  | case1 n hzero ih =>
    obtain ⟨k, hbefore, hseed, hdrawn⟩ := ih
    rw [Nat.add_right_comm] at hseed hdrawn
    refine ⟨k + 1, fun j hj => ?_, hseed, ?_⟩
    · cases j with
      | zero => exact hzero
      | succ j =>
        have hword := hbefore j (Nat.lt_of_succ_lt_succ hj)
        rwa [Nat.add_right_comm] at hword
    · exact hdrawn
  | case2 n hseed => exact ⟨0, fun j hj => absurd hj (Nat.not_lt_zero j), hseed, rfl⟩

theorem drawSeed_ne_zero (n : Nat) : (source.drawSeed n).1 ≠ 0 := by
  obtain ⟨k, -, hseed, hdrawn⟩ := source.drawSeed_spec n
  rw [hdrawn]
  exact hseed

end RandomSource

end WeakIntern
