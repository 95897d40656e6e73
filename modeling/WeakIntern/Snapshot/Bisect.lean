/-!
# Bisection

`bisect before lo hi` finds, among the indices from `lo` to `hi`, the first at which `before` no
longer holds, in about `log₂ (hi - lo)` steps. It is right whenever `before` holds on an initial
segment only (`bisect_eq_of_split`).
-/

namespace WeakIntern

/-- The first index from `lo` on, and below `hi`, at which `before` fails; `hi` if there is none. -/
def bisect (before : Nat → Bool) (lo hi : Nat) : Nat :=
  if lo < hi then
    let mid := (lo + hi) / 2
    if before mid then bisect before (mid + 1) hi else bisect before lo mid
  else lo
termination_by hi - lo

theorem bisect_eq_of_split {before : Nat → Bool} {cut : Nat}
    (hbefore : ∀ i, i < cut → before i = true) (hafter : ∀ i, cut ≤ i → before i = false)
    (lo hi : Nat) (hlo : lo ≤ cut) (hhi : cut ≤ hi) :
    bisect before lo hi = cut := by
  fun_induction bisect before lo hi with
  | case1 lo hi hlt mid hmid ih =>
    refine ih ?_ hhi
    have : ¬ cut ≤ mid := fun hle => by simp [hafter mid hle] at hmid
    omega
  | case2 lo hi hlt mid hmid ih =>
    refine ih hlo ?_
    have : ¬ mid < cut := fun hcut => by simp [hbefore mid hcut] at hmid
    omega
  | case3 lo hi hge => omega

end WeakIntern
