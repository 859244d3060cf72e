import Mathlib.Analysis.Real.Sqrt

/-!
# Deviations

Whether a difference exceeds a number of standard deviations can be decided without taking the
root: both sides are squared, and the signs are looked at first (`exceeds_iff`).
-/

namespace Lib

/-- The mean, which of nothing is zero. -/
def mean (xs : List Rat) : Rat := if xs = [] then 0 else xs.sum / xs.length

/-- The mean square of the distances from `m`. -/
def variance (xs : List Rat) (m : Rat) : Rat :=
  if xs = [] then 0 else (xs.map fun x => (x - m) * (x - m)).sum / xs.length

theorem variance_nonneg (xs : List Rat) (m : Rat) : 0 ≤ variance xs m := by
  unfold variance
  split
  · exact le_rfl
  · refine div_nonneg (List.sum_nonneg ?_) (Nat.cast_nonneg _)
    intro x hx
    obtain ⟨y, -, rfl⟩ := List.mem_map.mp hx
    exact mul_self_nonneg _

/-- `δ` is more than `k` times the root of `v`. -/
def exceeds (δ k v : Rat) : Bool :=
  if 0 ≤ k then decide (0 < δ ∧ k * k * v < δ * δ) else decide (0 < δ ∨ δ * δ < k * k * v)

theorem exceeds_iff {δ k v : Rat} (hv : 0 ≤ v) :
    exceeds δ k v = true ↔ (k : ℝ) * Real.sqrt v < δ := by
  have hroot : 0 ≤ Real.sqrt v := Real.sqrt_nonneg _
  have hsq : (k : ℝ) * Real.sqrt v * (k * Real.sqrt v) = ((k * k * v : Rat) : ℝ) := by
    push_cast
    rw [mul_mul_mul_comm, Real.mul_self_sqrt (by exact_mod_cast hv)]
  have hless : k * k * v < δ * δ ↔ (k : ℝ) * Real.sqrt v * (k * Real.sqrt v) < δ * δ := by
    rw [hsq]
    norm_cast
  have hmore : δ * δ < k * k * v ↔ (δ : ℝ) * δ < (k : ℝ) * Real.sqrt v * (k * Real.sqrt v) := by
    rw [hsq]
    norm_cast
  unfold exceeds
  split
  next hk =>
    -- both sides are squared where both are positive
    have hside : 0 ≤ (k : ℝ) * Real.sqrt v := mul_nonneg (by exact_mod_cast hk) hroot
    rw [decide_eq_true_iff, hless, ← Rat.cast_pos (K := ℝ)]
    constructor
    · rintro ⟨hδ, h⟩
      exact lt_of_mul_self_lt_mul_self₀ hδ.le h
    · intro h
      exact ⟨hside.trans_lt h, mul_self_lt_mul_self hside h⟩
  next hk =>
    -- a difference that is not positive is the smaller of the two in square
    have hside : (k : ℝ) * Real.sqrt v ≤ 0 :=
      mul_nonpos_of_nonpos_of_nonneg (by exact_mod_cast (not_le.mp hk).le) hroot
    rw [decide_eq_true_iff, hmore, ← Rat.cast_pos (K := ℝ)]
    constructor
    · rintro (hδ | h)
      · exact hside.trans_lt hδ
      · by_contra hle
        nlinarith [not_lt.mp hle]
    · intro h
      by_cases hδ : 0 < (δ : ℝ)
      · exact .inl hδ
      · exact .inr (by nlinarith)

end Lib
