/-
  Exponential averages with a cap.

  Every sample is folded in with weight `α`. The average stays under what bounds the samples
  (`average_le`), and it comes up to what the samples are not below at the rate of `1 - α`,
  whatever it began with (`le_average`).
-/
import Mathlib.Algebra.Order.Field.Basic
import Mathlib.Tactic.Linarith
import Mathlib.Tactic.Ring

namespace Average

variable {K : Type} [Field K] [LinearOrder K] [IsStrictOrderedRing K] {α cap : K}

/-- The average once a sample is folded in. -/
def fold (α cap base sample : K) : K := min (α * sample + (1 - α) * base) cap

/-- The average of these samples, from a value it begins with. -/
def average (α cap base : K) (samples : List K) : K := samples.foldl (fold α cap) base

theorem fold_le {hi base sample : K} (hnonneg : 0 ≤ α) (hle : α ≤ 1) (hbase : base ≤ hi)
    (hsample : sample ≤ hi) : fold α cap base sample ≤ hi := by
  have hnew := mul_le_mul_of_nonneg_left hsample hnonneg
  have hold := mul_le_mul_of_nonneg_left hbase (sub_nonneg.mpr hle)
  refine le_trans (min_le_left _ _) ?_
  calc α * sample + (1 - α) * base ≤ α * hi + (1 - α) * hi := add_le_add hnew hold
    _ = hi := by ring

/-- An average of samples under a bound is under it. -/
theorem average_le {hi base : K} {samples : List K} (hnonneg : 0 ≤ α) (hle : α ≤ 1)
    (hbase : base ≤ hi) (hsamples : ∀ x ∈ samples, x ≤ hi) : average α cap base samples ≤ hi := by
  induction samples generalizing base with
  | nil => exact hbase
  | cons x samples ih =>
    exact ih (fold_le hnonneg hle hbase (hsamples x List.mem_cons_self))
      fun y hy => hsamples y (List.mem_cons_of_mem x hy)

theorem le_fold {lo gap base sample : K} (hnonneg : 0 ≤ α) (hle : α ≤ 1) (hcap : lo ≤ cap)
    (hgap : 0 ≤ gap) (hbase : lo - gap ≤ base) (hsample : lo ≤ sample) :
    lo - (1 - α) * gap ≤ fold α cap base sample := by
  have hnew := mul_le_mul_of_nonneg_left hsample hnonneg
  have hold := mul_le_mul_of_nonneg_left hbase (sub_nonneg.mpr hle)
  refine le_min ?_ ?_
  · calc lo - (1 - α) * gap = α * lo + (1 - α) * (lo - gap) := by ring
      _ ≤ α * sample + (1 - α) * base := add_le_add hnew hold
  · exact le_trans (sub_le_self lo (mul_nonneg (sub_nonneg.mpr hle) hgap)) hcap

/-- Each sample not below a bound takes the same share off what the average lacks to it. -/
theorem le_average {lo gap base : K} {samples : List K} (hnonneg : 0 ≤ α) (hle : α ≤ 1)
    (hcap : lo ≤ cap) (hgap : 0 ≤ gap) (hbase : lo - gap ≤ base)
    (hsamples : ∀ x ∈ samples, lo ≤ x) :
    lo - (1 - α) ^ samples.length * gap ≤ average α cap base samples := by
  induction samples generalizing gap base with
  | nil =>
    rw [List.length_nil, pow_zero, one_mul]
    exact hbase
  | cons x samples ih =>
    have hx := hsamples x List.mem_cons_self
    have hrest := ih (mul_nonneg (sub_nonneg.mpr hle) hgap)
      (le_fold hnonneg hle hcap hgap hbase hx) fun y hy => hsamples y (List.mem_cons_of_mem x hy)
    rw [List.length_cons, pow_succ, mul_assoc]
    exact hrest

end Average
