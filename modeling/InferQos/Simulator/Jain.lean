import InferQos.Common.Squares
import InferQos.Simulator.Model
import Mathlib.Tactic.LinearCombination
/-!
# Jain's index

`jain` is the square of a sum over the number of terms times the sum of
their squares: one less what the distances from the mean come to
(`jain_eq_one_sub`). The list of zeros, for which the quotient is not
defined, is answered with one, as the equal allocation it is.
-/

namespace InferQos

namespace Simulator

variable {x y : List ℚ} {c : ℚ}

/-- **The index in exact arithmetic.** -/
theorem jain_eq (hne : x ≠ []) :
    jain x = if squares x = 0 then 1 else x.sum * x.sum / (x.length * squares x) := by
  unfold jain
  rw [if_neg (by simpa using hne)]
  simp only [Arith.sum_rat, Arith.lit_rat]
  exact if_congr le_antisymm_iff.symm rfl rfl

/-- **What is missing to one** is what the distances from the mean come
to. -/
theorem jain_eq_one_sub (hne : x ≠ []) (hsq : squares x ≠ 0) :
    jain x = 1 - squares (x.map (· - x.sum / x.length)) / squares x := by
  have hlen : (x.length : ℚ) ≠ 0 := (cast_length_pos hne).ne'
  have hmean := squares_sub_mean hne
  rw [jain_eq hne, if_neg hsq, eq_sub_iff_add_eq, div_add_div _ _ (mul_ne_zero hlen hsq) hsq,
    div_eq_one_iff_eq (mul_ne_zero (mul_ne_zero hlen hsq) hsq)]
  linear_combination squares x * hmean

theorem jain_le_one (hne : x ≠ []) : jain x ≤ 1 := by
  by_cases hsq : squares x = 0
  · rw [jain_eq hne, if_pos hsq]
  · rw [jain_eq_one_sub hne hsq]
    exact sub_le_self 1 (div_nonneg (squares_nonneg _) (squares_nonneg x))

theorem one_div_length_le_jain (hne : x ≠ []) (h : ∀ v ∈ x, 0 ≤ v) : 1 / x.length ≤ jain x := by
  have hlen : (0 : ℚ) < x.length := cast_length_pos hne
  rw [jain_eq hne]
  split
  · exact (div_le_one hlen).mpr (Nat.one_le_cast.mpr (List.length_pos_iff.mpr hne))
  · rename_i hsq
    have hpos : 0 < squares x := lt_of_le_of_ne (squares_nonneg x) (Ne.symm hsq)
    rw [div_le_div_iff₀ hlen (mul_pos hlen hpos), one_mul, mul_comm]
    exact mul_le_mul_of_nonneg_right (squares_le_sum_mul_sum h) hlen.le

theorem jain_eq_one_iff (hne : x ≠ []) : jain x = 1 ↔ ∀ a ∈ x, ∀ b ∈ x, a = b := by
  by_cases hsq : squares x = 0
  · have hzero := squares_eq_zero_iff.mp hsq
    rw [jain_eq hne, if_pos hsq]
    exact ⟨fun _ a ha b hb => (hzero a ha).trans (hzero b hb).symm, fun _ => rfl⟩
  · rw [jain_eq_one_sub hne hsq, sub_eq_self, div_eq_zero_iff, squares_mean_eq_zero_iff hne]
    exact or_iff_left hsq

theorem jain_perm (hne : x ≠ []) (h : y.Perm x) : jain y = jain x := by
  have hney : y ≠ [] := fun hnil => hne (hnil ▸ h).nil_eq.symm
  rw [jain_eq hne, jain_eq hney, squares_perm h, h.sum_eq, h.length_eq]

theorem jain_scale (hne : x ≠ []) (hc : 0 < c) : jain (x.map (c * ·)) = jain x := by
  have hsum : (x.map (c * ·)).sum = c * x.sum := by
    rw [List.sum_map_mul_left, List.map_id']
  have hcc : c * c ≠ 0 := (mul_pos hc hc).ne'
  have hney : x.map (c * ·) ≠ [] := by simpa using hne
  rw [jain_eq hne, jain_eq hney, squares_scale, hsum, List.length_map]
  refine if_congr (mul_eq_zero_iff_left hcc) rfl ?_
  rw [mul_mul_mul_comm c, mul_left_comm _ (c * c), mul_div_mul_left _ _ hcc]

/-- **Jain's index is an index of fairness.** For every list of allocations
that are not negative, zeros included: it is between the share of one and
one, it is one exactly where all allocations are equal, and neither their
order nor their scale matters. -/
theorem jain_index_of_fairness (x : List ℚ) (hne : x ≠ []) (h : ∀ v ∈ x, 0 ≤ v) :
    1 / x.length ≤ jain x ∧ jain x ≤ 1 ∧ (jain x = 1 ↔ ∀ a ∈ x, ∀ b ∈ x, a = b) ∧
      (∀ y, y.Perm x → jain y = jain x) ∧ ∀ c, 0 < c → jain (x.map (c * ·)) = jain x :=
  ⟨one_div_length_le_jain hne h, jain_le_one hne, jain_eq_one_iff hne, fun _ => jain_perm hne,
    fun _ => jain_scale hne⟩

/-- One tenant with everything and one with nothing: the share of one. -/
theorem jain_of_monopoly : 1 / 2 ≤ jain [(5 : ℚ), 0] ∧ jain [(5 : ℚ), 0] = 1 / 2 := by
  have hbounds := jain_index_of_fairness [5, 0] (by simp) (by simp)
  exact ⟨by simpa using hbounds.1, by decide +kernel⟩

end Simulator

end InferQos
