import Mathlib.Algebra.BigOperators.Ring.List
import Mathlib.Algebra.Order.BigOperators.Group.List
import Mathlib.Algebra.Order.Field.Basic
import Mathlib.Tactic.FieldSimp
import Mathlib.Tactic.Linarith
import Mathlib.Tactic.Ring
/-!
# Sums of squares of a list

The squares of the distances of some numbers from a point, and at their
mean: what the squares of the numbers exceed the share of their squared sum
by (`squares_sub_mean`). This is the inequality of Cauchy and Schwarz
against the constant list, with the case of equality.
-/

namespace InferQos

variable {K : Type*} [Field K] [LinearOrder K] [IsStrictOrderedRing K] {x : List K}

/-- The sum of the squares. -/
def squares (x : List K) : K := (x.map fun v => v * v).sum

omit [LinearOrder K] [IsStrictOrderedRing K] in
theorem squares_cons (v : K) (x : List K) : squares (v :: x) = v * v + squares x := List.sum_cons

theorem squares_nonneg (x : List K) : 0 ≤ squares x := by
  refine List.sum_nonneg fun s hs => ?_
  obtain ⟨v, -, rfl⟩ := List.mem_map.mp hs
  exact mul_self_nonneg v

theorem squares_eq_zero_iff : squares x = 0 ↔ ∀ v ∈ x, v = 0 := by
  induction x with
  | nil => simp [squares]
  | cons v x ih =>
    rw [squares_cons, add_eq_zero_iff_of_nonneg (mul_self_nonneg v) (squares_nonneg x),
      mul_self_eq_zero, ih, List.forall_mem_cons]

omit [LinearOrder K] [IsStrictOrderedRing K] in
/-- **The squares of the distances from `c`.** -/
theorem squares_sub (x : List K) (c : K) :
    squares (x.map (· - c)) = squares x - 2 * c * x.sum + x.length * (c * c) := by
  induction x with
  | nil => simp [squares]
  | cons v x ih =>
    rw [List.map_cons, squares_cons, squares_cons, ih, List.sum_cons, List.length_cons]
    push_cast
    ring

omit [LinearOrder K] [IsStrictOrderedRing K] in
theorem squares_perm {y : List K} (h : y.Perm x) : squares y = squares x := (h.map _).sum_eq

omit [LinearOrder K] [IsStrictOrderedRing K] in
theorem squares_scale (c : K) (x : List K) : squares (x.map (c * ·)) = c * c * squares x := by
  unfold squares
  rw [List.map_map, ← List.sum_map_mul_left]
  refine congrArg List.sum (List.map_congr_left fun v _ => ?_)
  exact mul_mul_mul_comm c v c v

theorem cast_length_pos (hne : x ≠ []) : (0 : K) < x.length :=
  Nat.cast_pos.mpr (List.length_pos_iff.mpr hne)

/-- **The squares of the distances from the mean.** -/
theorem squares_sub_mean (hne : x ≠ []) :
    x.length * squares (x.map (· - x.sum / x.length)) =
      x.length * squares x - x.sum * x.sum := by
  have hlen : (x.length : K) ≠ 0 := (cast_length_pos hne).ne'
  rw [squares_sub]
  field_simp
  ring

/-- Nothing is away from the mean exactly where all are equal. -/
theorem squares_mean_eq_zero_iff (hne : x ≠ []) :
    squares (x.map (· - x.sum / x.length)) = 0 ↔ ∀ a ∈ x, ∀ b ∈ x, a = b := by
  have hlen : (x.length : K) ≠ 0 := (cast_length_pos hne).ne'
  rw [squares_eq_zero_iff, List.forall_mem_map]
  constructor
  · intro hall a ha b hb
    rw [sub_eq_zero.mp (hall a ha), sub_eq_zero.mp (hall b hb)]
  · intro hall a ha
    have hsum : x.sum = x.length * a := by
      rw [← nsmul_eq_mul]
      exact List.sum_eq_card_nsmul x a fun b hb => hall b hb a ha
    rw [hsum, mul_div_cancel_left₀ a hlen, sub_self]

/-- Of numbers that are not negative, the squares sum to at most the
squared sum. -/
theorem squares_le_sum_mul_sum (h : ∀ v ∈ x, 0 ≤ v) : squares x ≤ x.sum * x.sum := by
  calc squares x ≤ (x.map fun v => v * x.sum).sum :=
        List.sum_le_sum fun v hv => mul_le_mul_of_nonneg_left (List.single_le_sum h v hv) (h v hv)
    _ = x.sum * x.sum := by rw [List.sum_map_mul_right, List.map_id']

end InferQos
