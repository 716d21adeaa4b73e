import Mathlib.Algebra.Order.Ring.Rat
import Mathlib.Data.Rat.Floor
import Mathlib.Algebra.BigOperators.Group.List.Basic
import Mathlib.Algebra.Order.BigOperators.Group.List
/-!
# Arithmetic as a parameter

A program that computes in binary64 is embedded over any type with the
operations it uses. A result that does not depend on what the operations
compute holds of every `Arith`, rounding, infinities and not-a-number
included; a result stated in exact arithmetic is read at `ℚ`, where every
value is finite and every operation is the field's.
-/

namespace InferQos

/-- **A number format**: the operations of an `f64`. `max` and `min` are
`f64::max` and `f64::min`, and `<` is false wherever a not-a-number is
compared. -/
class Arith (F : Type) extends Add F, Sub F, Mul F, Div F, Max F, Min F, LT F, LE F where
  /-- The value of a literal, or of an integer under `as f64`. -/
  lit : ℚ → F
  isFinite : F → Bool
  /-- `f64::total_cmp`. -/
  totalCmp : F → F → Ordering
  /-- `fold(f64::INFINITY, f64::min)`, kept where the result is finite. -/
  finiteMin : List F → Option F
  decLt : DecidableLT F
  decLe : DecidableLE F

namespace Arith

attribute [reducible, instance] Arith.decLt Arith.decLe

variable {F : Type} [Arith F]

/-- `Iterator::sum`, in iteration order. -/
def sum (xs : List F) : F := xs.foldl (· + ·) (lit 0)

/-- `f64::clamp`. -/
def clamp (x lo hi : F) : F := if x < lo then lo else if hi < x then hi else x

/-- `f64::abs`, up to the sign of zero. -/
def abs (x : F) : F := if x < lit 0 then lit 0 - x else x

/-- `(lo..=hi).contains(&x)`. -/
def contains (lo hi x : F) : Bool := decide (lo ≤ x) && decide (x ≤ hi)

/-- **Exact arithmetic.** -/
instance exact : Arith ℚ where
  lit := id
  isFinite := fun _ => true
  totalCmp := compare
  finiteMin := List.min?
  decLt := inferInstance
  decLe := inferInstance

instance : Std.TransCmp (totalCmp : ℚ → ℚ → Ordering) :=
  inferInstanceAs (Std.TransCmp (compare : ℚ → ℚ → Ordering))

@[simp] theorem lit_rat (q : ℚ) : (lit q : ℚ) = q := rfl

theorem clamp_rat {x lo hi : ℚ} (h : lo ≤ hi) : clamp x lo hi = max lo (min x hi) := by
  unfold clamp
  split
  · rename_i hlt
    rw [max_eq_left ((min_le_left x hi).trans hlt.le)]
  · rename_i hge
    have hge : lo ≤ x := not_lt.mp hge
    split
    · rename_i hgt
      rw [min_eq_right hgt.le, max_eq_right h]
    · rename_i hle
      rw [min_eq_left (not_lt.mp hle), max_eq_right hge]

theorem le_clamp_rat {x lo hi : ℚ} (h : lo ≤ hi) : lo ≤ clamp x lo hi := by
  rw [clamp_rat h]
  exact le_max_left _ _

theorem clamp_le_rat {x lo hi : ℚ} (h : lo ≤ hi) : clamp x lo hi ≤ hi := by
  rw [clamp_rat h]
  exact max_le h (min_le_right _ _)

theorem clamp_mono_rat {x y lo hi : ℚ} (h : lo ≤ hi) (hxy : x ≤ y) :
    clamp x lo hi ≤ clamp y lo hi := by
  rw [clamp_rat h, clamp_rat h]
  exact max_le_max le_rfl (min_le_min hxy le_rfl)

theorem abs_rat (x : ℚ) : abs x = |x| := by
  unfold abs
  split
  · rename_i hlt
    exact (zero_sub x).trans (abs_of_neg hlt).symm
  · rename_i hge
    exact (abs_of_nonneg (not_lt.mp hge)).symm

theorem foldl_add_rat (xs : List ℚ) (a : ℚ) : xs.foldl (· + ·) a = a + xs.sum := by
  induction xs generalizing a with
  | nil => simp
  | cons x xs ih => rw [List.foldl_cons, ih, List.sum_cons, add_assoc]

@[simp] theorem sum_rat (xs : List ℚ) : sum xs = xs.sum := by
  rw [sum]
  exact (foldl_add_rat xs 0).trans (zero_add _)

end Arith

/-- **A number format with the ways to a whole number**: what a program
that rounds needs besides. -/
class Rounding (F : Type) extends Arith F where
  /-- `f64::ceil`. -/
  ceil : F → F
  /-- `f64::round`: halves go away from zero. -/
  round : F → F
  /-- `as u64`, and `as usize`: toward zero, and stopping at either end. -/
  toU64 : F → ℕ

instance Rounding.exact : Rounding ℚ where
  ceil x := ⌈x⌉
  round x := if 0 ≤ x then ⌊x + 1 / 2⌋ else ⌈x - 1 / 2⌉
  toU64 x := min ⌊x⌋.toNat (2 ^ 64 - 1)

/-- **A number format with signs**: what an `f64` guarantees of them. A
product may leave the range, and is then not finite. -/
class SignedArith (F : Type) extends Arith F where
  lit_mono : ∀ {p q : ℚ}, p ≤ q → lit p ≤ lit q
  not_mul_lt_zero : ∀ {a b : F}, lit 0 ≤ a → lit 0 ≤ b → isFinite (a * b) = true → ¬ a * b < lit 0
  isFinite_mul_of_le : ∀ {a b c : F}, lit 0 ≤ a → a ≤ b → lit 0 ≤ c → isFinite (b * c) = true →
    isFinite (a * c) = true

instance SignedArith.exact : SignedArith ℚ where
  lit_mono h := h
  not_mul_lt_zero ha hb _ := not_lt.mpr (mul_nonneg ha hb)
  isFinite_mul_of_le _ _ _ _ := rfl

/-- **A number format that rounds**: what an `f64` guarantees of its order.
No comparison is true of not-a-number, and a sum is rounded, so it depends on
the order of its terms. -/
class OrderedArith (F : Type) extends Arith F where
  le_trans : ∀ {a b c : F}, a ≤ b → b ≤ c → a ≤ c
  zero_le_zero : (lit 0 : F) ≤ lit 0
  add_zero_le : ∀ {a : F}, lit 0 ≤ a → a + lit 0 ≤ a
  le_add : ∀ {a b : F}, lit 0 ≤ a → lit 0 ≤ b → a ≤ a + b
  add_mono : ∀ {a b c : F}, lit 0 ≤ a → a ≤ b → lit 0 ≤ c → a + c ≤ b + c
  one_sub_anti : ∀ {a b : F}, a ≤ b → lit 1 - b ≤ lit 1 - a
  min_mono : ∀ {a b : F} (c : F), a ≤ b → min a c ≤ min b c
  max_mono : ∀ {a b : F} (c : F), a ≤ b → max a c ≤ max b c
  min_of_le : ∀ {a b : F}, lit 0 < a → a ≤ b → min a b = a
  lt_of_lt_finiteMin : ∀ {xs : List F} {a b c : F}, finiteMin xs = some a → b ∈ xs → b ≤ b →
    c < a → c < b

instance OrderedArith.exact : OrderedArith ℚ where
  le_trans := Rat.le_trans
  zero_le_zero := le_rfl
  add_zero_le _ := (Rat.add_zero _).le
  le_add _ hb := le_add_of_nonneg_right hb
  add_mono _ h _ := by gcongr
  one_sub_anti h := sub_le_sub_left h _
  min_mono _ h := min_le_min h le_rfl
  max_mono _ h := max_le_max h le_rfl
  min_of_le _ := min_eq_left
  lt_of_lt_finiteMin hmin hmem _ hlt := hlt.trans_le ((List.min?_eq_some_iff.mp hmin).2 _ hmem)

namespace Arith

variable {F α : Type} [OrderedArith F] {f : α → F} {a b : F} {xs ys : List F} {l : List α}

end Arith

/-- **Amounts that are added exactly up to a limit.** `worth` is the number
an amount stands for: a sum within the limit is rounded to no other, and one
beyond it not to the limit. In an `f64` the whole numbers are such amounts,
for a limit below `2 ^ 53`, and so are the multiples of any power of two. -/
structure Arith.ExactUpTo {F : Type} [Arith F] (E : Set F) (worth : F → ℚ) (limit : F) : Prop where
  limit_mem : limit ∈ E
  zero_mem : lit 0 ∈ E
  worth_zero : worth (lit 0) = 0
  nonneg : ∀ {x}, x ∈ E → 0 ≤ worth x
  add : ∀ {x y}, x ∈ E → y ∈ E → worth x + worth y ≤ worth limit →
    x + y ∈ E ∧ worth (x + y) = worth x + worth y
  lt_add : ∀ {x y}, x ∈ E → y ∈ E → worth limit < worth x + worth y → limit < x + y

namespace Arith.ExactUpTo

/-- In exact arithmetic they are all that are not negative. -/
theorem rat {limit : ℚ} (h : 0 ≤ limit) : ExactUpTo {x : ℚ | 0 ≤ x} id limit where
  limit_mem := h
  zero_mem := (le_rfl : (0 : ℚ) ≤ 0)
  worth_zero := rfl
  nonneg hx := hx
  add {x y} hx hy _ := ⟨(add_nonneg hx hy : 0 ≤ x + y), rfl⟩
  lt_add _ _ h := h

variable {F : Type} [Arith F] {E : Set F} {worth : F → ℚ} {limit : F} {xs : List F}

theorem foldl_add (h : ExactUpTo E worth limit) {a : F} (ha : a ∈ E) (hxs : ∀ x ∈ xs, x ∈ E)
    (hle : worth a + (xs.map worth).sum ≤ worth limit) :
    xs.foldl (· + ·) a ∈ E ∧ worth (xs.foldl (· + ·) a) = worth a + (xs.map worth).sum := by
  induction xs generalizing a with
  | nil => exact ⟨ha, (add_zero _).symm⟩
  | cons x xs ih =>
    have hrest : ∀ y ∈ xs, y ∈ E := fun y hy => hxs y (List.mem_cons_of_mem x hy)
    have hnonneg : 0 ≤ (xs.map worth).sum := by
      refine List.sum_nonneg fun w hw => ?_
      obtain ⟨y, hy, rfl⟩ := List.mem_map.mp hw
      exact h.nonneg (hrest y hy)
    rw [List.map_cons, List.sum_cons, ← add_assoc] at hle
    obtain ⟨hmem, hworth⟩ := h.add ha (hxs x List.mem_cons_self)
      ((le_add_of_nonneg_right hnonneg).trans hle)
    rw [← hworth] at hle
    obtain ⟨hsum, hsumworth⟩ := ih hmem hrest hle
    refine ⟨hsum, ?_⟩
    rw [List.foldl_cons, hsumworth, hworth, List.map_cons, List.sum_cons, add_assoc]

/-- **A sum within the limit is exact**, in whatever order it is made. -/
theorem sum (h : ExactUpTo E worth limit) (hxs : ∀ x ∈ xs, x ∈ E)
    (hle : (xs.map worth).sum ≤ worth limit) :
    Arith.sum xs ∈ E ∧ worth (Arith.sum xs) = (xs.map worth).sum := by
  have hfold := h.foldl_add h.zero_mem hxs (by rwa [h.worth_zero, zero_add])
  rwa [h.worth_zero, zero_add] at hfold

end Arith.ExactUpTo

end InferQos
