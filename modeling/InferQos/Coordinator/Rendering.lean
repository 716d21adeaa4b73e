import InferQos.Common.Wire
import InferQos.Coordinator.Valkey
import Mathlib.Algebra.Order.Ring.Int
import Mathlib.Data.Rat.Cast.Order
import Mathlib.Data.Rat.Lemmas
/-!
# An exact rendering

That numbers are written exactly is an assumption about the client and the
scripts, which a server whose scripts keep 14 digits meets for short numbers
only. Here it is met for all: times and ids in decimal, and units as a
fraction.
-/

namespace InferQos

namespace ValkeyCoordinator

open Wire

/-- The text of some bytes. -/
def text (bs : List UInt8) : String := String.ofList (bs.map fun b => Char.ofNat b.toNat)

theorem toNat_char (b : UInt8) : (Char.ofNat b.toNat).toNat = b.toNat := by
  have hall : ∀ n : Fin 256, (Char.ofNat n).toNat = n.val := by decide +kernel
  exact hall ⟨b.toNat, b.toNat_lt⟩

theorem ascii_text (bs : List UInt8) : ascii (text bs) = bs := by
  unfold ascii text
  rw [String.toList_ofList, List.map_map]
  refine (List.map_congr_left fun b _ => ?_).trans (List.map_id bs)
  simp only [Function.comp_apply, toNat_char, UInt8.ofNat_toNat, id]

theorem colon_notMem_text {bs : List UInt8} (h : 58 ∉ bs) : ':' ∉ (text bs).toList := by
  unfold text
  rw [String.toList_ofList, List.mem_map]
  rintro ⟨b, hb, hcolon⟩
  have hb' : b.toNat = 58 := by
    rw [← toNat_char b, hcolon]
    rfl
  have : b = 58 := UInt8.toNat_inj.mp hb'
  exact h (this ▸ hb)

theorem colon_notMem_decimal (n : ℕ) : 58 ∉ decimal n := by
  intro h
  have hdigit := isDigit_of_mem_decimal h
  cases hdigit

theorem readDecimal_decimal (n : ℕ) : readDecimal (decimal n) = some (n, []) := by
  have h : readDecimal (decimal n ++ []) = some (n, []) :=
    readDecimal_append fun b hb => by cases hb
  rwa [List.append_nil] at h

/-- A fraction. -/
def rational (q : ℚ) : List UInt8 :=
  (if q < 0 then ascii "-" else []) ++ (decimal q.num.natAbs ++ (ascii "/" ++ decimal q.den))

/-- A fraction without its sign. -/
def readFraction : Reader ℚ := do
  let a ← readDecimal
  literal (ascii "/")
  let b ← readDecimal
  pure (a / b)

def readRational (input : List UInt8) : Option ℚ :=
  match literal (ascii "-") input with
  | some ((), rest) => (readFraction rest).map fun p => -p.1
  | none => (readFraction input).map Prod.fst

theorem readFraction_append (a b : ℕ) :
    readFraction (decimal a ++ (ascii "/" ++ decimal b)) = some ((a : ℚ) / b, []) := by
  unfold readFraction
  rw [bind_of_eq_some (readDecimal_append fun c hc => by cases hc; rfl),
    bind_of_eq_some (literal_append _ _), bind_of_eq_some (readDecimal_decimal b)]
  rfl

/-- A number does not start with a sign. -/
theorem literal_minus_decimal (n : ℕ) (rest : List UInt8) :
    literal (ascii "-") (decimal n ++ rest) = none := by
  obtain ⟨b, bs, hdecimal⟩ := List.exists_cons_of_ne_nil (decimal_ne_nil n)
  have hdigit : isDigit b = true := isDigit_of_mem_decimal (n := n) (by simp [hdecimal])
  have hb : (45 == b) = false := by
    rw [beq_eq_false_iff_ne]
    rintro rfl
    cases hdigit
  have hminus : ascii "-" = [45] := rfl
  simp [literal, hdecimal, hminus, List.isPrefixOf, hb]

theorem readRational_rational (q : ℚ) : readRational (rational q) = some q := by
  have habs : (q.num.natAbs : ℚ) = |(q.num : ℚ)| := by
    rw [Nat.cast_natAbs, Int.cast_abs]
  unfold readRational rational
  by_cases hq : q < 0
  · have hnum : (q.num : ℚ) < 0 := by exact_mod_cast Rat.num_neg.mpr hq
    rw [if_pos hq, literal_append]
    simp only [readFraction_append, Option.map_some]
    rw [habs, abs_of_neg hnum, neg_div, neg_neg, Rat.num_div_den]
  · have hnum : 0 ≤ (q.num : ℚ) := by exact_mod_cast Rat.num_nonneg.mpr (not_lt.mp hq)
    have hno : literal (ascii "-")
        (decimal q.num.natAbs ++ (ascii "/" ++ decimal q.den)) = none :=
      literal_minus_decimal _ _
    rw [if_neg hq, List.nil_append, hno]
    simp only [readFraction_append, Option.map_some]
    rw [habs, abs_of_nonneg hnum, Rat.num_div_den]

/-- **The exact rendering.** -/
def exactRendering : Rendering ℚ where
  units := fun q => text (rational q)
  readUnits := fun s => readRational (ascii s)
  time := fun n => text (decimal n)
  argument := fun n => text (decimal n)
  readTime := fun s => (readDecimal (ascii s)).map Prod.fst
  id := fun n => text (decimal n)
  readUnits_units := by
    intro q
    rw [ascii_text, readRational_rational]
  readTime_time := by
    intro n
    rw [ascii_text, readDecimal_decimal]
    rfl
  argument_eq := fun _ => rfl
  units_colon := by
    intro q
    have hsign : 58 ∉ if q < 0 then ascii "-" else [] := by
      split <;> decide
    have hslash : 58 ∉ ascii "/" := by decide
    refine colon_notMem_text ?_
    simp only [rational, List.mem_append, colon_notMem_decimal, hsign, hslash, or_self,
      not_false_eq_true]
  time_colon := fun n => colon_notMem_text (colon_notMem_decimal n)
  id_injective := by
    intro n n' h
    have hn := congrArg (fun s => readDecimal (ascii s)) h
    simp only [ascii_text, readDecimal_decimal, Option.some.injEq, Prod.mk.injEq, and_true] at hn
    exact hn

end ValkeyCoordinator

end InferQos
