import Mathlib.Algebra.BigOperators.Group.List.Basic
import Mathlib.Algebra.GroupWithZero.Nat
/-!
# A buffer with a cap

A buffer takes the chunks of a stream in order, each one whole or not at
all: a chunk that would take it past its cap is skipped, and later ones
that fit are taken again. What it holds in the end has a size that depends
on the sizes of the chunks alone. It holds everything exactly when
everything fits, and otherwise it can hold any content of its size, whatever
was skipped.
-/

namespace InferQos

namespace Capped

variable {α : Type*} {cap n : ℕ} {held : List α} {chunks : List (List α)} {sizes : List ℕ}

/-- One chunk. -/
def keep (cap : ℕ) (held chunk : List α) : List α :=
  if held.length + chunk.length ≤ cap then held ++ chunk else held

/-- How much is taken of chunks of these sizes when `n` is held. -/
def kept (cap : ℕ) : ℕ → List ℕ → ℕ
  | _, [] => 0
  | n, k :: ks => if n + k ≤ cap then k + kept cap (n + k) ks else kept cap n ks

theorem length_foldl_keep (held : List α) (chunks : List (List α)) :
    (chunks.foldl (keep cap) held).length =
      held.length + kept cap held.length (chunks.map List.length) := by
  induction chunks generalizing held with
  | nil => rfl
  | cons chunk chunks ih =>
    rw [List.foldl_cons, ih, List.map_cons, kept]
    unfold keep
    split
    · rw [List.length_append]
      omega
    · rfl

/-- **Where everything fits, everything is held.** -/
theorem foldl_keep_of_fits (h : held.length + (chunks.map List.length).sum ≤ cap) :
    chunks.foldl (keep cap) held = held ++ chunks.flatten := by
  induction chunks generalizing held with
  | nil => simp
  | cons chunk chunks ih =>
    rw [List.map_cons, List.sum_cons] at h
    have hfit : keep cap held chunk = held ++ chunk := if_pos (by omega)
    rw [List.foldl_cons, hfit, ih (by rw [List.length_append]; omega), List.flatten_cons,
      List.append_assoc]

/-! ## Any content, whatever was skipped -/

/-- Chunks of these sizes: those that are taken hold `content` in order,
and those that are skipped hold `junk`. -/
def fill (cap : ℕ) (junk : α) : ℕ → List α → List ℕ → List (List α)
  | _, _, [] => []
  | n, content, k :: ks =>
    if n + k ≤ cap then content.take k :: fill cap junk (n + k) (content.drop k) ks
    else List.replicate k junk :: fill cap junk n content ks

variable {junk : α} {content : List α}

theorem map_length_fill (h : content.length = kept cap n sizes) :
    (fill cap junk n content sizes).map List.length = sizes := by
  induction sizes generalizing n content with
  | nil => rfl
  | cons k ks ih =>
    unfold kept at h
    unfold fill
    split at h
    · rename_i hfit
      rw [if_pos hfit, List.map_cons, ih (by rw [List.length_drop]; omega), List.length_take]
      congr 1
      omega
    · rename_i hskip
      rw [if_neg hskip, List.map_cons, ih h, List.length_replicate]

theorem foldl_keep_fill (hheld : held.length = n) (h : content.length = kept cap n sizes) :
    (fill cap junk n content sizes).foldl (keep cap) held = held ++ content := by
  induction sizes generalizing n content held with
  | nil => simp [fill, List.length_eq_zero_iff.mp h]
  | cons k ks ih =>
    unfold kept at h
    unfold fill
    split at h
    · rename_i hfit
      have htake : (content.take k).length = k := by
        rw [List.length_take]
        omega
      have hkeep : keep cap held (content.take k) = held ++ content.take k :=
        if_pos (by rw [hheld, htake]; exact hfit)
      rw [if_pos hfit, List.foldl_cons, hkeep,
        ih (by rw [List.length_append, hheld, htake]) (by rw [List.length_drop]; omega),
        List.append_assoc, List.take_append_drop]
    · rename_i hskip
      have hkeep : keep cap held (List.replicate k junk) = held :=
        if_neg (by rw [hheld, List.length_replicate]; exact hskip)
      rw [if_neg hskip, List.foldl_cons, hkeep, ih hheld h]

/-- Where not everything fits, something is skipped. -/
theorem junk_mem_fill (hn : n ≤ cap) (h : cap < n + sizes.sum) :
    junk ∈ (fill cap junk n content sizes).flatten := by
  induction sizes generalizing n content with
  | nil =>
    rw [List.sum_nil] at h
    omega
  | cons k ks ih =>
    rw [List.sum_cons] at h
    unfold fill
    split
    · rename_i hfit
      rw [List.flatten_cons]
      exact List.mem_append_right _ (ih hfit (by omega))
    · rename_i hskip
      rw [List.flatten_cons]
      exact List.mem_append_left _ (List.mem_replicate.mpr ⟨by omega, rfl⟩)

end Capped

end InferQos
