import Mathlib.Data.List.Infix
/-!
# A bounded window

The last entries of a growing log, kept in a queue: before an entry is
added, entries are taken off the front until it fits, and a bound of zero
adds nothing. The bound may change from one entry to the next.
`window_eq_drop`: under one bound the window is the end of the log.
-/

namespace InferQos

namespace Window

variable {α : Type*}

/-- The front is taken off while the queue is as long as the bound. -/
def trim (max : ℕ) : List α → List α
  | [] => []
  | x :: xs => if max ≤ xs.length + 1 then trim max xs else x :: xs

/-- **An entry is added.** -/
def push (max : ℕ) (queue : List α) (x : α) : List α :=
  if max = 0 then queue else trim max queue ++ [x]

theorem trim_eq_drop (max : ℕ) (queue : List α) :
    trim max queue = queue.drop (queue.length + 1 - max) := by
  induction queue with
  | nil => rw [trim, List.drop_nil]
  | cons x xs ih =>
    rw [trim]
    split
    · rename_i hfull
      have hone : (x :: xs).length + 1 - max = xs.length + 1 - max + 1 := by
        rw [List.length_cons]
        omega
      rw [ih, hone, List.drop_succ_cons]
    · rename_i hroom
      rw [List.length_cons, Nat.sub_eq_zero_of_le (by omega), List.drop_zero]

/-- The window after the entries of a log, each with the bound it came
with. -/
def window (log : List (α × ℕ)) : List α := log.foldl (fun queue e => push e.2 queue e.1) []

theorem window_snoc (log : List (α × ℕ)) (e : α × ℕ) :
    window (log ++ [e]) = push e.2 (window log) e.1 := by
  rw [window, List.foldl_append]
  rfl

/-- **Under one bound the window is the end of the log.** -/
theorem window_eq_drop {log : List (α × ℕ)} {max : ℕ} (h : ∀ e ∈ log, e.2 = max) :
    window log = (log.map Prod.fst).drop (log.length - max) := by
  induction log using List.reverseRecOn with
  | nil => rw [window, List.foldl_nil, List.map_nil, List.drop_nil]
  | append_singleton log e ih =>
    have hmax : e.2 = max := h e (List.mem_append_right _ List.mem_cons_self)
    rw [window_snoc, ih fun e' he' => h e' (List.mem_append_left _ he'), hmax, push,
      List.map_append, List.map_singleton, List.length_append, List.length_singleton]
    split
    · rename_i hzero
      rw [hzero, Nat.sub_zero, Nat.sub_zero, List.drop_eq_nil_of_le (by simp),
        List.drop_eq_nil_of_le (by simp)]
    · rw [trim_eq_drop, List.length_drop, List.length_map, List.drop_drop,
        List.drop_append_of_le_length (by rw [List.length_map]; omega)]
      congr 2
      omega

/-- In general it is the end of what was added at all. -/
theorem window_suffix (log : List (α × ℕ)) :
    window log <:+ (log.filter (0 < ·.2)).map Prod.fst := by
  induction log using List.reverseRecOn with
  | nil => exact List.nil_suffix
  | append_singleton log e ih =>
    rw [window_snoc, push, List.filter_append, List.map_append]
    split
    · rename_i hzero
      simpa [hzero] using ih
    · rename_i hpos
      have hadded : [e].filter (0 < ·.2) = [e] := by
        simp [Nat.pos_of_ne_zero hpos]
      rw [hadded, List.map_singleton, trim_eq_drop]
      obtain ⟨front, hfront⟩ := (List.drop_suffix _ _).trans ih
      exact ⟨front, by rw [← hfront, List.append_assoc]⟩

end Window

end InferQos
