import Mathlib.Data.List.TakeDrop
/-!
# Lua strings

`string.find` and `string.sub` on a string of bytes, as scripts use them to
take a text apart at a separator. Places in a string are counted from one,
so a text of `n` bytes ends at place `n`, and what follows it starts at
`n + 1`. The lemmas say what the two return at the seams of an append. The
alphabet is a parameter.
-/

namespace InferQos

namespace Lua

variable {α : Type} [DecidableEq α] {c : α} {a b text : List α}

/-- `string.find(text, c, init)` for a pattern that is one plain character:
the place where it first occurs from place `init` on. -/
def find (text : List α) (c : α) (init : ℕ) : Option ℕ :=
  ((text.drop (init - 1)).idxOf? c).map fun i => init - 1 + i + 1

omit [DecidableEq α] in
/-- `string.sub(text, first, last)`, for places that are not negative. -/
def sub (text : List α) (first last : ℕ) : List α := (text.take last).drop (first - 1)

omit [DecidableEq α] in
/-- `string.sub(text, first)`: to the end. -/
def subFrom (text : List α) (first : ℕ) : List α := text.drop (first - 1)

/-- **The separator is found behind a text without it.** -/
theorem find_append (a : List α) (hb : c ∉ b) (rest : List α) :
    find (a ++ (b ++ c :: rest)) c (a.length + 1) = some (a.length + b.length + 1) := by
  have hidx : (b ++ c :: rest).idxOf? c = some b.length := by
    have hnone : b.findIdx? (· == c) = none := List.idxOf?_eq_none_iff.mpr hb
    rw [List.idxOf?, List.findIdx?_append, hnone, List.findIdx?_cons]
    simp
  unfold find
  rw [Nat.add_sub_cancel, List.drop_left, hidx, Option.map_some]

/-- **No separator, no place.** -/
theorem find_eq_none (a : List α) (hb : c ∉ b) : find (a ++ b) c (a.length + 1) = none := by
  unfold find
  rw [Nat.add_sub_cancel, List.drop_left, List.idxOf?_eq_none_iff.mpr hb, Option.map_none]

omit [DecidableEq α] in
theorem sub_append (a b rest : List α) :
    sub (a ++ (b ++ rest)) (a.length + 1) (a.length + b.length) = b := by
  unfold sub
  rw [Nat.add_sub_cancel, ← List.append_assoc, ← List.length_append, List.take_left, List.drop_left]

omit [DecidableEq α] in
theorem subFrom_append (a rest : List α) : subFrom (a ++ rest) (a.length + 1) = rest := by
  unfold subFrom
  rw [Nat.add_sub_cancel, List.drop_left]

end Lua

end InferQos
