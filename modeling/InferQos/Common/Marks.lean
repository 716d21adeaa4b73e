import Mathlib.Data.List.Basic
/-!
# Texts with a mark between them

Two texts are joined by a mark: a word between two separators. The texts
may contain separators and marks of their own, so the same joined text can
come from different parts. It does exactly when the text before one mark,
the mark included, is the start of the other text and one separator more
(`append_mark_cases`, `exists_append_mark`): the mark lies within the other
text, or shares the separator it ends with.
-/

namespace InferQos

variable {α : Type*} {sep : α} {w w' p q n n' r : List α}

/-- A word between two separators. -/
def mark (sep : α) (w : List α) : List α := sep :: (w ++ [sep])

theorem mark_append (sep : α) (w n : List α) : mark sep w ++ n = sep :: (w ++ sep :: n) := by
  simp [mark]

/-- **Where a text goes on behind its first word**: behind the same word, or
where the other text has more. -/
theorem append_sep_cases (hw : sep ∉ w) (h : w ++ sep :: n = r ++ sep :: n') :
    w = r ∧ n = n' ∨ ∃ rest, r = w ++ sep :: rest := by
  rcases List.append_eq_append_iff.mp h with ⟨c, rfl, hc⟩ | ⟨c, rfl, hc⟩
  · cases c with
    | nil =>
      left
      exact ⟨(List.append_nil w).symm, (List.cons.inj hc).2⟩
    | cons x c =>
      right
      obtain ⟨rfl, -⟩ := List.cons.inj hc
      exact ⟨c, rfl⟩
  · cases c with
    | nil =>
      left
      exact ⟨List.append_nil r, (List.cons.inj hc).2.symm⟩
    | cons x c =>
      obtain ⟨rfl, -⟩ := List.cons.inj hc
      exact absurd (List.mem_append_right r List.mem_cons_self) hw

/-- A mark at the start of a text, and another some way into it. -/
theorem mark_cases (hw : sep ∉ w) (hw' : sep ∉ w')
    (h : mark sep w ++ n = r ++ (mark sep w' ++ n')) :
    (r = [] ∧ w = w' ∧ n = n') ∨ mark sep w <+: r ++ [sep] := by
  rw [mark_append, mark_append] at h
  cases r with
  | nil =>
    left
    rcases append_sep_cases hw (List.cons.inj h).2 with ⟨hword, hrest⟩ | ⟨rest, rfl⟩
    · exact ⟨rfl, hword, hrest⟩
    · exact absurd (List.mem_append_right w List.mem_cons_self) hw'
  | cons x r =>
    right
    obtain ⟨hsep, htail⟩ := List.cons.inj h
    subst hsep
    rcases append_sep_cases hw htail with ⟨rfl, -⟩ | ⟨rest, rfl⟩
    · exact List.prefix_rfl
    · exact ⟨rest ++ [sep], by simp [mark]⟩

/-- **Joined texts are equal** if their parts are, or if one mark begins
before the other text ends. -/
theorem append_mark_cases (hw : sep ∉ w) (hw' : sep ∉ w')
    (h : p ++ (mark sep w ++ n) = q ++ (mark sep w' ++ n')) :
    (p = q ∧ w = w' ∧ n = n') ∨ p ++ mark sep w <+: q ++ [sep] ∨
      q ++ mark sep w' <+: p ++ [sep] := by
  rcases List.append_eq_append_iff.mp h with ⟨r, rfl, hr⟩ | ⟨r, rfl, hr⟩
  · rcases mark_cases hw hw' hr with ⟨rfl, hword, hrest⟩ | hprefix
    · exact Or.inl ⟨(List.append_nil p).symm, hword, hrest⟩
    · right
      left
      rw [List.append_assoc]
      exact (List.prefix_append_right_inj p).mpr hprefix
  · rcases mark_cases hw' hw hr with ⟨rfl, hword, hrest⟩ | hprefix
    · exact Or.inl ⟨List.append_nil q, hword.symm, hrest.symm⟩
    · right
      right
      rw [List.append_assoc]
      exact (List.prefix_append_right_inj q).mpr hprefix

/-- **A mark that begins before the other text ends** is met by every text
behind the other mark. -/
theorem exists_append_mark (h : p ++ mark sep w <+: q ++ [sep]) (w' n' : List α) :
    ∃ n, p ++ (mark sep w ++ n) = q ++ (mark sep w' ++ n') := by
  obtain ⟨rest, hrest⟩ := h
  refine ⟨rest ++ (w' ++ sep :: n'), ?_⟩
  calc p ++ (mark sep w ++ (rest ++ (w' ++ sep :: n')))
      = (p ++ mark sep w ++ rest) ++ (w' ++ sep :: n') := by simp only [List.append_assoc]
    _ = (q ++ [sep]) ++ (w' ++ sep :: n') := by rw [hrest]
    _ = q ++ (mark sep w' ++ n') := by simp [mark]

end InferQos
