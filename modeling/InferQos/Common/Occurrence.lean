import Mathlib.Data.List.Infix
/-!
# Occurrences of a pattern

Where a pattern occurs in a text that is put together from others. A
character the pattern does not have parts the text: every occurrence is on
one side of it (`occursAt_append_cons_iff`). And a text without the first
character of the pattern adds no occurrence to what follows it.
-/

namespace InferQos

variable {α : Type*} {pat a b front rest : List α} {c h : α} {i : ℕ}

/-- The pattern occurs at an offset. -/
def OccursAt (pat text : List α) (i : ℕ) : Prop := pat <+: text.drop i

theorem exists_occursAt {text : List α} : (∃ i, OccursAt pat text i) ↔ pat <:+: text := by
  rw [List.infix_iff_prefix_suffix]
  constructor
  · rintro ⟨i, hi⟩
    exact ⟨text.drop i, hi, List.drop_suffix i text⟩
  · rintro ⟨t, hpat, hsuffix⟩
    refine ⟨text.length - t.length, ?_⟩
    unfold OccursAt
    rwa [← List.suffix_iff_eq_drop.mp hsuffix]

/-- An occurrence ends within the text. -/
theorem OccursAt.le_length {text : List α} (hpat : pat ≠ []) (hi : OccursAt pat text i) :
    i + pat.length ≤ text.length := by
  have hle := hi.length_le
  have hpos := List.length_pos_of_ne_nil hpat
  rw [List.length_drop] at hle
  omega

/-- A pattern that starts a text ends before a character it does not
have. -/
theorem prefix_append_cons_iff (hc : c ∉ pat) : pat <+: a ++ c :: b ↔ pat <+: a := by
  constructor
  · intro hpat
    rcases List.prefix_or_prefix_of_prefix hpat (List.prefix_append a (c :: b)) with hle | ⟨u, rfl⟩
    · exact hle
    · rw [List.prefix_append_right_inj] at hpat
      cases u with
      | nil => rw [List.append_nil]
      | cons x u =>
        rw [(List.cons_prefix_cons.mp hpat).1] at hc
        exact absurd (List.mem_append_right a List.mem_cons_self) hc
  · exact fun hpat => hpat.trans (List.prefix_append a (c :: b))

/-- **Every occurrence is on one side of a character that the pattern does
not have.** -/
theorem occursAt_append_cons_iff (hpat : pat ≠ []) (hc : c ∉ pat) :
    OccursAt pat (a ++ c :: b) i ↔
      OccursAt pat a i ∨ ∃ j, i = a.length + 1 + j ∧ OccursAt pat b j := by
  unfold OccursAt
  rcases Nat.lt_or_ge a.length i with hlt | hle
  · -- nothing of the first text is left
    obtain ⟨j, rfl⟩ := Nat.exists_eq_add_of_lt hlt
    have hnil : a.drop (a.length + j + 1) = [] := List.drop_eq_nil_of_le (by omega)
    have hplace : a.length + j + 1 - a.length = j + 1 := by omega
    rw [List.drop_append, hnil, hplace, List.drop_succ_cons, List.nil_append]
    constructor
    · exact fun hb => Or.inr ⟨j, by omega, hb⟩
    · rintro (hnone | ⟨j', hj, hb⟩)
      · exact absurd (List.prefix_nil.mp hnone) hpat
      · have heq : j' = j := by omega
        rwa [← heq]
  · rw [List.drop_append_of_le_length hle, prefix_append_cons_iff hc]
    constructor
    · exact Or.inl
    · rintro (ha | ⟨j, hj, -⟩)
      · exact ha
      · omega

@[inherit_doc occursAt_append_cons_iff]
theorem infix_append_cons_iff (hpat : pat ≠ []) (hc : c ∉ pat) :
    pat <:+: a ++ c :: b ↔ pat <:+: a ∨ pat <:+: b := by
  simp only [← exists_occursAt, occursAt_append_cons_iff hpat hc]
  constructor
  · rintro ⟨i, ha | ⟨j, -, hb⟩⟩
    · exact Or.inl ⟨i, ha⟩
    · exact Or.inr ⟨j, hb⟩
  · rintro (⟨i, ha⟩ | ⟨j, hb⟩)
    · exact ⟨i, Or.inl ha⟩
    · exact ⟨a.length + 1 + j, Or.inr ⟨j, rfl, hb⟩⟩

/-- **No occurrence starts in a text without the pattern's first
character.** -/
theorem infix_append_iff_of_notMem (hfront : h ∉ front) :
    h :: pat <:+: front ++ rest ↔ h :: pat <:+: rest := by
  induction front with
  | nil => rw [List.nil_append]
  | cons x front ih =>
    rw [List.mem_cons, not_or] at hfront
    obtain ⟨hne, hfront⟩ := hfront
    rw [List.cons_append, List.infix_cons_iff, ih hfront]
    constructor
    · rintro (hpat | hrest)
      · exact absurd (List.cons_prefix_cons.mp hpat).1 hne
      · exact hrest
    · exact Or.inr

/-- Nor does one lie within it. -/
theorem not_infix_of_notMem (hfront : h ∉ front) : ¬ h :: pat <:+: front :=
  fun hpat => hfront (hpat.subset List.mem_cons_self)

end InferQos
