import Mathlib.Data.List.Basic
/-!
# The last maximum of a list

`Iterator::max_by`: a fold that keeps its candidate only while it compares
strictly greater, so the last of several equal maxima is returned.
-/

namespace InferQos

variable {α : Type*} {cmp : α → α → Ordering} {xs : List α} {x : α}

/-- One comparison of the fold. -/
def maxStep (cmp : α → α → Ordering) (best x : α) : α := if cmp best x = .gt then best else x

/-- `Iterator::max_by`. -/
def maxBy (cmp : α → α → Ordering) : List α → Option α
  | [] => none
  | x :: xs => some (xs.foldl (maxStep cmp) x)

theorem foldl_maxStep_mem (xs : List α) (best : α) :
    xs.foldl (maxStep cmp) best ∈ best :: xs := by
  induction xs generalizing best with
  | nil => simp
  | cons x xs ih =>
    rw [List.foldl_cons]
    have h := ih (maxStep cmp best x)
    have hstep : maxStep cmp best x = best ∨ maxStep cmp best x = x := by
      unfold maxStep
      split
      · exact Or.inl rfl
      · exact Or.inr rfl
    rcases List.mem_cons.mp h with h | h
    · rcases hstep with hb | hx
      · rw [h, hb]; simp
      · rw [h, hx]; simp
    · exact List.mem_cons_of_mem _ (List.mem_cons_of_mem _ h)

/-- The maximum is an element. -/
theorem maxBy_mem (h : maxBy cmp xs = some x) : x ∈ xs := by
  cases xs with
  | nil => cases h
  | cons y ys =>
    rw [← Option.some.inj h]
    exact foldl_maxStep_mem ys y

/-- Only the empty list has none. -/
theorem maxBy_eq_none : maxBy cmp xs = none ↔ xs = [] := by
  cases xs with
  | nil => simp [maxBy]
  | cons y ys => simp [maxBy]

theorem foldl_maxStep_map {β : Type*} (f : β → α) (ys : List β) (best : β) :
    (ys.map f).foldl (maxStep cmp) (f best) =
      f (ys.foldl (maxStep fun a b => cmp (f a) (f b)) best) := by
  induction ys generalizing best with
  | nil => rfl
  | cons y ys ih =>
    have hstep : maxStep cmp (f best) (f y) = f (maxStep (fun a b => cmp (f a) (f b)) best y) := by
      unfold maxStep
      split
      · rfl
      · rfl
    rw [List.map_cons, List.foldl_cons, List.foldl_cons, hstep, ih]

/-- The maximum of images is the image of the maximum. -/
theorem maxBy_map {β : Type*} (f : β → α) (ys : List β) :
    maxBy cmp (ys.map f) = (maxBy (fun a b => cmp (f a) (f b)) ys).map f := by
  cases ys with
  | nil => rfl
  | cons y ys => exact congrArg some (foldl_maxStep_map f ys y)

theorem foldl_maxStep_congr {cmp' : α → α → Ordering} {xs : List α} {best : α}
    (h : ∀ a ∈ best :: xs, ∀ b ∈ best :: xs, cmp a b = cmp' a b) :
    xs.foldl (maxStep cmp) best = xs.foldl (maxStep cmp') best := by
  induction xs generalizing best with
  | nil => rfl
  | cons x xs ih =>
    have hstep : maxStep cmp best x = maxStep cmp' best x := by
      unfold maxStep
      rw [h best List.mem_cons_self x (List.mem_cons_of_mem _ List.mem_cons_self)]
    -- the new candidate is one of the two compared
    have hsub : ∀ a ∈ maxStep cmp' best x :: xs, a ∈ best :: x :: xs := by
      intro a ha
      unfold maxStep at ha
      split at ha
      · rcases List.mem_cons.mp ha with rfl | ha
        · exact List.mem_cons_self
        · exact List.mem_cons_of_mem _ (List.mem_cons_of_mem _ ha)
      · exact List.mem_cons_of_mem _ ha
    rw [List.foldl_cons, List.foldl_cons, hstep]
    exact ih fun a ha b hb => h a (hsub a ha) b (hsub b hb)

/-- Comparisons that agree on the list have the same maximum. -/
theorem maxBy_congr {cmp' : α → α → Ordering} (h : ∀ a ∈ xs, ∀ b ∈ xs, cmp a b = cmp' a b) :
    maxBy cmp xs = maxBy cmp' xs := by
  cases xs with
  | nil => rfl
  | cons x xs => exact congrArg some (foldl_maxStep_congr h)

/-! ## Along a transitive comparison -/

section Order

variable [Std.TransCmp cmp]

/-- What the fold returns stands in the list after nothing greater, and
before smaller elements only. -/
theorem foldl_maxStep_split (xs : List α) (best : α) :
    ∃ pre post, best :: xs = pre ++ xs.foldl (maxStep cmp) best :: post ∧
      (∀ y ∈ pre, cmp y (xs.foldl (maxStep cmp) best) ≠ .gt) ∧
        ∀ y ∈ post, cmp (xs.foldl (maxStep cmp) best) y = .gt := by
  induction xs generalizing best with
  | nil => exact ⟨[], [], rfl, fun y hy => (List.not_mem_nil hy).elim, fun y hy =>
      (List.not_mem_nil hy).elim⟩
  | cons x xs ih =>
    obtain ⟨pre, post, hsplit, hpre, hpost⟩ := ih (maxStep cmp best x)
    rw [List.foldl_cons]
    generalize xs.foldl (maxStep cmp) (maxStep cmp best x) = r at hsplit hpre hpost ⊢
    by_cases hgt : cmp best x = .gt
    · -- the candidate stays, and `x` is smaller
      rw [maxStep, if_pos hgt] at hsplit
      cases pre with
      | nil =>
        obtain ⟨rfl, rfl⟩ := List.cons.inj hsplit
        exact ⟨[], x :: xs, rfl, hpre, List.forall_mem_cons.mpr ⟨hgt, hpost⟩⟩
      | cons y pre =>
        obtain ⟨rfl, rfl⟩ := List.cons.inj hsplit
        refine ⟨best :: x :: pre, post, rfl, ?_, hpost⟩
        have hbest := hpre best List.mem_cons_self
        have hlt : cmp x r = .lt :=
          Std.TransCmp.lt_of_lt_of_isLE (Std.OrientedCmp.lt_of_gt hgt) (Ordering.isLE_iff_ne_gt.mpr hbest)
        intro z hz
        rcases List.mem_cons.mp hz with rfl | hz
        · exact hbest
        · rcases List.mem_cons.mp hz with rfl | hz
          · rw [hlt]
            exact nofun
          · exact hpre z (List.mem_cons_of_mem _ hz)
    · -- `x` replaces it
      rw [maxStep, if_neg hgt] at hsplit
      refine ⟨best :: pre, post, by rw [List.cons_append, hsplit], ?_, hpost⟩
      refine List.forall_mem_cons.mpr ⟨?_, hpre⟩
      have hx : (cmp x r).isLE := by
        cases pre with
        | nil =>
          obtain ⟨rfl, -⟩ := List.cons.inj hsplit
          exact Std.ReflCmp.isLE_rfl
        | cons y pre =>
          obtain ⟨rfl, -⟩ := List.cons.inj hsplit
          exact Ordering.isLE_iff_ne_gt.mpr (hpre x List.mem_cons_self)
      exact Ordering.isLE_iff_ne_gt.mp
        (Std.TransCmp.isLE_trans (Ordering.isLE_iff_ne_gt.mpr hgt) hx)

/-- **The last maximum**: nothing before it is greater, and everything
after it is smaller. -/
theorem maxBy_split (h : maxBy cmp xs = some x) :
    ∃ pre post, xs = pre ++ x :: post ∧ (∀ y ∈ pre, cmp y x ≠ .gt) ∧ ∀ y ∈ post, cmp x y = .gt := by
  cases xs with
  | nil => cases h
  | cons y ys =>
    rw [← Option.some.inj h]
    exact foldl_maxStep_split ys y

/-- **Nothing is greater than the maximum.** -/
theorem maxBy_ge {y : α} (h : maxBy cmp xs = some x) (hy : y ∈ xs) : cmp y x ≠ .gt := by
  obtain ⟨pre, post, rfl, hpre, hpost⟩ := maxBy_split h
  rcases List.mem_append.mp hy with hy | hy
  · exact hpre y hy
  · rcases List.mem_cons.mp hy with rfl | hy
    · exact Ordering.isLE_iff_ne_gt.mp Std.ReflCmp.isLE_rfl
    · rw [Std.OrientedCmp.lt_of_gt (hpost y hy)]
      exact nofun

/-- Where no two elements compare equal, everything else is smaller. -/
theorem lt_of_maxBy {y : α} (hsep : ∀ a ∈ xs, ∀ b ∈ xs, cmp a b = .eq → a = b)
    (h : maxBy cmp xs = some x) (hy : y ∈ xs) (hne : y ≠ x) : cmp y x = .lt := by
  cases hcmp : cmp y x with
  | lt => rfl
  | eq => exact absurd (hsep y hy x (maxBy_mem h) hcmp) hne
  | gt => exact absurd hcmp (maxBy_ge h hy)

/-- **Where no two elements compare equal, the order of the list does not
show.** -/
theorem maxBy_perm {ys : List α} (hsep : ∀ a ∈ xs, ∀ b ∈ xs, cmp a b = .eq → a = b)
    (hperm : ys.Perm xs) : maxBy cmp ys = maxBy cmp xs := by
  cases hx : maxBy cmp xs with
  | none =>
    rw [maxBy_eq_none] at hx ⊢
    rw [hx] at hperm
    exact hperm.eq_nil
  | some x =>
    cases hy : maxBy cmp ys with
    | none =>
      rw [maxBy_eq_none] at hy
      rw [hy] at hperm
      rw [← hperm.nil_eq] at hx
      cases hx
    | some y =>
      -- each maximum is an element of the other list, so neither exceeds the other
      have hmem : y ∈ xs := hperm.mem_iff.mp (maxBy_mem hy)
      have hge := maxBy_ge hy (hperm.mem_iff.mpr (maxBy_mem hx))
      by_contra hne
      exact hge (Std.OrientedCmp.gt_of_lt (lt_of_maxBy hsep hx hmem fun heq => hne (by rw [heq])))

end Order

end InferQos
