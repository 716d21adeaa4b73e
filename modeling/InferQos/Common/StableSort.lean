import Mathlib.Data.List.Sort
import Mathlib.Data.List.Perm.Basic
import Mathlib.Data.List.Perm.Subperm
/-!
# Sorting by a key

A stable sort by a key orders a list by the key and leaves the elements of
one key in the order they had. The two together determine it
(`sortByKey_eq`): any sorted list with the same elements of each key, in
the same order, is the result. Mathlib's insertion sort is stable, and
evaluates.
-/

namespace InferQos

variable {α β : Type*} [LinearOrder β] {key : α → β} {l m : List α}

/-- Sorted by a key. -/
def SortedBy (key : α → β) (l : List α) : Prop := l.Pairwise fun a b => key a ≤ key b

/-- Elements of one key are sorted in any order. -/
theorem sortedBy_of_eq {k : β} (h : ∀ a ∈ l, key a = k) : SortedBy key l :=
  List.pairwise_of_forall_mem_list fun a ha b hb => ((h a ha).trans (h b hb).symm).le

/-- Two sorted lists with a key between them. -/
theorem SortedBy.append (k : β) (hl : SortedBy key l) (hm : SortedBy key m)
    (hle : ∀ a ∈ l, key a ≤ k) (hge : ∀ b ∈ m, k ≤ key b) : SortedBy key (l ++ m) :=
  List.pairwise_append.mpr ⟨hl, hm, fun a ha b hb => (hle a ha).trans (hge b hb)⟩

/-- The elements of one key, in their order. -/
def ofKey (key : α → β) (k : β) (l : List α) : List α := l.filter fun a => key a = k

/-- **A stable sort by a key.** -/
def sortByKey (key : α → β) (l : List α) : List α := l.insertionSort fun a b => key a ≤ key b

theorem sortByKey_perm (key : α → β) (l : List α) : (sortByKey key l).Perm l :=
  l.perm_insertionSort _

theorem sortedBy_sortByKey (key : α → β) (l : List α) : SortedBy key (sortByKey key l) := by
  have : Std.Total fun a b : α => key a ≤ key b := ⟨fun a b => le_total (key a) (key b)⟩
  have : IsTrans α fun a b : α => key a ≤ key b := ⟨fun _ _ _ h h' => h.trans h'⟩
  exact l.pairwise_insertionSort _

/-- **Elements of one key keep their order.** -/
theorem ofKey_sortByKey (key : α → β) (k : β) (l : List α) :
    ofKey key k (sortByKey key l) = ofKey key k l := by
  have : IsTrans α fun a b : α => key a ≤ key b := ⟨fun _ _ _ h h' => h.trans h'⟩
  have hsame : SortedBy key (ofKey key k l) :=
    sortedBy_of_eq fun a ha => of_decide_eq_true (List.mem_filter.mp ha).2
  have hsub : (ofKey key k l).Sublist (sortByKey key l) :=
    List.sublist_insertionSort hsame List.filter_sublist
  have hsub' : (ofKey key k l).Sublist (ofKey key k (sortByKey key l)) := by
    have h := hsub.filter fun a => key a = k
    rwa [ofKey, List.filter_filter, funext fun a => Bool.and_self _] at h
  have hlen : (ofKey key k (sortByKey key l)).length = (ofKey key k l).length :=
    ((sortByKey_perm key l).filter _).length_eq
  exact (hsub'.eq_of_length hlen.symm).symm

/-- **A sorted list is determined by its elements of each key.** -/
theorem SortedBy.eq (hl : SortedBy key l) (hm : SortedBy key m)
    (h : ∀ k, ofKey key k l = ofKey key k m) : l = m := by
  induction l generalizing m with
  | nil =>
    cases m with
    | nil => rfl
    | cons b m => simpa [ofKey] using h (key b)
  | cons a l ih =>
    cases m with
    | nil => simpa [ofKey] using h (key a)
    | cons b m =>
      obtain ⟨ha, hl'⟩ := List.pairwise_cons.mp hl
      obtain ⟨hb, hm'⟩ := List.pairwise_cons.mp hm
      -- either head occurs in the other list, so neither key is less
      have hba : key b ≤ key a := by
        have hmem : a ∈ ofKey key (key a) (b :: m) := by
          rw [← h]
          exact List.mem_filter.mpr ⟨List.mem_cons_self, decide_eq_true rfl⟩
        rcases List.mem_cons.mp (List.mem_of_mem_filter hmem) with rfl | hmem
        · exact le_rfl
        · exact hb a hmem
      have hab : key a ≤ key b := by
        have hmem : b ∈ ofKey key (key b) (a :: l) := by
          rw [h]
          exact List.mem_filter.mpr ⟨List.mem_cons_self, decide_eq_true rfl⟩
        rcases List.mem_cons.mp (List.mem_of_mem_filter hmem) with rfl | hmem
        · exact le_rfl
        · exact ha b hmem
      have hkey : key b = key a := le_antisymm hba hab
      have hheads := h (key a)
      simp only [ofKey, List.filter_cons, decide_true, if_true, hkey, List.cons.injEq] at hheads
      obtain ⟨rfl, -⟩ := hheads
      refine congrArg _ (ih hl' hm' fun k => ?_)
      have hk := h k
      simp only [ofKey, List.filter_cons] at hk
      split at hk
      · exact (List.cons.inj hk).2
      · exact hk

/-- **A stable sort is the sorted list with the same elements of each
key.** -/
theorem sortByKey_eq (hm : SortedBy key m) (h : ∀ k, ofKey key k m = ofKey key k l) :
    sortByKey key l = m :=
  (sortedBy_sortByKey key l).eq hm fun k => (ofKey_sortByKey key k l).trans (h k).symm

/-- A sorted list is left as it is. -/
theorem sortByKey_of_sorted (h : SortedBy key l) : sortByKey key l = l :=
  sortByKey_eq h fun _ => rfl

/-- The keys of a sorted list do not depend on the order it was in. -/
theorem map_sortByKey (key : α → β) (h : l.Perm m) :
    (sortByKey key l).map key = (sortByKey key m).map key := by
  have hperm : ((sortByKey key l).map key).Perm ((sortByKey key m).map key) :=
    (((sortByKey_perm key l).trans h).trans (sortByKey_perm key m).symm).map key
  refine hperm.eq_of_pairwise (fun a b _ _ hab hba => le_antisymm hab hba) ?_ ?_
  · exact List.pairwise_map.mpr (sortedBy_sortByKey key l)
  · exact List.pairwise_map.mpr (sortedBy_sortByKey key m)

/-! ## Two groups that change places -/

theorem ofKey_append (k : β) (l m : List α) :
    ofKey key k (l ++ m) = ofKey key k l ++ ofKey key k m :=
  List.filter_append ..

theorem ofKey_eq_nil {k : β} (h : ∀ a ∈ l, key a ≠ k) : ofKey key k l = [] :=
  List.filter_eq_nil_iff.mpr fun a ha => by simpa using h a ha

/-- The lower keys, those between, and the higher ones. -/
theorem exists_sorted_split (lo hi : β) (rest : List α) :
    ∃ p m r : List α, (p ++ m ++ r).Perm rest ∧
      (SortedBy key p ∧ SortedBy key m ∧ SortedBy key r) ∧
      (∀ a ∈ p, key a ≤ lo) ∧ (∀ a ∈ m, lo < key a ∧ key a < hi) ∧ ∀ a ∈ r, hi ≤ key a := by
  let above := (sortByKey key rest).filter fun a => !decide (key a ≤ lo)
  have hsorted := sortedBy_sortByKey key rest
  refine ⟨(sortByKey key rest).filter fun a => decide (key a ≤ lo),
    above.filter fun a => decide (key a < hi), above.filter fun a => !decide (key a < hi),
    ?_, ⟨hsorted.filter _, (hsorted.filter _).filter _, (hsorted.filter _).filter _⟩, ?_⟩
  · rw [List.append_assoc]
    exact (((List.filter_append_perm _ above).append_left _).trans
      (List.filter_append_perm _ _)).trans (sortByKey_perm key rest)
  · refine ⟨fun a ha => ?_, fun a ha => ?_, fun a ha => ?_⟩
    · simpa using (List.mem_filter.mp ha).2
    · simp only [above, List.mem_filter, Bool.not_eq_true', decide_eq_false_iff_not, not_le,
        decide_eq_true_eq] at ha
      exact ⟨ha.1.2, ha.2⟩
    · simp only [above, List.mem_filter, Bool.not_eq_true', decide_eq_false_iff_not, not_lt] at ha
      exact ha.2

/-- **Two groups that changed places are put back by a sort.** The elements
of a lower and of a higher key, taken out of a list, go back into the same
rest: with the higher ones first, split at any place, the sort has the
lower ones first. -/
theorem exists_exchange {low high low' high' : List α} {lo hi : β} (hlt : lo < hi)
    (hlow : ∀ a ∈ low, key a = lo) (hhigh : ∀ a ∈ high, key a = hi)
    (hmoved : low' ++ high' = high ++ low) (rest : List α) :
    ∃ p m r : List α, (p ++ m ++ r).Perm rest ∧
      sortByKey key (p ++ low' ++ m ++ high' ++ r) = p ++ low ++ m ++ high ++ r := by
  obtain ⟨p, m, r, hperm, ⟨hp, hm, hr⟩, hple, hmlt, hrle⟩ := exists_sorted_split lo hi rest
  refine ⟨p, m, r, hperm, sortByKey_eq ?_ fun k => ?_⟩
  · have hpl : SortedBy key (p ++ low) :=
      hp.append lo (sortedBy_of_eq hlow) hple fun b hb => (hlow b hb).ge
    have hpl_le : ∀ a ∈ p ++ low, key a ≤ lo := fun a ha =>
      (List.mem_append.mp ha).elim (hple a) fun ha => (hlow a ha).le
    have hplm : SortedBy key (p ++ low ++ m) := hpl.append lo hm hpl_le fun b hb => (hmlt b hb).1.le
    have hplm_le : ∀ a ∈ p ++ low ++ m, key a ≤ hi := fun a ha =>
      (List.mem_append.mp ha).elim (fun ha => (hpl_le a ha).trans hlt.le) fun ha => (hmlt a ha).2.le
    have hplmh : SortedBy key (p ++ low ++ m ++ high) :=
      hplm.append hi (sortedBy_of_eq hhigh) hplm_le fun b hb => (hhigh b hb).ge
    have hplmh_le : ∀ a ∈ p ++ low ++ m ++ high, key a ≤ hi := fun a ha =>
      (List.mem_append.mp ha).elim (hplm_le a) fun ha => (hhigh a ha).le
    exact hplmh.append hi hr hplmh_le hrle
  · have hk : ofKey key k low' ++ ofKey key k high' = ofKey key k high ++ ofKey key k low := by
      rw [← ofKey_append, hmoved, ofKey_append]
    simp only [ofKey_append, List.append_assoc]
    by_cases hend : k = lo ∨ k = hi
    · -- nothing between has either key, and one group has the other
      have hm : ofKey key k m = [] := by
        refine ofKey_eq_nil fun a ha hka => ?_
        rcases hend with rfl | rfl
        · exact (hmlt a ha).1.ne' hka
        · exact (hmlt a ha).2.ne hka
      have hgroups : ofKey key k high ++ ofKey key k low = ofKey key k low ++ ofKey key k high := by
        rcases hend with rfl | rfl
        · rw [ofKey_eq_nil fun a ha hka => hlt.ne' ((hhigh a ha).symm.trans hka), List.append_nil,
            List.nil_append]
        · rw [ofKey_eq_nil fun a ha hka => hlt.ne ((hlow a ha).symm.trans hka), List.append_nil,
            List.nil_append]
      simp only [hm, List.nil_append]
      rw [← List.append_assoc (ofKey key k low), ← hgroups, ← hk, List.append_assoc]
    · rw [not_or] at hend
      have hnil : ofKey key k low = [] ∧ ofKey key k high = [] :=
        ⟨ofKey_eq_nil fun a ha hka => hend.1 (hka.symm.trans (hlow a ha)),
          ofKey_eq_nil fun a ha hka => hend.2 (hka.symm.trans (hhigh a ha))⟩
      rw [hnil.1, hnil.2] at hk ⊢
      obtain ⟨hlow', hhigh'⟩ := List.append_eq_nil_iff.mp hk
      rw [hlow', hhigh']

/-- Some elements, and the rest of the list. -/
theorem exists_rest (hnodup : l.Nodup) (hmem : ∀ a ∈ l, a ∈ m) :
    ∃ rest, (l ++ rest).Perm m := by
  obtain ⟨l', hperm, hsub⟩ := hnodup.subperm hmem
  obtain ⟨rest, hrest⟩ := hsub.exists_perm_append
  exact ⟨rest, (hrest.trans (hperm.append_right rest)).symm⟩

/-- The two groups and the rest around them. -/
theorem interleave_perm (p low m high r : List α) :
    (p ++ low ++ m ++ high ++ r).Perm (low ++ high ++ (p ++ m ++ r)) := by
  classical
  refine List.perm_iff_count.mpr fun a => ?_
  simp only [List.count_append]
  omega

end InferQos
