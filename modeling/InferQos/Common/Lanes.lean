import Mathlib.Algebra.BigOperators.Group.Finset.Basic
import Mathlib.Algebra.Order.BigOperators.Group.Finset
import Mathlib.Data.List.Induction
/-!
# Lanes served by rank

Several lanes hold turns in a fixed order. A round serves the lane whose
next turn leads those of all others; a lane that has run out of turns stays
in the race, with a rank of its own. `Greedy` is what the rounds have in
common as long as no lane without turns was served. As many rounds as there
are turns serve every turn once exactly when the turn that no other falls
behind is still ahead of every other lane that has run out
(`Greedy.exhausts_iff`).
-/

namespace InferQos

variable {K T : Type*} [DecidableEq K]

/-! ## Rounds -/

/-- The lanes with their turns, which turn leads which, and which turns a
lane that has run out is below. -/
structure Lanes (K T : Type*) where
  keys : Finset K
  turns : K → List T
  leads : T → T → Prop
  below : K → T → Prop
  turns_eq_nil : ∀ {k}, k ∉ keys → turns k = []
  irrefl : ∀ t, ¬ leads t t
  trans : ∀ {a b c}, leads a b → leads b c → leads a c
  below_of_not_leads : ∀ {k t t'}, below k t → ¬ leads t t' → below k t'

namespace Lanes

variable {L : Lanes K T} {ks pre : List K} {k : K} {t : T}

/-- No lane was served more often than it has turns. -/
def Within (L : Lanes K T) (pre : List K) : Prop := ∀ k, pre.count k ≤ (L.turns k).length

/-- The next turn of a lane. -/
def next (L : Lanes K T) (pre : List K) (k : K) : Option T := (L.turns k)[pre.count k]?

/-- **The lane served is the first in rank.** Its turn leads every next turn
and is ahead of every lane that has run out; and if it has run out itself,
it is not below any next turn. -/
structure Greedy (L : Lanes K T) (ks : List K) : Prop where
  mem : ∀ k ∈ ks, k ∈ L.keys
  leads : ∀ pre k t, pre ++ [k] <+: ks → L.Within pre → L.next pre k = some t →
    ∀ k' ∈ L.keys, k' ≠ k → (∀ t', L.next pre k' = some t' → L.leads t t') ∧
      (L.next pre k' = none → L.below k' t)
  again : ∀ pre k, pre ++ [k] <+: ks → L.Within pre → L.next pre k = none →
    ∀ k' t', L.next pre k' = some t' → ¬ L.below k t'

/-- The turns of all lanes. -/
def total (L : Lanes K T) : ℕ := ∑ k ∈ L.keys, (L.turns k).length

/-- **No turn falls behind this one.** -/
def Last (L : Lanes K T) (t : T) : Prop := ∀ k ∈ L.keys, ∀ t' ∈ L.turns k, ¬ L.leads t t'

/-- A lane with a next turn was served less often than it has turns. -/
theorem count_lt_of_next (h : L.next pre k = some t) : pre.count k < (L.turns k).length :=
  (List.getElem?_eq_some_iff.mp h).1

/-! ## Counting rounds -/

/-- The rounds are the rounds of the lanes. -/
theorem sum_count (h : ∀ k ∈ pre, k ∈ L.keys) : ∑ k ∈ L.keys, pre.count k = pre.length := by
  have hcard := Multiset.sum_count_eq_card (s := L.keys) (m := (pre : Multiset K)) h
  simpa only [Multiset.coe_count, Multiset.coe_card] using hcard

/-- Among fewer rounds than turns, some lane has a turn left. -/
theorem exists_next (h : ∀ k ∈ pre, k ∈ L.keys) (hlt : pre.length < L.total) :
    ∃ k ∈ L.keys, ∃ t, L.next pre k = some t := by
  rw [← sum_count h] at hlt
  obtain ⟨k, hk, hcount⟩ := Finset.exists_lt_of_sum_lt hlt
  exact ⟨k, hk, _, List.getElem?_eq_getElem hcount⟩

/-- As many rounds as turns, none of a lane without turns, serve every turn. -/
theorem count_eq_of_within (h : ∀ k ∈ pre, k ∈ L.keys) (hlen : pre.length = L.total)
    (hle : ∀ k ∈ L.keys, pre.count k ≤ (L.turns k).length) (k : K) :
    pre.count k = (L.turns k).length := by
  by_cases hk : k ∈ L.keys
  · refine (Finset.sum_eq_sum_iff_of_le hle).mp ?_ k hk
    rw [sum_count h, hlen, total]
  · rw [L.turns_eq_nil hk, List.count_eq_zero.mpr fun hmem => hk (h k hmem), List.length_nil]

/-- A lane that was served more than `j` times was served after `j` times. -/
theorem exists_round {j : ℕ} (h : j < ks.count k) : ∃ pre, pre ++ [k] <+: ks ∧ pre.count k = j := by
  induction ks using List.reverseRecOn with
  | nil => exact absurd h (Nat.not_lt_zero j)
  | append_singleton ks k' ih =>
    by_cases hj : j < ks.count k
    · obtain ⟨pre, hpre, hcount⟩ := ih hj
      exact ⟨pre, hpre.trans (List.prefix_append ks [k']), hcount⟩
    · -- the last round is the one
      rw [List.count_append, List.count_singleton] at h
      have hk : k' = k := by
        by_contra hne
        rw [if_neg (by simpa using hne)] at h
        omega
      subst hk
      simp only [beq_self_eq_true, if_true] at h
      exact ⟨ks, List.prefix_rfl, by omega⟩

/-! ## The last turn -/

omit [DecidableEq K] in
/-- Of some turns, no other falls behind one. -/
theorem exists_not_leads {ts : List T} (hne : ts ≠ []) : ∃ t ∈ ts, ∀ t' ∈ ts, ¬ L.leads t t' := by
  induction ts with
  | nil => exact absurd rfl hne
  | cons x ts ih =>
    by_cases hts : ts = []
    · subst hts
      refine ⟨x, List.mem_cons_self, fun t' ht' => ?_⟩
      rw [List.mem_singleton.mp ht']
      exact L.irrefl x
    · obtain ⟨t, ht, hlast⟩ := ih hts
      by_cases hx : L.leads t x
      · refine ⟨x, List.mem_cons_self, fun t' ht' => ?_⟩
        rcases List.mem_cons.mp ht' with rfl | ht'
        · exact L.irrefl t'
        · exact fun hlead => hlast t' ht' (L.trans hx hlead)
      · refine ⟨t, List.mem_cons_of_mem x ht, fun t' ht' => ?_⟩
        rcases List.mem_cons.mp ht' with rfl | ht'
        · exact hx
        · exact hlast t' ht'

omit [DecidableEq K] in
theorem exists_last (h : 0 < L.total) : ∃ k ∈ L.keys, ∃ t ∈ L.turns k, L.Last t := by
  obtain ⟨k, hk, hpos⟩ := Finset.exists_ne_zero_of_sum_ne_zero h.ne'
  obtain ⟨t, ht⟩ := List.exists_mem_of_length_pos (Nat.pos_of_ne_zero hpos)
  have hne : L.keys.toList.flatMap L.turns ≠ [] :=
    List.ne_nil_of_mem (List.mem_flatMap.mpr ⟨k, Finset.mem_toList.mpr hk, ht⟩)
  obtain ⟨t₀, ht₀, hlast⟩ := exists_not_leads (L := L) hne
  obtain ⟨k₀, hk₀, ht₀⟩ := List.mem_flatMap.mp ht₀
  exact ⟨k₀, Finset.mem_toList.mp hk₀, t₀, ht₀, fun k hk t ht =>
    hlast t (List.mem_flatMap.mpr ⟨k, Finset.mem_toList.mpr hk, ht⟩)⟩

/-- Every turn served once: the last turn was served when all other lanes
had run out. -/
theorem Greedy.below_last (h : L.Greedy ks) (hall : ∀ k, ks.count k = (L.turns k).length)
    {k₀ : K} {t₀ : T} (ht₀ : t₀ ∈ L.turns k₀) (hlast : L.Last t₀) (hk : k ∈ L.keys)
    (hne : k ≠ k₀) : L.below k t₀ := by
  obtain ⟨j, hj, rfl⟩ := List.getElem_of_mem ht₀
  have hserved : j < ks.count k₀ := by rwa [hall k₀]
  obtain ⟨pre, hpre, hcount⟩ := exists_round hserved
  have hwithin' : L.Within pre := fun k' =>
    (((List.prefix_append pre [k₀]).trans hpre).sublist.count_le k').trans (hall k').le
  have hnext : L.next pre k₀ = some (L.turns k₀)[j] := by
    unfold next
    rw [hcount]
    exact List.getElem?_eq_getElem hj
  obtain ⟨hleads, hout⟩ := h.leads pre k₀ _ hpre hwithin' hnext k hk hne
  cases hnext' : L.next pre k with
  | none => exact hout hnext'
  | some t' => exact absurd (hleads t' hnext') (hlast k hk t' (List.mem_of_getElem? hnext'))

/-- **One round more serves a turn**, as long as turns are left and the last
turn is ahead of the other lanes that have run out. -/
theorem Greedy.within_snoc (h : L.Greedy ks) {k₀ : K} {t₀ : T} (ht₀ : t₀ ∈ L.turns k₀)
    (hlast : L.Last t₀) (hahead : ∀ k ∈ L.keys, k ≠ k₀ → L.below k t₀) (hpre : pre ++ [k] <+: ks)
    (hwithin : L.Within pre) (hlt : pre.length < L.total) : L.Within (pre ++ [k]) := by
  have hpre' : pre <+: ks := (List.prefix_append pre [k]).trans hpre
  have hkey : k ∈ L.keys := h.mem k (hpre.subset (by simp))
  cases hnext : L.next pre k with
  | some t =>
    have hcount := count_lt_of_next hnext
    intro k'
    rw [List.count_append, List.count_singleton]
    have hle := hwithin k'
    by_cases hkk : k = k'
    · subst hkk
      simpa using Nat.succ_le_of_lt hcount
    · simpa [hkk] using hle
  | none =>
    obtain ⟨k', hk', t', hnext'⟩ := exists_next (fun k hk => h.mem k (hpre'.subset hk)) hlt
    have hnot := h.again pre k hpre hwithin hnext k' t' hnext'
    have hne' : k' ≠ k := by
      rintro rfl
      rw [hnext] at hnext'
      cases hnext'
    by_cases hk₀ : k = k₀
    · -- the last turn was served before, while a turn of the other lane was left
      subst hk₀
      obtain ⟨j, hj, rfl⟩ := List.getElem_of_mem ht₀
      have hcount : j < pre.count k := by
        have hlen := List.getElem?_eq_none_iff.mp hnext
        omega
      obtain ⟨pre₀, hpre₀, hcount₀⟩ := exists_round hcount
      have hpre₀' : pre₀ <+: pre := (List.prefix_append pre₀ [k]).trans hpre₀
      have hwithin₀ : L.Within pre₀ := fun k' =>
        (hpre₀'.sublist.count_le k').trans (hwithin k')
      have hnext₀ : L.next pre₀ k = some (L.turns k)[j] := by
        unfold next
        rw [hcount₀]
        exact List.getElem?_eq_getElem hj
      have hleft : pre₀.count k' < (L.turns k').length := by
        have hle := hpre₀'.sublist.count_le k'
        have hlt' := count_lt_of_next hnext'
        omega
      have hlead := (h.leads pre₀ k _ (hpre₀.trans hpre') hwithin₀ hnext₀ k' hk' hne').1 _
        (List.getElem?_eq_getElem hleft)
      exact absurd hlead (hlast k' hk' _ (List.getElem_mem hleft))
    · exact absurd (L.below_of_not_leads (hahead k hkey hk₀)
        (hlast k' hk' t' (List.mem_of_getElem? hnext'))) hnot

/-- **As many rounds as turns serve every turn exactly when the last turn is
ahead of every other lane that has run out.** -/
theorem Greedy.exhausts_iff (h : L.Greedy ks) (hlen : ks.length = L.total) :
    (∀ k, ks.count k = (L.turns k).length) ↔
      ∀ k₀ ∈ L.keys, ∀ t₀ ∈ L.turns k₀, L.Last t₀ → ∀ k ∈ L.keys, k ≠ k₀ → L.below k t₀ := by
  constructor
  · intro hall k₀ _ t₀ ht₀ hlast k hk hne
    exact h.below_last hall ht₀ hlast hk hne
  · intro hahead
    have hwithin : ∀ pre, pre <+: ks → L.Within pre := by
      intro pre
      induction pre using List.reverseRecOn with
      | nil => exact fun _ _ => Nat.zero_le _
      | append_singleton pre k ih =>
        intro hpre
        have hlt : pre.length < L.total := by
          have hle := hpre.length_le
          rw [List.length_append, List.length_singleton] at hle
          omega
        obtain ⟨k₀, hk₀, t₀, ht₀, hlast⟩ := exists_last (L := L) (by omega)
        exact h.within_snoc ht₀ hlast (hahead k₀ hk₀ t₀ ht₀ hlast) hpre
          (ih ((List.prefix_append pre [k]).trans hpre)) hlt
    exact count_eq_of_within h.mem hlen fun k _ => hwithin ks List.prefix_rfl k

end Lanes

end InferQos
