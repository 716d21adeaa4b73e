import Mathlib.Data.List.Sort
import Mathlib.Data.List.Perm.Basic
import Mathlib.Algebra.BigOperators.Group.List.Basic
import Mathlib.Algebra.Order.BigOperators.Group.List
/-!
# Finite maps, visited in key order

`OrdMap` is an association list whose keys strictly increase: a B-tree
map as a program sees it, and a hash map with one iteration order fixed.
The keys' order is a field, so a map with a repeated key cannot be built.
The lookups after an update are the simp set; `entries_perm_insert` and
`entries_perm_erase` carry every fact about a sum over the entries.
-/

namespace InferQos

variable {K V W : Type*} [LinearOrder K]

/-- An association list with strictly increasing keys. -/
structure OrdMap (K V : Type*) [LinearOrder K] where
  entries : List (K × V)
  sorted : entries.Pairwise fun a b => a.1 < b.1

namespace OrdMap

variable {m : OrdMap K V} {k k' : K} {v v' : V}

@[ext] theorem ext {m m' : OrdMap K V} (h : m.entries = m'.entries) : m = m' := by
  cases m; cases m'; cases h; rfl

instance [DecidableEq V] : DecidableEq (OrdMap K V) := fun m m' =>
  decidable_of_iff (m.entries = m'.entries) ⟨ext, congrArg entries⟩

/-- The empty map. -/
def empty : OrdMap K V := ⟨[], List.Pairwise.nil⟩

instance : EmptyCollection (OrdMap K V) := ⟨empty⟩

/-- The value stored at a key. -/
def get? (m : OrdMap K V) (k : K) : Option V :=
  (m.entries.find? fun e => e.1 = k).map Prod.snd

/-- The keys, in order. -/
def keys (m : OrdMap K V) : List K := m.entries.map Prod.fst

/-- The values, in the order of their keys. -/
def values (m : OrdMap K V) : List V := m.entries.map Prod.snd

/-- Keep the entries a predicate accepts. -/
def filter (m : OrdMap K V) (p : K → V → Bool) : OrdMap K V where
  entries := m.entries.filter fun e => p e.1 e.2
  sorted := m.sorted.filter _

/-- Remove a key. -/
def erase (m : OrdMap K V) (k : K) : OrdMap K V := m.filter fun k' _ => k' ≠ k

/-- Rewrite every value in place. -/
def mapVal (m : OrdMap K V) (f : V → W) : OrdMap K W where
  entries := m.entries.map fun e => (e.1, f e.2)
  sorted := by
    rw [List.pairwise_map]
    exact m.sorted

theorem mem_filter {p : K → V → Bool} {e : K × V} :
    e ∈ (m.filter p).entries ↔ e ∈ m.entries ∧ p e.1 e.2 = true := by
  simp [filter]

theorem mem_erase {e : K × V} : e ∈ (m.erase k).entries ↔ e ∈ m.entries ∧ e.1 ≠ k := by
  simp [erase, filter]

/-- Two entries under one key are one entry. -/
theorem entry_unique {e e' : K × V} (h : e ∈ m.entries) (h' : e' ∈ m.entries)
    (hk : e.1 = e'.1) : e = e' := by
  by_contra hne
  rcases List.Pairwise.forall_of_forall_of_flip (R := fun a b => a = b ∨ a.1 ≠ b.1)
    (fun _ _ => Or.inl rfl)
    (m.sorted.imp fun hlt => Or.inr (ne_of_lt hlt))
    (m.sorted.imp fun hlt => Or.inr (ne_of_gt hlt)) h h' with h | h
  · exact hne h
  · exact h hk

theorem entries_nodup (m : OrdMap K V) : m.entries.Nodup :=
  m.sorted.imp fun hlt heq => by rw [heq] at hlt; exact lt_irrefl _ hlt

theorem keys_nodup (m : OrdMap K V) : m.keys.Nodup := by
  unfold keys List.Nodup
  rw [List.pairwise_map]
  exact m.sorted.imp fun hlt => ne_of_lt hlt

/-- **A lookup reads an entry.** -/
theorem get?_eq_some : m.get? k = some v ↔ (k, v) ∈ m.entries := by
  unfold get?
  constructor
  · intro h
    obtain ⟨e, he, rfl⟩ := Option.map_eq_some_iff.mp h
    have hk := List.find?_some he
    have hm := List.mem_of_find?_eq_some he
    simp only [decide_eq_true_eq] at hk
    rw [← hk]
    exact hm
  · intro h
    cases hf : m.entries.find? fun e => decide (e.1 = k) with
    | none =>
      have := List.find?_eq_none.mp hf _ h
      simp at this
    | some e =>
      have hk := List.find?_some hf
      have hm := List.mem_of_find?_eq_some hf
      simp only [decide_eq_true_eq] at hk
      rw [Option.map_some, entry_unique hm h hk]

theorem get?_eq_none : m.get? k = none ↔ ∀ v, (k, v) ∉ m.entries := by
  rw [Option.eq_none_iff_forall_ne_some]
  exact forall_congr' fun v => not_congr get?_eq_some

@[simp] theorem get?_empty : (∅ : OrdMap K V).get? k = none := rfl

@[simp] theorem entries_empty : (∅ : OrdMap K V).entries = [] := rfl

@[simp] theorem get?_erase_self : (m.erase k).get? k = none := by
  rw [get?_eq_none]
  intro v h
  exact (mem_erase.mp h).2 rfl

@[simp] theorem get?_erase_of_ne (h : k' ≠ k) : (m.erase k).get? k' = m.get? k' := by
  ext v
  rw [get?_eq_some, get?_eq_some, mem_erase]
  exact and_iff_left h

theorem get?_filter {p : K → V → Bool} :
    (m.filter p).get? k = (m.get? k).filter (p k) := by
  ext v
  rw [get?_eq_some, mem_filter, ← get?_eq_some, Option.filter_eq_some_iff]

theorem get?_mapVal {f : V → W} : (m.mapVal f).get? k = (m.get? k).map f := by
  ext w
  rw [get?_eq_some, Option.map_eq_some_iff]
  simp only [mapVal, List.mem_map, Prod.mk.injEq]
  constructor
  · rintro ⟨e, he, rfl, rfl⟩
    exact ⟨e.2, get?_eq_some.mpr he, rfl⟩
  · rintro ⟨v, hv, rfl⟩
    exact ⟨(k, v), get?_eq_some.mp hv, rfl, rfl⟩

/-- Insert, or replace, the value at a key. -/
def insert (m : OrdMap K V) (k : K) (v : V) : OrdMap K V where
  entries := (m.erase k).entries.orderedInsert (fun a b => a.1 ≤ b.1) (k, v)
  sorted := by
    have hle : ((m.erase k).entries.orderedInsert (fun a b => a.1 ≤ b.1) (k, v)).Pairwise
        fun a b => a.1 ≤ b.1 := by
      have : Std.Total fun a b : K × V => a.1 ≤ b.1 := ⟨fun a b => le_total a.1 b.1⟩
      have : IsTrans (K × V) fun a b => a.1 ≤ b.1 := ⟨fun a b c => le_trans⟩
      exact List.Pairwise.orderedInsert _ _ ((m.erase k).sorted.imp le_of_lt)
    have hne : ((m.erase k).entries.orderedInsert (fun a b => a.1 ≤ b.1) (k, v)).Pairwise
        fun a b => a.1 ≠ b.1 := by
      refine ((List.perm_orderedInsert (fun a b : K × V => a.1 ≤ b.1) (k, v)
        (m.erase k).entries).pairwise_iff fun h => h.symm).mpr ?_
      refine List.pairwise_cons.mpr ⟨fun e he => (mem_erase.mp he).2.symm, ?_⟩
      exact (m.erase k).sorted.imp ne_of_lt
    exact hle.and hne |>.imp fun h => lt_of_le_of_ne h.1 h.2

/-- The map of a list of entries, the last one of a key kept. -/
def ofList (es : List (K × V)) : OrdMap K V := es.foldl (fun m e => m.insert e.1 e.2) ∅

/-- **What an insertion stores**, up to the order of the entries. -/
theorem entries_perm_insert (m : OrdMap K V) (k : K) (v : V) :
    (m.insert k v).entries.Perm ((k, v) :: (m.erase k).entries) :=
  List.perm_orderedInsert _ _ _

/-- **What a stored key contributes**, up to the order of the entries. -/
theorem entries_perm_erase (h : m.get? k = some v) :
    m.entries.Perm ((k, v) :: (m.erase k).entries) := by
  have hmem := get?_eq_some.mp h
  refine (List.perm_ext_iff_of_nodup m.entries_nodup ?_).mpr fun e => ?_
  · refine List.nodup_cons.mpr ⟨fun hm => (mem_erase.mp hm).2 rfl, (m.erase k).entries_nodup⟩
  · rw [List.mem_cons, mem_erase]
    constructor
    · intro he
      by_cases hk : e.1 = k
      · exact Or.inl (entry_unique he hmem hk)
      · exact Or.inr ⟨he, hk⟩
    · rintro (rfl | he)
      · exact hmem
      · exact he.1

theorem mem_insert {e : K × V} :
    e ∈ (m.insert k v).entries ↔ e = (k, v) ∨ e ∈ m.entries ∧ e.1 ≠ k := by
  rw [(entries_perm_insert m k v).mem_iff, List.mem_cons, mem_erase]

@[simp] theorem get?_insert_self : (m.insert k v).get? k = some v :=
  get?_eq_some.mpr (mem_insert.mpr (Or.inl rfl))

@[simp] theorem get?_insert_of_ne (h : k' ≠ k) : (m.insert k v).get? k' = m.get? k' := by
  ext w
  rw [get?_eq_some, get?_eq_some, mem_insert]
  constructor
  · rintro (he | he)
    · exact absurd (congrArg Prod.fst he) h
    · exact he.1
  · exact fun he => Or.inr ⟨he, h⟩

theorem get?_insert : (m.insert k v).get? k' = if k' = k then some v else m.get? k' := by
  split
  · rename_i h
    rw [h, get?_insert_self]
  · exact get?_insert_of_ne ‹_›

theorem get?_erase : (m.erase k).get? k' = if k' = k then none else m.get? k' := by
  split
  · rename_i h
    rw [h, get?_erase_self]
  · exact get?_erase_of_ne ‹_›

/-- What a map holds after an insert is the value inserted, or was held
before. -/
theorem get?_insert_eq_some {v' : V} : (m.insert k v).get? k' = some v' ↔
    k' = k ∧ v = v' ∨ k' ≠ k ∧ m.get? k' = some v' := by
  rw [get?_insert]
  by_cases h : k' = k
  · simp [h]
  · simp [h]

theorem get?_erase_eq_some : (m.erase k).get? k' = some v ↔ k' ≠ k ∧ m.get? k' = some v := by
  rw [get?_erase]
  by_cases h : k' = k
  · simp [h]
  · simp [h]

/-- Erasing a key the map does not hold does nothing. -/
theorem erase_of_get?_eq_none (h : m.get? k = none) : m.erase k = m := by
  apply OrdMap.ext
  refine List.filter_eq_self.mpr fun e he => ?_
  simp only [ne_eq, decide_not, Bool.not_eq_eq_eq_not, Bool.not_true, decide_eq_false_iff_not]
  rintro rfl
  exact get?_eq_none.mp h e.2 he

@[simp] theorem mem_keys_insert {k' : K} :
    k' ∈ (m.insert k v).keys ↔ k' = k ∨ k' ∈ m.keys := by
  simp only [keys, List.mem_map, mem_insert]
  constructor
  · rintro ⟨a, rfl | ⟨ha, -⟩, rfl⟩
    · exact Or.inl rfl
    · exact Or.inr ⟨a, ha, rfl⟩
  · rintro (rfl | ⟨a, ha, rfl⟩)
    · exact ⟨(k', v), Or.inl rfl, rfl⟩
    · by_cases hak : a.1 = k
      · exact ⟨(k, v), Or.inl rfl, hak.symm⟩
      · exact ⟨a, Or.inr ⟨ha, hak⟩, rfl⟩

theorem mem_keys_ofList {es : List (K × V)} :
    k ∈ (ofList es : OrdMap K V).keys ↔ k ∈ es.map Prod.fst := by
  have hfold : ∀ (es : List (K × V)) (m : OrdMap K V),
      k ∈ (es.foldl (fun m e => m.insert e.1 e.2) m).keys ↔ k ∈ m.keys ∨ k ∈ es.map Prod.fst := by
    intro es
    induction es with
    | nil => simp
    | cons e es ih =>
      intro m
      rw [List.foldl_cons, ih, mem_keys_insert, List.map_cons, List.mem_cons, or_assoc]
      exact or_left_comm
  rw [ofList, hfold]
  simp [keys]

theorem mem_keys : k ∈ m.keys ↔ ∃ v, m.get? k = some v := by
  simp only [keys, List.mem_map, get?_eq_some]
  constructor
  · rintro ⟨e, he, rfl⟩
    exact ⟨e.2, he⟩
  · rintro ⟨v, h⟩
    exact ⟨(k, v), h, rfl⟩

theorem values_filter (m : OrdMap K V) (p : V → Bool) :
    (m.filter fun _ v => p v).values = m.values.filter p := by
  unfold values filter
  rw [List.filter_map]
  rfl

theorem mem_values {v : V} : v ∈ m.values ↔ ∃ k, m.get? k = some v := by
  simp only [values, List.mem_map, get?_eq_some]
  constructor
  · rintro ⟨e, he, rfl⟩
    exact ⟨e.1, he⟩
  · rintro ⟨k, h⟩
    exact ⟨(k, v), h, rfl⟩

/-- **A map is what it answers.** -/
theorem ext_get? {m' : OrdMap K V} (h : ∀ k, m.get? k = m'.get? k) : m = m' := by
  apply OrdMap.ext
  have hperm : m.entries.Perm m'.entries := by
    refine (List.perm_ext_iff_of_nodup m.entries_nodup m'.entries_nodup).mpr fun e => ?_
    rw [← get?_eq_some, ← get?_eq_some, h]
  refine hperm.eq_of_pairwise (fun a b _ _ hab hba => ?_) m.sorted m'.sorted
  exact absurd hab (not_lt_of_gt hba)

theorem mapVal_insert {f : V → W} : (m.insert k v).mapVal f = (m.mapVal f).insert k (f v) := by
  refine ext_get? fun k' => ?_
  rw [get?_mapVal, get?_insert, get?_insert, get?_mapVal]
  split <;> rfl

theorem mapVal_erase {f : V → W} : (m.erase k).mapVal f = (m.mapVal f).erase k := by
  refine ext_get? fun k' => ?_
  rw [get?_mapVal, get?_erase, get?_erase, get?_mapVal]
  split <;> rfl

/-! ## Sums over the entries -/

section Sum

variable {M : Type*} [AddCommMonoid M]

/-- The sum of a weight over the entries. -/
def sumOn (m : OrdMap K V) (f : K → V → M) : M := (m.entries.map fun e => f e.1 e.2).sum

@[simp] theorem sumOn_empty (f : K → V → M) : (∅ : OrdMap K V).sumOn f = 0 := rfl

@[simp] theorem sumOn_insert (f : K → V → M) :
    (m.insert k v).sumOn f = f k v + (m.erase k).sumOn f := by
  unfold sumOn
  rw [((entries_perm_insert m k v).map _).sum_eq, List.map_cons, List.sum_cons]

theorem sumOn_eq_add_erase (h : m.get? k = some v) (f : K → V → M) :
    m.sumOn f = f k v + (m.erase k).sumOn f := by
  unfold sumOn
  rw [((entries_perm_erase h).map _).sum_eq, List.map_cons, List.sum_cons]

/-- **A replaced value moves the sum by its own weight.** -/
theorem sumOn_insert_add (h : m.get? k = some v') (f : K → V → M) :
    (m.insert k v).sumOn f + f k v' = m.sumOn f + f k v := by
  rw [sumOn_insert, sumOn_eq_add_erase h, add_assoc, add_comm _ (f k v'), add_comm (f k v)]

theorem sumOn_insert_of_none (h : m.get? k = none) (f : K → V → M) :
    (m.insert k v).sumOn f = f k v + m.sumOn f := by
  rw [sumOn_insert, erase_of_get?_eq_none h]

section Order

variable [PartialOrder M] [IsOrderedAddMonoid M]

theorem sumOn_nonneg {f : K → V → M} (h : ∀ e ∈ m.entries, 0 ≤ f e.1 e.2) : 0 ≤ m.sumOn f := by
  refine List.sum_nonneg fun x hx => ?_
  obtain ⟨e, he, rfl⟩ := List.mem_map.mp hx
  exact h e he

theorem sumOn_mono {f g : K → V → M} (h : ∀ e ∈ m.entries, f e.1 e.2 ≤ g e.1 e.2) :
    m.sumOn f ≤ m.sumOn g :=
  List.sum_le_sum h

/-- Dropping entries lowers a sum of nonnegative weights. -/
theorem sumOn_filter_le {f : K → V → M} (h : ∀ e ∈ m.entries, 0 ≤ f e.1 e.2)
    (p : K → V → Bool) : (m.filter p).sumOn f ≤ m.sumOn f := by
  refine List.Sublist.sum_le_sum (List.filter_sublist.map _) fun x hx => ?_
  obtain ⟨e, he, rfl⟩ := List.mem_map.mp hx
  exact h e he

/-- **Distinct keys carry at most the whole sum**, absent ones counting
nothing. -/
theorem sum_get?_le_sumOn {f : K → V → M} (h : ∀ e ∈ m.entries, 0 ≤ f e.1 e.2) {ks : List K}
    (hnd : ks.Nodup) : (ks.map fun k => (m.get? k).elim 0 (f k)).sum ≤ m.sumOn f := by
  induction ks generalizing m with
  | nil => exact sumOn_nonneg h
  | cons k ks ih =>
    obtain ⟨hk, hnd⟩ := List.nodup_cons.mp hnd
    rw [List.map_cons, List.sum_cons]
    cases hg : m.get? k with
    | none =>
      rw [Option.elim_none, zero_add]
      exact ih h hnd
    | some v =>
      -- the other keys are those of the map without `k`
      have herase : ks.map (fun k' => (m.get? k').elim 0 (f k')) =
          ks.map fun k' => ((m.erase k).get? k').elim 0 (f k') := by
        refine List.map_congr_left fun k' hk' => ?_
        have hne : k' ≠ k := fun heq => hk (heq ▸ hk')
        rw [get?_erase_of_ne hne]
      rw [Option.elim_some, sumOn_eq_add_erase hg, herase]
      exact add_le_add le_rfl (ih (fun e he => h e (mem_erase.mp he).1) hnd)

end Order

/-- A sum over some of the entries, as a sum over all of them. -/
theorem sumOn_filter (p : K → V → Bool) (f : K → V → M) :
    (m.filter p).sumOn f = m.sumOn fun k v => if p k v then f k v else 0 := by
  have hentries : (m.filter p).entries = m.entries.filter fun e => p e.1 e.2 := rfl
  unfold sumOn
  rw [hentries]
  induction m.entries with
  | nil => rfl
  | cons e es ih =>
    simp only [List.filter_cons, List.map_cons, List.sum_cons] at ih ⊢
    split
    · rw [List.map_cons, List.sum_cons, ih]
    · rw [ih, zero_add]

end Sum

theorem sumOn_mapVal {M : Type*} [AddCommMonoid M] (g : V → W) (f : K → W → M) :
    (m.mapVal g).sumOn f = m.sumOn fun k v => f k (g v) := by
  unfold sumOn mapVal
  rw [List.map_map]
  rfl

/-! ## Maps under other keys -/

section Rekeyed

variable {K' V' : Type*} [LinearOrder K'] {f : K → K'} {g : V → V'} {m' : OrdMap K' V'}

/-- **The same map under other keys and in another form.** -/
structure Rekeyed (f : K → K') (g : V → V') (m' : OrdMap K' V') (m : OrdMap K V) : Prop where
  get?_eq : ∀ k, m'.get? (f k) = (m.get? k).map g
  key : ∀ {k' v'}, m'.get? k' = some v' → ∃ k, f k = k'

namespace Rekeyed

theorem empty : Rekeyed f g (∅ : OrdMap K' V') (∅ : OrdMap K V) where
  get?_eq := fun _ => rfl
  key := fun h => by cases h

theorem insert (h : Rekeyed f g m' m) (hf : f.Injective) (k : K) (v : V) :
    Rekeyed f g (m'.insert (f k) (g v)) (m.insert k v) where
  get?_eq := by
    intro k'
    simp only [get?_insert, hf.eq_iff]
    split
    · rfl
    · exact h.get?_eq k'
  key := by
    intro k' v' hk
    rcases get?_insert_eq_some.mp hk with ⟨rfl, -⟩ | ⟨-, hk⟩
    · exact ⟨k, rfl⟩
    · exact h.key hk

theorem erase (h : Rekeyed f g m' m) (hf : f.Injective) (k : K) :
    Rekeyed f g (m'.erase (f k)) (m.erase k) where
  get?_eq := by
    intro k'
    simp only [get?_erase, hf.eq_iff]
    split
    · rfl
    · exact h.get?_eq k'
  key := by
    intro k' v' hk
    exact h.key (get?_erase_eq_some.mp hk).2

/-- The entries are the same, up to their order. -/
theorem entries_perm (h : Rekeyed f g m' m) (hf : f.Injective) :
    m'.entries.Perm (m.entries.map fun e => (f e.1, g e.2)) := by
  have hnodup : (m.entries.map fun e => (f e.1, g e.2)).Nodup := by
    refine List.Nodup.of_map Prod.fst ?_
    have hkeys : (m.entries.map fun e => (f e.1, g e.2)).map Prod.fst = m.keys.map f := by
      simp [keys, Function.comp_def]
    rw [hkeys]
    exact m.keys_nodup.map hf
  refine (List.perm_ext_iff_of_nodup m'.entries_nodup hnodup).mpr fun e => ?_
  rw [List.mem_map]
  constructor
  · intro he
    have hget := get?_eq_some.mpr he
    obtain ⟨k, hk⟩ := h.key hget
    rw [← hk, h.get?_eq, Option.map_eq_some_iff] at hget
    obtain ⟨v, hv, hgv⟩ := hget
    exact ⟨(k, v), get?_eq_some.mp hv, Prod.ext hk hgv⟩
  · rintro ⟨⟨k, v⟩, hkv, rfl⟩
    refine get?_eq_some.mp ?_
    rw [h.get?_eq, get?_eq_some.mpr hkv]
    rfl

end Rekeyed

end Rekeyed

end OrdMap

end InferQos
