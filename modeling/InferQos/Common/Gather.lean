import Mathlib.Data.List.Dedup
import Mathlib.Data.List.Induction
import InferQos.Common.OrdMap
/-!
# Maps gathered from a list

A loop over pairs that updates a map at the key of each, from a default
where the key is new: the map of sums, of counts or of lists a program
collects. What stands at a key in the end is the fold over the values of
that key (`get?_gather`), so the order of the list matters to a key as far
as it matters to the fold over its own values.
-/

namespace InferQos

namespace OrdMap

variable {K V W : Type*} [LinearOrder K]

/-- `*map.entry(key).or_insert(init) = f(.., value)`, for every pair. -/
def gather (f : W → V → W) (init : W) (es : List (K × V)) : OrdMap K W :=
  es.foldl (fun m e => m.insert e.1 (f ((m.get? e.1).getD init) e.2)) ∅

/-- The values of one key, in their order. -/
def valuesAt (k : K) (es : List (K × V)) : List V := (es.filter fun e => e.1 = k).map Prod.snd

variable {f : W → V → W} {init : W} {es es' : List (K × V)} {k : K}

theorem valuesAt_append (k : K) (es es' : List (K × V)) :
    valuesAt k (es ++ es') = valuesAt k es ++ valuesAt k es' := by
  simp [valuesAt]

theorem valuesAt_perm (h : es.Perm es') (k : K) : (valuesAt k es).Perm (valuesAt k es') :=
  (h.filter _).map _

theorem valuesAt_eq_nil : valuesAt k es = [] ↔ k ∉ es.map Prod.fst := by
  simp only [valuesAt, List.map_eq_nil_iff, List.filter_eq_nil_iff, decide_eq_true_eq,
    List.mem_map, not_exists, not_and]

/-- What a key holds that occurs, and the default for one that does not. -/
theorem getD_fold (xs : List V) :
    (if xs = [] then none else some (xs.foldl f init)).getD init = xs.foldl f init := by
  cases xs with
  | nil => rfl
  | cons x xs => rfl

/-- **What a gathered map holds**: for every key that occurs, the fold over
its values. -/
theorem get?_gather (f : W → V → W) (init : W) (es : List (K × V)) (k : K) :
    (gather f init es).get? k =
      if valuesAt k es = [] then none else some ((valuesAt k es).foldl f init) := by
  induction es using List.reverseRecOn with
  | nil => rfl
  | append_singleton es e ih =>
    have hsnoc : gather f init (es ++ [e]) = (gather f init es).insert e.1
        (f (((gather f init es).get? e.1).getD init) e.2) := by
      simp [gather]
    rw [hsnoc, get?_insert, valuesAt_append]
    by_cases hk : k = e.1
    · subst hk
      have hlast : valuesAt e.1 [e] = [e.2] := by simp [valuesAt]
      rw [if_pos rfl, hlast, ih, getD_fold, if_neg (by simp), List.foldl_append]
      rfl
    · have hlast : valuesAt k [e] = [] := by simp [valuesAt, Ne.symm hk]
      rw [if_neg hk, hlast, List.append_nil, ih]

/-- The same, with the default for a key that does not occur. -/
theorem getD_gather (f : W → V → W) (init : W) (es : List (K × V)) (k : K) :
    ((gather f init es).get? k).getD init = (valuesAt k es).foldl f init := by
  rw [get?_gather, getD_fold]

/-- **Gathered maps are equal** if they have the same keys and the values
of each come to the same. -/
theorem gather_congr (hkeys : ∀ k, k ∈ es.map Prod.fst ↔ k ∈ es'.map Prod.fst)
    (h : ∀ k, (valuesAt k es).foldl f init = (valuesAt k es').foldl f init) :
    gather f init es = gather f init es' := by
  refine ext_get? fun k => ?_
  rw [get?_gather, get?_gather, h k]
  simp only [valuesAt_eq_nil, hkeys k]

/-- **The order of the list does not matter** if the fold does not see
it. -/
theorem gather_perm [RightCommutative f] (h : es.Perm es') :
    gather f init es = gather f init es' :=
  gather_congr (fun _ => (h.map _).mem_iff) fun k => (valuesAt_perm h k).foldl_eq init

theorem mem_keys_gather : k ∈ (gather f init es).keys ↔ k ∈ es.map Prod.fst := by
  rw [keys, List.mem_map]
  constructor
  · rintro ⟨e, he, rfl⟩
    have hget := get?_eq_some.mpr he
    rw [get?_gather] at hget
    by_contra hnot
    rw [if_pos (valuesAt_eq_nil.mpr hnot)] at hget
    cases hget
  · intro hk
    have hget := get?_gather f init es k
    rw [if_neg fun hnil => valuesAt_eq_nil.mp hnil hk] at hget
    exact ⟨_, get?_eq_some.mp hget, rfl⟩

/-- A gathered map has an entry for every key that occurs. -/
theorem length_gather : (gather f init es).entries.length = (es.map Prod.fst).dedup.length := by
  have hperm : (gather f init es).keys.Perm (es.map Prod.fst).dedup :=
    (List.perm_ext_iff_of_nodup (keys_nodup _) (List.nodup_dedup _)).mpr fun k => by
      rw [mem_keys_gather, List.mem_dedup]
  rw [← hperm.length_eq, keys, List.length_map]

/-- **Gathering loses nothing** that each value adds to what its key
holds. -/
theorem sumOn_gather {M : Type*} [AddCommMonoid M] (size : W → M) (share : V → M)
    (hinit : size init = 0) (hf : ∀ w v, size (f w v) = size w + share v) (es : List (K × V)) :
    ((gather f init es).sumOn fun _ w => size w) = (es.map fun e => share e.2).sum := by
  induction es using List.reverseRecOn with
  | nil => rfl
  | append_singleton es e ih =>
    have hsnoc : gather f init (es ++ [e]) = (gather f init es).insert e.1
        (f (((gather f init es).get? e.1).getD init) e.2) := by
      simp [gather]
    rw [hsnoc, List.map_append, List.sum_append, ← ih, List.map_singleton, List.sum_singleton]
    cases hget : (gather f init es).get? e.1 with
    | none =>
      rw [sumOn_insert_of_none hget, Option.getD_none, hf, hinit, zero_add, add_comm]
    | some w =>
      rw [sumOn_insert, sumOn_eq_add_erase hget, Option.getD_some, hf, add_right_comm]

/-- **A map of sums loses nothing**: its values sum to those of the list. -/
theorem sum_values_gather {M : Type*} [AddCommMonoid M] (es : List (K × M)) :
    (gather (· + ·) 0 es).values.sum = (es.map Prod.snd).sum :=
  sumOn_gather id id rfl (fun _ _ => rfl) es

/-! ## Maps of lists -/

/-- The values of every key that occurs, in their order. -/
abbrev collect (es : List (K × V)) : OrdMap K (List V) :=
  gather (fun values value => values ++ [value]) [] es

theorem get?_collect (es : List (K × V)) (k : K) :
    (collect es).get? k = if valuesAt k es = [] then none else some (valuesAt k es) := by
  rw [get?_gather, List.foldl_append_eq_append, List.nil_append, ← List.flatMap_def,
    List.flatMap_singleton']

/-- **Each value is collected once.** -/
theorem sumOn_length_collect (es : List (K × V)) :
    ((collect es).sumOn fun _ values => values.length) = es.length := by
  have hsum : ((collect es).sumOn fun _ values => values.length) = (es.map fun _ => 1).sum :=
    sumOn_gather List.length (fun _ => 1) rfl (fun values value => List.length_append) es
  rw [hsum]
  simp

/-- Rewrite every value in place, the key in view. -/
def mapWithKey (m : OrdMap K V) (g : K → V → W) : OrdMap K W where
  entries := m.entries.map fun e => (e.1, g e.1 e.2)
  sorted := by
    rw [List.pairwise_map]
    exact m.sorted

theorem keys_mapWithKey (m : OrdMap K V) (g : K → V → W) : (m.mapWithKey g).keys = m.keys := by
  unfold keys mapWithKey
  rw [List.map_map]
  rfl

theorem sumOn_mapWithKey {M : Type*} [AddCommMonoid M] (m : OrdMap K V) (g : K → V → W)
    (size : K → W → M) :
    (m.mapWithKey g).sumOn size = m.sumOn fun k v => size k (g k v) := by
  unfold sumOn mapWithKey
  rw [List.map_map]
  rfl

theorem get?_mapWithKey {m : OrdMap K V} {g : K → V → W} :
    (m.mapWithKey g).get? k = (m.get? k).map (g k) := by
  cases hm : m.get? k with
  | none =>
    refine get?_eq_none.mpr fun w hw => ?_
    obtain ⟨e, he, heq⟩ := List.mem_map.mp hw
    cases heq
    exact get?_eq_none.mp hm e.2 he
  | some v =>
    exact get?_eq_some.mpr (List.mem_map.mpr ⟨(k, v), get?_eq_some.mp hm, rfl⟩)

/-- Nor does it if what is made of each value in the end does not see
it. -/
theorem gather_mapWithKey_perm {U : Type*} {g : K → W → U} (h : es.Perm es')
    (hg : ∀ k (xs ys : List V), xs.Perm ys → g k (xs.foldl f init) = g k (ys.foldl f init)) :
    (gather f init es).mapWithKey g = (gather f init es').mapWithKey g := by
  refine ext_get? fun k => ?_
  have hperm := valuesAt_perm h k
  have hkeys : valuesAt k es = [] ↔ valuesAt k es' = [] := by
    rw [valuesAt_eq_nil, valuesAt_eq_nil, (h.map _).mem_iff]
  rw [get?_mapWithKey, get?_mapWithKey, get?_gather, get?_gather]
  by_cases hnil : valuesAt k es = []
  · rw [if_pos hnil, if_pos (hkeys.mp hnil)]
  · rw [if_neg hnil, if_neg (mt hkeys.mpr hnil)]
    exact congrArg some (hg k _ _ hperm)

end OrdMap

end InferQos
