import Mathlib.Data.List.Nodup
/-!
# Multimaps with draining

`http::HeaderMap`: names in some order, each with its value and the further
values appended to it. Draining yields the name of an entry with its first
value, and **no name with the further ones** (`drain`): a loop that skips
the items without a name keeps the first value of each name
(`named_drain`).
-/

namespace InferQos

variable {K V : Type*} [DecidableEq K]

/-- The values under a name in some entries. -/
def valuesIn (entries : List (K × V × List V)) (k : K) : List V :=
  entries.flatMap fun e => if e.1 = k then e.2.1 :: e.2.2 else []

theorem valuesIn_cons (e : K × V × List V) (es : List (K × V × List V)) (k : K) :
    valuesIn (e :: es) k = (if e.1 = k then e.2.1 :: e.2.2 else []) ++ valuesIn es k :=
  List.flatMap_cons

theorem valuesIn_eq_nil {es : List (K × V × List V)} {k : K} (h : k ∉ es.map (·.1)) :
    valuesIn es k = [] := by
  unfold valuesIn
  rw [List.flatMap_eq_nil_iff]
  intro e he
  rw [if_neg]
  rintro rfl
  exact h (List.mem_map_of_mem he)

/-- **A map with several values under one name.** -/
structure MultiMap (K V : Type*) where
  entries : List (K × V × List V)
  nodup : (entries.map (·.1)).Nodup

namespace MultiMap

instance : EmptyCollection (MultiMap K V) := ⟨⟨[], List.nodup_nil⟩⟩

/-- `get_all`: the values under a name, in order. -/
def getAll (m : MultiMap K V) (k : K) : List V := valuesIn m.entries k

@[simp] theorem getAll_empty (k : K) : (∅ : MultiMap K V).getAll k = [] := rfl

/-- `get`: the first value under a name. -/
def get (m : MultiMap K V) (k : K) : Option V := (m.getAll k).head?

/-- `iter`: every value, each with its name. -/
def iter (m : MultiMap K V) : List (K × V) :=
  m.entries.flatMap fun e => (e.1, e.2.1) :: e.2.2.map fun v => (e.1, v)

/-- The entries with the one of `k` changed, and put last if there was
none. -/
def alterIn (k : K) (v : V) (f : V × List V → V × List V) :
    List (K × V × List V) → List (K × V × List V)
  | [] => [(k, v, [])]
  | e :: es => if e.1 = k then (k, f e.2) :: es else e :: alterIn k v f es

variable {k k' : K} {v : V} {f : V × List V → V × List V}

theorem map_alterIn (es : List (K × V × List V)) :
    (alterIn k v f es).map (·.1) =
      if k ∈ es.map (·.1) then es.map (·.1) else es.map (·.1) ++ [k] := by
  induction es with
  | nil => rfl
  | cons e es ih =>
    unfold alterIn
    by_cases he : e.1 = k
    · rw [if_pos he, if_pos (he ▸ List.mem_cons_self)]
      rw [List.map_cons, List.map_cons, he]
    · have hmem : k ∈ (e :: es).map (·.1) ↔ k ∈ es.map (·.1) := by
        rw [List.map_cons, List.mem_cons, or_iff_right (Ne.symm he)]
      rw [if_neg he, List.map_cons, ih]
      simp only [hmem]
      split_ifs
      · rfl
      · rfl

theorem nodup_alterIn {es : List (K × V × List V)} (h : (es.map (·.1)).Nodup) :
    ((alterIn k v f es).map (·.1)).Nodup := by
  rw [map_alterIn]
  split_ifs with hmem
  · exact h
  · exact List.nodup_append.mpr ⟨h, List.nodup_singleton k, by
      intro a ha b hb hab
      rw [List.mem_singleton.mp hb] at hab
      exact hmem (hab ▸ ha)⟩

/-- The values after a change: only the name changed differs. -/
theorem valuesIn_alterIn {es : List (K × V × List V)} (h : (es.map (·.1)).Nodup) :
    valuesIn (alterIn k v f es) k' =
      if k' = k then
        match valuesIn es k with
        | [] => [v]
        | first :: more => (f (first, more)).1 :: (f (first, more)).2
      else valuesIn es k' := by
  induction es with
  | nil =>
    rw [alterIn, valuesIn_cons]
    by_cases hk : k' = k
    · rw [if_pos hk, if_pos hk.symm]
      rfl
    · rw [if_neg hk, if_neg (Ne.symm hk)]
      rfl
  | cons e es ih =>
    obtain ⟨hnot, hrest⟩ := List.nodup_cons.mp h
    unfold alterIn
    by_cases he : e.1 = k
    · rw [if_pos he]
      have hnone : valuesIn es k = [] := valuesIn_eq_nil (he ▸ hnot)
      simp only [valuesIn_cons, he]
      by_cases hk : k' = k
      · subst hk
        simp only [if_true, hnone, List.append_nil]
      · simp only [if_neg hk, if_neg (Ne.symm hk), List.nil_append]
    · rw [if_neg he]
      simp only [valuesIn_cons, ih hrest]
      by_cases hk : k' = k
      · subst hk
        simp only [if_true, if_neg he, List.nil_append]
      · simp only [if_neg hk]

/-- `append`, which keeps the values a name has. -/
def append (m : MultiMap K V) (k : K) (v : V) : MultiMap K V where
  entries := alterIn k v (fun values => (values.1, values.2 ++ [v])) m.entries
  nodup := nodup_alterIn m.nodup

/-- `insert`, which replaces them. -/
def insert (m : MultiMap K V) (k : K) (v : V) : MultiMap K V where
  entries := alterIn k v (fun _ => (v, [])) m.entries
  nodup := nodup_alterIn m.nodup

theorem getAll_append (m : MultiMap K V) :
    (m.append k v).getAll k' = if k' = k then m.getAll k ++ [v] else m.getAll k' := by
  unfold getAll append
  rw [valuesIn_alterIn m.nodup]
  cases valuesIn m.entries k with
  | nil => rfl
  | cons first more => rfl

theorem getAll_insert (m : MultiMap K V) :
    (m.insert k v).getAll k' = if k' = k then [v] else m.getAll k' := by
  unfold getAll insert
  rw [valuesIn_alterIn m.nodup]
  cases valuesIn m.entries k with
  | nil => rfl
  | cons first more => rfl

/-! ## Draining -/

/-- What draining one entry yields. -/
def drainEntry (e : K × V × List V) : List (Option K × V) :=
  (some e.1, e.2.1) :: e.2.2.map fun v => (none, v)

/-- `drain`: **the name comes with the first value only**. -/
def drain (m : MultiMap K V) : List (Option K × V) := m.entries.flatMap drainEntry

/-- The values of the items that have this name. -/
def named (k : K) (items : List (Option K × V)) : List V :=
  items.filterMap fun item => if item.1 = some k then some item.2 else none

theorem named_append (k : K) (items items' : List (Option K × V)) :
    named k (items ++ items') = named k items ++ named k items' := List.filterMap_append

theorem named_drainEntry (k : K) (e : K × V × List V) :
    named k (drainEntry e) = if e.1 = k then [e.2.1] else [] := by
  unfold named drainEntry
  have hmore : (e.2.2.map fun v => ((none : Option K), v)).filterMap
      (fun item => if item.1 = some k then some item.2 else none) = [] := by
    simp
  rw [List.filterMap_cons]
  by_cases h : e.1 = k
  · simp only [h, if_true, hmore]
  · simp only [Option.some.injEq, h, if_false, hmore]

/-- **Draining names the first value of each name and no other.** -/
theorem named_drain (m : MultiMap K V) (k : K) :
    named k m.drain = (m.getAll k).head?.toList := by
  obtain ⟨es, hnodup⟩ := m
  unfold drain getAll
  induction es with
  | nil => rfl
  | cons e es ih =>
    obtain ⟨hnot, hrest⟩ := List.nodup_cons.mp hnodup
    rw [List.flatMap_cons, named_append, named_drainEntry, ih hrest, valuesIn_cons]
    by_cases h : e.1 = k
    · rw [if_pos h, if_pos h, valuesIn_eq_nil (h ▸ hnot)]
      rfl
    · rw [if_neg h, if_neg h]
      rfl

end MultiMap

end InferQos
