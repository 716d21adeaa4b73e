import InferQos.Common.OrdMap
import Mathlib.Data.String.Basic
/-!
# Hashes that expire

The part of Redis a script over hashes sees: a hash under a key, with the
time it disappears at if one is set. Time is the server's, in milliseconds,
and stands still while a script runs. What an observer sees at a time `t`
is `hgetall t`, and each command is described by what it makes of
`hgetall t` for every later `t`; no statement below mentions a deadline.
-/

namespace InferQos

namespace Redis

/-- A hash, and the time it disappears at. -/
structure Hash where
  fields : OrdMap String String
  deadline : Option ℕ

/-- Hashes under their keys. One whose time has elapsed is still stored, and
no command sees it. -/
abbrev Store := OrdMap String Hash

/-! ## Commands -/

/-- The hash under a key whose time has not elapsed. -/
def live (now : ℕ) (s : Store) (key : String) : Option Hash :=
  (s.get? key).filter fun h => h.deadline.all (now < ·)

/-- `HGETALL`. -/
def hgetall (now : ℕ) (s : Store) (key : String) : OrdMap String String :=
  (live now s key).elim ∅ (·.fields)

/-- `HGET`. -/
def hget (now : ℕ) (s : Store) (key field : String) : Option String := (hgetall now s key).get? field

/-- `HSET` keeps the time of the hash. -/
def hset (now : ℕ) (s : Store) (key field value : String) : Store :=
  s.insert key ⟨(hgetall now s key).insert field value, (live now s key).bind (·.deadline)⟩

/-- `HDEL` removes a hash with its last field. -/
def hdel (now : ℕ) (s : Store) (key field : String) : Store :=
  match live now s key with
  | none => s
  | some h =>
    if (h.fields.erase field).entries = [] then s.erase key
    else s.insert key { h with fields := h.fields.erase field }

/-- `PEXPIRE` replaces the time of the hash. -/
def pexpire (now : ℕ) (s : Store) (key : String) (ms : ℕ) : Store :=
  match live now s key with
  | none => s
  | some h => s.insert key { h with deadline := some (now + ms) }

/-! ## What is seen later -/

variable {now t : ℕ} {s : Store} {key key' field value : String}

theorem hgetall_of_get? {s' : Store} (h : s'.get? key = s.get? key) :
    hgetall t s' key = hgetall t s key := by
  unfold hgetall live
  rw [h]

theorem live_eq_some {h : Hash} :
    live t s key = some h ↔ s.get? key = some h ∧ ∀ d ∈ h.deadline, t < d := by
  unfold live
  rw [Option.filter_eq_some_iff]
  cases h.deadline <;> simp

/-- A hash that is there later is there now. -/
theorem live_of_later {h : Hash} (hlive : live t s key = some h) (hle : now ≤ t) :
    live now s key = some h := by
  obtain ⟨hget, hdeadline⟩ := live_eq_some.mp hlive
  refine live_eq_some.mpr ⟨hget, fun d hd => ?_⟩
  have := hdeadline d hd
  omega

/-- **A hash stays as it is until it disappears.** -/
theorem hgetall_later (h : now ≤ t) :
    hgetall t s key = hgetall now s key ∨ hgetall t s key = ∅ := by
  unfold hgetall
  cases hlive : live t s key with
  | none => exact Or.inr rfl
  | some hash =>
    rw [live_of_later hlive h]
    exact Or.inl rfl

theorem hgetall_insert (h : Hash) :
    hgetall t (s.insert key h) key = if h.deadline.all (t < ·) then h.fields else ∅ := by
  unfold hgetall live
  rw [OrdMap.get?_insert_self, Option.filter_some]
  split <;> rfl

theorem hgetall_hdel_self (h : now ≤ t) :
    hgetall t (hdel now s key field) key = (hgetall t s key).erase field := by
  unfold hdel
  cases hnow : live now s key with
  | none =>
    -- gone now, gone later
    have hgone : hgetall t s key = ∅ := by
      unfold hgetall
      cases hlive : live t s key with
      | none => rfl
      | some hash =>
        rw [live_of_later hlive h] at hnow
        cases hnow
    rw [hgone]
    rfl
  | some hash =>
    have hget := (live_eq_some.mp hnow).1
    have hseen : hgetall t s key = if hash.deadline.all (t < ·) then hash.fields else ∅ := by
      unfold hgetall live
      rw [hget, Option.filter_some]
      split <;> rfl
    simp only
    rw [hseen]
    split
    · rename_i hempty
      have hlast : hash.fields.erase field = ∅ := OrdMap.ext hempty
      have hgone : hgetall t (s.erase key) key = ∅ := by
        unfold hgetall live
        rw [OrdMap.get?_erase_self]
        rfl
      rw [hgone]
      split
      · exact hlast.symm
      · rfl
    · rw [hgetall_insert]
      split
      · rfl
      · rfl

theorem hgetall_hdel_of_ne (h : key' ≠ key) :
    hgetall t (hdel now s key field) key' = hgetall t s key' := by
  refine hgetall_of_get? ?_
  unfold hdel
  split
  · rfl
  · split
    · exact OrdMap.get?_erase_of_ne h
    · exact OrdMap.get?_insert_of_ne h

/-- `HDEL` of several fields. -/
theorem get?_hgetall_foldl_hdel (fields : List String) (h : now ≤ t) :
    (hgetall t (fields.foldl (hdel now · key ·) s) key).get? field =
      if field ∈ fields then none else (hgetall t s key).get? field := by
  induction fields generalizing s with
  | nil => rfl
  | cons f fields ih =>
    rw [List.foldl_cons, ih, hgetall_hdel_self h, OrdMap.get?_erase]
    by_cases hf : field = f
    · simp [hf]
    · simp [hf]

/-- **A hash is written and its time replaced**: it is there until then. -/
theorem hgetall_hset_pexpire {ms : ℕ} :
    hgetall t (pexpire now (hset now s key field value) key ms) key =
      if t < now + ms then (hgetall now s key).insert field value else ∅ := by
  have hlive : live now (hset now s key field value) key =
      some ⟨(hgetall now s key).insert field value, (live now s key).bind (·.deadline)⟩ := by
    refine live_eq_some.mpr ⟨OrdMap.get?_insert_self, fun d hd => ?_⟩
    cases hold : live now s key with
    | none =>
      rw [hold] at hd
      cases hd
    | some hash =>
      rw [hold] at hd
      exact (live_eq_some.mp hold).2 d hd
  unfold pexpire
  rw [hlive]
  simp only
  rw [hgetall_insert]
  simp

theorem hgetall_hset_pexpire_of_ne {ms : ℕ} (h : key' ≠ key) :
    hgetall t (pexpire now (hset now s key field value) key ms) key' = hgetall t s key' := by
  refine hgetall_of_get? ?_
  unfold pexpire hset
  split
  · exact OrdMap.get?_insert_of_ne h
  · rw [OrdMap.get?_insert_of_ne h, OrdMap.get?_insert_of_ne h]

/-! ## What a field holds at any time -/

/-- What is stored in a field, whether the time of its hash has elapsed or
not. -/
def held (s : Store) (key field : String) : Option String :=
  (s.get? key).bind fun h => h.fields.get? field

theorem held_eq_some :
    held s key field = some value ↔ ∃ h, s.get? key = some h ∧ h.fields.get? field = some value :=
  Option.bind_eq_some_iff

/-- A field that is seen is stored. -/
theorem held_of_hget (h : hget t s key field = some value) : held s key field = some value := by
  unfold hget hgetall at h
  cases hlive : live t s key with
  | none =>
    rw [hlive] at h
    cases h
  | some hash =>
    rw [hlive] at h
    exact held_eq_some.mpr ⟨hash, (live_eq_some.mp hlive).1, h⟩

theorem held_congr {s' : Store} (h : s'.get? key = s.get? key) :
    held s' key field = held s key field := by
  unfold held
  rw [h]

/-- **`HDEL` writes nothing.** -/
theorem held_of_hdel {key' field' : String}
    (h : held (hdel now s key' field') key field = some value) : held s key field = some value := by
  by_cases hkey : key = key'
  · subst hkey
    unfold hdel at h
    split at h
    · exact h
    · rename_i hash hlive
      split at h
      · obtain ⟨hash', hget, -⟩ := held_eq_some.mp h
        rw [OrdMap.get?_erase_self] at hget
        cases hget
      · obtain ⟨hash', hget, hfield⟩ := held_eq_some.mp h
        rw [OrdMap.get?_insert_self] at hget
        cases hget
        exact held_eq_some.mpr ⟨hash, (live_eq_some.mp hlive).1,
          (OrdMap.get?_erase_eq_some.mp hfield).2⟩
  · rw [← h]
    refine (held_congr ?_).symm
    unfold hdel
    split
    · rfl
    · split
      · exact OrdMap.get?_erase_of_ne hkey
      · exact OrdMap.get?_insert_of_ne hkey

/-- **`HSET` writes one field.** -/
theorem held_of_hset {key' field' value' : String}
    (h : held (hset now s key' field' value') key field = some value) :
    (key = key' ∧ field = field' ∧ value = value') ∨ held s key field = some value := by
  by_cases hkey : key = key'
  · subst hkey
    obtain ⟨hash, hget, hfield⟩ := held_eq_some.mp h
    unfold hset at hget
    rw [OrdMap.get?_insert_self] at hget
    cases hget
    rcases OrdMap.get?_insert_eq_some.mp hfield with ⟨heq, hval⟩ | ⟨-, hold⟩
    · exact Or.inl ⟨rfl, heq, hval.symm⟩
    · exact Or.inr (held_of_hget hold)
  · right
    rw [← h]
    exact (held_congr (OrdMap.get?_insert_of_ne hkey)).symm

theorem held_hset_self : held (hset now s key field value) key field = some value :=
  held_eq_some.mpr ⟨_, OrdMap.get?_insert_self, OrdMap.get?_insert_self⟩

/-- **`PEXPIRE` writes no field.** -/
theorem held_pexpire {key' : String} {ms : ℕ} :
    held (pexpire now s key' ms) key field = held s key field := by
  unfold pexpire
  cases hlive : live now s key' with
  | none => rfl
  | some hash =>
    by_cases hkey : key = key'
    · subst hkey
      unfold held
      simp only [OrdMap.get?_insert_self, (live_eq_some.mp hlive).1, Option.bind_some]
    · exact held_congr (OrdMap.get?_insert_of_ne hkey)

end Redis

end InferQos
