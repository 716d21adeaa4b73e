import Mathlib.Data.List.Basic
import Mathlib.Logic.Function.Basic
/-!
# Deliveries that are settled by a token

A broker keeps every message until it is told, with a token it issued for a
delivery of that message, that the message is settled. Consumers keep the
tokens in tables, under a key they read off the message. `Moves` are the
steps such a system can take: messages may be delivered any number of times,
a delivery may get lost, a token may be replaced by a later one, a consumer
may be restarted, and the broker may act on an acknowledgement at any time,
or never. `Sound.fate` is what holds whatever happens: **a message that is
gone was handed to a consumer, which acknowledged it under its key.**
-/

namespace InferQos

namespace PeekLock

/-- **The books of a broker**: the messages it has stored, by their number,
those it has removed, the tokens it has issued, the deliveries that reached
a consumer, and the acknowledgements on their way. -/
structure Book (C K A B J : Type*) where
  published : List B
  removed : List ℕ
  issued : List (A × ℕ)
  handed : List (C × J × ℕ)
  asked : List (C × K × A)

variable {C K A B J : Type*}

namespace Book

/-- Nothing was stored yet. -/
def empty : Book C K A B J := ⟨[], [], [], [], []⟩

variable (d : Book C K A B J)

/-- A token stands for one message. -/
def Identifies (a : A) (m : ℕ) : Prop := ∀ m', (a, m') ∈ d.issued → m' = m

/-- The token was handed to the consumer with a message of this key. -/
def Vouched (key : J → K) (c : C) (k : K) (a : A) : Prop :=
  ∃ j m, (a, m) ∈ d.issued ∧ (c, j, m) ∈ d.handed ∧ key j = k

end Book

variable [DecidableEq C] [DecidableEq K] {reads : B → J → Prop} {key : J → K}
variable {t t' : C → K → Option A} {d d' : Book C K A B J}

/-- **One step** of the tables and the books. -/
inductive Moves (reads : B → J → Prop) (key : J → K) (t : C → K → Option A)
    (d : Book C K A B J) : (C → K → Option A) → Book C K A B J → Prop
  | idle : Moves reads key t d t d
  | publish (b : B) : Moves reads key t d t { d with published := d.published ++ [b] }
  /-- A delivery that comes to nothing. -/
  | issue {a : A} {m : ℕ} : d.Identifies a m →
      Moves reads key t d t { d with issued := (a, m) :: d.issued }
  /-- A delivery that a consumer reads. -/
  | hand {c : C} {a : A} {m : ℕ} {b : B} {j : J} : d.Identifies a m →
      d.published[m]? = some b → reads b j →
      Moves reads key t d (Function.update t c (Function.update (t c) (key j) (some a)))
        { d with issued := (a, m) :: d.issued, handed := (c, j, m) :: d.handed }
  /-- A consumer acknowledges what it holds under a key. -/
  | ask {c : C} {k : K} {a : A} : t c k = some a →
      Moves reads key t d (Function.update t c (Function.update (t c) k none))
        { d with asked := (c, k, a) :: d.asked }
  /-- The broker acts on an acknowledgement. -/
  | remove {c : C} {k : K} {a : A} {m : ℕ} : (c, k, a) ∈ d.asked → (a, m) ∈ d.issued →
      Moves reads key t d t { d with removed := m :: d.removed }
  /-- A consumer starts again, with an empty table. -/
  | restart (c : C) : Moves reads key t d (Function.update t c fun _ => none) d

/-- **The books are in order.** -/
structure Sound (reads : B → J → Prop) (key : J → K) (t : C → K → Option A)
    (d : Book C K A B J) : Prop where
  identifies : ∀ {a m}, (a, m) ∈ d.issued → d.Identifies a m
  handed : ∀ {c j m}, (c, j, m) ∈ d.handed → ∃ b, d.published[m]? = some b ∧ reads b j
  held : ∀ {c k a}, t c k = some a → d.Vouched key c k a
  asked : ∀ {c k a}, (c, k, a) ∈ d.asked → d.Vouched key c k a
  removed : ∀ {m}, m ∈ d.removed → ∃ c k a, (c, k, a) ∈ d.asked ∧ (a, m) ∈ d.issued

omit [DecidableEq C] [DecidableEq K] in
theorem Sound.start (h : ∀ c k, t c k = none) :
    Sound reads key t (Book.empty : Book C K A B J) where
  identifies h := by cases h
  handed h := by cases h
  held {c k a} hk := by
    rw [h] at hk
    cases hk
  asked h := by cases h
  removed h := by cases h

omit [DecidableEq C] [DecidableEq K] in
/-- A token for a message that is known by it already is as good as any. -/
theorem Book.Identifies.cons {a : A} {m : ℕ} (hone : d.Identifies a m)
    (h : ∀ {a m}, (a, m) ∈ d.issued → d.Identifies a m) {a' : A} {m' : ℕ}
    (hmem : (a', m') ∈ (a, m) :: d.issued) (d' : Book C K A B J)
    (hissued : d'.issued = (a, m) :: d.issued) : d'.Identifies a' m' := by
  intro m'' hm''
  rw [hissued] at hm''
  rcases List.mem_cons.mp hmem with heq | hmem <;> rcases List.mem_cons.mp hm'' with heq' | hm''
  · cases heq
    cases heq'
    rfl
  · cases heq
    exact hone m'' hm''
  · cases heq'
    exact (hone m' hmem).symm
  · exact h hmem m'' hm''

/-- **Every step keeps the books in order.** -/
theorem Sound.step (h : Sound reads key t d) (hs : Moves reads key t d t' d') :
    Sound reads key t' d' := by
  cases hs with
  | idle => exact h
  | publish b =>
    refine ⟨h.identifies, fun hm => ?_, h.held, h.asked, h.removed⟩
    obtain ⟨b', hb', hreads⟩ := h.handed hm
    exact ⟨b', by rw [List.getElem?_append_left (List.getElem?_eq_some_iff.mp hb').1, hb'], hreads⟩
  | @issue a m hone =>
    have hvouched : ∀ {c k a'}, d.Vouched key c k a' →
        ({ d with issued := (a, m) :: d.issued } : Book C K A B J).Vouched key c k a' :=
      fun ⟨j, m', hm', hj⟩ => ⟨j, m', List.mem_cons_of_mem _ hm', hj⟩
    refine ⟨fun hmem => hone.cons h.identifies hmem _ rfl, h.handed, fun hk => hvouched (h.held hk),
      fun hk => hvouched (h.asked hk), fun hm => ?_⟩
    obtain ⟨c, k, a', hasked, hissued⟩ := h.removed hm
    exact ⟨c, k, a', hasked, List.mem_cons_of_mem _ hissued⟩
  | @hand c a m b j hone hb hreads =>
    set e : Book C K A B J :=
      { d with issued := (a, m) :: d.issued, handed := (c, j, m) :: d.handed } with he
    have hvouched : ∀ {c k a'}, d.Vouched key c k a' → e.Vouched key c k a' :=
      fun ⟨j', m', hm', hj', hkey⟩ =>
        ⟨j', m', List.mem_cons_of_mem _ hm', List.mem_cons_of_mem _ hj', hkey⟩
    refine ⟨fun hmem => hone.cons h.identifies hmem e rfl, fun hm => ?_, fun {c' k' a'} hk => ?_,
      fun hk => hvouched (h.asked hk), fun hm => ?_⟩
    · rcases List.mem_cons.mp hm with heq | hm
      · cases heq
        exact ⟨b, hb, hreads⟩
      · exact h.handed hm
    · -- the entry just made, or an older one
      by_cases hc : c' = c
      · subst hc
        rw [Function.update_self] at hk
        by_cases hkey : k' = key j
        · subst hkey
          rw [Function.update_self] at hk
          cases hk
          exact ⟨j, m, List.mem_cons_self, List.mem_cons_self, rfl⟩
        · rw [Function.update_of_ne hkey] at hk
          exact hvouched (h.held hk)
      · rw [Function.update_of_ne hc] at hk
        exact hvouched (h.held hk)
    · obtain ⟨c', k', a', hasked, hissued⟩ := h.removed hm
      exact ⟨c', k', a', hasked, List.mem_cons_of_mem _ hissued⟩
  | @ask c k a hk =>
    refine ⟨h.identifies, h.handed, fun {c' k' a'} hk' => ?_, fun hmem => ?_, fun hm => ?_⟩
    · by_cases hc : c' = c
      · subst hc
        rw [Function.update_self] at hk'
        by_cases hkey : k' = k
        · rw [hkey, Function.update_self] at hk'
          cases hk'
        · rw [Function.update_of_ne hkey] at hk'
          exact h.held hk'
      · rw [Function.update_of_ne hc] at hk'
        exact h.held hk'
    · rcases List.mem_cons.mp hmem with heq | hmem
      · cases heq
        exact h.held hk
      · exact h.asked hmem
    · obtain ⟨c', k', a', hasked, hissued⟩ := h.removed hm
      exact ⟨c', k', a', List.mem_cons_of_mem _ hasked, hissued⟩
  | @remove c k a m hasked hissued =>
    refine ⟨h.identifies, h.handed, h.held, h.asked, fun hm => ?_⟩
    rcases List.mem_cons.mp hm with rfl | hm
    · exact ⟨c, k, a, hasked, hissued⟩
    · exact h.removed hm
  | restart c =>
    refine ⟨h.identifies, h.handed, fun {c' k' a'} hk => ?_, h.asked, h.removed⟩
    by_cases hc : c' = c
    · rw [hc, Function.update_self] at hk
      cases hk
    · rw [Function.update_of_ne hc] at hk
      exact h.held hk

omit [DecidableEq C] [DecidableEq K] in
/-- **What is gone was handed over and acknowledged** by the consumer it was
handed to, under its own key. -/
theorem Sound.fate (h : Sound reads key t d) {m : ℕ} (hm : m ∈ d.removed) :
    ∃ c j a b, d.published[m]? = some b ∧ reads b j ∧ (c, j, m) ∈ d.handed ∧
      (c, key j, a) ∈ d.asked ∧ (a, m) ∈ d.issued := by
  obtain ⟨c, k, a, hasked, hissued⟩ := h.removed hm
  obtain ⟨j, m', hissued', hhanded, rfl⟩ := h.asked hasked
  obtain rfl := h.identifies hissued m' hissued'
  obtain ⟨b, hb, hreads⟩ := h.handed hhanded
  exact ⟨c, j, a, b, hb, hreads, hhanded, hasked, hissued⟩

end PeekLock

end InferQos
