import InferQos.Common.Trace
import Mathlib.Data.Set.Insert
/-!
# Settlement tables

A consumer keeps what it needs to settle a delivery in a table: receiving
puts an entry in, and acknowledging takes it out and makes a remote call
with it (`Moves`). An acknowledgement that fails should leave its delivery
owed, and only a delivery that is not owed should be unknown
(`Retriable`). **A table that lets go of the entry before the call keeps
that law along a run exactly if no acknowledgement of an entry it holds
fails** (`retriable_along_iff`).
-/

namespace InferQos

namespace Settlement

/-- What a call on a settlement table comes to. -/
inductive Answer (K E : Type*)
  | idle
  | received (k : K)
  | acknowledged (k : K) (result : Except E Unit)

variable {K A E Q C : Type*} [DecidableEq K]

/-- **What one call may do to the table**, where it is given with the key
it acknowledges and the remote call it makes: the entry is taken out
however the remote call ends. -/
inductive Moves (unknown : K → E) (t : K → Option A) :
    Option (K × (A → Except E Unit)) → Answer K E → (K → Option A) → Prop
  | idle : Moves unknown t none .idle t
  | received (k : K) (a : A) : Moves unknown t none (.received k) (Function.update t k (some a))
  | unknown {k : K} (h : t k = none) (remote : A → Except E Unit) :
      Moves unknown t (some (k, remote)) (.acknowledged k (.error (unknown k))) t
  | taken {k : K} {a : A} (h : t k = some a) (remote : A → Except E Unit) :
      Moves unknown t (some (k, remote)) (.acknowledged k (remote a)) (Function.update t k none)

/-- The deliveries owed after a call: received, and since then not
acknowledged with success. -/
def Answer.owe (owed : Set K) : Answer K E → Set K
  | .idle => owed
  | .received k => insert k owed
  | .acknowledged k (.ok ()) => owed \ {k}
  | .acknowledged _ (.error _) => owed

/-- **The law of retries** for one call, from table `t` to `t'`: after an
error the entry is still there, except where the delivery is unknown; and
unknown is exactly what is not owed. -/
def Answer.Retriable (unknown : K → E) (owed : Set K) (t t' : K → Option A) : Answer K E → Prop
  | .acknowledged k result =>
    (∀ e, result = .error e → (∀ k', e ≠ unknown k') → ∃ a, t k = some a ∧ t' k = some a) ∧
      ((∃ k', result = .error (unknown k')) ↔ k ∉ owed)
  | _ => True

/-- **A queue with a settlement table.** -/
structure Settling (Q C K A E : Type*) [DecidableEq K] where
  table : Q → K → Option A
  unknown : K → E
  step : Q → C → Answer K E × Q
  /-- The key a call acknowledges, and the remote call it makes. -/
  remote : Q → C → Option (K × (A → Except E Unit))
  moves : ∀ q c, Moves unknown (table q) (remote q c) (step q c).1 (table (step q c).2)

/-- The table holds what is owed. -/
def Agrees (owed : Set K) (t : K → Option A) : Prop := ∀ k, k ∈ owed ↔ (t k).isSome

/-- A call that does not fail on an entry of the table. -/
def Succeeds (t : K → Option A) (call : Option (K × (A → Except E Unit))) : Prop :=
  ∀ k remote a, call = some (k, remote) → t k = some a → remote a = .ok ()

namespace Moves

variable {unknown : K → E} {t t' : K → Option A} {call : Option (K × (A → Except E Unit))}
variable {answer : Answer K E} {owed : Set K}

/-- Where the table holds what is owed, a call keeps the law exactly if it
does not fail on an entry. -/
theorem retriable_iff (h : Moves unknown t call answer t') (hagrees : Agrees owed t) :
    answer.Retriable unknown owed t t' ↔ Succeeds t call := by
  cases h with
  | idle => exact ⟨fun _ _ _ _ h => (nomatch h), fun _ => trivial⟩
  | received k a => exact ⟨fun _ _ _ _ h => (nomatch h), fun _ => trivial⟩
  | @unknown k hnone remote =>
    have hnot : k ∉ owed := by
      rw [hagrees k, hnone]
      exact Bool.false_ne_true
    constructor
    · rintro - _ _ a ⟨⟩ hheld
      rw [hnone] at hheld
      exact nomatch hheld
    · intro _
      refine ⟨fun e he hne => ?_, fun _ => hnot, fun _ => ⟨k, rfl⟩⟩
      exact absurd (Except.error.inj he).symm (hne k)
  | @taken k a hheld remote =>
    have howed : k ∈ owed := by
      rw [hagrees k, hheld]
      rfl
    constructor
    · rintro ⟨hkept, hunknown⟩ _ _ b ⟨⟩ hb
      obtain rfl : a = b := Option.some.inj (hheld.symm.trans hb)
      cases hresult : remote a with
      | ok _ => rfl
      | error e =>
        -- the entry is gone, so the error would have to say it is unknown
        by_cases hne : ∀ k', e ≠ unknown k'
        · obtain ⟨b, -, hb⟩ := hkept e hresult hne
          rw [Function.update_self] at hb
          exact nomatch hb
        · rw [not_forall] at hne
          obtain ⟨k', hk'⟩ := hne
          rw [not_not] at hk'
          rw [hk'] at hresult
          exact absurd howed (hunknown.mp ⟨k', hresult⟩)
    · intro hok
      have hresult := hok k remote a rfl hheld
      refine ⟨fun e he => ?_, ?_, fun hnot => absurd howed hnot⟩
      · rw [hresult] at he
        exact nomatch he
      · rintro ⟨k', hk'⟩
        rw [hresult] at hk'
        exact nomatch hk'

/-- A call that does not fail on an entry leaves the table holding what is
owed. -/
theorem agrees (h : Moves unknown t call answer t') (hagrees : Agrees owed t)
    (hok : Succeeds t call) : Agrees (answer.owe owed) t' := by
  intro k'
  cases h with
  | idle => exact hagrees k'
  | received k a =>
    simp only [Answer.owe, Set.mem_insert_iff]
    by_cases hk : k' = k
    · subst hk
      simp
    · rw [Function.update_of_ne hk, ← hagrees k']
      simp [hk]
  | unknown hnone => exact hagrees k'
  | @taken k a hheld remote =>
    rw [hok k remote a rfl hheld]
    simp only [Answer.owe, Set.mem_sdiff, Set.mem_singleton_iff]
    by_cases hk : k' = k
    · subst hk
      simp
    · rw [Function.update_of_ne hk, ← hagrees k']
      simp [hk]

end Moves

namespace Settling

variable (M : Settling Q C K A E)

/-- The queue, and the deliveries owed. -/
def track (s : Q × Set K) (c : C) : Q × Set K := ((M.step s.1 c).2, (M.step s.1 c).1.owe s.2)

/-- The deliveries a table holds. -/
def held (q : Q) : Set K := { k | (M.table q k).isSome }

/-- A run of calls, from a queue that owes what it holds. -/
def run (q : Q) (calls : List C) : Q × Set K := calls.foldl M.track (q, M.held q)

/-- The law of retries at every call of a run. -/
def RetriableAlong (q : Q) (calls : List C) : Prop :=
  ∀ pre c, pre ++ [c] <+: calls →
    (M.step (M.run q pre).1 c).1.Retriable M.unknown (M.run q pre).2 (M.table (M.run q pre).1)
      (M.table (M.step (M.run q pre).1 c).2)

/-- No acknowledgement of an entry that is held fails. -/
def NoneFails (q : Q) (calls : List C) : Prop :=
  ∀ pre c, pre ++ [c] <+: calls →
    Succeeds (M.table (M.run q pre).1) (M.remote (M.run q pre).1 c)

theorem run_snoc (q : Q) (pre : List C) (c : C) :
    M.run q (pre ++ [c]) = M.track (M.run q pre) c := by
  unfold run
  rw [List.foldl_append]
  rfl

/-- The table holds what is owed, as long as each call succeeds for which
it did. -/
theorem agrees_run {q : Q} {calls : List C}
    (h : ∀ pre c, pre ++ [c] <+: calls → Agrees (M.run q pre).2 (M.table (M.run q pre).1) →
      Succeeds (M.table (M.run q pre).1) (M.remote (M.run q pre).1 c)) :
    Agrees (M.run q calls).2 (M.table (M.run q calls).1) := by
  refine prefix_induction (P := fun pre => Agrees (M.run q pre).2 (M.table (M.run q pre).1))
    h (fun k => Iff.rfl) ?_
  intro pre c hagrees hok
  rw [run_snoc]
  exact (M.moves (M.run q pre).1 c).agrees hagrees (hok hagrees)

/-- **The law of retries along a run.** -/
theorem retriable_along_iff (q : Q) (calls : List C) :
    M.RetriableAlong q calls ↔ M.NoneFails q calls := by
  -- up to each call the table holds what is owed, from either side
  have hcall : ∀ pre c, Agrees (M.run q pre).2 (M.table (M.run q pre).1) → _ :=
    fun pre c => (M.moves (M.run q pre).1 c).retriable_iff
  constructor
  · intro h pre c hpre
    refine (hcall pre c (M.agrees_run fun pre' c' hpre' hagrees => ?_)).mp (h pre c hpre)
    exact (hcall pre' c' hagrees).mp
      (h pre' c' (hpre'.trans ((List.prefix_append pre [c]).trans hpre)))
  · intro h pre c hpre
    refine (hcall pre c (M.agrees_run fun pre' c' hpre' _ => ?_)).mpr (h pre c hpre)
    exact h pre' c' (hpre'.trans ((List.prefix_append pre [c]).trans hpre))

end Settling

end Settlement

end InferQos
