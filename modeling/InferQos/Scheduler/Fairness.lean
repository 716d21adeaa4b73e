import InferQos.Scheduler.Rotation
import Mathlib.Algebra.Order.Field.Basic
import Mathlib.Tactic.Linarith
import Mathlib.Tactic.Ring
/-!
# Service under backlog

Two queues stay backlogged while `popNext` runs at one clock reading, and
their requests share an enqueue time and a deadline: what decides between
them is the service credit `weight * quantum / (served + quantum)`. The
charge of a pop is its work over the weight, and a renormalisation moves
both charges alike, so the difference of the charges follows the
difference of the weighted works. It stays bounded as long as the queue
with the greater credit is not far ahead in charge. Equal weights ensure
that; of unequal ones the heavier must not exceed the lighter by more than
`CloseWeights` allows for the charge the lighter queue can come to, since
the weight counts in the credit and in the charge.
-/

namespace InferQos

namespace Scheduler

variable {cfg : Config ℚ} {now : ℕ} {s s' t : Inner ℚ} {k k' k₁ k₂ : QueueKey}
variable {r : AdmissionRequest ℚ} {m : OrdMap QueueKey (QueueState ℚ)} {q q' : QueueState ℚ}

/-! ## The charge of a pop -/

/-- A renormalisation takes the same amount from every charge, and no more
than the least of them. -/
theorem renormalise_rat (cfg : Config ℚ) (m : OrdMap QueueKey (QueueState ℚ)) :
    ∃ δ, (∀ k, (renormalise cfg m).get? k =
        (m.get? k).map fun q => { q with served := q.served - δ }) ∧
      (0 ≤ cfg.quantum → 0 ≤ δ) ∧ (δ = 0 ∨ ∀ k q, m.get? k = some q → δ ≤ q.served) := by
  have hzero : ∃ δ : ℚ, (∀ k, m.get? k =
      (m.get? k).map fun q => { q with served := q.served - δ }) ∧
      (0 ≤ cfg.quantum → 0 ≤ δ) ∧ (δ = 0 ∨ ∀ k q, m.get? k = some q → δ ≤ q.served) := by
    refine ⟨0, fun k => ?_, fun _ => le_rfl, Or.inl rfl⟩
    cases m.get? k with
    | none => rfl
    | some q => simp
  unfold renormalise
  split
  · exact hzero
  · rename_i least hleast
    split
    · rename_i hlarge
      refine ⟨least, fun k => OrdMap.get?_mapVal, fun hquantum => ?_, Or.inr fun k q hq => ?_⟩
      · exact (mul_nonneg hquantum (by norm_num)).trans hlarge.le
      · have hmem : q.served ∈ m.values.map (·.served) :=
          List.mem_map_of_mem (OrdMap.mem_values.mpr ⟨k, hq⟩)
        exact (List.min?_eq_some_iff.mp hleast).2 _ hmem
    · exact hzero

/-- The queue `k` after a pop of `r` that lowers every charge by `δ`: the
queue served is charged the work of the request over its weight. -/
def chargedFor (r : AdmissionRequest ℚ) (δ : ℚ) (k : QueueKey) (q : QueueState ℚ) : QueueState ℚ :=
  if k = queueKey r then
    { q with
      items := q.items.tail
      served := q.served + max r.estimate.normalizedUnits 1 / max q.weight 1 - δ }
  else { q with served := q.served - δ }

/-- **What a pop does to the queues.** -/
theorem popNext_charge (hk : Keyed s) (h : popNext cfg now s = (.ok (some r), s')) :
    ∃ δ, (∀ k q', s'.queues.get? k = some q' →
        ∃ q, s.queues.get? k = some q ∧ q' = chargedFor r δ k q) ∧
      (0 ≤ cfg.quantum → 0 ≤ δ) ∧
      (δ = 0 ∨ ∀ k q', s'.queues.get? k = some q' → 0 ≤ q'.served) := by
  cases hsel : select cfg now s with
  | none => simp [popNext, hsel] at h
  | some k₀ =>
    obtain ⟨q₀, item, rest, hq₀, hitems⟩ := select_spec cfg now hsel
    simp only [popNext, hsel, hq₀, hitems, Prod.mk.injEq, Except.ok.injEq, Option.some.injEq] at h
    obtain ⟨rfl, rfl⟩ := h
    have hkey : queueKey item.request = k₀ :=
      hk.keyed k₀ item (by rw [itemsIn_of_get? hq₀, hitems]; exact List.mem_cons_self)
    obtain ⟨δ, hget, hnonneg, hδ⟩ := renormalise_rat cfg (s.queues.insert k₀
      { q₀ with
        items := rest
        served := q₀.served +
          max item.request.estimate.normalizedUnits (Arith.lit 1) / max q₀.weight (Arith.lit 1) })
    refine ⟨δ, fun k q' hq' => ?_, hnonneg, ?_⟩
    · have hq' := get?_of_dropEmpty hq'
      rw [hget, OrdMap.get?_insert] at hq'
      unfold chargedFor
      rw [hkey]
      split at hq'
      · rename_i hkk
        cases hq'
        refine ⟨q₀, hkk ▸ hq₀, ?_⟩
        rw [if_pos hkk, hitems]
        rfl
      · rename_i hkk
        obtain ⟨q, hq, rfl⟩ := Option.map_eq_some_iff.mp hq'
        exact ⟨q, hq, by rw [if_neg hkk]⟩
    · refine hδ.imp_right fun hle k q' hq' => ?_
      have hq' := get?_of_dropEmpty hq'
      rw [hget] at hq'
      obtain ⟨q, hq, rfl⟩ := Option.map_eq_some_iff.mp hq'
      exact sub_nonneg.mpr (hle k q hq)

theorem weight_chargedFor (r : AdmissionRequest ℚ) (δ : ℚ) (k : QueueKey) (q : QueueState ℚ) :
    (chargedFor r δ k q).weight = q.weight := by
  unfold chargedFor
  split
  · rfl
  · rfl

theorem served_chargedFor (r : AdmissionRequest ℚ) (δ : ℚ) (k : QueueKey) (q : QueueState ℚ) :
    (chargedFor r δ k q).served = q.served - δ +
      if k = queueKey r then max r.estimate.normalizedUnits 1 / max q.weight 1 else 0 := by
  unfold chargedFor
  split
  · exact add_sub_right_comm _ _ _
  · exact (add_zero _).symm

/-! ## Charges and weights along a run -/

/-- **No charge is negative and no weight is below one.** -/
def Charged (s : Inner ℚ) : Prop := ∀ k q, s.queues.get? k = some q → 0 ≤ q.served ∧ 1 ≤ q.weight

theorem one_le_hierarchyWeight (cw tw aw : ℕ) : 1 ≤ (hierarchyWeight cw tw aw : ℚ) := by
  have hone : ∀ n : ℕ, (1 : ℚ) ≤ ((max n 1 : ℕ) : ℚ) := fun n => by
    exact_mod_cast le_max_right n 1
  have h := one_le_mul_of_one_le_of_one_le (one_le_mul_of_one_le_of_one_le (hone cw) (hone tw))
    (hone aw)
  exact h

theorem Charged.enqueue (h : Charged s) (request : AdmissionRequest ℚ) (b cw tw aw : ℕ) :
    Charged (enqueue cfg now s request b cw tw aw).2 := by
  unfold Scheduler.enqueue
  split_ifs
  · exact h
  · exact h
  · exact h
  · intro k q hq
    rcases OrdMap.get?_insert_eq_some.mp hq with ⟨rfl, rfl⟩ | ⟨-, hq⟩
    · cases hget : s.queues.get? (queueKey request) with
      | none => exact ⟨le_rfl, one_le_hierarchyWeight cw tw aw⟩
      | some q => exact h _ q hget
    · exact h k q hq

theorem Charged.cancel (h : Charged s) (id : Uuid) : Charged (cancel s id).2 := by
  intro k q' hq'
  obtain ⟨q, hq, hserved, hweight⟩ := kept_of_cancel hq'
  rw [hserved, hweight]
  exact h k q hq

theorem Charged.popNext (hk : Keyed s) (h : Charged s) : Charged (popNext cfg now s).2 := by
  rcases popNext_spec cfg now hk.noEmpty with ⟨-, hs⟩ | ⟨k₀, item, rest, -, hres, -⟩
  · rw [hs]
    exact h
  · have hpop : Scheduler.popNext cfg now s =
        (.ok (some item.request), (Scheduler.popNext cfg now s).2) := Prod.ext hres rfl
    obtain ⟨δ, hget, -, hδ⟩ := popNext_charge hk hpop
    intro k q' hq'
    obtain ⟨q, hq, hcharge⟩ := hget k q' hq'
    obtain ⟨hnonneg, hone⟩ := h k q hq
    refine ⟨?_, by rw [hcharge, weight_chargedFor]; exact hone⟩
    rcases hδ with rfl | hδ
    · have hpos : 0 ≤ max item.request.estimate.normalizedUnits 1 / max q.weight 1 :=
        div_nonneg (le_trans zero_le_one (le_max_right _ _))
          (le_trans zero_le_one (le_max_right _ _))
      rw [hcharge, served_chargedFor]
      split
      · linarith
      · linarith
    · exact hδ k q' hq'

theorem exec_charged (cfg : Config ℚ) (calls : List (Call ℚ)) : Charged (exec cfg calls) := by
  induction calls using List.reverseRecOn with
  | nil => exact fun k q hq => by cases hq
  | append_singleton calls c ih =>
    rw [exec_snoc]
    obtain ⟨now, op⟩ := c
    cases op with
    | enqueue request b cw tw aw => exact ih.enqueue request b cw tw aw
    | cancel id => exact ih.cancel id
    | popNext => exact ih.popNext (exec_keyed cfg calls)

/-! ## Who is served -/

/-- **The queue served has the greatest score.** -/
theorem score_le_of_popNext {front' : Queued ℚ} (h : (popNext cfg now s).1 = .ok (some r))
    (hk : Keyed s) (hq' : s.queues.get? k' = some q') (hfront' : q'.items.head? = some front') :
    ∃ q front, s.queues.get? (queueKey r) = some q ∧ q.items.head? = some front ∧
      score cfg now q' front' ≤ score cfg now q front := by
  obtain ⟨c, item, hmax, hitem, rfl⟩ := maxBy_of_popNext h
  obtain ⟨q, front, hq, hfront, hc⟩ := exists_of_mem_candidates (maxBy_mem hmax)
  have hkey : queueKey item.request = c.1 := hk.keyed c.1 item (List.mem_of_mem_head? hitem)
  have hge := maxBy_ge hmax (mem_candidates cfg now hq' hfront')
  rw [hc] at hge
  refine ⟨q, front, hkey ▸ hq, hfront, ?_⟩
  by_contra hlt
  refine hge ?_
  have hgt : compare (score cfg now q' front') (score cfg now q front) = .gt :=
    compare_gt_iff_gt.mpr (not_le.mp hlt)
  change (compare (score cfg now q' front') (score cfg now q front)).then _ = .gt
  rw [hgt]
  rfl

/-! ## Two backlogged queues -/

/-- The requests of a queue share an enqueue time and a deadline, and cost
between one and `B`. -/
def Uniform (e d : ℕ) (B : ℚ) (s : Inner ℚ) (k : QueueKey) : Prop :=
  ∀ item ∈ itemsIn s.queues k, item.enqueuedNs = e ∧ item.deadlineNs = d ∧
    1 ≤ item.request.estimate.normalizedUnits ∧ item.request.estimate.normalizedUnits ≤ B

/-- A pop at this clock reading that leaves both queues something to
serve. -/
def PopsBacklogged (cfg : Config ℚ) (now : ℕ) (k₁ k₂ : QueueKey) (s : Inner ℚ)
    (r : AdmissionRequest ℚ) (s' : Inner ℚ) : Prop :=
  popNext cfg now s = (.ok (some r), s') ∧ itemsIn s'.queues k₁ ≠ [] ∧ itemsIn s'.queues k₂ ≠ []

/-- The work of the requests popped from a queue. -/
def work (k : QueueKey) (rs : List (AdmissionRequest ℚ)) : ℚ :=
  ((rs.filter (queueKey · = k)).map (·.estimate.normalizedUnits)).sum

instance (e d : ℕ) (B : ℚ) (s : Inner ℚ) (k : QueueKey) : Decidable (Uniform e d B s k) :=
  inferInstanceAs (Decidable (∀ item ∈ _, _))

/-- **The charge a queue comes to** once all that waits in it is served. -/
def reach (q : QueueState ℚ) : ℚ :=
  q.served + (q.items.map fun it => max it.request.estimate.normalizedUnits 1).sum / max q.weight 1

/-- **Weights close enough for the credits**: what the first weight exceeds
the second by, times the most that the charge of the second queue and the
quantum come to, is at most the second weight times the quantum. -/
def CloseWeights (cfg : Config ℚ) (q q' : QueueState ℚ) : Prop :=
  q'.weight < q.weight → (q.weight - q'.weight) * (reach q' + cfg.quantum) ≤ q'.weight * cfg.quantum

instance (cfg : Config ℚ) (q q' : QueueState ℚ) : Decidable (CloseWeights cfg q q') :=
  inferInstanceAs (Decidable (_ → _))

/-! ## What weights allow -/

theorem served_le_reach (q : QueueState ℚ) : q.served ≤ reach q := by
  refine le_add_of_nonneg_right (div_nonneg (List.sum_nonneg fun x hx => ?_) ?_)
  · obtain ⟨it, -, rfl⟩ := List.mem_map.mp hx
    exact zero_le_one.trans (le_max_right _ _)
  · exact zero_le_one.trans (le_max_right _ _)

/-- **A pop takes what a queue comes to down by what it lowers the charges
by**: what it charges no longer waits. -/
theorem reach_chargedFor (hk : Keyed s) (hpop : (popNext cfg now s).1 = .ok (some r))
    (hq : s.queues.get? k = some q) (δ : ℚ) : reach (chargedFor r δ k q) = reach q - δ := by
  unfold reach
  rw [weight_chargedFor, served_chargedFor]
  unfold chargedFor
  split
  · rename_i hkr
    subst hkr
    obtain ⟨old, rest, hold, rfl⟩ := front_of_popNext hk hpop
    rw [itemsIn_of_get? hq] at hold
    rw [hold, List.tail_cons, List.map_cons, List.sum_cons, add_div]
    ring
  · ring

/-- A queue with the greater credit is at most a quantum ahead in charge, if
its weight is close enough. -/
theorem CloseWeights.served_le (h : CloseWeights cfg q q') (hquantum : 0 < cfg.quantum)
    (hs : 0 ≤ q.served) (hs' : 0 ≤ q'.served) (hw' : 0 < q'.weight)
    (hfair : fair cfg q' ≤ fair cfg q) : q.served ≤ q'.served + cfg.quantum := by
  unfold fair at hfair
  rw [div_le_div_iff₀ (by linarith) (by linarith), mul_right_comm, mul_right_comm q.weight] at hfair
  have hcross := le_of_mul_le_mul_right hfair hquantum
  refine le_of_mul_le_mul_left (a := q'.weight) ?_ hw'
  rcases le_or_gt q.weight q'.weight with hle | hlt
  · have hmul := mul_le_mul_of_nonneg_right hle (by linarith : 0 ≤ q'.served + cfg.quantum)
    have hpos := mul_pos hw' hquantum
    nlinarith
  · have hreach := served_le_reach q'
    have hmul := mul_le_mul_of_nonneg_left (by linarith : q'.served + cfg.quantum ≤
      reach q' + cfg.quantum) (sub_pos.mpr hlt).le
    have hclose := h hlt
    nlinarith

/-- Weights stay close enough as the other queue comes to less. -/
theorem CloseWeights.of_reach_le {p p' : QueueState ℚ} (h : CloseWeights cfg q q')
    (hw : p.weight = q.weight) (hw' : p'.weight = q'.weight) (hreach : reach p' ≤ reach q') :
    CloseWeights cfg p p' := by
  intro hlt
  rw [hw, hw'] at hlt ⊢
  have hmul := mul_le_mul_of_nonneg_left (by linarith : reach p' + cfg.quantum ≤
    reach q' + cfg.quantum) (sub_pos.mpr hlt).le
  exact hmul.trans (h hlt)

/-! ## The gap between two charges -/

variable {e d : ℕ} {B : ℚ} {q₁ q₂ : QueueState ℚ} {rs : List (AdmissionRequest ℚ)}

theorem work_snoc (k : QueueKey) (rs : List (AdmissionRequest ℚ)) (r : AdmissionRequest ℚ) :
    work k (rs ++ [r]) =
      work k rs + if queueKey r = k then r.estimate.normalizedUnits else 0 := by
  unfold work
  rw [List.filter_append, List.map_append, List.sum_append]
  by_cases hk : queueKey r = k
  · simp [hk]
  · simp [hk]

/-- A pop takes requests away only. -/
theorem Uniform.popNext (hk : Keyed s) (h : Uniform e d B s k)
    (hpop : Scheduler.popNext cfg now s = (.ok (some r), s')) : Uniform e d B s' k := by
  rcases popNext_spec cfg now hk.noEmpty with ⟨-, hs⟩ | ⟨k₀, item, rest, -, -, hr⟩
  · rw [hs] at hpop
    cases hpop
  · rw [hpop] at hr
    intro it hit
    rw [hr.items_filter hk] at hit
    exact h it (List.mem_of_mem_filter hit)

/-- A pop keeps what holds of every reachable scheduler. -/
theorem kept_of_popNext (hk : Keyed s) (hc : Charged s)
    (hpop : popNext cfg now s = (.ok (some r), s')) : Keyed s' ∧ Charged s' := by
  have hk' := apply_keyed cfg ⟨now, .popNext⟩ hk
  have hc' : Charged (popNext cfg now s).2 := hc.popNext hk
  simp only [apply, hpop] at hk'
  rw [hpop] at hc'
  exact ⟨hk', hc'⟩

/-- What is popped from a uniform queue costs at least one, and its queue is
charged at most `B` for it. -/
theorem Uniform.charge_le (hk : Keyed s) (hc : Charged s) (h : Uniform e d B s (queueKey r))
    (hpop : (Scheduler.popNext cfg now s).1 = .ok (some r))
    (hq : s.queues.get? (queueKey r) = some q) :
    1 ≤ r.estimate.normalizedUnits ∧ 0 ≤ r.estimate.normalizedUnits / q.weight ∧
      r.estimate.normalizedUnits / q.weight ≤ B := by
  have hone : 1 ≤ q.weight := (hc _ q hq).2
  obtain ⟨old, rest, hold, rfl⟩ := front_of_popNext hk hpop
  obtain ⟨-, -, hunits, hB⟩ := h old (by rw [hold]; exact List.mem_cons_self)
  exact ⟨hunits, div_nonneg (by linarith) (by linarith), (div_le_self (by linarith) hone).trans hB⟩

/-- **A queue served before another is not far ahead of it.** Their fronts
weigh the same apart from the credit. -/
theorem served_le_of_popNext (hquantum : 0 < cfg.quantum) (hk : Keyed s) (hc : Charged s)
    (hpop : (popNext cfg now s).1 = .ok (some r))
    (hq₁ : s.queues.get? (queueKey r) = some q₁) (hq₂ : s.queues.get? k₂ = some q₂)
    (hu₁ : Uniform e d B s (queueKey r)) (hu₂ : Uniform e d B s k₂)
    (hclose : CloseWeights cfg q₁ q₂) : q₁.served ≤ q₂.served + cfg.quantum := by
  obtain ⟨front₂, rest₂, hitems₂⟩ := List.exists_cons_of_ne_nil (hk.noEmpty k₂ q₂ hq₂)
  have hfront₂ : q₂.items.head? = some front₂ := by rw [hitems₂, List.head?_cons]
  obtain ⟨q, front, hq, hfront, hle⟩ := score_le_of_popNext hpop hk hq₂ hfront₂
  rw [hq₁] at hq
  cases hq
  have h₁ := hu₁ front (by rw [itemsIn_of_get? hq₁]; exact List.mem_of_mem_head? hfront)
  have h₂ := hu₂ front₂ (by rw [itemsIn_of_get? hq₂]; exact List.mem_of_mem_head? hfront₂)
  have hage : ageBoost cfg now front₂ = ageBoost cfg now front := by
    unfold ageBoost
    rw [h₁.1, h₂.1]
  have hdeadline : deadlineBoost cfg now front₂ = deadlineBoost cfg now front := by
    unfold deadlineBoost
    rw [h₁.2.1, h₂.2.1]
  obtain ⟨hs₁, -⟩ := hc _ q₁ hq₁
  obtain ⟨hs₂, hone₂⟩ := hc k₂ q₂ hq₂
  refine hclose.served_le hquantum hs₁ hs₂ (by linarith) ?_
  unfold score at hle
  rw [hage, hdeadline] at hle
  linarith

/-- **One pop**: the gap between the charges moves with the gap between the
weighted works, and stays within `quantum + B`; and neither queue comes to
more than before. -/
theorem gap_step (hquantum : 0 < cfg.quantum) (hk : Keyed s) (hc : Charged s) (hne : k₁ ≠ k₂)
    (hq₁ : s.queues.get? k₁ = some q₁) (hq₂ : s.queues.get? k₂ = some q₂)
    (hu₁ : Uniform e d B s k₁) (hu₂ : Uniform e d B s k₂) (hc₁ : CloseWeights cfg q₁ q₂)
    (hc₂ : CloseWeights cfg q₂ q₁) (hgap : |q₁.served - q₂.served| ≤ cfg.quantum + B)
    (hpop : PopsBacklogged cfg now k₁ k₂ s r s') :
    ∃ q₁' q₂', s'.queues.get? k₁ = some q₁' ∧ s'.queues.get? k₂ = some q₂' ∧
      q₁'.weight = q₁.weight ∧ q₂'.weight = q₂.weight ∧ reach q₁' ≤ reach q₁ ∧
      reach q₂' ≤ reach q₂ ∧ |q₁'.served - q₂'.served| ≤ cfg.quantum + B ∧
      q₁'.served - q₂'.served = q₁.served - q₂.served +
        ((if queueKey r = k₁ then r.estimate.normalizedUnits else 0) / q₁.weight -
          (if queueKey r = k₂ then r.estimate.normalizedUnits else 0) / q₂.weight) := by
  obtain ⟨hpop, hn₁, hn₂⟩ := hpop
  obtain ⟨q₁', hq₁'⟩ := get?_of_backlog hn₁
  obtain ⟨q₂', hq₂'⟩ := get?_of_backlog hn₂
  obtain ⟨δ, hget, hδ, -⟩ := popNext_charge hk hpop
  obtain ⟨p₁, hp₁, rfl⟩ := hget k₁ q₁' hq₁'
  obtain ⟨p₂, hp₂, rfl⟩ := hget k₂ q₂' hq₂'
  rw [hq₁] at hp₁
  rw [hq₂] at hp₂
  cases hp₁
  cases hp₂
  have hone₁ := (hc k₁ q₁ hq₁).2
  have hone₂ := (hc k₂ q₂ hq₂).2
  have hpop₁ : (popNext cfg now s).1 = .ok (some r) := by rw [hpop]
  have hs₁ := served_chargedFor r δ k₁ q₁
  have hs₂ := served_chargedFor r δ k₂ q₂
  rw [max_eq_left hone₁] at hs₁
  rw [max_eq_left hone₂] at hs₂
  obtain ⟨hlow, hhigh⟩ := abs_le.mp hgap
  refine ⟨_, _, hq₁', hq₂', weight_chargedFor _ _ _ _, weight_chargedFor _ _ _ _, ?_, ?_, ?_⟩
  · rw [reach_chargedFor hk hpop₁ hq₁]
    linarith [hδ hquantum.le]
  · rw [reach_chargedFor hk hpop₁ hq₂]
    linarith [hδ hquantum.le]
  by_cases hr₁ : queueKey r = k₁
  · subst hr₁
    obtain ⟨hunits, hpos, hcost⟩ := hu₁.charge_le hk hc hpop₁ hq₁
    have hahead := served_le_of_popNext hquantum hk hc hpop₁ hq₁ hq₂ hu₁ hu₂ hc₁
    rw [if_pos rfl, max_eq_left hunits] at hs₁
    rw [if_neg (Ne.symm hne)] at hs₂
    rw [if_pos rfl, if_neg hne, hs₁, hs₂, zero_div]
    exact ⟨abs_le.mpr ⟨by linarith, by linarith⟩, by ring⟩
  · rw [if_neg fun h => hr₁ h.symm] at hs₁
    rw [if_neg hr₁, zero_div]
    by_cases hr₂ : queueKey r = k₂
    · subst hr₂
      obtain ⟨hunits, hpos, hcost⟩ := hu₂.charge_le hk hc hpop₁ hq₂
      have hahead := served_le_of_popNext hquantum hk hc hpop₁ hq₂ hq₁ hu₂ hu₁ hc₂
      rw [if_pos rfl, max_eq_left hunits] at hs₂
      rw [if_pos rfl, hs₁, hs₂]
      exact ⟨abs_le.mpr ⟨by linarith, by linarith⟩, by ring⟩
    · rw [if_neg fun h => hr₂ h.symm] at hs₂
      rw [if_neg hr₂, zero_div, hs₁, hs₂]
      exact ⟨abs_le.mpr ⟨by linarith, by linarith⟩, by ring⟩

/-- **Along a run** from weights that are close enough the gap stays within
`quantum + B`, and has moved with the weighted works since the start. -/
theorem gap_run (hquantum : 0 < cfg.quantum) (hk : Keyed s) (hc : Charged s) (hne : k₁ ≠ k₂)
    (hq₁ : s.queues.get? k₁ = some q₁) (hq₂ : s.queues.get? k₂ = some q₂)
    (hu₁ : Uniform e d B s k₁) (hu₂ : Uniform e d B s k₂) (hc₁ : CloseWeights cfg q₁ q₂)
    (hc₂ : CloseWeights cfg q₂ q₁) (hstart : |q₁.served - q₂.served| ≤ cfg.quantum + B)
    (hrun : Trace (PopsBacklogged cfg now k₁ k₂) s rs t) :
    |q₁.served - q₂.served + (work k₁ rs / q₁.weight - work k₂ rs / q₂.weight)| ≤
      cfg.quantum + B := by
  have hinv : Keyed t ∧ Charged t ∧ Uniform e d B t k₁ ∧ Uniform e d B t k₂ ∧
      ∃ p₁ p₂, t.queues.get? k₁ = some p₁ ∧ t.queues.get? k₂ = some p₂ ∧
        p₁.weight = q₁.weight ∧ p₂.weight = q₂.weight ∧ reach p₁ ≤ reach q₁ ∧
        reach p₂ ≤ reach q₂ ∧ |p₁.served - p₂.served| ≤ cfg.quantum + B ∧
        p₁.served - p₂.served =
          q₁.served - q₂.served + (work k₁ rs / q₁.weight - work k₂ rs / q₂.weight) := by
    induction hrun with
    | nil =>
      refine ⟨hk, hc, hu₁, hu₂, q₁, q₂, hq₁, hq₂, rfl, rfl, le_rfl, le_rfl, hstart, ?_⟩
      simp [work]
    | @snoc rs t u r _ hpop ih =>
      obtain ⟨hk, hc, hv₁, hv₂, p₁, p₂, hp₁, hp₂, hw₁, hw₂, hr₁, hr₂, hgap, hworks⟩ := ih
      obtain ⟨p₁', p₂', hp₁', hp₂', hw₁', hw₂', hr₁', hr₂', hgap', hmove⟩ :=
        gap_step hquantum hk hc hne hp₁ hp₂ hv₁ hv₂ (hc₁.of_reach_le hw₁ hw₂ hr₂)
          (hc₂.of_reach_le hw₂ hw₁ hr₁) hgap hpop
      obtain ⟨hk', hc'⟩ := kept_of_popNext hk hc hpop.1
      refine ⟨hk', hc', hv₁.popNext hk hpop.1, hv₂.popNext hk hpop.1, p₁', p₂', hp₁', hp₂',
        hw₁'.trans hw₁, hw₂'.trans hw₂, hr₁'.trans hr₁, hr₂'.trans hr₂, hgap', ?_⟩
      rw [hmove, hworks, hw₁, hw₂, work_snoc, work_snoc, add_div, add_div]
      ring
  obtain ⟨-, -, -, -, p₁, p₂, -, -, -, -, -, -, hgap, hworks⟩ := hinv
  rwa [← hworks]

/-- Two points within `b` of each other, moved by `x` to two points within
`b`, were moved by at most `2 * b`. -/
theorem abs_le_of_gap {a x b : ℚ} (h : |a| ≤ b) (h' : |a + x| ≤ b) : |x| ≤ 2 * b := by
  obtain ⟨h1, h2⟩ := abs_le.mp h
  obtain ⟨h3, h4⟩ := abs_le.mp h'
  exact abs_le.mpr ⟨by linarith, by linarith⟩

/-- **Weighted service stays within twice a quantum and a request.** Two
queues of a reachable scheduler are backlogged and uniform, their charges
start within `quantum + B` of each other, and their weights are equal, or
close enough for what the lighter queue can come to. Then the works popped,
each over its weight, differ by at most `2 * (quantum + B)` at every point
of the run. -/
theorem weighted_service_within (cfg : Config ℚ) (hquantum : 0 < cfg.quantum) (now : ℕ)
    (calls : List (Call ℚ)) (hne : k₁ ≠ k₂) (hq₁ : (exec cfg calls).queues.get? k₁ = some q₁)
    (hq₂ : (exec cfg calls).queues.get? k₂ = some q₂)
    (hu₁ : Uniform e d B (exec cfg calls) k₁) (hu₂ : Uniform e d B (exec cfg calls) k₂)
    (hstart : |q₁.served - q₂.served| ≤ cfg.quantum + B) (hc₁ : CloseWeights cfg q₁ q₂)
    (hc₂ : CloseWeights cfg q₂ q₁)
    (hrun : Trace (PopsBacklogged cfg now k₁ k₂) (exec cfg calls) rs t) :
    |work k₁ rs / q₁.weight - work k₂ rs / q₂.weight| ≤ 2 * (cfg.quantum + B) := by
  have hgap := gap_run hquantum (exec_keyed cfg calls) (exec_charged cfg calls) hne hq₁ hq₂ hu₁ hu₂
    hc₁ hc₂ hstart hrun
  exact abs_le_of_gap hstart hgap

/-! ### Runs of it -/

/-- A pop of this request that leaves both queues backlogged, evaluated. -/
def popBacklogged (cfg : Config ℚ) (now : ℕ) (k₁ k₂ : QueueKey) (s : Inner ℚ)
    (r : AdmissionRequest ℚ) : Option (Inner ℚ) :=
  match popNext cfg now s with
  | (.ok (some r'), s') =>
    if r' = r ∧ (itemsIn s'.queues k₁).isEmpty = false ∧ (itemsIn s'.queues k₂).isEmpty = false
    then some s' else none
  | _ => none

theorem popsBacklogged_of_run (h : popBacklogged cfg now k₁ k₂ s r = some s') :
    PopsBacklogged cfg now k₁ k₂ s r s' := by
  unfold popBacklogged at h
  split at h
  · rename_i hpop
    split at h
    · rename_i hcond
      obtain ⟨rfl, h₁, h₂⟩ := hcond
      cases h
      exact ⟨hpop, by simpa using h₁, by simpa using h₂⟩
    · cases h
  · cases h

/-- A scheduler with the program's quantum. -/
def backlogConfig : Config ℚ := ⟨100, 1000, 2000000000, 1000000000, 1000, by decide, by decide⟩

/-- A request of a thousand units. -/
def backlogRequest (id : Uuid) (tenant : String) : AdmissionRequest ℚ :=
  { sampleRequest id with
    identity := ⟨"principal", tenant, "app", true⟩
    estimate := ⟨1, 1, 0, 1, 1000, 1, .approximation⟩ }

/-- The queue of a tenant. -/
def backlogKey (tenant : String) : QueueKey := ⟨.standard, tenant, "app"⟩

/-- `n` requests of one tenant and two of another, with these weights, all at
clock reading zero. -/
def backlogCalls (n heavy light : ℕ) : List (Call ℚ) :=
  (List.range n).map (fun i => ⟨0, .enqueue (backlogRequest i "heavy") 1 1 heavy 1⟩) ++
    [⟨0, .enqueue (backlogRequest 100 "light") 1 1 light 1⟩,
      ⟨0, .enqueue (backlogRequest 101 "light") 1 1 light 1⟩]

/-- Weights of three and two are close enough for a backlog of two requests:
two pops serve the heavier queue and the third the lighter. -/
theorem weighted_service_in_turn :
    ∃ q₁ q₂ t, (exec backlogConfig (backlogCalls 3 3 2)).queues.get? (backlogKey "heavy") = some q₁ ∧
      (exec backlogConfig (backlogCalls 3 3 2)).queues.get? (backlogKey "light") = some q₂ ∧
      q₂.weight < q₁.weight ∧
      Trace (PopsBacklogged backlogConfig 0 (backlogKey "heavy") (backlogKey "light"))
        (exec backlogConfig (backlogCalls 3 3 2))
        [backlogRequest 0 "heavy", backlogRequest 1 "heavy", backlogRequest 100 "light"] t ∧
      |work (backlogKey "heavy")
            [backlogRequest 0 "heavy", backlogRequest 1 "heavy", backlogRequest 100 "light"] /
          q₁.weight -
        work (backlogKey "light")
            [backlogRequest 0 "heavy", backlogRequest 1 "heavy", backlogRequest 100 "light"] /
          q₂.weight| ≤ 2 * (backlogConfig.quantum + 1000) := by
  have hrun : ([backlogRequest 0 "heavy", backlogRequest 1 "heavy",
      backlogRequest 100 "light"].foldlM
        (popBacklogged backlogConfig 0 (backlogKey "heavy") (backlogKey "light"))
        (exec backlogConfig (backlogCalls 3 3 2))).isSome = true := by
    decide +kernel
  have hqueues : ((exec backlogConfig (backlogCalls 3 3 2)).queues.get? (backlogKey "heavy")).any
      (fun q₁ => ((exec backlogConfig (backlogCalls 3 3 2)).queues.get? (backlogKey "light")).any
        fun q₂ => |q₁.served - q₂.served| ≤ backlogConfig.quantum + 1000 ∧
          CloseWeights backlogConfig q₁ q₂ ∧ CloseWeights backlogConfig q₂ q₁ ∧
          q₂.weight < q₁.weight) = true := by
    decide +kernel
  have hu₁ : Uniform 0 1000 1000 (exec backlogConfig (backlogCalls 3 3 2)) (backlogKey "heavy") := by
    decide +kernel
  have hu₂ : Uniform 0 1000 1000 (exec backlogConfig (backlogCalls 3 3 2)) (backlogKey "light") := by
    decide +kernel
  obtain ⟨q₁, hq₁, hqueues⟩ := (Option.any_eq_true _ _).mp hqueues
  obtain ⟨q₂, hq₂, hqueues⟩ := (Option.any_eq_true _ _).mp hqueues
  obtain ⟨hcharges, hc₁, hc₂, hweights⟩ := of_decide_eq_true hqueues
  obtain ⟨t, ht⟩ := Option.isSome_iff_exists.mp hrun
  have htrace := Trace.of_foldlM popsBacklogged_of_run ht
  exact ⟨q₁, q₂, t, hq₁, hq₂, hweights, htrace,
    weighted_service_within backlogConfig (by decide +kernel) 0 _ (by decide) hq₁ hq₂ hu₁ hu₂
      hcharges hc₁ hc₂ htrace⟩

/-- **A weight counts twice.** From equal charges, the first twenty-five
pops all serve the queue of weight six, and none the one of weight one:
their weighted works are more than four thousand apart, twice the quantum
and a request. -/
theorem heavy_queue_runs_ahead :
    ∃ q₁ q₂ t, (exec backlogConfig (backlogCalls 26 6 1)).queues.get? (backlogKey "heavy") =
        some q₁ ∧
      (exec backlogConfig (backlogCalls 26 6 1)).queues.get? (backlogKey "light") = some q₂ ∧
      q₁.weight = 6 ∧ q₂.weight = 1 ∧ q₁.served = q₂.served ∧
      Uniform 0 1000 1000 (exec backlogConfig (backlogCalls 26 6 1)) (backlogKey "heavy") ∧
      Uniform 0 1000 1000 (exec backlogConfig (backlogCalls 26 6 1)) (backlogKey "light") ∧
      Trace (PopsBacklogged backlogConfig 0 (backlogKey "heavy") (backlogKey "light"))
        (exec backlogConfig (backlogCalls 26 6 1))
        ((List.range 25).map (backlogRequest · "heavy")) t ∧
      ¬ |work (backlogKey "heavy") ((List.range 25).map (backlogRequest · "heavy")) / q₁.weight -
        work (backlogKey "light") ((List.range 25).map (backlogRequest · "heavy")) / q₂.weight| ≤
          2 * (backlogConfig.quantum + 1000) := by
  have hrun : (((List.range 25).map (backlogRequest · "heavy")).foldlM
      (popBacklogged backlogConfig 0 (backlogKey "heavy") (backlogKey "light"))
      (exec backlogConfig (backlogCalls 26 6 1))).isSome = true := by
    decide +kernel
  have hqueues : ((exec backlogConfig (backlogCalls 26 6 1)).queues.get? (backlogKey "heavy")).any
      (fun q₁ => ((exec backlogConfig (backlogCalls 26 6 1)).queues.get? (backlogKey "light")).any
        fun q₂ => q₁.weight = 6 ∧ q₂.weight = 1 ∧ q₁.served = q₂.served) = true := by
    decide +kernel
  have hu₁ : Uniform 0 1000 1000 (exec backlogConfig (backlogCalls 26 6 1)) (backlogKey "heavy") := by
    decide +kernel
  have hu₂ : Uniform 0 1000 1000 (exec backlogConfig (backlogCalls 26 6 1)) (backlogKey "light") := by
    decide +kernel
  obtain ⟨q₁, hq₁, hqueues⟩ := (Option.any_eq_true _ _).mp hqueues
  obtain ⟨q₂, hq₂, hqueues⟩ := (Option.any_eq_true _ _).mp hqueues
  obtain ⟨hw₁, hw₂, hserved⟩ := of_decide_eq_true hqueues
  obtain ⟨t, ht⟩ := Option.isSome_iff_exists.mp hrun
  refine ⟨q₁, q₂, t, hq₁, hq₂, hw₁, hw₂, hserved, hu₁, hu₂,
    Trace.of_foldlM popsBacklogged_of_run ht, ?_⟩
  rw [hw₁, hw₂]
  decide +kernel

end Scheduler

end InferQos
