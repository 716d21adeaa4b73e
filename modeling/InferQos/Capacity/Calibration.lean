import InferQos.Capacity.Ledger
import Mathlib.Algebra.Order.Archimedean.Basic
/-!
# Calibration of the safety factor

Every release of a live identifier feeds one observation to two moving
averages, and the safety factor follows the target they give. `Gauge` is
this controller on its own: three numbers and one observation at a time.
The gauge of a model after any calls is its first gauge fed with the
observations of the calls (`gauge_exec`), so the bounds and the
monotonicity are shown of the gauge alone.
-/

namespace InferQos

namespace CapacityModel

/-! ## The gauge -/

/-- The two averages and the factor derived from them. -/
structure Gauge where
  error : ℚ
  throttle : ℚ
  safety : ℚ

namespace Gauge

variable {g g' : Gauge} {d d' : ℚ} {t t' : Bool}

/-- The factor the averages ask for. -/
def target (error throttle : ℚ) : ℚ :=
  Arith.clamp (1 + error * (3 / 2) + throttle * 2) 1 4

/-- **One observation**: the deviation of the estimate, and whether the
provider throttled. -/
def next (g : Gauge) (x : ℚ × Bool) : Gauge :=
  let error := (1 - 8 / 100) * g.error + 8 / 100 * x.1
  let throttle := (1 - 8 / 100) * g.throttle + 8 / 100 * (if x.2 then 1 else 0)
  { error, throttle
    safety := Arith.clamp (g.safety * (9 / 10) + target error throttle * (1 / 10)) 1 4 }

/-- **The ranges of a gauge.** -/
structure Within (g : Gauge) : Prop where
  error_nonneg : 0 ≤ g.error
  error_le : g.error ≤ 9
  throttle_nonneg : 0 ≤ g.throttle
  throttle_le : g.throttle ≤ 1
  one_le_safety : 1 ≤ g.safety
  safety_le : g.safety ≤ 4

/-- **One gauge reads no more than another.** -/
structure Below (g g' : Gauge) : Prop where
  error : g.error ≤ g'.error
  throttle : g.throttle ≤ g'.throttle
  safety : g.safety ≤ g'.safety

theorem target_mono {e e' u u' : ℚ} (he : e ≤ e') (hu : u ≤ u') : target e u ≤ target e' u' := by
  exact Arith.clamp_mono_rat (by norm_num) (by linarith)

theorem indicator_nonneg (t : Bool) : (0 : ℚ) ≤ if t then 1 else 0 := by
  cases t
  · exact le_rfl
  · exact zero_le_one

theorem indicator_le_one (t : Bool) : (if t then 1 else 0 : ℚ) ≤ 1 := by
  cases t
  · exact zero_le_one
  · exact le_rfl

theorem Within.next (h : Within g) (hd : 0 ≤ d) (hd' : d ≤ 9) : Within (g.next (d, t)) := by
  have hlo := indicator_nonneg t
  have hhi := indicator_le_one t
  obtain ⟨he, he', hu, hu', -, -⟩ := h
  refine ⟨?_, ?_, ?_, ?_, Arith.le_clamp_rat (by norm_num), Arith.clamp_le_rat (by norm_num)⟩
  · simp only [Gauge.next]
    linarith
  · simp only [Gauge.next]
    linarith
  · simp only [Gauge.next]
    linarith
  · simp only [Gauge.next]
    linarith

theorem Below.next (h : Below g g') (hd : d ≤ d') (ht : t = true → t' = true) :
    Below (g.next (d, t)) (g'.next (d', t')) := by
  have hind : (if t then 1 else 0 : ℚ) ≤ if t' then 1 else 0 := by
    cases t with
    | false => exact indicator_nonneg t'
    | true =>
      rw [ht rfl]
  obtain ⟨he, hu, hs⟩ := h
  have herror : (g.next (d, t)).error ≤ (g'.next (d', t')).error := by
    simp only [Gauge.next]
    linarith
  have hthrottle : (g.next (d, t)).throttle ≤ (g'.next (d', t')).throttle := by
    simp only [Gauge.next]
    linarith
  refine ⟨herror, hthrottle, ?_⟩
  have htarget := target_mono herror hthrottle
  exact Arith.clamp_mono_rat (by norm_num) (add_le_add
    (mul_le_mul_of_nonneg_right hs (by norm_num))
    (mul_le_mul_of_nonneg_right htarget (by norm_num)))

/-- Observation lists of which one is nowhere worse. -/
def NoWorse (xs ys : List (ℚ × Bool)) : Prop :=
  List.Forall₂ (fun x y => x.1 ≤ y.1 ∧ (x.2 = true → y.2 = true)) xs ys

/-- **Worse observations never read less.** -/
theorem Below.foldl {xs ys : List (ℚ × Bool)} (hxs : NoWorse xs ys) (h : Below g g') :
    Below (xs.foldl Gauge.next g) (ys.foldl Gauge.next g') := by
  induction hxs generalizing g g' with
  | nil => exact h
  | cons hxy _ ih => exact ih (h.next hxy.1 hxy.2)

theorem Within.foldl {xs : List (ℚ × Bool)} (hxs : ∀ x ∈ xs, 0 ≤ x.1 ∧ x.1 ≤ 9) (h : Within g) :
    Within (xs.foldl Gauge.next g) :=
  List.foldlRecOn xs Gauge.next h fun _ hg x hx => hg.next (hxs x hx).1 (hxs x hx).2

end Gauge

/-! ## The observations of a run -/

variable {m : CapacityModel ℚ} {op : Op ℚ} {ops : List (Op ℚ)}

/-- How far the work was from its estimate, as a clamped ratio. -/
def deviation (predicted : ℚ) (actual : Option ℚ) : ℚ :=
  Arith.abs (Arith.clamp (actual.elim 1 fun a => a / max predicted 1) 0 10 - 1)

/-- The observation a call feeds: a release of a live identifier feeds
one. -/
def observed (m : CapacityModel ℚ) : Op ℚ → Option (ℚ × Bool)
  | .release id predicted actual throttled =>
    (m.reservations.get? id).map fun _ => (deviation predicted actual, throttled)
  | _ => none

/-- The observations of a sequence of calls. -/
def feed (m : CapacityModel ℚ) : List (Op ℚ) → List (ℚ × Bool)
  | [] => []
  | op :: ops => (observed m op).toList ++ feed (m.apply op) ops

/-- The gauge of a model. -/
def gauge (m : CapacityModel ℚ) : Gauge := ⟨m.error, m.throttle, m.safety⟩

theorem deviation_bounds (predicted : ℚ) (actual : Option ℚ) :
    0 ≤ deviation predicted actual ∧ deviation predicted actual ≤ 9 := by
  have hlo : 0 ≤ Arith.clamp (actual.elim 1 fun a => a / max predicted 1) 0 10 :=
    Arith.le_clamp_rat (by norm_num)
  have hhi : Arith.clamp (actual.elim 1 fun a => a / max predicted 1) 0 10 ≤ 10 :=
    Arith.clamp_le_rat (by norm_num)
  unfold deviation
  rw [Arith.abs_rat]
  exact ⟨abs_nonneg _, abs_le.mpr ⟨by linarith, by linarith⟩⟩

/-- **One call moves the gauge by what it feeds.** -/
theorem gauge_apply (h : m.alpha = 8 / 100) (op : Op ℚ) :
    gauge (m.apply op) = (observed m op).toList.foldl Gauge.next (gauge m) := by
  cases op with
  | reserve id predicted =>
    simp only [apply, reserve]
    split
    · rfl
    · rfl
  | trackDistributed id charged => rfl
  | release id predicted actual throttled =>
    simp only [apply, release, observed]
    cases m.reservations.get? id with
    | none => rfl
    | some charged =>
      simp only [gauge, observe, h]
      rfl

/-- **The gauge follows the observations of a run.** -/
theorem gauge_exec (h : m.alpha = 8 / 100) (ops : List (Op ℚ)) :
    gauge (m.exec ops) = (feed m ops).foldl Gauge.next (gauge m) := by
  induction ops generalizing m with
  | nil => rfl
  | cons op ops ih =>
    have hrest := ih ((apply_parameters m op).2.trans h)
    rw [feed, List.foldl_append, ← gauge_apply h, ← hrest]
    rfl

/-- An observation is that of a release. -/
theorem release_of_mem_feed {x : ℚ × Bool} (h : x ∈ feed m ops) :
    ∃ id predicted actual throttled, .release id predicted actual throttled ∈ ops ∧
      x = (deviation predicted actual, throttled) := by
  induction ops generalizing m with
  | nil => cases h
  | cons op ops ih =>
    rcases List.mem_append.mp h with h | h
    · cases op with
      | reserve id predicted => cases h
      | trackDistributed id charged => cases h
      | release id predicted actual throttled =>
        obtain ⟨charged, -, rfl⟩ := Option.map_eq_some_iff.mp (Option.mem_toList.mp h)
        exact ⟨id, predicted, actual, throttled, List.mem_cons_self, rfl⟩
    · obtain ⟨id, predicted, actual, throttled, hop, rfl⟩ := ih h
      exact ⟨id, predicted, actual, throttled, List.mem_cons_of_mem op hop, rfl⟩

theorem feed_bounds (m : CapacityModel ℚ) (ops : List (Op ℚ)) :
    ∀ x ∈ feed m ops, 0 ≤ x.1 ∧ x.1 ≤ 9 := by
  intro x hx
  obtain ⟨id, predicted, actual, throttled, -, rfl⟩ := release_of_mem_feed hx
  exact deviation_bounds predicted actual

/-- The observations of a prefix come first. -/
theorem feed_append (m : CapacityModel ℚ) (pre post : List (Op ℚ)) :
    feed m (pre ++ post) = feed m pre ++ feed (m.exec pre) post := by
  induction pre generalizing m with
  | nil => rfl
  | cons op pre ih =>
    rw [List.cons_append, feed, ih, feed, List.append_assoc]
    rfl

theorem noWorse_take {xs ys xs' ys' : List (ℚ × Bool)} (h : Gauge.NoWorse (xs ++ xs') (ys ++ ys'))
    (hlen : xs.length = ys.length) : Gauge.NoWorse xs ys := by
  have htake := List.forall₂_take xs.length h
  rwa [List.take_left, hlen, List.take_left] at htake

theorem new_within (configured initialSafety : ℚ) :
    (gauge (new configured initialSafety)).Within := by
  exact ⟨le_rfl, (by norm_num : (0 : ℚ) ≤ 9), le_rfl, zero_le_one,
    Arith.le_clamp_rat (by norm_num), Arith.clamp_le_rat (by norm_num)⟩

/-- **Calibration is bounded and monotone.** After any calls on a new model
the estimate error is in `[0, 9]`, the throttling in `[0, 1]` and the safety
factor in `[1, 4]`. Of two models with as many releases of live
identifiers, the one that starts with no larger factor, deviates no more at
each release and is throttled only where the other is reads no more at any
point of the two runs with as many releases behind it, and charges no
more. -/
theorem calibration_bounded_and_monotone :
    (∀ configured initialSafety ops, (gauge ((new configured initialSafety).exec ops)).Within) ∧
    ∀ c₁ s₁ c₂ s₂ ops₁ ops₂, (new c₁ s₁ : CapacityModel ℚ).safety ≤ (new c₂ s₂).safety →
      Gauge.NoWorse (feed (new c₁ s₁) ops₁) (feed (new c₂ s₂) ops₂) →
      ∀ pre₁ pre₂, pre₁ <+: ops₁ → pre₂ <+: ops₂ →
        (feed (new c₁ s₁) pre₁).length = (feed (new c₂ s₂) pre₂).length →
          (gauge ((new c₁ s₁).exec pre₁)).Below (gauge ((new c₂ s₂).exec pre₂)) ∧
            ∀ predicted, 0 ≤ predicted → ((new c₁ s₁).exec pre₁).chargedUnits predicted ≤
              ((new c₂ s₂).exec pre₂).chargedUnits predicted := by
  constructor
  · intro configured initialSafety ops
    rw [gauge_exec rfl]
    exact (new_within configured initialSafety).foldl (feed_bounds _ ops)
  · rintro c₁ s₁ c₂ s₂ ops₁ ops₂ hsafety hworse pre₁ pre₂ ⟨post₁, rfl⟩ ⟨post₂, rfl⟩ hlen
    rw [feed_append, feed_append] at hworse
    have hbelow : (gauge ((new c₁ s₁).exec pre₁)).Below (gauge ((new c₂ s₂).exec pre₂)) := by
      rw [gauge_exec rfl, gauge_exec rfl]
      exact Gauge.Below.foldl (noWorse_take hworse hlen) ⟨le_rfl, le_rfl, hsafety⟩
    exact ⟨hbelow, fun predicted hpredicted => mul_le_mul_of_nonneg_left hbelow.safety hpredicted⟩

/-- A throttled release of a badly estimated request reads more than a calm
and exact one. -/
theorem calibration_orders_two_runs :
    (gauge ((new 10 1).exec [.reserve 1 5, .release 1 5 (some 5) false])).Below
      (gauge ((new 20 (3 / 2)).exec [.reserve 7 2, .release 7 2 (some 8) true])) := by
  have hworse : Gauge.NoWorse (feed (new 10 1) [.reserve 1 5, .release 1 5 (some 5) false])
      (feed (new 20 (3 / 2)) [.reserve 7 2, .release 7 2 (some 8) true]) := by
    have hfirst : feed (new 10 1) [.reserve 1 5, .release 1 5 (some 5) false] = [(0, false)] := by
      decide +kernel
    have hsecond : feed (new 20 (3 / 2)) [.reserve 7 2, .release 7 2 (some 8) true] =
        [(3, true)] := by
      decide +kernel
    rw [hfirst, hsecond]
    exact .cons ⟨by norm_num, fun _ => rfl⟩ .nil
  exact (calibration_bounded_and_monotone.2 10 1 20 (3 / 2) _ _ (by decide +kernel) hworse _ _
    List.prefix_rfl List.prefix_rfl (by decide +kernel)).1

/-! ## Estimates that were too high -/

/-- A release, if the call is one, is not throttled and used at most its
estimate. -/
def OverEstimates : Op ℚ → Prop
  | .release _ predicted actual throttled => throttled = false ∧ ∀ a ∈ actual, a ≤ predicted
  | _ => True

/-- Less work than estimated is at most the whole estimate away. -/
theorem deviation_le_one {predicted : ℚ} {actual : Option ℚ} (h : ∀ a ∈ actual, a ≤ predicted) :
    deviation predicted actual ≤ 1 := by
  have hratio : (actual.elim 1 fun a => a / max predicted 1) ≤ 1 := by
    cases actual with
    | none => exact le_rfl
    | some a =>
      have hpos : 0 < max predicted 1 := lt_of_lt_of_le one_pos (le_max_right _ _)
      exact (div_le_one hpos).mpr ((h a rfl).trans (le_max_left _ _))
  have hlo : 0 ≤ Arith.clamp (actual.elim 1 fun a => a / max predicted 1) 0 10 :=
    Arith.le_clamp_rat (by norm_num)
  have hhi : Arith.clamp (actual.elim 1 fun a => a / max predicted 1) 0 10 ≤ 1 :=
    (Arith.clamp_mono_rat (by norm_num) hratio).trans (by decide +kernel)
  unfold deviation
  rw [Arith.abs_rat]
  exact abs_le.mpr ⟨by linarith, by linarith⟩

theorem feed_overEstimates (m : CapacityModel ℚ) {ops : List (Op ℚ)}
    (h : ∀ op ∈ ops, OverEstimates op) : ∀ x ∈ feed m ops, x.1 ≤ 1 ∧ x.2 = false := by
  intro x hx
  obtain ⟨id, predicted, actual, throttled, hop, rfl⟩ := release_of_mem_feed hx
  obtain ⟨hcalm, hactual⟩ := h _ hop
  exact ⟨deviation_le_one hactual, hcalm⟩

namespace Gauge

variable {g : Gauge} {d s : ℚ} {n : ℕ}

/-- **What over-estimation alone can read.** -/
structure Mild (s : ℚ) (g : Gauge) : Prop where
  error : g.error ≤ 1
  throttle : g.throttle ≤ 0
  safety : g.safety ≤ max s (5 / 2)

theorem Mild.next (h : Mild s g) (hd : d ≤ 1) : Mild s (g.next (d, false)) := by
  obtain ⟨he, hu, hs⟩ := h
  have herror : (g.next (d, false)).error ≤ 1 := by
    simp only [Gauge.next]
    linarith
  have hthrottle : (g.next (d, false)).throttle ≤ 0 := by
    simp only [Gauge.next, Bool.false_eq_true, if_false]
    linarith
  have htarget : target (g.next (d, false)).error (g.next (d, false)).throttle ≤ 5 / 2 := by
    refine (target_mono herror hthrottle).trans ?_
    decide +kernel
  refine ⟨herror, hthrottle, ?_⟩
  change Arith.clamp (g.safety * (9 / 10) + target _ _ * (1 / 10)) 1 4 ≤ _
  rw [Arith.clamp_rat (by norm_num)]
  have hhalf := le_max_right s (5 / 2)
  refine max_le (by linarith) ((min_le_left _ _).trans ?_)
  calc g.safety * (9 / 10) + target _ _ * (1 / 10)
      ≤ max s (5 / 2) * (9 / 10) + 5 / 2 * (1 / 10) :=
        add_le_add (mul_le_mul_of_nonneg_right hs (by norm_num))
          (mul_le_mul_of_nonneg_right htarget (by norm_num))
    _ ≤ max s (5 / 2) := by linarith

theorem Mild.foldl {xs : List (ℚ × Bool)} (hxs : ∀ x ∈ xs, x.1 ≤ 1 ∧ x.2 = false) (h : Mild s g) :
    Mild s (xs.foldl Gauge.next g) := by
  refine List.foldlRecOn xs Gauge.next h fun g hg x hx => ?_
  obtain ⟨d, t⟩ := x
  obtain ⟨hd, rfl⟩ := hxs (d, t) hx
  exact hg.next hd

/-- A gauge after `n` releases that used nothing. -/
def unused (s : ℚ) (n : ℕ) : Gauge := (List.replicate n (1, false)).foldl Gauge.next ⟨0, 0, s⟩

theorem unused_succ (s : ℚ) (n : ℕ) : unused s (n + 1) = (unused s n).next (1, false) := by
  unfold unused
  rw [List.replicate_succ', List.foldl_append]
  rfl

theorem unused_averages (s : ℚ) (n : ℕ) :
    (unused s n).error = 1 - (23 / 25) ^ n ∧ (unused s n).throttle = 0 := by
  induction n with
  | zero => exact ⟨by rw [pow_zero, sub_self]; rfl, rfl⟩
  | succ n ih =>
    rw [unused_succ]
    simp only [Gauge.next, ih.1, ih.2, Bool.false_eq_true, if_false]
    constructor
    · ring
    · ring

theorem unused_within (hs : 1 ≤ s) (hs' : s ≤ 4) (n : ℕ) : (unused s n).Within := by
  refine Within.foldl (fun x hx => ?_) ⟨le_rfl, (by norm_num : (0 : ℚ) ≤ 9), le_rfl, zero_le_one,
    hs, hs'⟩
  rw [List.eq_of_mem_replicate hx]
  exact ⟨zero_le_one, by norm_num⟩

/-- The target of the `n`-th such release. -/
theorem target_unused (s : ℚ) (n : ℕ) :
    5 / 2 - 3 / 2 * (23 / 25) ^ n ≤ target (unused s n).error (unused s n).throttle := by
  have hpow : (0 : ℚ) ≤ (23 / 25) ^ n := by positivity
  unfold target
  rw [Arith.clamp_rat (by norm_num), (unused_averages s n).1, (unused_averages s n).2]
  refine le_trans ?_ (le_max_right _ _)
  exact le_min (by linarith) (by linarith)

/-- The factor closes a tenth of its distance to any `t` the target has
passed. -/
theorem safety_next_ge {t : ℚ} {x : ℚ × Bool} (ht : t ≤ 4) (hs : g.safety ≤ 4)
    (htarget : t ≤ target (g.next x).error (g.next x).throttle) :
    g.safety * (9 / 10) + t * (1 / 10) ≤ (g.next x).safety := by
  change _ ≤ Arith.clamp (g.safety * (9 / 10) + target _ _ * (1 / 10)) 1 4
  rw [Arith.clamp_rat (by norm_num)]
  refine le_trans (le_min ?_ ?_) (le_max_right _ _)
  · exact add_le_add_right (mul_le_mul_of_nonneg_right htarget (by norm_num)) _
  · linarith

/-- **Below five halves, releases that used nothing raise the factor.** -/
theorem exists_unused_gt (hs : 1 ≤ s) (hlt : s < 5 / 2) : ∃ n, s < (unused s n).safety := by
  -- half the way to the limit of the targets
  obtain ⟨t, hst, ht⟩ := exists_between hlt
  obtain ⟨n, hn⟩ := exists_pow_lt_of_lt_one (by linarith : 0 < (5 / 2 - t) * (2 / 3))
    (by norm_num : (23 / 25 : ℚ) < 1)
  have hbelow : ∀ k, t - (t - 1) * (9 / 10) ^ k ≤ (unused s (n + k)).safety := by
    intro k
    induction k with
    | zero =>
      rw [pow_zero, mul_one, sub_sub_cancel]
      exact (unused_within hs (by linarith) _).one_le_safety
    | succ k ih =>
      have hpow : (23 / 25 : ℚ) ^ (n + k + 1) ≤ (23 / 25) ^ n :=
        pow_le_pow_of_le_one (by norm_num) (by norm_num) (by omega)
      have htarget := target_unused s (n + k + 1)
      rw [unused_succ] at htarget
      have hstep := safety_next_ge (t := t) (by linarith)
        (unused_within hs (by linarith) (n + k)).safety_le (le_trans (by linarith) htarget)
      rw [← add_assoc, unused_succ]
      refine le_trans ?_ hstep
      rw [pow_succ]
      linarith
  obtain ⟨k, hk⟩ := exists_pow_lt_of_lt_one (div_pos (sub_pos.mpr hst) (by linarith : 0 < t - 1))
    (by norm_num : (9 / 10 : ℚ) < 1)
  refine ⟨n + k, lt_of_lt_of_le ?_ (hbelow k)⟩
  have := (lt_div_iff₀ (by linarith : 0 < t - 1)).mp hk
  linarith

end Gauge

/-- `n` charges of nothing, each released with nothing used. -/
def underuse (n : ℕ) : List (Op ℚ) :=
  (List.replicate n [Op.trackDistributed 0 0, Op.release 0 1 (some 0) false]).flatten

theorem feed_underuse (m : CapacityModel ℚ) (n : ℕ) :
    feed m (underuse n) = List.replicate n (1, false) := by
  induction n generalizing m with
  | zero => rfl
  | succ n ih =>
    have hpair : feed m [.trackDistributed 0 0, .release 0 1 (some 0) false] = [(1, false)] := by
      have hdev : deviation 1 (some 0) = 1 := by decide +kernel
      simp only [feed, observed, apply, trackDistributed, OrdMap.get?_insert_self, Option.map_some,
        hdev]
      rfl
    rw [underuse, List.replicate_succ, List.flatten_cons, feed_append, hpair]
    exact congrArg (List.cons (1, false)) (ih _)

theorem underuse_overEstimates (n : ℕ) : ∀ op ∈ underuse n, OverEstimates op := by
  intro op hop
  obtain ⟨l, hl, hop⟩ := List.mem_flatten.mp hop
  rw [List.eq_of_mem_replicate hl] at hop
  rcases List.mem_cons.mp hop with rfl | hop
  · trivial
  · rw [List.mem_singleton.mp hop]
    exact ⟨rfl, fun a ha => by cases ha; exact zero_le_one⟩

/-- **Over-estimation raises the factor, up to five halves.** After any
calls on a new model whose releases are not throttled and used at most
their estimates, the safety factor is at most the greater of its first
value and five halves; and it is at most its first value after all such
calls exactly when that is five halves or more. -/
theorem overestimation_raises_safety_iff (configured initialSafety : ℚ) :
    (∀ ops, (∀ op ∈ ops, OverEstimates op) →
      ((new configured initialSafety).exec ops).safety ≤
        max (new configured initialSafety).safety (5 / 2)) ∧
    ((∀ ops, (∀ op ∈ ops, OverEstimates op) →
        ((new configured initialSafety).exec ops).safety ≤
          (new configured initialSafety).safety) ↔
      5 / 2 ≤ (new configured initialSafety).safety) := by
  have hbound : ∀ ops, (∀ op ∈ ops, OverEstimates op) →
      ((new configured initialSafety).exec ops).safety ≤
        max (new configured initialSafety).safety (5 / 2) := by
    intro ops hops
    have hmild : (gauge ((new configured initialSafety).exec ops)).Mild
        (new configured initialSafety).safety := by
      rw [gauge_exec rfl]
      exact Gauge.Mild.foldl (feed_overEstimates _ hops) ⟨zero_le_one, le_rfl, le_max_left _ _⟩
    exact hmild.safety
  refine ⟨hbound, ?_, ?_⟩
  · intro hall
    by_contra hlt
    obtain ⟨n, hn⟩ := Gauge.exists_unused_gt (new_within configured initialSafety).one_le_safety
      (not_le.mp hlt)
    have hgauge := gauge_exec (m := new configured initialSafety) rfl (underuse n)
    rw [feed_underuse] at hgauge
    have hsafety : ((new configured initialSafety).exec (underuse n)).safety =
        (Gauge.unused (new configured initialSafety).safety n).safety := congrArg Gauge.safety hgauge
    have hle := hall (underuse n) (underuse_overEstimates n)
    rw [hsafety] at hle
    exact absurd hle (not_le.mpr hn)
  · intro hge ops hops
    exact (hbound ops hops).trans (max_le le_rfl hge)

/-- **A request that used nothing of its estimate makes the next one
dearer.** -/
theorem unused_estimate_raises_safety :
    (new 10 1 : CapacityModel ℚ).safety = 1 ∧
      (∀ op ∈ [Op.reserve 1 (5 : ℚ), .release 1 5 (some 0) false], OverEstimates op) ∧
      1 < ((new 10 1 : CapacityModel ℚ).exec
        [.reserve 1 5, .release 1 5 (some 0) false]).safety := by
  refine ⟨by decide +kernel, fun op hop => ?_, by decide +kernel⟩
  rcases List.mem_cons.mp hop with rfl | hop
  · trivial
  · rw [List.mem_singleton.mp hop]
    exact ⟨rfl, fun a ha => by cases ha; norm_num⟩

end CapacityModel

end InferQos
