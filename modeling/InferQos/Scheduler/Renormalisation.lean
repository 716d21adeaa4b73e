import InferQos.Scheduler.Selection
/-!
# Lowering every charge alike

Once the least charge passes a thousand quanta a pop subtracts it from
every queue. The differences of charges stay, but a credit is the weight
times the quantum over the charge and the quantum, so the credits of two
queues do not move alike. What the subtraction takes from the lead of one
queue over another is its amount times the difference of their weights.
Two fronts keep their order at every clock reading if one of them is no
younger and due no later and its queue leads and is not the heavier one, or
leads by more than that; or if their queues have one weight and one charge.
-/

namespace InferQos

namespace Scheduler

variable {cfg : Config ℚ} {now later : ℕ} {s s' : Inner ℚ} {k k₁ k₂ : QueueKey} {least : ℚ}
variable {m : OrdMap QueueKey (QueueState ℚ)} {q q₁ q₂ : QueueState ℚ} {f₁ f₂ : Queued ℚ}

/-! ## The subtraction -/

/-- What a pop renormalises: the queues with the item taken and charged,
and the key served. -/
def chargedQueues (cfg : Config ℚ) (now : ℕ) (s : Inner ℚ) :
    Option (QueueKey × OrdMap QueueKey (QueueState ℚ)) :=
  (select cfg now s).bind fun k => (s.queues.get? k).bind fun q =>
    match q.items with
    | [] => none
    | item :: rest => some (k, s.queues.insert k
        { q with
          items := rest
          served := q.served + max item.request.estimate.normalizedUnits 1 / max q.weight 1 })

/-- **The least charge is subtracted.** -/
structure Subtracts (cfg : Config ℚ) (m : OrdMap QueueKey (QueueState ℚ)) (least : ℚ) : Prop where
  minimum : Arith.finiteMin (m.values.map (·.served)) = some least
  large : cfg.quantum * 1000 < least

/-- A queue with its charge lowered. -/
def lowered (least : ℚ) (q : QueueState ℚ) : QueueState ℚ := { q with served := q.served - least }

theorem queues_of_popNext (h : chargedQueues cfg now s = some (k, m)) :
    (popNext cfg now s).2.queues = dropEmpty (renormalise cfg m) k := by
  obtain ⟨k₀, hsel, h⟩ := Option.bind_eq_some_iff.mp h
  obtain ⟨q, hq, h⟩ := Option.bind_eq_some_iff.mp h
  cases hitems : q.items with
  | nil =>
    rw [hitems] at h
    cases h
  | cons item rest =>
    rw [hitems] at h
    cases h
    simp only [popNext, hsel, hq, hitems]
    rfl

theorem Subtracts.renormalise (h : Subtracts cfg m least) :
    renormalise cfg m = m.mapVal (lowered least) := by
  unfold Scheduler.renormalise
  rw [h.minimum]
  exact if_pos h.large

/-- Every charge is at least the least. -/
theorem Subtracts.least_le (h : Subtracts cfg m least) (hq : m.get? k = some q) :
    least ≤ q.served :=
  (List.min?_eq_some_iff.mp h.minimum).2 _
    (List.mem_map_of_mem (OrdMap.mem_values.mpr ⟨k, hq⟩))

theorem Subtracts.least_pos (h : Subtracts cfg m least) (hquantum : 0 < cfg.quantum) : 0 < least :=
  lt_trans (mul_pos hquantum (by norm_num)) h.large

/-- The weights are those of the queues before. -/
theorem weight_of_chargedQueues (hc : Charged s) (h : chargedQueues cfg now s = some (k, m))
    (hq : m.get? k₁ = some q) : 1 ≤ q.weight := by
  obtain ⟨k₀, -, h⟩ := Option.bind_eq_some_iff.mp h
  obtain ⟨q₀, hq₀, h⟩ := Option.bind_eq_some_iff.mp h
  cases hitems : q₀.items with
  | nil =>
    rw [hitems] at h
    cases h
  | cons item rest =>
    rw [hitems] at h
    cases h
    rcases OrdMap.get?_insert_eq_some.mp hq with ⟨rfl, rfl⟩ | ⟨-, hq⟩
    · exact (hc _ q₀ hq₀).2
    · exact (hc _ q hq).2

theorem lowered_zero (q : QueueState ℚ) : lowered 0 q = q := by
  unfold lowered
  rw [sub_zero]

theorem compare_add_left (a x y : ℚ) : compare (a + x) (a + y) = compare x y := by
  rcases lt_trichotomy x y with h | h | h
  · rw [compare_lt_iff_lt.mpr h, compare_lt_iff_lt.mpr (by linarith)]
  · rw [h, compare_eq_iff_eq.mpr rfl, compare_eq_iff_eq.mpr rfl]
  · rw [compare_gt_iff_gt.mpr h, compare_gt_iff_gt.mpr (by linarith)]

/-! ## Fronts and their order -/

/-- The fronts of some queues, with their queues. -/
def fronts (es : List (QueueKey × QueueState ℚ)) : List (QueueKey × QueueState ℚ × Queued ℚ) :=
  es.filterMap fun e => e.2.items.head?.map fun front => (e.1, e.2, front)

/-- The candidate of a front whose queue is read through `g`. -/
def candidateVia (cfg : Config ℚ) (now : ℕ) (g : QueueState ℚ → QueueState ℚ)
    (x : QueueKey × QueueState ℚ × Queued ℚ) : QueueKey × ℚ × ℕ :=
  (x.1, score cfg now (g x.2.1) x.2.2, x.2.2.sequence)

/-- Rewriting the queues but not their items rewrites the candidates. -/
theorem candidatesOf_map {g : QueueState ℚ → QueueState ℚ} (hg : ∀ q, (g q).items = q.items)
    (es : List (QueueKey × QueueState ℚ)) :
    candidatesOf cfg now (es.map fun e => (e.1, g e.2)) =
      (fronts es).map (candidateVia cfg now g) := by
  unfold candidatesOf fronts
  rw [List.filterMap_map, List.map_filterMap]
  refine List.filterMap_congr fun e _ => ?_
  simp only [Function.comp_apply, hg, Option.map_map]
  rfl

/-- An emptied queue has no front. -/
theorem candidatesOf_dropEmpty :
    candidatesOf cfg now (dropEmpty m k).entries = candidatesOf cfg now m.entries := by
  unfold dropEmpty
  split
  · rename_i hempty
    obtain ⟨q, hq, hempty⟩ := (Option.any_eq_true _ _).mp hempty
    unfold candidatesOf OrdMap.erase OrdMap.filter
    rw [List.filterMap_filter]
    refine List.filterMap_congr fun e he => ?_
    split
    · rfl
    · rename_i hk
      have hk : e.1 = k := by simpa using hk
      have he : e = (k, q) := OrdMap.entry_unique he (OrdMap.get?_eq_some.mp hq) hk
      rw [he, List.isEmpty_iff.mp hempty]
      rfl
  · rfl

theorem mem_fronts (h : (k, q, f₁) ∈ fronts m.entries) :
    m.get? k = some q ∧ q.items.head? = some f₁ := by
  obtain ⟨e, he, hx⟩ := List.mem_filterMap.mp h
  obtain ⟨front, hfront, hx⟩ := Option.map_eq_some_iff.mp hx
  cases hx
  exact ⟨OrdMap.get?_eq_some.mpr he, hfront⟩

/-- **Two states that select alike and hold the same items return the same
request.** -/
theorem popNext_congr (hsel : select cfg now s = select cfg now s')
    (hitems : ∀ k, itemsIn s.queues k = itemsIn s'.queues k) :
    (popNext cfg now s).1 = (popNext cfg now s').1 := by
  cases h : select cfg now s with
  | none => simp only [popNext, ← hsel, h]
  | some k =>
    obtain ⟨q, item, rest, hq, hqi⟩ := select_spec cfg now h
    obtain ⟨q', item', rest', hq', hqi'⟩ := select_spec cfg now (hsel ▸ h)
    have heq := hitems k
    rw [itemsIn_of_get? hq, itemsIn_of_get? hq', hqi, hqi'] at heq
    obtain ⟨rfl, rfl⟩ := List.cons.inj heq
    simp only [popNext, ← hsel, h, hq, hq', hqi, hqi']

/-! ## The lead of one queue over another -/

/-- What the credit of one queue has over that of another, the two over one
denominator. -/
def lead (cfg : Config ℚ) (q₁ q₂ : QueueState ℚ) : ℚ :=
  q₁.weight * (q₂.served + cfg.quantum) - q₂.weight * (q₁.served + cfg.quantum)

theorem lead_swap (cfg : Config ℚ) (q₁ q₂ : QueueState ℚ) : lead cfg q₂ q₁ = -lead cfg q₁ q₂ := by
  unfold lead
  ring

/-- **The subtraction costs the heavier queue its amount for every unit of
weight more.** -/
theorem lead_lowered (cfg : Config ℚ) (least : ℚ) (q₁ q₂ : QueueState ℚ) :
    lead cfg (lowered least q₁) (lowered least q₂) =
      lead cfg q₁ q₂ - least * (q₁.weight - q₂.weight) := by
  unfold lead lowered
  ring

/-- **One front stays ahead of another**: it was enqueued no later and is
due no later, and its queue leads, and is not the heavier one or leads by
more than the subtraction costs it. -/
structure StaysAhead (cfg : Config ℚ) (least : ℚ) (q₁ q₂ : QueueState ℚ) (f₁ f₂ : Queued ℚ) :
    Prop where
  enqueued : f₁.enqueuedNs ≤ f₂.enqueuedNs
  due : f₁.deadlineNs ≤ f₂.deadlineNs
  leads : 0 < lead cfg q₁ q₂
  margin : q₁.weight ≤ q₂.weight ∨ least * (q₁.weight - q₂.weight) < lead cfg q₁ q₂

/-- **The order of two fronts is settled**: their queues have one weight and
one charge, or one front stays ahead of the other. -/
def Settled (cfg : Config ℚ) (least : ℚ) (q₁ q₂ : QueueState ℚ) (f₁ f₂ : Queued ℚ) : Prop :=
  q₁.weight = q₂.weight ∧ q₁.served = q₂.served ∨
    StaysAhead cfg least q₁ q₂ f₁ f₂ ∨ StaysAhead cfg least q₂ q₁ f₂ f₁

section Lead

variable (hquantum : 0 < cfg.quantum) (h₁ : 0 < q₁.served + cfg.quantum)
variable (h₂ : 0 < q₂.served + cfg.quantum)
include hquantum h₁ h₂

/-- The greater credit is the one that leads. -/
theorem fair_lt_iff_lead : fair cfg q₂ < fair cfg q₁ ↔ 0 < lead cfg q₁ q₂ := by
  unfold fair lead
  rw [div_lt_div_iff₀ h₂ h₁, sub_pos, mul_right_comm, mul_right_comm q₁.weight]
  exact mul_lt_mul_iff_left₀ hquantum

theorem score_lt_of_lead (henqueued : f₁.enqueuedNs ≤ f₂.enqueuedNs)
    (hdue : f₁.deadlineNs ≤ f₂.deadlineNs) (hlead : 0 < lead cfg q₁ q₂) (now : ℕ) :
    score cfg now q₂ f₂ < score cfg now q₁ f₁ := by
  have hfair := (fair_lt_iff_lead hquantum h₁ h₂).mpr hlead
  have hage := ageBoost_anti cfg now henqueued
  have hdeadline := deadlineBoost_anti cfg now hdue
  unfold score
  linarith

/-- Fronts of one enqueue time and one deadline compare as their queues
lead. -/
theorem compare_score_of_alike (henqueued : f₁.enqueuedNs = f₂.enqueuedNs)
    (hdue : f₁.deadlineNs = f₂.deadlineNs) (now : ℕ) :
    compare (score cfg now q₁ f₁) (score cfg now q₂ f₂) = compare (lead cfg q₁ q₂) 0 := by
  rcases lt_trichotomy (lead cfg q₁ q₂) 0 with hlt | heq | hgt
  · rw [compare_lt_iff_lt.mpr hlt, compare_lt_iff_lt]
    refine score_lt_of_lead hquantum h₂ h₁ henqueued.ge hdue.ge ?_ now
    rw [lead_swap]
    exact neg_pos.mpr hlt
  · rw [compare_eq_iff_eq.mpr heq, compare_eq_iff_eq]
    have hle := (not_congr (fair_lt_iff_lead hquantum h₁ h₂)).mpr heq.not_gt
    have hge := (not_congr (fair_lt_iff_lead hquantum h₂ h₁)).mpr
      (by rw [lead_swap, heq, neg_zero]; exact lt_irrefl 0)
    have hfair : fair cfg q₁ = fair cfg q₂ := le_antisymm (not_lt.mp hle) (not_lt.mp hge)
    unfold score ageBoost deadlineBoost
    rw [hfair, henqueued, hdue]
  · rw [compare_gt_iff_gt.mpr hgt, compare_gt_iff_gt]
    exact score_lt_of_lead hquantum h₁ h₂ henqueued.le hdue.le hgt now

end Lead

section Order

variable (hquantum : 0 < cfg.quantum) (hleast : 0 < least) (h₁ : least ≤ q₁.served)
variable (h₂ : least ≤ q₂.served)
include hquantum hleast h₁ h₂

/-- A front that stays ahead is ahead before and after. -/
theorem StaysAhead.score_lt (h : StaysAhead cfg least q₁ q₂ f₁ f₂) (now : ℕ) :
    score cfg now q₂ f₂ < score cfg now q₁ f₁ ∧
      score cfg now (lowered least q₂) f₂ < score cfg now (lowered least q₁) f₁ := by
  refine ⟨score_lt_of_lead hquantum (by linarith) (by linarith) h.enqueued h.due h.leads now, ?_⟩
  refine score_lt_of_lead hquantum ?_ ?_ h.enqueued h.due ?_ now
  · change 0 < q₁.served - least + cfg.quantum
    linarith
  · change 0 < q₂.served - least + cfg.quantum
    linarith
  · rw [lead_lowered]
    rcases h.margin with hlight | hmargin
    · have hcost : least * (q₁.weight - q₂.weight) ≤ 0 :=
        mul_nonpos_of_nonneg_of_nonpos hleast.le (sub_nonpos.mpr hlight)
      linarith [h.leads]
    · exact sub_pos.mpr hmargin

/-- **Settled fronts keep their order at every clock reading.** -/
theorem Settled.order_kept (h : Settled cfg least q₁ q₂ f₁ f₂) (now : ℕ) :
    compare (score cfg now q₁ f₁) (score cfg now q₂ f₂) =
      compare (score cfg now (lowered least q₁) f₁) (score cfg now (lowered least q₂) f₂) := by
  rcases h with ⟨hweight, hserved⟩ | hahead | hahead
  · have hfair : ∀ δ, fair cfg (lowered δ q₁) = fair cfg (lowered δ q₂) := by
      intro δ
      unfold fair lowered
      rw [hweight, hserved]
    have hzero := hfair 0
    rw [lowered_zero, lowered_zero] at hzero
    unfold score
    rw [hzero, hfair least, add_assoc, add_assoc, add_assoc, add_assoc, compare_add_left,
      compare_add_left]
  · obtain ⟨hbefore, hafter⟩ := hahead.score_lt hquantum hleast h₁ h₂ now
    rw [compare_gt_iff_gt.mpr hbefore, compare_gt_iff_gt.mpr hafter]
  · obtain ⟨hbefore, hafter⟩ := hahead.score_lt hquantum hleast h₂ h₁ now
    rw [compare_lt_iff_lt.mpr hbefore, compare_lt_iff_lt.mpr hafter]

/-- **And of fronts of one enqueue time and one deadline no others do.** -/
theorem order_kept_iff_settled (hw : 0 < q₁.weight) (henqueued : f₁.enqueuedNs = f₂.enqueuedNs)
    (hdue : f₁.deadlineNs = f₂.deadlineNs) :
    (∀ now, compare (score cfg now q₁ f₁) (score cfg now q₂ f₂) =
        compare (score cfg now (lowered least q₁) f₁) (score cfg now (lowered least q₂) f₂)) ↔
      Settled cfg least q₁ q₂ f₁ f₂ := by
  refine ⟨fun h => ?_, fun h now => h.order_kept hquantum hleast h₁ h₂ now⟩
  have hpos₁ : 0 < (lowered least q₁).served + cfg.quantum := by
    change 0 < q₁.served - least + cfg.quantum
    linarith
  have hpos₂ : 0 < (lowered least q₂).served + cfg.quantum := by
    change 0 < q₂.served - least + cfg.quantum
    linarith
  have hkept := h 0
  rw [compare_score_of_alike hquantum (by linarith) (by linarith) henqueued hdue,
    compare_score_of_alike hquantum hpos₁ hpos₂ henqueued hdue, lead_lowered] at hkept
  rcases lt_trichotomy (lead cfg q₁ q₂) 0 with hlt | heq | hgt
  · rw [compare_lt_iff_lt.mpr hlt, eq_comm, compare_lt_iff_lt] at hkept
    refine Or.inr (Or.inr ⟨henqueued.ge, hdue.ge, ?_, Or.inr ?_⟩)
    · rw [lead_swap]
      linarith
    · rw [lead_swap]
      linarith
  · -- the lead is none before and after, so the weights are equal
    rw [compare_eq_iff_eq.mpr heq, eq_comm, compare_eq_iff_eq, heq, zero_sub, neg_eq_zero,
      mul_eq_zero, sub_eq_zero] at hkept
    have hweight := hkept.resolve_left hleast.ne'
    refine Or.inl ⟨hweight, ?_⟩
    unfold lead at heq
    rw [← hweight, ← mul_sub, mul_eq_zero] at heq
    linarith [heq.resolve_left hw.ne']
  · rw [compare_gt_iff_gt.mpr hgt, eq_comm, compare_gt_iff_gt] at hkept
    exact Or.inr (Or.inl ⟨henqueued.le, hdue.le, hgt, Or.inr (sub_pos.mp hkept)⟩)

end Order

/-! ## The next request -/

/-- **Where every two fronts are settled, the selection stays.** -/
theorem select_renormalise (hquantum : 0 < cfg.quantum) (hsub : Subtracts cfg m least)
    (hs : s.queues = dropEmpty (renormalise cfg m) k) (hs' : s'.queues = dropEmpty m k)
    (h : ∀ k₁ k₂ q₁ q₂ f₁ f₂, m.get? k₁ = some q₁ → q₁.items.head? = some f₁ →
      m.get? k₂ = some q₂ → q₂.items.head? = some f₂ → Settled cfg least q₁ q₂ f₁ f₂) :
    select cfg now s = select cfg now s' := by
  have hafter : candidates cfg now s =
      (fronts m.entries).map (candidateVia cfg now (lowered least)) := by
    rw [hsub.renormalise] at hs
    rw [← candidatesOf_map (g := lowered least) fun _ => rfl]
    change candidatesOf cfg now s.queues.entries = candidatesOf cfg now (m.mapVal _).entries
    rw [hs, candidatesOf_dropEmpty]
  have hbefore : candidates cfg now s' = (fronts m.entries).map (candidateVia cfg now id) := by
    rw [← candidatesOf_map (g := id) fun _ => rfl]
    change candidatesOf cfg now s'.queues.entries = candidatesOf cfg now (m.entries.map id)
    rw [hs', candidatesOf_dropEmpty, List.map_id]
  unfold select
  rw [hafter, hbefore, maxBy_map, maxBy_map, Option.map_map, Option.map_map]
  refine congrArg (Option.map Prod.fst) (maxBy_congr ?_)
  rintro ⟨k₁, q₁, f₁⟩ hf₁ ⟨k₂, q₂, f₂⟩ hf₂
  obtain ⟨hq₁, hf₁⟩ := mem_fronts hf₁
  obtain ⟨hq₂, hf₂⟩ := mem_fronts hf₂
  have hkept := (h k₁ k₂ q₁ q₂ f₁ f₂ hq₁ hf₁ hq₂ hf₂).order_kept hquantum
    (hsub.least_pos hquantum) (hsub.least_le hq₁) (hsub.least_le hq₂) now
  exact congrArg (·.then (compare f₂.sequence f₁.sequence)) hkept.symm

/-- **When renormalising is neutral.** For every reachable scheduler with a
positive quantum and every clock reading at which a pop subtracts the least
charge: the pop leaves the queues it charged with that much less on each;
settled fronts keep the order of their scores at every reading, and among
fronts of one enqueue time and one deadline only they do; and where every
two fronts are settled, the request served next is, at every reading, the
one that would be served without the subtraction. -/
theorem renormalising_neutral (cfg : Config ℚ) (hquantum : 0 < cfg.quantum)
    (calls : List (Call ℚ)) (now : ℕ)
    (hm : chargedQueues cfg now (exec cfg calls) = some (k, m)) (hsub : Subtracts cfg m least) :
    (popNext cfg now (exec cfg calls)).2.queues = dropEmpty (m.mapVal (lowered least)) k ∧
    (∀ k₁ k₂ q₁ q₂ f₁ f₂, m.get? k₁ = some q₁ → q₁.items.head? = some f₁ →
      m.get? k₂ = some q₂ → q₂.items.head? = some f₂ →
      (Settled cfg least q₁ q₂ f₁ f₂ →
        ∀ later, compare (score cfg later q₁ f₁) (score cfg later q₂ f₂) =
          compare (score cfg later (lowered least q₁) f₁)
            (score cfg later (lowered least q₂) f₂)) ∧
      (f₁.enqueuedNs = f₂.enqueuedNs → f₁.deadlineNs = f₂.deadlineNs →
        (∀ later, compare (score cfg later q₁ f₁) (score cfg later q₂ f₂) =
          compare (score cfg later (lowered least q₁) f₁)
            (score cfg later (lowered least q₂) f₂)) →
        Settled cfg least q₁ q₂ f₁ f₂)) ∧
    ((∀ k₁ k₂ q₁ q₂ f₁ f₂, m.get? k₁ = some q₁ → q₁.items.head? = some f₁ →
        m.get? k₂ = some q₂ → q₂.items.head? = some f₂ → Settled cfg least q₁ q₂ f₁ f₂) →
      ∀ later, (popNext cfg later (popNext cfg now (exec cfg calls)).2).1 =
        (popNext cfg later
          { (popNext cfg now (exec cfg calls)).2 with queues := dropEmpty m k }).1) := by
  have hqueues := queues_of_popNext hm
  have hleast := hsub.least_pos hquantum
  refine ⟨hsub.renormalise ▸ hqueues, ?_, ?_⟩
  · intro k₁ k₂ q₁ q₂ f₁ f₂ hq₁ _ hq₂ _
    refine ⟨fun h later => ?_, fun henqueued hdue h => ?_⟩
    · exact h.order_kept hquantum hleast (hsub.least_le hq₁) (hsub.least_le hq₂) later
    · have hw := weight_of_chargedQueues (exec_charged cfg calls) hm hq₁
      exact (order_kept_iff_settled hquantum hleast (hsub.least_le hq₁) (hsub.least_le hq₂)
        (by linarith) henqueued hdue).mp h
  · intro hall later
    refine popNext_congr (select_renormalise hquantum hsub hqueues rfl hall) fun k' => ?_
    rw [hqueues, itemsIn_dropEmpty, itemsIn_dropEmpty]
    unfold itemsIn
    rw [get?_renormalise]

/-- A request of this many units. -/
def heavyRequest (id : Uuid) (tenant : String) (units : ℚ) : AdmissionRequest ℚ :=
  { backlogRequest id tenant with estimate := ⟨1, 1, 0, 1, units, 1, .approximation⟩ }

/-- Two requests of each of two tenants at clock reading zero, and the pop
of the second tenant's first. -/
def renormalisingCalls (units weight : ℕ) : List (Call ℚ) :=
  [⟨0, .enqueue (heavyRequest 0 "light" 2000000) 1 1 1 1⟩,
    ⟨0, .enqueue (heavyRequest 1 "light" 2000000) 1 1 1 1⟩,
    ⟨0, .enqueue (heavyRequest 2 "heavy" units) 1 1 weight 1⟩,
    ⟨0, .enqueue (heavyRequest 3 "heavy" units) 1 1 weight 1⟩, ⟨0, .popNext⟩]

/-- A tenant of weight four leads one of weight one by more than the
subtraction costs it, and is served next with it or without. -/
theorem renormalising_neutral_for_leader :
    ∃ k m, chargedQueues backlogConfig 0 (exec backlogConfig (renormalisingCalls 6000000 4)) =
        some (k, m) ∧ Subtracts backlogConfig m 1500000 ∧
      ∀ later, (popNext backlogConfig later (popNext backlogConfig 0
          (exec backlogConfig (renormalisingCalls 6000000 4))).2).1 =
        (popNext backlogConfig later
          { (popNext backlogConfig 0 (exec backlogConfig (renormalisingCalls 6000000 4))).2 with
            queues := dropEmpty m k }).1 := by
  have hrun : (chargedQueues backlogConfig 0
      (exec backlogConfig (renormalisingCalls 6000000 4))).any (fun x =>
        Arith.finiteMin (x.2.values.map (·.served)) = some 1500000 ∧
        (∀ q ∈ x.2.values, ∀ f ∈ q.items, f.enqueuedNs = 0 ∧ f.deadlineNs = 1000) ∧
        ∀ q₁ ∈ x.2.values, ∀ q₂ ∈ x.2.values, q₁.weight = q₂.weight ∧ q₁.served = q₂.served ∨
          0 < lead backlogConfig q₁ q₂ ∧
            1500000 * (q₁.weight - q₂.weight) < lead backlogConfig q₁ q₂ ∨
          0 < lead backlogConfig q₂ q₁ ∧
            1500000 * (q₂.weight - q₁.weight) < lead backlogConfig q₂ q₁) = true := by
    decide +kernel
  obtain ⟨⟨k, m⟩, hm, hrun⟩ := (Option.any_eq_true _ _).mp hrun
  obtain ⟨hleast, htimes, hleads⟩ := of_decide_eq_true hrun
  have hsub : Subtracts backlogConfig m 1500000 := ⟨hleast, by decide +kernel⟩
  refine ⟨k, m, hm, hsub, fun later => ?_⟩
  refine (renormalising_neutral backlogConfig (by decide +kernel) _ 0 hm hsub).2.2 ?_ later
  intro k₁ k₂ q₁ q₂ f₁ f₂ hq₁ hf₁ hq₂ hf₂
  have hmem₁ : q₁ ∈ m.values := OrdMap.mem_values.mpr ⟨k₁, hq₁⟩
  have hmem₂ : q₂ ∈ m.values := OrdMap.mem_values.mpr ⟨k₂, hq₂⟩
  obtain ⟨he₁, hd₁⟩ := htimes q₁ hmem₁ f₁ (List.mem_of_mem_head? hf₁)
  obtain ⟨he₂, hd₂⟩ := htimes q₂ hmem₂ f₂ (List.mem_of_mem_head? hf₂)
  refine (hleads q₁ hmem₁ q₂ hmem₂).imp_right (Or.imp ?_ ?_)
  · rintro ⟨hlead, hmargin⟩
    exact ⟨he₁.trans_le he₂.ge, hd₁.trans_le hd₂.ge, hlead, Or.inr hmargin⟩
  · rintro ⟨hlead, hmargin⟩
    exact ⟨he₂.trans_le he₁.ge, hd₂.trans_le hd₁.ge, hlead, Or.inr hmargin⟩

/-- **The subtraction reverses two queues.** A tenant of weight four has
been charged eight million, one of weight one two million. The pop that
charges the latter subtracts the two million from both: before it the
former scores higher and would be served next, after it the latter does
and is. -/
theorem renormalising_reverses :
    ∃ k m q₁ q₂ f₁ f₂, chargedQueues backlogConfig 0
        (exec backlogConfig (renormalisingCalls 32000000 4)) = some (k, m) ∧
      Subtracts backlogConfig m 2000000 ∧
      m.get? (backlogKey "light") = some q₁ ∧ q₁.items.head? = some f₁ ∧
      m.get? (backlogKey "heavy") = some q₂ ∧ q₂.items.head? = some f₂ ∧
      score backlogConfig 0 q₁ f₁ < score backlogConfig 0 q₂ f₂ ∧
      score backlogConfig 0 (lowered 2000000 q₂) f₂ < score backlogConfig 0 (lowered 2000000 q₁) f₁ ∧
      (popNext backlogConfig 0 (popNext backlogConfig 0
        (exec backlogConfig (renormalisingCalls 32000000 4))).2).1 =
          .ok (some (heavyRequest 1 "light" 2000000)) ∧
      (popNext backlogConfig 0
        { (popNext backlogConfig 0 (exec backlogConfig (renormalisingCalls 32000000 4))).2 with
          queues := dropEmpty m k }).1 = .ok (some (heavyRequest 3 "heavy" 32000000)) := by
  have hrun : (chargedQueues backlogConfig 0
      (exec backlogConfig (renormalisingCalls 32000000 4))).any (fun x =>
        Arith.finiteMin (x.2.values.map (·.served)) = some 2000000 ∧
        (popNext backlogConfig 0
          { (popNext backlogConfig 0 (exec backlogConfig (renormalisingCalls 32000000 4))).2 with
            queues := dropEmpty x.2 x.1 }).1 = .ok (some (heavyRequest 3 "heavy" 32000000)) ∧
        (x.2.get? (backlogKey "light")).any fun q₁ => q₁.items.head?.any fun f₁ =>
          (x.2.get? (backlogKey "heavy")).any fun q₂ => q₂.items.head?.any fun f₂ =>
            score backlogConfig 0 q₁ f₁ < score backlogConfig 0 q₂ f₂ ∧
            score backlogConfig 0 (lowered 2000000 q₂) f₂ <
              score backlogConfig 0 (lowered 2000000 q₁) f₁) = true := by
    decide +kernel
  obtain ⟨⟨k, m⟩, hm, hrun⟩ := (Option.any_eq_true _ _).mp hrun
  obtain ⟨hleast, hnext, hpair⟩ := of_decide_eq_true hrun
  obtain ⟨q₁, hq₁, hpair⟩ := (Option.any_eq_true _ _).mp hpair
  obtain ⟨f₁, hf₁, hpair⟩ := (Option.any_eq_true _ _).mp hpair
  obtain ⟨q₂, hq₂, hpair⟩ := (Option.any_eq_true _ _).mp hpair
  obtain ⟨f₂, hf₂, hpair⟩ := (Option.any_eq_true _ _).mp hpair
  obtain ⟨hbefore, hafter⟩ := of_decide_eq_true hpair
  exact ⟨k, m, q₁, q₂, f₁, f₂, hm, ⟨hleast, by decide +kernel⟩, hq₁, hf₁, hq₂, hf₂, hbefore, hafter,
    by decide +kernel, hnext⟩

end Scheduler

end InferQos
