import InferQos.Simulator.Order
import InferQos.Simulator.Peak
import Mathlib.Tactic.Linarith
/-!
# The reports of the classes

Replay puts the projected wait of every request under its class, and
reports percentiles of each class by reading a sorted list at a rounded
index. In exact arithmetic the index is always one of the list, so the
default that stands behind the lookup is never reported; and a class
reports on its own requests, all of them, and on no others
(`class_reports_partition`).
-/

namespace InferQos

namespace Simulator

open Arith Rounding

variable {n : ℕ} {p q : ℚ} {v : List ℕ} {name : String} {capacity : ℚ} {events : List TraceEvent}

/-! ## Percentiles -/

/-- Where a percentile of a list of this length is read. -/
def percentileIndex (F : Type) [Rounding F] (n : ℕ) (p : ℚ) : ℕ :=
  toU64 (Rounding.round (lit (n - 1 : ℕ) * lit p : F))

theorem percentile_eq_getD (v : List ℕ) (p : ℚ) :
    percentile ℚ v p = v[percentileIndex ℚ v.length p]?.getD 0 := rfl

/-- The index is the nearest one, up to the largest a machine has. -/
theorem percentileIndex_eq (n : ℕ) (h : 0 ≤ p) :
    percentileIndex ℚ n p = min ⌊((n - 1 : ℕ) : ℚ) * p + 1 / 2⌋₊ (2 ^ 64 - 1) := by
  have hpos : (0 : ℚ) ≤ ((n - 1 : ℕ) : ℚ) * p := mul_nonneg (Nat.cast_nonneg _) h
  have hround : Rounding.round (((n - 1 : ℕ) : ℚ) * p) = (⌊((n - 1 : ℕ) : ℚ) * p + 1 / 2⌋ : ℚ) :=
    if_pos hpos
  unfold percentileIndex
  rw [lit_rat, lit_rat, hround]
  change min ⌊((⌊((n - 1 : ℕ) : ℚ) * p + 1 / 2⌋ : ℤ) : ℚ)⌋.toNat (2 ^ 64 - 1) = _
  rw [Int.floor_intCast, Int.floor_toNat]

/-- **The index is in range**: the last one is as far as a share of the way
can be. -/
theorem percentileIndex_lt (hn : 0 < n) (h0 : 0 ≤ p) (h1 : p ≤ 1) : percentileIndex ℚ n p < n := by
  rw [percentileIndex_eq n h0]
  refine lt_of_le_of_lt (min_le_left _ _) ?_
  have hlast : ((n - 1 : ℕ) : ℚ) * p ≤ (n - 1 : ℕ) := mul_le_of_le_one_right (Nat.cast_nonneg _) h1
  have hcast : ((n - 1 : ℕ) : ℚ) = n - 1 := Nat.cast_pred hn
  refine (Nat.floor_lt (add_nonneg (mul_nonneg (Nat.cast_nonneg _) h0) one_half_pos.le)).mpr ?_
  linarith

theorem percentileIndex_mono (n : ℕ) (h0 : 0 ≤ p) (h : p ≤ q) :
    percentileIndex ℚ n p ≤ percentileIndex ℚ n q := by
  rw [percentileIndex_eq n h0, percentileIndex_eq n (h0.trans h)]
  have hmul : ((n - 1 : ℕ) : ℚ) * p ≤ ((n - 1 : ℕ) : ℚ) * q :=
    mul_le_mul_of_nonneg_left h (Nat.cast_nonneg _)
  exact min_le_min (Nat.floor_le_floor (by linarith)) le_rfl

/-- **The default is never read.** -/
theorem getElem?_percentileIndex (hv : v ≠ []) (h0 : 0 ≤ p) (h1 : p ≤ 1) :
    v[percentileIndex ℚ v.length p]? = some (percentile ℚ v p) := by
  have hlt := percentileIndex_lt (List.length_pos_of_ne_nil hv) h0 h1
  rw [percentile_eq_getD, List.getElem?_eq_getElem hlt, Option.getD_some]

theorem percentile_mem (hv : v ≠ []) (h0 : 0 ≤ p) (h1 : p ≤ 1) : percentile ℚ v p ∈ v :=
  List.mem_of_getElem? (getElem?_percentileIndex hv h0 h1)

/-- Of a sorted list, a higher percentile is not less. -/
theorem percentile_mono (hs : v.Pairwise (· ≤ ·)) (hv : v ≠ []) (h0 : 0 ≤ p) (h : p ≤ q)
    (h1 : q ≤ 1) : percentile ℚ v p ≤ percentile ℚ v q := by
  obtain ⟨hi, hp⟩ := List.getElem?_eq_some_iff.mp (getElem?_percentileIndex hv h0 (h.trans h1))
  obtain ⟨hj, hq⟩ := List.getElem?_eq_some_iff.mp (getElem?_percentileIndex hv (h0.trans h) h1)
  rw [← hp, ← hq]
  rcases (percentileIndex_mono v.length h0 h).eq_or_lt with heq | hlt
  · simp only [heq, le_refl]
  · exact List.pairwise_iff_getElem.mp hs _ _ hi hj hlt

/-! ## Classes -/

/-- The projected waits of the requests of a class. -/
def waitsOf (capacity : ℚ) (name : String) (events : List TraceEvent) : List ℕ :=
  (events.filter fun e => e.serviceClass = name).map fun e => wait capacity e (e.work : ℚ)

theorem mem_waitsOf {w : ℕ} : w ∈ waitsOf capacity name events ↔
    ∃ e ∈ events, e.serviceClass = name ∧ w = wait capacity e (e.work : ℚ) := by
  simp only [waitsOf, List.mem_map, List.mem_filter, decide_eq_true_eq, and_assoc, @eq_comm _ w]

theorem waitsOf_ne_nil (capacity : ℚ) (name : String) (events : List TraceEvent) :
    waitsOf capacity name events ≠ [] ↔ ∃ e ∈ events, e.serviceClass = name := by
  simp [waitsOf, List.filter_eq_nil_iff]

theorem byClass_eq (capacity : ℚ) (events : List TraceEvent) :
    byClass capacity events =
      .collect (events.map fun e => (e.serviceClass, wait capacity e (e.work : ℚ))) := by
  unfold byClass
  rw [zip_work, List.map_map]
  rfl

theorem valuesAt_waits (capacity : ℚ) (name : String) (events : List TraceEvent) :
    OrdMap.valuesAt name (events.map fun e => (e.serviceClass, wait capacity e (e.work : ℚ))) =
      waitsOf capacity name events := by
  simp [OrdMap.valuesAt, waitsOf, List.filter_map, Function.comp_def]

/-- **What a class reports on.** -/
theorem get?_classes (capacity : ℚ) (events : List TraceEvent) (name : String) :
    (classes capacity events).get? name = if waitsOf capacity name events = [] then none
      else some (classReport ℚ name (waitsOf capacity name events)) := by
  unfold classes
  rw [OrdMap.get?_mapWithKey, byClass_eq, OrdMap.get?_collect, valuesAt_waits]
  split
  · rfl
  · rfl

/-- **No request is reported twice, and none is lost.** -/
theorem sum_requests_classes (capacity : ℚ) (events : List TraceEvent) :
    ((classes capacity events).values.map ClassReport.requests).sum = events.length := by
  have hlength : ∀ (name : String) (waits : List ℕ),
      (classReport ℚ name waits).requests = waits.length := fun _ waits =>
    (sortByKey_perm id waits).length_eq
  calc ((classes capacity events).values.map ClassReport.requests).sum
      = (classes capacity events).sumOn fun _ r => r.requests := by
        rw [OrdMap.values, List.map_map]
        rfl
    _ = (byClass capacity events).sumOn fun _ waits => waits.length := by
        unfold classes
        rw [OrdMap.sumOn_mapWithKey]
        simp only [hlength]
    _ = events.length := by
        rw [byClass_eq, OrdMap.sumOn_length_collect, List.length_map]

/-- **What a report is put together from**: the classes of the sorted trace,
and texts of the program. -/
theorem report_of_replay {F : Type} [Rounding F] {capacity : F} {cost inc : Option F}
    {report : ReplayReport F} (h : replay events capacity cost inc = .ok report) :
    report.classes = classes capacity (sorted events) ∧ report.assumptions = assumptions ∧
      (∃ n, report.confidence = confidence n) ∧
      ∃ avg peak sustained queueable,
        report.recommendation = recommendation capacity avg peak sustained queueable := by
  unfold replay at h
  split at h
  · cases h
  · split at h
    · cases h
    · cases h
      exact ⟨rfl, rfl, ⟨_, rfl⟩, _, _, _, _, rfl⟩

/-- The three percentiles of a report, with what each is of the way
through. -/
def ClassReport.percentiles (r : ClassReport) : List (ℚ × ℕ) :=
  [(50 / 100, r.queueP50Ms), (95 / 100, r.queueP95Ms), (99 / 100, r.queueP99Ms)]

/-- A report reads each of its percentiles off the sorted waits. -/
theorem percentiles_classReport (name : String) (waits : List ℕ) :
    (classReport ℚ name waits).percentiles =
      [50 / 100, 95 / 100, 99 / 100].map fun p => (p, percentile ℚ (sortByKey id waits) p) := rfl

/-- **The reports of the classes partition the trace.** For every trace
that replay accepts: the requests of the classes sum to the events, and
there is a class for every name that occurs. A class reports as many
requests as it has events; every percentile index is one of its list; each
percentile is what the sorted waits of the class have at its index, and the
wait of one of its events; the three are in order; and the violations are
the waits of the class above its deadline. -/
theorem class_reports_partition (events : List TraceEvent) (capacity : ℚ) (cost inc : Option ℚ)
    (report : ReplayReport ℚ) (h : replay events capacity cost inc = .ok report) :
    (report.classes.values.map ClassReport.requests).sum = events.length ∧
    (∀ name, (report.classes.get? name).isSome = true ↔ ∃ e ∈ events, e.serviceClass = name) ∧
    ∀ name r, report.classes.get? name = some r →
      r.requests = (waitsOf capacity name events).length ∧
      (∀ p, 0 ≤ p → p ≤ 1 → percentileIndex ℚ r.requests p < r.requests) ∧
      (∀ c ∈ r.percentiles,
        (sortByKey id (waitsOf capacity name events))[percentileIndex ℚ r.requests c.1]? =
          some c.2 ∧
        ∃ e ∈ events, e.serviceClass = name ∧ c.2 = wait capacity e (e.work : ℚ)) ∧
      (r.queueP50Ms ≤ r.queueP95Ms ∧ r.queueP95Ms ≤ r.queueP99Ms) ∧
      r.deadlineViolations =
        (waitsOf capacity name events).countP fun w => decide (deadlineFor name < w) := by
  rw [(report_of_replay h).1, classes_perm (sortByKey_perm TraceEvent.timestampMs events)]
  refine ⟨sum_requests_classes capacity events, fun name => ?_, fun name r hr => ?_⟩
  · rw [get?_classes, ← waitsOf_ne_nil capacity]
    by_cases hnil : waitsOf capacity name events = []
    · simp [hnil]
    · simp [hnil]
  rw [get?_classes] at hr
  split at hr
  · cases hr
  rename_i hne
  set waits := waitsOf capacity name events with hwaits
  cases hr
  set values := sortByKey id waits with hvalues
  have hperm : values.Perm waits := sortByKey_perm id waits
  have hsorted : values.Pairwise (· ≤ ·) := sortedBy_sortByKey id waits
  have hvne : values ≠ [] := fun hnil => hne (hnil ▸ hperm).nil_eq.symm
  have hrequests : (classReport ℚ name waits).requests = values.length := rfl
  have hrange : ∀ c ∈ (classReport ℚ name waits).percentiles,
      0 ≤ c.1 ∧ c.1 ≤ 1 ∧ c.2 = percentile ℚ values c.1 := by
    rw [percentiles_classReport]
    intro c hc
    obtain ⟨p, hp, rfl⟩ := List.mem_map.mp hc
    simp only [List.mem_cons, List.not_mem_nil, or_false] at hp
    rcases hp with rfl | rfl | rfl
    · exact ⟨by norm_num, by norm_num, rfl⟩
    · exact ⟨by norm_num, by norm_num, rfl⟩
    · exact ⟨by norm_num, by norm_num, rfl⟩
  refine ⟨hperm.length_eq, fun p h0 h1 => ?_, fun c hc => ⟨?_, ?_⟩, ⟨?_, ?_⟩, hperm.countP_eq _⟩
  · rw [hrequests]
    exact percentileIndex_lt (List.length_pos_of_ne_nil hvne) h0 h1
  · obtain ⟨h0, h1, heq⟩ := hrange c hc
    rw [hrequests, heq]
    exact getElem?_percentileIndex hvne h0 h1
  · obtain ⟨h0, h1, heq⟩ := hrange c hc
    rw [heq]
    exact mem_waitsOf.mp (hperm.mem_iff.mp (percentile_mem hvne h0 h1))
  · exact percentile_mono hsorted hvne (by norm_num) (by norm_num) (by norm_num)
  · exact percentile_mono hsorted hvne (by norm_num) (by norm_num) (by norm_num)

/-- Two requests of one class and one of another. -/
def twoClasses : List TraceEvent :=
  [{ timestampMs := 0, serviceClass := "batch", inputTokens := 100 },
    { timestampMs := 5, serviceClass := "realtime", inputTokens := 40 },
    { timestampMs := 9, serviceClass := "batch", inputTokens := 20 }]

/-- Both are reported on, and all three requests counted. -/
theorem class_reports_of_two_classes : ∃ report, replay twoClasses (10 : ℚ) none none = .ok report ∧
    (report.classes.values.map ClassReport.requests).sum = 3 ∧
    (report.classes.get? "batch").isSome = true ∧
    (report.classes.get? "realtime").isSome = true := by
  obtain ⟨report, h⟩ := (replay_peak twoClasses 10 none none).2 (by decide) (by norm_num)
  obtain ⟨hsum, hnames, -⟩ := class_reports_partition twoClasses 10 none none report h
  exact ⟨report, h, hsum, (hnames _).mpr ⟨twoClasses.head (by decide), by simp, rfl⟩,
    (hnames _).mpr ⟨_, List.mem_cons_of_mem _ List.mem_cons_self, rfl⟩⟩

end Simulator

end InferQos
