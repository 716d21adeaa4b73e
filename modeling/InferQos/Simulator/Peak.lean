import InferQos.Simulator.Order
import Mathlib.Tactic.Linarith
import Mathlib.Tactic.NormNum
/-!
# Peak and average demand

The peak is the demand of the fullest second, the average the whole work
over the time between the first request and the last. Seconds are counted
from the first request, and the last one begins at or before the last
request: a trace whose requests fall into `n + 1` seconds in a row may last
for `n` seconds only, and its average is then above what each second held.
-/

namespace InferQos

namespace Simulator

open Arith

variable {events ordered : List TraceEvent} {ts l m : List ℕ} {capacity : ℚ}

/-! ## Of the timestamps alone -/

/-- The first timestamp. -/
def firstMs (ts : List ℕ) : ℕ := ts.min?.getD 0

/-- The last timestamp. -/
def lastMs (ts : List ℕ) : ℕ := ts.max?.getD 0

/-- The second a timestamp falls into. -/
def secondOf (ts : List ℕ) (t : ℕ) : ℕ := (t - firstMs ts) / 1000

/-- The seconds that have a request, each once. -/
def seconds (ts : List ℕ) : List ℕ := (ts.map (secondOf ts)).dedup

/-- The time from the first request to the last in seconds, and at least
one. -/
def spanS (ts : List ℕ) : ℚ := max ((lastMs ts - firstMs ts : ℕ) / 1000) 1

theorem head?_eq_min? (hs : l.Pairwise (· ≤ ·)) (h : l.Perm m) : l.head? = m.min? := by
  cases l with
  | nil => rw [← h.nil_eq]; rfl
  | cons a l =>
    symm
    rw [List.head?_cons, List.min?_eq_some_iff]
    refine ⟨h.mem_iff.mp List.mem_cons_self, fun b hb => ?_⟩
    rcases List.mem_cons.mp (h.mem_iff.mpr hb) with rfl | hb
    · exact le_rfl
    · exact List.rel_of_pairwise_cons hs hb

theorem getLast?_eq_max? (hs : l.Pairwise (· ≤ ·)) (h : l.Perm m) : l.getLast? = m.max? := by
  induction l using List.reverseRecOn with
  | nil => rw [← h.nil_eq]; rfl
  | append_singleton l a _ =>
    symm
    rw [List.getLast?_concat, List.max?_eq_some_iff]
    refine ⟨h.mem_iff.mp List.mem_concat_self, fun b hb => ?_⟩
    rcases List.mem_append.mp (h.mem_iff.mpr hb) with hb | hb
    · exact (List.pairwise_append.mp hs).2.2 b hb a (List.mem_singleton_self a)
    · exact (List.mem_singleton.mp hb).le

/-- The trace as replay walks it. -/
abbrev sorted (events : List TraceEvent) : List TraceEvent :=
  sortByKey TraceEvent.timestampMs events

theorem timestamps_sorted (events : List TraceEvent) :
    ((sorted events).map TraceEvent.timestampMs).Pairwise (· ≤ ·) :=
  List.pairwise_map.mpr (sortedBy_sortByKey _ _)

theorem start_sorted (events : List TraceEvent) :
    start (sorted events) = firstMs (events.map TraceEvent.timestampMs) := by
  unfold start firstMs
  rw [head?_eq_min? (timestamps_sorted events) ((sortByKey_perm _ _).map _)]

theorem firstMs_le (h : ts ≠ []) : firstMs ts ≤ lastMs ts := by
  obtain ⟨t, ht⟩ := List.exists_mem_of_ne_nil ts h
  obtain ⟨a, ha⟩ := Option.isSome_iff_exists.mp (List.isSome_min?_of_mem ht)
  obtain ⟨b, hb⟩ := Option.isSome_iff_exists.mp (List.isSome_max?_of_mem ht)
  unfold firstMs lastMs
  rw [ha, hb]
  exact (List.max?_eq_some_iff.mp hb).2 a (List.min?_eq_some_iff.mp ha).1

/-- **The duration is the span of the timestamps.** The millisecond that is
added to the first one is lost in the lower bound of a second. -/
theorem durationS_sorted (h : events ≠ []) :
    (durationS (sorted events) : ℚ) = spanS (events.map TraceEvent.timestampMs) := by
  have hfinish : finish (sorted events) =
      max (lastMs (events.map TraceEvent.timestampMs)) (wrappingAdd (start (sorted events)) 1) := by
    unfold finish lastMs
    rw [getLast?_eq_max? (timestamps_sorted events) ((sortByKey_perm _ _).map _)]
  have hle : firstMs (events.map TraceEvent.timestampMs) ≤
      lastMs (events.map TraceEvent.timestampMs) := firstMs_le (by simpa using h)
  unfold durationS spanS
  rw [hfinish, start_sorted]
  generalize firstMs (events.map TraceEvent.timestampMs) = a at hle ⊢
  generalize lastMs (events.map TraceEvent.timestampMs) = b at hle ⊢
  have hwrap : wrappingAdd a 1 ≤ a + 1 := Nat.mod_le _ _
  rw [wrappingSub_of_le (hle.trans (le_max_left _ _))]
  simp only [lit_rat]
  rcases hle.lt_or_eq with hlt | rfl
  · rw [max_eq_left (hwrap.trans hlt)]
  · have hone : max a (wrappingAdd a 1) - a ≤ 1 := by omega
    have hone : ((max a (wrappingAdd a 1) - a : ℕ) : ℚ) ≤ 1 := by exact_mod_cast hone
    rw [Nat.sub_self, Nat.cast_zero, zero_div, max_eq_right zero_le_one]
    exact max_eq_right (by linarith)

/-! ## The buckets -/

/-- What each event adds to its bucket. -/
def bucketPairs (events : List TraceEvent) : List (ℕ × ℚ) :=
  events.map fun e => (secondOf (events.map TraceEvent.timestampMs) e.timestampMs, (e.work : ℚ))

theorem buckets_sorted (events : List TraceEvent) :
    (buckets (sorted events) : OrdMap ℕ ℚ) = .gather (· + ·) 0 (bucketPairs events) := by
  unfold buckets bucketPairs secondOf
  rw [zip_work, List.map_map, start_sorted]
  exact OrdMap.gather_perm ((sortByKey_perm _ _).map _)

/-- What a bucket holds. -/
theorem bucket_eq {d : ℚ} (h : d ∈ (buckets (sorted events) : OrdMap ℕ ℚ).values) :
    ∃ s ∈ (events.map TraceEvent.timestampMs).map (secondOf (events.map TraceEvent.timestampMs)),
      d = (OrdMap.valuesAt s (bucketPairs events)).sum := by
  obtain ⟨s, hs⟩ := OrdMap.mem_values.mp h
  rw [buckets_sorted, OrdMap.get?_gather] at hs
  split at hs
  · cases hs
  · rename_i hne
    cases hs
    have hmem := not_not.mp (mt OrdMap.valuesAt_eq_nil.mpr hne)
    rw [bucketPairs, List.map_map] at hmem
    exact ⟨s, by rw [List.map_map]; exact hmem, by rw [foldl_add_rat, zero_add]⟩

/-- **The buckets partition the work.** -/
theorem sum_buckets (events : List TraceEvent) :
    (buckets (sorted events) : OrdMap ℕ ℚ).values.sum =
      (events.map fun e => (e.work : ℚ)).sum := by
  rw [buckets_sorted, OrdMap.sum_values_gather, bucketPairs, List.map_map]
  rfl

/-- There is a bucket for every second that has a request. -/
theorem length_buckets (events : List TraceEvent) :
    (buckets (sorted events) : OrdMap ℕ ℚ).values.length =
      (seconds (events.map TraceEvent.timestampMs)).length := by
  rw [OrdMap.values, List.length_map, buckets_sorted, OrdMap.length_gather, bucketPairs, seconds,
    List.map_map, List.map_map]
  rfl

theorem sum_work (events : List TraceEvent) :
    Arith.sum (work (sorted events) : List ℚ) = (events.map fun e => (e.work : ℚ)).sum := by
  rw [sum_rat]
  exact ((sortByKey_perm TraceEvent.timestampMs events).map _).sum_eq

/-! ## Peak and average -/

/-- `peak`. -/
def peak (ordered : List TraceEvent) : ℚ := (demand ordered).getLast?.getD 0

/-- `avg`. -/
def average (ordered : List TraceEvent) : ℚ := Arith.sum (work ordered) / durationS ordered

/-- **What a report says of the two**, and that there is one for every
trace that is not empty and every positive capacity. -/
theorem replay_peak (events : List TraceEvent) (capacity : ℚ) (cost inc : Option ℚ) :
    (∀ report, replay events capacity cost inc = .ok report →
      events ≠ [] ∧ 0 < capacity ∧ report.averageEffectiveDemand = average (sorted events) ∧
        report.peakEffectiveDemand = peak (sorted events)) ∧
    (events ≠ [] → 0 < capacity → ∃ report, replay events capacity cost inc = .ok report) := by
  unfold replay
  by_cases hempty : events.isEmpty = true
  · rw [if_pos hempty]
    exact ⟨fun _ h => (nomatch h), fun hne => absurd (List.isEmpty_iff.mp hempty) hne⟩
  have hne : events ≠ [] := fun h => hempty (List.isEmpty_iff.mpr h)
  rw [if_neg hempty]
  by_cases hcap : 0 < capacity
  · rw [if_neg (by simpa [isFinite] using hcap)]
    refine ⟨fun report h => ?_, fun _ _ => ⟨_, rfl⟩⟩
    cases h
    exact ⟨hne, hcap, rfl, rfl⟩
  · rw [if_pos (by simpa [isFinite] using hcap)]
    exact ⟨fun _ h => (nomatch h), fun _ h => absurd h hcap⟩

/-- The demand is sorted. -/
theorem demand_sorted (ordered : List TraceEvent) :
    (demand ordered : List ℚ).Pairwise (· ≤ ·) := by
  have hrel : (fun a b : ℚ => (totalCmp a b).isLE = true) = fun a b => a ≤ b := by
    funext a b
    refine propext (Iff.trans ?_ compare_le_iff_le)
    exact Ordering.isLE_iff_ne_gt
  have hsorted : (demand ordered : List ℚ) = (buckets ordered).values.insertionSort (· ≤ ·) := by
    unfold demand
    simp only [hrel]
  rw [hsorted]
  exact List.pairwise_insertionSort _ _

theorem demand_perm (ordered : List TraceEvent) :
    (demand ordered : List ℚ).Perm (buckets ordered).values := List.perm_insertionSort _ _

/-- **No bucket is above the peak**, which is one of them. -/
theorem le_peak {d : ℚ} (h : d ∈ (buckets ordered : OrdMap ℕ ℚ).values) :
    d ≤ peak ordered ∧ peak ordered ∈ (buckets ordered : OrdMap ℕ ℚ).values := by
  have hmem : d ∈ demand ordered := (demand_perm ordered).mem_iff.mpr h
  have hsorted := demand_sorted ordered
  have hperm := demand_perm ordered
  unfold peak
  generalize (demand ordered : List ℚ) = l at hmem hsorted hperm ⊢
  induction l using List.reverseRecOn with
  | nil => cases hmem
  | append_singleton l a _ =>
    rw [List.getLast?_concat, Option.getD_some]
    refine ⟨?_, hperm.mem_iff.mp List.mem_concat_self⟩
    rcases List.mem_append.mp hmem with hd | hd
    · exact (List.pairwise_append.mp hsorted).2.2 d hd a (List.mem_singleton_self a)
    · exact (List.mem_singleton.mp hd).le

theorem peak_of_empty (h : (buckets ordered : OrdMap ℕ ℚ).values = []) : peak ordered = 0 := by
  have hnil : demand ordered = ([] : List ℚ) := (h ▸ demand_perm ordered).eq_nil
  unfold peak
  rw [hnil]
  rfl

theorem peak_nonneg (events : List TraceEvent) : 0 ≤ peak (sorted events) := by
  cases hvalues : (buckets (sorted events) : OrdMap ℕ ℚ).values with
  | nil => exact (peak_of_empty hvalues).ge
  | cons d ds =>
    have hd : d ∈ (buckets (sorted events) : OrdMap ℕ ℚ).values := hvalues ▸ List.mem_cons_self
    obtain ⟨s, -, hpeak⟩ := bucket_eq (le_peak hd).2
    rw [hpeak]
    refine List.sum_nonneg fun w hw => ?_
    obtain ⟨e, he, rfl⟩ := List.mem_map.mp hw
    obtain ⟨e', -, rfl⟩ := List.mem_map.mp (List.mem_filter.mp he).1
    exact Nat.cast_nonneg _

/-- **With no more seconds than the trace lasts, the peak dominates.** -/
theorem average_le_peak (hne : events ≠ [])
    (h : ((seconds (events.map TraceEvent.timestampMs)).length : ℚ) ≤
      spanS (events.map TraceEvent.timestampMs)) :
    average (sorted events) ≤ peak (sorted events) := by
  have hpos : 0 < spanS (events.map TraceEvent.timestampMs) :=
    lt_of_lt_of_le one_pos (le_max_right _ _)
  have hvalues : ∀ d ∈ (buckets (sorted events) : OrdMap ℕ ℚ).values, d ≤ peak (sorted events) :=
    fun d hd => (le_peak hd).1
  have hnonneg : 0 ≤ peak (sorted events) := peak_nonneg events
  unfold average
  rw [durationS_sorted hne, sum_work, ← sum_buckets, div_le_iff₀ hpos]
  calc (buckets (sorted events) : OrdMap ℕ ℚ).values.sum
      ≤ (buckets (sorted events) : OrdMap ℕ ℚ).values.length • peak (sorted events) :=
        List.sum_le_card_nsmul _ _ hvalues
    _ = (seconds (events.map TraceEvent.timestampMs)).length * peak (sorted events) := by
        rw [length_buckets, nsmul_eq_mul]
    _ ≤ peak (sorted events) * spanS (events.map TraceEvent.timestampMs) := by
        rw [mul_comm]
        exact mul_le_mul_of_nonneg_left h hnonneg

/-! ## One request for each second -/

/-- Requests at these times, of which the first in each second asks for one
token and the others for none. -/
def oncePerSecond (second : ℕ → ℕ) (seen : List ℕ) : List ℕ → List TraceEvent
  | [] => []
  | t :: ts =>
    { timestampMs := t, inputTokens := if second t ∈ seen then 0 else 1 } ::
      oncePerSecond second (second t :: seen) ts

theorem timestamps_oncePerSecond (second : ℕ → ℕ) (seen ts : List ℕ) :
    (oncePerSecond second seen ts).map TraceEvent.timestampMs = ts := by
  induction ts generalizing seen with
  | nil => rfl
  | cons t ts ih => exact congrArg (List.cons t) (ih _)

/-- Every second comes to one token. -/
theorem sum_oncePerSecond (second : ℕ → ℕ) (seen ts : List ℕ) (s : ℕ) :
    (OrdMap.valuesAt s ((oncePerSecond second seen ts).map fun e =>
      (second e.timestampMs, (e.work : ℚ)))).sum = if s ∈ ts.map second ∧ s ∉ seen then 1 else 0 := by
  induction ts generalizing seen with
  | nil => simp [oncePerSecond, OrdMap.valuesAt]
  | cons t ts ih =>
    have hwork : ∀ n, ({ timestampMs := t, inputTokens := n } : TraceEvent).work = n % 2 ^ 64 :=
      fun _ => rfl
    have ih := ih (second t :: seen)
    unfold OrdMap.valuesAt at ih ⊢
    rw [oncePerSecond, List.map_cons, List.filter_cons]
    by_cases hs : second t = s
    · subst hs
      by_cases hseen : second t ∈ seen
      · simp [ih, hseen, hwork]
      · simp [ih, hseen, hwork]
    · simp [ih, hs, Ne.symm hs]

theorem buckets_oncePerSecond {d : ℚ}
    (hd : d ∈ (buckets (sorted (oncePerSecond (secondOf ts) [] ts)) : OrdMap ℕ ℚ).values) :
    d = 1 := by
  obtain ⟨s, hs, rfl⟩ := bucket_eq hd
  rw [timestamps_oncePerSecond] at hs
  rw [bucketPairs, timestamps_oncePerSecond, sum_oncePerSecond]
  exact if_pos ⟨hs, List.not_mem_nil⟩

/-- The peak of such a trace is at most one, and its work the number of its
seconds. -/
theorem demand_oncePerSecond (ts : List ℕ) :
    peak (sorted (oncePerSecond (secondOf ts) [] ts)) ≤ 1 ∧
      (buckets (sorted (oncePerSecond (secondOf ts) [] ts)) : OrdMap ℕ ℚ).values.sum =
        (seconds ts).length := by
  constructor
  · cases hvalues : (buckets (sorted (oncePerSecond (secondOf ts) [] ts)) : OrdMap ℕ ℚ).values with
    | nil => exact (peak_of_empty hvalues).trans_le zero_le_one
    | cons d ds => exact (buckets_oncePerSecond (le_peak (hvalues ▸ List.mem_cons_self)).2).le
  · rw [List.sum_eq_card_nsmul _ _ fun d hd => buckets_oncePerSecond hd, length_buckets,
      timestamps_oncePerSecond, nsmul_eq_mul, mul_one]

/-- **When the peak dominates the average.** Every trace with these
timestamps reports a peak no less than its average, exactly when the
seconds that have a request, counted from the first, are no more than the
seconds the trace lasts; and in every trace the buckets hold the work of
the events, none lost and none twice. -/
theorem peak_dominates_average_iff (ts : List ℕ) :
    ((∀ events (capacity : ℚ) cost inc report, events.map TraceEvent.timestampMs = ts →
        replay events capacity cost inc = .ok report →
          report.averageEffectiveDemand ≤ report.peakEffectiveDemand) ↔
      ((seconds ts).length : ℚ) ≤ spanS ts) ∧
    ∀ events, events.map TraceEvent.timestampMs = ts →
      (buckets (sortByKey TraceEvent.timestampMs events) : OrdMap ℕ ℚ).values.sum =
        (events.map fun e => (e.work : ℚ)).sum := by
  refine ⟨⟨fun hall => ?_, ?_⟩, fun events _ => sum_buckets events⟩
  · by_cases hnil : ts = []
    · rw [hnil]
      exact le_trans zero_le_one (le_max_right _ _)
    -- one token for each second: the peak is one, and the average their share of the time
    have hts := timestamps_oncePerSecond (secondOf ts) [] ts
    have hne : oncePerSecond (secondOf ts) [] ts ≠ [] := by
      intro h
      rw [h] at hts
      exact hnil hts.symm
    obtain ⟨hreport, hok⟩ := replay_peak (oncePerSecond (secondOf ts) [] ts) 1 none none
    obtain ⟨report, hrun⟩ := hok hne one_pos
    obtain ⟨-, -, havg, hpeak⟩ := hreport report hrun
    obtain ⟨hone, hsum⟩ := demand_oncePerSecond ts
    have hle : average (sorted (oncePerSecond (secondOf ts) [] ts)) ≤ 1 := by
      rw [← havg]
      exact (hall _ _ _ _ report hts hrun).trans (hpeak.trans_le hone)
    have hpos : 0 < spanS ts := lt_of_lt_of_le one_pos (le_max_right _ _)
    rwa [average, durationS_sorted hne, hts, sum_work, ← sum_buckets, hsum, div_le_one hpos] at hle
  · rintro h events capacity cost inc report rfl hrun
    obtain ⟨hne, -, havg, hpeak⟩ := (replay_peak events capacity cost inc).1 report hrun
    rw [havg, hpeak]
    exact average_le_peak hne h

/-- **An average above the peak**: two requests of one token, a second
apart. -/
theorem average_above_peak :
    (replay [{ timestampMs := 0, inputTokens := 1 }, { timestampMs := 1000, inputTokens := 1 }]
        (10 : ℚ) none none).toOption.map
      (fun r => (r.averageEffectiveDemand, r.peakEffectiveDemand)) = some (2, 1) := by
  decide +kernel

end Simulator

end InferQos
