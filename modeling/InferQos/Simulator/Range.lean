import InferQos.Simulator.Peak
/-!
# The range of replay's arithmetic

The fields of a trace are any `u64`, and three sums of them are plain: the
first timestamp and one, the uncached input and the output of an event, the
input and the output of an event. The deferral divides by the increment it
is given. `Exact` says that nothing of this leaves its range; it holds
exactly of the traces whose sums fit and whose increment is not zero where
the deferral is computed. Whether it is computed depends on sums of `f64`,
rounded as they are added, so all of this is over any number format.
-/

namespace InferQos

namespace Simulator

open Arith Rounding

variable {F : Type} [Rounding F] {events : List TraceEvent} {ts : List ℕ} {capacity : F}

/-- `sustained`: the share of the seconds whose demand is above the
capacity. -/
def sustained (capacity : F) (ordered : List TraceEvent) : F :=
  lit ((demand ordered).countP fun d => decide (capacity < d) : ℕ) /
    lit (max (demand (F := F) ordered).length 1 : ℕ)

/-- The branch of the deferral that divides. -/
def Defers (capacity : F) (ordered : List TraceEvent) : Prop :=
  sustained capacity ordered < lit (2 / 10) ∧
    lit (2 / 10) < (rate TraceEvent.isQueueable ordered : F)

instance (capacity : F) (ordered : List TraceEvent) : Decidable (Defers capacity ordered) :=
  inferInstanceAs (Decidable (_ ∧ _))

/-- `x == 0.0`, of either sign. -/
def IsZero (x : F) : Prop := x ≤ lit 0 ∧ lit 0 ≤ x

/-- **Every sum is the sum, and nothing is divided by zero.** -/
structure Exact (events : List TraceEvent) (capacity : F) (increment : Option F) : Prop where
  span : wrappingAdd (start (sorted events)) 1 = start (sorted events) + 1
  work : ∀ e ∈ events,
    e.work = e.inputTokens - e.cachedTokens + max e.requestedMaxOutput e.actualOutput
  tokens : ∀ e ∈ events, e.tokens = e.inputTokens + e.actualOutput
  deferral : Defers capacity (sorted events) → ∀ inc ∈ increment, ¬ IsZero inc

/-! ## Sums -/

theorem wrappingAdd_eq_iff {a b : ℕ} : wrappingAdd a b = a + b ↔ a + b < 2 ^ 64 := by
  constructor
  · intro h
    rw [← h]
    exact Nat.mod_lt _ (by norm_num)
  · exact wrappingAdd_of_lt

theorem firstMs_lt_iff (hne : ts ≠ []) (n : ℕ) : firstMs ts < n ↔ ∃ t ∈ ts, t < n := by
  obtain ⟨t, ht⟩ := List.exists_mem_of_ne_nil ts hne
  obtain ⟨a, ha⟩ := Option.isSome_iff_exists.mp (List.isSome_min?_of_mem ht)
  obtain ⟨hmem, hle⟩ := List.min?_eq_some_iff.mp ha
  unfold firstMs
  rw [ha, Option.getD_some]
  exact ⟨fun h => ⟨a, hmem, h⟩, fun ⟨b, hb, hlt⟩ => (hle b hb).trans_lt hlt⟩

/-! ## The deferral -/

/-- Of a trace that is replayed there is an event, and the deferral of its
report divides where `Defers` says. -/
theorem replay_deferred {cost increment : Option F} {report : ReplayReport F}
    (h : replay events capacity cost increment = .ok report) :
    events ≠ [] ∧ report.potentialCapacityDeferredUnits = increment.elim (lit 0) fun inc =>
      if Defers capacity (sorted events) then
        ceil (max ((demand (sorted events)).getLast?.getD (lit 0) - capacity) (lit 0) / inc) * inc
      else lit 0 := by
  unfold replay at h
  split at h
  · cases h
  · rename_i hempty
    split at h
    · cases h
    · cases h
      exact ⟨fun hnil => hempty (List.isEmpty_iff.mpr hnil), rfl⟩

/-- There is a bucket for every second that has a request, however its work
is added up. -/
theorem length_demand (events : List TraceEvent) :
    (demand (sorted events) : List F).length =
      (seconds (events.map TraceEvent.timestampMs)).length := by
  have hperm : (demand (sorted events) : List F).Perm (buckets (sorted events)).values :=
    List.perm_insertionSort _ _
  have hevents : ((sorted events).zip (work (sorted events) : List F)).map Prod.fst = sorted events :=
    List.map_fst_zip (by simp [work])
  have hkeys : ∀ f : TraceEvent → ℕ, (((sorted events).zip (work (sorted events) : List F)).map
      fun p => f p.1) = (sorted events).map f := by
    intro f
    rw [← congrArg (List.map f) hevents, List.map_map]
    rfl
  have hseconds : ((sorted events).map fun e => (e.timestampMs - start (sorted events)) / 1000).Perm
      ((events.map TraceEvent.timestampMs).map (secondOf (events.map TraceEvent.timestampMs))) := by
    rw [start_sorted, List.map_map]
    exact (sortByKey_perm _ _).map _
  rw [hperm.length_eq, OrdMap.values, List.length_map, buckets, OrdMap.length_gather, List.map_map]
  exact (congrArg (·.dedup.length) (hkeys _)).trans hseconds.dedup.length_eq

/-- The branch by the events: of the seconds with a request, a share less
than a fifth is over capacity, and of the requests a share of more than a
fifth can wait. -/
theorem defers_iff (hne : events ≠ []) :
    Defers capacity (sorted events) ↔
      lit ((buckets (sorted events)).values.countP fun d => decide (capacity < d) : ℕ) /
          lit ((seconds (events.map TraceEvent.timestampMs)).length : ℕ) < (lit (2 / 10) : F) ∧
        (lit (2 / 10) : F) <
          lit (events.countP TraceEvent.isQueueable : ℕ) / lit (events.length : ℕ) := by
  have hperm := sortByKey_perm TraceEvent.timestampMs events
  have hdemand : (demand (sorted events) : List F).Perm (buckets (sorted events)).values :=
    List.perm_insertionSort _ _
  have hpos : 1 ≤ (seconds (events.map TraceEvent.timestampMs)).length := by
    rw [Nat.one_le_iff_ne_zero, ne_eq, List.length_eq_zero_iff, seconds, List.dedup_eq_nil]
    simpa using hne
  unfold Defers sustained rate
  rw [length_demand, hdemand.countP_eq, max_eq_left hpos, hperm.countP_eq, hperm.length_eq]

/-- **When replay's arithmetic is exact.** For every trace and capacity that
replay accepts, in any number format: the deferral is divided by the
increment where `Defers` says; and no sum of a `u64` leaves its range, every
event's work is the mathematical one and nothing is divided by zero, exactly
when some request is before the last millisecond there is, the uncached
input of each event and the greater of its outputs add up to a `u64`, so do
its input and its output, and the increment is not zero unless, as the
program adds and divides, a fifth of the seconds or more are over capacity
or no more than a fifth of the requests can wait. -/
theorem replay_exact_iff {cost increment : Option F} {report : ReplayReport F}
    (h : replay events capacity cost increment = .ok report) :
    report.potentialCapacityDeferredUnits = increment.elim (lit 0) (fun inc =>
      if Defers capacity (sorted events) then
        ceil (max ((demand (sorted events)).getLast?.getD (lit 0) - capacity) (lit 0) / inc) * inc
      else lit 0) ∧
    (Exact events capacity increment ↔
      (∃ e ∈ events, e.timestampMs < 2 ^ 64 - 1) ∧
      (∀ e ∈ events, e.inputTokens - e.cachedTokens + max e.requestedMaxOutput e.actualOutput <
        2 ^ 64) ∧
      (∀ e ∈ events, e.inputTokens + e.actualOutput < 2 ^ 64) ∧
      ∀ inc ∈ increment, IsZero inc →
        ¬ lit ((buckets (sorted events)).values.countP fun d => decide (capacity < d) : ℕ) /
            lit ((seconds (events.map TraceEvent.timestampMs)).length : ℕ) < (lit (2 / 10) : F) ∨
          ¬ (lit (2 / 10) : F) <
            lit (events.countP TraceEvent.isQueueable : ℕ) / lit (events.length : ℕ)) := by
  obtain ⟨hne, hdeferred⟩ := replay_deferred h
  have hspan : wrappingAdd (start (sorted events)) 1 = start (sorted events) + 1 ↔
      ∃ e ∈ events, e.timestampMs < 2 ^ 64 - 1 := by
    rw [wrappingAdd_eq_iff, start_sorted, ← Nat.lt_sub_iff_add_lt,
      firstMs_lt_iff (by simpa using hne)]
    simp only [List.mem_map, exists_exists_and_eq_and]
  refine ⟨hdeferred, ?_⟩
  simp only [← not_and_or, ← defers_iff hne]
  constructor
  · rintro ⟨hs, hw, ht, hd⟩
    exact ⟨hspan.mp hs, fun e he => wrappingAdd_eq_iff.mp (hw e he),
      fun e he => wrappingAdd_eq_iff.mp (ht e he),
      fun inc hinc hzero hdefers => hd hdefers inc hinc hzero⟩
  · rintro ⟨hs, hw, ht, hd⟩
    exact ⟨hspan.mpr hs, fun e he => wrappingAdd_eq_iff.mpr (hw e he),
      fun e he => wrappingAdd_eq_iff.mpr (ht e he),
      fun hdefers inc hinc hzero => hd inc hinc hzero hdefers⟩

/-- A request of everything, in the last millisecond. -/
def utmostEvent : TraceEvent where
  timestampMs := 2 ^ 64 - 1
  inputTokens := 2 ^ 64 - 1
  requestedMaxOutput := 1
  actualOutput := 1

/-- An ordinary request, replayed with an increment of one. -/
theorem ordinary_request_exact :
    Exact [{ timestampMs := 5, inputTokens := 3, actualOutput := 4 }] (10 : ℚ) (some 1) := by
  obtain ⟨report, hreport⟩ := (replay_peak [{ timestampMs := 5, inputTokens := 3, actualOutput := 4 }]
    10 none (some 1)).2 (by simp) (by norm_num)
  refine (replay_exact_iff hreport).2.mpr ⟨⟨_, List.mem_singleton_self _, by norm_num⟩, ?_, ?_, ?_⟩
  · intro e he
    rw [List.mem_singleton.mp he]
    decide
  · intro e he
    rw [List.mem_singleton.mp he]
    decide
  · rintro inc ⟨⟩ hzero
    exact absurd hzero.1 (by decide)

/-- **The largest request counts as no work.** Its work and its tokens wrap
to zero, so does the end of the trace, and the deferral divides by the
increment of zero that replay accepts. -/
theorem utmost_event_wraps :
    (replay [utmostEvent] (10 : ℚ) none (some 0)).isOk = true ∧
      utmostEvent.work = 0 ∧ utmostEvent.tokens = 0 ∧
      wrappingAdd (start (sorted [utmostEvent])) 1 = 0 ∧
      Defers (10 : ℚ) (sorted [utmostEvent]) := by
  refine ⟨by decide +kernel, by decide +kernel, by decide +kernel, by decide +kernel, ?_⟩
  decide +kernel

end Simulator

end InferQos
