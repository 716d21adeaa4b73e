import InferQos.Core
import InferQos.Common.Gather
import InferQos.Common.StableSort
/-!
# The workload replay

`replay` reads a trace of past requests and projects what scheduling would
have made of it at a given capacity. It sorts a copy of the trace by
timestamp and computes everything from the copy, except the work of a
tenant: that loop walks the copy and the trace side by side, and gives the
tenant of one event the tokens of another wherever the two differ.

Work and rates are `f64`, so the model is over any `Rounding`; tokens and
times are `u64`, and their sums wrap.
-/

namespace InferQos

namespace Simulator

/-- **A request of a trace**, with the defaults of the reader. -/
structure TraceEvent where
  timestampMs : ℕ
  tenant : String := "default"
  serviceClass : String := "standard"
  inputTokens : ℕ := 0
  cachedTokens : ℕ := 0
  requestedMaxOutput : ℕ := 0
  actualOutput : ℕ := 0
  latencyMs : ℕ := 0
  status : ℕ := 0
  throttled : Bool := false
  deriving DecidableEq, Repr

/-- What the report says of one class. -/
structure ClassReport where
  requests : ℕ
  queueP50Ms : ℕ
  queueP95Ms : ℕ
  queueP99Ms : ℕ
  deadlineViolations : ℕ
  deriving DecidableEq, Repr

/-- **The report.** -/
structure ReplayReport (F : Type) where
  configuredCapacity : F
  averageEffectiveDemand : F
  peakEffectiveDemand : F
  utilizationP50 : F
  utilizationP95 : F
  baselineThrottleRate : F
  projectedThrottleRate : F
  fairnessJainIndex : F
  starvationIncidents : ℕ
  capacityHeadroom : F
  potentialCapacityDeferredUnits : F
  estimatedCostAvoided : Option F
  confidence : String
  recommendation : String
  classes : OrdMap String ClassReport
  assumptions : List String

open Arith Rounding

variable {F : Type} [Rounding F]

/-! ## Over one event -/

/-- Uncached input and the larger of the two outputs. -/
def TraceEvent.work (e : TraceEvent) : ℕ :=
  wrappingAdd (e.inputTokens - e.cachedTokens) (max e.requestedMaxOutput e.actualOutput)

/-- What the tenant of an event is credited with. -/
def TraceEvent.tokens (e : TraceEvent) : ℕ := wrappingAdd e.inputTokens e.actualOutput

def TraceEvent.wasThrottled (e : TraceEvent) : Bool := e.throttled || e.status == 429

def TraceEvent.isQueueable (e : TraceEvent) : Bool :=
  ["workflow", "batch", "standard"].contains e.serviceClass

/-- How much of the pressure a class waits out. -/
def classFactor (serviceClass : String) : F :=
  match serviceClass with
  | "realtime" => lit (2 / 100)
  | "interactive" => lit (8 / 100)
  | "standard" => lit (3 / 10)
  | "workflow" => lit (7 / 10)
  | "batch" => lit 1
  | _ => lit (4 / 10)

def deadlineFor (serviceClass : String) : ℕ :=
  match serviceClass with
  | "realtime" => 500
  | "interactive" => 3000
  | "standard" => 10000
  | "workflow" => 60000
  | _ => 1800000

/-- The wait projected for an event of this work, in milliseconds. -/
def wait (capacity : F) (e : TraceEvent) (work : F) : ℕ :=
  let pressure := max (work / capacity) (lit 0)
  toU64 (pressure * lit 1000 * classFactor e.serviceClass) - min e.latencyMs 100

/-! ## Over the sorted trace -/

/-- `ordered[0].timestamp_ms`. -/
def start (ordered : List TraceEvent) : ℕ := (ordered.map TraceEvent.timestampMs).head?.getD 0

/-- The last timestamp, and at least one millisecond after the first. -/
def finish (ordered : List TraceEvent) : ℕ :=
  max ((ordered.map TraceEvent.timestampMs).getLast?.getD 0) (wrappingAdd (start ordered) 1)

def durationS (ordered : List TraceEvent) : F :=
  max (lit (wrappingSub (finish ordered) (start ordered) : ℕ) / lit 1000) (lit 1)

/-- The work of every event, as `f64`. -/
def work (ordered : List TraceEvent) : List F := ordered.map fun e => lit (e.work : ℚ)

/-- The demand of each second of the trace that has any. -/
def buckets (ordered : List TraceEvent) : OrdMap ℕ F :=
  .gather (· + ·) (lit 0) <| (ordered.zip (work ordered)).map fun p =>
    ((p.1.timestampMs - start ordered) / 1000, p.2)

/-- The same, in the order of size. -/
def demand (ordered : List TraceEvent) : List F :=
  (buckets ordered).values.insertionSort fun a b => (totalCmp a b).isLE = true

/-- The share of the events that meet a condition. -/
def rate (p : TraceEvent → Bool) (ordered : List TraceEvent) : F :=
  lit (ordered.countP p : ℚ) / lit (ordered.length : ℚ)

/-- The projected waits of each class. -/
def byClass (capacity : F) (ordered : List TraceEvent) : OrdMap String (List ℕ) :=
  .gather (fun waits wait => waits ++ [wait]) [] <| (ordered.zip (work ordered)).map fun p =>
    (p.1.serviceClass, wait capacity p.1 p.2)

/-- The element at a share of the way through a sorted list. -/
def percentileOf (F : Type) [Rounding F] {α : Type} (zero : α) (v : List α) (p : ℚ) : α :=
  v[toU64 (round (lit (v.length - 1 : ℕ) * lit p : F))]?.getD zero

def percentile (F : Type) [Rounding F] (v : List ℕ) (p : ℚ) : ℕ := percentileOf F 0 v p

def percentileF64 (v : List F) (p : ℚ) : F := percentileOf F (lit 0) v p

def classReport (F : Type) [Rounding F] (name : String) (waits : List ℕ) : ClassReport :=
  let values := sortByKey id waits
  { requests := values.length
    queueP50Ms := percentile F values (50 / 100)
    queueP95Ms := percentile F values (95 / 100)
    queueP99Ms := percentile F values (99 / 100)
    deadlineViolations := values.countP fun v => decide (deadlineFor name < v) }

def classes (capacity : F) (ordered : List TraceEvent) : OrdMap String ClassReport :=
  (byClass capacity ordered).mapWithKey (classReport F)

/-! ## Over the sorted trace and the trace -/

/-- **The work of each tenant.** The tenants are read off the sorted trace,
the tokens off the trace as it came. -/
def tenant (ordered events : List TraceEvent) : OrdMap String F :=
  .gather (· + ·) (lit 0) <|
    (ordered.zip (events.map fun e => (lit (e.tokens : ℚ) : F))).map fun p => (p.1.tenant, p.2)

/-- Jain's index of fairness: 1 if all allocations are equal. -/
def jain (x : List F) : F :=
  if x.isEmpty then lit 1
  else
    let sum := Arith.sum x
    let sq := Arith.sum (x.map fun v => v * v)
    -- `sq == 0.0`, which no not-a-number meets
    if sq ≤ lit 0 ∧ lit 0 ≤ sq then lit 1 else sum * sum / (lit (x.length : ℚ) * sq)

/-! ## The report -/

/-- The increase that queueable work spares, in whole increments. -/
def deferred (capacity peak sustained queueable : F) (capacityIncrement : Option F) : F :=
  capacityIncrement.elim (lit 0) fun inc =>
    if sustained < lit (2 / 10) ∧ lit (2 / 10) < queueable then
      ceil (max (peak - capacity) (lit 0) / inc) * inc
    else lit 0

def recommendation (capacity avg peak sustained queueable : F) : String :=
  if capacity * lit (9 / 10) < avg ∧ lit (5 / 10) < sustained then
    "Scheduling cannot solve sustained saturation; additional capacity is recommended."
  else if capacity < peak ∧ lit (2 / 10) < queueable then
    "Short peaks and queueable work indicate QoS scheduling may defer a capacity increase."
  else "Capacity appears adequate; use shadow mode to validate SLO impact before enforcement."

def confidence (n : ℕ) : String :=
  if 1000 < n then "high" else if 100 < n then "medium" else "low"

def assumptions : List String :=
  ["work units use uncached input plus max(actual output, requested max output)",
    "one-second demand buckets approximate provider capacity windows",
    "projected results are estimates, not guaranteed savings or SLOs"]

/-- **Replay a trace.** -/
def replay (events : List TraceEvent) (capacity : F) (costPerUnit capacityIncrement : Option F) :
    Except String (ReplayReport F) :=
  if events.isEmpty then .error "trace contains no events"
  else if !isFinite capacity || decide (capacity ≤ lit 0) then .error "capacity must be positive"
  else
    let ordered := sortByKey TraceEvent.timestampMs events
    let total := Arith.sum (work ordered)
    let avg := total / durationS ordered
    let demand := demand ordered
    let peak := demand.getLast?.getD (lit 0)
    let utils := demand.map (· / capacity)
    let observed := rate TraceEvent.wasThrottled ordered
    let queueable := rate TraceEvent.isQueueable ordered
    let excessRatio := min (max (peak - capacity) (lit 0) / max peak (lit 1)) (lit 1)
    let projected := clamp (observed * (lit 1 - queueable * lit (9 / 10)) +
      excessRatio * (lit 1 - queueable) * lit (1 / 10)) (lit 0) (lit 1)
    let allocations := (tenant ordered events).values
    let sustained := lit (demand.countP fun d => decide (capacity < d) : ℕ) /
      lit (max demand.length 1 : ℕ)
    let deferred := deferred capacity peak sustained queueable capacityIncrement
    .ok
      { configuredCapacity := capacity
        averageEffectiveDemand := avg
        peakEffectiveDemand := peak
        utilizationP50 := percentileF64 utils (5 / 10)
        utilizationP95 := percentileF64 utils (95 / 100)
        baselineThrottleRate := observed
        projectedThrottleRate := projected
        fairnessJainIndex := jain allocations
        starvationIncidents := 0
        capacityHeadroom := max (capacity - avg) (lit 0)
        potentialCapacityDeferredUnits := deferred
        estimatedCostAvoided := costPerUnit.map (· * deferred)
        confidence := confidence ordered.length
        recommendation := recommendation capacity avg peak sustained queueable
        classes := classes capacity ordered
        assumptions := assumptions }

end Simulator

end InferQos
