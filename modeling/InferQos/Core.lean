import InferQos.Common.Arith
import Mathlib.Data.String.Basic
import Mathlib.Order.Basic
/-!
# The domain types

The records every component passes around. Names are strings and
identifiers are opaque: a `Uuid` is compared and never computed with, so
the model takes a natural number for it. Durations and clock readings are
whole nanoseconds.
-/

namespace InferQos

/-- A 128-bit identifier, compared for equality only. -/
abbrev Uuid : Type := ℕ

/-- The largest `u64`, which is also the largest `usize` of the 64-bit
targets the program is built for. -/
def u64Max : ℕ := 2 ^ 64 - 1

/-- `u64::saturating_add`, and `usize::saturating_add`. -/
def saturatingAdd (a b : ℕ) : ℕ := min (a + b) u64Max

/-- `usize::saturating_mul`. -/
def saturatingMul (a b : ℕ) : ℕ := min (a * b) u64Max

/-- Release builds carry no overflow checks: `+` on a `usize` or a `u64`
wraps. -/
def wrappingAdd (a b : ℕ) : ℕ := (a + b) % 2 ^ 64

/-- And so does `-`. -/
def wrappingSub (a b : ℕ) : ℕ := if b ≤ a then a - b else a + 2 ^ 64 - b

theorem wrappingAdd_of_lt {a b : ℕ} (h : a + b < 2 ^ 64) : wrappingAdd a b = a + b :=
  Nat.mod_eq_of_lt h

theorem wrappingSub_of_le {a b : ℕ} (h : b ≤ a) : wrappingSub a b = a - b := if_pos h

/-- `?` goes on with what succeeded. -/
theorem bind_eq_ok {ε α β : Type} {x : Except ε α} {f : α → Except ε β} {b : β} :
    (x >>= f) = .ok b ↔ ∃ a, x = .ok a ∧ f a = .ok b := by
  cases x with
  | error e => simp [bind, Except.bind]
  | ok a => simp [bind, Except.bind]

/-- The five built-in classes, in the order the scheduler sorts them. -/
inductive ServiceClass
  | realtime
  | interactive
  | standard
  | workflow
  | batch
  deriving DecidableEq, Repr

namespace ServiceClass

/-- The position of the class in its declaration. -/
def rank : ServiceClass → ℕ
  | realtime => 0
  | interactive => 1
  | standard => 2
  | workflow => 3
  | batch => 4

theorem rank_injective : Function.Injective rank := by
  intro a b h
  cases a <;> cases b <;> first | rfl | cases h

instance : LinearOrder ServiceClass := LinearOrder.lift' rank rank_injective

/-- `Display for ServiceClass`. -/
def toString : ServiceClass → String
  | realtime => "realtime"
  | interactive => "interactive"
  | standard => "standard"
  | workflow => "workflow"
  | batch => "batch"

/-- `FromStr for ServiceClass`; the error carries the text. -/
def fromStr (value : String) : Except String ServiceClass :=
  match value with
  | "realtime" => .ok realtime
  | "interactive" => .ok interactive
  | "standard" => .ok standard
  | "workflow" => .ok workflow
  | "batch" => .ok batch
  | _ => .error value

/-- **What `Display` writes, `FromStr` reads.** -/
theorem fromStr_toString (c : ServiceClass) : fromStr c.toString = .ok c := by
  cases c <;> rfl

end ServiceClass

/-- Who a request is charged to. -/
structure IdentityContext where
  principal : String
  tenant : String
  application : String
  trusted : Bool
  deriving DecidableEq, Repr

/-- Where an estimate came from. -/
inductive EstimateSource
  | exactTokenizer
  | compatibleTokenizer
  | trustedClient
  | providerMetadata
  | approximation
  deriving DecidableEq, Repr

variable (F : Type)

/-- The work a request is expected to cost. -/
structure WorkEstimate where
  inputTokens : ℕ
  outputTokens : ℕ
  cachedInputTokens : ℕ
  providerCostCoefficient : F
  normalizedUnits : F
  confidence : F
  source : EstimateSource
  deriving DecidableEq

/-- `CoreError::InvalidWork`. -/
structure InvalidWork where
  value : F
  deriving DecidableEq

variable {F} in
/-- `WorkUnits::new`. -/
def workUnits [Arith F] (value : F) : Except (InvalidWork F) F :=
  if Arith.isFinite value && decide (Arith.lit 0 ≤ value) then .ok value else .error ⟨value⟩

variable {F} in
/-- `WorkEstimate::conservative`. -/
def WorkEstimate.conservative [Arith F] (inputTokens maxOutputTokens : ℕ) (coefficient : F) :
    Except (InvalidWork F) (WorkEstimate F) := do
  let units ← workUnits
    (Arith.lit (saturatingAdd inputTokens maxOutputTokens : ℕ) * coefficient)
  .ok
    { inputTokens
      outputTokens := maxOutputTokens
      cachedInputTokens := 0
      providerCostCoefficient := coefficient
      normalizedUnits := units
      confidence := Arith.lit (45 / 100)
      source := .approximation }

/-- A request as admission sees it. `deadline` is a duration. -/
structure AdmissionRequest where
  id : Uuid
  identity : IdentityContext
  requestedClass : ServiceClass
  effectiveClass : ServiceClass
  pool : String
  estimate : WorkEstimate F
  deadline : ℕ
  queueable : Bool
  deriving DecidableEq

end InferQos
