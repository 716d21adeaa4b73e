import InferQos.Providers.Estimate
import InferQos.Providers.External
/-!
# Estimates that conform

The SDK's `validate_estimate` says what every work estimate is: units that
are finite and not negative, a confidence between 0 and 1, and no more
cached input than input. Three places make estimates of what someone else
sent, and none of them calls it. The signs and the confidence are right in
all three. That the cached input is within the input is left to whoever
reports it, and a product of tokens and coefficient may leave the range:
`estimates_conform_iff` says of which documents and coefficients each place
makes an estimate that conforms.
-/

namespace InferQos

namespace Providers

open Arith

variable {F : Type}

/-- `CoreError`, as far as an estimate is refused with it. -/
inductive CoreError (F : Type)
  | invalidWork (value : F)
  | provider (text : String)

/-- **`validate_estimate`.** -/
def validateEstimate [Arith F] (estimate : WorkEstimate F) : Except (CoreError F) Unit :=
  if !isFinite estimate.normalizedUnits || decide (estimate.normalizedUnits < lit 0) then
    .error (.invalidWork estimate.normalizedUnits)
  else if !contains (lit 0) (lit 1) estimate.confidence then
    .error (.provider "estimate confidence must be in [0,1]")
  else if estimate.inputTokens < estimate.cachedInputTokens then
    .error (.provider "cached input cannot exceed input tokens")
  else .ok ()

theorem validateEstimate_ok_iff [Arith F] {e : WorkEstimate F} :
    validateEstimate e = .ok () ↔
      isFinite e.normalizedUnits = true ∧ ¬ e.normalizedUnits < lit 0 ∧
        contains (lit 0) (lit 1) e.confidence = true ∧ e.cachedInputTokens ≤ e.inputTokens := by
  unfold validateEstimate
  split_ifs with hunits hconfidence hcached
  · rw [Bool.or_eq_true, Bool.not_eq_true', decide_eq_true_eq] at hunits
    refine ⟨nofun, ?_⟩
    rintro ⟨hfinite, hsign, -⟩
    rcases hunits with hnot | hnegative
    · rw [hfinite] at hnot
      exact nomatch hnot
    · exact absurd hnegative hsign
  · rw [Bool.not_eq_true'] at hconfidence
    refine ⟨nofun, ?_⟩
    rintro ⟨-, -, hin, -⟩
    rw [hconfidence] at hin
    exact nomatch hin
  · refine ⟨nofun, ?_⟩
    rintro ⟨-, -, -, hle⟩
    omega
  · rw [Bool.or_eq_true, not_or, Bool.not_eq_true', Bool.not_eq_false, decide_eq_true_eq] at hunits
    rw [Bool.not_eq_true', Bool.not_eq_false] at hconfidence
    exact ⟨fun _ => ⟨hunits.1, hunits.2, hconfidence, by omega⟩, fun _ => rfl⟩

section Signs

variable [SignedArith F]

theorem contains_lit {q : ℚ} (h₀ : 0 ≤ q) (h₁ : q ≤ 1) :
    contains (lit 0 : F) (lit 1) (lit q) = true := by
  unfold contains
  rw [Bool.and_eq_true, decide_eq_true_eq, decide_eq_true_eq]
  exact ⟨SignedArith.lit_mono h₀, SignedArith.lit_mono h₁⟩

/-- An estimate whose units are some tokens at the provider's rate. -/
theorem priced_conforms_iff {e : WorkEstimate F} {c : F} {q : ℚ} {n : ℕ} (hc : lit 0 ≤ c)
    (hunits : e.normalizedUnits = lit (n : ℚ) * c) (h₀ : 0 ≤ q) (h₁ : q ≤ 1)
    (hconfidence : e.confidence = lit q) :
    validateEstimate e = .ok () ↔
      e.cachedInputTokens ≤ e.inputTokens ∧ isFinite (lit (n : ℚ) * c) = true := by
  rw [validateEstimate_ok_iff, hconfidence, contains_lit h₀ h₁, hunits]
  constructor
  · rintro ⟨hfinite, -, -, hcached⟩
    exact ⟨hcached, hfinite⟩
  · rintro ⟨hcached, hfinite⟩
    exact ⟨hfinite,
      SignedArith.not_mul_lt_zero (SignedArith.lit_mono (Nat.cast_nonneg n)) hc hfinite, rfl, hcached⟩

/-- Where the greatest count has finite units, every count has. -/
theorem isFinite_mul_of_max {c : F} (hc : lit 0 ≤ c)
    (h : isFinite (lit ((2 ^ 64 - 1 : ℕ) : ℚ) * c) = true) {n : ℕ} (hn : n < 2 ^ 64) :
    isFinite (lit (n : ℚ) * c) = true :=
  SignedArith.isFinite_mul_of_le (SignedArith.lit_mono (Nat.cast_nonneg n))
    (SignedArith.lit_mono (Nat.cast_le.mpr (Nat.le_sub_one_of_lt hn))) hc h

end Signs

/-! ## Usage in a response -/

/-- **The counts a document reports**, under either name of each field. -/
structure Usage where
  input : ℕ
  output : ℕ
  cached : ℕ

/-- The counts of a document: it has none without a count of its input. -/
def Usage.of (value : Json) : Option Usage := do
  let usage ← (value.get "usage").or ((value.get "response").bind (·.get "usage"))
  let input ← ((usage.get "input_tokens").or (usage.get "prompt_tokens")).bind Json.asU64
  let output := ((usage.get "output_tokens").or (usage.get "completion_tokens")).bind Json.asU64
  let details := (usage.get "input_tokens_details").or (usage.get "prompt_tokens_details")
  some ⟨input, output.getD 0, ((details.bind (·.get "cached_tokens")).bind Json.asU64).getD 0⟩

/-- The document `parse_usage` takes what it reads from: the whole body, or
the last line of a stream of events that has it. -/
def findUsage {α : Type} (reader : JsonReader) (read : Json → Option α) (body : List UInt8) :
    Option α :=
  ((reader.reads body).bind read).or
    ((String.fromUTF8? ⟨body.toArray⟩).bind fun text =>
      (lines text.toList).reverse.findSome? fun line => do
        let rest ← stripPrefix "data:".toList line
        let json := trim rest
        if json = "[DONE]".toList then none
        else (reader.reads (json.flatMap String.utf8EncodeChar)).bind read)

/-- The counts a response reports. -/
def reported (reader : JsonReader) (body : List UInt8) : Option Usage :=
  findUsage reader Usage.of body

section Usage

variable [Arith F] {reader : JsonReader} {c : F}

/-- The estimate of some counts. -/
def Usage.estimate (c : F) (u : Usage) : WorkEstimate F where
  inputTokens := u.input
  outputTokens := u.output
  cachedInputTokens := u.cached
  providerCostCoefficient := c
  normalizedUnits := lit (saturatingAdd (u.input - u.cached) u.output : ℕ) * c
  confidence := lit 1
  source := .providerMetadata

theorem fromValue_eq (c : F) (value : Json) :
    fromValue c value = (Usage.of value).map (Usage.estimate c) := by
  unfold fromValue Usage.of
  cases (value.get "usage").or ((value.get "response").bind (·.get "usage")) with
  | none => rfl
  | some usage =>
    simp only [Option.bind_eq_bind, Option.bind_some]
    cases ((usage.get "input_tokens").or (usage.get "prompt_tokens")).bind Json.asU64 with
    | none => rfl
    | some input => rfl

omit [Arith F] in
theorem findUsage_map {α β : Type} (f : α → β) (read : Json → Option α) (body : List UInt8) :
    findUsage reader (fun value => (read value).map f) body = (findUsage reader read body).map f := by
  have hbind : ∀ document : Option Json,
      document.bind (fun value => (read value).map f) = (document.bind read).map f := by
    intro document
    cases document <;> rfl
  unfold findUsage
  rw [Option.map_or, hbind]
  congr 1
  cases String.fromUTF8? ⟨body.toArray⟩ with
  | none => rfl
  | some text =>
    simp only [Option.bind_some, Option.bind_eq_bind]
    rw [List.map_findSome?]
    congr 1
    funext line
    rw [Function.comp_apply]
    cases stripPrefix "data:".toList line with
    | none => rfl
    | some rest =>
      simp only [Option.bind_some, hbind]
      split <;> rfl

/-- **The usage found is that of the counts the response reports.** -/
theorem parseUsage_eq (reader : JsonReader) (c : F) (body : List UInt8) :
    parseUsage reader c body = (reported reader body).map (Usage.estimate c) := by
  have hread : fromValue c = fun value => (Usage.of value).map (Usage.estimate c) :=
    funext (fromValue_eq c)
  calc parseUsage reader c body = findUsage reader (fromValue c) body := rfl
    _ = (reported reader body).map (Usage.estimate c) := by
      rw [hread, findUsage_map]
      rfl

/-- What `from_wire` lets through, and what it keeps. -/
theorem fromWire_ok {wire : WireEstimate F} {e : WorkEstimate F} (h : fromWire wire = .ok e) :
    isFinite e.normalizedUnits = true ∧ ¬ e.normalizedUnits < lit 0 ∧
      contains (lit 0) (lit 1) e.confidence = true ∧
      e.cachedInputTokens = wire.cachedInputTokens ∧ e.inputTokens = wire.inputTokens := by
  unfold fromWire at h
  split_ifs at h with hbad
  rw [Bool.or_eq_true, Bool.or_eq_true, not_or, not_or, Bool.not_eq_true', Bool.not_eq_false,
    decide_eq_true_eq, Bool.not_eq_true', Bool.not_eq_false] at hbad
  rw [← Except.ok.inj h]
  exact ⟨hbad.1.1, hbad.1.2, hbad.2, rfl, rfl⟩

end Usage

/-! ## The three places -/

/-- **When the estimates of an adapter conform**, for a coefficient that is
not negative: the estimate of a request exactly if the tokens its document
comes to, at the coefficient, are finite units; that of a response exactly
if the cached input it reports is within the input it reports and the units
of the rest are finite; and an estimate off the wire exactly if its cached
input is within its input. A coefficient at which the greatest count is
finite leaves nothing but the cached input. -/
theorem estimates_conform_iff [SignedArith F] (reader : JsonReader) {c : F} (hc : lit 0 ≤ c) :
    (∀ body : Body, validateEstimate (estimate reader c body) = .ok () ↔
        isFinite (lit ((wrappingAdd (inputTokens (parsed reader body))
          (outputTokens (parsed reader body)) : ℕ) : ℚ) * c) = true) ∧
      (∀ (body : List UInt8) (e : WorkEstimate F), parseUsage reader c body = some e →
        ∃ u, reported reader body = some u ∧
          (validateEstimate e = .ok () ↔ u.cached ≤ u.input ∧
            isFinite (lit ((saturatingAdd (u.input - u.cached) u.output : ℕ) : ℚ) * c) = true)) ∧
      (∀ (wire : WireEstimate F) (e : WorkEstimate F), fromWire wire = .ok e →
        (validateEstimate e = .ok () ↔ wire.cachedInputTokens ≤ wire.inputTokens)) ∧
      (isFinite (lit ((2 ^ 64 - 1 : ℕ) : ℚ) * c) = true →
        ∀ n : ℕ, n < 2 ^ 64 → isFinite (lit (n : ℚ) * c) = true) := by
  refine ⟨fun body => ?_, fun body e he => ?_, fun wire e he => ?_,
    fun h n hn => isFinite_mul_of_max hc h hn⟩
  · rw [priced_conforms_iff hc rfl (by norm_num) (by norm_num) rfl]
    exact and_iff_right (Nat.zero_le _)
  · rw [parseUsage_eq] at he
    obtain ⟨u, hu, rfl⟩ := Option.map_eq_some_iff.mp he
    exact ⟨u, hu, priced_conforms_iff hc rfl zero_le_one le_rfl rfl⟩
  · obtain ⟨hfinite, hsign, hconfidence, hcached, hinput⟩ := fromWire_ok he
    rw [validateEstimate_ok_iff, hcached, hinput]
    exact ⟨fun h => h.2.2.2, fun h => ⟨hfinite, hsign, hconfidence, h⟩⟩

/-- A response that reports more cached input than input. -/
def cachedBody : List UInt8 :=
  Wire.ascii ("\x7b\"usage\":\x7b\"input_tokens\":1," ++
    "\"input_tokens_details\":\x7b\"cached_tokens\":2\x7d\x7d\x7d")

/-- Its document. -/
def cachedDocument : Json :=
  .object [("usage", .object [("input_tokens", .number (.posInt 1)),
    ("input_tokens_details", .object [("cached_tokens", .number (.posInt 2))])])]

/-- A reader of it. -/
def cachedReader : JsonReader :=
  JsonReader.ofTable [(cachedBody, cachedDocument)] fun e he => by
    rw [List.mem_singleton.mp he]
    exact ⟨Nat.zero_le _, List.nodup_singleton _, by decide +kernel⟩

/-- In exact arithmetic every estimate of a request conforms. -/
theorem exact_estimates_conform :
    (0 : ℚ) ≤ 1 ∧
      ∀ body : Body, validateEstimate (estimate cachedReader (1 : ℚ) body) = .ok () :=
  ⟨zero_le_one, fun body => ((estimates_conform_iff cachedReader zero_le_one).1 body).mpr rfl⟩

/-- An estimate off the wire with more cached input than input. -/
def cachedWire : WireEstimate ℚ := ⟨1, 1, 2, 2, 1, "exact_tokenizer", 1⟩

/-- **A provider that reports more cached input than input gets an estimate
that does not conform**, in a response and on the wire. -/
theorem excess_cache_does_not_conform :
    (parseUsage cachedReader (1 : ℚ) cachedBody).map validateEstimate =
        some (.error (.provider "cached input cannot exceed input tokens")) ∧
      (fromWire cachedWire).map validateEstimate =
        .ok (.error (.provider "cached input cannot exceed input tokens")) := by
  have hreads : cachedReader.reads cachedBody = some cachedDocument := by
    simp [cachedReader, JsonReader.ofTable]
  have husage : fromValue (1 : ℚ) cachedDocument = some ⟨1, 0, 2, 1, 0, 1, .providerMetadata⟩ := by
    decide +kernel
  refine ⟨?_, rfl⟩
  unfold parseUsage
  rw [hreads, Option.bind_some, husage]
  rfl

end Providers

end InferQos
