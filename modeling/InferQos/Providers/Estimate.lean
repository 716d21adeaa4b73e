import InferQos.Common.Json
import InferQos.Common.Wire
import InferQos.Core
import Mathlib.Tactic.Linarith
/-!
# The estimate of a request

`HttpProvider::estimate` counts the text of one part of the document a
client sent, adds the number of tokens the client asks for, and charges the
sum. Two things are the client's to choose there: the token limit is any
`u64`, and its sum with the input wraps; and which part is counted depends
on the keys of the document.
-/

namespace InferQos

namespace Providers

/-! ## The estimate -/

/-- The body of a request. An allocation holds at most `isize::MAX`
bytes. -/
structure Body where
  bytes : List UInt8
  length_lt : bytes.length < 2 ^ 63

/-- The document of a body, and `null` where it is none. -/
def parsed (reader : JsonReader) (body : Body) : Json := (reader.reads body.bytes).getD .null

/-- The part whose text is counted. -/
def counted (doc : Json) : Json := ((doc.get "input").or (doc.get "messages")).getD doc

/-- `input`: a token for four bytes of text, and at least one. `count` adds
up `textBytes`, which no body has more of than a `usize` holds. -/
def inputTokens (doc : Json) : ℕ := max ((counted doc).textBytes / 4) 1

/-- `output`: the tokens asked for, 512 by default. -/
def outputTokens (doc : Json) : ℕ :=
  (((doc.get "max_output_tokens").or (doc.get "max_tokens")).bind Json.asU64).getD 512

/-- `HttpProvider::estimate`, of a provider with this cost coefficient. The
sum of the tokens is a `u64`. -/
def estimate {F : Type} [Arith F] (reader : JsonReader) (coefficient : F) (body : Body) :
    WorkEstimate F where
  inputTokens := inputTokens (parsed reader body)
  outputTokens := outputTokens (parsed reader body)
  cachedInputTokens := 0
  providerCostCoefficient := coefficient
  normalizedUnits := Arith.lit (wrappingAdd (inputTokens (parsed reader body))
    (outputTokens (parsed reader body)) : ℕ) * coefficient
  confidence := Arith.lit (55 / 100)
  source := .approximation

/-! ## Ranges -/

variable {reader : JsonReader} {body : Body} {c : ℚ}

theorem one_le_inputTokens (doc : Json) : 1 ≤ inputTokens doc := le_max_right _ _

theorem outputTokens_lt (doc : Json) : outputTokens doc < 2 ^ 64 := by
  unfold outputTokens
  cases h : ((doc.get "max_output_tokens").or (doc.get "max_tokens")).bind Json.asU64 with
  | none => decide
  | some n =>
    obtain ⟨v, -, hn⟩ := Option.bind_eq_some_iff.mp h
    exact Json.asU64_lt hn

/-- A body has no more text than bytes, so the input is far from a wrap. -/
theorem inputTokens_lt (reader : JsonReader) (body : Body) :
    inputTokens (parsed reader body) < 2 ^ 63 := by
  have htext : (parsed reader body).textBytes ≤ body.bytes.length := by
    unfold parsed
    cases h : reader.reads body.bytes with
    | none => exact Nat.zero_le _
    | some doc => exact reader.textBytes_le h
  have hpart : (counted (parsed reader body)).textBytes ≤ (parsed reader body).textBytes := by
    unfold counted
    cases h : ((parsed reader body).get "input").or ((parsed reader body).get "messages") with
    | none => exact le_rfl
    | some part =>
      rcases Option.or_eq_some_iff.mp h with h | ⟨-, h⟩
      · exact Json.textBytes_get_le h
      · exact Json.textBytes_get_le h
  have hlength := body.length_lt
  unfold inputTokens
  omega

/-! ## Sums that wrap -/

/-- **The two sums of the code agree exactly where neither leaves the
range.** -/
theorem wrappingAdd_eq_saturatingAdd_iff {a b : ℕ} (ha : a < 2 ^ 63) (hb : b < 2 ^ 64) :
    wrappingAdd a b = saturatingAdd a b ↔ a + b < 2 ^ 64 := by
  unfold wrappingAdd saturatingAdd u64Max
  omega

/-- A greater sum reads less exactly where it alone wraps. -/
theorem wrappingAdd_le_iff {a b b' : ℕ} (ha : a < 2 ^ 63) (hb : b ≤ b') (hb' : b' < 2 ^ 64) :
    wrappingAdd a b ≤ wrappingAdd a b' ↔ a + b' < 2 ^ 64 ∨ 2 ^ 64 ≤ a + b := by
  unfold wrappingAdd
  omega

theorem workUnits_rat (value : ℚ) :
    workUnits value = if 0 ≤ value then .ok value else .error ⟨value⟩ := by
  unfold workUnits
  by_cases h : 0 ≤ value
  · rw [if_pos h]
    exact if_pos (by simpa using ⟨rfl, h⟩)
  · rw [if_neg h]
    exact if_neg (by simpa using fun _ => not_le.mp h)

/-- What `conservative` makes of its arguments. -/
theorem conservative_units_iff {i o : ℕ} {units : ℚ} :
    (∃ w, WorkEstimate.conservative i o c = .ok w ∧ units = w.normalizedUnits) ↔
      0 ≤ (saturatingAdd i o : ℚ) * c ∧ units = (saturatingAdd i o : ℚ) * c := by
  unfold WorkEstimate.conservative
  rw [workUnits_rat, Arith.lit_rat]
  by_cases hnonneg : 0 ≤ (saturatingAdd i o : ℚ) * c
  · rw [if_pos hnonneg]
    constructor
    · rintro ⟨w, hw, rfl⟩
      cases hw
      exact ⟨hnonneg, rfl⟩
    · rintro ⟨-, rfl⟩
      exact ⟨_, rfl, rfl⟩
  · rw [if_neg hnonneg]
    constructor
    · rintro ⟨w, hw, -⟩
      cases hw
    · rintro ⟨hcon, -⟩
      exact absurd hcon hnonneg

/-- **A wrapped sum is not the conservative one.** -/
theorem wrapped_units_iff {i o : ℕ} (hi : 1 ≤ i) (hi' : i < 2 ^ 63) (ho : o < 2 ^ 64) (c : ℚ) :
    (∃ w, WorkEstimate.conservative i o c = .ok w ∧
        (wrappingAdd i o : ℚ) * c = w.normalizedUnits) ∧ c * o ≤ (wrappingAdd i o : ℚ) * c ↔
      c = 0 ∨ 0 < c ∧ i + o < 2 ^ 64 := by
  have hsat : 0 < saturatingAdd i o ∧ o ≤ saturatingAdd i o := by
    unfold saturatingAdd u64Max
    omega
  have hpos : (0 : ℚ) < saturatingAdd i o := by exact_mod_cast hsat.1
  have hle : (o : ℚ) ≤ saturatingAdd i o := by exact_mod_cast hsat.2
  rw [conservative_units_iff]
  rcases lt_trichotomy c 0 with hc | rfl | hc
  · constructor
    · rintro ⟨⟨hcon, -⟩, -⟩
      exact absurd hcon (not_le.mpr (mul_neg_of_pos_of_neg hpos hc))
    · rintro (rfl | ⟨hcon, -⟩)
      · exact absurd hc (lt_irrefl 0)
      · exact absurd hcon (not_lt.mpr hc.le)
  · simp
  · constructor
    · rintro ⟨⟨-, heq⟩, -⟩
      have heq : wrappingAdd i o = saturatingAdd i o := by
        exact_mod_cast mul_right_cancel₀ hc.ne' heq
      exact Or.inr ⟨hc, (wrappingAdd_eq_saturatingAdd_iff hi' ho).mp heq⟩
    · rintro (rfl | ⟨-, hlt⟩)
      · exact absurd hc (lt_irrefl 0)
      · rw [(wrappingAdd_eq_saturatingAdd_iff hi' ho).mpr hlt, mul_comm c]
        exact ⟨⟨mul_nonneg hpos.le hc.le, rfl⟩, mul_le_mul_of_nonneg_right hle hc.le⟩

/-- **When an estimate cannot be lowered by asking for more.** For every
body: the units are those of `conservative`, and so at least the cost of
the tokens asked for, exactly when the coefficient is zero, or is positive
and the tokens of input and output add up to a `u64`. And of two bodies
with one input the one that asks for more is charged no less exactly when
the coefficient is zero or not only the greater sum leaves the range. -/
theorem estimate_conservative_iff (reader : JsonReader) (c : ℚ) (body : Body) :
    ((∃ w, WorkEstimate.conservative (estimate reader c body).inputTokens
          (estimate reader c body).outputTokens c = .ok w ∧
        (estimate reader c body).normalizedUnits = w.normalizedUnits) ∧
      c * (estimate reader c body).outputTokens ≤ (estimate reader c body).normalizedUnits ↔
        c = 0 ∨ 0 < c ∧
          inputTokens (parsed reader body) + outputTokens (parsed reader body) < 2 ^ 64) ∧
    ∀ body', 0 ≤ c →
      inputTokens (parsed reader body) = inputTokens (parsed reader body') →
      outputTokens (parsed reader body) ≤ outputTokens (parsed reader body') →
      ((estimate reader c body).normalizedUnits ≤ (estimate reader c body').normalizedUnits ↔
        c = 0 ∨ inputTokens (parsed reader body) + outputTokens (parsed reader body') < 2 ^ 64 ∨
          2 ^ 64 ≤ inputTokens (parsed reader body) + outputTokens (parsed reader body)) := by
  have hi := inputTokens_lt reader body
  have ho := outputTokens_lt (parsed reader body)
  refine ⟨wrapped_units_iff (one_le_inputTokens _) hi ho c, fun body' hc hinput houtput => ?_⟩
  have hunits : ∀ body, (estimate reader c body).normalizedUnits =
      (wrappingAdd (inputTokens (parsed reader body)) (outputTokens (parsed reader body)) : ℚ) * c :=
    fun _ => rfl
  rw [hunits, hunits, ← hinput]
  rcases hc.eq_or_lt with rfl | hc
  · simp
  · rw [mul_le_mul_iff_left₀ hc, Nat.cast_le, wrappingAdd_le_iff hi houtput (outputTokens_lt _)]
    exact ⟨Or.inr, fun h => h.resolve_left hc.ne'⟩

/-- A request for `u64::MAX` tokens. -/
def greedyBody : Body := ⟨Wire.ascii "\x7b\"max_tokens\":18446744073709551615\x7d", by decide +kernel⟩

/-- What it says. -/
def greedyDocument : Json := .object [("max_tokens", .number (.posInt 18446744073709551615))]

/-- A reader that reads it. -/
def greedyReader : JsonReader :=
  JsonReader.ofTable [(greedyBody.bytes, greedyDocument)] fun e he => by
    rw [List.mem_singleton.mp he]
    exact ⟨Nat.zero_le _, List.nodup_singleton _, by decide +kernel⟩

/-- **A request for every token there is costs nothing.** -/
theorem greedy_request_free :
    greedyReader.reads greedyBody.bytes = some greedyDocument ∧
      (estimate greedyReader (1 : ℚ) greedyBody).inputTokens = 1 ∧
      (estimate greedyReader (1 : ℚ) greedyBody).outputTokens = 2 ^ 64 - 1 ∧
      (estimate greedyReader (1 : ℚ) greedyBody).normalizedUnits = 0 ∧
      ((WorkEstimate.conservative 1 (2 ^ 64 - 1) (1 : ℚ)).toOption.map (·.normalizedUnits)) =
        some (2 ^ 64 - 1) := by
  refine ⟨rfl, by decide +kernel, by decide +kernel, by decide +kernel, by decide +kernel⟩

/-! ## Which part is counted -/

variable {members members' : List (String × Json)} {k : String} {v : Json}

/-- A member more is found under its key, and hides no other. -/
theorem get_extended (hnd : (members'.map (·.1)).Nodup) (hperm : members'.Perm ((k, v) :: members))
    (key : String) :
    (Json.object members').get key = if k = key then some v else (Json.object members).get key := by
  rw [Json.get_perm ((hperm.map _).nodup_iff.mp hnd) hperm, Json.get_cons]

/-- **What a further member does to the input**: it lowers it only where
the new member is counted in place of what was, and has less text. -/
theorem inputTokens_extended_iff (hnd : (members'.map (·.1)).Nodup)
    (hperm : members'.Perm ((k, v) :: members)) :
    inputTokens (.object members) ≤ inputTokens (.object members') ↔
      k ≠ "input" ∧ (k ≠ "messages" ∨ ((Json.object members).get "input").isSome) ∨
        max ((counted (.object members)).textBytes / 4) 1 ≤ max (v.textBytes / 4) 1 := by
  have hget := get_extended hnd hperm
  by_cases hk : k = "input"
  · have hpart : counted (.object members') = v := by
      unfold counted
      rw [hget, if_pos hk, Option.some_or, Option.getD_some]
    unfold inputTokens
    rw [hpart]
    exact ⟨Or.inr, fun h => h.resolve_left fun hcon => hcon.1 hk⟩
  cases hinput : (Json.object members).get "input" with
  | some part =>
    have hpart : counted (.object members') = counted (.object members) := by
      unfold counted
      rw [hget, if_neg hk, hinput, Option.some_or, Option.some_or, Option.getD_some,
        Option.getD_some]
    unfold inputTokens
    rw [hpart]
    exact ⟨fun _ => Or.inl ⟨hk, Or.inr rfl⟩, fun _ => le_rfl⟩
  | none =>
    by_cases hk' : k = "messages"
    · have hpart : counted (.object members') = v := by
        unfold counted
        rw [hget, if_neg hk, hinput, hget, if_pos hk', Option.none_or, Option.getD_some]
      unfold inputTokens
      rw [hpart]
      refine ⟨Or.inr, fun h => h.resolve_left fun hcon => ?_⟩
      rcases hcon.2 with hcon | hcon
      · exact hcon hk'
      · cases hcon
    · refine ⟨fun _ => Or.inl ⟨hk, Or.inl hk'⟩, fun _ => ?_⟩
      have hle : (counted (.object members)).textBytes ≤ (counted (.object members')).textBytes := by
        unfold counted
        rw [hget, if_neg hk, hinput, hget, if_neg hk', Option.none_or]
        cases (Json.object members).get "messages" with
        | some part => exact le_rfl
        | none =>
          -- the whole document is counted, with the new member
          rw [Option.getD_none, Option.getD_none, Json.textBytes_object, Json.textBytes_object,
            (hperm.map _).sum_eq, List.map_cons, List.sum_cons]
          exact Nat.le_add_left _ _
      unfold inputTokens
      omega

/-- **What `messages` is estimated at.** -/
theorem messages_counted_iff {messages : Json}
    (h : (Json.object members).get "messages" = some messages) :
    messages.textBytes / 4 ≤ inputTokens (.object members) ↔
      ∀ input, (Json.object members).get "input" = some input →
        messages.textBytes / 4 ≤ max (input.textBytes / 4) 1 := by
  unfold inputTokens counted
  rw [h]
  cases (Json.object members).get "input" with
  | none =>
    rw [Option.none_or, Option.getD_some]
    exact ⟨fun _ _ hcon => (by cases hcon), fun _ => le_max_left _ _⟩
  | some input =>
    rw [Option.some_or, Option.getD_some]
    refine ⟨fun hle input' heq => ?_, fun hall => hall input rfl⟩
    cases heq
    exact hle

/-- **When a further member cannot lower the input.** For every body that
is an object and every body that is this object with one member more: the
input tokens of the latter are at least those of the former exactly when
the member is neither `input` nor the `messages` of an object without
`input`, or its own text is estimated at no less than what was counted. And
the input tokens are at least a quarter of the bytes of text in `messages`
exactly when `input`, where there is one, is estimated at no less. -/
theorem padding_cannot_lower_input_iff (reader : JsonReader) (c : ℚ) {body body' : Body}
    (hread : reader.reads body.bytes = some (.object members))
    (hread' : reader.reads body'.bytes = some (.object members'))
    (hperm : members'.Perm ((k, v) :: members)) :
    ((estimate reader c body).inputTokens ≤ (estimate reader c body').inputTokens ↔
      k ≠ "input" ∧ (k ≠ "messages" ∨ ((Json.object members).get "input").isSome) ∨
        max ((counted (.object members)).textBytes / 4) 1 ≤ max (v.textBytes / 4) 1) ∧
    ∀ messages, (Json.object members).get "messages" = some messages →
      (messages.textBytes / 4 ≤ (estimate reader c body).inputTokens ↔
        ∀ input, (Json.object members).get "input" = some input →
          messages.textBytes / 4 ≤ max (input.textBytes / 4) 1) := by
  have hbody : (estimate reader c body).inputTokens = inputTokens (.object members) := by
    simp only [estimate, parsed, hread, Option.getD_some]
  have hbody' : (estimate reader c body').inputTokens = inputTokens (.object members') := by
    simp only [estimate, parsed, hread', Option.getD_some]
  rw [hbody, hbody']
  exact ⟨inputTokens_extended_iff (reader.keys_nodup hread') hperm,
    fun messages h => messages_counted_iff h⟩

/-- Twelve bytes of text in `messages`. -/
def plainBody : Body := ⟨Wire.ascii "\x7b\"messages\":\"abcdefghijkl\"\x7d", by decide +kernel⟩

/-- The same with a `model`. -/
def modelBody : Body :=
  ⟨Wire.ascii "\x7b\"messages\":\"abcdefghijkl\",\"model\":\"m\"\x7d", by decide +kernel⟩

/-- The same with an empty `input`. -/
def paddedBody : Body :=
  ⟨Wire.ascii "\x7b\"messages\":\"abcdefghijkl\",\"input\":\"\"\x7d", by decide +kernel⟩

/-- A reader of the three. -/
def paddingReader : JsonReader :=
  JsonReader.ofTable
    [(plainBody.bytes, .object [("messages", .string "abcdefghijkl")]),
      (modelBody.bytes, .object [("messages", .string "abcdefghijkl"), ("model", .string "m")]),
      (paddedBody.bytes, .object [("input", .string ""), ("messages", .string "abcdefghijkl")])]
    fun e he => by
      rcases List.mem_cons.mp he with rfl | he
      · exact ⟨by decide +kernel, by decide, by decide +kernel⟩
      rcases List.mem_cons.mp he with rfl | he
      · exact ⟨by decide +kernel, by decide, by decide +kernel⟩
      rw [List.mem_singleton.mp he]
      exact ⟨by decide +kernel, by decide, by decide +kernel⟩

/-- A `model` does not lower the input. -/
theorem model_keeps_input :
    (estimate paddingReader (1 : ℚ) plainBody).inputTokens ≤
      (estimate paddingReader (1 : ℚ) modelBody).inputTokens := by
  have hplain : paddingReader.reads plainBody.bytes =
      some (.object [("messages", .string "abcdefghijkl")]) := rfl
  have hmodel : paddingReader.reads modelBody.bytes =
      some (.object [("messages", .string "abcdefghijkl"), ("model", .string "m")]) := rfl
  exact (padding_cannot_lower_input_iff paddingReader 1 hplain hmodel
    (List.Perm.swap _ _ _)).1.mpr (Or.inl ⟨by decide, Or.inl (by decide)⟩)

/-- **An empty `input` hides the messages**: twelve bytes of text are three
tokens without it and one with it. -/
theorem empty_input_hides_messages :
    paddingReader.reads plainBody.bytes = some (.object [("messages", .string "abcdefghijkl")]) ∧
      paddingReader.reads paddedBody.bytes =
        some (.object [("input", .string ""), ("messages", .string "abcdefghijkl")]) ∧
      (Json.string "abcdefghijkl").textBytes = 12 ∧
      (estimate paddingReader (1 : ℚ) plainBody).inputTokens = 3 ∧
      (estimate paddingReader (1 : ℚ) paddedBody).inputTokens = 1 := by
  exact ⟨rfl, rfl, by decide +kernel, by decide +kernel, by decide +kernel⟩

end Providers

end InferQos
