import InferQos.Common.Capped
import InferQos.Common.Json
import InferQos.Common.Utf8
import InferQos.Common.Wire
import InferQos.Core
/-!
# The usage a response reports

The task that streams a response to the client keeps the chunks it passes
on, up to a cap, and publishes the usage `parse_usage` finds in what it
kept. A chunk past the cap is skipped and smaller ones after it are taken,
so what is kept need not be a part of the response. For bodies within the
cap nothing is lost; `published_usage_iff` says for which sizes of chunks
the usage published can be one the response does not report.
-/

namespace InferQos

namespace Providers

variable {F : Type}

/-! ## Texts -/

/-- `char::is_whitespace`. -/
def isWhitespace (c : Char) : Bool :=
  let n := c.toNat
  (9 ≤ n && n ≤ 13) || n == 0x20 || n == 0x85 || n == 0xA0 || n == 0x1680 ||
    (0x2000 ≤ n && n ≤ 0x200A) || n == 0x2028 || n == 0x2029 || n == 0x202F || n == 0x205F ||
    n == 0x3000

/-- `str::trim`. -/
def trim (text : List Char) : List Char :=
  ((text.dropWhile isWhitespace).reverse.dropWhile isWhitespace).reverse

/-- `str::strip_prefix`. -/
def stripPrefix (lead text : List Char) : Option (List Char) :=
  if lead.isPrefixOf text then some (text.drop lead.length) else none

/-- The rest of a text as lines, where `line` is what the first has so far.
A line feed ends a line, with a carriage return before it; after the last
one there is a line only if there is text. -/
def linesFrom (line : List Char) : List Char → List (List Char)
  | [] => if line = [] then [] else [line]
  | c :: rest =>
    if c = '\n' then
      (if line.getLast? = some '\r' then line.dropLast else line) :: linesFrom [] rest
    else linesFrom (line ++ [c]) rest

/-- `str::lines`. -/
def lines (text : List Char) : List (List Char) := linesFrom [] text

example : lines "a\r\n\nb\r".toList = ["a".toList, [], "b\r".toList] := by decide

/-! ## `parse_usage` -/

section

variable [Arith F] (reader : JsonReader) (coefficient : F)

/-- `from_value`. -/
def fromValue (value : Json) : Option (WorkEstimate F) := do
  let usage ← (value.get "usage").or ((value.get "response").bind (·.get "usage"))
  let input ← ((usage.get "input_tokens").or (usage.get "prompt_tokens")).bind Json.asU64
  let output := (((usage.get "output_tokens").or (usage.get "completion_tokens")).bind
    Json.asU64).getD 0
  let cached := ((((usage.get "input_tokens_details").or (usage.get "prompt_tokens_details")).bind
    (·.get "cached_tokens")).bind Json.asU64).getD 0
  some
    { inputTokens := input
      outputTokens := output
      cachedInputTokens := cached
      providerCostCoefficient := coefficient
      normalizedUnits := Arith.lit (saturatingAdd (input - cached) output : ℕ) * coefficient
      confidence := Arith.lit 1
      source := .providerMetadata }

/-- The usage in one line of a stream of events. -/
def usageOfLine (line : List Char) : Option (WorkEstimate F) := do
  let rest ← stripPrefix "data:".toList line
  let json := trim rest
  if json = "[DONE]".toList then none
  else (reader.reads (json.flatMap String.utf8EncodeChar)).bind (fromValue coefficient)

/-- `parse_usage`: of the whole body as one document, or else of the last
line that has it. -/
def parseUsage (body : List UInt8) : Option (WorkEstimate F) :=
  ((reader.reads body).bind (fromValue coefficient)).or
    ((String.fromUTF8? ⟨body.toArray⟩).bind fun text =>
      (lines text.toList).reverse.findSome? (usageOfLine reader coefficient))

end

/-! ## The stream task -/

/-- What the stream yields next, and whether the client still takes it. -/
structure Received where
  chunk : Except String (List UInt8)
  delivered : Bool

/-- `1024 * 1024`. -/
def metadataCap : ℕ := 1024 * 1024

/-- The metadata after one chunk. -/
def extend (metadata bytes : List UInt8) : List UInt8 :=
  if saturatingAdd metadata.length bytes.length ≤ metadataCap then metadata ++ bytes else metadata

/-- The loop of the task: it ends with the stream, at an error, and when
the client has gone. -/
def collect (metadata : List UInt8) : List Received → List UInt8
  | [] => metadata
  | ⟨.ok bytes, delivered⟩ :: rest =>
    if delivered then collect (extend metadata bytes) rest else extend metadata bytes
  | ⟨.error _, _⟩ :: _ => metadata

/-- **The usage `dispatch` publishes.** -/
def published [Arith F] (reader : JsonReader) (coefficient : F) (stream : List Received) :
    Option (WorkEstimate F) :=
  parseUsage reader coefficient (collect [] stream)

/-- The chunks the task takes off the stream. -/
def chunksOf : List Received → List (List UInt8)
  | [] => []
  | ⟨.ok bytes, delivered⟩ :: rest => bytes :: if delivered then chunksOf rest else []
  | ⟨.error _, _⟩ :: _ => []

variable {metadata : List UInt8} {stream : List Received}

theorem extend_eq (metadata bytes : List UInt8) :
    extend metadata bytes = Capped.keep metadataCap metadata bytes := by
  have hfits : saturatingAdd metadata.length bytes.length ≤ metadataCap ↔
      metadata.length + bytes.length ≤ metadataCap := by
    unfold saturatingAdd u64Max metadataCap
    omega
  unfold extend Capped.keep
  simp only [hfits]

/-- **The metadata is the capped buffer of the chunks.** -/
theorem collect_eq (metadata : List UInt8) (stream : List Received) :
    collect metadata stream = (chunksOf stream).foldl (Capped.keep metadataCap) metadata := by
  induction stream generalizing metadata with
  | nil => rfl
  | cons e stream ih =>
    obtain ⟨chunk, delivered⟩ := e
    cases chunk with
    | error e => rfl
    | ok bytes =>
      rw [collect, chunksOf, List.foldl_cons, extend_eq]
      cases delivered with
      | false => rfl
      | true => exact ih _

/-- A stream of chunks that are all delivered. -/
def streamOf (chunks : List (List UInt8)) : List Received := chunks.map fun bytes => ⟨.ok bytes, true⟩

theorem chunksOf_streamOf (chunks : List (List UInt8)) : chunksOf (streamOf chunks) = chunks := by
  induction chunks with
  | nil => rfl
  | cons bytes chunks ih => exact congrArg (List.cons bytes) ih

/-! ## Usage that is not the response's -/

variable [Arith F] {reader : JsonReader} {coefficient : F}

/-- Nothing is found in what is not UTF-8. -/
theorem parseUsage_of_ff {body : List UInt8} (h : (255 : UInt8) ∈ body) :
    parseUsage reader coefficient body = none := by
  have hread : reader.reads body = none := by
    cases hread : reader.reads body with
    | none => rfl
    | some v => exact absurd h (reader.utf8 hread)
  unfold parseUsage
  rw [hread, fromUTF8?_of_ff h]
  rfl

/-- **When the usage published is the response's.** For every list of chunk
sizes: every stream without errors whose chunks have these sizes publishes
nothing or the usage of the whole response, exactly when the sizes add up
to at most the cap, or what is kept is too short to hold a usage at all. In
the first case the task publishes the usage of the response, whatever the
chunks. -/
theorem published_usage_iff (reader : JsonReader) (coefficient : F) (sizes : List ℕ) :
    ((∀ stream, (∀ e ∈ stream, e.chunk.isOk) → (chunksOf stream).map List.length = sizes →
        published reader coefficient stream = none ∨
          published reader coefficient stream =
            parseUsage reader coefficient (chunksOf stream).flatten) ↔
      sizes.sum ≤ metadataCap ∨
        ∀ body : List UInt8, body.length = Capped.kept metadataCap 0 sizes →
          parseUsage reader coefficient body = none) ∧
    (sizes.sum ≤ metadataCap →
      ∀ stream, (∀ e ∈ stream, e.chunk.isOk) → (chunksOf stream).map List.length = sizes →
        published reader coefficient stream =
          parseUsage reader coefficient (chunksOf stream).flatten) := by
  have hwhole : sizes.sum ≤ metadataCap → ∀ stream, (chunksOf stream).map List.length = sizes →
      published reader coefficient stream =
        parseUsage reader coefficient (chunksOf stream).flatten := by
    intro hsum stream hsizes
    unfold published
    rw [collect_eq, Capped.foldl_keep_of_fits (by rw [hsizes, List.length_nil, Nat.zero_add]; exact hsum),
      List.nil_append]
  refine ⟨⟨fun hall => ?_, ?_⟩, fun hsum stream _ hsizes => hwhole hsum stream hsizes⟩
  · by_contra hcon
    rw [not_or, not_le] at hcon
    obtain ⟨hsum, hbody⟩ := hcon
    push Not at hbody
    obtain ⟨body, hlength, husage⟩ := hbody
    -- the body goes into what is kept, and bytes that are no text into what is skipped
    set chunks := Capped.fill metadataCap (255 : UInt8) 0 body sizes with hchunks
    have hkept : published reader coefficient (streamOf chunks) =
        parseUsage reader coefficient body := by
      unfold published
      rw [collect_eq, chunksOf_streamOf, hchunks, Capped.foldl_keep_fill List.length_nil hlength,
        List.nil_append]
    have hall := hall (streamOf chunks)
      (fun e he => by obtain ⟨bytes, -, rfl⟩ := List.mem_map.mp he; rfl)
      (by rw [chunksOf_streamOf, hchunks, Capped.map_length_fill hlength])
    have hff : (255 : UInt8) ∈ chunks.flatten :=
      Capped.junk_mem_fill (Nat.zero_le _) (by rwa [Nat.zero_add])
    rw [hkept, chunksOf_streamOf, parseUsage_of_ff hff, or_self] at hall
    exact husage hall
  · rintro (hsum | hnone) stream - hsizes
    · exact Or.inr (hwhole hsum stream hsizes)
    · left
      refine hnone _ ?_
      rw [collect_eq, Capped.length_foldl_keep, hsizes, List.length_nil, Nat.zero_add]

/-! ### A splice -/

/-- A response up to the first digit of its tokens. -/
def spliceHead : List UInt8 := Wire.ascii "\x7b\"usage\":\x7b\"input_tokens\":1"

/-- The three digits that follow. -/
def spliceMiddle : List UInt8 := Wire.ascii "000"

/-- The end of the response. -/
def spliceTail : List UInt8 := Wire.ascii "\x7d\x7d"

/-- A run of blanks. -/
def blanks (n : ℕ) : List UInt8 := List.replicate n 32

/-- Blanks ahead of the response, in pieces of at most 16 KiB. With the head
they leave two bytes of the cap. -/
def spliceBlanks : List (List UInt8) := List.replicate 63 (blanks 16384) ++ [blanks 16356]

/-- A document that reports this many tokens. -/
def spliceDocument (tokens : UInt64) : Json :=
  .object [("usage", .object [("input_tokens", .number (.posInt tokens))])]

/-- A reader of the response after some bytes, with and without the three
digits. -/
def spliceReader (before : List UInt8) (h : (255 : UInt8) ∉ before) : JsonReader :=
  JsonReader.ofTable
    [(before ++ (spliceHead ++ spliceTail), spliceDocument 1),
      (before ++ (spliceHead ++ (spliceMiddle ++ spliceTail)), spliceDocument 1000)]
    fun e he => by
      rcases List.mem_cons.mp he with rfl | he
      · refine ⟨Nat.zero_le _, List.nodup_singleton _, fun hmem => ?_⟩
        exact (List.mem_append.mp hmem).elim h (by decide +kernel)
      · rw [List.mem_singleton.mp he]
        refine ⟨Nat.zero_le _, List.nodup_singleton _, fun hmem => ?_⟩
        exact (List.mem_append.mp hmem).elim h (by decide +kernel)

theorem spliceReader_reads {before : List UInt8} (h : (255 : UInt8) ∉ before) :
    (spliceReader before h).reads (before ++ (spliceHead ++ spliceTail)) =
        some (spliceDocument 1) ∧
      (spliceReader before h).reads (before ++ (spliceHead ++ (spliceMiddle ++ spliceTail))) =
        some (spliceDocument 1000) := by
  have hne : ¬ before ++ (spliceHead ++ spliceTail) =
      before ++ (spliceHead ++ (spliceMiddle ++ spliceTail)) := by
    rw [List.append_right_inj]
    decide +kernel
  constructor
  · simp only [spliceReader, JsonReader.ofTable, List.find?_cons, decide_true, Option.map_some]
  · simp only [spliceReader, JsonReader.ofTable, List.find?_cons, decide_eq_false hne, decide_true,
      Option.map_some]

theorem length_blanks (n : ℕ) : (blanks n).length = n := List.length_replicate

theorem mem_spliceBlanks {chunk : List UInt8} (h : chunk ∈ spliceBlanks) :
    ∃ n ≤ 16384, chunk = blanks n := by
  rcases List.mem_append.mp h with h | h
  · exact ⟨16384, le_rfl, List.eq_of_mem_replicate h⟩
  · exact ⟨16356, by decide, List.mem_singleton.mp h⟩

theorem ff_notMem_spliceBlanks : (255 : UInt8) ∉ spliceBlanks.flatten := by
  intro h
  obtain ⟨chunk, hchunk, hff⟩ := List.mem_flatten.mp h
  obtain ⟨n, -, rfl⟩ := mem_spliceBlanks hchunk
  exact absurd (List.eq_of_mem_replicate hff) (by decide)

theorem sum_spliceBlanks : (spliceBlanks.map List.length).sum = 1048548 := by
  simp only [spliceBlanks, List.map_append, List.map_replicate, List.map_cons, List.map_nil,
    length_blanks, List.sum_append, List.sum_replicate, List.sum_singleton]
  decide

/-- The three digits do not fit, and the end does. -/
theorem collect_splice :
    collect [] (streamOf (spliceBlanks ++ [spliceHead, spliceMiddle, spliceTail])) =
      spliceBlanks.flatten ++ (spliceHead ++ spliceTail) := by
  have hblanks : spliceBlanks.foldl (Capped.keep metadataCap) [] = spliceBlanks.flatten := by
    rw [Capped.foldl_keep_of_fits (by rw [sum_spliceBlanks]; decide), List.nil_append]
  have hlength : spliceBlanks.flatten.length = 1048548 := by
    rw [List.length_flatten, sum_spliceBlanks]
  have hhead : (spliceBlanks.flatten ++ spliceHead).length = 1048574 := by
    rw [List.length_append, hlength]
    rfl
  have hfirst : Capped.keep metadataCap spliceBlanks.flatten spliceHead =
      spliceBlanks.flatten ++ spliceHead := if_pos (by rw [hlength]; decide +kernel)
  have hskip : Capped.keep metadataCap (spliceBlanks.flatten ++ spliceHead) spliceMiddle =
      spliceBlanks.flatten ++ spliceHead := if_neg (by rw [hhead]; decide +kernel)
  have hlast : Capped.keep metadataCap (spliceBlanks.flatten ++ spliceHead) spliceTail =
      spliceBlanks.flatten ++ spliceHead ++ spliceTail := if_pos (by rw [hhead]; decide +kernel)
  rw [collect_eq, chunksOf_streamOf, List.foldl_append, hblanks]
  simp only [List.foldl_cons, List.foldl_nil, hfirst, hskip, hlast, List.append_assoc]

/-- **Chunks spliced report what the response does not.** The response
reports a thousand tokens, in chunks of at most 16 KiB. Three digits of them
come when two bytes are left, and the end after that; what is kept reports
one token. -/
theorem spliced_chunks_misreport :
    (∀ chunk ∈ spliceBlanks ++ [spliceHead, spliceMiddle, spliceTail], chunk.length ≤ 16384) ∧
      (published (spliceReader spliceBlanks.flatten ff_notMem_spliceBlanks) (1 : ℚ)
        (streamOf (spliceBlanks ++ [spliceHead, spliceMiddle, spliceTail]))).map
          (·.inputTokens) = some 1 ∧
      (parseUsage (spliceReader spliceBlanks.flatten ff_notMem_spliceBlanks) (1 : ℚ)
        (spliceBlanks ++ [spliceHead, spliceMiddle, spliceTail]).flatten).map
          (·.inputTokens) = some 1000 := by
  obtain ⟨hkept, hall⟩ := spliceReader_reads ff_notMem_spliceBlanks
  refine ⟨fun chunk hchunk => ?_, ?_, ?_⟩
  · rcases List.mem_append.mp hchunk with hchunk | hchunk
    · obtain ⟨n, hn, rfl⟩ := mem_spliceBlanks hchunk
      rwa [length_blanks]
    · revert chunk
      decide +kernel
  · rw [published, collect_splice, parseUsage, hkept]
    rfl
  · have hflatten : (spliceBlanks ++ [spliceHead, spliceMiddle, spliceTail]).flatten =
        spliceBlanks.flatten ++ (spliceHead ++ (spliceMiddle ++ spliceTail)) := by
      rw [List.flatten_append]
      rfl
    rw [hflatten, parseUsage, hall]
    rfl

end Providers

end InferQos
