import InferQos.Common.MultiMap
import InferQos.Common.OrdMap
import InferQos.Core
import InferQos.Providers.Usage
/-!
# Responses of an external adapter

`ExternalProviderClient::dispatch` asks an adapter over gRPC and passes on
the stream it answers with. The first message carries the status and the
headers, and a task passes on its data and then the rest, until a message
says that it is the last or the stream is over. The task leaves its loop in
the same way whether the stream has ended or failed, and it does not look
at whether the first message was the last. `external_stream_faithful_iff`
is the exact boundary of what a client that keeps reading can rely on.
-/

namespace InferQos

namespace Providers

variable {F V : Type}

/-! ## Messages -/

/-- `v1::WorkEstimate`. -/
structure WireEstimate (F : Type) where
  inputTokens : ℕ
  outputTokens : ℕ
  cachedInputTokens : ℕ
  normalizedUnits : F
  confidence : F
  source : String
  providerCostCoefficient : F

/-- The source of an estimate by its name on the wire. -/
def sourceOf (name : String) : EstimateSource :=
  if name = "exact_tokenizer" then .exactTokenizer
  else if name = "compatible_tokenizer" then .compatibleTokenizer
  else if name = "trusted_client" then .trustedClient
  else if name = "provider_metadata" then .providerMetadata
  else .approximation

/-- **`from_wire`.** -/
def fromWire [Arith F] (value : WireEstimate F) : Except String (WorkEstimate F) :=
  if !Arith.isFinite value.normalizedUnits || decide (value.normalizedUnits < Arith.lit 0) ||
      !Arith.contains (Arith.lit 0) (Arith.lit 1) value.confidence then
    .error "external adapter returned an invalid work estimate"
  else
    .ok
      { inputTokens := value.inputTokens
        outputTokens := value.outputTokens
        cachedInputTokens := value.cachedInputTokens
        providerCostCoefficient := value.providerCostCoefficient
        normalizedUnits := value.normalizedUnits
        confidence := value.confidence
        source := sourceOf value.source }

/-- `v1::DispatchRequest`. -/
structure DispatchRequest where
  requestId : String
  method : String
  path : String
  safeHeaders : OrdMap String String
  body : List UInt8

/-- `v1::DispatchResponse`. `last` is its field `end`. -/
structure DispatchResponse (F : Type) where
  status : ℕ
  /-- In the order in which the map is iterated. -/
  safeHeaders : List (String × String)
  data : List UInt8
  last : Bool
  usage : Option (WireEstimate F)

/-- **A stream of messages**: what `stream.message().await` comes to, one
call after the other. `taken` says whether the client still takes the data
of the message when it is sent. -/
inductive GrpcStream (F : Type)
  | closed
  | failed (status : String)
  | message (m : DispatchResponse F) (taken : Bool) (rest : GrpcStream F)

/-! ## Headers -/

/-- The headers of `http`, as far as texts become headers and back. -/
structure HeaderText (V : Type) where
  /-- `HeaderValue::to_str`. -/
  toStr : V → Option String
  /-- `HeaderName::from_bytes`. -/
  headerName : String → Except String String
  /-- `HeaderValue::from_str`. -/
  headerValue : String → Except String V

variable (T : HeaderText V)

/-- `safe_headers`. -/
def safeHeaders (headers : MultiMap String V) : OrdMap String String :=
  let safe := headers.iter.filter fun (name, _) =>
    !(["authorization", "api-key", "cookie", "set-cookie"].contains name)
  OrdMap.ofList (safe.filterMap fun (name, value) => (T.toStr value).map fun text => (name, text))

/-- `header_map`. -/
def headerMap (values : List (String × String)) : Except String (MultiMap String V) :=
  values.foldlM (fun headers (name, value) => do
    let name ← T.headerName name
    let value ← T.headerValue value
    return headers.append name value) ∅

/-! ## The dispatch -/

/-- `ProxyRequest`, as far as the external client reads it. -/
structure AdapterRequest (V : Type) where
  method : String
  uri : String
  headers : MultiMap String V
  body : List UInt8

/-- The message to the adapter. -/
def dispatchRequest (request : AdapterRequest V) : DispatchRequest where
  requestId := ((request.headers.get "x-inferqos-request-id").bind T.toStr).getD ""
  method := request.method
  path := request.uri
  safeHeaders := safeHeaders T request.headers
  body := request.body

/-- `ProviderResponse`, with all that its channel delivers and the last
usage published. -/
structure ProviderResponse (F V : Type) where
  status : ℕ
  headers : MultiMap String V
  body : List (Except String (List UInt8))
  usage : Option (WorkEstimate F)

/-- `StatusCode::from_u16`. -/
def statusCode (code : ℕ) : Except String ℕ :=
  if 100 ≤ code ∧ code < 1000 then .ok code else .error "invalid status code"

/-- What is sent of a message: its data, if it has any. -/
def DispatchResponse.items (m : DispatchResponse F) : List (Except String (List UInt8)) :=
  if m.data.isEmpty then [] else [.ok m.data]

/-- Whether the client is found gone when the data of a message is sent. -/
def DispatchResponse.gone (m : DispatchResponse F) (taken : Bool) : Bool :=
  !m.data.isEmpty && !taken

/-- The loop of the task: what it sends, and the last usage. -/
def relay [Arith F] (usage : Option (WorkEstimate F)) :
    GrpcStream F → List (Except String (List UInt8)) × Option (WorkEstimate F)
  | .closed => ([], usage)
  -- `while let Ok(Some(chunk))` ends here as it does above
  | .failed _ => ([], usage)
  | .message chunk taken rest =>
    let usage := (chunk.usage.bind fun value => (fromWire value).toOption).or usage
    if chunk.gone taken then ([], usage)
    else if chunk.last then (chunk.items, usage)
    else
      let after := relay usage rest
      (chunk.items ++ after.1, after.2)

/-- The whole task. -/
def forward [Arith F] (usage : Option (WorkEstimate F)) (first : DispatchResponse F) (taken : Bool)
    (rest : GrpcStream F) : List (Except String (List UInt8)) × Option (WorkEstimate F) :=
  if first.gone taken then ([], usage)
  else
    let after := relay usage rest
    (first.items ++ after.1, after.2)

/-- **`ExternalProviderClient::dispatch`**, for how the adapter answers. -/
def dispatch [Arith F] (adapter : DispatchRequest → Except String (GrpcStream F))
    (request : AdapterRequest V) : Except String (ProviderResponse F V) :=
  match adapter (dispatchRequest T request) with
  | .error e => .error e
  | .ok (.failed status) => .error status
  | .ok .closed => .error "external adapter returned an empty stream"
  | .ok (.message first taken rest) => do
    -- `first.status as u16`
    let status ← statusCode (first.status % 2 ^ 16)
    let headers ← headerMap T first.safeHeaders
    let usage ← first.usage.mapM fromWire
    let sent := forward usage first taken rest
    return ⟨status, headers, sent.1, sent.2⟩

/-! ## What a client relies on -/

namespace GrpcStream

/-- The messages before the stream ends or fails. -/
def messages : GrpcStream F → List (DispatchResponse F)
  | .closed => []
  | .failed _ => []
  | .message m _ rest => m :: rest.messages

/-- Whether the stream fails. -/
def fails : GrpcStream F → Bool
  | .closed => false
  | .failed _ => true
  | .message _ _ rest => rest.fails

/-- A client that keeps reading. -/
def KeptRead : GrpcStream F → Prop
  | .closed => True
  | .failed _ => True
  | .message _ taken rest => taken = true ∧ rest.KeptRead

end GrpcStream

/-- The messages up to and including the first that is the last, or all of
them if none is. -/
def upToEnd (ms : List (DispatchResponse F)) : List (DispatchResponse F) :=
  ms.take (ms.findIdx (·.last) + 1)

/-- The bytes among what is delivered. -/
def bytesOf (items : List (Except String (List UInt8))) : List UInt8 :=
  items.flatMap fun item => item.toOption.getD []

/-- **A faithful delivery**: the data up to the end, and an error at the
end if the stream failed before it. -/
structure Faithful (s : GrpcStream F) (body : List (Except String (List UInt8))) : Prop where
  bytes : bytesOf body = (upToEnd s.messages).flatMap (·.data)
  failure : s.fails = true → (∀ m ∈ s.messages, m.last = false) →
    ∃ e, body.getLast? = some (.error e)

theorem upToEnd_cons (m : DispatchResponse F) (ms : List (DispatchResponse F)) :
    upToEnd (m :: ms) = m :: if m.last then [] else upToEnd ms := by
  unfold upToEnd
  rw [List.findIdx_cons]
  cases m.last with
  | true => rfl
  | false => rfl

theorem not_gone (m : DispatchResponse F) : m.gone true = false := Bool.and_false _

theorem bytesOf_items (m : DispatchResponse F) : bytesOf m.items = m.data := by
  unfold DispatchResponse.items
  split_ifs with h
  · exact (List.isEmpty_iff.mp h).symm
  · exact List.append_nil m.data

theorem bytesOf_flatMap (ms : List (DispatchResponse F)) :
    bytesOf (ms.flatMap DispatchResponse.items) = ms.flatMap (·.data) := by
  unfold bytesOf
  rw [List.flatMap_assoc]
  exact congrArg (List.flatMap · ms) (funext bytesOf_items)

/-- Nothing that is sent is an error. -/
theorem getLast?_flatMap_items (ms : List (DispatchResponse F)) (e : String) :
    (ms.flatMap DispatchResponse.items).getLast? ≠ some (.error e) := by
  intro h
  obtain ⟨m, -, hm⟩ := List.mem_flatMap.mp (List.mem_of_getLast? h)
  unfold DispatchResponse.items at hm
  split_ifs at hm
  · exact List.not_mem_nil hm
  · exact nomatch List.mem_singleton.mp hm

variable [Arith F] {usage : Option (WorkEstimate F)} {first : DispatchResponse F} {taken : Bool}
variable {rest : GrpcStream F}

/-- **What the loop sends** to a client that keeps reading. -/
theorem relay_eq (h : rest.KeptRead) (usage : Option (WorkEstimate F)) :
    (relay usage rest).1 = (upToEnd rest.messages).flatMap DispatchResponse.items := by
  induction rest generalizing usage with
  | closed => rfl
  | failed status => rfl
  | message m taken rest ih =>
    obtain ⟨rfl, hrest⟩ := h
    rw [GrpcStream.messages, upToEnd_cons, List.flatMap_cons]
    simp only [relay, not_gone, Bool.false_eq_true, if_false]
    cases hlast : m.last with
    | true =>
      simp only [if_true, List.flatMap_nil, List.append_nil]
    | false =>
      simp only [Bool.false_eq_true, if_false, ih hrest]

/-- **What is sent**: the first message whatever it says, and the rest up
to its end. -/
theorem forward_eq (h : (GrpcStream.message first taken rest).KeptRead)
    (usage : Option (WorkEstimate F)) :
    (forward usage first taken rest).1 =
      (first :: upToEnd rest.messages).flatMap DispatchResponse.items := by
  obtain ⟨rfl, hrest⟩ := h
  unfold forward
  rw [not_gone]
  simp only [Bool.false_eq_true, if_false]
  rw [relay_eq hrest, List.flatMap_cons]

/-- When the delivery of a stream is faithful. -/
theorem faithful_forward_iff (h : (GrpcStream.message first taken rest).KeptRead)
    (usage : Option (WorkEstimate F)) :
    Faithful (.message first taken rest) (forward usage first taken rest).1 ↔
      (first.last = true → ∀ m ∈ upToEnd rest.messages, m.data = []) ∧
        (rest.fails = true → first.last = true ∨ ∃ m ∈ rest.messages, m.last = true) := by
  have hbytes : bytesOf (forward usage first taken rest).1 =
      (upToEnd (GrpcStream.message first taken rest).messages).flatMap (·.data) ↔
        (first.last = true → ∀ m ∈ upToEnd rest.messages, m.data = []) := by
    rw [forward_eq h, bytesOf_flatMap, GrpcStream.messages, upToEnd_cons, List.flatMap_cons,
      List.flatMap_cons, List.append_cancel_left_eq]
    cases first.last with
    | true =>
      simp only [if_true, List.flatMap_nil, List.flatMap_eq_nil_iff, true_implies]
    | false => simp only [Bool.false_eq_true, if_false, false_implies]
  constructor
  · rintro ⟨hdata, hfailure⟩
    refine ⟨hbytes.mp hdata, fun hfails => ?_⟩
    by_contra hnone
    rw [not_or, Bool.not_eq_true] at hnone
    obtain ⟨e, he⟩ := hfailure hfails (by
      intro m hm
      rcases List.mem_cons.mp hm with rfl | hm
      · exact hnone.1
      · exact Bool.eq_false_iff.mpr fun hlast => hnone.2 ⟨m, hm, hlast⟩)
    rw [forward_eq h] at he
    exact getLast?_flatMap_items _ e he
  · rintro ⟨hdata, hend⟩
    refine ⟨hbytes.mpr hdata, fun hfails hnone => ?_⟩
    rcases hend hfails with hlast | ⟨m, hm, hlast⟩
    · rw [hnone first List.mem_cons_self] at hlast
      exact nomatch hlast
    · rw [hnone m (List.mem_cons_of_mem _ hm)] at hlast
      exact nomatch hlast

/-- What the body of a response is. -/
theorem body_of_dispatch {adapter : DispatchRequest → Except String (GrpcStream F)}
    {request : AdapterRequest V} {s : GrpcStream F} {response : ProviderResponse F V}
    (hadapter : adapter (dispatchRequest T request) = .ok s)
    (hok : dispatch T adapter request = .ok response) :
    ∃ first taken rest usage, s = .message first taken rest ∧
      response.body = (forward usage first taken rest).1 := by
  unfold dispatch at hok
  rw [hadapter] at hok
  cases s with
  | closed => exact nomatch hok
  | failed status => exact nomatch hok
  | message first taken rest =>
    simp only [bind, Except.bind] at hok
    split at hok
    · exact nomatch hok
    split at hok
    · exact nomatch hok
    split at hok
    · exact nomatch hok
    rename_i usage _
    rw [← Except.ok.inj hok]
    exact ⟨first, taken, rest, usage, rfl, rfl⟩

/-- **When the stream of an adapter is delivered faithfully** to a client
that keeps reading: exactly if nothing is sent after a first message that
is the last, and the stream does not fail before some message is. -/
theorem external_stream_faithful_iff {adapter : DispatchRequest → Except String (GrpcStream F)}
    {request : AdapterRequest V} {s : GrpcStream F} {response : ProviderResponse F V}
    (hadapter : adapter (dispatchRequest T request) = .ok s) (hread : s.KeptRead)
    (hok : dispatch T adapter request = .ok response) :
    Faithful s response.body ↔
      (∀ first ∈ s.messages.head?, first.last = true →
          ∀ m ∈ upToEnd s.messages.tail, m.data = []) ∧
        (s.fails = true → ∃ m ∈ s.messages, m.last = true) := by
  obtain ⟨first, taken, rest, usage, rfl, hbody⟩ := body_of_dispatch T hadapter hok
  rw [hbody, faithful_forward_iff hread]
  simp only [GrpcStream.messages, GrpcStream.fails, List.head?_cons, Option.mem_def,
    Option.some.injEq, forall_eq', List.tail_cons, List.mem_cons, exists_eq_or_imp]

/-- Headers that are texts. -/
def plainText : HeaderText String := ⟨some, .ok, .ok⟩

/-- A request without headers. -/
def plainRequest : AdapterRequest String := ⟨"POST", "/v1/responses", ∅, []⟩

/-- A message with this data. -/
def message (data : List UInt8) (last : Bool) : DispatchResponse ℚ := ⟨200, [], data, last, none⟩

/-- Two messages, the second of which is the last. -/
def ordinaryStream : GrpcStream ℚ :=
  .message (message [97] false) true (.message (message [98] true) true .closed)

/-- An adapter that answers with this stream. -/
def answering (s : GrpcStream ℚ) : DispatchRequest → Except String (GrpcStream ℚ) := fun _ => .ok s

/-- A stream that ends with its last message is delivered faithfully. -/
theorem ordinary_stream_faithful :
    ∃ response, dispatch plainText (answering ordinaryStream) plainRequest = .ok response ∧
      response.body = [.ok [97], .ok [98]] ∧ Faithful ordinaryStream response.body := by
  have hread : ordinaryStream.KeptRead := ⟨rfl, rfl, trivial⟩
  have hadapter : answering ordinaryStream (dispatchRequest plainText plainRequest) =
      .ok ordinaryStream := rfl
  have hok : dispatch plainText (answering ordinaryStream) plainRequest =
      .ok ⟨200, ∅, [.ok [97], .ok [98]], none⟩ := rfl
  refine ⟨_, hok, rfl, (external_stream_faithful_iff plainText hadapter hread hok).mpr ⟨?_, ?_⟩⟩
  · rintro first hfirst hlast
    rw [← Option.some.inj hfirst] at hlast
    exact nomatch hlast
  · intro hfails
    exact nomatch hfails

/-- A stream that fails after one message. -/
def truncatedStream : GrpcStream ℚ := .message (message [97] false) true (.failed "unavailable")

/-- A first message that is the last, and one after it. -/
def overrunStream : GrpcStream ℚ :=
  .message (message [97] true) true (.message (message [98] true) true .closed)

/-- **A truncated response looks complete**: the stream fails before any
message is the last, and the client sees its data and no error. And where
the first message is the last, the client sees the data of the next one. -/
theorem truncated_stream_looks_complete :
    (dispatch plainText (answering truncatedStream) plainRequest).map (·.body) =
        .ok [.ok [97]] ∧
      truncatedStream.fails = true ∧ truncatedStream.messages.all (!·.last) = true ∧
      (dispatch plainText (answering overrunStream) plainRequest).map (·.body) =
        .ok [.ok [97], .ok [98]] ∧
      upToEnd overrunStream.messages = [message [97] true] :=
  ⟨rfl, rfl, rfl, rfl, rfl⟩

/-! ## The HTTP provider beside it -/

/-- What the task of `HttpProvider::dispatch` sends. -/
def httpSent : List Received → List (Except String (List UInt8))
  | [] => []
  | ⟨.ok bytes, delivered⟩ :: rest => if delivered then .ok bytes :: httpSent rest else []
  | ⟨.error e, delivered⟩ :: _ => if delivered then [.error e] else []

/-- **A truncated response of the HTTP provider ends with its error.** -/
theorem httpSent_of_failed (chunks : List (List UInt8)) (e : String) :
    httpSent (streamOf chunks ++ [⟨.error e, true⟩]) = chunks.map .ok ++ [.error e] := by
  induction chunks with
  | nil => rfl
  | cons bytes chunks ih => exact congrArg (.ok bytes :: ·) ih

end Providers

end InferQos
