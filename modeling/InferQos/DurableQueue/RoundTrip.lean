import InferQos.DurableQueue.Model
/-!
# Jobs through a broker

What a queue writes is read back as the job it was, so the only thing that
stands between a published job and its receipt is the bound on the encoded
bytes. `publish` bounds the bytes a job carries by the limit, and `receive`
bounds the bytes of its JSON by twice the limit; the JSON takes up to four
bytes for each of the job's, and 72 more. `durable_job_returns_iff` is the
exact boundary, for both adapters.
-/

namespace InferQos

namespace DurableQueue

open Wire

/-! ## The encoding is read back -/

theorem readByte_append {b : UInt8} {rest : List UInt8} (h : EndsItem rest) :
    readByte (decimal b.toNat ++ rest) = some (b, rest) := by
  have hrest : ∀ c ∈ rest.head?, isDigit c = false := by
    intro c hc
    rw [Option.mem_def] at hc
    rcases h with h | h
    · rw [hc, Option.some.injEq] at h
      rw [h]
      rfl
    · rw [hc, Option.some.injEq] at h
      rw [h]
      rfl
  unfold readByte
  rw [bind_of_eq_some (readDecimal_append hrest), if_pos b.toNat_lt, UInt8.ofNat_toNat]
  rfl

theorem readBytes_append (bs rest : List UInt8) :
    readArray readByte (bytes bs ++ rest) = some (bs, rest) :=
  readArray_append (fun _ _ h => readByte_append h) (fun _ => rfl) bs rest

theorem readId_append (id : JobId) (rest : List UInt8) :
    readId (hyphenated id ++ rest) = some (id, rest) := by
  have hid : id.val < 16 ^ 32 := lt_of_lt_of_eq id.isLt (by norm_num)
  have hsum : id.val / 16 ^ 24 % 16 ^ 8 * 16 ^ 24 + id.val / 16 ^ 20 % 16 ^ 4 * 16 ^ 20 +
      id.val / 16 ^ 16 % 16 ^ 4 * 16 ^ 16 + id.val / 16 ^ 12 % 16 ^ 4 * 16 ^ 12 +
      id.val % 16 ^ 12 = id.val := by
    omega
  simp only [hyphenated, List.append_assoc]
  unfold readId
  rw [bind_of_eq_some (readHex_append _ _ _ _), bind_of_eq_some (literal_append _ _),
    bind_of_eq_some (readHex_append _ _ _ _), bind_of_eq_some (literal_append _ _),
    bind_of_eq_some (readHex_append _ _ _ _), bind_of_eq_some (literal_append _ _),
    bind_of_eq_some (readHex_append _ _ _ _), bind_of_eq_some (literal_append _ _),
    bind_of_eq_some (readHex_append _ _ _ _)]
  simp only [zero_mul, zero_add, hsum]
  exact congrArg (fun id => some (id, rest)) (Fin.ofNat_val_eq_self id)

/-- **What is written is read back.** -/
theorem readWireJob_toVec (wire : WireJob) : readWireJob (toVec wire) = some (wire, []) := by
  rw [← List.append_nil (toVec wire)]
  simp only [toVec, List.append_assoc]
  unfold readWireJob
  rw [bind_of_eq_some (literal_append _ _), bind_of_eq_some (readId_append _ _),
    bind_of_eq_some (literal_append _ _), bind_of_eq_some (readBytes_append _ _),
    bind_of_eq_some (literal_append _ _), bind_of_eq_some (readBytes_append _ _),
    bind_of_eq_some (literal_append _ _)]
  rfl

/-- An accepted job is decoded to itself, and passes the bound again. -/
theorem decode_toVec (serde : Serde) {job : DurableJob} {limit : ℕ}
    (h : ensureSize job limit = .ok ()) : serde.decode limit (toVec job.toWire) = .ok job := by
  have hjob : job.toWire.toJob = job := rfl
  simp only [Serde.decode, serde.fromSlice_compact (readWireJob_toVec job.toWire), hjob, h]

/-! ## The length of the encoding -/

/-- The digits of a byte. -/
def digitCount (b : UInt8) : ℕ := if b.toNat < 10 then 1 else if b.toNat < 100 then 2 else 3

/-- The bytes of an array of numbers, without its brackets. -/
def arrayLength (bs : List UInt8) : ℕ := (bs.map digitCount).sum + (bs.length - 1)

/-- **The length of a job's JSON**: 72 bytes for the id and the names, and
for each byte its digits and a comma. -/
def encodedLength (job : DurableJob) : ℕ :=
  72 + arrayLength job.metadata + arrayLength job.payload

theorem length_decimal_byte (b : UInt8) : (decimal b.toNat).length = digitCount b := by
  have hb := b.toNat_lt
  unfold digitCount
  split_ifs with h1 h2
  · exact length_decimal_of_lt h1
  · rw [length_decimal_of_ge (by omega), length_decimal_of_lt (by omega)]
  · rw [length_decimal_of_ge (by omega), length_decimal_of_ge (by omega),
      length_decimal_of_lt (by omega)]

theorem length_bytes (bs : List UInt8) : (bytes bs).length = 2 + arrayLength bs := by
  have hdigits : (fun b : UInt8 => (decimal b.toNat).length) = digitCount :=
    funext length_decimal_byte
  unfold bytes arrayLength
  rw [length_array, hdigits]
  omega

theorem length_hyphenated (id : JobId) : (hyphenated id).length = 36 := by
  have hdash : (ascii "-").length = 1 := rfl
  simp only [hyphenated, List.length_append, length_hex, hdash]

theorem length_toVec (job : DurableJob) : (toVec job.toWire).length = encodedLength job := by
  have hopen : (ascii "\x7b\"id\":\"").length = 7 := rfl
  have hmetadata : (ascii "\",\"metadata\":").length = 13 := rfl
  have hpayload : (ascii ",\"payload\":").length = 11 := rfl
  have hclose : (ascii "\x7d").length = 1 := rfl
  simp only [toVec, encodedLength, DurableJob.toWire, List.length_append, length_hyphenated,
    length_bytes, hopen, hmetadata, hpayload, hclose]
  omega

/-- A byte takes at least a digit and, but for the first, a comma. -/
theorem le_arrayLength (bs : List UInt8) : 2 * bs.length ≤ arrayLength bs + 1 := by
  have hsum : bs.length ≤ (bs.map digitCount).sum := by
    induction bs with
    | nil => exact Nat.le_refl 0
    | cons b bs ih =>
      have hb : 1 ≤ digitCount b := by
        unfold digitCount
        split_ifs <;> omega
      simp only [List.length_cons, List.map_cons, List.sum_cons]
      omega
  unfold arrayLength
  omega

/-! ## NATS JetStream -/

section

variable {A : Type} {serde : Serde} {job : DurableJob} {nats : NatsJetStreamQueue A}

/-- What `publish` accepts is bounded, and stored as it is encoded. -/
theorem NatsJetStreamQueue.publish_ok {broker : Except String Unit} {message : PublishMessage}
    (h : nats.publish broker job = .ok message) :
    ensureSize job nats.maxJobBytes = .ok () ∧ message.payload = toVec job.toWire := by
  unfold publish at h
  split at h
  · cases h
  · rename_i hsize
    split at h
    · cases h
    · cases h
      exact ⟨hsize, rfl⟩

/-- **A stored job is received, or refused for the length of its encoding.** -/
theorem NatsJetStreamQueue.receive_stored (hsize : ensureSize job nats.maxJobBytes = .ok ())
    (acker : A) :
    (nats.receive serde (.ok (some (.ok ⟨toVec job.toWire, acker⟩)))).1 =
      if saturatingMul nats.maxJobBytes 2 < encodedLength job then
        .error (.tooLarge (encodedLength job) nats.maxJobBytes)
      else .ok (some job) := by
  simp only [receive, length_toVec, decode_toVec serde hsize]
  split_ifs <;> rfl

end

/-! ## Azure Service Bus -/

section

variable {parseHost : Bool → String → Except String String} {serde : Serde} {job : DurableJob}
variable {azure : AzureServiceBusQueue}

/-- What `publish` accepts is bounded, and sent as it is encoded. -/
theorem AzureServiceBusQueue.publish_ok {broker : Request → Except String Response}
    {request : Request} (h : azure.publish parseHost broker job = .ok request) :
    ensureSize job azure.maxJobBytes = .ok () ∧ request.body = toVec job.toWire := by
  unfold publish at h
  obtain ⟨⟨⟩, hsize, h⟩ := bind_eq_ok.mp h
  obtain ⟨url, -, h⟩ := bind_eq_ok.mp h
  obtain ⟨authorization, -, h⟩ := bind_eq_ok.mp h
  obtain ⟨response, -, h⟩ := bind_eq_ok.mp h
  obtain ⟨-, -, h⟩ := bind_eq_ok.mp h
  cases h
  exact ⟨hsize, rfl⟩

/-- **The broker delivers a body**: the queue is reached with a token, and
the response is a peek-lock that carries the body, with a settlement link on
the endpoint's host. -/
structure AzureServiceBusQueue.Delivers (parseHost : Bool → String → Except String String)
    (azure : AzureServiceBusQueue) (body : List UInt8) (response : Response) : Prop where
  reached : ∃ url, azure.messagesUrl parseHost "/head?timeout=1" = .ok url
  authorized : ∃ authorization, azure.bearer = .ok authorization
  status : response.status ≠ 204 ∧ response.errorForStatus = .ok ()
  settles : ∃ url, azure.settlement parseHost response = .ok url
  bytes_eq : response.bytes = .ok body
  contentLength_eq : ∀ size ∈ response.contentLength, size = body.length

/-- **A delivered job is received, or refused for the length of its
encoding.** -/
theorem AzureServiceBusQueue.receive_delivered
    (hsize : ensureSize job azure.maxJobBytes = .ok ()) {response : Response}
    (h : azure.Delivers parseHost (toVec job.toWire) response) :
    (azure.receive parseHost serde fun _ => .ok response).1 =
      if saturatingMul azure.maxJobBytes 2 < encodedLength job then
        .error (.tooLarge (encodedLength job) azure.maxJobBytes)
      else .ok (some job) := by
  obtain ⟨url, hurl⟩ := h.reached
  obtain ⟨authorization, hauth⟩ := h.authorized
  obtain ⟨settled, hsettled⟩ := h.settles
  have hstatus : ¬ (response.status = 204 ∨ response.status = 404) := by
    rintro (h204 | h404)
    · exact h.status.1 h204
    · have hok := h.status.2
      rw [Response.errorForStatus, if_pos (by omega)] at hok
      cases hok
  have haccept : azure.accept parseHost serde response =
      if saturatingMul azure.maxJobBytes 2 < encodedLength job then
        .error (.tooLarge (encodedLength job) azure.maxJobBytes)
      else .ok (some (job, settled)) := by
    rw [accept, if_neg hstatus, h.status.2, hsettled, h.bytes_eq]
    -- the header, if there is one, announces the length the body has
    cases hlength : response.contentLength with
    | none =>
      simp only [Option.elim_none, bind, Except.bind, Except.mapError, bound, length_toVec,
        decode_toVec serde hsize]
      split_ifs <;> rfl
    | some size =>
      have hsize' : size = encodedLength job :=
        (h.contentLength_eq size hlength).trans (length_toVec job)
      simp only [Option.elim_some, bind, Except.bind, Except.mapError, bound, length_toVec,
        decode_toVec serde hsize, hsize']
      split_ifs <;> rfl
  simp only [receive, hurl, hauth, send, bind, Except.bind, haccept]
  split_ifs <;> rfl

end

/-! ## Both -/

theorem returns_iff {job : DurableJob} {limit : ℕ} :
    (if saturatingMul limit 2 < encodedLength job then
        Except.error (QueueError.tooLarge (encodedLength job) limit)
      else .ok (some job)) = .ok (some job) ↔ encodedLength job ≤ saturatingMul limit 2 := by
  split_ifs with hlong
  · simp only [false_iff]
    omega
  · simp only [true_iff]
    omega

/-- **A published job comes back exactly if its encoding is at most twice
the limit.** For every limit, every job either adapter accepts and a broker
that delivers the bytes unchanged: `receive` returns the published job if
and only if the length of its JSON, 72 and the digits and commas of its
bytes, is at most twice `max_job_bytes` (in `usize` arithmetic that
saturates). -/
theorem durable_job_returns_iff {A : Type} (serde : Serde)
    (parseHost : Bool → String → Except String String) (job : DurableJob)
    (nats : NatsJetStreamQueue A) (stream : Except String Unit) (message : PublishMessage)
    (hnats : nats.publish stream job = .ok message) (acker : A)
    (azure : AzureServiceBusQueue) (bus : Request → Except String Response) (request : Request)
    (hazure : azure.publish parseHost bus job = .ok request) (response : Response)
    (hdelivers : azure.Delivers parseHost request.body response) :
    ((nats.receive serde (.ok (some (.ok ⟨message.payload, acker⟩)))).1 = .ok (some job) ↔
        encodedLength job ≤ saturatingMul nats.maxJobBytes 2) ∧
      ((azure.receive parseHost serde fun _ => .ok response).1 = .ok (some job) ↔
        encodedLength job ≤ saturatingMul azure.maxJobBytes 2) := by
  obtain ⟨hnsize, hpayload⟩ := NatsJetStreamQueue.publish_ok hnats
  obtain ⟨hasize, hbody⟩ := AzureServiceBusQueue.publish_ok hazure
  rw [hbody] at hdelivers
  rw [hpayload, NatsJetStreamQueue.receive_stored hnsize,
    AzureServiceBusQueue.receive_delivered hasize hdelivers]
  exact ⟨returns_iff, returns_iff⟩

/-- **A job that fills its limit never comes back**, unless the limit is
beyond what memory holds. -/
theorem full_job_refused {A : Type} {serde : Serde} {job : DurableJob}
    {nats : NatsJetStreamQueue A} (hlimit : nats.maxJobBytes * 2 ≤ u64Max)
    (hfull : job.metadata.length + job.payload.length = nats.maxJobBytes) (acker : A) :
    (nats.receive serde (.ok (some (.ok ⟨toVec job.toWire, acker⟩)))).1 =
      .error (.tooLarge (encodedLength job) nats.maxJobBytes) := by
  have hsize : ensureSize job nats.maxJobBytes = .ok () := by
    unfold ensureSize saturatingAdd
    rw [if_neg (by omega)]
  have hmetadata := le_arrayLength job.metadata
  have hpayload := le_arrayLength job.payload
  rw [NatsJetStreamQueue.receive_stored hsize, if_pos]
  unfold saturatingMul encodedLength
  omega

/-! ### Jobs of them -/

/-- A decoder of the compact form and no other. -/
def compactSerde : Serde where
  fromSlice := fun input =>
    match readWireJob input with
    | some (wire, []) => .ok wire
    | _ => .error "not a compact job"
  fromSlice_compact := by
    intro input wire h
    simp only [h]

/-- Hosts are read as they are written. -/
def plainHost : Bool → String → Except String String := fun _ host => .ok host

/-- An adapter with a limit of 100 bytes. -/
def sampleNats : NatsJetStreamQueue Unit := ⟨"jobs", fun _ => none, 100⟩

/-- The other one, with the same limit. -/
def sampleAzure : AzureServiceBusQueue where
  endpoint := ⟨⟨"https", some "bus.example.com", none⟩, false, "/".toList⟩
  queue := "jobs"
  credential := fun _ => .ok "token"
  settlements := fun _ => none
  maxJobBytes := 100

/-- A broker that accepts everything, and delivers a body under a lock. -/
def deliver (body : List UInt8) : Response := ⟨201, "", none, some "/jobs/messages/1/lock", .ok body⟩

/-- URLs on the host of the bus. -/
def busUrl (tail : String) : WebUrl := ⟨sampleAzure.endpoint.toOrigin, false, tail.toList⟩

theorem delivers_sample (body : List UInt8) :
    sampleAzure.Delivers plainHost body (deliver body) where
  reached := ⟨busUrl "jobs/messages/head?timeout=1", by decide +kernel⟩
  authorized := ⟨_, rfl⟩
  status := ⟨show 201 ≠ 204 by decide, rfl⟩
  settles := by
    refine ⟨busUrl "/jobs/messages/1/lock", ?_⟩
    show sampleAzure.settlement plainHost (deliver []) = _
    decide +kernel
  bytes_eq := rfl
  contentLength_eq := fun _ h => by cases h

/-- Three small bytes. -/
def smallJob : DurableJob := ⟨7, [], [1, 2, 3]⟩

/-- A hundred large ones. -/
def fullJob : DurableJob := ⟨7, [], List.replicate 100 255⟩

theorem publish_sample {job : DurableJob} (h : ensureSize job 100 = .ok ()) :
    (∃ message, sampleNats.publish (.ok ()) job = .ok message) ∧
      ∃ request, sampleAzure.publish plainHost (fun _ => .ok (deliver [])) job = .ok request := by
  have hurl : sampleAzure.messagesUrl plainHost "" = .ok (busUrl "jobs/messages") := by
    decide +kernel
  have hnats : ensureSize job sampleNats.maxJobBytes = .ok () := h
  have hazure : ensureSize job sampleAzure.maxJobBytes = .ok () := h
  constructor
  · unfold NatsJetStreamQueue.publish
    rw [hnats]
    exact ⟨_, rfl⟩
  · unfold AzureServiceBusQueue.publish
    rw [hazure, hurl]
    exact ⟨_, rfl⟩

/-- Three small bytes come back. -/
theorem durable_job_returns_small :
    (sampleNats.receive compactSerde (.ok (some (.ok ⟨toVec smallJob.toWire, ()⟩)))).1 =
        .ok (some smallJob) ∧
      (sampleAzure.receive plainHost compactSerde
        fun _ => .ok (deliver (toVec smallJob.toWire))).1 = .ok (some smallJob) := by
  have hsize : ensureSize smallJob 100 = .ok () := by decide
  obtain ⟨⟨message, hnats⟩, request, hazure⟩ := publish_sample hsize
  have hpayload := (NatsJetStreamQueue.publish_ok hnats).2
  have hbody := (AzureServiceBusQueue.publish_ok hazure).2
  have hlength : encodedLength smallJob ≤ saturatingMul 100 2 := by decide
  have h := durable_job_returns_iff compactSerde plainHost smallJob sampleNats (.ok ()) message hnats
    () sampleAzure (fun _ => .ok (deliver [])) request hazure (deliver request.body)
    (delivers_sample request.body)
  rw [hpayload, hbody] at h
  exact ⟨h.1.mpr hlength, h.2.mpr hlength⟩

/-- **A job that fills its limit is accepted and does not come back.** Its
hundred bytes are 471 on the wire, and the bound there is 200. -/
theorem full_job_does_not_return :
    (∃ message, sampleNats.publish (.ok ()) fullJob = .ok message ∧
        (sampleNats.receive compactSerde (.ok (some (.ok ⟨message.payload, ()⟩)))).1 =
          .error (.tooLarge 471 100)) ∧
      ∃ request, sampleAzure.publish plainHost (fun _ => .ok (deliver [])) fullJob = .ok request ∧
        (sampleAzure.receive plainHost compactSerde fun _ => .ok (deliver request.body)).1 =
          .error (.tooLarge 471 100) := by
  have hsize : ensureSize fullJob 100 = .ok () := by decide
  have hlength : encodedLength fullJob = 471 := by decide +kernel
  have hlong : saturatingMul 100 2 < 471 := by decide
  obtain ⟨⟨message, hnats⟩, request, hazure⟩ := publish_sample hsize
  refine ⟨⟨message, hnats, ?_⟩, request, hazure, ?_⟩
  · rw [(NatsJetStreamQueue.publish_ok hnats).2, NatsJetStreamQueue.receive_stored hsize, hlength]
    exact if_pos hlong
  · rw [(AzureServiceBusQueue.publish_ok hazure).2,
      AzureServiceBusQueue.receive_delivered hsize (delivers_sample _), hlength]
    exact if_pos hlong

end DurableQueue

end InferQos
