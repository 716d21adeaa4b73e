import InferQos.Common.WebUrl
import InferQos.Common.Wire
import InferQos.Core
/-!
# The durable queues

Jobs are written as JSON, sent to a broker and read back by a consumer. The
two adapters for the network, NATS JetStream and Azure Service Bus, bound a
job by the bytes it carries when they publish it, and by the bytes of its
JSON when they receive it. What a broker answers is an argument of each
function, and an error of a library is its text. An acknowledgement takes
the entry of its delivery out of the table before it calls the broker. The
queue in memory has a module of its own.
-/

namespace InferQos

namespace DurableQueue

open Wire

/-! ## Jobs -/

/-- A `Uuid` whose text matters. -/
abbrev JobId := Fin (2 ^ 128)

instance JobId.neZero : NeZero (2 ^ 128) := ⟨by decide⟩

/-- `DurableJob`. -/
structure DurableJob where
  id : JobId
  metadata : List UInt8
  payload : List UInt8
  deriving DecidableEq

/-- `WireJob`. -/
structure WireJob where
  id : JobId
  metadata : List UInt8
  payload : List UInt8
  deriving DecidableEq

/-- `impl From<&DurableJob> for WireJob`. -/
def DurableJob.toWire (job : DurableJob) : WireJob := ⟨job.id, job.metadata, job.payload⟩

/-- `impl From<WireJob> for DurableJob`. -/
def WireJob.toJob (wire : WireJob) : DurableJob := ⟨wire.id, wire.metadata, wire.payload⟩

/-- `QueueError`. -/
inductive QueueError
  | unavailable (text : String)
  | authentication (text : String)
  | protocol (text : String)
  | tooLarge (actual limit : ℕ)
  | unknownDelivery (id : JobId)
  deriving DecidableEq

/-- The default limit of a job. -/
def defaultMaxJobBytes : ℕ := 16 * 1024 * 1024

/-- **`ensure_size`.** -/
def ensureSize (job : DurableJob) (limit : ℕ) : Except QueueError Unit :=
  let actual := saturatingAdd job.metadata.length job.payload.length
  if limit < actual then .error (.tooLarge actual limit) else .ok ()

/-! ## The wire -/

/-- A `Uuid` as it is written: 32 digits, in five groups. -/
def hyphenated (id : JobId) : List UInt8 :=
  hex 8 (id / 16 ^ 24) ++ ascii "-" ++ hex 4 (id / 16 ^ 20) ++ ascii "-" ++
    hex 4 (id / 16 ^ 16) ++ ascii "-" ++ hex 4 (id / 16 ^ 12) ++ ascii "-" ++ hex 12 id

/-- `Uuid::to_string`. -/
def idText (id : JobId) : String := String.ofList ((hyphenated id).map fun b => Char.ofNat b.toNat)

/-- A `Vec<u8>` is an array of numbers. -/
def bytes : List UInt8 → List UInt8 := array fun b => decimal b.toNat

/-- **`serde_json::to_vec`** of a `WireJob`, which cannot fail. -/
def toVec (wire : WireJob) : List UInt8 :=
  ascii "\x7b\"id\":\"" ++ hyphenated wire.id ++ ascii "\",\"metadata\":" ++ bytes wire.metadata ++
    ascii ",\"payload\":" ++ bytes wire.payload ++ ascii "\x7d"

/-- A `Uuid` in its five groups. -/
def readId : Reader JobId := do
  let a ← readHex 8 0
  literal (ascii "-")
  let b ← readHex 4 0
  literal (ascii "-")
  let c ← readHex 4 0
  literal (ascii "-")
  let d ← readHex 4 0
  literal (ascii "-")
  let e ← readHex 12 0
  pure (Fin.ofNat _ (a * 16 ^ 24 + b * 16 ^ 20 + c * 16 ^ 16 + d * 16 ^ 12 + e))

/-- A number that fits a byte. -/
def readByte : Reader UInt8 := do
  let n ← readDecimal
  if n < 256 then pure (UInt8.ofNat n) else failure

/-- A `WireJob` as a compact object: its three fields in their order, with
nothing between the tokens. -/
def readWireJob : Reader WireJob := do
  literal (ascii "\x7b\"id\":\"")
  let id ← readId
  literal (ascii "\",\"metadata\":")
  let metadata ← readArray readByte
  literal (ascii ",\"payload\":")
  let payload ← readArray readByte
  literal (ascii "\x7d")
  pure ⟨id, metadata, payload⟩

/-- **The decoder of `serde_json`.** It may accept more than the compact
form (blanks, other orders, other spellings of an id); of that form it
makes what `readWireJob` does. -/
structure Serde where
  fromSlice : List UInt8 → Except String WireJob
  fromSlice_compact : ∀ {input wire}, readWireJob input = some (wire, []) →
    fromSlice input = .ok wire

/-- The last steps of both `receive`s: decode, convert, bound. -/
def Serde.decode (serde : Serde) (limit : ℕ) (input : List UInt8) :
    Except QueueError DurableJob :=
  match serde.fromSlice input with
  | .error e => .error (.protocol e)
  | .ok wire =>
    match ensureSize wire.toJob limit with
    | .error e => .error e
    | .ok () => .ok wire.toJob

/-- A `HashMap` from ids. -/
abbrev Table (α : Type) := JobId → Option α

/-- `HashMap::insert`. -/
def Table.insert {α : Type} (table : Table α) (id : JobId) (a : α) : Table α :=
  Function.update table id (some a)

/-- `HashMap::remove`, without what it returns. -/
def Table.remove {α : Type} (table : Table α) (id : JobId) : Table α :=
  Function.update table id none

/-! ## NATS JetStream -/

/-- A message to the broker. -/
structure PublishMessage where
  subject : String
  messageId : String
  payload : List UInt8

/-- A message from the broker, with what acknowledges it. -/
structure Message (A : Type) where
  payload : List UInt8
  acker : A

/-- `NatsJetStreamQueue`, without its connection. -/
structure NatsJetStreamQueue (A : Type) where
  subject : String
  acknowledgements : Table A
  maxJobBytes : ℕ

namespace NatsJetStreamQueue

variable {A : Type}

/-- `NatsJetStreamQueue::connect_with_options`, for what the broker answers
to the stream and the consumer. -/
def connect (broker : Except String Unit) (subject : String) (maxJobBytes : Option ℕ) :
    Except QueueError (NatsJetStreamQueue A) :=
  match broker with
  | .error e => .error (.unavailable e)
  | .ok () => .ok ⟨subject, fun _ => none, maxJobBytes.getD defaultMaxJobBytes⟩

/-- **`NatsJetStreamQueue::publish`**, for what the broker answers. The
result is the message it has stored. -/
def publish (q : NatsJetStreamQueue A) (broker : Except String Unit) (job : DurableJob) :
    Except QueueError PublishMessage :=
  match ensureSize job q.maxJobBytes with
  | .error e => .error e
  | .ok () =>
    match broker with
    | .error e => .error (.unavailable e)
    | .ok () => .ok ⟨q.subject, idText job.id, toVec job.toWire⟩

/-- **`NatsJetStreamQueue::receive`**, for what is fetched within a second. -/
def receive (q : NatsJetStreamQueue A) (serde : Serde)
    (fetched : Except String (Option (Except String (Message A)))) :
    Except QueueError (Option DurableJob) × NatsJetStreamQueue A :=
  match fetched with
  | .error e => (.error (.unavailable e), q)
  | .ok none => (.ok none, q)
  | .ok (some (.error e)) => (.error (.unavailable e), q)
  | .ok (some (.ok message)) =>
    if saturatingMul q.maxJobBytes 2 < message.payload.length then
      (.error (.tooLarge message.payload.length q.maxJobBytes), q)
    else
      match serde.decode q.maxJobBytes message.payload with
      | .error e => (.error e, q)
      | .ok job => (.ok (some job),
          { q with acknowledgements := q.acknowledgements.insert job.id message.acker })

/-- **`NatsJetStreamQueue::acknowledge`**, for what `double_ack` answers. -/
def acknowledge (q : NatsJetStreamQueue A) (doubleAck : A → Except String Unit) (id : JobId) :
    Except QueueError Unit × NatsJetStreamQueue A :=
  match q.acknowledgements id with
  | none => (.error (.unknownDelivery id), q)
  | some acker =>
    ((doubleAck acker).mapError .unavailable,
      { q with acknowledgements := q.acknowledgements.remove id })

end NatsJetStreamQueue

/-! ## Azure Service Bus -/

/-- A request to the broker. -/
structure Request where
  url : WebUrl
  headers : List (String × String)
  body : List UInt8

/-- A response of the broker. -/
structure Response where
  status : ℕ
  /-- The text of the error its status stands for, if it does. -/
  statusText : String
  contentLength : Option ℕ
  /-- The header `location`, if it is there and readable. -/
  location : Option String
  bytes : Except String (List UInt8)

/-- `Response::error_for_status`. -/
def Response.errorForStatus (response : Response) : Except QueueError Unit :=
  if 400 ≤ response.status ∧ response.status < 600 then .error (.unavailable response.statusText)
  else .ok ()

/-- `AzureServiceBusQueue`, without its client. -/
structure AzureServiceBusQueue where
  endpoint : WebUrl
  queue : String
  credential : List String → Except QueueError String
  settlements : Table WebUrl
  maxJobBytes : ℕ

namespace AzureServiceBusQueue

variable (parseHost : Bool → String → Except String String)

/-- `AzureServiceBusQueue::new`. -/
def new (client : Except String Unit) (namespaceEndpoint queue : String)
    (credential : List String → Except QueueError String) (maxJobBytes : Option ℕ) :
    Except QueueError AzureServiceBusQueue :=
  match WebUrl.parse parseHost namespaceEndpoint with
  | .error e => .error (.protocol ("invalid Service Bus endpoint: " ++ e.toString))
  | .ok endpoint =>
    if endpoint.scheme ≠ "https" then
      .error (.protocol "Azure Service Bus endpoint must use HTTPS")
    else
      match client with
      | .error e => .error (.unavailable e)
      | .ok () =>
        .ok ⟨endpoint, queue, credential, fun _ => none, maxJobBytes.getD defaultMaxJobBytes⟩

variable (q : AzureServiceBusQueue)

/-- `AzureServiceBusQueue::messages_url`. -/
def messagesUrl (suffix : String) : Except QueueError WebUrl :=
  match WebUrl.join parseHost q.endpoint (q.queue ++ "/messages" ++ suffix) with
  | .error e => .error (.protocol e.toString)
  | .ok url => .ok url

/-- `AzureServiceBusQueue::bearer`. -/
def bearer : Except QueueError String :=
  (q.credential ["https://servicebus.azure.net/.default"]).map ("Bearer " ++ ·)

/-- `RequestBuilder::send`. -/
def send (broker : Request → Except String Response) (request : Request) :
    Except QueueError Response :=
  match broker request with
  | .error e => .error (.unavailable e)
  | .ok response => .ok response

/-- **`AzureServiceBusQueue::publish`**, for how the broker answers. The
result is the request it has accepted. -/
def publish (broker : Request → Except String Response) (job : DurableJob) :
    Except QueueError Request := do
  ensureSize job q.maxJobBytes
  let url ← q.messagesUrl parseHost ""
  let authorization ← q.bearer
  let request : Request := ⟨url,
    [("authorization", authorization), ("content-type", "application/json"),
      ("brokerproperties", "\x7b\"MessageId\":\"" ++ idText job.id ++ "\"\x7d")],
    toVec job.toWire⟩
  let response ← send broker request
  response.errorForStatus
  return request

/-- `return Err(error)` where a bound is passed. -/
def bound (limit : ℕ) (size : ℕ) : Except QueueError Unit :=
  if saturatingMul limit 2 < size then .error (.tooLarge size limit) else .ok ()

/-- The settlement URL of a response, on the host of the endpoint. -/
def settlement (response : Response) : Except QueueError WebUrl :=
  match response.location with
  | none => .error (.protocol "peek-lock response has no Location header")
  | some location =>
    match WebUrl.join parseHost q.endpoint location with
    | .error e => .error (.protocol e.toString)
    | .ok url =>
      if url.host ≠ q.endpoint.host then
        .error (.protocol "Service Bus settlement URL changed host")
      else .ok url

/-- What `receive` makes of a response: nothing, or a job with its
settlement URL. -/
def accept (serde : Serde) (response : Response) :
    Except QueueError (Option (DurableJob × WebUrl)) :=
  if response.status = 204 ∨ response.status = 404 then .ok none
  else do
    response.errorForStatus
    (response.contentLength.elim (.ok ()) (bound q.maxJobBytes) : Except QueueError Unit)
    let url ← q.settlement parseHost response
    let input ← response.bytes.mapError QueueError.unavailable
    bound q.maxJobBytes input.length
    let job ← serde.decode q.maxJobBytes input
    return some (job, url)

/-- **`AzureServiceBusQueue::receive`**, for how the broker answers. -/
def receive (serde : Serde) (broker : Request → Except String Response) :
    Except QueueError (Option DurableJob) × AzureServiceBusQueue :=
  let answer : Except QueueError Response := do
    let url ← q.messagesUrl parseHost "/head?timeout=1"
    let authorization ← q.bearer
    send broker ⟨url, [("authorization", authorization)], []⟩
  match answer.bind (q.accept parseHost serde) with
  | .error e => (.error e, q)
  | .ok none => (.ok none, q)
  | .ok (some (job, url)) =>
    (.ok (some job), { q with settlements := q.settlements.insert job.id url })

/-- The remote part of `acknowledge`: a token, and a `DELETE` of the
settlement URL. -/
def delete (broker : Request → Except String Response) (url : WebUrl) :
    Except QueueError Unit := do
  let authorization ← q.bearer
  let response ← send broker ⟨url, [("authorization", authorization)], []⟩
  response.errorForStatus

/-- **`AzureServiceBusQueue::acknowledge`**, for how the broker answers a
`DELETE`. -/
def acknowledge (broker : Request → Except String Response) (id : JobId) :
    Except QueueError Unit × AzureServiceBusQueue :=
  match q.settlements id with
  | none => (.error (.unknownDelivery id), q)
  | some url => (q.delete broker url, { q with settlements := q.settlements.remove id })

end AzureServiceBusQueue

end DurableQueue

end InferQos
