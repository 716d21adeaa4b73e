import InferQos.Common.Settlement
import InferQos.DurableQueue.Model
/-!
# Failed acknowledgements

Both adapters for the network keep what settles a delivery in a table, and
both take it out before they call the broker. A call that fails leaves the
delivery owed and the table without its entry, and the retry is told that
the delivery is unknown. `acknowledgement_retriable_iff` is the exact
boundary, over any sequence of receives and acknowledgements, from any
table, and for any answers of the broker and of the token provider.
-/

namespace InferQos

namespace DurableQueue

open Settlement

/-- What a `receive` comes to. -/
def received : Except QueueError (Option DurableJob) → Answer JobId QueueError
  | .ok (some job) => .received job.id
  | _ => .idle

/-! ## NATS JetStream -/

/-- A call on the queue, with what the broker answers. -/
inductive NatsCall (A : Type)
  | receive (serde : Serde) (fetched : Except String (Option (Except String (Message A))))
  | acknowledge (doubleAck : A → Except String Unit) (id : JobId)

namespace NatsJetStreamQueue

variable {A : Type}

/-- One call. -/
def step (q : NatsJetStreamQueue A) : NatsCall A → Answer JobId QueueError × NatsJetStreamQueue A
  | .receive serde fetched =>
    let after := q.receive serde fetched
    (received after.1, after.2)
  | .acknowledge doubleAck id =>
    let after := q.acknowledge doubleAck id
    (.acknowledged id after.1, after.2)

/-- The delivery a call acknowledges, and what `double_ack` comes to. -/
def remote : NatsCall A → Option (JobId × (A → Except QueueError Unit))
  | .receive _ _ => none
  | .acknowledge doubleAck id => some (id, fun acker => (doubleAck acker).mapError .unavailable)

theorem moves_step (q : NatsJetStreamQueue A) (c : NatsCall A) :
    Moves QueueError.unknownDelivery q.acknowledgements (remote c) (q.step c).1
      (q.step c).2.acknowledgements := by
  cases c with
  | receive serde fetched =>
    simp only [step, receive, remote]
    split
    · exact .idle
    · exact .idle
    · exact .idle
    · split
      · exact .idle
      · split
        · exact .idle
        · exact .received _ _
  | acknowledge doubleAck id =>
    simp only [step, acknowledge, remote]
    split
    · rename_i hnone
      exact .unknown hnone _
    · rename_i hsome
      exact .taken hsome _

/-- **The queue as a settlement table.** -/
def settling (A : Type) : Settling (NatsJetStreamQueue A) (NatsCall A) JobId A QueueError where
  table := acknowledgements
  unknown := .unknownDelivery
  step := step
  remote := fun _ => remote
  moves := moves_step

theorem noneFails_iff (q : NatsJetStreamQueue A) (calls : List (NatsCall A)) :
    (settling A).NoneFails q calls ↔
      ∀ pre doubleAck id acker, pre ++ [.acknowledge doubleAck id] <+: calls →
        ((settling A).run q pre).1.acknowledgements id = some acker →
          doubleAck acker = .ok () := by
  have hresult : ∀ result : Except String Unit,
      result.mapError QueueError.unavailable = .ok () ↔ result = .ok () := by
    rintro (e | _)
    · exact ⟨nofun, nofun⟩
    · exact ⟨fun _ => rfl, fun _ => rfl⟩
  constructor
  · intro h pre doubleAck id acker hpre hheld
    exact (hresult _).mp (h pre _ hpre id _ acker rfl hheld)
  · intro h pre c hpre k call acker heq hheld
    cases c with
    | receive serde fetched => exact nomatch heq
    | acknowledge doubleAck id =>
      obtain ⟨rfl, rfl⟩ := Prod.mk.inj (Option.some.inj heq)
      exact (hresult _).mpr (h pre doubleAck id acker hpre hheld)

end NatsJetStreamQueue

/-! ## Azure Service Bus -/

/-- A call on the queue, with what the token provider and the broker
answer. -/
inductive AzureCall
  | receive (credential : List String → Except QueueError String) (serde : Serde)
      (broker : Request → Except String Response)
  | acknowledge (credential : List String → Except QueueError String)
      (broker : Request → Except String Response) (id : JobId)

namespace AzureServiceBusQueue

/-- The queue, where its token provider answers this way. -/
def provided (q : AzureServiceBusQueue) (credential : List String → Except QueueError String) :
    AzureServiceBusQueue := { q with credential := credential }

variable (parseHost : Bool → String → Except String String)

/-- One call. -/
def step (q : AzureServiceBusQueue) : AzureCall → Answer JobId QueueError × AzureServiceBusQueue
  | .receive credential serde broker =>
    let after := (q.provided credential).receive parseHost serde broker
    (received after.1, after.2)
  | .acknowledge credential broker id =>
    let after := (q.provided credential).acknowledge broker id
    (.acknowledged id after.1, after.2)

/-- The delivery a call acknowledges, and what the token and the `DELETE`
come to. -/
def remote (q : AzureServiceBusQueue) :
    AzureCall → Option (JobId × (WebUrl → Except QueueError Unit))
  | .receive _ _ _ => none
  | .acknowledge credential broker id => some (id, (q.provided credential).delete broker)

theorem moves_step (q : AzureServiceBusQueue) (c : AzureCall) :
    Moves QueueError.unknownDelivery q.settlements (q.remote c) (q.step parseHost c).1
      (q.step parseHost c).2.settlements := by
  cases c with
  | receive credential serde broker =>
    simp only [step, receive, remote]
    split
    · exact .idle
    · exact .idle
    · exact .received _ _
  | acknowledge credential broker id =>
    simp only [step, acknowledge, remote]
    split
    · rename_i hnone
      exact .unknown hnone _
    · rename_i hsome
      exact .taken hsome _

/-- **The queue as a settlement table.** -/
def settling : Settling AzureServiceBusQueue AzureCall JobId WebUrl QueueError where
  table := settlements
  unknown := .unknownDelivery
  step := step parseHost
  remote := remote
  moves := moves_step parseHost

theorem noneFails_iff (q : AzureServiceBusQueue) (calls : List AzureCall) :
    (settling parseHost).NoneFails q calls ↔
      ∀ pre credential broker id url, pre ++ [.acknowledge credential broker id] <+: calls →
        ((settling parseHost).run q pre).1.settlements id = some url →
          (((settling parseHost).run q pre).1.provided credential).delete broker url = .ok () := by
  constructor
  · intro h pre credential broker id url hpre hheld
    exact h pre _ hpre id _ url rfl hheld
  · intro h pre c hpre k call url heq hheld
    cases c with
    | receive credential serde broker => exact nomatch heq
    | acknowledge credential broker id =>
      obtain ⟨rfl, rfl⟩ := Prod.mk.inj (Option.some.inj heq)
      exact h pre credential broker id url hpre hheld

end AzureServiceBusQueue

/-! ## Retries -/

/-- **When a failed acknowledgement can be retried**: along every run of
either adapter the law of retries is kept exactly if no acknowledgement of
a delivery in the table fails on its way to the broker. -/
theorem acknowledgement_retriable_iff (A : Type)
    (parseHost : Bool → String → Except String String) :
    (∀ (q : NatsJetStreamQueue A) (calls : List (NatsCall A)),
      (NatsJetStreamQueue.settling A).RetriableAlong q calls ↔
        ∀ pre doubleAck id acker, pre ++ [.acknowledge doubleAck id] <+: calls →
          ((NatsJetStreamQueue.settling A).run q pre).1.acknowledgements id = some acker →
            doubleAck acker = .ok ()) ∧
    ∀ (q : AzureServiceBusQueue) (calls : List AzureCall),
      (AzureServiceBusQueue.settling parseHost).RetriableAlong q calls ↔
        ∀ pre credential broker id url, pre ++ [.acknowledge credential broker id] <+: calls →
          ((AzureServiceBusQueue.settling parseHost).run q pre).1.settlements id = some url →
            (((AzureServiceBusQueue.settling parseHost).run q pre).1.provided credential).delete
              broker url = .ok () := by
  constructor
  · intro q calls
    rw [Settling.retriable_along_iff, NatsJetStreamQueue.noneFails_iff]
  · intro q calls
    rw [Settling.retriable_along_iff, AzureServiceBusQueue.noneFails_iff]

/-- A queue that has received the delivery `7`. -/
def natsSample : NatsJetStreamQueue Unit := ⟨"jobs", Function.update (fun _ => none) 7 (some ()), 1⟩

/-- The same for Service Bus. -/
def azureSample : AzureServiceBusQueue where
  endpoint := ⟨⟨"https", some "example.com", none⟩, false, []⟩
  queue := "jobs"
  credential := fun _ => .ok "token"
  settlements := Function.update (fun _ => none) 7
    (some ⟨⟨"https", some "example.com", none⟩, false, "/jobs/messages/7".toList⟩)
  maxJobBytes := 1

/-- **A failed acknowledgement cannot be retried**: the broker is away for
one call of NATS, the token for one call of Service Bus, and all is well
for the retry, which is told that the delivery is unknown. -/
theorem retry_finds_nothing :
    (natsSample.acknowledge (fun _ => .error "timed out") 7).1 = .error (.unavailable "timed out") ∧
      ((natsSample.acknowledge (fun _ => .error "timed out") 7).2.acknowledge
        (fun _ => .ok ()) 7).1 = .error (.unknownDelivery 7) ∧
      ((azureSample.provided fun _ => .error (.authentication "expired")).acknowledge
        (fun _ => .ok ⟨200, "", none, none, .ok []⟩) 7).1 = .error (.authentication "expired") ∧
      ((((azureSample.provided fun _ => .error (.authentication "expired")).acknowledge
        (fun _ => .ok ⟨200, "", none, none, .ok []⟩) 7).2.provided fun _ => .ok "token").acknowledge
          (fun _ => .ok ⟨200, "", none, none, .ok []⟩) 7).1 = .error (.unknownDelivery 7) :=
  ⟨rfl, rfl, rfl, rfl⟩

end DurableQueue

end InferQos
