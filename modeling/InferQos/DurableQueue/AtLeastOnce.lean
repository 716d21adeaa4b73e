import InferQos.Common.PeekLock
import InferQos.Common.Trace
import InferQos.DurableQueue.RoundTrip
import InferQos.DurableQueue.Settlement
/-!
# At-least-once delivery

Any number of processes publish, receive and acknowledge through one of the
network adapters, each with a settlement table of its own, and are
restarted at any time. The broker may fail a call, lose its answer, deliver
a message again and again, and act late on an acknowledgement; it is only
assumed to report a publication as done when the message is stored, or
known by its id already, to deliver what it stored, and not to issue one
token for two messages. `durable_delivery_at_least_once` says that no
accepted job is lost: its message is stored, or a process was handed that
very job and acknowledged it.
-/

namespace InferQos

namespace DurableQueue

open PeekLock

/-- The texts of two ids differ. -/
theorem idText_injective : Function.Injective idText := by
  intro id id' h
  have htoNat : ∀ b : UInt8, (Char.ofNat b.toNat).toNat = b.toNat := by
    intro b
    have hb : b.toNat < 256 := b.toNat_lt
    have hvalid : b.toNat.isValidChar := Or.inl (by omega)
    rw [Char.ofNat, dif_pos hvalid]
    rfl
  have hbyte : Function.Injective fun b : UInt8 => Char.ofNat b.toNat := by
    intro b b' hb
    have hnat := congrArg Char.toNat hb
    simp only [htoNat] at hnat
    exact UInt8.toNat_inj.mp hnat
  have hbytes : hyphenated id = hyphenated id' :=
    List.map_injective_iff.mpr hbyte (String.ofList_injective h)
  have hread := readId_append id []
  rw [hbytes, readId_append] at hread
  exact (congrArg Prod.fst (Option.some.inj hread)).symm

/-- A decoder makes of an encoded job that job. -/
theorem decode_toVec_eq {serde : Serde} {job job' : DurableJob} {limit : ℕ}
    (h : serde.decode limit (toVec job.toWire) = .ok job') : job' = job := by
  unfold Serde.decode at h
  rw [serde.fromSlice_compact (readWireJob_toVec job.toWire)] at h
  simp only at h
  split at h
  · cases h
  · cases h
    rfl

theorem toOption_eq_some {ε α : Type} {x : Except ε α} {a : α} : x.toOption = some a ↔ x = .ok a := by
  cases x with
  | error e => exact ⟨nofun, nofun⟩
  | ok b => exact ⟨fun h => congrArg _ (Option.some.inj h), fun h => congrArg _ (Except.ok.inj h)⟩

/-! ## Adapters -/

/-- **What the broker sees of an adapter** in the states `Q`. `P` is what it
sends and `A` its tokens; `W`, `D` and `R` are what the network answers to
its three calls. -/
structure Adapter (serde : Serde) (Q P A W D R : Type) where
  table : Q → Table A
  /-- What `publish` sends, if it gets that far. -/
  sends : Q → W → DurableJob → Option P
  payload : P → List UInt8
  messageId : P → String
  publish : Q → W → DurableJob → Except QueueError P
  /-- The delivery an answer carries: a token, and the bytes. -/
  delivery : Q → D → Option (A × List UInt8)
  receive : Q → D → Except QueueError (Option DurableJob) × Q
  acknowledge : Q → R → JobId → Except QueueError Unit × Q
  /-- The adapter of a process that starts again. -/
  restart : Q → Q
  sends_of_publish : ∀ {q w job p}, publish q w job = .ok p → sends q w job = some p
  payload_sends : ∀ {q w job p}, sends q w job = some p → payload p = toVec job.toWire
  messageId_sends : ∀ {q w job p q' w' job' p'}, sends q w job = some p →
    sends q' w' job' = some p' → messageId p = messageId p' → job.id = job'.id
  receive_job : ∀ {q d job q'}, receive q d = (.ok (some job), q') →
    ∃ a input limit, delivery q d = some (a, input) ∧ serde.decode limit input = .ok job ∧
      table q' = (table q).insert job.id a
  receive_else : ∀ {q d result q'}, receive q d = (result, q') →
    (∀ job, result ≠ .ok (some job)) → table q' = table q
  acknowledge_table : ∀ {q r id}, table (acknowledge q r id).2 = (table q).remove id
  restart_table : ∀ {q}, table (restart q) = fun _ => none

/-- What became of a publication at the broker. -/
inductive Outcome
  | stored
  /-- A message with this number has the same id. -/
  | recognised (m : ℕ)
  | lost

/-- A step of a process, or of the broker. -/
inductive FleetEvent (W D R : Type)
  | publish (c : ℕ) (job : DurableJob) (answer : W) (outcome : Outcome)
  /-- Message `m` is delivered, if the answer carries a delivery. -/
  | receive (c : ℕ) (answer : D) (m : ℕ)
  | acknowledge (c : ℕ) (answer : R) (id : JobId)
  /-- The broker acts on an acknowledgement, and lets go of message `m`. -/
  | remove (i m : ℕ)
  | restart (c : ℕ)

/-- **The processes and the broker**, with the publications that were
reported as done, and the number of the message that answers for each. -/
structure Fleet (Q P A : Type) where
  clients : ℕ → Q
  book : Book ℕ JobId A P DurableJob
  accepted : List (DurableJob × ℕ)
  recognised : List (DurableJob × ℕ)

namespace Fleet

variable {serde : Serde} {Q P A W D R : Type} [DecidableEq A]

/-- Nothing was published yet. -/
def start (clients : ℕ → Q) : Fleet Q P A := ⟨clients, Book.empty, [], []⟩

variable (F : Adapter serde Q P A W D R)

/-- One more job, if it was accepted. -/
def note (result : Except QueueError P) (entry : DurableJob × ℕ) (entries : List (DurableJob × ℕ)) :
    List (DurableJob × ℕ) :=
  match result with
  | .ok _ => entry :: entries
  | .error _ => entries

/-- Whether the broker may deliver message `m` with this token. -/
def delivers (s : Fleet Q P A) (m : ℕ) (a : A) (input : List UInt8) : Bool :=
  (s.book.published[m]?).any (F.payload · = input) &&
    s.book.issued.all fun e => e.1 ≠ a || e.2 = m

/-- **One step**; `none` where the broker would break its word. -/
def step (s : Fleet Q P A) : FleetEvent W D R → Option (Fleet Q P A)
  | .publish c job answer outcome =>
    match F.sends (s.clients c) answer job with
    | none => some s
    | some p =>
      let result := F.publish (s.clients c) answer job
      match outcome with
      | .stored =>
        some { s with
          book := { s.book with published := s.book.published ++ [p] }
          accepted := note result (job, s.book.published.length) s.accepted }
      | .recognised m =>
        if (s.book.published[m]?).any (F.messageId · = F.messageId p) then
          some { s with recognised := note result (job, m) s.recognised }
        else none
      | .lost =>
        match result with
        | .ok _ => none
        | .error _ => some s
  | .receive c answer m =>
    let after := F.receive (s.clients c) answer
    let clients := Function.update s.clients c after.2
    match F.delivery (s.clients c) answer with
    | none => some { s with clients := clients }
    | some (a, input) =>
      if s.delivers F m a input then
        match after.1 with
        | .ok (some job) =>
          some { s with
            clients := clients
            book := { s.book with
              issued := (a, m) :: s.book.issued
              handed := (c, job, m) :: s.book.handed } }
        | _ =>
          some { s with
            clients := clients
            book := { s.book with issued := (a, m) :: s.book.issued } }
      else none
  | .acknowledge c answer id =>
    let clients := Function.update s.clients c (F.acknowledge (s.clients c) answer id).2
    match F.table (s.clients c) id with
    | none => some { s with clients := clients }
    | some a =>
      some { s with
        clients := clients
        book := { s.book with asked := (c, id, a) :: s.book.asked } }
  | .remove i m =>
    match s.book.asked[i]? with
    | none => none
    | some (_, _, a) =>
      if (a, m) ∈ s.book.issued then
        some { s with book := { s.book with removed := m :: s.book.removed } }
      else none
  | .restart c => some { s with clients := Function.update s.clients c (F.restart (s.clients c)) }

/-- The settlement tables. -/
def tables (s : Fleet Q P A) : ℕ → Table A := fun c => F.table (s.clients c)

/-- What can be read off a message. -/
def Reads (p : P) (job : DurableJob) : Prop :=
  ∃ limit, serde.decode limit (F.payload p) = .ok job

/-! ## Runs -/

variable {F} {s t : Fleet Q P A} {e : FleetEvent W D R}

omit [DecidableEq A] in
/-- A step of one process changes its table alone. -/
theorem moves_of_clients {c : ℕ} {q : Q} {tables' : ℕ → Table A}
    (hclients : t.clients = Function.update s.clients c q)
    (htables : Function.update (s.tables F) c (F.table q) = tables')
    (h : Moves (Reads F) DurableJob.id (s.tables F) s.book tables' t.book) :
    Moves (Reads F) DurableJob.id (s.tables F) s.book (t.tables F) t.book := by
  have htable : t.tables F = tables' := by
    rw [← htables]
    funext c'
    unfold tables
    rw [hclients]
    by_cases hc : c' = c
    · rw [hc, Function.update_self, Function.update_self]
    · rw [Function.update_of_ne hc, Function.update_of_ne hc]
  rw [htable]
  exact h

omit [DecidableEq A] in
/-- A process whose table is as it was. -/
theorem update_tables {c : ℕ} {q : Q} (h : F.table q = F.table (s.clients c)) :
    Function.update (s.tables F) c (F.table q) = s.tables F := by
  rw [h]
  exact Function.update_eq_self _ _

theorem identifies_of_delivers {m : ℕ} {a : A} {input : List UInt8}
    (h : s.delivers F m a input = true) : s.book.Identifies a m := by
  intro m' hm'
  have hall := List.all_eq_true.mp (Bool.and_eq_true_iff.mp h).2 _ hm'
  simpa using hall

theorem published_of_delivers {m : ℕ} {a : A} {input : List UInt8}
    (h : s.delivers F m a input = true) :
    ∃ p, s.book.published[m]? = some p ∧ F.payload p = input := by
  obtain ⟨p, hp, hinput⟩ := (Option.any_eq_true _ _).mp (Bool.and_eq_true_iff.mp h).1
  exact ⟨p, hp, of_decide_eq_true hinput⟩

/-- **A step of the fleet is one of tables and books.** -/
theorem moves_step (h : s.step F e = some t) :
    Moves (Reads F) DurableJob.id (s.tables F) s.book (t.tables F) t.book := by
  cases e with
  | publish c job answer outcome =>
    simp only [step] at h
    split at h
    · cases h
      exact .idle
    · split at h
      · cases h
        exact .publish _
      · split at h
        · cases h
          exact .idle
        · cases h
      · split at h
        · cases h
        · cases h
          exact .idle
  | receive c answer m =>
    simp only [step] at h
    obtain ⟨result, q, hreceive⟩ : ∃ result q, F.receive (s.clients c) answer = (result, q) :=
      ⟨_, _, rfl⟩
    rw [hreceive] at h
    have hsame : (∀ job, result ≠ .ok (some job)) → F.table q = F.table (s.clients c) :=
      F.receive_else hreceive
    split at h
    · -- without a delivery there is no job
      rename_i hnone
      cases h
      refine moves_of_clients rfl (update_tables (hsame fun job hjob => ?_)) .idle
      subst hjob
      obtain ⟨a, input, limit, hsome, -⟩ := F.receive_job hreceive
      rw [hnone] at hsome
      cases hsome
    · rename_i a input hdelivery
      split at h
      · rename_i hdelivers
        have hone := identifies_of_delivers hdelivers
        split at h
        · rename_i job hjob
          cases h
          obtain rfl : result = .ok (some job) := hjob
          obtain ⟨a', input', limit, hdelivery', hdecode, htable⟩ := F.receive_job hreceive
          rw [hdelivery] at hdelivery'
          cases hdelivery'
          obtain ⟨p, hp, hpayload⟩ := published_of_delivers hdelivers
          exact moves_of_clients rfl (by rw [htable]; rfl) (.hand hone hp ⟨limit, hpayload ▸ hdecode⟩)
        · rename_i hnone
          cases h
          exact moves_of_clients rfl (update_tables (hsame hnone)) (.issue hone)
      · cases h
  | acknowledge c answer id =>
    simp only [step] at h
    split at h
    · rename_i hnone
      cases h
      refine moves_of_clients rfl (update_tables ?_) .idle
      rw [F.acknowledge_table, Table.remove, ← hnone]
      exact Function.update_eq_self _ _
    · rename_i a hheld
      cases h
      exact moves_of_clients rfl (by rw [F.acknowledge_table]; rfl) (.ask hheld)
  | remove i m =>
    simp only [step] at h
    split at h
    · cases h
    · rename_i c k a hasked
      split at h
      · rename_i hissued
        cases h
        exact .remove (List.mem_of_getElem? hasked) hissued
      · cases h
  | restart c =>
    simp only [step] at h
    cases h
    exact moves_of_clients rfl (by rw [F.restart_table]) (.restart c)

/-- What a publication comes to. -/
theorem mem_note {result : Except QueueError P} {entry entry' : DurableJob × ℕ}
    {entries : List (DurableJob × ℕ)} (h : entry' ∈ note result entry entries) :
    entry' ∈ entries ∨ entry' = entry := by
  unfold note at h
  split at h
  · exact (List.mem_cons.mp h).symm
  · exact Or.inl h

/-- Message `m` is an encoded job. -/
def Carries (F : Adapter serde Q P A W D R) (s : Fleet Q P A) (m : ℕ) (job : DurableJob) : Prop :=
  ∃ p, s.book.published[m]? = some p ∧ F.payload p = toVec job.toWire

/-- **What is kept along a run.** -/
structure Kept (F : Adapter serde Q P A W D R) (s : Fleet Q P A) : Prop where
  sound : Sound (Reads F) DurableJob.id (s.tables F) s.book
  sent : ∀ p ∈ s.book.published, ∃ q w job, F.sends q w job = some p
  accepted : ∀ {job m}, (job, m) ∈ s.accepted → s.Carries F m job
  recognised : ∀ {job m}, (job, m) ∈ s.recognised →
    ∃ job', job'.id = job.id ∧ s.Carries F m job'

omit [DecidableEq A] in
/-- A stored message stays in the books. -/
theorem Carries.mono {m : ℕ} {job : DurableJob} (h : s.Carries F m job)
    (hbook : s.book.published <+: t.book.published) : t.Carries F m job := by
  obtain ⟨p, hp, hpayload⟩ := h
  obtain ⟨rest, hrest⟩ := hbook
  refine ⟨p, ?_, hpayload⟩
  rw [← hrest, List.getElem?_append_left (List.getElem?_eq_some_iff.mp hp).1, hp]

/-- What a step that publishes nothing leaves alone. -/
def Unpublished (s t : Fleet Q P A) : Prop :=
  t.book.published = s.book.published ∧ t.accepted = s.accepted ∧ t.recognised = s.recognised

theorem Kept.frame (h : Kept F s) (hs : s.step F e = some t) (hsame : s.Unpublished t) :
    Kept F t := by
  obtain ⟨hbook, haccepted, hrecognised⟩ := hsame
  refine ⟨h.sound.step (moves_step hs), hbook ▸ h.sent, fun hmem => ?_, fun hmem => ?_⟩
  · exact (h.accepted (haccepted ▸ hmem)).mono (hbook ▸ List.prefix_rfl)
  · obtain ⟨job', hid, hcarries⟩ := h.recognised (hrecognised ▸ hmem)
    exact ⟨job', hid, hcarries.mono (hbook ▸ List.prefix_rfl)⟩

theorem Kept.step (h : Kept F s) (hs : s.step F e = some t) : Kept F t := by
  have hsound := h.sound.step (moves_step hs)
  cases e with
  | publish c job answer outcome =>
    simp only [Fleet.step] at hs
    split at hs
    · cases hs
      exact h
    · rename_i p hsends
      split at hs
      · cases hs
        have hbook : s.book.published <+: s.book.published ++ [p] := List.prefix_append _ _
        refine ⟨hsound, fun p' hp' => ?_, fun hmem => ?_, fun hmem => ?_⟩
        · rcases List.mem_append.mp hp' with hp' | hp'
          · exact h.sent p' hp'
          · rw [List.mem_singleton.mp hp']
            exact ⟨_, _, _, hsends⟩
        · rcases mem_note hmem with hmem | heq
          · exact (h.accepted hmem).mono hbook
          · cases heq
            exact ⟨p, by simp, F.payload_sends hsends⟩
        · obtain ⟨job', hid, hcarries⟩ := h.recognised hmem
          exact ⟨job', hid, hcarries.mono hbook⟩
      · rename_i m
        split at hs
        · rename_i hany
          cases hs
          refine ⟨hsound, h.sent, h.accepted, fun hmem => ?_⟩
          rcases mem_note hmem with hmem | heq
          · exact h.recognised hmem
          · cases heq
            -- what it was taken for was sent for a job of its own
            obtain ⟨p', hp', hid⟩ := (Option.any_eq_true _ _).mp hany
            obtain ⟨q, w, job', hsends'⟩ := h.sent p' (List.mem_of_getElem? hp')
            exact ⟨job', F.messageId_sends hsends' hsends (of_decide_eq_true hid), p', hp',
              F.payload_sends hsends'⟩
        · cases hs
      · split at hs
        · cases hs
        · cases hs
          exact h
  | receive c answer m =>
    refine h.frame hs ?_
    simp only [Fleet.step] at hs
    split at hs
    · cases hs
      exact ⟨rfl, rfl, rfl⟩
    · split at hs
      · split at hs
        · cases hs
          exact ⟨rfl, rfl, rfl⟩
        · cases hs
          exact ⟨rfl, rfl, rfl⟩
      · cases hs
  | acknowledge c answer id =>
    refine h.frame hs ?_
    simp only [Fleet.step] at hs
    split at hs
    · cases hs
      exact ⟨rfl, rfl, rfl⟩
    · cases hs
      exact ⟨rfl, rfl, rfl⟩
  | remove i m =>
    refine h.frame hs ?_
    simp only [Fleet.step] at hs
    split at hs
    · cases hs
    · split at hs
      · cases hs
        exact ⟨rfl, rfl, rfl⟩
      · cases hs
  | restart c =>
    refine h.frame hs ?_
    cases hs
    exact ⟨rfl, rfl, rfl⟩

/-- **What became of message `m`, which carries a job**: it is stored, or a
process was handed that job, and acknowledged that delivery. -/
def Answered (s : Fleet Q P A) (m : ℕ) (job : DurableJob) : Prop :=
  m ∉ s.book.removed ∨
    ∃ c a, (c, job, m) ∈ s.book.handed ∧ (a, m) ∈ s.book.issued ∧ (c, job.id, a) ∈ s.book.asked

omit [DecidableEq A] in
theorem Kept.answered (h : Kept F s) {m : ℕ} {job : DurableJob} (hcarries : s.Carries F m job) :
    s.Answered m job := by
  by_cases hm : m ∈ s.book.removed
  · obtain ⟨c, j, a, p, hp, ⟨limit, hdecode⟩, hhanded, hasked, hissued⟩ := h.sound.fate hm
    obtain ⟨p', hp', hpayload⟩ := hcarries
    rw [hp'] at hp
    cases hp
    rw [hpayload] at hdecode
    obtain rfl := decode_toVec_eq hdecode
    exact Or.inr ⟨c, a, hhanded, hissued, hasked⟩
  · exact Or.inl hm

/-- **No accepted job is lost**, along every run of an adapter. -/
theorem kept_run {clients : ℕ → Q} {es : List (FleetEvent W D R)}
    (hclients : ∀ c id, F.table (clients c) id = none)
    (hrun : Trace (StepOf (Fleet.step F)) (start clients) es s) : Kept F s := by
  refine hrun.invariant ?_ fun h hs => h.step hs
  exact ⟨Sound.start hclients, fun _ h => absurd h List.not_mem_nil,
    fun h => absurd h List.not_mem_nil, fun h => absurd h List.not_mem_nil⟩

end Fleet

/-! ## The two adapters -/

namespace NatsJetStreamQueue

variable {A : Type} {serde : Serde} {q q' : NatsJetStreamQueue A}

/-- The delivery of a fetch. -/
def delivery : Except String (Option (Except String (Message A))) → Option (A × List UInt8)
  | .ok (some (.ok message)) => some (message.acker, message.payload)
  | _ => none

/-- What is sent does not depend on the answer. -/
theorem publish_sent {broker : Except String Unit} {job : DurableJob} {message : PublishMessage}
    (h : q.publish broker job = .ok message) :
    message = ⟨q.subject, idText job.id, toVec job.toWire⟩ ∧
      q.publish (.ok ()) job = .ok message := by
  unfold publish at h ⊢
  split at h
  · cases h
  · split at h
    · cases h
    · cases h
      exact ⟨rfl, rfl⟩

theorem receive_job {fetched : Except String (Option (Except String (Message A)))}
    {job : DurableJob} (h : q.receive serde fetched = (.ok (some job), q')) :
    ∃ a input limit, delivery fetched = some (a, input) ∧ serde.decode limit input = .ok job ∧
      q'.acknowledgements = q.acknowledgements.insert job.id a := by
  unfold receive at h
  split at h
  · cases h
  · cases h
  · cases h
  · rename_i message
    split at h
    · cases h
    · split at h
      · cases h
      · rename_i hdecode
        cases h
        exact ⟨message.acker, message.payload, q.maxJobBytes, rfl, hdecode, rfl⟩

theorem receive_else {fetched : Except String (Option (Except String (Message A)))}
    {result : Except QueueError (Option DurableJob)} (h : q.receive serde fetched = (result, q'))
    (hnone : ∀ job, result ≠ .ok (some job)) : q'.acknowledgements = q.acknowledgements := by
  unfold receive at h
  split at h
  · cases h
    rfl
  · cases h
    rfl
  · cases h
    rfl
  · split at h
    · cases h
      rfl
    · split at h
      · cases h
        rfl
      · cases h
        exact absurd rfl (hnone _)

theorem acknowledge_table {doubleAck : A → Except String Unit} {id : JobId} :
    (q.acknowledge doubleAck id).2.acknowledgements = q.acknowledgements.remove id := by
  unfold acknowledge
  split
  · rename_i hnone
    rw [Table.remove, ← hnone]
    exact (Function.update_eq_self _ _).symm
  · rfl

/-- **NATS JetStream.** -/
def adapter (serde : Serde) (A : Type) : Adapter serde (NatsJetStreamQueue A) PublishMessage A
    (Except String Unit) (Except String (Option (Except String (Message A))))
    (A → Except String Unit) where
  table := acknowledgements
  sends q _ job := (q.publish (.ok ()) job).toOption
  payload := PublishMessage.payload
  messageId := PublishMessage.messageId
  publish := publish
  delivery _ := delivery
  receive q := q.receive serde
  acknowledge := acknowledge
  restart q := { q with acknowledgements := fun _ => none }
  sends_of_publish h := toOption_eq_some.mpr (publish_sent h).2
  payload_sends h := congrArg PublishMessage.payload (publish_sent (toOption_eq_some.mp h)).1
  messageId_sends {q w job p q' w' job' p'} h h' hid := by
    rw [(publish_sent (toOption_eq_some.mp h)).1, (publish_sent (toOption_eq_some.mp h')).1] at hid
    exact idText_injective hid
  receive_job := receive_job
  receive_else := receive_else
  acknowledge_table := acknowledge_table
  restart_table := rfl

end NatsJetStreamQueue

namespace AzureServiceBusQueue

/-- What the token provider and the broker answer to a call. -/
structure Reply where
  credential : List String → Except QueueError String
  response : Except String Response

variable (parseHost : Bool → String → Except String String)

/-- The delivery of a response: its settlement URL, and its body. -/
def delivery (q : AzureServiceBusQueue) (reply : Reply) : Option (WebUrl × List UInt8) :=
  match reply.response with
  | .error _ => none
  | .ok response =>
    match q.settlement parseHost response with
    | .error _ => none
    | .ok url => response.bytes.toOption.map (url, ·)

/-- The properties of a message. -/
def brokerProperties (request : Request) : Option String := request.headers.lookup "brokerproperties"

/-- A broker that stores what it is sent. -/
def stores : Request → Except String Response := fun _ => .ok ⟨201, "", none, none, .ok []⟩

variable {parseHost} {serde : Serde} {q q' : AzureServiceBusQueue}

/-- What is sent does not depend on the answer. -/
theorem publish_sent {broker : Request → Except String Response} {job : DurableJob}
    {request : Request} (h : q.publish parseHost broker job = .ok request) :
    request.body = toVec job.toWire ∧
      brokerProperties request = some ("\x7b\"MessageId\":\"" ++ idText job.id ++ "\"\x7d") ∧
      q.publish parseHost stores job = .ok request := by
  unfold publish at h ⊢
  obtain ⟨⟨⟩, hsize, h⟩ := bind_eq_ok.mp h
  obtain ⟨url, hurl, h⟩ := bind_eq_ok.mp h
  obtain ⟨authorization, hauth, h⟩ := bind_eq_ok.mp h
  obtain ⟨response, -, h⟩ := bind_eq_ok.mp h
  obtain ⟨-, -, h⟩ := bind_eq_ok.mp h
  cases h
  refine ⟨rfl, rfl, ?_⟩
  rw [hsize, hurl, hauth]
  rfl

/-- What a response that is a job says. -/
theorem accept_job {response : Response} {job : DurableJob} {url : WebUrl}
    (h : q.accept parseHost serde response = .ok (some (job, url))) :
    q.settlement parseHost response = .ok url ∧
      ∃ input, response.bytes = .ok input ∧ serde.decode q.maxJobBytes input = .ok job := by
  unfold accept at h
  split at h
  · cases h
  · obtain ⟨-, -, h⟩ := bind_eq_ok.mp h
    obtain ⟨-, -, h⟩ := bind_eq_ok.mp h
    obtain ⟨url', hurl, h⟩ := bind_eq_ok.mp h
    obtain ⟨input, hinput, h⟩ := bind_eq_ok.mp h
    obtain ⟨-, -, h⟩ := bind_eq_ok.mp h
    obtain ⟨job', hjob, h⟩ := bind_eq_ok.mp h
    cases h
    refine ⟨hurl, input, ?_, hjob⟩
    cases hbytes : response.bytes with
    | error e =>
      rw [hbytes] at hinput
      cases hinput
    | ok bytes =>
      rw [hbytes] at hinput
      cases hinput
      rfl

/-- What a broker is sent, it answers. -/
theorem send_ok {request : Request} {reply : Except String Response} {response : Response}
    (h : send (fun _ => reply) request = .ok response) : reply = .ok response := by
  unfold send at h
  split at h
  · cases h
  · rename_i hreply
    cases h
    exact hreply

theorem receive_job {reply : Reply} {job : DurableJob}
    (h : (q.provided reply.credential).receive parseHost serde (fun _ => reply.response) =
      (.ok (some job), q')) :
    ∃ url input limit, q.delivery parseHost reply = some (url, input) ∧
      serde.decode limit input = .ok job ∧ q'.settlements = q.settlements.insert job.id url := by
  unfold receive at h
  simp only at h
  split at h
  · cases h
  · cases h
  · rename_i job' url hanswer
    cases h
    obtain ⟨response, hsent, haccept⟩ := bind_eq_ok.mp hanswer
    obtain ⟨head, -, hsent⟩ := bind_eq_ok.mp hsent
    obtain ⟨authorization, -, hsent⟩ := bind_eq_ok.mp hsent
    obtain ⟨hsettlement, input, hinput, hdecode⟩ := accept_job haccept
    refine ⟨url, input, _, ?_, hdecode, rfl⟩
    have hsettlement : q.settlement parseHost response = .ok url := hsettlement
    rw [delivery, send_ok hsent]
    simp only [hsettlement, hinput]
    rfl

theorem receive_else {reply : Reply} {result : Except QueueError (Option DurableJob)}
    (h : (q.provided reply.credential).receive parseHost serde (fun _ => reply.response) =
      (result, q')) (hnone : ∀ job, result ≠ .ok (some job)) : q'.settlements = q.settlements := by
  unfold receive at h
  simp only at h
  split at h
  · cases h
    rfl
  · cases h
    rfl
  · cases h
    exact absurd rfl (hnone _)

theorem acknowledge_table {reply : Reply} {id : JobId} :
    ((q.provided reply.credential).acknowledge (fun _ => reply.response) id).2.settlements =
      q.settlements.remove id := by
  unfold acknowledge
  split
  · rename_i hnone
    have hnone : q.settlements id = none := hnone
    rw [Table.remove, ← hnone]
    exact (Function.update_eq_self _ _).symm
  · rfl

/-- **Azure Service Bus.** -/
def adapter (parseHost : Bool → String → Except String String) (serde : Serde) :
    Adapter serde AzureServiceBusQueue Request WebUrl Reply Reply Reply where
  table := settlements
  sends q reply job := ((q.provided reply.credential).publish parseHost stores job).toOption
  payload := Request.body
  messageId request := (brokerProperties request).getD ""
  publish q reply := (q.provided reply.credential).publish parseHost fun _ => reply.response
  delivery q := q.delivery parseHost
  receive q reply := (q.provided reply.credential).receive parseHost serde fun _ => reply.response
  acknowledge q reply := (q.provided reply.credential).acknowledge fun _ => reply.response
  restart q := { q with settlements := fun _ => none }
  sends_of_publish h := toOption_eq_some.mpr (publish_sent h).2.2
  payload_sends h := (publish_sent (toOption_eq_some.mp h)).1
  messageId_sends {q w job p q' w' job' p'} h h' hid := by
    rw [(publish_sent (toOption_eq_some.mp h)).2.1, (publish_sent (toOption_eq_some.mp h')).2.1] at hid
    exact idText_injective (by simpa using hid)
  receive_job := receive_job
  receive_else := receive_else
  acknowledge_table := acknowledge_table
  restart_table := rfl

end AzureServiceBusQueue

/-! ## Both -/

/-- **Every accepted job is stored, or was handed over and acknowledged.** -/
def AtLeastOnce {serde : Serde} {Q P A W D R : Type} [DecidableEq A]
    (F : Adapter serde Q P A W D R) : Prop :=
  ∀ (clients : ℕ → Q) (es : List (FleetEvent W D R)) (s : Fleet Q P A),
    (∀ c id, F.table (clients c) id = none) →
    Trace (StepOf (Fleet.step F)) (Fleet.start clients) es s →
      (∀ job m, (job, m) ∈ s.accepted → s.Carries F m job ∧ s.Answered m job) ∧
      (∀ job m, (job, m) ∈ s.recognised →
        ∃ job', job'.id = job.id ∧ s.Carries F m job' ∧ s.Answered m job') ∧
      ∀ m ∈ s.book.removed, ∃ job, s.Carries F m job ∧ s.Answered m job

theorem Fleet.atLeastOnce {serde : Serde} {Q P A W D R : Type} [DecidableEq A]
    (F : Adapter serde Q P A W D R) : AtLeastOnce F := by
  intro clients es s hclients hrun
  have hkept := Fleet.kept_run hclients hrun
  refine ⟨fun job m hmem => ?_, fun job m hmem => ?_, fun m hm => ?_⟩
  · have hcarries := hkept.accepted hmem
    exact ⟨hcarries, hkept.answered hcarries⟩
  · obtain ⟨job', hid, hcarries⟩ := hkept.recognised hmem
    exact ⟨job', hid, hcarries, hkept.answered hcarries⟩
  · obtain ⟨-, -, -, p, hp, -⟩ := hkept.sound.fate hm
    obtain ⟨q, w, job, hsends⟩ := hkept.sent p (List.mem_of_getElem? hp)
    have hcarries : s.Carries F m job := ⟨p, hp, F.payload_sends hsends⟩
    exact ⟨job, hcarries, hkept.answered hcarries⟩

/-- **The network adapters deliver at least once.** Over every interleaving
of publications, deliveries, acknowledgements, restarts and what the broker
does with them: a job whose publication was reported as done is carried by a
message that is stored, or that some process was handed as that very job and
acknowledged under the job's id. A publication that was taken for an
earlier one is answered for by a job of the same id. Nothing else removes a
message. -/
theorem durable_delivery_at_least_once (parseHost : Bool → String → Except String String)
    (serde : Serde) (A : Type) [DecidableEq A] :
    AtLeastOnce (NatsJetStreamQueue.adapter serde A) ∧
      AtLeastOnce (AzureServiceBusQueue.adapter parseHost serde) :=
  ⟨Fleet.atLeastOnce _, Fleet.atLeastOnce _⟩

/-- A job is published, received, acknowledged and removed. -/
def settledRun : List (FleetEvent (Except String Unit)
    (Except String (Option (Except String (Message ℕ)))) (ℕ → Except String Unit)) :=
  [.publish 0 smallJob (.ok ()) .stored,
    .receive 1 (.ok (some (.ok ⟨toVec smallJob.toWire, 5⟩))) 0,
    .acknowledge 1 (fun _ => .error "timed out") 7,
    .remove 0 0]

theorem durable_delivery_at_least_once_settled :
    ∃ s : Fleet (NatsJetStreamQueue ℕ) PublishMessage ℕ,
      Trace (StepOf (Fleet.step (NatsJetStreamQueue.adapter compactSerde ℕ)))
        (Fleet.start fun _ => ⟨"jobs", fun _ => none, 100⟩) settledRun s ∧
      s.accepted = [(smallJob, 0)] ∧ s.book.removed = [0] ∧ s.Answered 0 smallJob := by
  have hrun : (settledRun.foldlM (Fleet.step (NatsJetStreamQueue.adapter compactSerde ℕ))
      (Fleet.start fun _ => ⟨"jobs", fun _ => none, 100⟩)).any (fun s =>
        s.accepted = [(smallJob, 0)] && s.book.removed = [0]) = true := by decide +kernel
  obtain ⟨s, htrace, hend⟩ := Trace.exists_of_any hrun
  simp only [Bool.and_eq_true, decide_eq_true_eq] at hend
  have hall :=
    (durable_delivery_at_least_once plainHost compactSerde ℕ).1 _ _ s (fun _ _ => rfl) htrace
  refine ⟨s, htrace, hend.1, hend.2, (hall.1 smallJob 0 ?_).2⟩
  rw [hend.1]
  exact List.mem_cons_self

end DurableQueue

end InferQos
