import InferQos.Common.Ranking
import InferQos.Providers.External
/-!
# The stream of a response

A response passes through three tasks. The provider's task takes chunks off
the connection and sends them into a channel of sixteen, the proxy's task
relays them into a second one, and the server reads that one for the
client. The provider's task publishes the usage it finds in a cell; the
relay reads the cell when its loop ends and completes the admission with
it. Between two chunks, whenever its timer ticks, the relay renews the three
leases of the admission, if it has any. The client may go away at any time,
and what a channel holds is lost when its receiver is dropped.

Over every interleaving of the three, what the client has read is a part of
the response from its start, and a client that sees the end has read all of
it (`response_delivered`); the tasks come to an end, renewals aside, and
none of them is left waiting (`stream_ends`); and the usage that settles an
interrupted response is never that of a part of an HTTP response, and for an
adapter it is the one reported with a part that has all the client has read
(`settled_usage_of_part`).
-/

namespace InferQos

namespace Proxy

open Providers

/-! ## The provider's task -/

/-- **A task that sends and publishes.** It goes on with `sent` or with
`failed`, by whether the receiver took the value. -/
inductive Program (α υ : Type)
  | done
  | send (x : α) (sent failed : Program α υ)
  | publish (u : υ) (next : Program α υ)

namespace Program

variable {α υ : Type}

/-- What it sends while the receiver takes everything. -/
def sends : Program α υ → List α
  | done => []
  | send x sent _ => x :: sent.sends
  | publish _ next => next.sends

/-- What it has published last by then, the cell holding `u` before. -/
def last (u : υ) : Program α υ → υ
  | done => u
  | send _ sent _ => sent.last u
  | publish u' next => next.last u'

/-- **On its way while the receiver takes everything**: the task, started
with `u` in the cell, has sent `xs` and goes on as `p`, with `v` in the
cell. -/
inductive Along : Program α υ → υ → List α → Program α υ → υ → Prop
  | here (p : Program α υ) (u : υ) : Along p u [] p u
  | sent {x : α} {sent failed p : Program α υ} {u v : υ} {xs : List α} :
      Along sent u xs p v → Along (.send x sent failed) u (x :: xs) p v
  | published {w u v : υ} {next p : Program α υ} {xs : List α} :
      Along next w xs p v → Along (.publish w next) u xs p v

/-- The steps it may take, with three for each value it sends: the relay's
two and the client's. -/
def rank : Program α υ → ℕ
  | done => 0
  | send _ sent failed => max (4 + sent.rank) (1 + failed.rank)
  | publish _ next => 1 + next.rank

end Program

/-- What the body of a response is made of. -/
abbrev Chunk : Type := Except String (List UInt8)

variable {F : Type}

/-- What a provider's task does with the usage of type `F`. -/
abbrev Task (F : Type) : Type := Program Chunk (Option (WorkEstimate F))

section Tasks

variable [Arith F]

/-- **The task of `HttpProvider::dispatch`**, for what the connection
yields. -/
def httpTask (reader : JsonReader) (coefficient : F) (metadata : List UInt8) :
    List Chunk → Task F
  | [] => .publish (parseUsage reader coefficient metadata) .done
  | .ok bytes :: rest =>
    let metadata := extend metadata bytes
    .send (.ok bytes) (httpTask reader coefficient metadata rest)
      (.publish (parseUsage reader coefficient metadata) .done)
  | .error e :: _ =>
    let ending : Task F := .publish (parseUsage reader coefficient metadata) .done
    .send (.error e) ending ending

/-- The loop of the task of `ExternalProviderClient::dispatch`. -/
def relayTask : GrpcStream F → Task F
  | .closed => .done
  | .failed _ => .done
  | .message chunk _ rest =>
    let after : Task F := if chunk.last then .done else relayTask rest
    let sending : Task F :=
      if chunk.data.isEmpty then after else .send (.ok chunk.data) after .done
    match chunk.usage.bind fun value => (fromWire value).toOption with
    | some usage => .publish (some usage) sending
    | none => sending

/-- **The task of `ExternalProviderClient::dispatch`**, its first message
read. -/
def forwardTask (first : DispatchResponse F) (rest : GrpcStream F) : Task F :=
  if first.data.isEmpty then relayTask rest
  else .send (.ok first.data) (relayTask rest) .done

end Tasks

/-! ## The three tasks -/

/-- Where the relay stands. -/
inductive Relay (α υ : Type)
  /-- In `select!`. -/
  | select
  /-- In `renew` of a lease, with `left` to renew after it. -/
  | renewing (left : ℕ)
  /-- In `output_tx.send`. -/
  | sending (x : α)
  /-- The loop is left, and `complete` runs. -/
  | completing (actual : υ)
  /-- Both channels are dropped. -/
  | finished (actual : υ)

/-- The client. -/
inductive Client
  | reading
  /-- It has seen the end of the body. -/
  | ended
  /-- It went away before. -/
  | gone
  deriving DecidableEq

/-- **The channels and the tasks at their ends.** -/
structure Pipe (α υ : Type) where
  producer : Program α υ
  upstream : List α
  relay : Relay α υ
  output : List α
  client : Client
  delivered : List α
  usage : υ
  /-- The admission has leases. -/
  leased : Bool

/-- Which task moves. -/
inductive StreamEvent
  /-- The provider's task sends or publishes. -/
  | produce
  /-- The relay takes a chunk, or finds the channel closed. -/
  | receive
  /-- The timer of the relay ticks. -/
  | tick
  /-- `renew` returns, with whatever result. -/
  | renewed
  /-- The relay passes the chunk on. -/
  | pass
  /-- `complete` returns. -/
  | complete
  /-- The client takes a chunk, or finds the end. -/
  | read
  /-- The client goes away. -/
  | leave
  deriving DecidableEq

namespace Relay

variable {α υ : Type}

/-- The chunk in the relay's hands. -/
def held : Relay α υ → List α
  | sending x => [x]
  | _ => []

/-- The usage the admission is completed with. -/
def settled : Relay α υ → Option υ
  | completing actual => some actual
  | finished actual => some actual
  | _ => none

/-- The receiver of the first channel and the sender of the second are
dropped. -/
def isFinished : Relay α υ → Bool
  | finished _ => true
  | _ => false

def rank : Relay α υ → ℕ
  | select => 2
  | renewing left => 3 + left
  | sending _ => 4
  | completing _ => 1
  | finished _ => 0

end Relay

def Program.isDone {α υ : Type} : Program α υ → Bool
  | .done => true
  | _ => false

/-- The capacity of both channels. -/
def channelCapacity : ℕ := 16

namespace Pipe

variable {α υ : Type}

/-- The tasks as they are spawned. -/
def start (task : Program α υ) (usage : υ) (leased : Bool) : Pipe α υ where
  producer := task
  upstream := []
  relay := .select
  output := []
  client := .reading
  delivered := []
  usage := usage
  leased := leased

/-- **One step**: `none` where the task waits. A send waits while its
channel is full and fails once the receiver is dropped; a receive waits
while the channel is empty and its sender alive. A renewal is begun where a
chunk could be received, and the three leases are renewed one by one. -/
def step (s : Pipe α υ) : StreamEvent → Option (Pipe α υ)
  | .produce =>
    match s.producer with
    | .done => none
    | .publish usage next => some { s with producer := next, usage := usage }
    | .send x sent failed =>
      if s.relay.isFinished then some { s with producer := failed }
      else if s.upstream.length < channelCapacity then
        some { s with producer := sent, upstream := s.upstream ++ [x] }
      else none
  | .receive =>
    match s.relay, s.upstream with
    | .select, x :: rest => some { s with relay := .sending x, upstream := rest }
    | .select, [] =>
      if s.producer.isDone then some { s with relay := .completing s.usage } else none
    | _, _ => none
  | .tick =>
    match s.relay with
    | .select => if s.leased then some { s with relay := .renewing 2 } else none
    | _ => none
  | .renewed =>
    match s.relay with
    | .renewing 0 => some { s with relay := .select }
    | .renewing (left + 1) => some { s with relay := .renewing left }
    | _ => none
  | .pass =>
    match s.relay with
    | .sending x =>
      if s.client = .gone then some { s with relay := .completing s.usage }
      else if s.output.length < channelCapacity then
        some { s with relay := .select, output := s.output ++ [x] }
      else none
    | _ => none
  | .complete =>
    match s.relay with
    -- the relay's task ends, and what the first channel holds is dropped
    | .completing actual => some { s with relay := .finished actual, upstream := [] }
    | _ => none
  | .read =>
    match s.client, s.output with
    | .reading, x :: rest => some { s with output := rest, delivered := s.delivered ++ [x] }
    | .reading, [] => if s.relay.isFinished then some { s with client := .ended } else none
    | _, _ => none
  | .leave => if s.client = .reading then some { s with client := .gone, output := [] } else none

/-- The steps that are left at most. -/
def rank (s : Pipe α υ) : ℕ :=
  s.producer.rank + 3 * s.upstream.length + s.relay.rank + s.output.length +
    if s.client = .reading then 1 else 0

/-- **What one step does.** -/
inductive Stepped (s : Pipe α υ) : StreamEvent → Pipe α υ → Prop
  | publish {usage : υ} {next : Program α υ} : s.producer = .publish usage next →
      Stepped s .produce { s with producer := next, usage := usage }
  | fail {x : α} {sent failed : Program α υ} : s.producer = .send x sent failed →
      s.relay.isFinished = true → Stepped s .produce { s with producer := failed }
  | send {x : α} {sent failed : Program α υ} : s.producer = .send x sent failed →
      s.relay.isFinished = false → s.upstream.length < channelCapacity →
      Stepped s .produce { s with producer := sent, upstream := s.upstream ++ [x] }
  | receive {x : α} {rest : List α} : s.relay = .select → s.upstream = x :: rest →
      Stepped s .receive { s with relay := .sending x, upstream := rest }
  | close : s.relay = .select → s.upstream = [] → s.producer = .done →
      Stepped s .receive { s with relay := .completing s.usage }
  | tick : s.relay = .select → Stepped s .tick { s with relay := .renewing 2 }
  | renewed : s.relay = .renewing 0 → Stepped s .renewed { s with relay := .select }
  | renewedOne {left : ℕ} : s.relay = .renewing (left + 1) →
      Stepped s .renewed { s with relay := .renewing left }
  | abandon {x : α} : s.relay = .sending x → s.client = .gone →
      Stepped s .pass { s with relay := .completing s.usage }
  | pass {x : α} : s.relay = .sending x → s.client ≠ .gone → s.output.length < channelCapacity →
      Stepped s .pass { s with relay := .select, output := s.output ++ [x] }
  | complete {actual : υ} : s.relay = .completing actual →
      Stepped s .complete { s with relay := .finished actual, upstream := [] }
  | read {x : α} {rest : List α} : s.client = .reading → s.output = x :: rest →
      Stepped s .read { s with output := rest, delivered := s.delivered ++ [x] }
  | finish : s.client = .reading → s.output = [] → s.relay.isFinished = true →
      Stepped s .read { s with client := .ended }
  | leave : s.client = .reading → Stepped s .leave { s with client := .gone, output := [] }

variable {s t : Pipe α υ} {e : StreamEvent}

theorem eq_done_of_isDone {p : Program α υ} (h : p.isDone = true) :
    p = .done := by
  cases p with
  | done => rfl
  | _ => cases h

/-- **Every step is one of these.** -/
theorem stepped (h : s.step e = some t) : Stepped s e t := by
  revert h
  fun_cases Pipe.step s e <;> intro h <;> cases h
  · exact .publish ‹_›
  · exact .fail ‹_› ‹_›
  · exact .send ‹_› (Bool.eq_false_iff.mpr ‹_›) ‹_›
  · exact .receive ‹_› ‹_›
  · exact .close ‹_› ‹_› (eq_done_of_isDone ‹_›)
  · exact .tick ‹_›
  · exact .renewed ‹_›
  · exact .renewedOne ‹_›
  · exact .abandon ‹_› ‹_›
  · exact .pass ‹_› ‹_› ‹_›
  · exact .complete ‹_›
  · exact .read ‹_› ‹_›
  · exact .finish ‹_› ‹_› ‹_›
  · exact .leave ‹_›

/-! ## Order and completeness -/

/-- **The channels in every state of a run** of `task`, the cell holding
`usage` at first. Until the client goes away nothing is lost, and the relay
only leaves its loop when the provider's task is over. -/
structure Wired (task : Program α υ) (usage : υ) (s : Pipe α υ) : Prop where
  upstream_le : s.upstream.length ≤ channelCapacity
  output_le : s.output.length ≤ channelCapacity
  read : s.delivered <+: task.sends
  whole : s.client ≠ .gone →
    s.delivered ++ s.output ++ s.relay.held ++ s.upstream ++ s.producer.sends = task.sends
  last : s.client ≠ .gone → s.producer.last s.usage = task.last usage
  settled : s.client ≠ .gone → ∀ actual, s.relay.settled = some actual →
    s.producer = .done ∧ s.upstream = [] ∧ actual = s.usage
  ended : s.client = .ended → s.output = [] ∧ s.relay.isFinished = true

variable {task : Program α υ} {usage : υ}

theorem wired_start (task : Program α υ) (usage : υ) (leased : Bool) :
    Wired task usage (start task usage leased) where
  upstream_le := Nat.zero_le _
  output_le := Nat.zero_le _
  read := List.nil_prefix
  whole _ := rfl
  last _ := rfl
  settled _ actual h := by cases h
  ended h := by cases h

theorem settled_of_isFinished {r : Relay α υ} (h : r.isFinished = true) :
    ∃ actual, r = .finished actual := by
  cases r with
  | finished actual => exact ⟨actual, rfl⟩
  | _ => cases h

/-- The client has not seen the end before the relay finished. -/
theorem Wired.client_ne_ended (h : Wired task usage s) (hr : s.relay.isFinished = false) :
    s.client ≠ .ended := by
  intro hc
  rw [(h.ended hc).2] at hr
  cases hr

/-- Until the client goes away, the relay outlasts the provider's task. -/
theorem Wired.relay_open (h : Wired task usage s) (hc : s.client ≠ .gone)
    (hp : s.producer ≠ .done) : s.relay.settled = none := by
  cases hsettled : s.relay.settled with
  | none => rfl
  | some actual => exact absurd (h.settled hc actual hsettled).1 hp

/-- The relay turns from chunks to leases, from one lease to the next, or
back. -/
theorem Wired.turn (h : Wired task usage s) (hheld : s.relay.held = [])
    (hopen : s.relay.settled = none) {relay : Relay α υ} (hheld' : relay.held = [])
    (hopen' : relay.settled = none) : Wired task usage { s with relay := relay } := by
  refine ⟨h.upstream_le, h.output_le, h.read, fun hc => ?_, h.last, fun hc actual ha => ?_,
    fun hc => ?_⟩
  · rw [← h.whole hc, hheld, hheld']
  · rw [hopen'] at ha
    cases ha
  · obtain ⟨actual, hactual⟩ := settled_of_isFinished (h.ended hc).2
    rw [hactual] at hopen
    cases hopen

theorem Wired.step (h : Wired task usage s) (hs : s.step e = some t) : Wired task usage t := by
  cases stepped hs with
  | @publish u next hp =>
    refine ⟨h.upstream_le, h.output_le, h.read, fun hc => ?_, fun hc => ?_, fun hc actual ha => ?_,
      h.ended⟩
    · rw [← h.whole hc, hp]
      rfl
    · rw [← h.last hc, hp]
      rfl
    · rw [h.relay_open hc (by rw [hp]; nofun)] at ha
      cases ha
  | @fail x sent failed hp hfin =>
    -- a receiver that is gone means a client that is gone
    obtain ⟨actual, hactual⟩ := settled_of_isFinished hfin
    have hgone : s.client = .gone := by
      by_contra hc
      have hopen := h.relay_open hc (by rw [hp]; nofun)
      rw [hactual] at hopen
      cases hopen
    exact ⟨h.upstream_le, h.output_le, h.read, fun hc => absurd hgone hc,
      fun hc => absurd hgone hc, fun hc => absurd hgone hc, h.ended⟩
  | @send x sent failed hp hfin hroom =>
    refine ⟨?_, h.output_le, h.read, fun hc => ?_, fun hc => ?_, fun hc actual ha => ?_, h.ended⟩
    · rw [List.length_append, List.length_singleton]
      exact hroom
    · rw [← h.whole hc, hp]
      simp [Program.sends]
    · rw [← h.last hc, hp]
      rfl
    · rw [h.relay_open hc (by rw [hp]; nofun)] at ha
      cases ha
  | @receive x rest hr hu =>
    refine ⟨?_, h.output_le, h.read, fun hc => ?_, h.last, (fun hc actual ha => by cases ha),
      fun hc => ?_⟩
    · have hle := h.upstream_le
      rw [hu, List.length_cons] at hle
      exact (Nat.le_succ _).trans hle
    · rw [← h.whole hc, hr, hu]
      simp [Relay.held]
    · exact absurd hc (h.client_ne_ended (by rw [hr]; rfl))
  | close hr hu hp =>
    refine ⟨h.upstream_le, h.output_le, h.read, fun hc => ?_, h.last, fun hc actual ha => ?_,
      fun hc => ?_⟩
    · rw [← h.whole hc, hr]
      rfl
    · cases ha
      exact ⟨hp, hu, rfl⟩
    · exact absurd hc (h.client_ne_ended (by rw [hr]; rfl))
  | tick hr => exact h.turn (by rw [hr]; rfl) (by rw [hr]; rfl) rfl rfl
  | renewed hr => exact h.turn (by rw [hr]; rfl) (by rw [hr]; rfl) rfl rfl
  | renewedOne hr => exact h.turn (by rw [hr]; rfl) (by rw [hr]; rfl) rfl rfl
  | @abandon x hr hgone =>
    exact ⟨h.upstream_le, h.output_le, h.read, fun hc => absurd hgone hc, fun hc => absurd hgone hc,
      fun hc => absurd hgone hc, fun hc => by rw [hgone] at hc; cases hc⟩
  | @pass x hr hc hroom =>
    refine ⟨h.upstream_le, ?_, h.read, fun hc => ?_, h.last, (fun hc actual ha => by cases ha),
      fun hc => ?_⟩
    · rw [List.length_append, List.length_singleton]
      exact hroom
    · rw [← h.whole hc, hr]
      simp [Relay.held]
    · exact absurd hc (h.client_ne_ended (by rw [hr]; rfl))
  | @complete actual hr =>
    refine ⟨Nat.zero_le _, h.output_le, h.read, fun hc => ?_, h.last, fun hc actual' ha => ?_,
      fun hc => ⟨(h.ended hc).1, rfl⟩⟩
    · rw [← h.whole hc, hr, (h.settled hc actual (by rw [hr]; rfl)).2.1]
      rfl
    · cases ha
      have hsettled := h.settled hc actual (by rw [hr]; rfl)
      exact ⟨hsettled.1, rfl, hsettled.2.2⟩
  | @read x rest hc ho =>
    have hwhole := h.whole (by rw [hc]; decide)
    have hsplit : (s.delivered ++ [x]) ++ rest ++ s.relay.held ++ s.upstream ++ s.producer.sends =
        task.sends := by
      rw [← hwhole, ho]
      simp
    refine ⟨h.upstream_le, ?_, ?_, fun _ => hsplit, h.last, h.settled, fun hc' => ?_⟩
    · have hle := h.output_le
      rw [ho, List.length_cons] at hle
      exact (Nat.le_succ _).trans hle
    · refine ⟨rest ++ s.relay.held ++ s.upstream ++ s.producer.sends, ?_⟩
      rw [← hsplit]
      simp only [List.append_assoc]
    · have hc' : s.client = .ended := hc'
      rw [hc] at hc'
      cases hc'
  | finish hc ho hfin =>
    have hreading : s.client ≠ .gone := by
      rw [hc]
      decide
    exact ⟨h.upstream_le, h.output_le, h.read, fun _ => h.whole hreading, fun _ => h.last hreading,
      fun _ => h.settled hreading, fun _ => ⟨ho, hfin⟩⟩
  | leave hc =>
    exact ⟨h.upstream_le, Nat.zero_le _, h.read, fun hc => absurd rfl hc, fun hc => absurd rfl hc,
      fun hc => absurd rfl hc, fun hc => by cases hc⟩

/-- **A client that has seen the end has everything**, and the admission is
completed with what was published last. -/
theorem Wired.of_ended (h : Wired task usage s) (hc : s.client = .ended) :
    s.delivered = task.sends ∧ s.relay = .finished (task.last usage) := by
  have hgone : s.client ≠ .gone := by
    rw [hc]
    decide
  obtain ⟨hout, hfin⟩ := h.ended hc
  obtain ⟨actual, hactual⟩ := settled_of_isFinished hfin
  obtain ⟨hdone, hup, husage⟩ := h.settled hgone actual (by rw [hactual]; rfl)
  have hwhole := h.whole hgone
  have hlast := h.last hgone
  rw [hout, hactual, hup, hdone] at hwhole
  rw [hdone] at hlast
  constructor
  · simpa [Relay.held, Program.sends] using hwhole
  · rw [hactual, husage]
    exact congrArg Relay.finished hlast

/-! ## Termination -/

/-- **Every step lowers the rank**, but a tick, which adds the renewal of
three leases to it. -/
theorem rank_step (hs : s.step e = some t) :
    t.rank + 1 ≤ s.rank + if e = .tick then 4 else 0 := by
  cases stepped hs with
  | publish hp =>
    simp only [rank, hp, Program.rank, reduceCtorEq, if_false]
    omega
  | fail hp hfin =>
    simp only [rank, hp, Program.rank, reduceCtorEq, if_false]
    omega
  | send hp hfin hroom =>
    simp only [rank, hp, Program.rank, List.length_append, List.length_singleton, reduceCtorEq,
      if_false]
    omega
  | receive hr hu =>
    simp only [rank, hr, hu, Relay.rank, List.length_cons, reduceCtorEq, if_false]
    omega
  | close hr hu hp =>
    simp only [rank, hr, Relay.rank, reduceCtorEq, if_false]
    omega
  | tick hr =>
    simp only [rank, hr, Relay.rank, if_true]
    omega
  | renewed hr =>
    simp only [rank, hr, Relay.rank, reduceCtorEq, if_false]
    omega
  | renewedOne hr =>
    simp only [rank, hr, Relay.rank, reduceCtorEq, if_false]
    omega
  | abandon hr hgone =>
    simp only [rank, hr, Relay.rank, reduceCtorEq, if_false]
    omega
  | pass hr hc hroom =>
    simp only [rank, hr, Relay.rank, List.length_append, List.length_singleton, reduceCtorEq,
      if_false]
    omega
  | complete hr =>
    simp only [rank, hr, Relay.rank, List.length_nil, reduceCtorEq, if_false]
    omega
  | read hc ho =>
    simp only [rank, ho, List.length_cons, reduceCtorEq, if_false]
    omega
  | finish hc ho hfin =>
    simp only [rank, hc, if_true, reduceCtorEq, if_false]
    omega
  | leave hc =>
    simp only [rank, hc, if_true, reduceCtorEq, if_false, List.length_nil]
    omega

/-- The provider's task waits for room in its channel only. -/
theorem producer_of_waiting (h : s.step .produce = none) : s.producer = .done ∨
    s.relay.isFinished = false ∧ channelCapacity ≤ s.upstream.length := by
  simp only [Pipe.step] at h
  split at h
  · exact .inl ‹_›
  · cases h
  · split_ifs at h with hfin hroom
    exact .inr ⟨Bool.eq_false_iff.mpr hfin, not_lt.mp hroom⟩

/-- A client that reads waits for the relay only. -/
theorem output_of_waiting (h : s.step .read = none) (hc : s.client = .reading) :
    s.output = [] ∧ s.relay.isFinished = false := by
  simp only [Pipe.step, hc] at h
  split at h
  · cases h
  · split_ifs at h with hfin
    exact ⟨‹_›, Bool.eq_false_iff.mpr hfin⟩
  · rename_i hcons hnil
    cases ho : s.output with
    | nil => exact absurd ho (hnil rfl)
    | cons x rest => exact absurd ho (hcons x rest rfl)

/-- **No task is left waiting**: when none but a tick and the client's
departure can happen, the body has been read to its end or the client is gone, the
admission is completed and the provider's task is over. -/
theorem Wired.of_stuck (h : Wired task usage s)
    (hstuck : ∀ e, e ≠ .leave → e ≠ .tick → s.step e = none) :
    s.client ≠ .reading ∧ (∃ actual, s.relay = .finished actual) ∧ s.producer = .done := by
  have hproduce := producer_of_waiting (hstuck .produce (by decide) (by decide))
  have hread := output_of_waiting (hstuck .read (by decide) (by decide))
  have hreceive := hstuck .receive (by decide) (by decide)
  have hrenewed := hstuck .renewed (by decide) (by decide)
  have hpass := hstuck .pass (by decide) (by decide)
  have hcomplete := hstuck .complete (by decide) (by decide)
  simp only [Pipe.step] at hreceive hrenewed hpass hcomplete
  cases hr : s.relay with
  | renewing left =>
    rw [hr] at hrenewed
    cases left with
    | zero => cases hrenewed
    | succ left => cases hrenewed
  | completing actual =>
    rw [hr] at hcomplete
    cases hcomplete
  | finished actual =>
    rw [hr] at hproduce hread
    refine ⟨fun hc => ?_, ⟨actual, rfl⟩, hproduce.resolve_right fun hwait => ?_⟩
    · cases (hread hc).2
    · cases hwait.1
  | sending x =>
    -- the second channel is full, and the client would read it
    rw [hr] at hpass
    by_cases hgone : s.client = .gone
    · simp [hgone] at hpass
    · have hreading : s.client = .reading := by
        cases hc : s.client with
        | reading => rfl
        | gone => exact absurd hc hgone
        | ended => exact absurd hc (h.client_ne_ended (by rw [hr]; rfl))
      simp [hgone, (hread hreading).1, channelCapacity] at hpass
  | select =>
    rw [hr] at hreceive
    cases hu : s.upstream with
    | cons x rest =>
      rw [hu] at hreceive
      cases hreceive
    | nil =>
      -- the first channel is empty, and the provider's task would send
      rw [hu] at hreceive hproduce
      rcases hproduce with hdone | ⟨-, hfull⟩
      · rw [hdone] at hreceive
        cases hreceive
      · cases hfull

/-! ## The usage settled -/

/-- The task has sent one more value. -/
theorem along_send {p sent failed : Program α υ} {u v : υ} {xs : List α} {x : α}
    (h : p.Along u xs (.send x sent failed) v) : p.Along u (xs ++ [x]) sent v := by
  generalize hend : Program.send x sent failed = q at h
  induction h with
  | here p u =>
    subst hend
    exact .sent (.here sent u)
  | sent _ ih => exact .sent (ih hend)
  | published _ ih => exact .published (ih hend)

/-- The task has published once more. -/
theorem along_publish {p next : Program α υ} {u v w : υ} {xs : List α}
    (h : p.Along u xs (.publish w next) v) : p.Along u xs next w := by
  generalize hend : Program.publish w next = q at h
  induction h with
  | here p u =>
    subst hend
    exact .published (.here next w)
  | sent _ ih => exact .sent (ih hend)
  | published _ ih => exact .published (ih hend)

/-- **What the cell holds, and what is settled, belongs to a part of the
response** that has all the client has read or will. A send fails only when
the relay has read the cell. -/
structure Followed (task : Program α υ) (usage : υ) (s : Pipe α υ) : Prop where
  lost : s.client = .gone → s.output = []
  relaying : s.relay.settled = none → ∃ xs, task.Along usage xs s.producer s.usage ∧
    s.delivered <+: xs ∧
    (s.client ≠ .gone → s.delivered ++ s.output ++ s.relay.held ++ s.upstream = xs)
  settled : ∀ actual, s.relay.settled = some actual →
    ∃ xs p, task.Along usage xs p actual ∧ s.delivered ++ s.output <+: xs

theorem followed_start (task : Program α υ) (usage : υ) (leased : Bool) :
    Followed task usage (start task usage leased) where
  lost h := by cases h
  relaying _ := ⟨[], .here task usage, List.nil_prefix, fun _ => rfl⟩
  settled actual h := by cases h

/-- The relay leaves its loop. -/
theorem Followed.settle (h : Followed task usage s) (hopen : s.relay.settled = none) :
    Followed task usage { s with relay := .completing s.usage } := by
  obtain ⟨xs, halong, hread, hall⟩ := h.relaying hopen
  refine ⟨h.lost, (fun ho => by cases ho), fun actual ha => ⟨xs, s.producer, ?_, ?_⟩⟩
  · cases ha
    exact halong
  · by_cases hc : s.client = .gone
    · rw [h.lost hc, List.append_nil]
      exact hread
    · rw [← hall hc, List.append_assoc (s.delivered ++ s.output)]
      exact List.prefix_append _ _

/-- The relay goes on with the same chunks at hand. -/
theorem Followed.turn (h : Followed task usage s) (hopen : s.relay.settled = none)
    {relay : Relay α υ} {upstream : List α} (hopen' : relay.settled = none)
    (hsame : relay.held ++ upstream = s.relay.held ++ s.upstream) :
    Followed task usage { s with relay := relay, upstream := upstream } := by
  obtain ⟨xs, halong, hread, hall⟩ := h.relaying hopen
  refine ⟨h.lost, fun _ => ⟨xs, halong, hread, fun hc => ?_⟩, fun actual ha => ?_⟩
  · rw [← hall hc, List.append_assoc (s.delivered ++ s.output),
      List.append_assoc (s.delivered ++ s.output), hsame]
  · rw [hopen'] at ha
    cases ha

theorem Followed.step (h : Followed task usage s) (hs : s.step e = some t) :
    Followed task usage t := by
  cases stepped hs with
  | publish hp =>
    refine ⟨h.lost, fun hopen => ?_, h.settled⟩
    obtain ⟨xs, halong, hrest⟩ := h.relaying hopen
    rw [hp] at halong
    exact ⟨xs, along_publish halong, hrest⟩
  | fail hp hfin =>
    refine ⟨h.lost, fun hopen => ?_, h.settled⟩
    obtain ⟨actual, hactual⟩ := settled_of_isFinished hfin
    have hopen : s.relay.settled = none := hopen
    rw [hactual] at hopen
    cases hopen
  | @send x sent failed hp hfin hroom =>
    refine ⟨h.lost, fun hopen => ?_, h.settled⟩
    obtain ⟨xs, halong, hread, hall⟩ := h.relaying hopen
    rw [hp] at halong
    refine ⟨xs ++ [x], along_send halong, hread.trans (List.prefix_append xs [x]), fun hc => ?_⟩
    rw [← hall hc, List.append_assoc _ s.upstream]
  | receive hr hu => exact h.turn (by rw [hr]; rfl) rfl (by rw [hr, hu]; rfl)
  | close hr hu hp => exact h.settle (by rw [hr]; rfl)
  | tick hr => exact h.turn (by rw [hr]; rfl) rfl (by rw [hr]; rfl)
  | renewed hr => exact h.turn (by rw [hr]; rfl) rfl (by rw [hr]; rfl)
  | renewedOne hr => exact h.turn (by rw [hr]; rfl) rfl (by rw [hr]; rfl)
  | abandon hr hgone => exact h.settle (by rw [hr]; rfl)
  | @pass x hr hc hroom =>
    obtain ⟨xs, halong, hread, hall⟩ := h.relaying (by rw [hr]; rfl)
    refine ⟨fun hgone => absurd hgone hc, fun _ => ⟨xs, halong, hread, fun hc => ?_⟩,
      fun actual ha => by cases ha⟩
    rw [← hall hc, hr]
    simp [Relay.held]
  | @complete actual hr =>
    refine ⟨h.lost, (fun hopen => by cases hopen), fun actual' ha => ?_⟩
    cases ha
    exact h.settled actual (by rw [hr]; rfl)
  | @read x rest hc ho =>
    have hsplit : (s.delivered ++ [x]) ++ rest = s.delivered ++ s.output := by
      rw [ho, List.append_assoc]
      rfl
    have hreading : s.client ≠ .gone := by
      rw [hc]
      decide
    refine ⟨fun hgone => absurd hgone hreading, fun hopen => ?_, fun actual ha => ?_⟩
    · obtain ⟨xs, halong, -, hall⟩ := h.relaying hopen
      have hall' : (s.delivered ++ [x]) ++ rest ++ s.relay.held ++ s.upstream = xs := by
        rw [hsplit]
        exact hall hreading
      refine ⟨xs, halong, ⟨rest ++ s.relay.held ++ s.upstream, ?_⟩, fun _ => hall'⟩
      rw [← hall']
      simp only [List.append_assoc]
    · obtain ⟨xs, p, halong, hread⟩ := h.settled actual ha
      exact ⟨xs, p, halong, by rwa [hsplit]⟩
  | finish hc ho hfin =>
    have hreading : s.client ≠ .gone := by
      rw [hc]
      decide
    refine ⟨(fun hgone => by cases hgone), fun hopen => ?_, h.settled⟩
    obtain ⟨xs, halong, hread, hall⟩ := h.relaying hopen
    exact ⟨xs, halong, hread, fun _ => hall hreading⟩
  | leave hc =>
    refine ⟨fun _ => rfl, fun hopen => ?_, fun actual ha => ?_⟩
    · obtain ⟨xs, halong, hread, -⟩ := h.relaying hopen
      exact ⟨xs, halong, hread, fun hgone => absurd rfl hgone⟩
    · obtain ⟨xs, p, halong, hread⟩ := h.settled actual ha
      refine ⟨xs, p, halong, ?_⟩
      rw [List.append_nil]
      exact (List.prefix_append _ _).trans hread

end Pipe

/-! ## Responses -/

/-- **Where a response comes from**: a connection to the provider, or an
external adapter, whose first message has been read. -/
inductive Source (F : Type)
  | http (coefficient : F) (stream : List Chunk)
  | external (usage : Option (WorkEstimate F)) (first : DispatchResponse F) (rest : GrpcStream F)

/-- What a connection yields, up to its first error. -/
def throughError : List Chunk → List Chunk
  | [] => []
  | .ok bytes :: rest => .ok bytes :: throughError rest
  | .error e :: _ => [.error e]

/-- A stream whose messages are all taken. -/
def takenAll : GrpcStream F → GrpcStream F
  | .closed => .closed
  | .failed status => .failed status
  | .message m _ rest => .message m true (takenAll rest)

/-- The first messages of a stream. -/
def firstOf : ℕ → GrpcStream F → GrpcStream F
  | n + 1, .message m taken rest => .message m taken (firstOf n rest)
  | _, _ => .closed

section Tasks

variable [Arith F] {reader : JsonReader} {coefficient : F} {u v : Option (WorkEstimate F)}
variable {xs : List Chunk} {p : Task F}

theorem httpTask_sends (metadata : List UInt8) (stream : List Chunk) :
    (httpTask reader coefficient metadata stream).sends = throughError stream := by
  induction stream generalizing metadata with
  | nil => rfl
  | cons chunk rest ih =>
    cases chunk with
    | error e => rfl
    | ok bytes => exact congrArg (List.cons _) (ih _)

/-- What a client that stays gets published is the usage of the stream. -/
theorem httpTask_last (metadata : List UInt8) (stream : List Chunk) :
    (httpTask reader coefficient metadata stream).last u =
      parseUsage reader coefficient (collect metadata (stream.map (⟨·, true⟩))) := by
  induction stream generalizing metadata with
  | nil => rfl
  | cons chunk rest ih =>
    cases chunk with
    | error e => rfl
    | ok bytes => exact ih _

/-- **Nothing is published before the end of the stream.** -/
theorem httpTask_along {metadata : List UInt8} {stream : List Chunk}
    (h : (httpTask reader coefficient metadata stream).Along u xs p v) :
    v = u ∨ v = parseUsage reader coefficient (collect metadata (stream.map (⟨·, true⟩))) := by
  induction stream generalizing metadata xs with
  | nil =>
    cases h with
    | here => exact Or.inl rfl
    | published h =>
      cases h
      exact Or.inr rfl
  | cons chunk rest ih =>
    cases chunk with
    | ok bytes =>
      cases h with
      | here => exact Or.inl rfl
      | sent h => exact ih h
    | error e =>
      cases h with
      | here => exact Or.inl rfl
      | sent h =>
        cases h with
        | here => exact Or.inl rfl
        | published h =>
          cases h
          exact Or.inr rfl

theorem httpTask_rank_le (metadata : List UInt8) (stream : List Chunk) :
    (httpTask reader coefficient metadata stream).rank ≤ 5 * stream.length + 1 := by
  induction stream generalizing metadata with
  | nil => exact le_rfl
  | cons chunk rest ih =>
    cases chunk with
    | error e =>
      simp only [httpTask, Program.rank, List.length_cons]
      omega
    | ok bytes =>
      have := ih (extend metadata bytes)
      simp only [httpTask, Program.rank, List.length_cons]
      omega

/-- **The external task sends and publishes what `relay` says** for a client
that takes everything. -/
theorem relayTask_eq (usage : Option (WorkEstimate F)) (rest : GrpcStream F) :
    (relayTask rest).sends = (relay usage (takenAll rest)).1 ∧
      (relayTask rest).last usage = (relay usage (takenAll rest)).2 := by
  induction rest generalizing usage with
  | closed => exact ⟨rfl, rfl⟩
  | failed status => exact ⟨rfl, rfl⟩
  | message m taken rest ih =>
    simp only [relayTask, takenAll, relay, not_gone, Bool.false_eq_true, if_false]
    cases m.usage.bind fun value => (fromWire value).toOption with
    | none =>
      cases hlast : m.last <;> cases hdata : m.data.isEmpty <;>
        simp [Program.sends, Program.last, DispatchResponse.items, hdata, ih usage]
    | some value =>
      cases hlast : m.last <;> cases hdata : m.data.isEmpty <;>
        simp [Program.sends, Program.last, DispatchResponse.items, hdata, ih (some value)]

theorem forwardTask_eq (usage : Option (WorkEstimate F)) (first : DispatchResponse F)
    (rest : GrpcStream F) :
    (forwardTask first rest).sends = (forward usage first true (takenAll rest)).1 ∧
      (forwardTask first rest).last usage = (forward usage first true (takenAll rest)).2 := by
  simp only [forwardTask, forward, not_gone, Bool.false_eq_true, if_false]
  cases hdata : first.data.isEmpty <;>
    simp [Program.sends, Program.last, DispatchResponse.items, hdata, relayTask_eq usage rest]

/-- What the loop comes to with a message and `n` more, `w` being the usage
by then. -/
def fromMessage (m : DispatchResponse F) (rest : GrpcStream F) (w : Option (WorkEstimate F))
    (n : ℕ) : List Chunk × Option (WorkEstimate F) :=
  if m.last then (m.items, w)
  else
    let after := relay w (takenAll (firstOf n rest))
    (m.items ++ after.1, after.2)

theorem relay_message (m : DispatchResponse F) (taken : Bool) (rest : GrpcStream F) (n : ℕ) :
    relay u (takenAll (firstOf (n + 1) (.message m taken rest))) =
      fromMessage m rest ((m.usage.bind fun value => (fromWire value).toOption).or u) n := by
  simp only [firstOf, takenAll, relay, not_gone, Bool.false_eq_true, if_false, fromMessage]

theorem fromMessage_zero (m : DispatchResponse F) (rest : GrpcStream F) :
    (fromMessage m rest u 0).2 = u := by
  unfold fromMessage
  split
  · rfl
  · rfl

/-- **The external task on its way** has sent no more, and published no
less, than some first messages of the stream say. The usage of a message is
published before its data is sent. -/
theorem relayTask_along {rest : GrpcStream F} (h : (relayTask rest).Along u xs p v) :
    ∃ n, xs <+: (relay u (takenAll (firstOf n rest))).1 ∧
      v = (relay u (takenAll (firstOf n rest))).2 := by
  induction rest generalizing u xs with
  | closed =>
    cases h
    exact ⟨0, List.nil_prefix, rfl⟩
  | failed status =>
    cases h
    exact ⟨0, List.nil_prefix, rfl⟩
  | message m taken rest ih =>
    have hafter : ∀ {w xs}, (if m.last then .done else relayTask rest : Task F).Along w xs p v →
        ∃ n, m.items ++ xs <+: (fromMessage m rest w n).1 ∧ v = (fromMessage m rest w n).2 := by
      intro w xs h
      unfold fromMessage
      cases hlast : m.last with
      | true =>
        simp only [hlast, if_true] at h ⊢
        cases h
        exact ⟨0, (List.append_nil m.items).symm ▸ List.prefix_rfl, rfl⟩
      | false =>
        simp only [hlast, Bool.false_eq_true, if_false] at h ⊢
        obtain ⟨n, hxs, hv⟩ := ih h
        exact ⟨n, (List.prefix_append_right_inj _).mpr hxs, hv⟩
    have hsending : ∀ {w xs}, (if m.data.isEmpty then (if m.last then .done else relayTask rest)
        else .send (.ok m.data) (if m.last then .done else relayTask rest) .done :
          Task F).Along w xs p v →
        ∃ n, xs <+: (fromMessage m rest w n).1 ∧ v = (fromMessage m rest w n).2 := by
      intro w xs h
      cases hdata : m.data.isEmpty with
      | true =>
        simp only [hdata, if_true] at h
        simpa only [DispatchResponse.items, hdata, if_true, List.nil_append] using hafter h
      | false =>
        simp only [hdata, Bool.false_eq_true, if_false] at h
        cases h with
        | here => exact ⟨0, List.nil_prefix, (fromMessage_zero m rest).symm⟩
        | sent h =>
          simpa only [DispatchResponse.items, hdata, Bool.false_eq_true, if_false,
            List.singleton_append] using hafter h
    simp only [relayTask] at h
    cases husage : m.usage.bind fun value => (fromWire value).toOption with
    | none =>
      rw [husage] at h
      obtain ⟨n, hn⟩ := hsending h
      exact ⟨n + 1, by rwa [relay_message, husage, Option.none_or]⟩
    | some w =>
      rw [husage] at h
      cases h with
      | here => exact ⟨0, List.nil_prefix, rfl⟩
      | published h =>
        obtain ⟨n, hn⟩ := hsending h
        exact ⟨n + 1, by rwa [relay_message, husage, Option.some_or]⟩

theorem forwardTask_along {first : DispatchResponse F} {rest : GrpcStream F}
    (h : (forwardTask first rest).Along u xs p v) :
    ∃ n, xs <+: (forward u first true (takenAll (firstOf n rest))).1 ∧
      v = (forward u first true (takenAll (firstOf n rest))).2 := by
  simp only [forward, not_gone, Bool.false_eq_true, if_false]
  unfold forwardTask at h
  cases hdata : first.data.isEmpty with
  | true =>
    rw [hdata, if_pos rfl] at h
    simpa only [DispatchResponse.items, hdata, if_true, List.nil_append] using relayTask_along h
  | false =>
    rw [hdata, if_neg Bool.false_ne_true] at h
    cases h with
    | here => exact ⟨0, List.nil_prefix, rfl⟩
    | sent h =>
      obtain ⟨n, hxs, hv⟩ := relayTask_along h
      refine ⟨n, ?_, hv⟩
      simp only [DispatchResponse.items, hdata, Bool.false_eq_true, if_false]
      exact (List.prefix_cons_inj _).mpr hxs

theorem relayTask_rank_le (rest : GrpcStream F) :
    (relayTask rest).rank ≤ 5 * rest.messages.length := by
  induction rest with
  | closed => exact le_rfl
  | failed status => exact le_rfl
  | message m taken rest ih =>
    have hafter : (if m.last then .done else relayTask rest : Task F).rank ≤
        5 * rest.messages.length := by
      split
      · exact Nat.zero_le _
      · exact ih
    have hsending : (if m.data.isEmpty then (if m.last then .done else relayTask rest)
        else .send (.ok m.data) (if m.last then .done else relayTask rest) .done :
          Task F).rank ≤ 4 + 5 * rest.messages.length := by
      split
      · omega
      · simp only [Program.rank]
        omega
    simp only [relayTask, GrpcStream.messages, List.length_cons]
    split
    · simp only [Program.rank]
      omega
    · omega

end Tasks

namespace Source

variable [Arith F] (reader : JsonReader)

/-- The task that streams it. -/
def task : Source F → Task F
  | http coefficient stream => httpTask reader coefficient [] stream
  | external _ first rest => forwardTask first rest

/-- What the cell of its usage holds at first. -/
def initial : Source F → Option (WorkEstimate F)
  | http _ _ => none
  | external usage _ _ => usage

/-- **The whole body.** -/
def body : Source F → List Chunk
  | http _ stream => throughError stream
  | external usage first rest => (forward usage first true (takenAll rest)).1

/-- **The usage it reports** to a client that reads it to its end. -/
def reported : Source F → Option (WorkEstimate F)
  | http coefficient stream => published reader coefficient (stream.map (⟨·, true⟩))
  | external usage first rest => (forward usage first true (takenAll rest)).2

/-- **The usages an interrupted response may settle with**, of which the
client has read some chunks: of a connection none, or that of the whole
body; of an adapter the one reported by some first messages, which have all
of these chunks. -/
def MaySettle (read : List Chunk) (actual : Option (WorkEstimate F)) : Source F → Prop
  | http coefficient stream =>
    actual = none ∨ actual = published reader coefficient (stream.map (⟨·, true⟩))
  | external usage first rest =>
    ∃ n, read <+: (forward usage first true (takenAll (firstOf n rest))).1 ∧
      actual = (forward usage first true (takenAll (firstOf n rest))).2

/-- The chunks or messages it yields. -/
def length : Source F → ℕ
  | http _ stream => stream.length
  | external _ _ rest => rest.messages.length + 1

/-- Its pipe, for an admission with or without leases. -/
def pipe (source : Source F) (leased : Bool) : Pipe Chunk (Option (WorkEstimate F)) :=
  Pipe.start (source.task reader) source.initial leased

theorem task_sends (source : Source F) : (source.task reader).sends = source.body := by
  cases source with
  | http coefficient stream => exact httpTask_sends _ _
  | external usage first rest => exact (forwardTask_eq usage first rest).1

theorem task_last (source : Source F) :
    (source.task reader).last source.initial = source.reported reader := by
  cases source with
  | http coefficient stream => exact httpTask_last _ _
  | external usage first rest => exact (forwardTask_eq usage first rest).2

theorem task_rank_le (source : Source F) : (source.task reader).rank ≤ 5 * source.length + 1 := by
  cases source with
  | http coefficient stream => exact httpTask_rank_le _ _
  | external usage first rest =>
    have := relayTask_rank_le rest
    simp only [task, forwardTask, length]
    split
    · omega
    · simp only [Program.rank]
      omega

theorem maySettle_of_along {source : Source F} {read xs : List Chunk} {p : Task F}
    {actual : Option (WorkEstimate F)}
    (h : (source.task reader).Along source.initial xs p actual) (hread : read <+: xs) :
    source.MaySettle reader read actual := by
  cases source with
  | http coefficient stream => exact httpTask_along h
  | external usage first rest =>
    obtain ⟨n, hxs, hactual⟩ := forwardTask_along h
    exact ⟨n, hread.trans hxs, hactual⟩

end Source

section Responses

variable [Arith F] {reader : JsonReader} {s : Pipe Chunk (Option (WorkEstimate F))}
variable {es : List StreamEvent} {leased : Bool}

/-- **The response is delivered in order and without loss.** However the
three tasks interleave and whenever the client goes away, it has read a part
of the body from its start, and neither channel holds more than sixteen
chunks. A client that has seen the end has read the whole body, and its
admission has been completed with the usage the response reports. -/
theorem response_delivered (source : Source F)
    (hrun : Trace (StepOf Pipe.step) (source.pipe reader leased) es s) :
    s.delivered <+: source.body ∧ s.upstream.length ≤ 16 ∧ s.output.length ≤ 16 ∧
      (s.client = .ended →
        s.delivered = source.body ∧ s.relay = .finished (source.reported reader)) := by
  have h : Pipe.Wired (source.task reader) source.initial s :=
    hrun.invariant (Pipe.wired_start _ _ _) fun h hs => h.step hs
  rw [← source.task_sends reader, ← source.task_last reader]
  exact ⟨h.read, h.upstream_le, h.output_le, h.of_ended⟩

/-- The reader of a provider that reports nothing. -/
def silentReader : JsonReader := JsonReader.ofTable [] fun _ he => absurd he List.not_mem_nil

/-- A response of two chunks. -/
def twoChunks : Source ℚ := .http 1 [.ok [104], .ok [105]]

/-- It passes through, with a renewal on its way. -/
def twoChunksRead : List StreamEvent :=
  [.produce, .tick, .produce, .produce, .renewed, .renewed, .renewed, .receive, .pass, .receive,
    .read, .pass, .receive, .complete, .read, .read]

/-- The client has both. -/
theorem response_delivered_two :
    ∃ s, Trace (StepOf Pipe.step) (twoChunks.pipe silentReader true) twoChunksRead s ∧
      s.client = .ended ∧ s.delivered = [.ok [104], .ok [105]] := by
  have hrun : (twoChunksRead.foldlM Pipe.step (twoChunks.pipe silentReader true)).any
      (fun s => s.client = .ended) = true := by
    decide +kernel
  obtain ⟨s, htrace, hend⟩ := Trace.exists_of_any hrun
  have hc := of_decide_eq_true hend
  exact ⟨s, htrace, hc, ((response_delivered twoChunks htrace).2.2.2 hc).1⟩

/-- **The stream ends.** No run takes more than five steps for each chunk
and four more, and for each tick of the relay's timer another four, with the
renewals it begins. And no task is left waiting: when nothing but a tick and
the client's departure can happen, the client has seen the end or is gone,
the admission is completed and the provider's task is over. -/
theorem stream_ends (source : Source F)
    (hrun : Trace (StepOf Pipe.step) (source.pipe reader leased) es s) :
    es.length ≤ 5 * source.length + 4 + 4 * es.count .tick ∧
      ((∀ e, e ≠ .leave → e ≠ .tick → s.step e = none) →
        s.client ≠ .reading ∧ (∃ actual, s.relay = .finished actual) ∧ s.producer = .done) := by
  have h : Pipe.Wired (source.task reader) source.initial s :=
    hrun.invariant (Pipe.wired_start _ _ _) fun h hs => h.step hs
  refine ⟨?_, h.of_stuck⟩
  have hrank : es.length + s.rank ≤ (source.pipe reader leased).rank + 4 * es.count .tick := by
    refine hrun.history (P := fun es s =>
      es.length + s.rank ≤ (source.pipe reader leased).rank + 4 * es.count .tick)
      (Nat.zero_add _).le fun {es t e u} ih hs => ?_
    have hstep := Pipe.rank_step hs
    rw [List.length_append, List.length_singleton, List.count_append, List.count_singleton]
    by_cases htick : e = .tick
    · simp only [htick, if_true, beq_self_eq_true] at hstep ⊢
      omega
    · simp only [if_neg htick, beq_iff_eq] at hstep ⊢
      omega
  have hstart : (source.pipe reader leased).rank = (source.task reader).rank + 3 := rfl
  have := source.task_rank_le reader
  omega

/-- Sixteen of at most eighteen steps, and nothing is left to do. -/
theorem stream_ends_two :
    ∃ s, Trace (StepOf Pipe.step) (twoChunks.pipe silentReader true) twoChunksRead s ∧
      twoChunksRead.length ≤ 18 ∧ s.client ≠ .reading ∧ s.producer = .done := by
  have hrun : (twoChunksRead.foldlM Pipe.step (twoChunks.pipe silentReader true)).any
      (fun s => (s.step .produce).isNone && (s.step .receive).isNone &&
        (s.step .renewed).isNone && (s.step .pass).isNone && (s.step .complete).isNone &&
        (s.step .read).isNone) = true := by
    decide +kernel
  obtain ⟨s, htrace, hend⟩ := Trace.exists_of_any hrun
  simp only [Bool.and_eq_true, Option.isNone_iff_eq_none] at hend
  obtain ⟨hbound, hstuck⟩ := stream_ends twoChunks htrace
  have hfinal := hstuck fun e he htick => by
    cases e with
    | produce => exact hend.1.1.1.1.1
    | receive => exact hend.1.1.1.1.2
    | tick => exact absurd rfl htick
    | renewed => exact hend.1.1.1.2
    | pass => exact hend.1.1.2
    | complete => exact hend.1.2
    | read => exact hend.2
    | leave => exact absurd rfl he
  exact ⟨s, htrace, hbound, hfinal.1, hfinal.2.2⟩

/-- **What an interrupted response settles with.** Whenever the client goes
away and however the tasks interleave, an HTTP response is settled without a
usage or with that of its whole body, never with that of a part; and a
response of an adapter with what some first messages of it report, which
have at least the chunks that the client has read. -/
theorem settled_usage_of_part (source : Source F)
    (hrun : Trace (StepOf Pipe.step) (source.pipe reader leased) es s)
    {actual : Option (WorkEstimate F)} (hsettled : s.relay.settled = some actual) :
    source.MaySettle reader s.delivered actual := by
  have h : Pipe.Followed (source.task reader) source.initial s :=
    hrun.invariant (Pipe.followed_start _ _ _) fun h hs => h.step hs
  obtain ⟨xs, p, halong, hread⟩ := h.settled actual hsettled
  exact source.maySettle_of_along reader halong ((List.prefix_append _ _).trans hread)

/-- A message of an adapter that reports some input. -/
def reports (data : List UInt8) (input : ℕ) (last : Bool) : DispatchResponse ℚ :=
  ⟨200, [], data, last, some ⟨input, 0, 0, 1, 1, "exact_tokenizer", 1⟩⟩

/-- A response of an adapter that reports its usage as it goes. -/
def threeMessages : Source ℚ :=
  .external none ⟨200, [], [104], false, none⟩
    (.message (reports [105] 3 false) true (.message (reports [106] 7 true) true .closed))

/-- A client that goes away after the first chunk, when the second is on its
way: three tokens of seven are settled. -/
theorem settled_usage_of_part_left :
    ∃ s actual, Trace (StepOf Pipe.step) (threeMessages.pipe silentReader true)
        [.produce, .produce, .produce, .receive, .pass, .read, .receive, .leave, .pass] s ∧
      s.relay.settled = some (some actual) ∧ actual.inputTokens = 3 ∧
      s.delivered = [.ok [104]] ∧
      threeMessages.MaySettle silentReader s.delivered (some actual) := by
  have hrun : ([.produce, .produce, .produce, .receive, .pass, .read, .receive, .leave,
      .pass].foldlM Pipe.step (threeMessages.pipe silentReader true)).any
      (fun s => s.relay.settled.any (fun u => u.any fun e => e.inputTokens = 3) &&
        s.delivered = [.ok [104]]) = true := by
    decide +kernel
  obtain ⟨s, htrace, hend⟩ := Trace.exists_of_any hrun
  obtain ⟨hsettled, hread⟩ := Bool.and_eq_true_iff.mp hend
  obtain ⟨u, hu, hany⟩ := (Option.any_eq_true _ _).mp hsettled
  obtain ⟨actual, rfl, htokens⟩ := (Option.any_eq_true _ _).mp hany
  exact ⟨s, actual, htrace, hu, of_decide_eq_true htokens, of_decide_eq_true hread,
    settled_usage_of_part threeMessages htrace hu⟩

end Responses

end Proxy

end InferQos
