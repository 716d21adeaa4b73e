import InferQos.Core
import InferQos.Common.OrdMap
import InferQos.Common.MaxBy
import Mathlib.Data.Prod.Lex
/-!
# The scheduler

Requests wait in one FIFO queue per `(class, tenant, application)`, and
`popNext` serves the front with the greatest score. `enqueue`, `cancel`
and `popNext` are the three lock sections of the component: each takes the
state the mutex guards and returns the result with the state it leaves.
The two `expect`s of `popNext` are errors that carry their message, and
`usize` counters wrap as they do in a release build.
-/

namespace InferQos

namespace Scheduler

variable {F : Type} [Arith F]

open Arith

/-- `SchedulerConfig`. Both bounds are `usize`s; the two windows are
durations in nanoseconds. -/
structure Config (F : Type) where
  maxDepth : ℕ
  maxBytes : ℕ
  agingHalfLife : ℕ
  deadlineWindow : ℕ
  quantum : F
  maxDepth_le : maxDepth ≤ u64Max
  maxBytes_le : maxBytes ≤ u64Max

/-- `QueueKey`, ordered as the fields are declared. -/
structure QueueKey where
  cls : ServiceClass
  tenant : String
  app : String
  deriving DecidableEq, Repr

/-- The fields as a lexicographic triple. -/
def QueueKey.triple (k : QueueKey) : ServiceClass ×ₗ String ×ₗ String :=
  toLex (k.cls, toLex (k.tenant, k.app))

theorem QueueKey.triple_injective : Function.Injective QueueKey.triple := by
  rintro ⟨c, t, a⟩ ⟨c', t', a'⟩ h
  have h1 := congrArg ofLex h
  simp only [QueueKey.triple, ofLex_toLex, Prod.mk.injEq] at h1
  have h2 := congrArg ofLex h1.2
  simp only [ofLex_toLex, Prod.mk.injEq] at h2
  rw [h1.1, h2.1, h2.2]

instance : LinearOrder QueueKey := LinearOrder.lift' QueueKey.triple QueueKey.triple_injective

/-- The queue a request belongs to. -/
def queueKey (request : AdmissionRequest F) : QueueKey :=
  ⟨request.effectiveClass, request.identity.tenant, request.identity.application⟩

/-- One waiting request. -/
structure Queued (F : Type) where
  request : AdmissionRequest F
  enqueuedNs : ℕ
  deadlineNs : ℕ
  bodyBytes : ℕ
  sequence : ℕ

/-- One queue, with the service it has been charged. -/
structure QueueState (F : Type) where
  items : List (Queued F)
  served : F
  weight : F

/-- The state the mutex guards. -/
structure Inner (F : Type) where
  queues : OrdMap QueueKey (QueueState F)
  index : OrdMap Uuid QueueKey
  depth : ℕ
  bytes : ℕ
  sequence : ℕ

/-- What a refused `enqueue` answers. -/
inductive Error
  | depthLimit
  | byteLimit
  | duplicate (id : Uuid)
  deriving DecidableEq, Repr

/-- `Scheduler::new`. -/
def init : Inner F where
  queues := ∅
  index := ∅
  depth := 0
  bytes := 0
  sequence := 0

/-- The product of the hierarchy weights, each at least one. -/
def hierarchyWeight (classWeight tenantWeight appWeight : ℕ) : F :=
  lit (max classWeight 1 : ℕ) * lit (max tenantWeight 1 : ℕ) * lit (max appWeight 1 : ℕ)

/-- The item an `enqueue` at `now` appends. -/
def newItem (now : ℕ) (s : Inner F) (request : AdmissionRequest F) (bodyBytes : ℕ) : Queued F where
  request := request
  enqueuedNs := now
  deadlineNs := saturatingAdd now (min request.deadline u64Max)
  bodyBytes := bodyBytes
  sequence := wrappingAdd s.sequence 1

/-- `Scheduler::enqueue`, at the clock reading `now`. -/
def enqueue (cfg : Config F) (now : ℕ) (s : Inner F) (request : AdmissionRequest F)
    (bodyBytes classWeight tenantWeight appWeight : ℕ) : Except Error ℕ × Inner F :=
  if cfg.maxDepth ≤ s.depth then (.error .depthLimit, s)
  else if cfg.maxBytes < saturatingAdd s.bytes bodyBytes then (.error .byteLimit, s)
  else if (s.index.get? request.id).isSome then (.error (.duplicate request.id), s)
  else
    let key := queueKey request
    let queue := (s.queues.get? key).getD
      ⟨[], lit 0, hierarchyWeight classWeight tenantWeight appWeight⟩
    let item := newItem now s request bodyBytes
    let depth := wrappingAdd s.depth 1
    (.ok depth,
      { queues := s.queues.insert key { queue with items := queue.items ++ [item] }
        index := s.index.insert request.id key
        depth
        bytes := wrappingAdd s.bytes bodyBytes
        sequence := item.sequence })

/-- Remove a queue that has become empty. -/
def dropEmpty (queues : OrdMap QueueKey (QueueState F)) (key : QueueKey) :
    OrdMap QueueKey (QueueState F) :=
  if (queues.get? key).any (·.items.isEmpty) then queues.erase key else queues

/-- `Scheduler::cancel`. The item is removed at the first position that
carries the id. -/
def cancel (s : Inner F) (id : Uuid) : Bool × Inner F :=
  match s.index.get? id with
  | none => (false, s)
  | some key =>
    let removed := (s.queues.get? key).bind fun q => q.items.find? (·.request.id = id)
    let queues := match s.queues.get? key with
      | none => s.queues
      | some q => s.queues.insert key { q with items := q.items.eraseP (·.request.id = id) }
    (removed.isSome,
      { s with
        queues := dropEmpty queues key
        index := s.index.erase id
        depth := match removed with
          | none => s.depth
          | some _ => wrappingSub s.depth 1
        bytes := match removed with
          | none => s.bytes
          | some item => wrappingSub s.bytes item.bodyBytes })

/-- The boost of a front as its deadline nears, bounded until it passes. -/
def deadlineBoost (cfg : Config F) (now : ℕ) (front : Queued F) : F :=
  if front.deadlineNs ≤ now then lit 1000000
  else
    let remaining : F := lit (front.deadlineNs - now : ℕ)
    min (lit (max cfg.deadlineWindow 1 : ℕ) / max remaining (lit 1)) (lit 100000)

/-- The age of a front, in aging half-lives. -/
def ageBoost (cfg : Config F) (now : ℕ) (front : Queued F) : F :=
  lit (now - front.enqueuedNs : ℕ) / lit (max cfg.agingHalfLife 1 : ℕ)

/-- The service credit of a queue. -/
def fair (cfg : Config F) (q : QueueState F) : F :=
  (q.weight * cfg.quantum) / (q.served + cfg.quantum)

/-- The score `popNext` maximises. -/
def score (cfg : Config F) (now : ℕ) (q : QueueState F) (front : Queued F) : F :=
  fair cfg q + ageBoost cfg now front + deadlineBoost cfg now front

/-- The queues with a front, their score and the front's sequence number. -/
def candidates (cfg : Config F) (now : ℕ) (s : Inner F) : List (QueueKey × F × ℕ) :=
  s.queues.entries.filterMap fun e =>
    e.2.items.head?.map fun front => (e.1, score cfg now e.2 front, front.sequence)

/-- By score, then by the earlier sequence number. -/
def compareCandidates (a b : QueueKey × F × ℕ) : Ordering :=
  (totalCmp a.2.1 b.2.1).then (compare b.2.2 a.2.2)

/-- The queue `popNext` serves. -/
def select (cfg : Config F) (now : ℕ) (s : Inner F) : Option QueueKey :=
  (maxBy compareCandidates (candidates cfg now s)).map (·.1)

/-- Subtract the least charge from every queue once it has grown large. -/
def renormalise (cfg : Config F) (queues : OrdMap QueueKey (QueueState F)) :
    OrdMap QueueKey (QueueState F) :=
  match finiteMin (queues.values.map (·.served)) with
  | none => queues
  | some minServed =>
    if cfg.quantum * lit 1000 < minServed then
      queues.mapVal fun q => { q with served := q.served - minServed }
    else queues

/-- `Scheduler::pop_next`, at the clock reading `now`. -/
def popNext (cfg : Config F) (now : ℕ) (s : Inner F) :
    Except String (Option (AdmissionRequest F)) × Inner F :=
  match select cfg now s with
  | none => (.ok none, s)
  | some selected =>
    match s.queues.get? selected with
    | none => (.error "selected queue exists", s)
    | some queue =>
      match queue.items with
      | [] => (.error "selected queue is nonempty", s)
      | item :: rest =>
        let served := queue.served +
          max item.request.estimate.normalizedUnits (lit 1) / max queue.weight (lit 1)
        let queues := renormalise cfg (s.queues.insert selected { queue with items := rest, served })
        (.ok (some item.request),
          { s with
            queues := dropEmpty queues selected
            index := s.index.erase item.request.id
            depth := wrappingSub s.depth 1
            bytes := wrappingSub s.bytes item.bodyBytes })

/-- One call of the component. -/
inductive Op (F : Type)
  | enqueue (request : AdmissionRequest F) (bodyBytes classWeight tenantWeight appWeight : ℕ)
  | cancel (id : Uuid)
  | popNext

/-- What a call returned. -/
inductive Output (F : Type)
  | enqueued (result : Except Error ℕ)
  | cancelled (removed : Bool)
  | popped (result : Except String (Option (AdmissionRequest F)))

/-- A call with the clock reading it sees. -/
structure Call (F : Type) where
  now : ℕ
  op : Op F

/-- The result of a call, with the state it leaves. -/
def apply (cfg : Config F) (s : Inner F) (c : Call F) : Output F × Inner F :=
  match c.op with
  | .enqueue request bodyBytes classWeight tenantWeight appWeight =>
    let r := enqueue cfg c.now s request bodyBytes classWeight tenantWeight appWeight
    (.enqueued r.1, r.2)
  | .cancel id => let r := cancel s id; (.cancelled r.1, r.2)
  | .popNext => let r := popNext cfg c.now s; (.popped r.1, r.2)

/-- The state after a sequence of calls on a new scheduler. -/
def exec (cfg : Config F) (calls : List (Call F)) : Inner F :=
  calls.foldl (fun s c => (apply cfg s c).2) init

theorem exec_snoc (cfg : Config F) (calls : List (Call F)) (c : Call F) :
    exec cfg (calls ++ [c]) = (apply cfg (exec cfg calls) c).2 := by
  simp [exec]

end Scheduler

end InferQos
