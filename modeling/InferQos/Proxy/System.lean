import InferQos.Capacity.Model
import InferQos.Proxy.Handler
import InferQos.Proxy.Reserve
/-!
# The running proxy

`AppState` with every task that works on it: the handlers, each of which
becomes a streaming task once its response arrives, the dispatcher, and the
tasks a dropped guard spawns. A step is one lock section, one counter or
one coordinator call of one task; tasks interleave between steps, the clock
advances between them, and a handler can be dropped where it awaits.

A task's `move` says, for the position it is at, which lock section comes
next (`Effect`) and where the task goes. Two lists that no step reads
record the claims taken on the local bookkeeping and those given back.
-/

namespace InferQos

namespace Proxy

/-! ## The shared state -/

/-- `PoolRuntime`, without its provider. -/
structure PoolRuntime (F : Type) where
  capacity : CapacityModel F
  limit : F

/-- `Pending`. The sender of the oneshot channel is the number of the
handler that waits at the other end. -/
structure Pending (F : Type) where
  waiter : ℕ
  request : AdmissionRequest F
  bodyBytes : ℕ
  classWeight : ℕ
  tenantWeight : ℕ
  appWeight : ℕ
  queuedAt : ℕ

/-- The counters that only grow. -/
inductive Counter
  | requests
  | admitted
  | queued
  | rejected
  | shadowWouldQueue
  | providerThrottles
  deriving DecidableEq

/-- `Metrics`. -/
structure Metrics where
  requests : ℕ
  admitted : ℕ
  queued : ℕ
  rejected : ℕ
  shadowWouldQueue : ℕ
  providerThrottles : ℕ
  active : ℕ

/-- `fetch_add(1)`. -/
def Metrics.bump (m : Metrics) : Counter → Metrics
  | .requests => { m with requests := wrappingAdd m.requests 1 }
  | .admitted => { m with admitted := wrappingAdd m.admitted 1 }
  | .queued => { m with queued := wrappingAdd m.queued 1 }
  | .rejected => { m with rejected := wrappingAdd m.rejected 1 }
  | .shadowWouldQueue => { m with shadowWouldQueue := wrappingAdd m.shadowWouldQueue 1 }
  | .providerThrottles => { m with providerThrottles := wrappingAdd m.providerThrottles 1 }

/-- `active.fetch_add(1)`. -/
def Metrics.activate (m : Metrics) : Metrics := { m with active := wrappingAdd m.active 1 }

/-- `active.fetch_sub(1)`. -/
def Metrics.deactivate (m : Metrics) : Metrics := { m with active := wrappingSub m.active 1 }

/-- What admission takes from the local bookkeeping and has to give back. -/
inductive Claim
  /-- One entry of an identity into the concurrency counters. -/
  | slot (identity : IdentityContext)
  /-- One id in the reservations of a pool. -/
  | reservation (pool : String) (id : Uuid)
  /-- One unit of `metrics.active`. -/
  | active
  deriving DecidableEq

namespace AdmissionLeases

variable {F : Type} (l : AdmissionLeases F)

/-- The order `release_distributed` releases in. -/
def releaseOrder : List (Lease F) := [l.capacity, l.applicationSlot, l.tenantSlot]

/-- The order a streaming task renews in. -/
def renewOrder : List (Lease F) := [l.capacity, l.tenantSlot, l.applicationSlot]

end AdmissionLeases

/-! ## Positions -/

/-- Where the loop of a streaming task stands. -/
inductive Stage (F : Type)
  /-- In `select!`. -/
  | select
  /-- In `output_tx.send`, for as long as the client does not read. -/
  | sending
  /-- Renewing, with these leases still to go. -/
  | renewing (rest : List (Lease F))

/-- **Where a handler stands**, and after the response the task that streams
it. The lock section or call named is the next one. -/
inductive Phase (F : Type)
  /-- `config.read().await`. -/
  | starting
  /-- The body, the identity, the estimate and the spool. -/
  | loaded (config : Config F)
  /-- `charged_units`. -/
  | charging (job : Job F)
  /-- `try_enter`. -/
  | entering (job : Job F) (charged : F)
  /-- Inside `reserve_distributed`. -/
  | reserving (job : Job F) (charged : F) (at_ : ReservePhase F)
  /-- `track_distributed`. -/
  | tracking (job : Job F) (charged : F) (leases : AdmissionLeases F)
  /-- `leave`, the reservation having been refused or having failed. -/
  | leaving (job : Job F) (error : Option CoordinatorError)
  /-- No reservation: shadow mode, a rejection or `enqueue`. -/
  | refused (job : Job F)
  /-- Queued, and not in `pending` yet. -/
  | enqueued (job : Job F)
  /-- `timeout(deadline, rx).await`, with what the channel holds. -/
  | waiting (job : Job F) (since : ℕ) (value : Option (AdmissionLeases F))
  /-- The timeout has elapsed and the receiver is not dropped yet. -/
  | expired (job : Job F) (value : Option (AdmissionLeases F))
  /-- `scheduler.cancel`. -/
  | cancelling (job : Job F)
  /-- `pending.remove`. -/
  | unlisting (job : Job F)
  /-- `reject_and_record`. -/
  | rejecting (job : Job F) (reason : Reason)
  /-- Admitted: the guard is built next. -/
  | admitted (job : Job F) (leases : Option (AdmissionLeases F))
  /-- `stored_body.load().await`. -/
  | loading (job : Job F) (leases : Option (AdmissionLeases F))
  /-- `provider.dispatch(..).await`. -/
  | dispatching (job : Job F) (leases : Option (AdmissionLeases F))
  /-- The streaming task, spawned and not polled yet. -/
  | opening (job : Job F) (leases : Option (AdmissionLeases F)) (throttled : Bool)
  /-- The loop of the streaming task; the next renewal is due at `due`. -/
  | streaming (job : Job F) (leases : Option (AdmissionLeases F)) (throttled : Bool) (due : ℕ)
    (stage : Stage F)
  /-- `complete`: `release_distributed` with these leases to go, then
  `CapacityModel::release`. -/
  | completing (job : Job F) (leases : AdmissionLeases F) (rest : List (Lease F))
    (actual : Option F) (throttled : Bool)
  /-- `Drop` of the guard: `CapacityModel::release`. -/
  | closing (job : Job F) (leases : Option (AdmissionLeases F)) (response : Response)
  /-- `Drop` of the guard: the release task is spawned. -/
  | spawning (job : Job F) (leases : AdmissionLeases F) (response : Response)
  /-- `release_local`: `leave`. -/
  | departing (job : Job F) (response : Response)
  /-- `release_local`: `active.fetch_sub(1)`. -/
  | uncounting (response : Response)
  | done (response : Response)

/-- **Where the dispatcher stands.** `req` is the popped request and `p` the
entry found for its id. -/
inductive DispatchPhase (F : Type)
  /-- `tick.tick().await`, then the check for the end of the drain. -/
  | idle
  /-- `pop_next`. -/
  | ticked
  /-- `pending.remove`. -/
  | popped (req : AdmissionRequest F)
  /-- The lookup of the pool, and `config.read().await`. -/
  | holding (req : AdmissionRequest F) (p : Pending F)
  /-- `try_enter`. -/
  | entering (req : AdmissionRequest F) (p : Pending F) (config : Config F)
  /-- `charged_units`. -/
  | charging (req : AdmissionRequest F) (p : Pending F) (config : Config F)
  /-- Inside `reserve_distributed`. -/
  | reserving (req : AdmissionRequest F) (p : Pending F) (config : Config F) (charged : F)
    (at_ : ReservePhase F)
  /-- `track_distributed`. -/
  | tracking (req : AdmissionRequest F) (p : Pending F) (charged : F) (leases : AdmissionLeases F)
  /-- `sender.send`. -/
  | sending (req : AdmissionRequest F) (p : Pending F) (leases : AdmissionLeases F)
  /-- The receiver is gone: `release_distributed` with these leases to go,
  then `CapacityModel::release`. -/
  | unsent (req : AdmissionRequest F) (leases : AdmissionLeases F) (rest : List (Lease F))
  /-- `leave`, and the retry that follows it if the entry is still held. -/
  | leaving (req : AdmissionRequest F) (p : Option (Pending F))
  /-- The check of the deadline. -/
  | retry (req : AdmissionRequest F) (p : Pending F)
  /-- `enqueue`, its result discarded. -/
  | requeueing (req : AdmissionRequest F) (p : Pending F)
  /-- `pending.insert`. -/
  | reinserting (req : AdmissionRequest F) (p : Pending F)
  /-- The loop was left. -/
  | exited

/-- The request and the entry the dispatcher carries. -/
def DispatchPhase.pair? {F : Type} : DispatchPhase F → Option (AdmissionRequest F × Pending F)
  | holding req p => some (req, p)
  | entering req p _ => some (req, p)
  | charging req p _ => some (req, p)
  | reserving req p _ _ _ => some (req, p)
  | tracking req p _ _ => some (req, p)
  | sending req p _ => some (req, p)
  | leaving req p => p.map (req, ·)
  | retry req p => some (req, p)
  | requeueing req p => some (req, p)
  | reinserting req p => some (req, p)
  | _ => none

/-- **The whole state**: `Inner`, the clock, the ids given out, the tasks
and the record of claims. -/
structure System (F σ : Type) where
  now : ℕ
  config : Config F
  pools : OrdMap String (PoolRuntime F)
  scheduler : Scheduler.Inner F
  pending : OrdMap Uuid (Pending F)
  draining : Bool
  metrics : Metrics
  coordinator : σ
  concurrency : ConcurrencyState
  nextId : Uuid
  handlers : OrdMap ℕ (Phase F)
  releases : OrdMap ℕ (List (Lease F))
  nextTask : ℕ
  dispatcher : DispatchPhase F
  taken : List Claim
  returned : List Claim

/-- What is fixed when the state is built. -/
structure Params (F σ : Type) where
  coordinator : Coordinator F σ
  scheduler : Scheduler.Config F
  leaseTtl : ℕ

variable {F σ : Type} [Arith F]

/-- `SchedulerConfig` with the bounds of the configuration and the defaults
for the rest. -/
def schedulerConfig (limits : Limits) : Scheduler.Config F where
  maxDepth := limits.totalQueueDepth
  maxBytes := limits.totalQueueBytes
  agingHalfLife := 2000000000
  deadlineWindow := 1000000000
  quantum := Arith.lit 1000
  maxDepth_le := limits.totalQueueDepth_le
  maxBytes_le := limits.totalQueueBytes_le

/-- The parameters `AppState::build` chooses for an in-memory coordinator,
whose leases last for five minutes. -/
def Params.inMemory (config : Config F) : Params F (InMemoryCoordinator.LeaseState F) where
  coordinator := InMemoryCoordinator.coordinator
  scheduler := schedulerConfig config.limits
  leaseTtl := 300000000000

/-- **`AppState::build`**, over the coordinator's state. -/
def System.build (config : Config F) (coordinator : σ) : System F σ where
  now := 0
  config := config
  pools := config.pools.mapVal fun pool =>
    ⟨.new pool.capacityUnits pool.initialSafetyFactor, pool.capacityUnits⟩
  scheduler := Scheduler.init
  pending := ∅
  draining := false
  metrics := ⟨0, 0, 0, 0, 0, 0, 0⟩
  coordinator := coordinator
  concurrency := ⟨∅, ∅⟩
  nextId := 0
  handlers := ∅
  releases := ∅
  nextTask := 0
  dispatcher := .idle
  taken := []
  returned := []

/-! ## Lock sections -/

/-- **What one step does to the shared state.** -/
inductive Effect (F σ : Type)
  /-- Nothing. -/
  | silent
  /-- `force_enter`, or a `try_enter` that succeeds. -/
  | enter (identity : IdentityContext)
  | leave (identity : IdentityContext)
  /-- `track_distributed`. -/
  | track (pool : String) (id : Uuid) (units : F)
  /-- `CapacityModel::release`. -/
  | settle (pool : String) (id : Uuid) (predicted : F) (actual : Option F) (throttled : Bool)
  /-- A call that leaves the coordinator in this state. -/
  | call (coordinator : σ)
  | schedule (op : Scheduler.Op F)
  /-- `pending.insert`. -/
  | list (id : Uuid) (p : Pending F)
  /-- `pending.remove`. -/
  | unlist (id : Uuid)
  /-- `active.fetch_add(1)`. -/
  | activate
  /-- `active.fetch_sub(1)`. -/
  | deactivate
  /-- `tokio::spawn` of `release_distributed`. -/
  | spawn (leases : AdmissionLeases F)
  /-- A send that reaches the receiver, whose position becomes `phase`. -/
  | deliver (waiter : ℕ) (phase : Phase F)

/-- One step of a task: where it goes, what it does, what it counts. -/
structure Move (F σ α : Type) where
  next : α
  effect : Effect F σ := .silent
  counter : Option Counter := none

namespace System

variable (s : System F σ)

/-- What a coordinator call finds around it. -/
def ambient : Ambient := ⟨s.now, s.nextId⟩

/-- The tenants of the pending requests. -/
def pendingTenants : List String := s.pending.values.map (·.request.identity.tenant)

/-- Whether an id is reserved in a pool. -/
def reserves (pool : String) (id : Uuid) : Bool :=
  (s.pools.get? pool).any fun rt => (rt.capacity.reservations.get? id).isSome

/-- The capacity model of a pool, changed. -/
def onPool (pool : String) (f : CapacityModel F → CapacityModel F) :
    OrdMap String (PoolRuntime F) :=
  match s.pools.get? pool with
  | none => s.pools
  | some rt => s.pools.insert pool { rt with capacity := f rt.capacity }

/-- One more on a counter. -/
def bump (c : Option Counter) : System F σ :=
  { s with metrics := c.elim s.metrics s.metrics.bump }

/-- A handler's new position. -/
def goto (n : ℕ) (phase : Phase F) : System F σ :=
  { s with handlers := s.handlers.insert n phase }

/-- The attempt of `reserve_distributed` for a request, its pool looked up. -/
def attempt (P : Params F σ) (request : AdmissionRequest F) (config : Config F) (charged : F) :
    Option (Attempt F) :=
  (s.pools.get? request.pool).map fun rt => ⟨request, config, rt.limit, charged, P.leaseTtl⟩

/-- The sender of a handler's channel exists: in `pending`, or with the
dispatcher. -/
def senderAlive (n : ℕ) : Bool :=
  s.pending.values.any (·.waiter = n) || s.dispatcher.pair?.any (·.2.waiter = n)

end System

/-- **The effect of a step**, with the record of the claims it takes and
gives back. A release that does not find its id gives nothing back. -/
def Effect.apply (P : Params F σ) (s : System F σ) : Effect F σ → System F σ
  | silent => s
  | enter identity =>
    { s with
      concurrency := forceEnter s.concurrency identity
      taken := .slot identity :: s.taken }
  | leave identity =>
    { s with
      concurrency := Proxy.leave s.concurrency identity
      returned := .slot identity :: s.returned }
  | track pool id units =>
    { s with
      pools := s.onPool pool (·.trackDistributed id units)
      taken := .reservation pool id :: s.taken }
  | settle pool id predicted actual throttled =>
    { s with
      pools := s.onPool pool fun m => (m.release id predicted actual throttled).2
      returned := if s.reserves pool id then .reservation pool id :: s.returned else s.returned }
  | call coordinator => { s with coordinator := coordinator, nextId := s.nextId + 1 }
  | schedule op =>
    { s with scheduler := (Scheduler.apply P.scheduler s.scheduler ⟨s.now, op⟩).2 }
  | list id p => { s with pending := s.pending.insert id p }
  | unlist id => { s with pending := s.pending.erase id }
  | activate =>
    { s with
      metrics := s.metrics.activate
      taken := .active :: s.taken }
  | deactivate =>
    { s with
      metrics := s.metrics.deactivate
      returned := .active :: s.returned }
  | spawn leases =>
    { s with
      releases := s.releases.insert s.nextTask leases.releaseOrder
      nextTask := s.nextTask + 1 }
  | deliver waiter phase => s.goto waiter phase

/-! ## The handler -/

/-- What the world decides for a handler at its next step. -/
inductive Choice (F : Type)
  /-- Go on. -/
  | next
  /-- The call fails. -/
  | fail
  /-- The client is gone and the future is dropped. -/
  | drop
  /-- The timeout elapses. -/
  | expire
  /-- The request is read, resolved, estimated and stored. -/
  | arrive (arrival : Arrival F)
  /-- The provider responds. -/
  | respond (throttled : Bool)
  /-- The provider sends a chunk. -/
  | chunk
  /-- The stream ends, or the client stops reading. -/
  | finish (actual : Option (WorkEstimate F))

/-- The step is a coordinator call, and so an await point. -/
def ReservePhase.awaits : ReservePhase F → Bool
  | limit .. => false
  | finished _ => false
  | _ => true

/-- What the channel of a handler makes of a value sent: `none` once the
receiver is dropped. -/
def Phase.receive (leases : AdmissionLeases F) : Phase F → Option (Phase F)
  | waiting job since none => some (waiting job since (some leases))
  | expired job none => some (expired job (some leases))
  | _ => none

namespace Phase

/-- Where the answer of `reserve_distributed` takes a handler. -/
def afterReserve (job : Job F) (charged : F) : ReservePhase F → Phase F
  | .finished (.ok (some leases)) => tracking job charged leases
  | .finished (.ok none) => leaving job none
  | .finished (.error e) => leaving job (some e)
  | at_ => reserving job charged at_

/-- Where a handler goes without its reservation: an error is answered. -/
def afterLeave (job : Job F) : Option CoordinatorError → Phase F
  | none => refused job
  | some e => done (.coordinatorUnavailable e)

/-- Where a new handler starts: a draining proxy answers at once. -/
def first : Bool → Phase F
  | true => done .draining
  | false => starting

/-- The renewal period: a third of the lease, and at least a second. -/
def renewPeriod (leaseTtl : ℕ) : ℕ := max (leaseTtl / 3) 1000000000

/-- The entry a handler lists. -/
def entry (n now : ℕ) (job : Job F) : Pending F where
  waiter := n
  request := job.request
  bodyBytes := job.bodyBytes
  classWeight := job.classWeight
  tenantWeight := job.tenantWeight
  appWeight := job.appWeight
  queuedAt := now

/-- **One step of handler `n`**: `none` where the choice makes no sense. -/
def move (P : Params F σ) (s : System F σ) (n : ℕ) :
    Phase F → Choice F → Option (Move F σ (Phase F))
  | starting, .next => some { next := loaded s.config }
  | starting, .drop => some { next := done .dropped }
  | loaded _, .drop => some { next := done .dropped }
  | loaded _, .fail => some { next := done .unprepared }
  | loaded config, .arrive arrival =>
    match prepare config s.pools.keys arrival with
    | .error response => some { next := done response }
    | .ok job => some { next := charging job }
  | charging job, .next =>
    match s.pools.get? job.request.pool with
    | none => none
    | some rt =>
      some
        { next := entering job
            (rt.capacity.chargedUnits job.request.estimate.normalizedUnits) }
  | entering job charged, .next =>
    match tryEnter job.config s.concurrency job.request.identity with
    | none => some { next := refused job }
    | some _ =>
      some { next := reserving job charged .tenant, effect := .enter job.request.identity }
  | reserving job charged at_, .next =>
    match s.attempt P job.request job.config charged with
    | none => none
    | some a =>
      let r := at_.step P.coordinator a s.ambient s.pendingTenants s.coordinator
      some { next := afterReserve job charged r.1, effect := .call r.2 }
  -- nothing releases what the reservation holds here
  | reserving _ _ at_, .drop => if at_.awaits then some { next := done .dropped } else none
  | tracking job charged leases, .next =>
    match s.pools.get? job.request.pool with
    | none => none
    | some _ =>
      some
        { next := admitted job (some leases)
          effect := .track job.request.pool leases.capacity.id charged }
  | leaving job error, .next =>
    some { next := afterLeave job error, effect := .leave job.request.identity }
  | refused job, .next =>
    if job.config.mode = .shadow then
      some
        { next := admitted job none
          effect := .enter job.request.identity
          counter := some .shadowWouldQueue }
    else if !job.request.queueable then some { next := rejecting job .notQueueable }
    else
      match (Scheduler.enqueue P.scheduler s.now s.scheduler job.request job.bodyBytes
          job.classWeight job.tenantWeight job.appWeight).1 with
      | .error e => some { next := rejecting job (.scheduler e) }
      | .ok _ =>
        some
          { next := enqueued job
            effect := .schedule (.enqueue job.request job.bodyBytes job.classWeight
              job.tenantWeight job.appWeight) }
  | enqueued job, .next =>
    some
      { next := waiting job s.now none
        effect := .list job.request.id (entry n s.now job)
        counter := some .queued }
  | waiting job _ (some leases), .next => some { next := admitted job (some leases) }
  | waiting job _ none, .next =>
    -- the sender was dropped
    if s.senderAlive n then none else some { next := cancelling job }
  -- `timeout` polls the receiver before its deadline: a value sent in time wins
  | waiting job since none, .expire =>
    if since + job.request.deadline ≤ s.now then some { next := expired job none } else none
  | waiting _ _ _, .drop => some { next := done .dropped }
  -- a value sent after the deadline goes with the receiver
  | expired job _, .next => some { next := cancelling job }
  | cancelling job, .next =>
    some { next := unlisting job, effect := .schedule (.cancel job.request.id) }
  | unlisting job, .next =>
    some { next := rejecting job .deadline, effect := .unlist job.request.id }
  | rejecting _ reason, .next =>
    some { next := done (.qosRejected reason), counter := some .rejected }
  | admitted job leases, .next =>
    some { next := loading job leases, effect := .activate, counter := some .admitted }
  | loading job leases, .next => some { next := dispatching job leases }
  | loading job leases, .fail => some { next := closing job leases .spoolReadFailed }
  | loading job leases, .drop => some { next := closing job leases .dropped }
  | dispatching job leases, .respond throttled =>
    some
      { next := opening job leases throttled
        counter := if throttled then some .providerThrottles else none }
  | dispatching job leases, .fail => some { next := closing job leases .upstreamError }
  | dispatching job leases, .drop => some { next := closing job leases .dropped }
  -- the first tick of `interval` is due at once
  | opening job leases throttled, .next =>
    some { next := streaming job leases throttled s.now .select }
  | streaming job leases throttled due .select, .chunk =>
    some { next := streaming job leases throttled due .sending }
  | streaming job leases throttled due .sending, .next =>
    some { next := streaming job leases throttled due .select }
  | streaming job (some leases) throttled due .select, .next =>
    if due ≤ s.now then
      some
        { next := streaming job (some leases) throttled (due + renewPeriod P.leaseTtl)
            (.renewing leases.renewOrder) }
    else none
  | streaming job leases throttled due (.renewing []), .next =>
    some { next := streaming job leases throttled due .select }
  | streaming job leases throttled due (.renewing (lease :: rest)), .next =>
    some
      { next := streaming job leases throttled due (.renewing rest)
        effect := .call (P.coordinator.renew s.ambient s.coordinator lease P.leaseTtl).2 }
  -- a renewal under way is not cut short
  | streaming _ _ _ _ (.renewing _), .finish _ => none
  | streaming job (some leases) throttled _ _, .finish actual =>
    some
      { next := completing job leases leases.releaseOrder (actual.map (·.normalizedUnits))
          throttled }
  | streaming job none _ _ _, .finish _ => some { next := departing job .forwarded }
  | completing job leases (lease :: rest) actual throttled, .next =>
    some
      { next := completing job leases rest actual throttled
        effect := .call (P.coordinator.release s.ambient s.coordinator lease).2 }
  | completing job leases [] actual throttled, .next =>
    some
      { next := departing job .forwarded
        effect := .settle job.request.pool leases.capacity.id
          job.request.estimate.normalizedUnits actual throttled }
  | closing job none response, .next => some { next := departing job response }
  | closing job (some leases) response, .next =>
    some
      { next := spawning job leases response
        effect := .settle job.request.pool leases.capacity.id
          job.request.estimate.normalizedUnits none false }
  | spawning job leases response, .next =>
    some { next := departing job response, effect := .spawn leases }
  | departing job response, .next =>
    some { next := uncounting response, effect := .leave job.request.identity }
  | uncounting response, .next => some { next := done response, effect := .deactivate }
  | _, _ => none

end Phase

/-! ## The dispatcher -/

namespace DispatchPhase

/-- Where the answer of `reserve_distributed` takes the dispatcher. -/
def afterReserve (req : AdmissionRequest F) (p : Pending F) (config : Config F) (charged : F) :
    ReservePhase F → DispatchPhase F
  | .finished (.ok (some leases)) => tracking req p charged leases
  | .finished _ => leaving req (some p)
  | at_ => reserving req p config charged at_

/-- Where the answer of `pop_next` takes the dispatcher; a panic ends its
task. -/
def afterPop : Except String (Option (AdmissionRequest F)) → DispatchPhase F
  | .ok (some req) => popped req
  | .ok none => idle
  | .error _ => exited

/-- Where the dispatcher goes without a reservation, or without a receiver. -/
def afterLeave (req : AdmissionRequest F) : Option (Pending F) → DispatchPhase F
  | none => idle
  | some p => retry req p

/-- **One step of the dispatcher.** -/
def move (P : Params F σ) (s : System F σ) : DispatchPhase F → Option (Move F σ (DispatchPhase F))
  | idle =>
    if s.draining && s.pending.entries.isEmpty then some { next := exited }
    else some { next := ticked }
  | ticked =>
    some
      { next := afterPop (Scheduler.popNext P.scheduler s.now s.scheduler).1
        effect := .schedule .popNext }
  | popped req =>
    match s.pending.get? req.id with
    -- nobody is listed for it, and the request is gone
    | none => some { next := idle }
    | some p => some { next := holding req p, effect := .unlist req.id }
  | holding req p =>
    match s.pools.get? req.pool with
    | none => some { next := idle }
    | some _ => some { next := entering req p s.config }
  | entering req p config =>
    match tryEnter config s.concurrency req.identity with
    | none => some { next := retry req p }
    | some _ => some { next := charging req p config, effect := .enter req.identity }
  | charging req p config =>
    match s.pools.get? req.pool with
    | none => none
    | some rt =>
      some
        { next := reserving req p config
            (rt.capacity.chargedUnits req.estimate.normalizedUnits) .tenant }
  | reserving req p config charged at_ =>
    match s.attempt P req config charged with
    | none => none
    | some a =>
      let r := at_.step P.coordinator a s.ambient s.pendingTenants s.coordinator
      some { next := afterReserve req p config charged r.1, effect := .call r.2 }
  | tracking req p charged leases =>
    match s.pools.get? req.pool with
    | none => none
    | some _ =>
      some
        { next := sending req p leases
          effect := .track req.pool leases.capacity.id charged }
  | sending req p leases =>
    match (s.handlers.get? p.waiter).bind (Phase.receive leases) with
    | some phase => some { next := idle, effect := .deliver p.waiter phase }
    | none => some { next := unsent req leases leases.releaseOrder }
  | unsent req leases (lease :: rest) =>
    some
      { next := unsent req leases rest
        effect := .call (P.coordinator.release s.ambient s.coordinator lease).2 }
  | unsent req leases [] =>
    some
      { next := leaving req none
        effect := .settle req.pool leases.capacity.id req.estimate.normalizedUnits none false }
  | leaving req p => some { next := afterLeave req p, effect := .leave req.identity }
  | retry req p =>
    -- past its deadline the entry is dropped, and its sender with it
    if p.request.deadline ≤ s.now - p.queuedAt then
      some { next := idle, counter := some .rejected }
    else some { next := requeueing req p }
  | requeueing req p =>
    some
      { next := reinserting req p
        effect := .schedule (.enqueue p.request p.bodyBytes p.classWeight p.tenantWeight
          p.appWeight) }
  | reinserting req p => some { next := idle, effect := .list req.id p }
  | exited => none

end DispatchPhase

/-! ## Steps of the system -/

/-- Which task moves, or what happens around them. -/
inductive Action (F : Type)
  /-- A request reaches a new handler. -/
  | arrive
  | handler (n : ℕ) (choice : Choice F)
  | dispatch
  /-- A spawned release task makes its next call. -/
  | release (k : ℕ)
  /-- Time passes. -/
  | advance (d : ℕ)
  /-- Another configuration is accepted. -/
  | reload (config : Config F)
  /-- `begin_drain`. -/
  | drain

/-- What a new handler counts. -/
def firstCounter : Bool → Option Counter
  | true => none
  | false => some .requests

/-- **One step of the system.** -/
def step (P : Params F σ) (s : System F σ) : Action F → Option (System F σ)
  | .arrive =>
    some { (s.bump (firstCounter s.draining)).goto s.nextTask (.first s.draining) with
      nextTask := s.nextTask + 1 }
  | .handler n choice => do
    let phase ← s.handlers.get? n
    let m ← phase.move P s n choice
    some ((m.effect.apply P (s.bump m.counter)).goto n m.next)
  | .dispatch => do
    let m ← s.dispatcher.move P s
    some { m.effect.apply P (s.bump m.counter) with dispatcher := m.next }
  | .release k =>
    match s.releases.get? k with
    | some (lease :: rest) =>
      let coordinator := (P.coordinator.release s.ambient s.coordinator lease).2
      some { (Effect.call coordinator).apply P s with releases := s.releases.insert k rest }
    | _ => none
  | .advance d => some { s with now := s.now + d }
  | .reload config => some { s with config := config }
  | .drain => some { s with draining := true }

/-! ## Sample runs -/

/-- A request of an unknown application that may queue. -/
def sampleArrival (id : Uuid) (units : ℚ) : Arrival ℚ where
  requestId := id
  identity := ⟨"principal", "tenant", "app", true⟩
  requested := .standard
  deadlineMs := none
  queueable := some true
  estimate := ⟨1, 1, 0, 1, units, 1, .approximation⟩
  bodyBytes := 1

/-- Handler `n` goes on, `k` times. -/
def goOn (n k : ℕ) : List (Action ℚ) := List.replicate k (.handler n .next)

/-- A new handler `n` reads its request and tries to enter. -/
def begins (n : ℕ) (arrival : Arrival ℚ) : List (Action ℚ) :=
  [.arrive, .handler n .next, .handler n (.arrive arrival)] ++ goOn n 2

/-- It enters, reserves in four calls, tracks, and waits for the provider. -/
def admits (n : ℕ) (arrival : Arrival ℚ) : List (Action ℚ) := begins n arrival ++ goOn n 7

end Proxy

end InferQos
