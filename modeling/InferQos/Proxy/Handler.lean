import InferQos.Config.Validate
import InferQos.Proxy.Admission
import InferQos.Scheduler.Model
/-!
# The request handler, up to its dispatch

What `proxy_handler` makes of a request before admission (class, pool,
deadline), and its admission section: enter, reserve, and, when there is no
room, go on in shadow mode or queue.
-/

namespace InferQos

namespace Proxy

variable {F σ : Type}

/-! ## Preparation -/

/-- What the handler has read of a request once its identity is resolved,
its work estimated and its body stored. -/
structure Arrival (F : Type) where
  /-- The `x-inferqos-request-id` header, or a fresh id. -/
  requestId : Uuid
  identity : IdentityContext
  /-- The `x-inferqos-class` header, or `standard`. -/
  requested : ServiceClass
  /-- The `x-inferqos-deadline-ms` header. -/
  deadlineMs : Option ℕ
  /-- Whether the `x-inferqos-queueable` header is `true`. -/
  queueable : Option Bool
  estimate : WorkEstimate F
  bodyBytes : ℕ

/-- Why a request is rejected. -/
inductive Reason
  | notQueueable
  | scheduler (e : Scheduler.Error)
  | deadline
  deriving DecidableEq

/-- How a handler run ends. -/
inductive Response
  | draining
  /-- The body is too large, the identity is refused, the estimate fails or
  the body cannot be stored. -/
  | unprepared
  | poolUnavailable
  /-- A lookup the handler expects to succeed does not. -/
  | panicked
  | coordinatorUnavailable (e : CoordinatorError)
  | qosRejected (reason : Reason)
  | spoolReadFailed
  | upstreamError
  /-- The upstream response was passed on. -/
  | forwarded
  /-- The client is gone and the handler was dropped. -/
  | dropped
  deriving DecidableEq

/-- A request ready for admission, with the configuration the handler
cloned. -/
structure Job (F : Type) where
  config : Config F
  request : AdmissionRequest F
  bodyBytes : ℕ
  classWeight : ℕ
  tenantWeight : ℕ
  appWeight : ℕ

/-- `effective_class`. -/
def effectiveClass (config : Config F) (identity : IdentityContext) (requested : ServiceClass) :
    ServiceClass × Option ApplicationPolicy :=
  let app := config.policies.applications.get? identity.application
  let allowed := app.any fun p =>
    p.tenant == identity.tenant && p.allowedClasses.contains requested.toString
  if identity.trusted && allowed then (requested, app) else (.standard, app)

/-- The first permitted pool of the application, or the first pool. -/
def poolName (config : Config F) (app : Option ApplicationPolicy) : Option String :=
  (app.bind fun p => p.permittedPools.first?).or config.pools.keys.head?

/-- The deadline asked for, or that of the class, within the queueing time
of the class. -/
def deadlineOf (c : ServiceClassConfig) (deadlineMs : Option ℕ) : ℕ :=
  min ((deadlineMs.map (· * 1000000)).getD c.defaultDeadline) c.maxQueue

/-- **From an arrival to a job**, the names of the running pools given. -/
def prepare (config : Config F) (pools : List String) (arrival : Arrival F) :
    Except Response (Job F) :=
  let (effective, app) := effectiveClass config arrival.identity arrival.requested
  match poolName config app with
  | none => .error .panicked
  | some pool =>
    if pool ∈ pools then
      match config.serviceClasses.get? effective.toString with
      | none => .error .panicked
      | some c =>
        .ok
          { config := config
            request :=
              { id := arrival.requestId
                identity := arrival.identity
                requestedClass := arrival.requested
                effectiveClass := effective
                pool := pool
                estimate := arrival.estimate
                deadline := deadlineOf c arrival.deadlineMs
                queueable := arrival.queueable.getD (effective ≠ .realtime) }
            bodyBytes := arrival.bodyBytes
            classWeight := c.weight
            tenantWeight :=
              (config.policies.tenants.get? arrival.identity.tenant).elim 1 (·.weight)
            appWeight := app.elim 1 (·.weight) }
    else .error .poolUnavailable

/-! ## Admission -/

/-- What the admission section decides. -/
inductive Verdict (F : Type)
  /-- Go on to the dispatch. -/
  | dispatch (leases : Option (AdmissionLeases F)) (outcome : String)
  /-- Answer. -/
  | answer (r : Response)
  /-- Queued: wait for the dispatcher. -/
  | wait
  deriving DecidableEq

/-- The verdict dispatches the request. -/
def Verdict.isDispatch : Verdict F → Bool
  | dispatch .. => true
  | _ => false

/-- The states the admission section works on. -/
structure Shared (F σ : Type) where
  concurrency : ConcurrencyState
  coordinator : σ
  scheduler : Scheduler.Inner F

variable [Arith F] (C : Coordinator F σ)

/-- Without a reservation: shadow mode enters by force, a request that may
not queue is rejected, another one is queued. -/
def withoutReservation (sched : Scheduler.Config F) (now : ℕ) (job : Job F) (s : Shared F σ) :
    Verdict F × Shared F σ :=
  if job.config.mode = .shadow then
    (.dispatch none "shadow_would_queue",
      { s with concurrency := forceEnter s.concurrency job.request.identity })
  else if !job.request.queueable then (.answer (.qosRejected .notQueueable), s)
  else
    match Scheduler.enqueue sched now s.scheduler job.request job.bodyBytes job.classWeight
        job.tenantWeight job.appWeight with
    | (.error e, scheduler) =>
      (.answer (.qosRejected (.scheduler e)), { s with scheduler := scheduler })
    | (.ok _, scheduler) => (.wait, { s with scheduler := scheduler })

/-- **The admission section of `proxy_handler`**, from the charge to the
dispatch or to the queue. Other tasks that work on the coordinator in the
meantime are the coordinator's affair: `C` is any implementation. -/
def admissionSection (sched : Scheduler.Config F) (env : ℕ → Ambient) (now : ℕ)
    (pending : List String) (poolLimit charged : F) (leaseTtl : ℕ) (job : Job F)
    (s : Shared F σ) : Verdict F × Shared F σ :=
  match tryEnter job.config s.concurrency job.request.identity with
  | none => withoutReservation sched now job s
  | some entered =>
    match reserveDistributed C env ⟨job.request, job.config, poolLimit, charged, leaseTtl⟩ pending
        s.coordinator with
    | (.ok (some leases), coordinator) =>
      (.dispatch (some leases) "admitted",
        { s with concurrency := entered, coordinator := coordinator })
    | (.ok none, coordinator) =>
      withoutReservation sched now job
        { s with
          concurrency := leave entered job.request.identity
          coordinator := coordinator }
    | (.error e, coordinator) =>
      (.answer (.coordinatorUnavailable e),
        { s with
          concurrency := leave entered job.request.identity
          coordinator := coordinator })

/-! ## Shadow mode -/

/-- **Some coordinator call of the attempt fails.** -/
def callFails (env : ℕ → Ambient) (a : Attempt F) (pending : List String) (s : σ) : Bool :=
  match a.reserveTenant C (env 0) s with
  | (.error _, _) => true
  | (.ok none, _) => false
  | (.ok (some tenantSlot), s) =>
    match a.reserveApplication C (env 1) s with
    | (.error _, _) => true
    | (.ok none, s) => (C.release (env 2) s tenantSlot).1.isOk.not
    | (.ok (some applicationSlot), s) =>
      match a.reserveCapacity C (env 3) s (a.tenantLimit pending) with
      | (.error _, _) => true
      | (.ok (some _), _) => false
      | (.ok none, s) =>
        match C.release (env 4) s applicationSlot with
        | (.error _, _) => true
        | (.ok (), s) => (C.release (env 5) s tenantSlot).1.isOk.not

/-- `reserve_distributed` fails exactly when one of its calls does. -/
theorem reserveDistributed_error_iff (env : ℕ → Ambient) (a : Attempt F) (pending : List String)
    (s : σ) :
    (reserveDistributed C env a pending s).1.isOk = false ↔ callFails C env a pending s = true := by
  unfold reserveDistributed callFails
  rcases a.reserveTenant C (env 0) s with ⟨_ | _ | tenantSlot, s⟩
  · simp [Except.isOk, Except.toBool]
  · simp [Except.isOk, Except.toBool]
  simp only
  rcases a.reserveApplication C (env 1) s with ⟨_ | _ | applicationSlot, s⟩
  · simp [Except.isOk, Except.toBool]
  · simp only
    rcases C.release (env 2) s tenantSlot with ⟨_ | _, s⟩
    · simp [Except.isOk, Except.toBool]
    · simp [Except.isOk, Except.toBool]
  simp only
  rcases a.reserveCapacity C (env 3) s (a.tenantLimit pending) with ⟨_ | _ | lease, s⟩
  · simp [Except.isOk, Except.toBool]
  · simp only
    rcases C.release (env 4) s applicationSlot with ⟨_ | _, s⟩
    · simp [Except.isOk, Except.toBool]
    · simp only
      rcases C.release (env 5) s tenantSlot with ⟨_ | _, s⟩
      · simp [Except.isOk, Except.toBool]
      · simp [Except.isOk, Except.toBool]
  · simp [Except.isOk, Except.toBool]

/-- In shadow mode, no reservation is no obstacle. -/
theorem withoutReservation_shadow (sched : Scheduler.Config F) (now : ℕ) {job : Job F}
    (hmode : job.config.mode = .shadow) (s : Shared F σ) :
    (withoutReservation sched now job s).1 = .dispatch none "shadow_would_queue" := by
  unfold withoutReservation
  rw [if_pos hmode]

/-- **In shadow mode a request is dispatched exactly when it is refused
entry or no call of its reservation fails.** It never waits and is never
rejected for QoS: what is left is `coordinator_unavailable`. -/
theorem shadow_dispatches_iff (C : Coordinator F σ) (sched : Scheduler.Config F)
    (env : ℕ → Ambient) (now : ℕ) (pending : List String) (poolLimit charged : F) (leaseTtl : ℕ)
    (job : Job F) (s : Shared F σ) (hmode : job.config.mode = .shadow) :
    let verdict := (admissionSection C sched env now pending poolLimit charged leaseTtl job s).1
    (verdict.isDispatch = true ↔
        tryEnter job.config s.concurrency job.request.identity = none ∨
          callFails C env ⟨job.request, job.config, poolLimit, charged, leaseTtl⟩ pending
            s.coordinator = false) ∧
      (verdict.isDispatch = false → ∃ e, verdict = .answer (.coordinatorUnavailable e)) := by
  have herr := reserveDistributed_error_iff C env
    ⟨job.request, job.config, poolLimit, charged, leaseTtl⟩ pending s.coordinator
  unfold admissionSection
  rcases tryEnter job.config s.concurrency job.request.identity with _ | entered
  · simp [withoutReservation_shadow sched now hmode, Verdict.isDispatch]
  simp only [reduceCtorEq, false_or]
  rcases hr : reserveDistributed C env ⟨job.request, job.config, poolLimit, charged, leaseTtl⟩
    pending s.coordinator with ⟨e | _ | leases, coordinator⟩
  · rw [hr] at herr
    have hfails : callFails C env ⟨job.request, job.config, poolLimit, charged, leaseTtl⟩ pending
        s.coordinator = true := herr.mp rfl
    simp [Verdict.isDispatch, hfails]
  · rw [hr] at herr
    simp only [withoutReservation_shadow sched now hmode, Verdict.isDispatch]
    simpa [Except.isOk, Except.toBool] using herr
  · rw [hr] at herr
    simp only [Verdict.isDispatch]
    simpa [Except.isOk, Except.toBool] using herr

theorem defaultDepth_le : 10000 ≤ u64Max := by decide

theorem defaultBytes_le : 268435456 ≤ u64Max := by decide

/-- The defaults the program runs its scheduler with. -/
def defaultScheduler : Scheduler.Config ℚ :=
  ⟨10000, 268435456, 2000000000, 1000000000, 1000, defaultDepth_le, defaultBytes_le⟩

/-- A job of an unknown tenant under a minimal configuration. -/
def sampleJob (mode : Mode) : Job ℚ where
  config := Config.minimal mode []
  request :=
    { id := 7
      identity := ⟨"principal", "tenant", "app", true⟩
      requestedClass := .standard
      effectiveClass := .standard
      pool := "primary"
      estimate := ⟨1, 1, 0, 1, 2, 1, .approximation⟩
      deadline := 30000000000
      queueable := true }
  bodyBytes := 1
  classWeight := 1
  tenantWeight := 1
  appWeight := 1

/-- Fifteen units do not fit in ten, and shadow mode dispatches them. -/
theorem shadow_dispatches_oversized :
    (admissionSection InMemoryCoordinator.coordinator defaultScheduler (fun k => ⟨0, k⟩) 0 [] 10 15
      300000000000 (sampleJob .shadow) ⟨⟨∅, ∅⟩, ∅, Scheduler.init⟩).1.isDispatch = true :=
  (shadow_dispatches_iff InMemoryCoordinator.coordinator defaultScheduler (fun k => ⟨0, k⟩) 0 [] 10
    15 300000000000 (sampleJob .shadow) ⟨⟨∅, ∅⟩, ∅, Scheduler.init⟩ rfl).1.mpr
      (Or.inr (by decide +kernel))

/-- **A failing coordinator turns shadow mode away**: the first call fails,
and the request is answered instead of dispatched. -/
theorem shadow_fails_closed :
    (admissionSection (InMemoryCoordinator.coordinator (F := ℚ)).unreliable defaultScheduler
      (fun k => ⟨0, k⟩) 0 [] 10 2 300000000000 (sampleJob .shadow)
      ⟨⟨∅, ∅⟩, (∅, [some (.redis "connection refused")]), Scheduler.init⟩).1 =
        .answer (.coordinatorUnavailable (.redis "connection refused")) := by
  decide +kernel

end Proxy

end InferQos
