import InferQos.Common.Trace
import InferQos.Proxy.System
import InferQos.Scheduler.Accounting
/-!
# A handler that nothing disturbs

The system takes the admission section of a handler in single steps, with
other tasks in between. When none of them moves, the steps compute
`admissionSection`: `Reaches.admission` takes a handler from its charge to the
position its verdict names, and leaves the shared states as the function
does.
-/

namespace InferQos

namespace Proxy

variable {F σ : Type}

/-- The states the admission section works on, within the whole. -/
def System.shared (s : System F σ) : Shared F σ := ⟨s.concurrency, s.coordinator, s.scheduler⟩

/-- The position a verdict takes a handler to. -/
def Verdict.phase (job : Job F) : Verdict F → Phase F
  | dispatch leases _ => .admitted job leases
  | answer (.qosRejected reason) => .rejecting job reason
  | answer r => .done r
  | wait => .enqueued job

variable [Arith F] {P : Params F σ} {s t : System F σ} {n : ℕ} {job : Job F} {charged : F}
variable {phase phase' : Phase F} {shared : Shared F σ}

/-- **Steps of handler `n`, and of nothing else, lead to a position** and to
these shared states. -/
def Reaches (P : Params F σ) (n : ℕ) (s : System F σ) (phase : Phase F) (shared : Shared F σ) :
    Prop :=
  ∃ k t, Trace (StepOf (step P)) s (List.replicate k (.handler n .next)) t ∧
    t.handlers.get? n = some phase ∧ t.shared = shared

theorem Reaches.here (hn : s.handlers.get? n = some phase) (hs : s.shared = shared) :
    Reaches P n s phase shared :=
  ⟨0, s, Trace.nil, hn, hs⟩

/-- One step, and what it leads to. -/
theorem Reaches.step {m : Move F σ (Phase F)} (hn : s.handlers.get? n = some phase)
    (hm : phase.move P s n .next = some m)
    (h : ((m.effect.apply P (s.bump m.counter)).goto n m.next).handlers.get? n = some m.next →
      Reaches P n ((m.effect.apply P (s.bump m.counter)).goto n m.next) phase' shared) :
    Reaches P n s phase' shared := by
  obtain ⟨k, t, htrace, hphase, hshared⟩ := h OrdMap.get?_insert_self
  have hstep : Proxy.step P s (.handler n .next) =
      some ((m.effect.apply P (s.bump m.counter)).goto n m.next) := by
    simp [Proxy.step, hn, hm]
  exact ⟨k + 1, t, htrace.cons hstep, hphase, hshared⟩

/-! ## The reservation -/

/-- What the calls of a reservation leave alone. -/
structure SameAround (s t : System F σ) : Prop where
  now : t.now = s.now
  pools : t.pools = s.pools
  pending : t.pending = s.pending
  concurrency : t.concurrency = s.concurrency
  scheduler : t.scheduler = s.scheduler

omit [Arith F] in
theorem afterReserve_of_unfinished {at_ : ReservePhase F} (h : ∀ r, at_ ≠ .finished r) :
    Phase.afterReserve job charged at_ = .reserving job charged at_ := by
  cases at_ with
  | finished r => exact absurd rfl (h r)
  | _ => rfl

/-- **The steps of a reservation are those of `runReserve`.** The call at
step `k` is offered the id `k` after the next one. -/
theorem Reaches.reserve {a : Attempt F} {r : Except CoordinatorError (Option (AdmissionLeases F))}
    {c' : σ} (i : ℕ) : ∀ {s : System F σ} {at_ : ReservePhase F},
      s.handlers.get? n = some (.reserving job charged at_) →
      s.attempt P job.request job.config charged = some a → (∀ r, at_ ≠ .finished r) →
      runReserve P.coordinator a s.pendingTenants i (fun k => ⟨s.now, s.nextId + k⟩) at_
        s.coordinator = (.finished r, c') →
      (∀ t, SameAround s t → t.coordinator = c' →
        t.handlers.get? n = some (.afterReserve job charged (.finished r)) →
        Reaches P n t phase' shared) → Reaches P n s phase' shared := by
  induction i with
  | zero =>
    intro s at_ _ _ hun hrun
    exact absurd (congrArg Prod.fst hrun) (hun r)
  | succ i ih =>
    intro s at_ hn ha hun hrun hlast
    rw [runReserve] at hrun
    set next := at_.step P.coordinator a s.ambient s.pendingTenants s.coordinator with hnext
    change runReserve P.coordinator a s.pendingTenants i _ next.1 next.2 = _ at hrun
    have hm : (Phase.reserving job charged at_).move P s n .next =
        some { next := .afterReserve job charged next.1, effect := .call next.2 } := by
      simp only [Phase.move, ha, hnext]
    refine Reaches.step hn hm fun hn' => ?_
    by_cases hfin : ∃ r', next.1 = .finished r'
    · -- the reservation returns at this step
      obtain ⟨r', hr'⟩ := hfin
      rw [hr', runReserve_finished] at hrun
      obtain ⟨hr, hc⟩ := Prod.mk.inj hrun
      refine hlast _ ⟨rfl, rfl, rfl, rfl, rfl⟩ hc ?_
      rw [hn', hr', hr]
    · have hun' : ∀ r', next.1 ≠ .finished r' := fun r' hr' => hfin ⟨r', hr'⟩
      have henv : (fun k => (⟨s.now, s.nextId + (k + 1)⟩ : Ambient)) =
          fun k => ⟨s.now, s.nextId + 1 + k⟩ := by
        funext k
        rw [Nat.add_comm k 1, Nat.add_assoc]
      rw [henv] at hrun
      refine ih (hn'.trans (congrArg some (afterReserve_of_unfinished hun'))) ha hun' hrun
        fun t hsame hc hphase => hlast t ?_ hc hphase
      exact ⟨hsame.now, hsame.pools, hsame.pending, hsame.concurrency, hsame.scheduler⟩

/-! ## The section -/

/-- **The step of a handler without a reservation** is
`withoutReservation`. -/
theorem Reaches.refused (hn : s.handlers.get? n = some (.refused job)) {now : ℕ}
    (hnow : s.now = now) (hs : s.shared = shared) :
    Reaches P n s ((withoutReservation P.scheduler now job shared).1.phase job)
      (withoutReservation P.scheduler now job shared).2 := by
  subst hnow hs
  unfold withoutReservation
  by_cases hmode : job.config.mode = .shadow
  · have hm : (Phase.refused job).move P s n .next =
        some { next := .admitted job none, effect := .enter job.request.identity,
               counter := some .shadowWouldQueue } := if_pos hmode
    rw [if_pos hmode]
    exact Reaches.step hn hm fun hn' => Reaches.here hn' rfl
  rw [if_neg hmode]
  by_cases hq : (!job.request.queueable) = true
  · have hm : (Phase.refused job).move P s n .next =
        some { next := .rejecting job .notQueueable } := (if_neg hmode).trans (if_pos hq)
    rw [if_pos hq]
    exact Reaches.step hn hm fun hn' => Reaches.here hn' rfl
  rw [if_neg hq]
  have hspec := Scheduler.enqueue_spec P.scheduler s.now s.scheduler job.request job.bodyBytes
    job.classWeight job.tenantWeight job.appWeight
  rcases henq : Scheduler.enqueue P.scheduler s.now s.scheduler job.request job.bodyBytes
    job.classWeight job.tenantWeight job.appWeight with ⟨e | depth, scheduler⟩
  · have hm : (Phase.refused job).move P s n .next =
        some { next := .rejecting job (.scheduler e) } := by
      simp only [Phase.move, if_neg hmode, if_neg hq, henq]
    -- a refused request leaves the queues as they are
    have hsame : s.scheduler = scheduler := by
      rw [henq] at hspec
      rcases hspec with ⟨-, -, hs, -⟩ | ⟨hres, -⟩
      · exact hs.symm
      · cases hres
    simp only [System.shared, henq]
    refine Reaches.step hn hm fun hn' => ?_
    rw [← hsame]
    exact Reaches.here hn' rfl
  · have hm : (Phase.refused job).move P s n .next =
        some { next := .enqueued job,
               effect := .schedule (.enqueue job.request job.bodyBytes job.classWeight
                 job.tenantWeight job.appWeight) } := by
      simp only [Phase.move, if_neg hmode, if_neg hq, henq]
    have hsched : scheduler = (Scheduler.enqueue P.scheduler s.now s.scheduler job.request
        job.bodyBytes job.classWeight job.tenantWeight job.appWeight).2 := by rw [henq]
    simp only [System.shared, henq]
    refine Reaches.step hn hm fun hn' => ?_
    rw [hsched]
    exact Reaches.here hn' rfl

/-- What the admission section makes of the answer of its reservation. -/
def afterReservation (sched : Scheduler.Config F) (now : ℕ) (job : Job F) (s : Shared F σ) :
    Except CoordinatorError (Option (AdmissionLeases F)) → Verdict F × Shared F σ
  | .ok (some leases) => (.dispatch (some leases) "admitted", s)
  | .ok none =>
    withoutReservation sched now job
      { s with concurrency := leave s.concurrency job.request.identity }
  | .error e =>
    (.answer (.coordinatorUnavailable e),
      { s with concurrency := leave s.concurrency job.request.identity })

theorem admissionSection_of_entered (C : Coordinator F σ) (sched : Scheduler.Config F)
    (env : ℕ → Ambient) (now : ℕ) (pending : List String) (poolLimit charged : F) (leaseTtl : ℕ)
    (s : Shared F σ) {entered : ConcurrencyState}
    (h : tryEnter job.config s.concurrency job.request.identity = some entered) :
    let r := reserveDistributed C env ⟨job.request, job.config, poolLimit, charged, leaseTtl⟩
      pending s.coordinator
    admissionSection C sched env now pending poolLimit charged leaseTtl job s =
      afterReservation sched now job ⟨entered, r.2, s.scheduler⟩ r.1 := by
  unfold admissionSection
  simp only [h]
  rcases reserveDistributed C env ⟨job.request, job.config, poolLimit, charged, leaseTtl⟩ pending
    s.coordinator with ⟨_ | _ | leases, c⟩
  · rfl
  · rfl
  · rfl

/-- **A handler whose reservation has returned** goes where the answer takes
it. -/
theorem Reaches.answered {rt : PoolRuntime F}
    {result : Except CoordinatorError (Option (AdmissionLeases F))}
    (hn : s.handlers.get? n = some (.afterReserve job charged (.finished result)))
    (hrt : s.pools.get? job.request.pool = some rt) {now : ℕ} (hnow : s.now = now)
    (hs : s.shared = shared) :
    Reaches P n s ((afterReservation P.scheduler now job shared result).1.phase job)
      (afterReservation P.scheduler now job shared result).2 := by
  subst hnow hs
  rcases result with e | _ | leases
  · have hm : (Phase.leaving job (some e)).move P s n .next =
        some { next := .done (.coordinatorUnavailable e),
               effect := .leave job.request.identity } := rfl
    exact Reaches.step hn hm fun hn' => Reaches.here hn' rfl
  · have hm : (Phase.leaving job none).move P s n .next =
        some { next := .refused job, effect := .leave job.request.identity } := rfl
    exact Reaches.step hn hm fun hn' => Reaches.refused hn' rfl rfl
  · have hm : (Phase.tracking job charged leases).move P s n .next =
        some { next := .admitted job (some leases),
               effect := .track job.request.pool leases.capacity.id charged } := by
      simp only [Phase.move, hrt]
    exact Reaches.step hn hm fun hn' => Reaches.here hn' rfl

/-- **A handler that has entered** reserves, and goes where the answer takes
it. -/
theorem Reaches.entered {rt : PoolRuntime F} {now id : ℕ} {pending : List String}
    (hn : s.handlers.get? n = some (.reserving job charged .tenant))
    (hrt : s.pools.get? job.request.pool = some rt) (hnow : s.now = now) (hid : s.nextId = id)
    (hpending : s.pendingTenants = pending) (hs : s.shared = shared)
    {r : Except CoordinatorError (Option (AdmissionLeases F)) × σ}
    (hr : r = reserveDistributed P.coordinator (fun k => ⟨now, id + k⟩)
      ⟨job.request, job.config, rt.limit, charged, P.leaseTtl⟩ pending shared.coordinator) :
    let v := afterReservation P.scheduler now job ⟨shared.concurrency, r.2, shared.scheduler⟩ r.1
    Reaches P n s (v.1.phase job) v.2 := by
  subst hnow hid hpending hs hr
  have ha : s.attempt P job.request job.config charged =
      some ⟨job.request, job.config, rt.limit, charged, P.leaseTtl⟩ := by
    simp only [System.attempt, hrt, Option.map_some]
  refine Reaches.reserve 6 hn ha (fun r => nofun) (runReserve_eq ..) fun t hsame hc hphase => ?_
  refine Reaches.answered hphase (hsame.pools.symm ▸ hrt) hsame.now ?_
  rw [System.shared, hsame.concurrency, hsame.scheduler, hc]
  rfl

/-- **The admission section, undisturbed.** A handler that is to be charged
reaches the position that the verdict of `admissionSection` names, and
leaves the shared states as it does. -/
theorem Reaches.admission {rt : PoolRuntime F} (hn : s.handlers.get? n = some (.charging job))
    (hrt : s.pools.get? job.request.pool = some rt) :
    let r := admissionSection P.coordinator P.scheduler (fun k => ⟨s.now, s.nextId + k⟩) s.now
      s.pendingTenants rt.limit
      (rt.capacity.chargedUnits job.request.estimate.normalizedUnits) P.leaseTtl job s.shared
    Reaches P n s (r.1.phase job) r.2 := by
  intro r
  set charged := rt.capacity.chargedUnits job.request.estimate.normalizedUnits with hcharged
  have hcharge : (Phase.charging job).move P s n .next = some { next := .entering job charged } := by
    simp only [Phase.move, hrt, hcharged]
  refine Reaches.step hn hcharge fun hn₁ => ?_
  set s₁ := ((Effect.silent : Effect F σ).apply P (s.bump none)).goto n (.entering job charged)
  cases henter : tryEnter job.config s.concurrency job.request.identity with
  | none =>
    have hm : (Phase.entering job charged).move P s₁ n .next = some { next := .refused job } := by
      have henter₁ : tryEnter job.config s₁.concurrency job.request.identity = none := henter
      simp only [Phase.move, henter₁]
    have hr : r = withoutReservation P.scheduler s.now job s.shared := by
      simp only [r, admissionSection, System.shared, henter]
    rw [hr]
    refine Reaches.step hn₁ hm fun hn₂ => Reaches.refused hn₂ ?_ ?_
    · simp only [Effect.apply, System.goto, System.bump, s₁]
    · simp only [Effect.apply, System.goto, System.bump, System.shared, s₁]
  | some entered =>
    have hentered : forceEnter s.concurrency job.request.identity = entered := by
      unfold tryEnter at henter
      split at henter
      · cases henter
      · exact Option.some.inj henter
    have hm : (Phase.entering job charged).move P s₁ n .next =
        some { next := .reserving job charged .tenant, effect := .enter job.request.identity } := by
      have henter₁ : tryEnter job.config s₁.concurrency job.request.identity = some entered := henter
      simp only [Phase.move, henter₁]
    have hr : r = _ := admissionSection_of_entered P.coordinator P.scheduler
      (fun k => ⟨s.now, s.nextId + k⟩) s.now s.pendingTenants rt.limit charged P.leaseTtl s.shared
      henter
    rw [hr]
    refine Reaches.step hn₁ hm fun hn₂ => ?_
    set s₂ := ((Effect.enter job.request.identity : Effect F σ).apply P (s₁.bump none)).goto n
      (.reserving job charged .tenant)
    have hrt₂ : s₂.pools.get? job.request.pool = some rt := by
      simpa only [Effect.apply, System.goto, System.bump, s₁, s₂] using hrt
    have hnow₂ : s₂.now = s.now := by
      simp only [Effect.apply, System.goto, System.bump, s₁, s₂]
    have hid₂ : s₂.nextId = s.nextId := by
      simp only [Effect.apply, System.goto, System.bump, s₁, s₂]
    have hpending₂ : s₂.pendingTenants = s.pendingTenants := by
      simp only [Effect.apply, System.goto, System.bump, System.pendingTenants, s₁, s₂]
    have hs₂ : s₂.shared = ⟨entered, s.coordinator, s.scheduler⟩ := by
      simp only [Effect.apply, System.goto, System.bump, System.shared, s₁, s₂, hentered]
    exact Reaches.entered hn₂ hrt₂ hnow₂ hid₂ hpending₂ hs₂ rfl

end Proxy

end InferQos
