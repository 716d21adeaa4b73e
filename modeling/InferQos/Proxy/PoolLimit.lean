import InferQos.Common.Trace
import InferQos.Coordinator.Ledger
import InferQos.Proxy.AllOrNothing
import InferQos.Proxy.Linking
import Mathlib.Data.Multiset.OrderedMonoid
import Mathlib.Tactic.Abel
/-!
# The hard limit of a pool

What keeps the requests in flight within their pool is the ledger: each of
them holds a lease whose entry counts towards the pool's sum. The entry of
a lease that has expired is purged by the next reservation in its pool,
whoever still works under the lease. `PoolBound` ties the leases that tasks
hold to their entries, and `in_flight_within_limit` says that the limit
holds along every run in which no reservation finds an expired lease of
its pool still in use.
-/

namespace InferQos

namespace Proxy

open InMemoryCoordinator (LeaseState leasesOf unitsIn NonNeg)

variable {F σ : Type}

/-! ## Leases in the hands of tasks -/

/-- The ids of some leases. -/
def leaseIds (leases : List (Lease F)) : Multiset Uuid := (leases.map (·.id) : List Uuid)

@[simp] theorem leaseIds_nil : leaseIds ([] : List (Lease F)) = 0 := rfl

@[simp] theorem leaseIds_cons (lease : Lease F) (rest : List (Lease F)) :
    leaseIds (lease :: rest) = {lease.id} + leaseIds rest := rfl

theorem mem_leaseIds_cons (lease : Lease F) (rest : List (Lease F)) :
    lease.id ∈ leaseIds (lease :: rest) :=
  Multiset.mem_coe.mpr (List.mem_cons_self ..)

/-- The ids of an admission. -/
def AdmissionLeases.ids (l : AdmissionLeases F) : Multiset Uuid := leaseIds l.releaseOrder

/-- The ids of an admission, if there is one. -/
def optionalIds : Option (AdmissionLeases F) → Multiset Uuid
  | none => 0
  | some l => l.ids

/-- The leases a reservation holds on its way. -/
def ReservePhase.ids : ReservePhase F → Multiset Uuid
  | tenant => 0
  | application tenantSlot => leaseIds [tenantSlot]
  | limit tenantSlot applicationSlot => leaseIds [applicationSlot, tenantSlot]
  | capacity tenantSlot applicationSlot _ => leaseIds [applicationSlot, tenantSlot]
  | undoApplication tenantSlot applicationSlot => leaseIds [applicationSlot, tenantSlot]
  | undoTenant tenantSlot => leaseIds [tenantSlot]
  | finished (.ok (some l)) => l.ids
  | finished _ => 0

/-- **The leases a handler has still to release.** -/
def Phase.ids : Phase F → Multiset Uuid
  | reserving _ _ at_ => at_.ids
  | tracking _ _ l => l.ids
  | waiting _ _ l => optionalIds l
  | expired _ l => optionalIds l
  | admitted _ l => optionalIds l
  | loading _ l => optionalIds l
  | dispatching _ l => optionalIds l
  | opening _ l _ => optionalIds l
  | streaming _ l _ _ _ => optionalIds l
  | completing _ _ rest _ _ => leaseIds rest
  | closing _ l _ => optionalIds l
  | spawning _ l _ => l.ids
  | _ => 0

/-- **And those the dispatcher has.** -/
def DispatchPhase.ids : DispatchPhase F → Multiset Uuid
  | reserving _ _ _ _ at_ => at_.ids
  | tracking _ _ _ l => l.ids
  | sending _ _ l => l.ids
  | unsent _ _ rest => leaseIds rest
  | _ => 0

/-- All leases held by tasks. -/
def System.ids (s : System F σ) : Multiset Uuid :=
  s.handlers.sumOn (fun _ phase => phase.ids) + s.dispatcher.ids +
    s.releases.sumOn fun _ rest => leaseIds rest

/-- What an effect hands to a release task. -/
def Effect.spawned : Effect F σ → Multiset Uuid
  | spawn l => l.ids
  | _ => 0

/-! ## Leases in use -/

/-- The capacity lease of a reservation that has just been granted. -/
def ReservePhase.live : ReservePhase F → Option (Lease F)
  | finished (.ok (some l)) => some l.capacity
  | _ => none

/-- **The capacity lease of a handler's guard.** -/
def Phase.guarded : Phase F → Option (Lease F)
  | loading _ l => l.map (·.capacity)
  | dispatching _ l => l.map (·.capacity)
  | opening _ l _ => l.map (·.capacity)
  | streaming _ l _ _ _ => l.map (·.capacity)
  | closing _ l _ => l.map (·.capacity)
  | _ => none

/-- The capacity lease a handler works under, or will. -/
def Phase.live : Phase F → Option (Lease F)
  | reserving _ _ at_ => at_.live
  | tracking _ _ l => some l.capacity
  | waiting _ _ l => l.map (·.capacity)
  | admitted _ l => l.map (·.capacity)
  | phase => phase.guarded

/-- The capacity lease the dispatcher is about to hand over. -/
def DispatchPhase.live : DispatchPhase F → Option (Lease F)
  | reserving _ _ _ _ at_ => at_.live
  | tracking _ _ _ l => some l.capacity
  | sending _ _ l => some l.capacity
  | _ => none

/-- **The capacity leases in use**, or about to be. -/
def System.live (s : System F σ) : List (Lease F) :=
  s.handlers.values.filterMap Phase.live ++ s.dispatcher.live.toList

/-- The leases in a pool under which guards are held. -/
def System.guards (s : System F σ) (pool : String) : List (Lease F) :=
  (s.handlers.values.filterMap Phase.guarded).filter (·.pool = pool)

/-- **The charged units in flight in a pool.** A capacity lease carries the
units its request was charged. -/
def System.inFlight (s : System ℚ σ) (pool : String) : ℚ :=
  ((s.guards pool).map (·.units)).sum

/-! ## The condition -/

/-- The ledger key of the reservation that comes next. -/
def ReservePhase.key? (a : Attempt F) : ReservePhase F → Option String
  | tenant => some a.tenantKey
  | application _ => some a.applicationKey
  | capacity .. => some a.request.pool
  | _ => none

/-- The ledger key an action reserves under. -/
def System.reservesUnder (P : Params F σ) (s : System F σ) : Action F → Option String
  | .handler n .next =>
    match s.handlers.get? n with
    | some (.reserving job charged at_) =>
      (s.attempt P job.request job.config charged).bind at_.key?
    | _ => none
  | .dispatch =>
    match s.dispatcher with
    | .reserving req _ config charged at_ => (s.attempt P req config charged).bind at_.key?
    | _ => none
  | _ => none

/-- No lease in use under a ledger key has expired. -/
def System.unexpired (s : System F (LeaseState F)) (key : String) : Bool :=
  s.live.all fun lease => lease.pool ≠ key ||
    ((leasesOf s.coordinator key).get? lease.id).all fun e => s.now < e.expires

/-- **A reservation finds no expired lease in use under its key.** -/
def noneExpired (P : Params F (LeaseState F)) (s : System F (LeaseState F)) (a : Action F) : Bool :=
  (s.reservesUnder P a).all s.unexpired

/-! ## Ids stay distinct -/

section Ids

variable [Arith F] {P : Params F σ} {s : System F σ} {n : ℕ} {held : σ → String → Uuid → Prop}

/-- **A reservation adds at most the id it is offered.** -/
theorem ReservePhase.ids_step {C : Coordinator F σ} (hC : C.Lawful held) (a : Attempt F)
    (env : Ambient) (pending : List String) (c : σ) (at_ : ReservePhase F) :
    (at_.step C a env pending c).1.ids ≤ at_.ids + {env.id} := by
  fun_cases ReservePhase.step C a env pending c at_
  all_goals simp only [ids, AdmissionLeases.ids, AdmissionLeases.releaseOrder, leaseIds_cons,
    leaseIds_nil, add_zero]
  all_goals first
    | exact Multiset.zero_le _
    | exact Multiset.le_add_right _ _
    | exact (Multiset.le_add_left _ _).trans (Multiset.le_add_right _ _)
    | skip
  · rename_i hr
    rw [(tenant_law hC).granted_id hr, zero_add]
  · rename_i hr
    rw [(application_law hC).granted_id hr, add_comm]
  · rename_i hr
    rw [(capacity_law hC).granted_id hr, add_comm]

omit [Arith F] in
theorem Phase.ids_afterReserve (job : Job F) (charged : F) (at_ : ReservePhase F) :
    (afterReserve job charged at_).ids = at_.ids := by
  unfold afterReserve
  split <;> rfl

omit [Arith F] in
theorem Phase.ids_afterLeave (job : Job F) (error : Option CoordinatorError) :
    (afterLeave job error).ids = 0 := by
  cases error <;> rfl

omit [Arith F] in
theorem DispatchPhase.ids_afterReserve (req : AdmissionRequest F) (p : Pending F)
    (config : Config F) (charged : F) (at_ : ReservePhase F) :
    (afterReserve req p config charged at_).ids = at_.ids := by
  fun_cases afterReserve req p config charged at_ with
  | case1 l => rfl
  | case2 r hr =>
    cases r with
    | error e => rfl
    | ok l =>
      cases l with
      | none => rfl
      | some l => exact absurd rfl (hr l)
  | case3 => rfl

omit [Arith F] in
theorem DispatchPhase.ids_afterLeave (req : AdmissionRequest F) (q : Option (Pending F)) :
    (afterLeave req q).ids = 0 := by
  cases q <;> rfl

omit [Arith F] in
theorem DispatchPhase.ids_afterPop (r : Except String (Option (AdmissionRequest F))) :
    (afterPop r).ids = 0 := by
  unfold afterPop
  split <;> rfl

/-- **A handler's leases** were its own before, or carry the next id. -/
theorem Phase.move_ids (hC : P.coordinator.Lawful held) {phase : Phase F} {choice : Choice F}
    {m : Move F σ (Phase F)} (h : phase.move P s n choice = some m) :
    m.next.ids + m.effect.spawned ≤ phase.ids + m.effect.grants s.nextId := by
  revert h
  fun_cases Phase.move P s n phase choice <;> intro h <;> cases h
  all_goals simp only [ids_afterReserve, ids_afterLeave]
  all_goals simp only [ids, Effect.spawned, Effect.grants, optionalIds, AdmissionLeases.ids,
    leaseIds_cons, leaseIds_nil, add_zero, zero_add, le_refl, Multiset.zero_le]
  all_goals first
    | exact Multiset.zero_le _
    | exact ReservePhase.ids_step hC _ s.ambient _ _ _
    | exact Multiset.le_add_right _ _
    | exact (Multiset.le_add_left _ _).trans (Multiset.le_add_right _ _)

/-- And so were the dispatcher's, which loses those it sends. -/
theorem DispatchPhase.move_ids (hC : P.coordinator.Lawful held) {d : DispatchPhase F}
    {m : Move F σ (DispatchPhase F)} (h : d.move P s = some m) :
    m.next.ids ≤ d.ids + m.effect.grants s.nextId := by
  revert h
  fun_cases DispatchPhase.move P s d <;> intro h <;> cases h
  all_goals simp only [ids_afterReserve, ids_afterLeave, ids_afterPop]
  all_goals simp only [ids, Effect.grants, AdmissionLeases.ids, leaseIds_cons, leaseIds_nil,
    add_zero, le_refl, Multiset.zero_le]
  all_goals first
    | exact Multiset.zero_le _
    | exact ReservePhase.ids_step hC _ s.ambient _ _ _
    | exact (Multiset.le_add_left _ _).trans (Multiset.le_add_right _ _)

/-- The dispatcher spawns nothing. -/
theorem DispatchPhase.move_spawned {d : DispatchPhase F} {m : Move F σ (DispatchPhase F)}
    (h : d.move P s = some m) : m.effect.spawned = 0 := by
  revert h
  fun_cases DispatchPhase.move P s d <;> intro h <;> cases h <;> rfl

omit [Arith F] in
/-- What is sent is added to the receiver's leases. -/
theorem Phase.receive_ids {phase phase' : Phase F} {l : AdmissionLeases F}
    (h : phase.receive l = some phase') : phase'.ids = phase.ids + l.ids := by
  revert h
  fun_cases Phase.receive l phase <;> intro h <;> cases h
  · exact (zero_add _).symm
  · exact (zero_add _).symm

/-- Release tasks hold what they held, and what was spawned. -/
theorem releases_apply (P : Params F σ) (s : System F σ) (e : Effect F σ) :
    (e.apply P s).releases.sumOn (fun _ rest => leaseIds rest) ≤
      e.spawned + s.releases.sumOn fun _ rest => leaseIds rest := by
  cases e with
  | spawn l =>
    simp only [Effect.apply, OrdMap.sumOn_insert]
    exact add_le_add le_rfl (OrdMap.sumOn_filter_le (fun _ _ => Multiset.zero_le _) _)
  | _ => exact (zero_add _).ge

theorem issued_handler (hC : P.coordinator.Lawful held) (h : Issued s.ids s.nextId)
    {phase : Phase F} {choice : Choice F} {m : Move F σ (Phase F)}
    (hn : s.handlers.get? n = some phase) (hm : phase.move P s n choice = some m) :
    Issued ((m.effect.apply P (s.bump m.counter)).goto n m.next).ids
      (m.effect.apply P (s.bump m.counter)).nextId := by
  have hsum := sumOver_handler Phase.ids DispatchPhase.ids hn hm
  have hrel := releases_apply P (s.bump m.counter) m.effect
  refine Issued.apply (s := s.bump m.counter) h ?_
  refine le_of_add_le_add_right (a := phase.ids) ?_
  calc ((m.effect.apply P (s.bump m.counter)).goto n m.next).ids + phase.ids
      = s.sumOver Phase.ids DispatchPhase.ids + m.next.ids +
          (m.effect.apply P (s.bump m.counter)).releases.sumOn fun _ rest => leaseIds rest := by
        rw [← hsum]
        exact add_right_comm _ _ _
    _ ≤ s.sumOver Phase.ids DispatchPhase.ids + m.next.ids +
          (m.effect.spawned + s.releases.sumOn fun _ rest => leaseIds rest) :=
        add_le_add le_rfl hrel
    _ = s.ids + (m.next.ids + m.effect.spawned) := by
        rw [System.ids, System.sumOver]; abel
    _ ≤ s.ids + (phase.ids + m.effect.grants s.nextId) :=
        add_le_add le_rfl (Phase.move_ids hC hm)
    _ = s.ids + m.effect.grants s.nextId + phase.ids := by abel

theorem issued_dispatch (hC : P.coordinator.Lawful held) (h : Issued s.ids s.nextId)
    {m : Move F σ (DispatchPhase F)} (hm : s.dispatcher.move P s = some m) :
    Issued (System.ids { m.effect.apply P (s.bump m.counter) with dispatcher := m.next })
      (m.effect.apply P (s.bump m.counter)).nextId := by
  have hrel := releases_apply P (s.bump m.counter) m.effect
  rw [DispatchPhase.move_spawned hm, zero_add] at hrel
  -- a send moves the ids to the receiver; any other move adds what it is granted
  have hsum : System.sumOver Phase.ids DispatchPhase.ids
      { m.effect.apply P (s.bump m.counter) with dispatcher := m.next } ≤
        s.sumOver Phase.ids DispatchPhase.ids + m.effect.grants s.nextId := by
    rcases sumOver_dispatch Phase.ids DispatchPhase.ids hm with
      ⟨_, _, l, old, _, hsend, -, -, -, hr, hsum⟩ | ⟨-, hsum⟩
    · have hsame : s.dispatcher.ids = l.ids := by rw [hsend]; rfl
      have hidle : (DispatchPhase.idle : DispatchPhase F).ids = 0 := rfl
      rw [Phase.receive_ids hr, ← hsame, hidle, add_zero] at hsum
      exact (add_right_cancel hsum).le.trans (Multiset.le_add_right _ _)
    · refine le_of_add_le_add_right (a := s.dispatcher.ids) ?_
      rw [hsum, add_assoc, add_comm _ s.dispatcher.ids]
      exact add_le_add le_rfl (DispatchPhase.move_ids hC hm)
  refine Issued.apply (s := s.bump m.counter) h ?_
  refine (add_le_add hsum hrel).trans_eq ?_
  rw [add_right_comm]
  rfl

end Ids

/-! ## What a step does to the ledger -/

section Ledger

open InMemoryCoordinator (Op Call)

/-- The entry of a lease is stored, with its units and a scope. -/
def Stored (all : LeaseState F) (lease : Lease F) : Prop :=
  ∃ e, (leasesOf all lease.pool).get? lease.id = some e ∧ e.units = lease.units ∧ e.scope.isSome

/-- **An operation a task may make**: a reservation finds no expired lease
in use, one in a scope passes the limit of its pool, and a release is of a
lease the task holds and stops using. -/
structure Allowed (s : System F (LeaseState F)) (ids : Multiset Uuid) (live' : Option (Lease F))
    (op : Op F) : Prop where
  unexpired : op.poolLimit?.isSome → s.unexpired op.pool = true
  limit : ∀ limit, op.poolLimit? = some limit → op.scope?.isSome →
    ∃ rt, s.pools.get? op.pool = some rt ∧ limit = rt.limit
  release : ∀ lease, op = .release lease → lease.id ∈ ids ∧ live' = none

variable [Arith F]

/-- **What a step of one task does to the ledger**: nothing, or one allowed
operation. The lease the task uses afterwards is the one it used before, or
one just stored. -/
structure LedgerStep (s : System F (LeaseState F)) (ids : Multiset Uuid)
    (live live' : Option (Lease F)) (all : LeaseState F) : Prop where
  step : all = s.coordinator ∨
    ∃ op, Allowed s ids live' op ∧
      all = (InMemoryCoordinator.apply s.coordinator ⟨s.now, s.nextId, op⟩).2
  live : ∀ lease, live' = some lease → live = some lease ∨ Stored all lease

/-- The operation of a reservation's next step. -/
def ReservePhase.op? (a : Attempt F) : ReservePhase F → Option (Op F)
  | tenant => some (.reserve a.tenantKey
      (Arith.lit (a.config.tenantConcurrency a.request.identity.tenant)) (Arith.lit 1) a.leaseTtl)
  | application _ => some (.reserve a.applicationKey
      (Arith.lit (a.config.applicationConcurrency a.request.identity.application)) (Arith.lit 1)
      a.leaseTtl)
  | limit .. => none
  | capacity _ _ tenantLimit => some (.reserveScoped a.request.pool a.request.identity.tenant
      a.poolLimit tenantLimit a.charged a.leaseTtl)
  | undoApplication _ applicationSlot => some (.release applicationSlot)
  | undoTenant tenantSlot => some (.release tenantSlot)
  | finished _ => none

/-- **On the in-memory ledger a reservation's step is its operation.** -/
theorem ReservePhase.step_memory (a : Attempt F) (env : Ambient) (pending : List String)
    (all : LeaseState F) (at_ : ReservePhase F) :
    (at_.step InMemoryCoordinator.coordinator a env pending all).2 =
      match at_.op? a with
      | none => all
      | some op => (InMemoryCoordinator.apply all ⟨env.now, env.id, op⟩).2 := by
  fun_cases ReservePhase.step InMemoryCoordinator.coordinator a env pending all at_
  all_goals first
    | rfl
    | (rename_i hr; exact (congrArg Prod.snd hr).symm)

/-- A lease in use after a reservation's step was granted before it, or is
stored by it; then the step does not release. -/
theorem ReservePhase.live_step (a : Attempt F) (env : Ambient) (pending : List String)
    (all : LeaseState F) (at_ : ReservePhase F) (lease : Lease F)
    (h : (at_.step InMemoryCoordinator.coordinator a env pending all).1.live = some lease) :
    (∀ l, at_.op? a ≠ some (.release l)) ∧ (at_.live = some lease ∨
      Stored (at_.step InMemoryCoordinator.coordinator a env pending all).2 lease) := by
  revert h
  fun_cases ReservePhase.step InMemoryCoordinator.coordinator a env pending all at_
  all_goals intro h
  all_goals first
    | cases h
    | skip
  · -- granted: the entry is the lease's
    rename_i tenantLimit lease all' hr
    refine ⟨fun l hl => (by cases hl), Or.inr ?_⟩
    change InMemoryCoordinator.reserveScoped env.now env.id all a.request.pool
      a.request.identity.tenant a.poolLimit tenantLimit a.charged a.leaseTtl = _ at hr
    rcases InMemoryCoordinator.reserveScoped_spec env.now env.id all a.request.pool
      a.request.identity.tenant a.poolLimit tenantLimit a.charged a.leaseTtl with
      ⟨hr', -⟩ | ⟨-, -, ⟨hr', -⟩ | ⟨hr', -⟩⟩
    · rw [hr] at hr'
      cases hr'
    · rw [hr] at hr'
      cases hr'
    · rw [hr] at hr'
      cases hr'
      refine ⟨⟨a.charged, env.now + a.leaseTtl, some a.request.identity.tenant⟩, ?_, rfl, rfl⟩
      rw [InMemoryCoordinator.leasesOf_insert, if_pos rfl]
      exact OrdMap.get?_insert_self
  · exact ⟨fun l hl => (by cases hl), Or.inl h⟩

/-- **A reservation's step is allowed.** -/
theorem ReservePhase.ledgerStep {s : System F (LeaseState F)} {a : Attempt F}
    (pending : List String) (at_ : ReservePhase F)
    (hkey : ∀ key, at_.key? a = some key → s.unexpired key = true)
    (hpool : ∃ rt, s.pools.get? a.request.pool = some rt ∧ a.poolLimit = rt.limit) :
    LedgerStep s at_.ids at_.live
      (at_.step InMemoryCoordinator.coordinator a s.ambient pending s.coordinator).1.live
      (at_.step InMemoryCoordinator.coordinator a s.ambient pending s.coordinator).2 := by
  have hlive := ReservePhase.live_step a s.ambient pending s.coordinator at_
  refine ⟨?_, fun lease h => (hlive lease h).2⟩
  have hnone : ∀ l, at_.op? a = some (.release l) → (at_.step InMemoryCoordinator.coordinator a
      s.ambient pending s.coordinator).1.live = none := by
    intro l hl
    refine Option.eq_none_iff_forall_ne_some.mpr fun lease h => ?_
    exact (hlive lease h).1 l hl
  rw [ReservePhase.step_memory]
  cases at_ with
  | tenant =>
    refine Or.inr ⟨_, ⟨fun _ => hkey _ rfl, fun _ _ hscope => ?_, fun l hl => ?_⟩, rfl⟩
    · cases hscope
    · cases hl
  | application tenantSlot =>
    refine Or.inr ⟨_, ⟨fun _ => hkey _ rfl, fun _ _ hscope => ?_, fun l hl => ?_⟩, rfl⟩
    · cases hscope
    · cases hl
  | limit tenantSlot applicationSlot => exact Or.inl rfl
  | capacity tenantSlot applicationSlot tenantLimit =>
    refine Or.inr ⟨_, ⟨fun _ => hkey _ rfl, fun limit hlimit _ => ?_, fun l hl => ?_⟩, rfl⟩
    · obtain ⟨rt, hrt, heq⟩ := hpool
      exact ⟨rt, hrt, (Option.some.inj hlimit).symm.trans heq⟩
    · cases hl
  | undoApplication tenantSlot applicationSlot =>
    refine Or.inr ⟨_, ⟨fun hlim => ?_, fun _ hlim => ?_, fun l hl => ?_⟩, rfl⟩
    · cases hlim
    · cases hlim
    · cases hl
      exact ⟨mem_leaseIds_cons _ _, hnone _ rfl⟩
  | undoTenant tenantSlot =>
    refine Or.inr ⟨_, ⟨fun hlim => ?_, fun _ hlim => ?_, fun l hl => ?_⟩, rfl⟩
    · cases hlim
    · cases hlim
    · cases hl
      exact ⟨mem_leaseIds_cons _ _, hnone _ rfl⟩
  | finished r => exact Or.inl rfl

variable {P : Params F (LeaseState F)} {s : System F (LeaseState F)} {n : ℕ}
variable {ids : Multiset Uuid} {live live' : Option (Lease F)}

/-- A step that leaves the ledger alone. -/
theorem LedgerStep.same (h : ∀ lease, live' = some lease → live = some lease) :
    LedgerStep s ids live live' s.coordinator :=
  ⟨Or.inl rfl, fun lease hl => Or.inl (h lease hl)⟩

/-- And after which the task uses no lease. -/
theorem LedgerStep.unused : LedgerStep s ids live none s.coordinator :=
  LedgerStep.same fun _ h => nomatch h

/-- A renewal. -/
theorem LedgerStep.renew (hP : P.coordinator = InMemoryCoordinator.coordinator) (lease : Lease F)
    (ttl : ℕ) : LedgerStep s ids live live
      (P.coordinator.renew s.ambient s.coordinator lease ttl).2 := by
  rw [hP]
  refine ⟨Or.inr ⟨.renew lease ttl, ⟨fun h => ?_, fun _ h => ?_, fun _ h => ?_⟩, rfl⟩,
    fun lease hl => Or.inl hl⟩
  · cases h
  · cases h
  · cases h

/-- A release of a lease the task holds and does not use. -/
theorem LedgerStep.release (hP : P.coordinator = InMemoryCoordinator.coordinator) {lease : Lease F}
    (hid : lease.id ∈ ids) : LedgerStep s ids live none
      (P.coordinator.release s.ambient s.coordinator lease).2 := by
  rw [hP]
  refine ⟨Or.inr ⟨.release lease, ⟨fun h => ?_, fun _ h => ?_, fun l h => ?_⟩, rfl⟩,
    fun _ h => nomatch h⟩
  · cases h
  · cases h
  · cases h
    exact ⟨hid, rfl⟩

omit [Arith F] in
theorem attempt_spec {request : AdmissionRequest F} {config : Config F} {charged : F}
    {a : Attempt F} (h : s.attempt P request config charged = some a) :
    ∃ rt, s.pools.get? a.request.pool = some rt ∧ a.poolLimit = rt.limit := by
  obtain ⟨rt, hrt, rfl⟩ := Option.map_eq_some_iff.mp h
  exact ⟨rt, hrt, rfl⟩

omit [Arith F] in
theorem Phase.live_afterReserve (job : Job F) (charged : F) (at_ : ReservePhase F) :
    (afterReserve job charged at_).live = at_.live := by
  unfold afterReserve
  split <;> rfl

omit [Arith F] in
theorem Phase.live_afterLeave (job : Job F) (error : Option CoordinatorError) :
    (afterLeave job error).live = none := by
  cases error <;> rfl

omit [Arith F] in
theorem DispatchPhase.live_afterReserve (req : AdmissionRequest F) (p : Pending F)
    (config : Config F) (charged : F) (at_ : ReservePhase F) :
    (afterReserve req p config charged at_).live = at_.live := by
  fun_cases afterReserve req p config charged at_ with
  | case1 l => rfl
  | case2 r hr =>
    cases r with
    | error e => rfl
    | ok l =>
      cases l with
      | none => rfl
      | some l => exact absurd rfl (hr l)
  | case3 => rfl

omit [Arith F] in
theorem DispatchPhase.live_afterLeave (req : AdmissionRequest F) (q : Option (Pending F)) :
    (afterLeave req q).live = none := by
  cases q <;> rfl

omit [Arith F] in
theorem DispatchPhase.live_afterPop (r : Except String (Option (AdmissionRequest F))) :
    (afterPop r).live = none := by
  unfold afterPop
  split <;> rfl

/-- **A handler's step is a step of the ledger.** -/
theorem Phase.move_ledger (hP : P.coordinator = InMemoryCoordinator.coordinator)
    {phase : Phase F} {choice : Choice F} {m : Move F (LeaseState F) (Phase F)}
    (hn : s.handlers.get? n = some phase) (hok : noneExpired P s (.handler n choice) = true)
    (hm : phase.move P s n choice = some m) :
    LedgerStep s phase.ids phase.live m.next.live
      (m.effect.apply P (s.bump m.counter)).coordinator := by
  revert hm
  fun_cases Phase.move P s n phase choice <;> intro hm <;> cases hm
  all_goals try simp only [live_afterReserve, live_afterLeave]
  all_goals first
    | exact LedgerStep.unused
    | exact LedgerStep.same fun _ h => h
    | exact LedgerStep.renew hP _ _
    | exact LedgerStep.release hP (mem_leaseIds_cons _ _)
    | skip
  rename_i job charged at_ a ha r
  have hstep := ReservePhase.ledgerStep s.pendingTenants at_ (fun key hkey => ?_) (attempt_spec ha)
  · rw [← hP] at hstep
    exact hstep
  · simpa [noneExpired, System.reservesUnder, hn, ha, hkey] using hok

/-- **And so is one of the dispatcher.** -/
theorem DispatchPhase.move_ledger (hP : P.coordinator = InMemoryCoordinator.coordinator)
    {m : Move F (LeaseState F) (DispatchPhase F)} (hok : noneExpired P s .dispatch = true)
    (hm : s.dispatcher.move P s = some m) :
    LedgerStep s s.dispatcher.ids s.dispatcher.live m.next.live
      (m.effect.apply P (s.bump m.counter)).coordinator := by
  revert hm
  generalize hd : s.dispatcher = d
  fun_cases DispatchPhase.move P s d <;> intro hm <;> cases hm
  all_goals try simp only [live_afterReserve, live_afterLeave, live_afterPop]
  all_goals first
    | exact LedgerStep.unused
    | exact LedgerStep.same fun _ h => h
    | exact LedgerStep.release hP (mem_leaseIds_cons _ _)
    | skip
  rename_i req p config charged at_ a ha r
  have hstep := ReservePhase.ledgerStep s.pendingTenants at_ (fun key hkey => ?_) (attempt_spec ha)
  · rw [← hP] at hstep
    exact hstep
  · simpa [noneExpired, System.reservesUnder, hd, ha, hkey] using hok

end Ledger

/-! ## Who holds which lease -/

section Holders

variable {s : System F σ} {n n' k : ℕ} {phase phase' : Phase F} {lease : Lease F} {i : Uuid}

theorem mem_live : lease ∈ s.live ↔
    (∃ n phase, s.handlers.get? n = some phase ∧ phase.live = some lease) ∨
      s.dispatcher.live = some lease := by
  unfold System.live
  rw [List.mem_append, List.mem_filterMap, Option.mem_toList]
  refine or_congr_left ?_
  constructor
  · rintro ⟨phase, hmem, hlive⟩
    obtain ⟨n, hn⟩ := OrdMap.mem_values.mp hmem
    exact ⟨n, phase, hn, hlive⟩
  · rintro ⟨n, phase, hn, hlive⟩
    exact ⟨phase, OrdMap.mem_values.mpr ⟨n, hn⟩, hlive⟩

theorem AdmissionLeases.capacity_mem_ids (l : AdmissionLeases F) : l.capacity.id ∈ l.ids :=
  mem_leaseIds_cons _ _

/-- The lease of a guard is in use. -/
theorem Phase.live_of_guarded (h : phase.guarded = some lease) : phase.live = some lease := by
  cases phase with
  | loading job l => exact h
  | dispatching job l => exact h
  | opening job l throttled => exact h
  | streaming job l throttled due stage => exact h
  | closing job l response => exact h
  | _ => cases h

theorem optionalIds_mem {l : Option (AdmissionLeases F)} (h : l.map (·.capacity) = some lease) :
    lease.id ∈ optionalIds l := by
  obtain ⟨l, rfl, rfl⟩ := Option.map_eq_some_iff.mp h
  exact l.capacity_mem_ids

theorem ReservePhase.live_mem_ids {at_ : ReservePhase F} (h : at_.live = some lease) :
    lease.id ∈ at_.ids := by
  revert h
  fun_cases ReservePhase.live at_ with
  | case1 l =>
    intro h
    cases h
    exact l.capacity_mem_ids
  | case2 at_ hne =>
    intro h
    cases h

/-- **A lease in use is held.** -/
theorem Phase.live_mem_ids (h : phase.live = some lease) : lease.id ∈ phase.ids := by
  cases phase with
  | reserving job charged at_ => exact ReservePhase.live_mem_ids h
  | tracking job charged l =>
    cases h
    exact l.capacity_mem_ids
  | waiting job since l => exact optionalIds_mem h
  | admitted job l => exact optionalIds_mem h
  | loading job l => exact optionalIds_mem h
  | dispatching job l => exact optionalIds_mem h
  | opening job l throttled => exact optionalIds_mem h
  | streaming job l throttled due stage => exact optionalIds_mem h
  | closing job l response => exact optionalIds_mem h
  | _ => cases h

theorem DispatchPhase.live_mem_ids {d : DispatchPhase F} (h : d.live = some lease) :
    lease.id ∈ d.ids := by
  cases d with
  | reserving req p config charged at_ => exact ReservePhase.live_mem_ids h
  | tracking req p charged l =>
    cases h
    exact l.capacity_mem_ids
  | sending req p l =>
    cases h
    exact l.capacity_mem_ids
  | _ => cases h

/-- Two holders have no lease in common. -/
theorem Issued.disjoint {ids A B : Multiset Uuid} {next : Uuid} (h : Issued ids next)
    (hle : A + B ≤ ids) (hA : i ∈ A) : i ∉ B :=
  Multiset.disjoint_left.mp (Multiset.nodup_add.mp (Multiset.nodup_of_le hle h.nodup)).2.2 hA

theorem handler_ids_le (hn : s.handlers.get? n = some phase) :
    phase.ids ≤ s.handlers.sumOn fun _ phase => phase.ids := by
  rw [OrdMap.sumOn_eq_add_erase hn]
  exact Multiset.le_add_right _ _

theorem handlers_ids_le (hn : s.handlers.get? n = some phase)
    (hn' : s.handlers.get? n' = some phase') (hne : n' ≠ n) :
    phase.ids + phase'.ids ≤ s.ids := by
  have hrest : (s.handlers.erase n).get? n' = some phase' :=
    (OrdMap.get?_erase_of_ne hne).trans hn'
  unfold System.ids
  rw [OrdMap.sumOn_eq_add_erase hn, OrdMap.sumOn_eq_add_erase hrest, add_assoc, add_assoc,
    add_assoc, ← add_assoc]
  exact Multiset.le_add_right _ _

theorem handler_dispatcher_ids_le (hn : s.handlers.get? n = some phase) :
    phase.ids + s.dispatcher.ids ≤ s.ids :=
  (add_le_add (handler_ids_le hn) le_rfl).trans (Multiset.le_add_right _ _)

theorem release_ids_le {rest : List (Lease F)} (hk : s.releases.get? k = some rest) :
    s.handlers.sumOn (fun _ phase => phase.ids) + s.dispatcher.ids + leaseIds rest ≤ s.ids := by
  unfold System.ids
  rw [OrdMap.sumOn_eq_add_erase hk]
  exact add_le_add le_rfl (Multiset.le_add_right _ _)

/-- What a receiver uses after a delivery was delivered. -/
theorem Phase.receive_live {l : AdmissionLeases F} (h : phase.receive l = some phase')
    (hl : phase'.live = some lease) : lease = l.capacity := by
  revert h
  fun_cases Phase.receive l phase <;> intro h <;> cases h <;> cases hl
  rfl

end Holders

/-! ## The bound along a run -/

section Bound

variable {s t : System ℚ (LeaseState ℚ)} {ids : Multiset Uuid} {live live' : Option (Lease ℚ)}
variable {all : LeaseState ℚ} {lease : Lease ℚ} {pool : String}

/-- **A lease in use stays stored**: no reservation purges it, and only the
task that holds it could release it. -/
theorem LedgerStep.keeps (h : LedgerStep s ids live live' all) (hlive : lease ∈ s.live)
    (hstored : Stored s.coordinator lease) (hlt : lease.id < s.nextId)
    (hheld : lease.id ∉ ids ∨ live' ≠ none) : Stored all lease := by
  obtain ⟨e, he, hunits, hscope⟩ := hstored
  rcases h.step with rfl | ⟨op, hop, rfl⟩
  · exact ⟨e, he, hunits, hscope⟩
  · have hkept := InMemoryCoordinator.entry_kept (c := ⟨s.now, s.nextId, op⟩) he ?_ ?_
    · obtain ⟨e', he', hu, hs⟩ := hkept
      exact ⟨e', he', hu.trans hunits, hs ▸ hscope⟩
    · intro hlim hpool
      refine ⟨?_, ne_of_lt hlt⟩
      have hun := hop.unexpired hlim
      rw [show op.pool = lease.pool from hpool] at hun
      simpa [he] using List.all_eq_true.mp hun lease hlive
    · intro l hl heq
      obtain ⟨hid, hnone⟩ := hop.release l hl
      rcases hheld with hnot | hne
      · exact hnot (heq ▸ hid)
      · exact hne hnone

theorem LedgerStep.nonNeg (h : LedgerStep s ids live live' all)
    (hn : ∀ pool, NonNeg (leasesOf s.coordinator pool)) (pool : String) :
    NonNeg (leasesOf all pool) := by
  rcases h.step with rfl | ⟨op, -, rfl⟩
  · exact hn pool
  · by_cases hp : pool = op.pool
    · subst hp
      exact (InMemoryCoordinator.apply_change s.coordinator ⟨s.now, s.nextId, op⟩).nonNeg (hn _)
    · have hget := InMemoryCoordinator.get?_apply_of_ne s.coordinator ⟨s.now, s.nextId, op⟩ hp
      unfold leasesOf
      rw [hget]
      exact hn pool

/-- **The units reserved in a pool stay within its limit.** -/
theorem LedgerStep.bounded (h : LedgerStep s ids live live' all)
    (hn : ∀ pool, NonNeg (leasesOf s.coordinator pool)) {rt : PoolRuntime ℚ}
    (hrt : s.pools.get? pool = some rt)
    (hb : unitsIn Option.isSome (leasesOf s.coordinator pool) ≤ rt.limit) :
    unitsIn Option.isSome (leasesOf all pool) ≤ rt.limit := by
  rcases h.step with rfl | ⟨op, hop, rfl⟩
  · exact hb
  · by_cases hp : pool = op.pool
    · subst hp
      refine (InMemoryCoordinator.apply_change s.coordinator ⟨s.now, s.nextId, op⟩).scoped_le
        (hn _) hb fun limit hlim hscope => ?_
      obtain ⟨rt', hrt', rfl⟩ := hop.limit limit hlim hscope
      rw [hrt] at hrt'
      exact (congrArg PoolRuntime.limit (Option.some.inj hrt')).ge
    · have hget := InMemoryCoordinator.get?_apply_of_ne s.coordinator ⟨s.now, s.nextId, op⟩ hp
      unfold leasesOf
      rw [hget]
      exact hb

/-- No effect changes the limit of a pool. -/
theorem limit_apply {P : Params ℚ (LeaseState ℚ)} {e : Effect ℚ (LeaseState ℚ)}
    {rt : PoolRuntime ℚ} (h : (e.apply P s).pools.get? pool = some rt) :
    ∃ rt', s.pools.get? pool = some rt' ∧ rt'.limit = rt.limit := by
  have honPool : ∀ name f, (s.onPool name f).get? pool = some rt →
      ∃ rt', s.pools.get? pool = some rt' ∧ rt'.limit = rt.limit := by
    intro name f h
    unfold System.onPool at h
    split at h
    · exact ⟨rt, h, rfl⟩
    · rename_i old hold
      rcases OrdMap.get?_insert_eq_some.mp h with ⟨rfl, rfl⟩ | ⟨-, h⟩
      · exact ⟨old, hold, rfl⟩
      · exact ⟨rt, h, rfl⟩
  cases e with
  | track name id units => exact honPool _ _ h
  | settle name id predicted actual throttled => exact honPool _ _ h
  | _ => exact ⟨rt, h, rfl⟩

/-- **The leases in use are in the ledger, and the ledger is within the
limits.** -/
structure PoolBound (s : System ℚ (LeaseState ℚ)) : Prop where
  linked : Linked s
  issued : Issued s.ids s.nextId
  stored : ∀ lease ∈ s.live, Stored s.coordinator lease
  nonNeg : ∀ pool, NonNeg (leasesOf s.coordinator pool)
  bounded : ∀ pool rt, s.pools.get? pool = some rt →
    unitsIn Option.isSome (leasesOf s.coordinator pool) ≤ rt.limit

/-- A lease in use has an id given out. -/
theorem PoolBound.live_lt (h : PoolBound s) (hlive : lease ∈ s.live) : lease.id < s.nextId := by
  refine h.issued.lt _ ?_
  rcases mem_live.mp hlive with ⟨n, phase, hn, hl⟩ | hd
  · refine Multiset.mem_of_le ?_ (Phase.live_mem_ids hl)
    exact (handler_ids_le hn).trans ((Multiset.le_add_right _ _).trans (Multiset.le_add_right _ _))
  · refine Multiset.mem_of_le ?_ (DispatchPhase.live_mem_ids hd)
    exact (Multiset.le_add_left _ _).trans (Multiset.le_add_right _ _)

/-- **What the ledger's step leaves to show** is where the leases in use
are. -/
theorem PoolBound.of_step {P : Params ℚ (LeaseState ℚ)} {e : Effect ℚ (LeaseState ℚ)}
    (h : PoolBound s) (hlinked : Linked t) (hissued : Issued t.ids t.nextId)
    (hpools : t.pools = (e.apply P s).pools)
    (hstep : LedgerStep s ids live live' t.coordinator)
    (hlive : ∀ lease ∈ t.live, Stored t.coordinator lease) : PoolBound t where
  linked := hlinked
  issued := hissued
  stored := hlive
  nonNeg := hstep.nonNeg h.nonNeg
  bounded pool rt hrt := by
    rw [hpools] at hrt
    obtain ⟨rt', hrt', hlim⟩ := limit_apply hrt
    rw [← hlim]
    exact hstep.bounded h.nonNeg hrt' (h.bounded pool rt' hrt')

/-- A lease in use stays stored, if the task that steps does not hold its
id, or goes on with it. -/
theorem PoolBound.keeps (h : PoolBound s) (hstep : LedgerStep s ids live live' all)
    (hlive : lease ∈ s.live) (hheld : lease.id ∉ ids ∨ live' ≠ none) : Stored all lease :=
  hstep.keeps hlive (h.stored lease hlive) (h.live_lt hlive) hheld

/-- The lease of the task that steps is stored, if it has one after. -/
theorem PoolBound.stepped_stored (h : PoolBound s) (hstep : LedgerStep s ids live live' all)
    (hold : ∀ lease, live = some lease → lease ∈ s.live) (hl : live' = some lease) :
    Stored all lease := by
  rcases hstep.live lease hl with hbefore | hnew
  · refine h.keeps hstep (hold lease hbefore) (Or.inr ?_)
    rw [hl]
    exact Option.some_ne_none lease
  · exact hnew

/-- After a step of a handler the leases in use are still stored. -/
theorem PoolBound.handler_stored {P : Params ℚ (LeaseState ℚ)} (h : PoolBound s) {n : ℕ}
    {choice : Choice ℚ} {phase : Phase ℚ} {m : Move ℚ (LeaseState ℚ) (Phase ℚ)}
    (hstep : LedgerStep s phase.ids phase.live m.next.live
      (m.effect.apply P (s.bump m.counter)).coordinator)
    (hn : s.handlers.get? n = some phase) (hm : phase.move P s n choice = some m) (lease : Lease ℚ)
    (hl : lease ∈ ((m.effect.apply P (s.bump m.counter)).goto n m.next).live) :
    Stored (m.effect.apply P (s.bump m.counter)).coordinator lease := by
  have hhandlers : (m.effect.apply P (s.bump m.counter)).handlers = s.handlers :=
    Effect.apply_handlers (Phase.move_not_deliver hm)
  rcases mem_live.mp hl with ⟨n', phase', hn', hl'⟩ | hd
  · rcases System.goto_get? hn' with ⟨-, rfl⟩ | ⟨hne, hn'⟩
    · exact h.stepped_stored hstep (fun l hl => mem_live.mpr (Or.inl ⟨n, phase, hn, hl⟩)) hl'
    · rw [hhandlers] at hn'
      refine h.keeps hstep (mem_live.mpr (Or.inl ⟨n', phase', hn', hl'⟩)) (Or.inl fun hid => ?_)
      exact h.issued.disjoint (handlers_ids_le hn hn' hne) hid (Phase.live_mem_ids hl')
  · rw [System.goto, Effect.apply_dispatcher] at hd
    refine h.keeps hstep (mem_live.mpr (Or.inr hd)) (Or.inl fun hid => ?_)
    exact h.issued.disjoint (handler_dispatcher_ids_le hn) hid (DispatchPhase.live_mem_ids hd)

/-- After a step of the dispatcher the leases in use are still stored. -/
theorem PoolBound.dispatch_stored {P : Params ℚ (LeaseState ℚ)} (h : PoolBound s)
    {m : Move ℚ (LeaseState ℚ) (DispatchPhase ℚ)}
    (hstep : LedgerStep s s.dispatcher.ids s.dispatcher.live m.next.live
      (m.effect.apply P (s.bump m.counter)).coordinator)
    (hm : s.dispatcher.move P s = some m) (lease : Lease ℚ)
    (hl : lease ∈ System.live { m.effect.apply P (s.bump m.counter) with dispatcher := m.next }) :
    Stored (m.effect.apply P (s.bump m.counter)).coordinator lease := by
  rcases mem_live.mp hl with ⟨n, phase, hn, hl⟩ | hl
  · rw [Effect.apply_bump] at hn
    rcases DispatchPhase.move_get? hm hn with hn | ⟨req, p, l, old, hsend, he, -, hr⟩
    · refine h.keeps hstep (mem_live.mpr (Or.inl ⟨n, phase, hn, hl⟩)) (Or.inl ?_)
      exact h.issued.disjoint (handler_dispatcher_ids_le hn) (Phase.live_mem_ids hl)
    · -- the lease changes hands, and the ledger stays as it is
      rw [he, Phase.receive_live hr hl]
      exact h.stored _ (mem_live.mpr (Or.inr (hsend ▸ rfl)))
  · exact h.stepped_stored hstep (fun l hl => mem_live.mpr (Or.inr hl)) hl

/-- A new handler holds nothing. -/
theorem PoolBound.arrive (h : PoolBound s) {first : Phase ℚ} {c : Option Counter}
    (hids : first.ids = 0) (hlive : first.live = none)
    (hlinked : Linked { (s.bump c).goto s.nextTask first with nextTask := s.nextTask + 1 }) :
    PoolBound { (s.bump c).goto s.nextTask first with nextTask := s.nextTask + 1 } := by
  refine ⟨hlinked, ?_, fun lease hl => ?_, h.nonNeg, h.bounded⟩
  · have hissued := h.issued
    unfold System.ids at hissued ⊢
    simp only [System.goto, System.bump]
    rw [h.linked.sumOn_arrive, hids, zero_add]
    exact hissued
  · rcases mem_live.mp hl with ⟨n, phase, hn, hl⟩ | hd
    · rcases System.goto_get? hn with ⟨-, rfl⟩ | ⟨-, hn⟩
      · rw [hlive] at hl
        cases hl
      · exact h.stored lease (mem_live.mpr (Or.inl ⟨n, phase, hn, hl⟩))
    · exact h.stored lease (mem_live.mpr (Or.inr hd))

/-- No lease in use is in the hands of a release task. -/
theorem PoolBound.not_releasing (h : PoolBound s) {k : ℕ} {rest : List (Lease ℚ)}
    (hk : s.releases.get? k = some rest) (hl : lease ∈ s.live) : lease.id ∉ leaseIds rest := by
  refine h.issued.disjoint (release_ids_le hk) ?_
  rcases mem_live.mp hl with ⟨n, phase, hn, hl⟩ | hd
  · exact Multiset.mem_add.mpr
      (Or.inl (Multiset.mem_of_le (handler_ids_le hn) (Phase.live_mem_ids hl)))
  · exact Multiset.mem_add.mpr (Or.inr (DispatchPhase.live_mem_ids hd))

/-- **Every step keeps the bound**, if a reservation finds no expired lease
in use. -/
theorem PoolBound.step {P : Params ℚ (LeaseState ℚ)}
    (hP : P.coordinator = InMemoryCoordinator.coordinator) {a : Action ℚ} (h : PoolBound s)
    (hok : noneExpired P s a = true) (hs : step P s a = some t) : PoolBound t := by
  have hlinked := h.linked.step hs
  have hC : P.coordinator.Lawful InMemoryCoordinator.Held :=
    hP ▸ InMemoryCoordinator.coordinator_lawful
  cases stepped hs with
  | arrive => exact h.arrive (by cases s.draining <;> rfl) (by cases s.draining <;> rfl) hlinked
  | @handler n choice phase m hn hm =>
    have hstep := Phase.move_ledger hP hn hok hm
    refine h.of_step (P := P) (e := m.effect) hlinked (issued_handler hC h.issued hn hm) ?_ hstep
      (h.handler_stored hstep hn hm)
    cases m.effect <;> rfl
  | @dispatch m hm =>
    have hstep := DispatchPhase.move_ledger hP hok hm
    refine h.of_step (P := P) (e := m.effect) hlinked (issued_dispatch hC h.issued hm) ?_ hstep
      (h.dispatch_stored hstep hm)
    cases m.effect <;> rfl
  | @release k lease rest hk =>
    have hstep : LedgerStep s (leaseIds (lease :: rest)) none none
        (P.coordinator.release s.ambient s.coordinator lease).2 :=
      LedgerStep.release hP (mem_leaseIds_cons lease rest)
    refine h.of_step (P := P) (e := .silent) hlinked (h.issued.issue.mono ?_) rfl hstep
      fun l hl => h.keeps hstep hl (Or.inl (h.not_releasing hk hl))
    refine le_trans ?_ (Multiset.le_add_right _ _)
    unfold System.ids
    refine add_le_add le_rfl ?_
    change (s.releases.insert k rest).sumOn (fun _ rest => leaseIds rest) ≤ _
    rw [OrdMap.sumOn_insert, OrdMap.sumOn_eq_add_erase hk, leaseIds_cons]
    exact add_le_add (Multiset.le_add_left _ _) le_rfl
  | advance d => exact ⟨hlinked, h.issued, h.stored, h.nonNeg, h.bounded⟩
  | reload config => exact ⟨hlinked, h.issued, h.stored, h.nonNeg, h.bounded⟩
  | drain => exact ⟨hlinked, h.issued, h.stored, h.nonNeg, h.bounded⟩

/-- The ids under guards are held, each by its handler. -/
theorem guarded_ids_le (entries : List (ℕ × Phase ℚ)) :
    leaseIds ((entries.map Prod.snd).filterMap Phase.guarded) ≤
      (entries.map fun e => e.2.ids).sum := by
  induction entries with
  | nil => exact Multiset.zero_le _
  | cons e entries ih =>
    rw [List.map_cons, List.map_cons, List.sum_cons, List.filterMap_cons]
    split
    · exact ih.trans (Multiset.le_add_left _ _)
    · rename_i lease hlease
      rw [leaseIds_cons]
      refine add_le_add ?_ ih
      exact Multiset.singleton_le.mpr (Phase.live_mem_ids (Phase.live_of_guarded hlease))

/-- Guards in a pool hold distinct leases. -/
theorem PoolBound.guards_nodup (h : PoolBound s) (pool : String) :
    ((s.guards pool).map (·.id)).Nodup := by
  have hle : leaseIds (s.handlers.values.filterMap Phase.guarded) ≤ s.ids :=
    (guarded_ids_le s.handlers.entries).trans
      ((Multiset.le_add_right _ _).trans (Multiset.le_add_right _ _))
  have hnd := Multiset.coe_nodup.mp (Multiset.nodup_of_le hle h.issued.nodup)
  exact hnd.sublist (List.filter_sublist.map _)

/-- **The units in flight are units of the ledger.** -/
theorem PoolBound.inFlight_le (h : PoolBound s) {rt : PoolRuntime ℚ}
    (hrt : s.pools.get? pool = some rt) : s.inFlight pool ≤ rt.limit := by
  set f : Uuid → InMemoryCoordinator.Entry ℚ → ℚ :=
    fun _ e => if e.scope.isSome then e.units else 0 with hf
  have hunits : (s.guards pool).map (·.units) = ((s.guards pool).map (·.id)).map fun id =>
      ((leasesOf s.coordinator pool).get? id).elim 0 (f id) := by
    rw [List.map_map]
    refine List.map_congr_left fun lease hlease => ?_
    obtain ⟨hmem, hpool⟩ := List.mem_filter.mp hlease
    obtain ⟨phase, hphase, hguard⟩ := List.mem_filterMap.mp hmem
    obtain ⟨n, hn⟩ := OrdMap.mem_values.mp hphase
    obtain ⟨e, he, hu, hscope⟩ := h.stored lease
      (mem_live.mpr (Or.inl ⟨n, phase, hn, Phase.live_of_guarded hguard⟩))
    rw [of_decide_eq_true hpool] at he
    simp [he, hf, hscope, hu]
  calc s.inFlight pool
      = (((s.guards pool).map (·.id)).map fun id =>
          ((leasesOf s.coordinator pool).get? id).elim 0 (f id)).sum := by
        rw [System.inFlight, hunits]
    _ ≤ (leasesOf s.coordinator pool).sumOn f :=
        OrdMap.sum_get?_le_sumOn ((h.nonNeg pool).weight Option.isSome) (h.guards_nodup pool)
    _ ≤ rt.limit := h.bounded pool rt hrt

/-- A proxy built from a validated configuration starts within its limits. -/
theorem poolBound_build {ext : External} {config : Config ℚ}
    (h : Config.validate ext config = .ok ()) : PoolBound (System.build config ∅) where
  linked := linked_build config ∅
  issued := ⟨Multiset.nodup_zero, fun id hid => absurd hid (Multiset.notMem_zero id)⟩
  stored lease hlease := absurd hlease List.not_mem_nil
  nonNeg pool e he := absurd he List.not_mem_nil
  bounded pool rt hrt := by
    change (config.pools.mapVal _).get? pool = some rt at hrt
    rw [OrdMap.get?_mapVal] at hrt
    obtain ⟨cfg, hcfg, rfl⟩ := Option.map_eq_some_iff.mp hrt
    have hpos := ((Config.checked_of_validate h).pools _ (OrdMap.get?_eq_some.mp hcfg)).2.1
    exact le_of_lt (not_le.mp hpos)

/-- **The hard limit.** In a run from a validated configuration whose
reservations find no expired lease of their pool in use, the units in
flight in a pool never exceed its limit. -/
theorem in_flight_within_limit {ext : External} {config : Config ℚ}
    (hvalid : Config.validate ext config = .ok ()) {P : Params ℚ (LeaseState ℚ)}
    (hP : P.coordinator = InMemoryCoordinator.coordinator) {es : List (Action ℚ)}
    (hrun : Trace (Guarded (fun s a => noneExpired P s a = true) (StepOf (step P)))
      (System.build config ∅) es s) {rt : PoolRuntime ℚ} (hrt : s.pools.get? pool = some rt) :
    s.inFlight pool ≤ rt.limit := by
  have h : PoolBound s := hrun.invariant (poolBound_build hvalid) fun h hs => h.step hP hs.1 hs.2
  exact h.inFlight_le hrt

end Bound

/-- A request of another tenant. -/
def otherArrival (id : Uuid) (units : ℚ) : Arrival ℚ :=
  { sampleArrival id units with identity := ⟨"principal", "other", "other", true⟩ }

/-- Two requests are admitted, some time apart, while neither provider has
answered. -/
def admitsBoth (first second : ℚ) (apart : ℕ) : List (Action ℚ) :=
  admits 0 (sampleArrival 1 first) ++ [.advance apart] ++ admits 1 (otherArrival 2 second)

/-- Within the lifetime of the first lease the second request gets what is
left: ten units are in flight, of a limit of ten. -/
theorem in_flight_within_limit_full :
    ∃ s rt, Trace (Guarded
        (fun s a => noneExpired (Params.inMemory (Config.minimal .enforce [])) s a = true)
        (StepOf (step (Params.inMemory (Config.minimal .enforce [])))))
        (System.build (Config.minimal .enforce []) ∅) (admitsBoth 6 4 299999999999) s ∧
      s.pools.get? "primary" = some rt ∧ s.inFlight "primary" = 10 ∧
      s.inFlight "primary" ≤ rt.limit := by
  have hrun : ((admitsBoth 6 4 299999999999).foldlM
      (fun s a => if noneExpired (Params.inMemory (Config.minimal .enforce [])) s a
        then step (Params.inMemory (Config.minimal .enforce [])) s a else none)
      (System.build (Config.minimal .enforce []) ∅)).any
      (fun s => (s.pools.get? "primary").isSome && s.inFlight "primary" == 10) = true := by
    decide +kernel
  obtain ⟨s, htrace, hend⟩ := Trace.exists_guarded_of_any hrun
  obtain ⟨hpool, hflight⟩ := Bool.and_eq_true_iff.mp hend
  obtain ⟨rt, hrt⟩ := Option.isSome_iff_exists.mp hpool
  have hvalid : Config.validate Config.noParsers (Config.minimal .enforce []) = .ok () := by
    decide +kernel
  exact ⟨s, rt, htrace, hrt, beq_iff_eq.mp hflight,
    in_flight_within_limit hvalid rfl htrace hrt⟩

/-- **A lease that expires under its guard admits a second request in its
place.** After five minutes without an answer from the first provider,
twelve units are in flight, of a limit of ten. -/
theorem expired_lease_exceeds_limit :
    Config.validate Config.noParsers (Config.minimal .enforce []) = .ok () ∧
      ∃ s rt, Trace (StepOf (step (Params.inMemory (Config.minimal .enforce []))))
          (System.build (Config.minimal .enforce []) ∅) (admitsBoth 6 6 300000000000) s ∧
        s.pools.get? "primary" = some rt ∧ rt.limit = 10 ∧ s.inFlight "primary" = 12 := by
  refine ⟨by decide +kernel, ?_⟩
  have hrun : ((admitsBoth 6 6 300000000000).foldlM
      (step (Params.inMemory (Config.minimal .enforce [])))
      (System.build (Config.minimal .enforce []) ∅)).any
      (fun s => (s.pools.get? "primary").any (fun rt => rt.limit == 10) &&
        s.inFlight "primary" == 12) = true := by
    decide +kernel
  obtain ⟨s, htrace, hend⟩ := Trace.exists_of_any hrun
  obtain ⟨hpool, hflight⟩ := Bool.and_eq_true_iff.mp hend
  obtain ⟨rt, hrt, hlimit⟩ := (Option.any_eq_true _ _).mp hpool
  exact ⟨s, rt, htrace, hrt, beq_iff_eq.mp hlimit, beq_iff_eq.mp hflight⟩

end Proxy

end InferQos
