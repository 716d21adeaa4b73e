import InferQos.Config.Model
import InferQos.Coordinator.Model
/-!
# The pieces of admission

The concurrency counters, the share a tenant may take of a pool, and
`reserve_distributed`: three reservations in a row, with a release for
each already made when a later one is refused.
-/

namespace InferQos

namespace Proxy

variable {F σ : Type}

/-! ## Concurrency -/

/-- `ConcurrencyState`: how many claims each name holds. A name at zero is
absent. -/
structure ConcurrencyState where
  tenants : OrdMap String ℕ
  applications : OrdMap String ℕ

/-- `values.get(key).copied().unwrap_or(0)`. -/
def count (values : OrdMap String ℕ) (key : String) : ℕ := (values.get? key).getD 0

/-- `*values.entry(key).or_default() += 1`. -/
def increment (values : OrdMap String ℕ) (key : String) : OrdMap String ℕ :=
  values.insert key (count values key + 1)

/-- `decrement`: saturating, and an entry that reaches zero is removed. -/
def decrement (values : OrdMap String ℕ) (key : String) : OrdMap String ℕ :=
  match values.get? key with
  | none => values
  | some value => if value - 1 = 0 then values.erase key else values.insert key (value - 1)

/-- `force_enter`. -/
def forceEnter (active : ConcurrencyState) (identity : IdentityContext) : ConcurrencyState :=
  ⟨increment active.tenants identity.tenant, increment active.applications identity.application⟩

/-- `try_enter`: `none` when a limit is reached. -/
def tryEnter (config : Config F) (active : ConcurrencyState) (identity : IdentityContext) :
    Option ConcurrencyState :=
  if config.tenantConcurrency identity.tenant ≤ count active.tenants identity.tenant ∨
      config.applicationConcurrency identity.application ≤
        count active.applications identity.application then
    none
  else some (forceEnter active identity)

/-- `leave`. -/
def leave (active : ConcurrencyState) (identity : IdentityContext) : ConcurrencyState :=
  ⟨decrement active.tenants identity.tenant, decrement active.applications identity.application⟩

/-! ## Shares -/

section

variable [Arith F]

/-- `tenant_capacity_limit`, given the tenants of the pending requests. -/
def tenantCapacityLimit (config : Config F) (pending : List String) (tenant : String)
    (poolLimit : F) : F :=
  let ownGuarantee := config.guaranteedShare tenant
  let configuredMax := config.maxShare tenant
  let competing := StringSet.ofList (pending.filter (· ≠ tenant))
  if competing.keys.isEmpty then poolLimit * configuredMax
  else
    let competingGuarantees := Arith.sum (competing.keys.map config.guaranteedShare)
    let reclaimableShare :=
      max (Arith.lit 1 - min competingGuarantees (Arith.lit 1)) ownGuarantee
    poolLimit * min configuredMax reclaimableShare

end

/-! ## Reservation -/

/-- `AdmissionLeases`. -/
structure AdmissionLeases (F : Type) where
  capacity : Lease F
  tenantSlot : Lease F
  applicationSlot : Lease F
  deriving DecidableEq

/-- The arguments of `reserve_distributed`, with the `lease_ttl` it reads. -/
structure Attempt (F : Type) where
  request : AdmissionRequest F
  config : Config F
  poolLimit : F
  charged : F
  leaseTtl : ℕ

namespace Attempt

variable (a : Attempt F)

/-- `format!("__concurrency__:{}:tenant:{}", ..)`. -/
def tenantKey : String :=
  "__concurrency__:" ++ a.request.pool ++ ":tenant:" ++ a.request.identity.tenant

/-- `format!("__concurrency__:{}:application:{}", ..)`. -/
def applicationKey : String :=
  "__concurrency__:" ++ a.request.pool ++ ":application:" ++ a.request.identity.application

variable [Arith F] (C : Coordinator F σ)

/-- The reservation of the tenant slot. -/
def reserveTenant (env : Ambient) (s : σ) : Except CoordinatorError (Option (Lease F)) × σ :=
  C.reserve env s a.tenantKey (Arith.lit (a.config.tenantConcurrency a.request.identity.tenant))
    (Arith.lit 1) a.leaseTtl

/-- The reservation of the application slot. -/
def reserveApplication (env : Ambient) (s : σ) :
    Except CoordinatorError (Option (Lease F)) × σ :=
  C.reserve env s a.applicationKey
    (Arith.lit (a.config.applicationConcurrency a.request.identity.application))
    (Arith.lit 1) a.leaseTtl

/-- The reservation of the capacity itself, under the limit read for its
tenant. -/
def reserveCapacity (env : Ambient) (s : σ) (tenantLimit : F) :
    Except CoordinatorError (Option (Lease F)) × σ :=
  C.reserveScoped env s a.request.pool a.request.identity.tenant a.poolLimit tenantLimit a.charged
    a.leaseTtl

/-- The limit read between the second and the third reservation. -/
def tenantLimit (pending : List String) : F :=
  tenantCapacityLimit a.config pending a.request.identity.tenant a.poolLimit

end Attempt

section

variable [Arith F] (C : Coordinator F σ)

/-- **`reserve_distributed`**, undisturbed. `env` is what each step finds
around it, in order, and `pending` the tenants waiting when the limit is
read, which is the third step of the path that gets there. Each `?` of the
source is the error branch it returns from. -/
def reserveDistributed (env : ℕ → Ambient) (a : Attempt F) (pending : List String) (s : σ) :
    Except CoordinatorError (Option (AdmissionLeases F)) × σ :=
  match a.reserveTenant C (env 0) s with
  | (.error e, s) => (.error e, s)
  | (.ok none, s) => (.ok none, s)
  | (.ok (some tenantSlot), s) =>
    match a.reserveApplication C (env 1) s with
    | (.error e, s) => (.error e, s)
    | (.ok none, s) =>
      match C.release (env 2) s tenantSlot with
      | (.error e, s) => (.error e, s)
      | (.ok (), s) => (.ok none, s)
    | (.ok (some applicationSlot), s) =>
      match a.reserveCapacity C (env 3) s (a.tenantLimit pending) with
      | (.error e, s) => (.error e, s)
      | (.ok none, s) =>
        match C.release (env 4) s applicationSlot with
        | (.error e, s) => (.error e, s)
        | (.ok (), s) =>
          match C.release (env 5) s tenantSlot with
          | (.error e, s) => (.error e, s)
          | (.ok (), s) => (.ok none, s)
      | (.ok (some capacity), s) => (.ok (some ⟨capacity, tenantSlot, applicationSlot⟩), s)

end

end Proxy

end InferQos
