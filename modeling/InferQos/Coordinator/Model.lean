import InferQos.Common.OrdMap
import InferQos.Core
/-!
# Capacity reservation

The `Coordinator` trait, and the in-memory coordinator: a ledger of leases
per pool. Expiry is lazy. Only a reservation purges expired entries, and
only those of the pool it reserves in; a release removes its entry and a
renewal moves its expiry, whether or not it has passed.

`Instant::now` and `Uuid::new_v4` are arguments here. The iteration order
of a `HashMap` is fixed to that of its keys, which matters to a sum of
`f64` only in its rounding.
-/

namespace InferQos

/-- A reservation as its holder sees it. -/
structure Lease (F : Type) where
  id : Uuid
  pool : String
  units : F
  expiresAt : ℕ
  scope : Option String
  deriving DecidableEq

/-- `CoordinatorError`; the payloads are the texts of the errors they
wrap. -/
inductive CoordinatorError
  | invalidUnits
  | clock
  | redis (detail : String)
  | unhealthy (detail : String)
  deriving DecidableEq

/-- What a call finds around it: the clock, and the id `Uuid::new_v4` would
answer. -/
structure Ambient where
  now : ℕ
  id : Uuid

/-- **The trait**, over the state of an implementation and of whatever it
talks to. -/
structure Coordinator (F σ : Type) where
  reserve : Ambient → σ → (pool : String) → (limit units : F) → (ttl : ℕ) →
    Except CoordinatorError (Option (Lease F)) × σ
  reserveScoped : Ambient → σ → (pool scope : String) → (poolLimit scopeLimit units : F) →
    (ttl : ℕ) → Except CoordinatorError (Option (Lease F)) × σ
  release : Ambient → σ → Lease F → Except CoordinatorError Unit × σ
  renew : Ambient → σ → Lease F → (ttl : ℕ) → Except CoordinatorError Bool × σ

namespace Coordinator

variable {F σ : Type}

/-- One call that fails if the next failure to come says so, before it
reaches the state. -/
def failing {α : Type} (call : σ → Except CoordinatorError α × σ)
    (s : σ × List (Option CoordinatorError)) :
    Except CoordinatorError α × σ × List (Option CoordinatorError) :=
  match s.2.head? with
  | some (some e) => (.error e, s.1, s.2.tail)
  | _ => ((call s.1).1, (call s.1).2, s.2.tail)

/-- **A coordinator whose calls may fail**, by a connection error say. The
failures to come are part of the state. -/
def unreliable (C : Coordinator F σ) : Coordinator F (σ × List (Option CoordinatorError)) where
  reserve env s pool limit units ttl := failing (C.reserve env · pool limit units ttl) s
  reserveScoped env s pool scope poolLimit scopeLimit units ttl :=
    failing (C.reserveScoped env · pool scope poolLimit scopeLimit units ttl) s
  release env s lease := failing (C.release env · lease) s
  renew env s lease ttl := failing (C.renew env · lease ttl) s

end Coordinator

namespace InMemoryCoordinator

variable {F : Type}

/-- What the ledger stores for a lease. -/
structure Entry (F : Type) where
  units : F
  expires : ℕ
  scope : Option String
  deriving DecidableEq

/-- The leases of one pool, by id. -/
abbrev PoolLeases (F : Type) := OrdMap Uuid (Entry F)

/-- The state of the in-memory coordinator. -/
abbrev LeaseState (F : Type) := OrdMap String (PoolLeases F)

/-- `all.entry(pool).or_default()`. -/
def leasesOf (all : LeaseState F) (pool : String) : PoolLeases F := (all.get? pool).getD ∅

/-- `leases.retain(|_, (_, expires, _)| *expires > now)`. -/
def retain (now : ℕ) (leases : PoolLeases F) : PoolLeases F :=
  leases.filter fun _ e => now < e.expires

/-- The lease a grant answers with, and the entry it stores. -/
def grant (now : ℕ) (id : Uuid) (all : LeaseState F) (pool : String) (leases : PoolLeases F)
    (units : F) (ttl : ℕ) (scope : Option String) : Option (Lease F) × LeaseState F :=
  let lease : Lease F := ⟨id, pool, units, now + ttl, scope⟩
  (some lease, all.insert pool (leases.insert id ⟨units, lease.expiresAt, scope⟩))

section

variable [Arith F]

/-- The units of every entry. -/
def used (leases : PoolLeases F) : F := Arith.sum (leases.values.map (·.units))

/-- The units of the entries of one scope. -/
def scopeUsed (scope : String) (leases : PoolLeases F) : F :=
  Arith.sum ((leases.values.filter fun e => e.scope = some scope).map (·.units))

/-- `validate_limits`. -/
def validateLimits (poolLimit scopeLimit units : F) : Except CoordinatorError Unit :=
  if !Arith.isFinite poolLimit || !Arith.isFinite scopeLimit || !Arith.isFinite units ||
      decide (poolLimit < Arith.lit 0) || decide (scopeLimit < Arith.lit 0) ||
      decide (units < Arith.lit 0) then
    .error .invalidUnits
  else .ok ()

/-- `InMemoryCoordinator::reserve`. The limit is not validated. -/
def reserve (now : ℕ) (id : Uuid) (all : LeaseState F) (pool : String) (limit units : F)
    (ttl : ℕ) : Except CoordinatorError (Option (Lease F)) × LeaseState F :=
  if !Arith.isFinite units || decide (units < Arith.lit 0) then (.error .invalidUnits, all)
  else
    let leases := retain now (leasesOf all pool)
    if limit < used leases + units then (.ok none, all.insert pool leases)
    else
      let (lease, all) := grant now id all pool leases units ttl none
      (.ok lease, all)

/-- `InMemoryCoordinator::reserve_scoped`. -/
def reserveScoped (now : ℕ) (id : Uuid) (all : LeaseState F) (pool scope : String)
    (poolLimit scopeLimit units : F) (ttl : ℕ) :
    Except CoordinatorError (Option (Lease F)) × LeaseState F :=
  match validateLimits poolLimit scopeLimit units with
  | .error e => (.error e, all)
  | .ok () =>
    let leases := retain now (leasesOf all pool)
    if poolLimit < used leases + units ∨ scopeLimit < scopeUsed scope leases + units then
      (.ok none, all.insert pool leases)
    else
      let (lease, all) := grant now id all pool leases units ttl (some scope)
      (.ok lease, all)

end

/-- `InMemoryCoordinator::release`. -/
def release (all : LeaseState F) (lease : Lease F) : LeaseState F :=
  match all.get? lease.pool with
  | some pool => all.insert lease.pool (pool.erase lease.id)
  | none => all

/-- `InMemoryCoordinator::renew`: the stored expiry is not looked at. -/
def renew (now : ℕ) (all : LeaseState F) (lease : Lease F) (ttl : ℕ) : Bool × LeaseState F :=
  match all.get? lease.pool with
  | none => (false, all)
  | some pool =>
    match pool.get? lease.id with
    | none => (false, all)
    | some e => (true, all.insert lease.pool (pool.insert lease.id { e with expires := now + ttl }))

/-- **The in-memory coordinator.** Its `release` and `renew` never fail. -/
def coordinator [Arith F] : Coordinator F (LeaseState F) where
  reserve a all pool limit units ttl := reserve a.now a.id all pool limit units ttl
  reserveScoped a all pool scope poolLimit scopeLimit units ttl :=
    reserveScoped a.now a.id all pool scope poolLimit scopeLimit units ttl
  release _ all lease := (.ok (), release all lease)
  renew a all lease ttl :=
    let (r, all) := renew a.now all lease ttl
    (.ok r, all)

end InMemoryCoordinator

end InferQos
