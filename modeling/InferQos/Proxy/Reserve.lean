import InferQos.Proxy.Admission
/-!
# `reserve_distributed`, step by step

Every coordinator call is an await point: other tasks run between two of
them, and a handler may be dropped there. `ReservePhase` is the position of
one run of `reserve_distributed`, with the leases it holds at that point;
`runReserve_eq` says that a run nothing disturbs computes the function.
-/

namespace InferQos

namespace Proxy

variable {F σ : Type}

/-- **Where a reservation stands**: the next call it makes. -/
inductive ReservePhase (F : Type)
  /-- Reserve the tenant slot. -/
  | tenant
  /-- Reserve the application slot. -/
  | application (tenantSlot : Lease F)
  /-- Read the tenant's limit. -/
  | limit (tenantSlot applicationSlot : Lease F)
  /-- Reserve the capacity. -/
  | capacity (tenantSlot applicationSlot : Lease F) (tenantLimit : F)
  /-- Release the application slot, the capacity having been refused. -/
  | undoApplication (tenantSlot applicationSlot : Lease F)
  /-- Release the tenant slot, something after it having been refused. -/
  | undoTenant (tenantSlot : Lease F)
  /-- Returned. -/
  | finished (r : Except CoordinatorError (Option (AdmissionLeases F)))

variable [Arith F] (C : Coordinator F σ) (a : Attempt F)

/-- **One step**: one coordinator call, or the reading of the limit. -/
def ReservePhase.step (env : Ambient) (pending : List String) (s : σ) :
    ReservePhase F → ReservePhase F × σ
  | .tenant =>
    match a.reserveTenant C env s with
    | (.error e, s) => (.finished (.error e), s)
    | (.ok none, s) => (.finished (.ok none), s)
    | (.ok (some tenantSlot), s) => (.application tenantSlot, s)
  | .application tenantSlot =>
    match a.reserveApplication C env s with
    | (.error e, s) => (.finished (.error e), s)
    | (.ok none, s) => (.undoTenant tenantSlot, s)
    | (.ok (some applicationSlot), s) => (.limit tenantSlot applicationSlot, s)
  | .limit tenantSlot applicationSlot =>
    (.capacity tenantSlot applicationSlot (a.tenantLimit pending), s)
  | .capacity tenantSlot applicationSlot tenantLimit =>
    match a.reserveCapacity C env s tenantLimit with
    | (.error e, s) => (.finished (.error e), s)
    | (.ok none, s) => (.undoApplication tenantSlot applicationSlot, s)
    | (.ok (some lease), s) => (.finished (.ok (some ⟨lease, tenantSlot, applicationSlot⟩)), s)
  | .undoApplication tenantSlot applicationSlot =>
    match C.release env s applicationSlot with
    | (.error e, s) => (.finished (.error e), s)
    | (.ok (), s) => (.undoTenant tenantSlot, s)
  | .undoTenant tenantSlot =>
    match C.release env s tenantSlot with
    | (.error e, s) => (.finished (.error e), s)
    | (.ok (), s) => (.finished (.ok none), s)
  | .finished r => (.finished r, s)

/-- Steps in a row, with nothing in between. -/
def runReserve (pending : List String) :
    ℕ → (ℕ → Ambient) → ReservePhase F → σ → ReservePhase F × σ
  | 0, _, phase, s => (phase, s)
  | n + 1, env, phase, s =>
    let (phase, s) := phase.step C a (env 0) pending s
    runReserve pending n (fun k => env (k + 1)) phase s

@[simp] theorem runReserve_finished (pending : List String) (n : ℕ) (env : ℕ → Ambient)
    (r : Except CoordinatorError (Option (AdmissionLeases F))) (s : σ) :
    runReserve C a pending n env (.finished r) s = (.finished r, s) := by
  induction n generalizing env with
  | zero => rfl
  | succ n ih => exact ih _

/-- **Six undisturbed steps are `reserve_distributed`.** -/
theorem runReserve_eq (env : ℕ → Ambient) (pending : List String) (s : σ) :
    runReserve C a pending 6 env .tenant s =
      (.finished (reserveDistributed C env a pending s).1,
        (reserveDistributed C env a pending s).2) := by
  unfold reserveDistributed
  rw [runReserve, ReservePhase.step]
  rcases a.reserveTenant C (env 0) s with ⟨_ | _ | tenantSlot, s⟩
  · exact runReserve_finished ..
  · exact runReserve_finished ..
  simp only
  rw [runReserve, ReservePhase.step]
  rcases a.reserveApplication C (env 1) s with ⟨_ | _ | applicationSlot, s⟩
  · exact runReserve_finished ..
  · simp only
    rw [runReserve, ReservePhase.step]
    rcases C.release (env 2) s tenantSlot with ⟨_ | _, s⟩
    · exact runReserve_finished ..
    · exact runReserve_finished ..
  simp only
  rw [runReserve, ReservePhase.step]
  simp only
  rw [runReserve, ReservePhase.step]
  rcases a.reserveCapacity C (env 3) s (a.tenantLimit pending) with ⟨_ | _ | lease, s⟩
  · exact runReserve_finished ..
  · simp only
    rw [runReserve, ReservePhase.step]
    rcases C.release (env 4) s applicationSlot with ⟨_ | _, s⟩
    · exact runReserve_finished ..
    · simp only
      rw [runReserve, ReservePhase.step]
      rcases C.release (env 5) s tenantSlot with ⟨_ | _, s⟩
      · exact runReserve_finished ..
      · exact runReserve_finished ..
  · exact runReserve_finished ..

end Proxy

end InferQos
