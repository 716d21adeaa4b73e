import InferQos.Config.Validate
import InferQos.Coordinator.Ledger
import InferQos.Proxy.Reserve
/-!
# All-or-nothing reservation

What a coordinator must do with its leases is `Coordinator.Lawful`: a grant
adds one lease, a release that succeeds removes one, a call that fails
changes nothing, and no call touches another pool. The in-memory
coordinator is lawful, and stays so when its calls may fail.

`reserve_distributed` undoes what it holds when a later reservation is
refused. When a later call fails, `?` returns at once: the slots granted
before it stay behind. `all_or_nothing_iff` is the exact boundary.
-/

namespace InferQos

variable {F σ : Type}

/-! ## Lawful coordinators -/

/-- What a reservation may do to the leases held. -/
def ReserveLaw (held : σ → String → Uuid → Prop) (env : Ambient) (pool : String) (s : σ) :
    Except CoordinatorError (Option (Lease F)) × σ → Prop
  | (.error _, s') => ∀ p id, held s' p id ↔ held s p id
  | (.ok none, s') => (∀ id, held s' pool id → held s pool id) ∧
      ∀ p id, p ≠ pool → (held s' p id ↔ held s p id)
  | (.ok (some lease), s') => lease.pool = pool ∧ lease.id = env.id ∧ held s' pool env.id ∧
      (∀ id, held s' pool id → held s pool id ∨ id = env.id) ∧
      ∀ p id, p ≠ pool → (held s' p id ↔ held s p id)

namespace ReserveLaw

variable {held : σ → String → Uuid → Prop} {env : Ambient} {pool : String} {s s' : σ}
  {lease : Lease F}

/-- **What is held after a grant** was held before, or is the lease
granted. -/
theorem back (h : ReserveLaw held env pool s (.ok (some lease), s')) (p : String) (id : Uuid)
    (hp : held s' p id) : held s p id ∨ lease.pool = p ∧ lease.id = id := by
  obtain ⟨hpool, hid, -, hnew, hframe⟩ := h
  by_cases hpk : p = pool
  · subst hpk
    exact (hnew id hp).imp_right fun hid' => ⟨hpool, hid.trans hid'.symm⟩
  · exact Or.inl ((hframe p id hpk).mp hp)

/-- A lease granted has the id its call was offered. -/
theorem granted_id {r : Except CoordinatorError (Option (Lease F)) × σ}
    (h : ReserveLaw held env pool s r) (hr : r = (.ok (some lease), s')) : lease.id = env.id := by
  rw [hr] at h
  exact h.2.1

/-- The lease granted is held. -/
theorem held_granted (h : ReserveLaw held env pool s (.ok (some lease), s')) :
    held s' lease.pool lease.id := by
  obtain ⟨hpool, hid, hheld, -, -⟩ := h
  rw [hpool, hid]
  exact hheld

/-- A lease of another pool stays held. -/
theorem held_other {other : Lease F} (h : ReserveLaw held env pool s (.ok (some lease), s'))
    (hne : other.pool ≠ pool) (hother : held s other.pool other.id) : held s' other.pool other.id :=
  (h.2.2.2.2 _ _ hne).mpr hother

end ReserveLaw

/-- **A coordinator that keeps its leases.** `held s pool id` says that the
lease is stored, expired or not. -/
structure Coordinator.Lawful (C : Coordinator F σ) (held : σ → String → Uuid → Prop) : Prop where
  reserve : ∀ env s pool limit units ttl,
    ReserveLaw held env pool s (C.reserve env s pool limit units ttl)
  reserveScoped : ∀ env s pool scope poolLimit scopeLimit units ttl,
    ReserveLaw held env pool s (C.reserveScoped env s pool scope poolLimit scopeLimit units ttl)
  release_error : ∀ env s lease e s', C.release env s lease = (.error e, s') →
    ∀ p id, held s' p id ↔ held s p id
  release_ok : ∀ env s lease s', C.release env s lease = (.ok (), s') →
    ∀ p id, held s' p id ↔ held s p id ∧ ¬ (p = lease.pool ∧ id = lease.id)

namespace InMemoryCoordinator

/-- A lease is stored, expired or not. -/
def Held (all : LeaseState F) (pool : String) (id : Uuid) : Prop :=
  ((leasesOf all pool).get? id).isSome

theorem held_insert {all : LeaseState F} {pool p : String} {leases : PoolLeases F} {id : Uuid} :
    Held (all.insert pool leases) p id ↔
      if p = pool then (leases.get? id).isSome = true else Held all p id := by
  unfold Held
  rw [leasesOf_insert]
  split
  · rfl
  · rfl

theorem isSome_retain {now : ℕ} {leases : PoolLeases F} {id : Uuid}
    (h : ((retain now leases).get? id).isSome) : (leases.get? id).isSome := by
  unfold retain at h
  rw [OrdMap.get?_filter] at h
  cases hl : leases.get? id with
  | none => rw [hl] at h; cases h
  | some e => rfl

/-- A pool purged, as far as its reservation's law goes. -/
theorem refused_law {env : Ambient} {all : LeaseState F} {pool : String} :
    ReserveLaw (F := F) Held env pool all
      (.ok none, all.insert pool (retain env.now (leasesOf all pool))) := by
  refine ⟨fun id h => ?_, fun p id hp => ?_⟩
  · rw [held_insert, if_pos rfl] at h
    exact isSome_retain h
  · rw [held_insert, if_neg hp]

/-- A pool purged and one entry added. -/
theorem granted_law {env : Ambient} {all : LeaseState F} {pool : String} {lease : Lease F}
    {e : Entry F} (hpool : lease.pool = pool) (hid : lease.id = env.id) :
    ReserveLaw Held env pool all (.ok (some lease),
      all.insert pool ((retain env.now (leasesOf all pool)).insert env.id e)) := by
  refine ⟨hpool, hid, ?_, fun id h => ?_, fun p id hp => ?_⟩
  · rw [held_insert, if_pos rfl, OrdMap.get?_insert_self]
    rfl
  · rw [held_insert, if_pos rfl, OrdMap.get?_insert] at h
    by_cases hid' : id = env.id
    · exact Or.inr hid'
    · rw [if_neg hid'] at h
      exact Or.inl (isSome_retain h)
  · rw [held_insert, if_neg hp]

/-- **The in-memory coordinator is lawful.** -/
theorem coordinator_lawful [Arith F] : (coordinator : Coordinator F (LeaseState F)).Lawful Held where
  reserve env s pool limit units ttl := by
    change ReserveLaw Held env pool s (reserve env.now env.id s pool limit units ttl)
    rcases reserve_spec env.now env.id s pool limit units ttl with
      ⟨hr, -⟩ | ⟨-, -, ⟨hr, -⟩ | ⟨hr, -⟩⟩
    · rw [hr]
      exact fun p id => Iff.rfl
    · rw [hr]
      exact refused_law
    · rw [hr]
      exact granted_law rfl rfl
  reserveScoped env s pool scope poolLimit scopeLimit units ttl := by
    change ReserveLaw Held env pool s
      (reserveScoped env.now env.id s pool scope poolLimit scopeLimit units ttl)
    rcases reserveScoped_spec env.now env.id s pool scope poolLimit scopeLimit units ttl with
      ⟨hr, -⟩ | ⟨-, -, ⟨hr, -⟩ | ⟨hr, -⟩⟩
    · rw [hr]
      exact fun p id => Iff.rfl
    · rw [hr]
      exact refused_law
    · rw [hr]
      exact granted_law rfl rfl
  release_error env s lease e s' h := by
    cases h
  release_ok env s lease s' h p id := by
    cases h
    unfold Held
    rw [leasesOf_release]
    by_cases hp : p = lease.pool
    · rw [if_pos hp, OrdMap.get?_erase]
      by_cases hid : id = lease.id
      · simp [hp, hid]
      · simp [hid]
    · simp [hp]

end InMemoryCoordinator

namespace Coordinator

theorem failing_cases {α : Type} (call : σ → Except CoordinatorError α × σ)
    (s : σ × List (Option CoordinatorError)) :
    (∃ e, failing call s = (.error e, s.1, s.2.tail)) ∨
      failing call s = ((call s.1).1, (call s.1).2, s.2.tail) := by
  unfold failing
  split
  · rename_i e _
    exact Or.inl ⟨e, rfl⟩
  · exact Or.inr rfl

theorem reserveLaw_failing {held : σ → String → Uuid → Prop} {env : Ambient} {pool : String}
    (call : σ → Except CoordinatorError (Option (Lease F)) × σ)
    (s : σ × List (Option CoordinatorError)) (h : ReserveLaw held env pool s.1 (call s.1)) :
    ReserveLaw (fun s : σ × List (Option CoordinatorError) => held s.1) env pool s
      (failing call s) := by
  rcases failing_cases call s with ⟨e, hr⟩ | hr
  · rw [hr]
    exact fun p id => Iff.rfl
  · rw [hr]
    rcases hc : call s.1 with ⟨_ | _ | lease, s'⟩
    · rw [hc] at h
      exact h
    · rw [hc] at h
      exact h
    · rw [hc] at h
      exact h

/-- **Failures keep a coordinator lawful.** -/
theorem Lawful.unreliable {C : Coordinator F σ} {held : σ → String → Uuid → Prop}
    (h : C.Lawful held) :
    C.unreliable.Lawful fun s : σ × List (Option CoordinatorError) => held s.1 where
  reserve env s pool limit units ttl :=
    reserveLaw_failing (C.reserve env · pool limit units ttl) s
      (h.reserve env s.1 pool limit units ttl)
  reserveScoped env s pool scope poolLimit scopeLimit units ttl :=
    reserveLaw_failing (C.reserveScoped env · pool scope poolLimit scopeLimit units ttl) s
      (h.reserveScoped env s.1 pool scope poolLimit scopeLimit units ttl)
  release_error env s lease e s' hr := by
    change failing (C.release env · lease) s = _ at hr
    rcases failing_cases (C.release env · lease) s with ⟨e', hf⟩ | hf
    · rw [hf] at hr
      cases hr
      exact fun p id => Iff.rfl
    · rw [hf] at hr
      obtain ⟨h1, h2⟩ := Prod.mk.inj hr
      rw [← h2]
      exact h.release_error env s.1 lease e _ (Prod.ext h1 rfl)
  release_ok env s lease s' hr := by
    change failing (C.release env · lease) s = _ at hr
    rcases failing_cases (C.release env · lease) s with ⟨e', hf⟩ | hf
    · rw [hf] at hr
      cases hr
    · rw [hf] at hr
      obtain ⟨h1, h2⟩ := Prod.mk.inj hr
      rw [← h2]
      exact h.release_ok env s.1 lease _ (Prod.ext h1 rfl)

/-! ## A log of the calls -/

/-- What the property needs to know of a call. -/
inductive CallEvent (F : Type)
  /-- A lease was created. -/
  | granted (lease : Lease F)
  /-- The release of a lease failed. -/
  | releaseFailed (lease : Lease F)

/-- The event of a reservation. -/
def grantEvent : Except CoordinatorError (Option (Lease F)) → List (CallEvent F)
  | .ok (some lease) => [.granted lease]
  | _ => []

/-- The event of a release. -/
def releaseEvent (lease : Lease F) : Except CoordinatorError Unit → List (CallEvent F)
  | .error _ => [.releaseFailed lease]
  | .ok () => []

/-- The coordinator with a log of its calls beside its state. -/
def logged (C : Coordinator F σ) : Coordinator F (σ × List (CallEvent F)) where
  reserve env s pool limit units ttl :=
    let (r, s') := C.reserve env s.1 pool limit units ttl
    (r, s', s.2 ++ grantEvent r)
  reserveScoped env s pool scope poolLimit scopeLimit units ttl :=
    let (r, s') := C.reserveScoped env s.1 pool scope poolLimit scopeLimit units ttl
    (r, s', s.2 ++ grantEvent r)
  release env s lease :=
    let (r, s') := C.release env s.1 lease
    (r, s', s.2 ++ releaseEvent lease r)
  renew env s lease ttl :=
    let (r, s') := C.renew env s.1 lease ttl
    (r, s', s.2)

end Coordinator

namespace Proxy

open Coordinator (CallEvent)

/-! ## The keys of one request -/

namespace Attempt

variable (a : Attempt F)

theorem tenantKey_ne_applicationKey : a.tenantKey ≠ a.applicationKey := by
  intro h
  have hl := congrArg String.toList h
  unfold tenantKey applicationKey at hl
  simp only [String.toList_append, List.append_assoc] at hl
  -- the two keys part at the letter after the pool's colon
  have htail := congrArg (List.take 2) (List.append_cancel_left (List.append_cancel_left hl))
  rw [List.take_append_of_le_length (by decide), List.take_append_of_le_length (by decide)] at htail
  exact absurd htail (by decide)

theorem pool_ne_key (pool kind name : String) :
    pool ≠ "__concurrency__:" ++ pool ++ kind ++ name := by
  intro h
  have hl := congrArg String.length h
  rw [String.length_append, String.length_append, String.length_append] at hl
  have hpos : "__concurrency__:".length = 16 := by decide
  rw [hpos] at hl
  clear h hpos
  omega

theorem pool_ne_tenantKey : a.request.pool ≠ a.tenantKey := pool_ne_key _ _ _

theorem pool_ne_applicationKey : a.request.pool ≠ a.applicationKey := pool_ne_key _ _ _

end Attempt

/-! ## The property -/

/-- The leases a log creates. -/
def created (log : List (CallEvent F)) : List (Lease F) :=
  log.filterMap fun e => match e with
    | .granted lease => some lease
    | .releaseFailed _ => none

/-- The leases whose release failed. -/
def unreleased (log : List (CallEvent F)) : List (Lease F) :=
  log.filterMap fun e => match e with
    | .granted _ => none
    | .releaseFailed lease => some lease

variable [Arith F]

/-- **All or nothing**: with three leases returned, they are what was
created, all of them held, and nothing else is new; otherwise no created
lease is held, unless its own release failed. -/
def AllOrNothing (C : Coordinator F σ) (held : σ → String → Uuid → Prop) (env : ℕ → Ambient)
    (a : Attempt F) (pending : List String) (s : σ) : Prop :=
  let r := reserveDistributed C.logged env a pending (s, [])
  match r.1 with
  | .ok (some leases) =>
    created r.2.2 = [leases.tenantSlot, leases.applicationSlot, leases.capacity] ∧
      (∀ l ∈ created r.2.2, held r.2.1 l.pool l.id) ∧
      ∀ p id, held r.2.1 p id → held s p id ∨ ∃ l ∈ created r.2.2, l.pool = p ∧ l.id = id
  | _ => ∀ l ∈ created r.2.2, held r.2.1 l.pool l.id → l ∈ unreleased r.2.2

/-- **A call fails that the tenant slot does not survive**: the reservation
of the application slot, the reservation of the capacity, or the release of
the application slot after the capacity was refused. -/
def strands (C : Coordinator F σ) (env : ℕ → Ambient) (a : Attempt F) (pending : List String)
    (s : σ) : Bool :=
  match a.reserveTenant C (env 0) s with
  | (.ok (some _), s) =>
    match a.reserveApplication C (env 1) s with
    | (.error _, _) => true
    | (.ok none, _) => false
    | (.ok (some applicationSlot), s) =>
      match a.reserveCapacity C (env 3) s (a.tenantLimit pending) with
      | (.error _, _) => true
      | (.ok none, s) =>
        match C.release (env 4) s applicationSlot with
        | (.error _, _) => true
        | (.ok (), _) => false
      | (.ok (some _), _) => false
  | _ => false

section Laws

variable {C : Coordinator F σ} {held : σ → String → Uuid → Prop} {env : Ambient} {a : Attempt F}
  {s s' : σ} {lease : Lease F} {limit : F} {e : CoordinatorError}

/-- What the reservation of the tenant slot does to the leases. -/
theorem tenant_law (h : C.Lawful held) :
    ReserveLaw held env a.tenantKey s (a.reserveTenant C env s) :=
  h.reserve env s a.tenantKey
    (Arith.lit (a.config.tenantConcurrency a.request.identity.tenant)) (Arith.lit 1) a.leaseTtl

/-- That of the application slot. -/
theorem application_law (h : C.Lawful held) :
    ReserveLaw held env a.applicationKey s (a.reserveApplication C env s) :=
  h.reserve env s a.applicationKey
    (Arith.lit (a.config.applicationConcurrency a.request.identity.application)) (Arith.lit 1)
    a.leaseTtl

omit [Arith F] in
/-- And that of the capacity. -/
theorem capacity_law (h : C.Lawful held) :
    ReserveLaw held env a.request.pool s (a.reserveCapacity C env s limit) :=
  h.reserveScoped env s a.request.pool a.request.identity.tenant a.poolLimit limit a.charged
    a.leaseTtl

theorem reserveTenant_logged (log : List (CallEvent F)) :
    a.reserveTenant C.logged env (s, log) =
      ((a.reserveTenant C env s).1, (a.reserveTenant C env s).2,
        log ++ Coordinator.grantEvent (a.reserveTenant C env s).1) := rfl

theorem reserveApplication_logged (log : List (CallEvent F)) :
    a.reserveApplication C.logged env (s, log) =
      ((a.reserveApplication C env s).1, (a.reserveApplication C env s).2,
        log ++ Coordinator.grantEvent (a.reserveApplication C env s).1) := rfl

omit [Arith F] in
theorem reserveCapacity_logged (log : List (CallEvent F)) :
    a.reserveCapacity C.logged env (s, log) limit =
      ((a.reserveCapacity C env s limit).1, (a.reserveCapacity C env s limit).2,
        log ++ Coordinator.grantEvent (a.reserveCapacity C env s limit).1) := rfl

omit [Arith F] in
theorem release_logged (log : List (CallEvent F)) :
    C.logged.release env (s, log) lease =
      ((C.release env s lease).1, (C.release env s lease).2,
        log ++ Coordinator.releaseEvent lease (C.release env s lease).1) := rfl

end Laws

omit [Arith F] in
/-- **Three grants in a row**, under three keys: all three leases are held,
and nothing else is new. -/
theorem three_grants {held : σ → String → Uuid → Prop} {env₁ env₂ env₃ : Ambient}
    {s s₁ s₂ s₃ : σ} {first second third : Lease F} {k₁ k₂ k₃ : String}
    (h₁ : ReserveLaw held env₁ k₁ s (.ok (some first), s₁))
    (h₂ : ReserveLaw held env₂ k₂ s₁ (.ok (some second), s₂))
    (h₃ : ReserveLaw held env₃ k₃ s₂ (.ok (some third), s₃)) (h₁₂ : k₁ ≠ k₂) (h₁₃ : k₁ ≠ k₃)
    (h₂₃ : k₂ ≠ k₃) :
    (∀ l ∈ [first, second, third], held s₃ l.pool l.id) ∧
      ∀ p id, held s₃ p id → held s p id ∨
        ∃ l ∈ [first, second, third], l.pool = p ∧ l.id = id := by
  constructor
  · intro l hl
    simp only [List.mem_cons, List.not_mem_nil, or_false] at hl
    rcases hl with rfl | rfl | rfl
    · exact h₃.held_other (h₁.1 ▸ h₁₃) (h₂.held_other (h₁.1 ▸ h₁₂) h₁.held_granted)
    · exact h₃.held_other (h₂.1 ▸ h₂₃) h₂.held_granted
    · exact h₃.held_granted
  · intro p id hp
    rcases h₃.back p id hp with hp | hnew
    · rcases h₂.back p id hp with hp | hnew
      · rcases h₁.back p id hp with hp | hnew
        · exact Or.inl hp
        · exact Or.inr ⟨first, by simp, hnew⟩
      · exact Or.inr ⟨second, by simp, hnew⟩
    · exact Or.inr ⟨third, by simp, hnew⟩

/-- **Reservation is all-or-nothing exactly when no such call fails.** -/
theorem all_or_nothing_iff (C : Coordinator F σ) (held : σ → String → Uuid → Prop)
    (h : C.Lawful held) (env : ℕ → Ambient) (a : Attempt F) (pending : List String) (s : σ) :
    AllOrNothing C held env a pending s ↔ strands C env a pending s = false := by
  have hkeys := a.tenantKey_ne_applicationKey
  have htp := a.pool_ne_tenantKey
  have hap := a.pool_ne_applicationKey
  unfold AllOrNothing strands reserveDistributed
  rw [reserveTenant_logged]
  have hlawT : ReserveLaw held (env 0) a.tenantKey s (a.reserveTenant C (env 0) s) := tenant_law h
  rcases ht : a.reserveTenant C (env 0) s with ⟨e | _ | tenantSlot, s₁⟩
  · simp [Coordinator.grantEvent, created]
  · simp [Coordinator.grantEvent, created]
  rw [ht] at hlawT
  have htpool : tenantSlot.pool = a.tenantKey := hlawT.1
  simp only [reserveApplication_logged]
  have hlawA : ReserveLaw held (env 1) a.applicationKey s₁ (a.reserveApplication C (env 1) s₁) :=
    application_law h
  rcases ha : a.reserveApplication C (env 1) s₁ with ⟨e | _ | applicationSlot, s₂⟩ <;>
    rw [ha] at hlawA
  · -- the tenant slot was granted, the next call fails
    have hheld : held s₂ tenantSlot.pool tenantSlot.id := (hlawA _ _).mpr hlawT.held_granted
    simp [Coordinator.grantEvent, created, unreleased, hheld]
  · simp only [release_logged]
    rcases hr : C.release (env 2) s₂ tenantSlot with ⟨e | _, s₃⟩
    · simp [Coordinator.grantEvent, Coordinator.releaseEvent, created, unreleased]
    · have hgone := h.release_ok _ _ _ _ hr tenantSlot.pool tenantSlot.id
      simp [Coordinator.grantEvent, Coordinator.releaseEvent, created, unreleased, hgone]
  have hth₂ : held s₂ tenantSlot.pool tenantSlot.id :=
    hlawA.held_other (htpool ▸ hkeys) hlawT.held_granted
  have hne : tenantSlot ≠ applicationSlot :=
    fun heq => hkeys (htpool.symm.trans (heq ▸ hlawA.1))
  simp only [reserveCapacity_logged]
  have hlawC : ReserveLaw held (env 3) a.request.pool s₂
      (a.reserveCapacity C (env 3) s₂ (a.tenantLimit pending)) := capacity_law h
  rcases hc : a.reserveCapacity C (env 3) s₂ (a.tenantLimit pending) with ⟨e | _ | capacity, s₃⟩ <;>
    rw [hc] at hlawC
  · -- both slots were granted, the third reservation fails
    have hheld : held s₃ tenantSlot.pool tenantSlot.id := (hlawC _ _).mpr hth₂
    simp [Coordinator.grantEvent, created, unreleased, hheld]
  · have hth₃ : held s₃ tenantSlot.pool tenantSlot.id :=
      (hlawC.2 _ _ (htpool ▸ htp.symm)).mpr hth₂
    simp only [release_logged]
    rcases hr : C.release (env 4) s₃ applicationSlot with ⟨e | _, s₄⟩
    · -- the capacity was refused and the first of the two releases fails
      have hheld : held s₄ tenantSlot.pool tenantSlot.id :=
        (h.release_error _ _ _ _ _ hr _ _).mpr hth₃
      simp [Coordinator.grantEvent, Coordinator.releaseEvent, created, unreleased, hheld, hne]
    · have hgone := h.release_ok _ _ _ _ hr
      simp only [release_logged]
      rcases hr' : C.release (env 5) s₄ tenantSlot with ⟨e | _, s₅⟩
      · have hsame := h.release_error _ _ _ _ _ hr'
        simp [Coordinator.grantEvent, Coordinator.releaseEvent, created, unreleased, hsame, hgone]
      · have hgone' := h.release_ok _ _ _ _ hr'
        simp [Coordinator.grantEvent, Coordinator.releaseEvent, created, unreleased, hgone', hgone]
  · -- all three were granted
    have hcreated : created ([] ++ Coordinator.grantEvent (.ok (some tenantSlot)) ++
        Coordinator.grantEvent (.ok (some applicationSlot)) ++
        Coordinator.grantEvent (.ok (some capacity))) =
          [tenantSlot, applicationSlot, capacity] := rfl
    simp only [hcreated, iff_true]
    exact ⟨trivial, three_grants hlawT hlawA hlawC hkeys htp.symm hap.symm⟩

/-! ## Two attempts -/

/-- An attempt to reserve `charged` units for one request. -/
def sampleAttempt (charged : ℚ) : Attempt ℚ where
  request :=
    { id := 7
      identity := ⟨"principal", "tenant", "app", true⟩
      requestedClass := .standard
      effectiveClass := .standard
      pool := "primary"
      estimate := ⟨1, 1, 0, 1, charged, 1, .approximation⟩
      deadline := 30000000000
      queueable := true }
  config := Config.minimal .enforce []
  poolLimit := 10
  charged := charged
  leaseTtl := 300000000000

/-- Ten units fit. Fifteen are refused with both slots given back, or with
the tenant slot left to its expiry when its own release fails. -/
theorem all_or_nothing_memory :
    AllOrNothing InMemoryCoordinator.coordinator InMemoryCoordinator.Held (fun k => ⟨0, k⟩)
        (sampleAttempt 10) [] ∅ ∧
      AllOrNothing InMemoryCoordinator.coordinator InMemoryCoordinator.Held (fun k => ⟨0, k⟩)
        (sampleAttempt 15) [] ∅ ∧
      AllOrNothing InMemoryCoordinator.coordinator.unreliable
        (fun s => InMemoryCoordinator.Held s.1) (fun k => ⟨0, k⟩) (sampleAttempt 15) []
        (∅, [none, none, none, none, some .clock]) :=
  ⟨(all_or_nothing_iff _ _ InMemoryCoordinator.coordinator_lawful _ _ _ _).mpr
      (by decide +kernel),
    (all_or_nothing_iff _ _ InMemoryCoordinator.coordinator_lawful _ _ _ _).mpr
      (by decide +kernel),
    (all_or_nothing_iff _ _ InMemoryCoordinator.coordinator_lawful.unreliable _ _ _ _).mpr
      (by decide +kernel)⟩

/-- **A failure after the first grant strands the tenant slot**: the
reservation of the application slot fails, and nothing releases the other. -/
theorem failed_call_strands_slot :
    ¬ AllOrNothing InMemoryCoordinator.coordinator.unreliable
      (fun s => InMemoryCoordinator.Held s.1) (fun k => ⟨0, k⟩) (sampleAttempt 10) []
      (∅, [none, some (.redis "connection reset")]) := by
  intro h
  have hr : (reserveDistributed (InMemoryCoordinator.coordinator (F := ℚ)).unreliable.logged
      (fun k => ⟨0, k⟩) (sampleAttempt 10) []
      ((∅, [none, some (.redis "connection reset")]), [])).1 =
        .error (.redis "connection reset") := by
    decide +kernel
  simp only [AllOrNothing, hr] at h
  exact absurd (h ⟨0, "__concurrency__:primary:tenant:tenant", 1, 300000000000, none⟩
    (by decide +kernel) (by unfold InMemoryCoordinator.Held; decide +kernel)) (by decide +kernel)

end Proxy

end InferQos
