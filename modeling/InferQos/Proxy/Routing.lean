import InferQos.Proxy.Placement
import InferQos.Proxy.System
/-!
# Routing by application policy

The policy found under an identity's application name decides its pool, its
weight and its concurrency limit, and entitles it to classes. Two checks
are made on the way. `validate` looks up the tenant and the classes a
policy names, and not its pools (`routes_iff`). `effective_class` asks for
the policy's tenant and a trusted identity before it grants a class; the
other readers of the policy ask for neither
(`policy_bound_to_tenant_iff`).
-/

namespace InferQos

namespace Proxy

variable {F σ : Type}

/-! ## Routes of a validated configuration -/

theorem poolName_ne_none {config : Config F} (h : config.pools.keys ≠ [])
    (app : Option ApplicationPolicy) : ∃ pool, poolName config app = some pool := by
  obtain ⟨pool, rest, hkeys⟩ := List.exists_cons_of_ne_nil h
  unfold poolName
  rw [hkeys, List.head?_cons]
  cases app.bind fun p => p.permittedPools.first? with
  | some permitted => exact ⟨permitted, rfl⟩
  | none => exact ⟨pool, rfl⟩

/-- **The pool chosen is a pool exactly when the first permitted one is.** -/
theorem poolName_mem_iff {config : Config F} {app : Option ApplicationPolicy} {pool : String}
    (h : poolName config app = some pool) :
    pool ∈ config.pools.keys ↔
      ∀ policy, app = some policy → ∀ permitted, policy.permittedPools.first? = some permitted →
        permitted ∈ config.pools.keys := by
  unfold poolName at h
  cases hpermitted : app.bind fun p => p.permittedPools.first? with
  | some permitted =>
    rw [hpermitted, Option.some_or, Option.some.injEq] at h
    obtain ⟨policy, happ, hfirst⟩ := Option.bind_eq_some_iff.mp hpermitted
    constructor
    · intro hmem policy' happ' permitted' hfirst'
      rw [happ, Option.some.injEq] at happ'
      rw [← happ', hfirst, Option.some.injEq] at hfirst'
      rwa [← hfirst', h]
    · intro hall
      rw [← h]
      exact hall policy happ permitted hfirst
  | none =>
    rw [hpermitted, Option.none_or] at h
    refine iff_of_true (List.mem_of_mem_head? h) fun policy happ permitted hfirst => ?_
    rw [happ, Option.bind_some, hfirst] at hpermitted
    cases hpermitted

/-- The pools of the running proxy are those of its configuration. -/
theorem keys_build [Arith F] (config : Config F) (c : σ) :
    (System.build config c).pools.keys = config.pools.keys := by
  simp [System.build, OrdMap.mapVal, OrdMap.keys]

/-- What `prepare` comes to once the pool and the class are found. -/
theorem prepare_ok_iff {config : Config F} (pools : List String) {arrival : Arrival F}
    {pool : String}
    (hpool : poolName config (config.policies.applications.get? arrival.identity.application) =
      some pool)
    (hclass : ∀ c : ServiceClass, (config.serviceClasses.get? c.toString).isSome = true) :
    prepare config pools arrival ≠ .error .panicked ∧
      ((∃ job, prepare config pools arrival = .ok job) ↔ pool ∈ pools) := by
  have happ := effectiveClass_snd config arrival.identity arrival.requested
  obtain ⟨c, hc⟩ := Option.isSome_iff_exists.mp
    (hclass (effectiveClass config arrival.identity arrival.requested).1)
  unfold prepare
  simp only [happ, hpool, hc]
  split
  · rename_i hmem
    exact ⟨by simp, iff_of_true ⟨_, rfl⟩ hmem⟩
  · rename_i hmem
    exact ⟨by simp, iff_of_false (by simp) hmem⟩

/-- **A validated configuration routes a request exactly when the first
pool its application is permitted, if any, is configured.** No lookup
panics in any case: what is left is `pool_unavailable`. -/
theorem routes_iff [Arith F] (ext : External) (config : Config F)
    (hvalid : Config.validate ext config = .ok ()) (c : σ) (arrival : Arrival F) :
    prepare config (System.build config c).pools.keys arrival ≠ .error .panicked ∧
      ((∃ job, prepare config (System.build config c).pools.keys arrival = .ok job) ↔
        ∀ policy, config.policies.applications.get? arrival.identity.application = some policy →
          ∀ permitted, policy.permittedPools.first? = some permitted →
            permitted ∈ config.pools.keys) := by
  obtain ⟨pool, hpool⟩ := poolName_ne_none (Config.pools_of_validate hvalid)
    (config.policies.applications.get? arrival.identity.application)
  have hprepare := prepare_ok_iff (System.build config c).pools.keys hpool
    (Config.classes_of_validate hvalid)
  rw [keys_build] at hprepare ⊢
  rwa [poolName_mem_iff hpool] at hprepare

/-- A configuration with one application, permitted this pool. -/
def permits (pool : String) : Config ℚ :=
  { Config.minimal .enforce [("tenant", ⟨1, 0, 1, 4⟩)] with
    policies :=
      ⟨OrdMap.ofList [("tenant", ⟨1, 0, 1, 4⟩)],
        OrdMap.ofList [("app",
          ⟨"tenant", StringSet.ofList ["standard"], 1, 4, StringSet.ofList [pool]⟩)], ∅⟩ }

/-- A permitted pool that is configured. -/
theorem routes_primary :
    ∃ job, prepare (permits "primary") (System.build (permits "primary") ()).pools.keys
      (sampleArrival 1 2) = .ok job := by
  refine (routes_iff Config.noParsers (permits "primary") (by decide +kernel) ()
    (sampleArrival 1 2)).2.mpr ?_
  decide +kernel

/-- **A pool that does not exist passes validation**, and every request of
the application is answered `pool_unavailable`. -/
theorem unknown_pool_unavailable :
    Config.validate Config.noParsers (permits "primry") = .ok () ∧
      (∀ requested, (prepare (permits "primry") (System.build (permits "primry") ()).pools.keys
        { sampleArrival 1 2 with requested := requested }).toOption.isSome = false) ∧
      (prepare (permits "primry") (System.build (permits "primry") ()).pools.keys
        (sampleArrival 1 2)).map (fun _ => ()) = .error .poolUnavailable := by
  refine ⟨by decide +kernel, fun requested => ?_, by decide +kernel⟩
  cases requested <;> decide +kernel

/-! ## Whose policy it is -/

/-- What an application policy decides about a request. -/
structure Treatment where
  effective : ServiceClass
  pool : Option String
  /-- The factor of the application in the weight of its queue. -/
  weight : ℕ
  concurrency : ℕ
  deriving DecidableEq

/-- **The treatment of an identity.** -/
def treatment (config : Config F) (identity : IdentityContext) (requested : ServiceClass) :
    Treatment :=
  let (effective, app) := effectiveClass config identity requested
  { effective := effective
    pool := poolName config app
    weight := max (app.elim 1 (·.weight)) 1
    concurrency := config.applicationConcurrency identity.application }

/-- A prepared request is treated so. -/
theorem prepare_treatment {config : Config F} {pools : List String} {arrival : Arrival F}
    {job : Job F} (h : prepare config pools arrival = .ok job) :
    treatment config arrival.identity arrival.requested =
      ⟨job.request.effectiveClass, some job.request.pool, max job.appWeight 1,
        job.config.applicationConcurrency job.request.identity.application⟩ := by
  unfold prepare at h
  unfold treatment
  simp only at h ⊢
  split at h
  · cases h
  · rename_i pool hpool
    split at h
    · split at h
      · cases h
      · cases h
        rw [hpool]
    · cases h

/-- The configuration without the policy of an application. -/
def withoutPolicy (config : Config F) (application : String) : Config F :=
  { config with
    policies := { config.policies with
      applications := config.policies.applications.erase application } }

/-- **The identity does not own the policy** found under its application's
name. -/
def Disowned (config : Config F) (identity : IdentityContext) : Prop :=
  identity.trusted = false ∨
    ∀ policy, config.policies.applications.get? identity.application = some policy →
      policy.tenant ≠ identity.tenant

/-- **No class is granted by another's policy.** -/
theorem effectiveClass_disowned {config : Config F} {identity : IdentityContext}
    (h : Disowned config identity) (requested : ServiceClass) :
    (effectiveClass config identity requested).1 = .standard := by
  rcases h with h | h
  · exact effectiveClass_untrusted config h requested
  · unfold effectiveClass
    cases happ : config.policies.applications.get? identity.application with
    | none => simp
    | some policy =>
      have htenant : (policy.tenant == identity.tenant) = false := beq_false_of_ne (h policy happ)
      simp [htenant]

theorem treatment_withoutPolicy (config : Config F) (identity : IdentityContext)
    (requested : ServiceClass) :
    treatment (withoutPolicy config identity.application) identity requested =
      ⟨.standard, config.pools.keys.head?, 1, 1⟩ := by
  have hget : (withoutPolicy config identity.application).policies.applications.get?
      identity.application = none := OrdMap.get?_erase_self
  unfold treatment effectiveClass poolName Config.applicationConcurrency
  rw [hget]
  simp [withoutPolicy]

theorem treatment_disowned {config : Config F} {identity : IdentityContext}
    (h : Disowned config identity) (requested : ServiceClass) :
    treatment config identity requested =
      ⟨.standard, poolName config (config.policies.applications.get? identity.application),
        max ((config.policies.applications.get? identity.application).elim 1 (·.weight)) 1,
        config.applicationConcurrency identity.application⟩ := by
  have hfst := effectiveClass_disowned h requested
  have hsnd := effectiveClass_snd config identity requested
  unfold treatment
  simp only [hfst, hsnd]

/-- **Another's policy changes nothing exactly when it has nothing to
give**: the first pool it permits, if any, is the first pool there is, its
weight is at most one, and it allows one request at a time. The class is
the same in any case. -/
theorem policy_bound_to_tenant_iff (config : Config F) (identity : IdentityContext)
    (requested : ServiceClass) (h : Disowned config identity) :
    (treatment config identity requested).effective =
        (treatment (withoutPolicy config identity.application) identity requested).effective ∧
      (treatment config identity requested =
          treatment (withoutPolicy config identity.application) identity requested ↔
        ∀ policy, config.policies.applications.get? identity.application = some policy →
          (policy.permittedPools.first? = none ∨
              policy.permittedPools.first? = config.pools.keys.head?) ∧
            policy.weight ≤ 1 ∧ policy.maxConcurrency = 1) := by
  rw [treatment_disowned h, treatment_withoutPolicy]
  refine ⟨rfl, ?_⟩
  unfold poolName Config.applicationConcurrency
  cases config.policies.applications.get? identity.application with
  | none => simp
  | some policy =>
    simp only [Option.bind_some, Option.some.injEq, forall_eq']
    cases policy.permittedPools.first? with
    | none => simp
    | some pool => simp

/-- Two tenants, one pool of theirs each, and two applications of one of
them: the ledger, with a pool, a weight and slots of its own, and the
archive, with none. -/
def ledgerConfig : Config ℚ :=
  { Config.minimal .enforce [] with
    pools := OrdMap.ofList
      [("general", ⟨.fake, "http://127.0.0.1:9000", none, 10, 1⟩),
        ("ledger", ⟨.fake, "http://127.0.0.1:9001", none, 100, 1⟩)]
    policies :=
      ⟨OrdMap.ofList [("finance", ⟨1, 0, 1, 64⟩), ("retail", ⟨1, 0, 1, 64⟩)],
        OrdMap.ofList
          [("archive", ⟨"finance", StringSet.ofList ["realtime"], 1, 1,
              StringSet.ofList ["general"]⟩),
            ("ledger", ⟨"finance", StringSet.ofList ["realtime"], 8, 32,
              StringSet.ofList ["ledger"]⟩)], ∅⟩ }

/-- The archive has a policy, and one that gives a clerk of another tenant
nothing. -/
theorem foreign_archive_treated_alike :
    (ledgerConfig.policies.applications.get? "archive").map (·.tenant) = some "finance" ∧
      treatment ledgerConfig ⟨"clerk", "retail", "archive", true⟩ .realtime =
        treatment (withoutPolicy ledgerConfig "archive") ⟨"clerk", "retail", "archive", true⟩
          .realtime := by
  refine ⟨by decide +kernel, (policy_bound_to_tenant_iff ledgerConfig
    ⟨"clerk", "retail", "archive", true⟩ .realtime (Or.inr ?_)).2.mpr ?_⟩
  · decide +kernel
  · decide +kernel

/-- **A clerk of another tenant who names the ledger gets its pool, its
weight and its slots**, and only the class is refused. -/
theorem foreign_policy_is_obtained :
    Config.validate Config.noParsers ledgerConfig = .ok () ∧
      Disowned ledgerConfig ⟨"clerk", "retail", "ledger", true⟩ ∧
      treatment ledgerConfig ⟨"clerk", "retail", "ledger", true⟩ .realtime =
        ⟨.standard, some "ledger", 8, 32⟩ ∧
      treatment (withoutPolicy ledgerConfig "ledger") ⟨"clerk", "retail", "ledger", true⟩ .realtime =
        ⟨.standard, some "general", 1, 1⟩ := by
  refine ⟨by decide +kernel, Or.inr ?_, by decide +kernel, by decide +kernel⟩
  decide +kernel

end Proxy

end InferQos
