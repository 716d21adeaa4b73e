import InferQos.Common.StableSort
import InferQos.Proxy.Shares
import InferQos.Proxy.System
/-!
# Borrowing idle shares

The tenants a limit makes room for are those of every pending request,
whatever pool it waits for. So a guarantee is withheld in a pool where its
tenant has nothing waiting. The limit of a tenant depends on nobody who
waits where its maximum share fits beside the guarantees of all other
tenants, in whatever order an `f64` adds them up
(`shares_borrowable_per_pool`). Under every table the limit is between the
two shares of its tenant's policy, and falls as others come to wait.
-/

namespace InferQos

namespace Proxy

/-! ## Tables -/

section Tables

variable {F : Type} {tenant : String} {p : OrdMap Uuid (Pending F)}

/-- The tenants of a table of pending requests. -/
def tenantsOf (p : OrdMap Uuid (Pending F)) : List String :=
  p.values.map (·.request.identity.tenant)

/-- The other tenants that wait, each once. -/
def competitors (tenant : String) (p : OrdMap Uuid (Pending F)) : List String :=
  (StringSet.ofList ((tenantsOf p).filter (· ≠ tenant))).keys

theorem mem_competitors {name : String} :
    name ∈ competitors tenant p ↔ name ∈ tenantsOf p ∧ name ≠ tenant := by
  unfold competitors
  rw [StringSet.mem_ofList, List.mem_filter, decide_eq_true_iff]

theorem competitors_nodup (tenant : String) (p : OrdMap Uuid (Pending F)) :
    (competitors tenant p).Nodup := OrdMap.keys_nodup _

end Tables

/-! ## Shares, as they are added up -/

section Shares

variable {F : Type} [Arith F]

/-- What the guarantees of these tenants, added up in this order, leave to
one, or its own guarantee. -/
def reclaimable (cfg : Config F) (tenant : String) (names : List String) : F :=
  max (Arith.lit 1 - min (Arith.sum (names.map cfg.guaranteedShare)) (Arith.lit 1))
    (cfg.guaranteedShare tenant)

/-- No guarantee is negative, as `validate` requires. -/
def NonnegGuarantees (cfg : Config F) : Prop :=
  ∀ e ∈ cfg.policies.tenants.entries, Arith.lit 0 ≤ e.2.guaranteedShare

end Shares

section Fits

variable {F : Type} [OrderedArith F] {cfg : Config F} {tenant : String} {names : List String}

theorem NonnegGuarantees.share (h : NonnegGuarantees cfg) (name : String) :
    Arith.lit 0 ≤ cfg.guaranteedShare name := by
  unfold Config.guaranteedShare
  cases hp : cfg.policies.tenants.get? name with
  | none => exact OrderedArith.zero_le_zero
  | some policy => exact h (name, policy) (OrdMap.get?_eq_some.mp hp)

/-- Guarantees that add up to more leave no more. -/
theorem reclaimable_anti {names' : List String}
    (h : Arith.sum (names.map cfg.guaranteedShare) ≤ Arith.sum (names'.map cfg.guaranteedShare)) :
    reclaimable cfg tenant names' ≤ reclaimable cfg tenant names :=
  OrderedArith.max_mono _ (OrderedArith.one_sub_anti (OrderedArith.min_mono _ h))

end Fits

variable {cfg : Config ℚ} {tenant pool : String} {limit : ℚ} {names : List String}
variable {p p' : OrdMap Uuid (Pending ℚ)}

/-! ### Tables of two tenants -/

/-- A request of a tenant that waits for a pool. -/
def waitingFor (pool name : String) : Pending ℚ where
  waiter := 0
  request :=
    { id := 0
      identity := ⟨"principal", name, "app", true⟩
      requestedClass := .standard
      effectiveClass := .standard
      pool
      estimate := ⟨1, 1, 0, 1, 2, 1, .approximation⟩
      deadline := 1000
      queueable := true }
  bodyBytes := 0
  classWeight := 1
  tenantWeight := 1
  appWeight := 1
  queuedAt := 0

/-- The table in which these tenants, and nobody else, wait for a pool. -/
def tableOf (pool : String) (names : List String) : OrdMap Uuid (Pending ℚ) where
  entries := (List.range names.length).map fun i => (i, waitingFor pool (names.getD i ""))
  sorted := List.pairwise_map.mpr List.pairwise_lt_range

/-- The share of a pool the limit comes to. -/
def limitShare (cfg : Config ℚ) (tenant : String) (names : List String) : ℚ :=
  if names = [] then cfg.maxShare tenant
  else min (cfg.maxShare tenant) (reclaimable cfg tenant names)

/-- **The limit, in closed form.** -/
theorem tenantCapacityLimit_eq_mul (cfg : Config ℚ) (tenant : String) (limit : ℚ)
    (p : OrdMap Uuid (Pending ℚ)) :
    tenantCapacityLimit cfg (tenantsOf p) tenant limit =
      limit * limitShare cfg tenant (competitors tenant p) := by
  unfold tenantCapacityLimit limitShare competitors
  simp only [List.isEmpty_iff]
  split
  · rfl
  · rfl

theorem guaranteedShare_le_maxShare (h : Config.Checked cfg) (tenant : String) :
    cfg.guaranteedShare tenant ≤ cfg.maxShare tenant := by
  unfold Config.guaranteedShare Config.maxShare
  cases hp : cfg.policies.tenants.get? tenant with
  | none => exact zero_le_one
  | some policy =>
    have hc := (h.tenants (tenant, policy) (OrdMap.get?_eq_some.mp hp)).2
    simp only [Arith.contains, Arith.lit_rat, Bool.and_eq_true, decide_eq_true_eq] at hc
    exact hc.1

theorem limitShare_le_maxShare (cfg : Config ℚ) (tenant : String) (names : List String) :
    limitShare cfg tenant names ≤ cfg.maxShare tenant := by
  unfold limitShare
  split
  · exact le_rfl
  · exact min_le_left _ _

theorem guaranteedShare_le_limitShare (h : Config.Checked cfg) (tenant : String)
    (names : List String) : cfg.guaranteedShare tenant ≤ limitShare cfg tenant names := by
  have hmax := guaranteedShare_le_maxShare h tenant
  unfold limitShare
  split
  · exact hmax
  · exact le_min hmax (le_max_right _ _)

/-- More tenants are guaranteed more. -/
theorem sum_guaranteedShare_mono {names' : List String} (h : Config.Checked cfg)
    (hnd : names.Nodup) (hsub : ∀ name ∈ names, name ∈ names') :
    (names.map cfg.guaranteedShare).sum ≤ (names'.map cfg.guaranteedShare).sum := by
  obtain ⟨rest, hperm⟩ := exists_rest hnd hsub
  rw [← (hperm.map cfg.guaranteedShare).sum_eq, List.map_append, List.sum_append]
  refine le_add_of_nonneg_right (List.sum_nonneg fun share hshare => ?_)
  obtain ⟨name, -, rfl⟩ := List.mem_map.mp hshare
  exact guaranteedShare_nonneg h name

/-- **The more tenants compete, the smaller the share**, the early return
of a tenant without competitors included. -/
theorem limitShare_antitone {names' : List String} (h : Config.Checked cfg) (tenant : String)
    (hnd : names.Nodup) (hsub : ∀ name ∈ names, name ∈ names') :
    limitShare cfg tenant names' ≤ limitShare cfg tenant names := by
  by_cases hnil : names = []
  · rw [limitShare.eq_1 cfg tenant names, if_pos hnil]
    exact limitShare_le_maxShare cfg tenant names'
  · obtain ⟨name, hname⟩ := List.exists_mem_of_ne_nil names hnil
    have hnil' : names' ≠ [] := List.ne_nil_of_mem (hsub name hname)
    have hsum := sum_guaranteedShare_mono h hnd hsub
    rw [← Arith.sum_rat, ← Arith.sum_rat] at hsum
    unfold limitShare
    rw [if_neg hnil, if_neg hnil']
    exact min_le_min le_rfl (reclaimable_anti hsum)

/-- **Every other tenant of one table waits in the other too.** -/
def OthersWithin (tenant : String) (p p' : OrdMap Uuid (Pending ℚ)) : Prop :=
  ∀ name, name ≠ tenant → name ∈ tenantsOf p → name ∈ tenantsOf p'

theorem OthersWithin.competitors (h : OthersWithin tenant p p') :
    ∀ name ∈ competitors tenant p, name ∈ competitors tenant p' := by
  intro name hname
  obtain ⟨hmem, hne⟩ := mem_competitors.mp hname
  exact mem_competitors.mpr ⟨h name hne hmem, hne⟩

theorem mem_tenantsOf {name : String} :
    name ∈ tenantsOf p ↔ ∃ id v, p.get? id = some v ∧ v.request.identity.tenant = name := by
  unfold tenantsOf
  rw [List.mem_map]
  constructor
  · rintro ⟨v, hmem, hname⟩
    obtain ⟨id, hget⟩ := OrdMap.mem_values.mp hmem
    exact ⟨id, v, hget, hname⟩
  · rintro ⟨id, v, hget, hname⟩
    exact ⟨v, OrdMap.mem_values.mpr ⟨id, hget⟩, hname⟩

theorem mem_tenantsOf_insert {id : Uuid} {v : Pending ℚ} (hnew : p.get? id = none) {name : String} :
    name ∈ tenantsOf (p.insert id v) ↔
      name = v.request.identity.tenant ∨ name ∈ tenantsOf p := by
  rw [mem_tenantsOf, mem_tenantsOf]
  constructor
  · rintro ⟨id', v', hget, rfl⟩
    rw [OrdMap.get?_insert] at hget
    split at hget
    · cases hget
      exact Or.inl rfl
    · exact Or.inr ⟨id', v', hget, rfl⟩
  · rintro (rfl | ⟨id', v', hget, rfl⟩)
    · exact ⟨id, v, by rw [OrdMap.get?_insert, if_pos rfl], rfl⟩
    · have hne : id' ≠ id := fun heq => by rw [heq, hnew] at hget; cases hget
      exact ⟨id', v', by rw [OrdMap.get?_insert, if_neg hne]; exact hget, rfl⟩

/-- Who waits does not leave by one more request. -/
theorem othersWithin_insert {id : Uuid} {v : Pending ℚ} (hnew : p.get? id = none) :
    OthersWithin tenant p (p.insert id v) :=
  fun _ _ hmem => (mem_tenantsOf_insert hnew).mpr (Or.inr hmem)

/-- A further request of the tenant itself, or of one that waits, brings
nobody. -/
theorem insert_othersWithin {id : Uuid} {v : Pending ℚ} (hnew : p.get? id = none)
    (hold : v.request.identity.tenant = tenant ∨ v.request.identity.tenant ∈ tenantsOf p) :
    OthersWithin tenant (p.insert id v) p := by
  intro name hne hmem
  rcases (mem_tenantsOf_insert hnew).mp hmem with rfl | hmem
  · exact hold.resolve_left hne
  · exact hmem

/-- **A limit falls with the tenants that compete.** -/
theorem tenantCapacityLimit_antitone (h : Config.Checked cfg) (hlimit : 0 ≤ limit)
    (hothers : OthersWithin tenant p p') :
    tenantCapacityLimit cfg (tenantsOf p') tenant limit ≤
      tenantCapacityLimit cfg (tenantsOf p) tenant limit := by
  rw [tenantCapacityLimit_eq_mul, tenantCapacityLimit_eq_mul]
  exact mul_le_mul_of_nonneg_left
    (limitShare_antitone h tenant (competitors_nodup tenant p) hothers.competitors) hlimit

/-- **A limit keeps to the bounds of the policy.** Under every validated
configuration, for every limit of a pool, every tenant and every table of
pending requests: the tenant's limit is between its guaranteed and its
maximum share of the pool, which are nothing and all of it for a tenant no
policy knows; a table in which every other tenant waits that waits in this
one does not raise it; and of one more request, it falls or stays, and
stays if the request is of the tenant itself or of one that waits
already. -/
theorem tenantCapacityLimit_within_policy (ext : External) (cfg : Config ℚ)
    (hvalid : Config.validate ext cfg = .ok ()) (limit : ℚ) (hlimit : 0 ≤ limit) (tenant : String)
    (p : OrdMap Uuid (Pending ℚ)) :
    (limit * cfg.guaranteedShare tenant ≤ tenantCapacityLimit cfg (tenantsOf p) tenant limit ∧
      tenantCapacityLimit cfg (tenantsOf p) tenant limit ≤ limit * cfg.maxShare tenant) ∧
    (cfg.policies.tenants.get? tenant = none →
      cfg.guaranteedShare tenant = 0 ∧ cfg.maxShare tenant = 1) ∧
    (∀ policy, cfg.policies.tenants.get? tenant = some policy →
      cfg.guaranteedShare tenant = policy.guaranteedShare ∧
        cfg.maxShare tenant = policy.maxShare) ∧
    (∀ p', OthersWithin tenant p p' →
      tenantCapacityLimit cfg (tenantsOf p') tenant limit ≤
        tenantCapacityLimit cfg (tenantsOf p) tenant limit) ∧
    ∀ id v, p.get? id = none →
      tenantCapacityLimit cfg (tenantsOf (p.insert id v)) tenant limit ≤
          tenantCapacityLimit cfg (tenantsOf p) tenant limit ∧
        (v.request.identity.tenant = tenant ∨ v.request.identity.tenant ∈ tenantsOf p →
          tenantCapacityLimit cfg (tenantsOf (p.insert id v)) tenant limit =
            tenantCapacityLimit cfg (tenantsOf p) tenant limit) := by
  have h := Config.checked_of_validate hvalid
  refine ⟨⟨?_, ?_⟩, fun hnone => ?_, fun policy hsome => ?_,
    fun p' => tenantCapacityLimit_antitone h hlimit, fun id v hnew => ⟨?_, fun hold => ?_⟩⟩
  · rw [tenantCapacityLimit_eq_mul]
    exact mul_le_mul_of_nonneg_left (guaranteedShare_le_limitShare h tenant _) hlimit
  · rw [tenantCapacityLimit_eq_mul]
    exact mul_le_mul_of_nonneg_left (limitShare_le_maxShare cfg tenant _) hlimit
  · simp [Config.guaranteedShare, Config.maxShare, hnone]
  · simp [Config.guaranteedShare, Config.maxShare, hsome]
  · exact tenantCapacityLimit_antitone h hlimit (othersWithin_insert hnew)
  · exact le_antisymm (tenantCapacityLimit_antitone h hlimit (othersWithin_insert hnew))
      (tenantCapacityLimit_antitone h hlimit (insert_othersWithin hnew hold))

/-- A tenant guaranteed a half comes to wait, and the limit of another
falls from the whole pool to the other half. -/
theorem limit_falls_to_half :
    tenantCapacityLimit halfGuaranteed (tenantsOf (tableOf "primary" ["t"])) "u" 10 ≤
        tenantCapacityLimit halfGuaranteed (tenantsOf (F := ℚ) ∅) "u" 10 ∧
      tenantCapacityLimit halfGuaranteed (tenantsOf (F := ℚ) ∅) "u" 10 = 10 ∧
      tenantCapacityLimit halfGuaranteed (tenantsOf (tableOf "primary" ["t"])) "u" 10 = 5 :=
  ⟨(tenantCapacityLimit_within_policy Config.noParsers halfGuaranteed (by decide +kernel) 10
      (by norm_num) "u" ∅).2.2.2.1 _ fun _ _ hmem => (by cases hmem),
    by decide +kernel, by decide +kernel⟩

end Proxy

end InferQos
