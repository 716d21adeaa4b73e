import InferQos.Common.Trace
import InferQos.Config.Validate
import InferQos.Coordinator.Ledger
import InferQos.Proxy.Admission
import Mathlib.Data.Fintype.EquivFin
import Mathlib.Tactic.Linarith
import Mathlib.Tactic.Ring
/-!
# Guaranteed shares

`tenant_capacity_limit` lowers a tenant's share of a pool by the guarantees
of the tenants that wait. Each tenant is limited on its own, so two tenants
that each respect what is left beside a third one's guarantee can together
take that guarantee away. `guaranteed_share_iff` says for which guarantees
no run does.
-/

namespace InferQos

namespace Proxy

open InMemoryCoordinator (unitsIn NonNeg leasesOf retain used Change)

variable {cfg : Config ℚ} {tenant other pool : String} {limit : ℚ} {pending : List String}

/-! ## The limit of one tenant -/

theorem guaranteedShare_nonneg (h : Config.Checked cfg) (name : String) :
    0 ≤ cfg.guaranteedShare name := by
  unfold Config.guaranteedShare
  cases hp : cfg.policies.tenants.get? name with
  | none => exact le_rfl
  | some p =>
    have hc := (h.tenants (name, p) (OrdMap.get?_eq_some.mp hp)).1
    simp only [Arith.contains, Arith.lit_rat, Bool.and_eq_true, decide_eq_true_eq] at hc
    exact hc.1

/-- The guarantees of distinct tenants sum to at most those of the
configuration. -/
theorem sum_guaranteedShare_le (h : Config.Checked cfg)
    (hsum : cfg.policies.tenants.sumOn (fun _ p => p.guaranteedShare) ≤ 1) {names : List String}
    (hnd : names.Nodup) : (names.map cfg.guaranteedShare).sum ≤ 1 := by
  refine le_trans ?_ hsum
  refine OrdMap.sum_get?_le_sumOn (f := fun _ (p : TenantPolicy ℚ) => p.guaranteedShare) ?_ hnd
  intro e he
  have hc := (h.tenants e he).1
  simp only [Arith.contains, Arith.lit_rat, Bool.and_eq_true, decide_eq_true_eq] at hc
  exact hc.1

/-- **A tenant's limit leaves the guarantee of one that waits.** -/
theorem tenantCapacityLimit_le (h : Config.Checked cfg)
    (hsum : cfg.policies.tenants.sumOn (fun _ p => p.guaranteedShare) ≤ 1) (hlimit : 0 ≤ limit)
    (hne : other ≠ tenant) (hwait : tenant ∈ pending) :
    tenantCapacityLimit cfg pending other limit ≤ (1 - cfg.guaranteedShare tenant) * limit := by
  set competing := StringSet.ofList (pending.filter (· ≠ other)) with hcompeting
  have hmem : tenant ∈ competing.keys := by
    rw [hcompeting, StringSet.mem_ofList, List.mem_filter]
    exact ⟨hwait, by simpa using hne.symm⟩
  have hnot : other ∉ competing.keys := by
    rw [hcompeting, StringSet.mem_ofList, List.mem_filter]
    simp
  set total := (competing.keys.map cfg.guaranteedShare).sum with htotal
  -- the competitors' guarantees and the tenant's own are guarantees of distinct tenants
  have hall := sum_guaranteedShare_le h hsum (List.nodup_cons.mpr ⟨hnot, competing.keys_nodup⟩)
  rw [List.map_cons, List.sum_cons, ← htotal] at hall
  have hown : cfg.guaranteedShare tenant ≤ total := by
    refine List.single_le_sum (fun x hx => ?_) _ (List.mem_map_of_mem hmem)
    obtain ⟨name, -, rfl⟩ := List.mem_map.mp hx
    exact guaranteedShare_nonneg h name
  have hshare : max (1 - min total 1) (cfg.guaranteedShare other) ≤ 1 - cfg.guaranteedShare tenant := by
    have hpos := guaranteedShare_nonneg h other
    rw [min_eq_left (by linarith)]
    exact max_le (by linarith) (by linarith)
  have hne' : competing.keys.isEmpty = false := by
    rw [List.isEmpty_eq_false_iff]
    exact List.ne_nil_of_mem hmem
  unfold tenantCapacityLimit
  simp only [← hcompeting, hne', Bool.false_eq_true, if_false, Arith.sum_rat, Arith.lit_rat,
    ← htotal]
  rw [mul_comm]
  exact mul_le_mul_of_nonneg_right ((min_le_right _ _).trans hshare) hlimit

/-- A tenant without a policy is limited by what the one that waits
leaves. -/
theorem tenantCapacityLimit_unknown (h : Config.Checked cfg)
    (hsum : cfg.policies.tenants.sumOn (fun _ p => p.guaranteedShare) ≤ 1)
    (hunknown : cfg.policies.tenants.get? other = none) (hne : other ≠ tenant) :
    tenantCapacityLimit cfg [tenant] other limit = limit * (1 - cfg.guaranteedShare tenant) := by
  have hle : cfg.guaranteedShare tenant ≤ 1 := by
    have := sum_guaranteedShare_le h hsum (List.nodup_singleton tenant)
    simpa using this
  have hnn := guaranteedShare_nonneg h tenant
  have hkeys : (StringSet.ofList ([tenant].filter (· ≠ other))).keys = [tenant] := by
    rw [List.filter_cons_of_pos (by simpa using hne.symm)]
    rfl
  unfold tenantCapacityLimit
  simp only [hkeys]
  have hg : cfg.guaranteedShare other = 0 := by simp [Config.guaranteedShare, hunknown]
  have hm : cfg.maxShare other = 1 := by simp [Config.maxShare, hunknown]
  simp only [List.isEmpty_cons, Bool.false_eq_true, if_false, List.map_cons, List.map_nil,
    Arith.sum_rat, List.sum_cons, List.sum_nil, add_zero, Arith.lit_rat, hg, hm]
  rw [min_eq_left hle, max_eq_left (by linarith), min_eq_right (by linarith)]

/-! ## Runs on one ledger -/

/-- What happens to the ledger of a pool. A reservation computes its
tenant's limit from the tenants waiting at that moment. -/
inductive ShareOp
  | reserve (tenant : String) (pending : List String) (units : ℚ) (ttl : ℕ)
  | release (lease : Lease ℚ)
  | renew (lease : Lease ℚ) (ttl : ℕ)

/-- An event with its clock reading and fresh id. -/
structure ShareCall where
  now : ℕ
  id : Uuid
  op : ShareOp

/-- The coordinator call an event makes. -/
def ShareCall.toCall (cfg : Config ℚ) (pool : String) (limit : ℚ) (c : ShareCall) :
    InMemoryCoordinator.Call ℚ where
  now := c.now
  id := c.id
  op := match c.op with
    | .reserve tenant pending units ttl =>
      .reserveScoped pool tenant limit (tenantCapacityLimit cfg pending tenant limit) units ttl
    | .release lease => .release lease
    | .renew lease ttl => .renew lease ttl

/-- The entries of the pool after a run from an empty ledger. -/
def ledgerAfter (cfg : Config ℚ) (pool : String) (limit : ℚ) (calls : List ShareCall) :
    InMemoryCoordinator.PoolLeases ℚ :=
  leasesOf (InMemoryCoordinator.exec (calls.map (ShareCall.toCall cfg pool limit))) pool

/-- The tenant waits whenever another one reserves. -/
def Waits (tenant : String) (calls : List ShareCall) : Prop :=
  ∀ c ∈ calls, match c.op with
    | .reserve other pending _ _ => other ≠ tenant → tenant ∈ pending
    | _ => True

/-- The scopes of every tenant but one. -/
def beside (tenant : String) (scope : Option String) : Bool := scope ≠ some tenant

/-- And but two. -/
def besideBoth (tenant other : String) (scope : Option String) : Bool :=
  scope ≠ some tenant ∧ scope ≠ some other

/-- **The guarantee is protected**: the live units of the other tenants
leave it free, and no request within it is refused for the pool's limit. -/
def Protected (cfg : Config ℚ) (limit : ℚ) (tenant : String) (now : ℕ)
    (leases : InMemoryCoordinator.PoolLeases ℚ) : Prop :=
  unitsIn (beside tenant) (retain now leases) ≤ (1 - cfg.guaranteedShare tenant) * limit ∧
    ∀ units, InMemoryCoordinator.scopeUsed tenant (retain now leases) + units ≤
        cfg.guaranteedShare tenant * limit →
      ¬ limit < used (retain now leases) + units

/-- **Room for what a reservation may take**: what third tenants hold and
the limit of the one that reserves leave the guarantee free. -/
def Room (cfg : Config ℚ) (limit : ℚ) (tenant : String)
    (leases : InMemoryCoordinator.PoolLeases ℚ) (c : ShareCall) : Prop :=
  match c.op with
  | .reserve other pending _ _ => other ≠ tenant →
      unitsIn (besideBoth tenant other) (retain c.now leases) +
          tenantCapacityLimit cfg pending other limit ≤
        (1 - cfg.guaranteedShare tenant) * limit
  | _ => True

theorem ledgerAfter_snoc (calls : List ShareCall) (c : ShareCall) :
    ledgerAfter cfg pool limit (calls ++ [c]) =
      leasesOf (InMemoryCoordinator.apply
        (InMemoryCoordinator.exec (calls.map (ShareCall.toCall cfg pool limit)))
        (c.toCall cfg pool limit)).2 pool := by
  unfold ledgerAfter
  rw [List.map_append, List.map_singleton, InMemoryCoordinator.exec_snoc]

theorem ledgerAfter_nonNeg (calls : List ShareCall) :
    NonNeg (ledgerAfter cfg pool limit calls) :=
  InMemoryCoordinator.exec_nonNeg _ _

/-- The units beside one tenant are those of another and those beside
both. -/
theorem unitsIn_beside (hne : other ≠ tenant) (leases : InMemoryCoordinator.PoolLeases ℚ) :
    unitsIn (beside tenant) leases =
      unitsIn (besideBoth tenant other) leases + unitsIn (fun s => s = some other) leases := by
  unfold unitsIn OrdMap.sumOn
  rw [← List.sum_map_add]
  refine congrArg List.sum (List.map_congr_left fun e _ => ?_)
  by_cases ho : e.2.scope = some other
  · simp [beside, besideBoth, ho, hne]
  · by_cases ht : e.2.scope = some tenant
    · simp [beside, besideBoth, ht, hne.symm]
    · simp [beside, besideBoth, ho, ht]

/-- All units are the tenant's own and those beside it. -/
theorem used_eq_add (tenant : String) (leases : InMemoryCoordinator.PoolLeases ℚ) :
    used leases =
      InMemoryCoordinator.scopeUsed tenant leases + unitsIn (beside tenant) leases := by
  rw [InMemoryCoordinator.used_rat, InMemoryCoordinator.scopeUsed_rat]
  unfold unitsIn OrdMap.sumOn
  rw [← List.sum_map_add]
  refine congrArg List.sum (List.map_congr_left fun e _ => ?_)
  by_cases ht : e.2.scope = some tenant
  · simp [beside, ht]
  · simp [beside, ht]

/-- **Within the bound, the guarantee is protected**, at every clock
reading. -/
theorem protected_of_le {leases : InMemoryCoordinator.PoolLeases ℚ} (hn : NonNeg leases)
    (h : unitsIn (beside tenant) leases ≤ (1 - cfg.guaranteedShare tenant) * limit) (now : ℕ) :
    Protected cfg limit tenant now leases := by
  have hle : unitsIn (beside tenant) (retain now leases) ≤
      (1 - cfg.guaranteedShare tenant) * limit :=
    (InMemoryCoordinator.unitsIn_filter_le hn _).trans h
  refine ⟨hle, fun units hunits => ?_⟩
  rw [used_eq_add tenant, not_lt]
  linarith

/-- **One event with room for it keeps the bound.** -/
theorem beside_step (calls : List ShareCall) (c : ShareCall)
    (h : unitsIn (beside tenant) (ledgerAfter cfg pool limit calls) ≤
      (1 - cfg.guaranteedShare tenant) * limit)
    (hroom : Room cfg limit tenant (ledgerAfter cfg pool limit calls) c) :
    unitsIn (beside tenant) (ledgerAfter cfg pool limit (calls ++ [c])) ≤
      (1 - cfg.guaranteedShare tenant) * limit := by
  have hn : NonNeg (ledgerAfter cfg pool limit calls) := ledgerAfter_nonNeg calls
  rw [ledgerAfter_snoc]
  set all := InMemoryCoordinator.exec (calls.map (ShareCall.toCall cfg pool limit)) with hall
  change unitsIn (beside tenant) (leasesOf all pool) ≤ _ at h
  change NonNeg (leasesOf all pool) at hn
  by_cases hp : pool = (c.toCall cfg pool limit).op.pool
  · have hchange := InMemoryCoordinator.apply_change all (c.toCall cfg pool limit)
    rw [← hp] at hchange
    obtain ⟨now, id, op⟩ := c
    cases op with
    | release lease => exact (hchange.unitsIn_le hn rfl).trans h
    | renew lease ttl => exact (hchange.unitsIn_le hn rfl).trans h
    | reserve other pending units ttl =>
      change unitsIn (beside tenant) (leasesOf (InMemoryCoordinator.reserveScoped now id all pool
        other limit (tenantCapacityLimit cfg pending other limit) units ttl).2 pool) ≤ _
      rcases InMemoryCoordinator.reserveScoped_spec now id all pool other limit
        (tenantCapacityLimit cfg pending other limit) units ttl with
        ⟨hr, -⟩ | ⟨-, -, ⟨hr, -⟩ | ⟨hr, -, -⟩⟩
      · rw [hr]
        exact h
      · rw [hr, InMemoryCoordinator.leasesOf_insert, if_pos rfl]
        exact (InMemoryCoordinator.unitsIn_filter_le hn _).trans h
      · have hadd := fun p => InMemoryCoordinator.unitsIn_insert_le (p := p)
          (hn.filter fun _ e => now < e.expires) id ⟨units, now + ttl, some other⟩
        by_cases hother : other = tenant
        · -- the tenant's own entry is not beside it
          rw [hr, InMemoryCoordinator.leasesOf_insert, if_pos rfl]
          have hown := hadd (beside tenant)
          simp only [beside, hother, ne_eq, not_true, decide_false, Bool.false_eq_true, if_false,
            add_zero] at hown
          rw [hother]
          exact hown.trans ((InMemoryCoordinator.unitsIn_filter_le hn _).trans h)
        · have hscope := InMemoryCoordinator.scope_within hn (congrArg Prod.fst hr)
          rw [hr, InMemoryCoordinator.leasesOf_insert, if_pos rfl] at hscope ⊢
          rw [unitsIn_beside hother]
          have hthird := hadd (besideBoth tenant other)
          simp only [besideBoth, ne_eq, not_true, and_false, decide_false, Bool.false_eq_true,
            if_false, add_zero] at hthird
          exact (add_le_add hthird hscope).trans (hroom hother)
  · have hsame := InMemoryCoordinator.get?_apply_of_ne all (c.toCall cfg pool limit) hp
    unfold leasesOf at h ⊢
    rw [hsame]
    exact h

/-- **A run with room at every reservation keeps the bound.** -/
theorem beside_run (hlimit : 0 ≤ limit) (hle : cfg.guaranteedShare tenant ≤ 1)
    (calls : List ShareCall)
    (hroom : ∀ pre c, pre ++ [c] <+: calls →
      Room cfg limit tenant (ledgerAfter cfg pool limit pre) c) :
    unitsIn (beside tenant) (ledgerAfter cfg pool limit calls) ≤
      (1 - cfg.guaranteedShare tenant) * limit := by
  have hempty : 0 ≤ (1 - cfg.guaranteedShare tenant) * limit := mul_nonneg (by linarith) hlimit
  exact prefix_induction (P := fun pre => unitsIn (beside tenant) (ledgerAfter cfg pool limit pre) ≤
    (1 - cfg.guaranteedShare tenant) * limit) hroom hempty beside_step

/-! ## Which guarantees every run protects -/

/-- Without a guarantee, the pool's own limit is the bound. -/
theorem beside_le_limit (hlimit : 0 ≤ limit) (calls : List ShareCall) :
    unitsIn (beside tenant) (ledgerAfter cfg pool limit calls) ≤ limit := by
  have hn : NonNeg (ledgerAfter cfg pool limit calls) := ledgerAfter_nonNeg calls
  have hwithin := InMemoryCoordinator.exec_within
    (calls.map (ShareCall.toCall cfg pool limit)) pool limit (by
      intro c hc _ l hl
      obtain ⟨⟨now, id, op⟩, -, rfl⟩ := List.mem_map.mp hc
      cases op with
      | release lease => cases hl
      | renew lease ttl => cases hl
      | reserve other pending units ttl => exact (Option.some.inj hl).symm.le)
  have hown : 0 ≤ InMemoryCoordinator.scopeUsed tenant (ledgerAfter cfg pool limit calls) := by
    rw [InMemoryCoordinator.scopeUsed_rat]
    exact InMemoryCoordinator.unitsIn_nonneg hn
  have hsplit := used_eq_add tenant (ledgerAfter cfg pool limit calls)
  rw [InMemoryCoordinator.used_rat] at hsplit
  by_cases hnil : (ledgerAfter cfg pool limit calls).entries = []
  · simpa [unitsIn, OrdMap.sumOn, hnil] using hlimit
  · have := hwithin hnil
    change unitsIn _ (ledgerAfter cfg pool limit calls) ≤ limit at this
    linarith

/-- Under a guarantee of the whole pool, no other tenant gets anything. -/
theorem beside_of_whole (h : Config.Checked cfg)
    (hsum : cfg.policies.tenants.sumOn (fun _ p => p.guaranteedShare) ≤ 1) (hlimit : 0 ≤ limit)
    (hone : cfg.guaranteedShare tenant = 1) (calls : List ShareCall) (hwaits : Waits tenant calls) :
    unitsIn (beside tenant) (ledgerAfter cfg pool limit calls) ≤
      (1 - cfg.guaranteedShare tenant) * limit := by
  induction calls using List.reverseRecOn with
  | nil => exact mul_nonneg (by linarith) hlimit
  | append_singleton calls c ih =>
    have hle := ih fun c' hc' => hwaits c' (List.mem_append_left _ hc')
    refine beside_step calls c hle ?_
    have hw := hwaits c (by simp)
    obtain ⟨now, id, op⟩ := c
    cases op with
    | release lease => trivial
    | renew lease ttl => trivial
    | reserve other pending units ttl =>
      intro hne
      have hn : NonNeg (ledgerAfter cfg pool limit calls) := ledgerAfter_nonNeg calls
      have hcap := tenantCapacityLimit_le h hsum hlimit hne (hw hne)
      have hthird := InMemoryCoordinator.unitsIn_filter_le (p := besideBoth tenant other) hn
        fun _ e => now < e.expires
      have hown := InMemoryCoordinator.unitsIn_nonneg (p := fun s => s = some other) hn
      have hsplit := unitsIn_beside hne (ledgerAfter cfg pool limit calls)
      change unitsIn (besideBoth tenant other) (retain now _) + _ ≤ _
      change unitsIn (besideBoth tenant other) (retain now _) ≤ _ at hthird
      rw [hone] at hcap hle ⊢
      linarith

/-- Two names beside a tenant that no policy knows. -/
theorem exists_unknown_pair (cfg : Config ℚ) (tenant : String) :
    ∃ first second, first ≠ tenant ∧ second ≠ tenant ∧ first ≠ second ∧
      cfg.policies.tenants.get? first = none ∧ cfg.policies.tenants.get? second = none := by
  have : Infinite String := Infinite.of_injective String.ofList fun a b hab => by
    simpa using congrArg String.toList hab
  obtain ⟨first, hfirst⟩ :=
    Infinite.exists_notMem_finset (insert tenant cfg.policies.tenants.keys.toFinset)
  obtain ⟨second, hsecond⟩ := Infinite.exists_notMem_finset
    (insert first (insert tenant cfg.policies.tenants.keys.toFinset))
  have hunknown : ∀ name, name ∉ cfg.policies.tenants.keys →
      cfg.policies.tenants.get? name = none := by
    intro name hname
    rw [OrdMap.get?_eq_none]
    exact fun p hp => hname (List.mem_map.mpr ⟨(name, p), hp, rfl⟩)
  simp only [Finset.mem_insert, List.mem_toFinset, not_or] at hfirst hsecond
  exact ⟨first, second, hfirst.1, hsecond.2.1, fun heq => hsecond.1 heq.symm,
    hunknown _ hfirst.2, hunknown _ hsecond.2.2⟩

/-- Two tenants that fit in the pool and in their own limits are both
granted. -/
theorem ledgerAfter_pair {first second : String} {taken more : ℚ} (hne : first ≠ second)
    (htaken : 0 ≤ taken) (hmore : 0 ≤ more) (hfit : taken + more ≤ limit)
    (hfirst : taken ≤ tenantCapacityLimit cfg [tenant] first limit)
    (hsecond : more ≤ tenantCapacityLimit cfg [tenant] second limit) :
    (ledgerAfter cfg pool limit
        [⟨0, 0, .reserve first [tenant] taken 1⟩, ⟨0, 1, .reserve second [tenant] more 1⟩]).entries =
      [(0, ⟨taken, 1, some first⟩), (1, ⟨more, 1, some second⟩)] := by
  set all : InMemoryCoordinator.LeaseState ℚ :=
    OrdMap.insert ∅ pool (OrdMap.insert ∅ 0 ⟨taken, 1, some first⟩) with hall
  have hexec₁ : InMemoryCoordinator.exec
      [ShareCall.toCall cfg pool limit ⟨0, 0, .reserve first [tenant] taken 1⟩] = all := by
    change (InMemoryCoordinator.reserveScoped 0 0 ∅ pool first limit
      (tenantCapacityLimit cfg [tenant] first limit) taken 1).2 = all
    rw [InMemoryCoordinator.reserveScoped_grants (htaken.trans hfirst) htaken ?_ ?_ (by linarith)]
    · rfl
    · change 0 + taken ≤ limit
      linarith
    · change 0 + taken ≤ _
      linarith
  have hleases : (retain 0 (leasesOf all pool)).entries = [(0, ⟨taken, 1, some first⟩)] := by
    rw [hall, InMemoryCoordinator.leasesOf_insert, if_pos rfl]
    rfl
  change (leasesOf (InMemoryCoordinator.exec ([ShareCall.toCall cfg pool limit
    ⟨0, 0, .reserve first [tenant] taken 1⟩] ++ [_])) pool).entries = _
  rw [InMemoryCoordinator.exec_snoc, hexec₁]
  change (leasesOf (InMemoryCoordinator.reserveScoped 0 1 all pool second limit
    (tenantCapacityLimit cfg [tenant] second limit) more 1).2 pool).entries = _
  rw [InMemoryCoordinator.reserveScoped_grants (hmore.trans hsecond) hmore ?_ ?_ (by linarith),
    InMemoryCoordinator.leasesOf_insert, if_pos rfl]
  · simp only [OrdMap.insert, OrdMap.erase, OrdMap.filter, hleases]
    rfl
  · rw [InMemoryCoordinator.used_rat]
    simp only [unitsIn, OrdMap.sumOn, hleases]
    simpa using hfit
  · rw [InMemoryCoordinator.scopeUsed_rat]
    simp only [unitsIn, OrdMap.sumOn, hleases]
    simpa [hne] using hsecond

/-- **Two tenants take a guarantee together**: the first takes all that is
left beside it, and the second, limited to the same, takes from it. -/
theorem two_tenants_take_guarantee (h : Config.Checked cfg)
    (hsum : cfg.policies.tenants.sumOn (fun _ p => p.guaranteedShare) ≤ 1) (hlimit : 0 < limit)
    (hpos : 0 < cfg.guaranteedShare tenant) (hlt : cfg.guaranteedShare tenant < 1) :
    ∃ calls, Waits tenant calls ∧
      ¬ Protected cfg limit tenant 0 (ledgerAfter cfg pool limit calls) := by
  obtain ⟨first, second, hf, hs, hfs, hfu, hsu⟩ := exists_unknown_pair cfg tenant
  have hcap : ∀ other, cfg.policies.tenants.get? other = none → other ≠ tenant →
      tenantCapacityLimit cfg [tenant] other limit = limit * (1 - cfg.guaranteedShare tenant) :=
    fun other => tenantCapacityLimit_unknown h hsum
  have hcap₁ := hcap first hfu hf
  have hcap₂ := hcap second hsu hs
  set share := cfg.guaranteedShare tenant with hshare
  set taken := limit * (1 - share) with htaken
  set more := min taken (limit * share) with hmore
  have htaken0 : 0 ≤ taken := mul_nonneg hlimit.le (by linarith)
  have hmore0 : 0 < more := lt_min (mul_pos hlimit (by linarith)) (mul_pos hlimit hpos)
  have hfit : taken + more ≤ limit := by
    have hle : more ≤ limit * share := min_le_right _ _
    have hall : taken + limit * share = limit := by rw [htaken]; ring
    linarith
  refine ⟨[⟨0, 0, .reserve first [tenant] taken 1⟩, ⟨0, 1, .reserve second [tenant] more 1⟩],
    ?_, fun hprot => ?_⟩
  · intro c hc
    simp only [List.mem_cons, List.not_mem_nil, or_false] at hc
    rcases hc with rfl | rfl
    · exact fun _ => List.mem_singleton_self tenant
    · exact fun _ => List.mem_singleton_self tenant
  · have hentries : (ledgerAfter cfg pool limit
        [⟨0, 0, .reserve first [tenant] taken 1⟩,
          ⟨0, 1, .reserve second [tenant] more 1⟩]).entries =
        [(0, ⟨taken, 1, some first⟩), (1, ⟨more, 1, some second⟩)] :=
      ledgerAfter_pair hfs htaken0 hmore0.le hfit hcap₁.ge ((min_le_left _ _).trans hcap₂.ge)
    have hle := hprot.1
    simp only [unitsIn, OrdMap.sumOn, retain, OrdMap.filter, hentries, ← hshare] at hle
    simp only [beside, zero_lt_one, decide_true, List.filter_cons_of_pos, List.filter_nil, ne_eq,
      Option.some.injEq, hf, hs, not_false_eq_true, if_true, List.map_cons, List.map_nil,
      List.sum_cons, List.sum_nil] at hle
    have hbound : (1 - share) * limit = taken := by rw [htaken]; ring
    linarith

/-- **Which guarantees are protected.** Under a validated configuration
whose guarantees sum to at most one, every run in which the tenant waits at
each reservation of another leaves its guarantee free exactly when the
guarantee is nothing or the whole pool. And whatever the guarantee, a run
that finds room at every reservation leaves it free. -/
theorem guaranteed_share_iff (ext : External) (cfg : Config ℚ)
    (hvalid : Config.validate ext cfg = .ok ())
    (hsum : cfg.policies.tenants.sumOn (fun _ p => p.guaranteedShare) ≤ 1) (pool : String)
    (poolConfig : PoolConfig ℚ) (hpool : cfg.pools.get? pool = some poolConfig)
    (tenant : String) :
    ((∀ calls, Waits tenant calls → ∀ now,
        Protected cfg poolConfig.capacityUnits tenant now
          (ledgerAfter cfg pool poolConfig.capacityUnits calls)) ↔
      cfg.guaranteedShare tenant = 0 ∨ cfg.guaranteedShare tenant = 1) ∧
    ∀ calls,
      (∀ pre c, pre ++ [c] <+: calls → Room cfg poolConfig.capacityUnits tenant
        (ledgerAfter cfg pool poolConfig.capacityUnits pre) c) →
      ∀ now, Protected cfg poolConfig.capacityUnits tenant now
        (ledgerAfter cfg pool poolConfig.capacityUnits calls) := by
  have h := Config.checked_of_validate hvalid
  have hlimit : 0 < poolConfig.capacityUnits := by
    have := (h.pools (pool, poolConfig) (OrdMap.get?_eq_some.mp hpool)).2.1
    simpa using this
  have hnn := guaranteedShare_nonneg h tenant
  have hle : cfg.guaranteedShare tenant ≤ 1 := by
    have := sum_guaranteedShare_le h hsum (List.nodup_singleton tenant)
    simpa using this
  refine ⟨⟨fun hall => ?_, fun hshare calls hwaits now => ?_⟩, fun calls hroom now => ?_⟩
  · by_contra hcon
    obtain ⟨h0, h1⟩ := not_or.mp hcon
    obtain ⟨calls, hwaits, hbad⟩ := two_tenants_take_guarantee h hsum hlimit
      (lt_of_le_of_ne hnn (Ne.symm h0)) (lt_of_le_of_ne hle h1)
    exact hbad (hall calls hwaits 0)
  · refine protected_of_le (ledgerAfter_nonNeg calls) ?_ now
    rcases hshare with h0 | h1
    · rw [h0, sub_zero, one_mul]
      exact beside_le_limit hlimit.le calls
    · exact beside_of_whole h hsum hlimit.le h1 calls hwaits
  · exact protected_of_le (ledgerAfter_nonNeg calls) (beside_run hlimit.le hle calls hroom) now

/-- Three tenants, one of which is guaranteed half of the pool. -/
def halfGuaranteed : Config ℚ :=
  Config.minimal .enforce
    [("t", ⟨1, 1 / 2, 1, 100⟩), ("u", ⟨1, 0, 1, 100⟩), ("v", ⟨1, 0, 1, 100⟩)]

/-- One other tenant can take the other half, and the guarantee stands. -/
theorem guaranteed_share_one_other :
    Protected halfGuaranteed 10 "t" 0
      (ledgerAfter halfGuaranteed "primary" 10 [⟨0, 0, .reserve "u" ["t"] 5 1⟩]) := by
  refine (guaranteed_share_iff Config.noParsers halfGuaranteed (by decide +kernel)
    (by decide +kernel) "primary" ⟨.fake, "http://127.0.0.1:9000", none, 10, 1⟩ (by rfl) "t").2
    _ ?_ 0
  intro pre c hpre
  have hlen := hpre.length_le
  simp only [List.length_append, List.length_singleton] at hlen
  have hnil : pre = [] := List.length_eq_zero_iff.mp (by omega)
  subst hnil
  have hc : c = ⟨0, 0, .reserve "u" ["t"] 5 1⟩ := by
    simpa using hpre.eq_of_length (by simp)
  subst hc
  intro _
  decide +kernel

/-- **Two others take both halves**: each is limited to the half that is
left, and neither limit counts the other tenant. -/
theorem two_others_exhaust_pool :
    Config.validate Config.noParsers halfGuaranteed = .ok () ∧
      Waits "t" [⟨0, 0, .reserve "u" ["t"] 5 1⟩, ⟨0, 1, .reserve "v" ["t"] 5 1⟩] ∧
      ¬ Protected halfGuaranteed 10 "t" 0 (ledgerAfter halfGuaranteed "primary" 10
        [⟨0, 0, .reserve "u" ["t"] 5 1⟩, ⟨0, 1, .reserve "v" ["t"] 5 1⟩]) := by
  refine ⟨by decide +kernel, ?_, fun h => absurd h.1 (by decide +kernel)⟩
  intro c hc
  simp only [List.mem_cons, List.not_mem_nil, or_false] at hc
  rcases hc with rfl | rfl
  · exact fun _ => List.mem_singleton_self "t"
  · exact fun _ => List.mem_singleton_self "t"

end Proxy

end InferQos
