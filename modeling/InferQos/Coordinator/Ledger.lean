import InferQos.Coordinator.Model
import Mathlib.Data.List.Induction
/-!
# The lease ledger

What an operation does to the entries of a pool, said once: it leaves
them, purges them, purges them and adds one entry, drops an entry, or moves
an expiry (`Change`). The bound on a pool is about every stored entry, the
expired ones included: a renewal can then not break it, and a purge only
lowers the sum.
-/

namespace InferQos

namespace InMemoryCoordinator

variable {F : Type}

/-! ## One operation -/

theorem leasesOf_insert (all : LeaseState F) (pool pool' : String) (leases : PoolLeases F) :
    leasesOf (all.insert pool leases) pool' =
      if pool' = pool then leases else leasesOf all pool' := by
  unfold leasesOf
  rw [OrdMap.get?_insert]
  split
  · rfl
  · rfl

section

variable [Arith F]

/-- **What a reservation does**: an invalid one changes nothing, a refused
one purges its pool, a granted one purges it and adds its entry. -/
theorem reserve_spec (now : ℕ) (id : Uuid) (all : LeaseState F) (pool : String) (limit units : F)
    (ttl : ℕ) :
    let r := reserve now id all pool limit units ttl
    let leases := retain now (leasesOf all pool)
    (r = (.error .invalidUnits, all) ∧
        (Arith.isFinite units = false ∨ units < Arith.lit 0)) ∨
      (Arith.isFinite units = true ∧ ¬ units < Arith.lit 0 ∧
        ((r = (.ok none, all.insert pool leases) ∧ limit < used leases + units) ∨
          (r = (.ok (some ⟨id, pool, units, now + ttl, none⟩),
              all.insert pool (leases.insert id ⟨units, now + ttl, none⟩)) ∧
            ¬ limit < used leases + units))) := by
  intro r leases
  by_cases hv : (!Arith.isFinite units || decide (units < Arith.lit 0)) = true
  · left
    refine ⟨if_pos hv, ?_⟩
    simpa using hv
  · right
    have hr : r = if limit < used leases + units then (.ok none, all.insert pool leases)
        else (.ok (some ⟨id, pool, units, now + ttl, none⟩),
          all.insert pool (leases.insert id ⟨units, now + ttl, none⟩)) := if_neg hv
    simp only [Bool.or_eq_true, Bool.not_eq_true', decide_eq_true_eq, not_or] at hv
    refine ⟨by simpa using hv.1, hv.2, ?_⟩
    by_cases hlim : limit < used leases + units
    · exact Or.inl ⟨hr.trans (if_pos hlim), hlim⟩
    · exact Or.inr ⟨hr.trans (if_neg hlim), hlim⟩

theorem validateLimits_spec (poolLimit scopeLimit units : F) :
    (validateLimits poolLimit scopeLimit units = .error .invalidUnits ∨
      validateLimits poolLimit scopeLimit units = .ok () ∧ ¬ units < Arith.lit 0) := by
  unfold validateLimits
  split
  · exact Or.inl rfl
  · rename_i hv
    simp only [Bool.or_eq_true, decide_eq_true_eq, not_or] at hv
    exact Or.inr ⟨rfl, hv.2⟩

/-- The same of a reservation in a scope. -/
theorem reserveScoped_spec (now : ℕ) (id : Uuid) (all : LeaseState F) (pool scope : String)
    (poolLimit scopeLimit units : F) (ttl : ℕ) :
    let r := reserveScoped now id all pool scope poolLimit scopeLimit units ttl
    let leases := retain now (leasesOf all pool)
    (r = (.error .invalidUnits, all) ∧
        validateLimits poolLimit scopeLimit units = .error .invalidUnits) ∨
      (validateLimits poolLimit scopeLimit units = .ok () ∧ ¬ units < Arith.lit 0 ∧
        ((r = (.ok none, all.insert pool leases) ∧
            (poolLimit < used leases + units ∨ scopeLimit < scopeUsed scope leases + units)) ∨
          (r = (.ok (some ⟨id, pool, units, now + ttl, some scope⟩),
              all.insert pool (leases.insert id ⟨units, now + ttl, some scope⟩)) ∧
            ¬ poolLimit < used leases + units ∧
            ¬ scopeLimit < scopeUsed scope leases + units))) := by
  intro r leases
  rcases validateLimits_spec poolLimit scopeLimit units with hv | ⟨hv, hunits⟩
  · left
    refine ⟨?_, hv⟩
    change reserveScoped now id all pool scope poolLimit scopeLimit units ttl = _
    rw [reserveScoped, hv]
  · right
    refine ⟨hv, hunits, ?_⟩
    have hr : r = if poolLimit < used leases + units ∨ scopeLimit < scopeUsed scope leases + units
        then (.ok none, all.insert pool leases)
        else (.ok (some ⟨id, pool, units, now + ttl, some scope⟩),
          all.insert pool (leases.insert id ⟨units, now + ttl, some scope⟩)) := by
      change reserveScoped now id all pool scope poolLimit scopeLimit units ttl = _
      rw [reserveScoped, hv]
      rfl
    by_cases hlim : poolLimit < used leases + units ∨ scopeLimit < scopeUsed scope leases + units
    · exact Or.inl ⟨hr.trans (if_pos hlim), hlim⟩
    · exact Or.inr ⟨hr.trans (if_neg hlim), not_or.mp hlim⟩

end

/-- **A release drops its entry and nothing else.** -/
theorem get?_release (all : LeaseState F) (lease : Lease F) (pool : String) :
    (release all lease).get? pool =
      if pool = lease.pool then (all.get? pool).map (·.erase lease.id) else all.get? pool := by
  unfold release
  cases hp : all.get? lease.pool with
  | none =>
    by_cases hpool : pool = lease.pool
    · rw [if_pos hpool, hpool]
      simp [hp]
    · rw [if_neg hpool]
  | some leases =>
    simp only
    rw [OrdMap.get?_insert]
    by_cases hpool : pool = lease.pool
    · rw [if_pos hpool, if_pos hpool, hpool, hp]
      rfl
    · rw [if_neg hpool, if_neg hpool]

theorem leasesOf_release (all : LeaseState F) (lease : Lease F) (pool : String) :
    leasesOf (release all lease) pool =
      if pool = lease.pool then (leasesOf all pool).erase lease.id else leasesOf all pool := by
  unfold leasesOf
  rw [get?_release]
  split
  · cases all.get? pool with
    | none => rfl
    | some leases => rfl
  · rfl

/-- **A renewal moves the expiry of a stored entry**, and only answers
`true` for one. -/
theorem renew_spec (now : ℕ) (all : LeaseState F) (lease : Lease F) (ttl : ℕ) :
    (renew now all lease ttl = (false, all) ∧ (leasesOf all lease.pool).get? lease.id = none) ∨
      ∃ e, (leasesOf all lease.pool).get? lease.id = some e ∧
        renew now all lease ttl = (true, all.insert lease.pool
          ((leasesOf all lease.pool).insert lease.id { e with expires := now + ttl })) := by
  unfold renew leasesOf
  cases hp : all.get? lease.pool with
  | none => exact Or.inl ⟨rfl, rfl⟩
  | some leases =>
    simp only [Option.getD_some]
    cases he : leases.get? lease.id with
    | none => exact Or.inl ⟨rfl, rfl⟩
    | some e => exact Or.inr ⟨e, rfl, rfl⟩

/-! ## Runs of operations -/

/-- The calls of the trait that touch the ledger. -/
inductive Op (F : Type)
  | reserve (pool : String) (limit units : F) (ttl : ℕ)
  | reserveScoped (pool scope : String) (poolLimit scopeLimit units : F) (ttl : ℕ)
  | release (lease : Lease F)
  | renew (lease : Lease F) (ttl : ℕ)

/-- The pool an operation is about. -/
def Op.pool : Op F → String
  | reserve pool .. => pool
  | reserveScoped pool .. => pool
  | release lease => lease.pool
  | renew lease _ => lease.pool

/-- The limit a reservation passes for its whole pool. -/
def Op.poolLimit? : Op F → Option F
  | reserve _ limit .. => some limit
  | reserveScoped _ _ poolLimit .. => some poolLimit
  | _ => none

/-- The scope of what an operation reserves. -/
def Op.scope? : Op F → Option String
  | reserveScoped _ scope .. => some scope
  | _ => none

/-- An operation, the clock it reads and the id `Uuid::new_v4` would
answer. -/
structure Call (F : Type) where
  now : ℕ
  id : Uuid
  op : Op F

/-- What an operation answers. -/
inductive Output (F : Type)
  | reserved (r : Except CoordinatorError (Option (Lease F)))
  | released
  | renewed (r : Bool)

variable [Arith F]

/-- One call. -/
def apply (all : LeaseState F) (c : Call F) : Output F × LeaseState F :=
  match c.op with
  | .reserve pool limit units ttl =>
    let (r, all) := reserve c.now c.id all pool limit units ttl
    (.reserved r, all)
  | .reserveScoped pool scope poolLimit scopeLimit units ttl =>
    let (r, all) := reserveScoped c.now c.id all pool scope poolLimit scopeLimit units ttl
    (.reserved r, all)
  | .release lease => (.released, release all lease)
  | .renew lease ttl =>
    let (r, all) := renew c.now all lease ttl
    (.renewed r, all)

/-- The ledger after a sequence of calls on an empty one. -/
def exec (calls : List (Call F)) : LeaseState F := calls.foldl (fun all c => (apply all c).2) ∅

theorem exec_snoc (calls : List (Call F)) (c : Call F) :
    exec (calls ++ [c]) = (apply (exec calls) c).2 := by
  simp [exec]

/-- **What a call does to the entries of its pool.** -/
inductive Change (c : Call F) (old : PoolLeases F) : PoolLeases F → Prop
  /-- Nothing. -/
  | same : Change c old old
  /-- A refused reservation purges. -/
  | purge : c.op.poolLimit?.isSome → Change c old (retain c.now old)
  /-- A granted one purges and adds its entry, within the pool limit. -/
  | grant (e : Entry F) (limit : F) : c.op.poolLimit? = some limit → e.scope = c.op.scope? →
      ¬ e.units < Arith.lit 0 → ¬ limit < used (retain c.now old) + e.units →
      Change c old ((retain c.now old).insert c.id e)
  /-- A release drops its entry. -/
  | drop (lease : Lease F) : c.op = .release lease → Change c old (old.erase lease.id)
  /-- A renewal moves an expiry. -/
  | extend (id : Uuid) (e : Entry F) (expires : ℕ) : old.get? id = some e →
      Change c old (old.insert id { e with expires := expires })

/-- **A call changes the entries of its own pool**, in one of these ways. -/
theorem apply_change (all : LeaseState F) (c : Call F) :
    Change c (leasesOf all c.op.pool) (leasesOf (apply all c).2 c.op.pool) := by
  obtain ⟨now, id, op⟩ := c
  cases op with
  | reserve pool limit units ttl =>
    change Change _ _ (leasesOf (reserve now id all pool limit units ttl).2 pool)
    rcases reserve_spec now id all pool limit units ttl with
      ⟨hr, -⟩ | ⟨-, hunits, ⟨hr, -⟩ | ⟨hr, hlim⟩⟩
    · rw [hr]
      exact .same
    · rw [hr, leasesOf_insert, if_pos rfl]
      exact .purge rfl
    · rw [hr, leasesOf_insert, if_pos rfl]
      exact .grant ⟨units, now + ttl, none⟩ limit rfl rfl hunits hlim
  | reserveScoped pool scope poolLimit scopeLimit units ttl =>
    change Change _ _ (leasesOf
      (reserveScoped now id all pool scope poolLimit scopeLimit units ttl).2 pool)
    rcases reserveScoped_spec now id all pool scope poolLimit scopeLimit units ttl with
      ⟨hr, -⟩ | ⟨-, hunits, ⟨hr, -⟩ | ⟨hr, hlim, -⟩⟩
    · rw [hr]
      exact .same
    · rw [hr, leasesOf_insert, if_pos rfl]
      exact .purge rfl
    · rw [hr, leasesOf_insert, if_pos rfl]
      exact .grant ⟨units, now + ttl, some scope⟩ poolLimit rfl rfl hunits hlim
  | release lease =>
    change Change _ _ (leasesOf (release all lease) lease.pool)
    rw [leasesOf_release, if_pos rfl]
    exact .drop lease rfl
  | renew lease ttl =>
    change Change _ _ (leasesOf (renew now all lease ttl).2 lease.pool)
    rcases renew_spec now all lease ttl with ⟨hr, -⟩ | ⟨e, he, hr⟩
    · rw [hr]
      exact .same
    · rw [hr, leasesOf_insert, if_pos rfl]
      exact .extend lease.id e (now + ttl) he

/-- **No call touches another pool.** -/
theorem get?_apply_of_ne (all : LeaseState F) (c : Call F) {pool : String} (h : pool ≠ c.op.pool) :
    (apply all c).2.get? pool = all.get? pool := by
  obtain ⟨now, id, op⟩ := c
  cases op with
  | reserve pool' limit units ttl =>
    change (reserve now id all pool' limit units ttl).2.get? pool = _
    rcases reserve_spec now id all pool' limit units ttl with
      ⟨hr, -⟩ | ⟨-, -, ⟨hr, -⟩ | ⟨hr, -⟩⟩
    · rw [hr]
    · rw [hr]
      exact OrdMap.get?_insert_of_ne h
    · rw [hr]
      exact OrdMap.get?_insert_of_ne h
  | reserveScoped pool' scope poolLimit scopeLimit units ttl =>
    change (reserveScoped now id all pool' scope poolLimit scopeLimit units ttl).2.get? pool = _
    rcases reserveScoped_spec now id all pool' scope poolLimit scopeLimit units ttl with
      ⟨hr, -⟩ | ⟨-, -, ⟨hr, -⟩ | ⟨hr, -⟩⟩
    · rw [hr]
    · rw [hr]
      exact OrdMap.get?_insert_of_ne h
    · rw [hr]
      exact OrdMap.get?_insert_of_ne h
  | release lease =>
    change (release all lease).get? pool = _
    rw [get?_release]
    exact if_neg h
  | renew lease ttl =>
    change (renew now all lease ttl).2.get? pool = _
    rcases renew_spec now all lease ttl with ⟨hr, -⟩ | ⟨e, -, hr⟩
    · rw [hr]
    · rw [hr]
      exact OrdMap.get?_insert_of_ne h

/-- **An entry that no reservation purges and no release drops keeps its
units and its scope.** -/
theorem Change.kept {c : Call F} {old new : PoolLeases F} {id : Uuid} {e : Entry F}
    (hc : Change c old new) (h : old.get? id = some e)
    (hres : c.op.poolLimit?.isSome → c.now < e.expires ∧ id ≠ c.id)
    (hrel : ∀ lease, c.op = .release lease → id ≠ lease.id) :
    ∃ e', new.get? id = some e' ∧ e'.units = e.units ∧ e'.scope = e.scope := by
  have hretain : c.op.poolLimit?.isSome → (retain c.now old).get? id = some e := by
    intro hlim
    rw [retain, OrdMap.get?_filter, h]
    exact Option.filter_eq_some_iff.mpr ⟨rfl, decide_eq_true (hres hlim).1⟩
  cases hc with
  | same => exact ⟨e, h, rfl, rfl⟩
  | purge hlim => exact ⟨e, hretain hlim, rfl, rfl⟩
  | grant e' limit hlim _ _ _ =>
    have hsome : c.op.poolLimit?.isSome := hlim ▸ rfl
    exact ⟨e, (OrdMap.get?_insert_of_ne (hres hsome).2).trans (hretain hsome), rfl, rfl⟩
  | drop lease hop => exact ⟨e, (OrdMap.get?_erase_of_ne (hrel lease hop)).trans h, rfl, rfl⟩
  | extend id' e' expires he =>
    by_cases hid : id = id'
    · rw [← hid, h] at he
      cases he
      exact ⟨{ e with expires := expires }, hid ▸ OrdMap.get?_insert_self, rfl, rfl⟩
    · exact ⟨e, (OrdMap.get?_insert_of_ne hid).trans h, rfl, rfl⟩

/-- The same of an entry of any pool. -/
theorem entry_kept {all : LeaseState F} {c : Call F} {pool : String} {id : Uuid} {e : Entry F}
    (h : (leasesOf all pool).get? id = some e)
    (hres : c.op.poolLimit?.isSome → c.op.pool = pool → c.now < e.expires ∧ id ≠ c.id)
    (hrel : ∀ lease, c.op = .release lease → id ≠ lease.id) :
    ∃ e', (leasesOf (apply all c).2 pool).get? id = some e' ∧ e'.units = e.units ∧
      e'.scope = e.scope := by
  by_cases hp : pool = c.op.pool
  · subst hp
    exact (apply_change all c).kept h (fun hlim => hres hlim rfl) hrel
  · refine ⟨e, ?_, rfl, rfl⟩
    unfold leasesOf at h ⊢
    rw [get?_apply_of_ne _ _ hp]
    exact h

/-! ## Exact sums -/

/-- The units of the entries whose scope a predicate accepts. -/
def unitsIn (p : Option String → Bool) (leases : PoolLeases ℚ) : ℚ :=
  leases.sumOn fun _ e => if p e.scope then e.units else 0

/-- No stored entry has negative units. -/
def NonNeg (leases : PoolLeases ℚ) : Prop := ∀ e ∈ leases.entries, 0 ≤ e.2.units

section Exact

variable {leases : PoolLeases ℚ} {p : Option String → Bool}

theorem used_rat (leases : PoolLeases ℚ) : used leases = unitsIn (fun _ => true) leases := by
  simp [used, unitsIn, OrdMap.sumOn, OrdMap.values, Function.comp_def]

theorem scopeUsed_rat (scope : String) (leases : PoolLeases ℚ) :
    scopeUsed scope leases = unitsIn (fun s => s = some scope) leases := by
  unfold scopeUsed unitsIn OrdMap.sumOn OrdMap.values
  rw [Arith.sum_rat]
  induction leases.entries with
  | nil => rfl
  | cons e es ih =>
    by_cases he : e.2.scope = some scope
    · simp [he, ih]
    · simp [he, ih]

/-- **A reservation that fits is granted.** -/
theorem reserveScoped_grants {now : ℕ} {id : Uuid} {all : LeaseState ℚ} {pool scope : String}
    {poolLimit scopeLimit units : ℚ} {ttl : ℕ} (hscope : 0 ≤ scopeLimit) (hunits : 0 ≤ units)
    (hp : used (retain now (leasesOf all pool)) + units ≤ poolLimit)
    (hs : scopeUsed scope (retain now (leasesOf all pool)) + units ≤ scopeLimit)
    (hpos : 0 ≤ poolLimit) :
    reserveScoped now id all pool scope poolLimit scopeLimit units ttl =
      (.ok (some ⟨id, pool, units, now + ttl, some scope⟩), all.insert pool
        ((retain now (leasesOf all pool)).insert id ⟨units, now + ttl, some scope⟩)) := by
  have hvalid : validateLimits poolLimit scopeLimit units = .ok () := by
    simp [validateLimits, not_lt.mpr hscope, not_lt.mpr hunits, not_lt.mpr hpos]
  rcases reserveScoped_spec now id all pool scope poolLimit scopeLimit units ttl with
    ⟨-, hr⟩ | ⟨-, -, ⟨-, hr⟩ | ⟨hr, -⟩⟩
  · rw [hvalid] at hr
    cases hr
  · exact absurd hr (not_or.mpr ⟨not_lt.mpr hp, not_lt.mpr hs⟩)
  · exact hr

theorem NonNeg.weight (h : NonNeg leases) (p : Option String → Bool) :
    ∀ e ∈ leases.entries, 0 ≤ if p e.2.scope then e.2.units else 0 := by
  intro e he
  split
  · exact h e he
  · exact le_rfl

theorem NonNeg.filter (h : NonNeg leases) (q : Uuid → Entry ℚ → Bool) : NonNeg (leases.filter q) :=
  fun e he => h e (OrdMap.mem_filter.mp he).1

theorem NonNeg.insert (h : NonNeg leases) {id : Uuid} {e : Entry ℚ} (he : 0 ≤ e.units) :
    NonNeg (leases.insert id e) := by
  intro e' he'
  rcases OrdMap.mem_insert.mp he' with rfl | ⟨hmem, -⟩
  · exact he
  · exact h e' hmem

theorem unitsIn_nonneg (h : NonNeg leases) : 0 ≤ unitsIn p leases :=
  OrdMap.sumOn_nonneg (h.weight p)

/-- The units in scopes are part of all units. -/
theorem unitsIn_isSome_le (h : NonNeg leases) :
    unitsIn Option.isSome leases ≤ unitsIn (fun _ => true) leases := by
  refine List.sum_le_sum fun e he => ?_
  simp only [if_true]
  split
  · exact le_rfl
  · exact h e he

/-- Dropping entries lowers every sum. -/
theorem unitsIn_filter_le (h : NonNeg leases) (q : Uuid → Entry ℚ → Bool) :
    unitsIn p (leases.filter q) ≤ unitsIn p leases :=
  OrdMap.sumOn_filter_le (h.weight p) q

/-- Adding an entry raises a sum by at most its units: an entry already
stored under the id is replaced. -/
theorem unitsIn_insert_le (h : NonNeg leases) (id : Uuid) (e : Entry ℚ) :
    unitsIn p (leases.insert id e) ≤ unitsIn p leases + if p e.scope then e.units else 0 := by
  unfold unitsIn
  rw [OrdMap.sumOn_insert, add_comm]
  exact add_le_add (OrdMap.sumOn_filter_le (h.weight p) _) le_rfl

/-- Moving an expiry changes no sum. -/
theorem unitsIn_extend {id : Uuid} {e : Entry ℚ} (he : leases.get? id = some e) (expires : ℕ) :
    unitsIn p (leases.insert id { e with expires := expires }) = unitsIn p leases := by
  have h := OrdMap.sumOn_insert_add (v := { e with expires := expires }) he
    fun _ (e : Entry ℚ) => if p e.scope then e.units else 0
  simp only at h
  exact add_right_cancel h

/-- **Every way the entries of a pool change keeps units nonnegative.** -/
theorem Change.nonNeg {c : Call ℚ} {old new : PoolLeases ℚ} (hc : Change c old new)
    (h : NonNeg old) : NonNeg new := by
  cases hc with
  | same => exact h
  | purge _ => exact h.filter _
  | grant e limit hlim _ hunits hle => exact (h.filter _).insert (not_lt.mp hunits)
  | drop lease _ => exact h.filter _
  | extend id e expires he =>
    exact h.insert (h (id, e) (OrdMap.get?_eq_some.mp he))

/-- **A call that reserves nothing raises no sum.** -/
theorem Change.unitsIn_le {c : Call ℚ} {old new : PoolLeases ℚ} (hc : Change c old new)
    (hn : NonNeg old) (hop : c.op.poolLimit? = none) : unitsIn p new ≤ unitsIn p old := by
  cases hc with
  | same => exact le_rfl
  | purge _ => exact unitsIn_filter_le hn _
  | grant e limit hlim _ hunits hle =>
    rw [hop] at hlim
    cases hlim
  | drop lease _ => exact unitsIn_filter_le hn _
  | extend id e expires he => exact (unitsIn_extend he expires).le

/-- The entries of a pool sum to at most `limit`, unless there are none. -/
def Within (limit : ℚ) (leases : PoolLeases ℚ) : Prop :=
  leases.entries ≠ [] → unitsIn (fun _ => true) leases ≤ limit

/-- **Every way the entries of a pool change keeps a bound that its
reservations respect.** -/
theorem Change.within {c : Call ℚ} {old new : PoolLeases ℚ} {bound : ℚ} (hc : Change c old new)
    (hn : NonNeg old) (h : Within bound old)
    (hlim : ∀ limit, c.op.poolLimit? = some limit → limit ≤ bound) : Within bound new := by
  -- dropping entries leaves a bound standing, and an empty pool needs none
  have hfilter : ∀ q, Within bound (old.filter q) := by
    intro q hne
    refine (unitsIn_filter_le hn q).trans (h fun hnil => hne ?_)
    simp [OrdMap.filter, hnil]
  cases hc with
  | same => exact h
  | purge _ => exact hfilter _
  | grant e limit hop _ hunits hle =>
    intro _
    have hadd := unitsIn_insert_le (p := fun _ => true) (hn.filter fun _ e => c.now < e.expires)
      c.id e
    rw [used_rat, not_lt] at hle
    exact hadd.trans (hle.trans (hlim limit hop))
  | drop lease _ => exact hfilter _
  | extend id e expires he =>
    intro _
    rw [unitsIn_extend he]
    exact h (List.ne_nil_of_mem (OrdMap.get?_eq_some.mp he))

/-- **The units reserved in scopes stay within a bound** that the
reservations in scopes respect. -/
theorem Change.scoped_le {c : Call ℚ} {old new : PoolLeases ℚ} {bound : ℚ} (hc : Change c old new)
    (hn : NonNeg old) (h : unitsIn Option.isSome old ≤ bound)
    (hlim : ∀ limit, c.op.poolLimit? = some limit → c.op.scope?.isSome → limit ≤ bound) :
    unitsIn Option.isSome new ≤ bound := by
  have hfilter : ∀ q, unitsIn Option.isSome (old.filter q) ≤ bound :=
    fun q => (unitsIn_filter_le hn q).trans h
  cases hc with
  | same => exact h
  | purge _ => exact hfilter _
  | grant e limit hop hscope hunits hle =>
    have hadd := unitsIn_insert_le (p := Option.isSome) (hn.filter fun _ e => c.now < e.expires)
      c.id e
    rw [used_rat, not_lt] at hle
    refine hadd.trans ?_
    split
    · -- the entries without a scope count towards `used` only
      rename_i hsome
      have hless := unitsIn_isSome_le (hn.filter fun _ e => c.now < e.expires)
      rw [hscope] at hsome
      exact (add_le_add hless le_rfl).trans (hle.trans (hlim limit hop hsome))
    · rw [add_zero]
      exact hfilter _
  | drop lease _ => exact hfilter _
  | extend id e expires he => exact (unitsIn_extend he expires).trans_le h

theorem exec_nonNeg (calls : List (Call ℚ)) (pool : String) : NonNeg (leasesOf (exec calls) pool) := by
  induction calls using List.reverseRecOn with
  | nil => exact fun e he => by cases he
  | append_singleton calls c ih =>
    rw [exec_snoc]
    by_cases hp : pool = c.op.pool
    · rw [hp] at ih ⊢
      exact (apply_change (exec calls) c).nonNeg ih
    · unfold leasesOf at ih ⊢
      rw [get?_apply_of_ne _ _ hp]
      exact ih

/-- **A bound that every reservation on a pool respects holds of its
entries**, the expired ones included. -/
theorem exec_within (calls : List (Call ℚ)) (pool : String) (bound : ℚ)
    (hlim : ∀ c ∈ calls, c.op.pool = pool → ∀ limit, c.op.poolLimit? = some limit →
      limit ≤ bound) : Within bound (leasesOf (exec calls) pool) := by
  induction calls using List.reverseRecOn with
  | nil => exact fun hne => absurd rfl hne
  | append_singleton calls c ih =>
    rw [exec_snoc]
    have ih' := ih fun c' hc' => hlim c' (List.mem_append_left _ hc')
    by_cases hp : pool = c.op.pool
    · subst hp
      exact (apply_change (exec calls) c).within (exec_nonNeg calls _) ih'
        (hlim c (by simp) rfl)
    · unfold leasesOf at ih' ⊢
      rw [get?_apply_of_ne _ _ hp]
      exact ih'

/-- **A granted share holds right after its grant.** -/
theorem scope_within {now : ℕ} {id : Uuid} {all : LeaseState ℚ} {pool scope : String}
    {poolLimit scopeLimit units : ℚ} {ttl : ℕ} {lease : Lease ℚ}
    (hn : NonNeg (leasesOf all pool))
    (hr : (reserveScoped now id all pool scope poolLimit scopeLimit units ttl).1 =
      .ok (some lease)) :
    unitsIn (fun s => s = some scope)
      (leasesOf (reserveScoped now id all pool scope poolLimit scopeLimit units ttl).2 pool) ≤
        scopeLimit := by
  rcases reserveScoped_spec now id all pool scope poolLimit scopeLimit units ttl with
    ⟨h, -⟩ | ⟨-, -, ⟨h, -⟩ | ⟨h, -, hscope⟩⟩
  · rw [h] at hr
    cases hr
  · rw [h] at hr
    cases hr
  · rw [h, leasesOf_insert, if_pos rfl]
    have hadd := unitsIn_insert_le (p := fun s => s = some scope)
      (hn.filter fun _ e => now < e.expires) id ⟨units, now + ttl, some scope⟩
    rw [scopeUsed_rat, not_lt] at hscope
    simp only [decide_true, if_true] at hadd
    exact hadd.trans hscope

/-- **The lease ledger invariant**, after every sequence of calls, at any
times and with any ids. Negative units are refused by the code itself. For
a bound `limit` that every reservation on a pool respects, all entries
stored for the pool sum to at most `limit` (an empty pool is within any
nonnegative bound); a granted `reserve_scoped` leaves its scope within the
share it passed; a call leaves every other pool as it was. -/
theorem lease_ledger_invariant (calls : List (Call ℚ)) :
    (∀ pool limit,
      (∀ c ∈ calls, c.op.pool = pool → ∀ l, c.op.poolLimit? = some l → l ≤ limit) →
      0 ≤ limit ∨ (leasesOf (exec calls) pool).entries ≠ [] →
      used (leasesOf (exec calls) pool) ≤ limit) ∧
    (∀ now id pool scope poolLimit scopeLimit units ttl lease,
      (apply (exec calls) ⟨now, id,
        .reserveScoped pool scope poolLimit scopeLimit units ttl⟩).1 =
          .reserved (.ok (some lease)) →
      scopeUsed scope (leasesOf (apply (exec calls) ⟨now, id,
        .reserveScoped pool scope poolLimit scopeLimit units ttl⟩).2 pool) ≤ scopeLimit) ∧
    (∀ c pool, pool ≠ c.op.pool → (apply (exec calls) c).2.get? pool = (exec calls).get? pool) := by
  refine ⟨fun pool limit hlim hor => ?_, fun now id pool scope pl sl units ttl lease hr => ?_,
    fun c pool hp => get?_apply_of_ne _ c hp⟩
  · rw [used_rat]
    have hw := exec_within calls pool limit hlim
    by_cases hnil : (leasesOf (exec calls) pool).entries = []
    · have h0 : 0 ≤ limit := hor.resolve_right fun hne => hne hnil
      simpa [unitsIn, OrdMap.sumOn, hnil] using h0
    · exact hw hnil
  · rw [scopeUsed_rat]
    exact scope_within (exec_nonNeg calls pool) (Output.reserved.inj hr)

/-- Renewing an entry two seconds after its expiry keeps its five units
counted, and the pool of ten refuses six more. -/
example :
    let calls : List (Call ℚ) := [⟨0, 1, .reserveScoped "pool" "tenant" 10 10 5 1⟩,
      ⟨3, 0, .renew ⟨1, "pool", 5, 1, some "tenant"⟩ 4⟩,
      ⟨4, 2, .reserveScoped "pool" "other" 10 10 6 1⟩]
    used (leasesOf (exec calls) "pool") = 5 := by
  decide +kernel

end Exact

end InMemoryCoordinator

end InferQos
