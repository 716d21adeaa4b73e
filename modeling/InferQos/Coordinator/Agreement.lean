import InferQos.Common.Trace
import InferQos.Coordinator.Ledger
import InferQos.Coordinator.Rendering
import InferQos.Coordinator.Scripts
import Mathlib.Tactic.Linarith
/-!
# The two coordinators agree

The in-memory ledger and the hashes of the Valkey coordinator, driven by the
same calls. Both purge lazily, at the same calls, so a hash is the ledger of
its pool in another form, or it is gone and everything in the ledger has
expired (`Mirrors`). That needs a TTL of whole milliseconds: the server
counts no shorter ones, and drops what is left of a millisecond.
-/

namespace InferQos

namespace Coordinator

open InMemoryCoordinator (Op)

/-! ## Calls on any coordinator -/

/-- What a call answers. -/
inductive Answer
  | reserved (r : Except CoordinatorError (Option (Lease ℚ)))
  | released (r : Except CoordinatorError Unit)
  | renewed (r : Except CoordinatorError Bool)
  deriving DecidableEq

/-- A call of the trait. -/
def perform {σ : Type} (C : Coordinator ℚ σ) (a : Ambient) (s : σ) : Op ℚ → Answer × σ
  | .reserve pool limit units ttl =>
    let r := C.reserve a s pool limit units ttl
    (.reserved r.1, r.2)
  | .reserveScoped pool scope poolLimit scopeLimit units ttl =>
    let r := C.reserveScoped a s pool scope poolLimit scopeLimit units ttl
    (.reserved r.1, r.2)
  | .release lease =>
    let r := C.release a s lease
    (.released r.1, r.2)
  | .renew lease ttl =>
    let r := C.renew a s lease ttl
    (.renewed r.1, r.2)

end Coordinator

namespace ValkeyCoordinator

open Redis Coordinator InMemoryCoordinator

/-! ## Both side by side -/

/-- Both coordinators, at the time of the last call. -/
structure Both where
  clock : ℕ
  memory : LeaseState ℚ
  valkey : Store

namespace Both

variable (R : Rendering ℚ) (space : String)

/-- Nothing is stored. -/
def new : Both := ⟨0, ∅, ∅⟩

/-- What the in-memory coordinator answers. -/
def inMemory (s : Both) (c : Ambient × Op ℚ) : Answer × LeaseState ℚ :=
  InMemoryCoordinator.coordinator.perform c.1 s.memory c.2

/-- What the Valkey coordinator answers. -/
def inValkey (s : Both) (c : Ambient × Op ℚ) : Answer × Store :=
  (ValkeyCoordinator.coordinator R space).perform c.1 s.valkey c.2

/-- The same call on both. -/
def Step (s : Both) (c : Ambient × Op ℚ) (s' : Both) : Prop :=
  s' = ⟨c.1.now, (s.inMemory c).2, (s.inValkey R space c).2⟩

/-- **The calls compared**: a common clock of whole milliseconds that does
not run backwards, with expiries that fit a `u64`; one TTL, limits and units
that are not negative, scopes that are not empty, and renewals of leases
that have not expired. -/
def Admissible (ttl : ℕ) (s : Both) (c : Ambient × Op ℚ) : Prop :=
  s.clock ≤ c.1.now ∧ 10 ^ 6 ∣ c.1.now ∧ millis (c.1.now + ttl) ≤ u64Max ∧
    match c.2 with
    | .reserve _ limit units ttl' => ttl' = ttl ∧ 0 ≤ limit ∧ 0 ≤ units
    | .reserveScoped _ scope poolLimit scopeLimit units ttl' =>
      ttl' = ttl ∧ scope ≠ "" ∧ 0 ≤ poolLimit ∧ 0 ≤ scopeLimit ∧ 0 ≤ units
    | .release _ => True
    | .renew lease ttl' =>
      ttl' = ttl ∧ ∀ e ∈ (leasesOf s.memory lease.pool).get? lease.id, c.1.now < e.expires

end Both

/-- A lease as it is stored and has not expired: its units, its expiry and
its scope. -/
def unexpiredInMemory (memory : LeaseState ℚ) (now : ℕ) (pool : String) (id : Uuid) :
    Option (ℚ × ℕ × Option String) :=
  (((leasesOf memory pool).get? id).filter fun e => now < e.expires).map fun e =>
    (e.units, e.expires, e.scope)

@[inherit_doc unexpiredInMemory]
def unexpiredInValkey (R : Rendering ℚ) (space : String) (store : Store) (now : ℕ) (pool : String)
    (id : Uuid) : Option (ℚ × ℕ × Option String) :=
  (((hget (millis now) store (keyOf space pool) (R.id id)).bind R.read).filter fun e =>
    millis now < e.expires).map fun e =>
      (e.amount, e.expires * 10 ^ 6, if e.scope.isEmpty then none else some e.scope)

/-! ## One form and the other -/

/-- An entry of the ledger as a field holds it. -/
def stored (e : Entry ℚ) : Stored ℚ := ⟨e.units, millis e.expires, e.scope.getD ""⟩

/-- What the entries of a ledger have in common: whole milliseconds, a scope
that is not empty, units that are not negative, and an expiry within one TTL. -/
structure Tidy (ttl clock : ℕ) (leases : PoolLeases ℚ) : Prop where
  whole : ∀ {id e}, leases.get? id = some e → 10 ^ 6 ∣ e.expires
  scope_ne : ∀ {id e}, leases.get? id = some e → e.scope ≠ some ""
  nonneg : ∀ {id e}, leases.get? id = some e → 0 ≤ e.units
  expires_le : ∀ {id e}, leases.get? id = some e → e.expires ≤ clock + ttl

/-- **A hash mirrors a ledger** at time `t`: it is its other form, or it is
gone and the ledger has expired. -/
def MirrorsAt (R : Rendering ℚ) (key : String) (store : Store) (leases : PoolLeases ℚ) (t : ℕ) :
    Prop :=
  Holds R t store key (leases.mapVal stored) ∨
    Holds R.toFormat t store key ∅ ∧ ∀ id e, leases.get? id = some e → millis e.expires ≤ t

section

variable {R : Rendering ℚ} {key : String} {store : Store} {leases : PoolLeases ℚ}
variable {ttl clock now t : ℕ}

theorem get?_retain {id : Uuid} {e : Entry ℚ} :
    (retain now leases).get? id = some e ↔ leases.get? id = some e ∧ now < e.expires := by
  unfold retain
  rw [OrdMap.get?_filter, Option.filter_eq_some_iff]
  simp

/-- In whole milliseconds it does not matter who counts. -/
theorem millis_lt_iff {a b : ℕ} (ha : 10 ^ 6 ∣ a) (hb : 10 ^ 6 ∣ b) : millis a < millis b ↔ a < b := by
  obtain ⟨a, rfl⟩ := ha
  obtain ⟨b, rfl⟩ := hb
  unfold millis
  omega

/-- **Both purge the same entries.** -/
theorem purge_stored (h : Tidy ttl clock leases) (hnow : 10 ^ 6 ∣ now) :
    purge (millis now) (leases.mapVal stored) = (retain now leases).mapVal stored := by
  refine OrdMap.ext_get? fun id => ?_
  unfold purge retain
  rw [OrdMap.get?_filter, OrdMap.get?_mapVal, OrdMap.get?_mapVal, OrdMap.get?_filter]
  cases he : leases.get? id with
  | none => rfl
  | some e =>
    have hiff := millis_lt_iff hnow (h.whole he)
    simp only [Option.map_some, Option.filter_some, stored, hiff]
    split <;> rfl

/-- What has all expired is purged to nothing. -/
theorem retain_of_expired (h : Tidy ttl clock leases) (hnow : 10 ^ 6 ∣ now)
    (hexpired : ∀ id e, leases.get? id = some e → millis e.expires ≤ millis now) :
    retain now leases = ∅ := by
  refine OrdMap.ext_get? fun id => ?_
  rw [OrdMap.get?_empty, Option.eq_none_iff_forall_not_mem]
  intro e he
  obtain ⟨he, hlt⟩ := get?_retain.mp he
  have hms := (millis_lt_iff hnow (h.whole he)).mpr hlt
  have hle := hexpired id e he
  omega

/-- **What a reservation finds** is the same on both sides. -/
theorem MirrorsAt.purge (hm : MirrorsAt R key store leases (millis now)) (h : Tidy ttl clock leases)
    (hnow : 10 ^ 6 ∣ now) : ∃ table, Holds R (millis now) store key table ∧
      ValkeyCoordinator.purge (millis now) table = (retain now leases).mapVal stored := by
  rcases hm with hholds | ⟨hholds, hexpired⟩
  · exact ⟨_, hholds, purge_stored h hnow⟩
  · refine ⟨∅, hholds, ?_⟩
    rw [retain_of_expired h hnow hexpired]
    rfl

/-- The units in use are the same. -/
theorem total_stored (leases : PoolLeases ℚ) : total (leases.mapVal stored) = used leases := by
  unfold total used
  rw [OrdMap.sumOn_mapVal, Arith.sum_rat, OrdMap.values, List.map_map]
  rfl

/-- And so are those of a scope. -/
theorem totalOf_stored {scope : String} (hscope : scope ≠ "") (leases : PoolLeases ℚ) :
    totalOf scope (leases.mapVal stored) = scopeUsed scope leases := by
  have hform : ∀ e : Entry ℚ, (stored e).scope = scope ↔ e.scope = some scope := by
    intro e
    unfold stored
    cases e.scope with
    | none => simp [hscope.symm]
    | some s => simp
  have hsum : totalOf scope (leases.mapVal stored) =
      (leases.filter fun _ e => e.scope = some scope).sumOn fun _ e => e.units := by
    unfold totalOf
    rw [OrdMap.sumOn_mapVal, OrdMap.sumOn_filter]
    simp only [hform, decide_eq_true_eq]
    rfl
  rw [hsum]
  unfold scopeUsed OrdMap.sumOn OrdMap.values
  rw [Arith.sum_rat, List.filter_map, List.map_map]
  rfl

/-- Outside any scope, the check of the scope is no check. -/
theorem totalOf_le {table : OrdMap Uuid (Stored ℚ)}
    (h : ∀ {id e}, table.get? id = some e → 0 ≤ e.amount) (scope : String) :
    totalOf scope table ≤ total table := by
  rw [totalOf_eq]
  exact total_filter_le h _

/-! ## One pool -/

/-- **A hash mirrors a ledger** from `clock` on. -/
structure Mirrors (R : Rendering ℚ) (key : String) (ttl clock : ℕ) (store : Store)
    (leases : PoolLeases ℚ) : Prop where
  tidy : Tidy ttl clock leases
  mirrors : ∀ t, millis clock ≤ t → MirrorsAt R key store leases t

theorem Mirrors.mono (h : Mirrors R key ttl clock store leases) (hle : clock ≤ now) :
    Mirrors R key ttl now store leases where
  tidy := { h.tidy with
    expires_le := fun he => by
      have := h.tidy.expires_le he
      omega }
  mirrors := by
    intro t ht
    have hms : millis clock ≤ millis now := Nat.div_le_div_right hle
    exact h.mirrors t (by omega)

/-- Fewer entries are as tidy. -/
theorem Tidy.of_get? {leases' : PoolLeases ℚ} (h : Tidy ttl clock leases)
    (hsub : ∀ {id e}, leases'.get? id = some e → leases.get? id = some e) :
    Tidy ttl clock leases' where
  whole := fun he => h.whole (hsub he)
  scope_ne := fun he => h.scope_ne (hsub he)
  nonneg := fun he => h.nonneg (hsub he)
  expires_le := fun he => h.expires_le (hsub he)

/-- One entry more. -/
theorem Tidy.insert (h : Tidy ttl now leases) (hnow : 10 ^ 6 ∣ now) (httl : 10 ^ 6 ∣ ttl) (id : Uuid)
    {e : Entry ℚ} (hexpires : e.expires = now + ttl) (hscope : e.scope ≠ some "")
    (hunits : 0 ≤ e.units) : Tidy ttl now (leases.insert id e) := by
  constructor
  · intro id' e' he'
    rcases OrdMap.get?_insert_eq_some.mp he' with ⟨-, rfl⟩ | ⟨-, he'⟩
    · rw [hexpires]
      exact Nat.dvd_add hnow httl
    · exact h.whole he'
  · intro id' e' he'
    rcases OrdMap.get?_insert_eq_some.mp he' with ⟨-, rfl⟩ | ⟨-, he'⟩
    · exact hscope
    · exact h.scope_ne he'
  · intro id' e' he'
    rcases OrdMap.get?_insert_eq_some.mp he' with ⟨-, rfl⟩ | ⟨-, he'⟩
    · exact hunits
    · exact h.nonneg he'
  · intro id' e' he'
    rcases OrdMap.get?_insert_eq_some.mp he' with ⟨-, rfl⟩ | ⟨-, he'⟩
    · exact hexpires.le
    · exact h.expires_le he'

/-- **A write mirrors the ledger it is the other form of**, with a time to
live of at least the TTL. -/
theorem Mirrors.written {table : OrdMap Uuid (Stored ℚ)} {ms : ℕ} {store' : Store}
    (htidy : Tidy ttl now leases) (hwritten : Written R (millis now) key table ms store')
    (htable : table = leases.mapVal stored) (hms : millis (now + ttl) ≤ millis now + ms) :
    Mirrors R key ttl now store' leases where
  tidy := htidy
  mirrors := by
    intro t ht
    have hholds := hwritten ht
    by_cases hlt : t < millis now + ms
    · rw [if_pos hlt, htable] at hholds
      exact Or.inl hholds
    · rw [if_neg hlt] at hholds
      refine Or.inr ⟨hholds, fun id e he => ?_⟩
      have hle : millis e.expires ≤ millis (now + ttl) := Nat.div_le_div_right (htidy.expires_le he)
      omega

/-- **A purge mirrors a purge.** -/
theorem Mirrors.purged {store' : Store} (h : Mirrors R key ttl now store leases)
    (hnow : 10 ^ 6 ∣ now)
    (hpurged : ∀ {t : ℕ} {table : OrdMap Uuid (Stored ℚ)}, millis now ≤ t →
      Holds R t store key table → Holds R t store' key (purge (millis now) table)) :
    Mirrors R key ttl now store' (retain now leases) where
  tidy := h.tidy.of_get? fun he => (get?_retain.mp he).1
  mirrors := by
    intro t ht
    rcases h.mirrors t ht with hholds | ⟨hholds, hexpired⟩
    · left
      rw [← purge_stored h.tidy hnow]
      exact hpurged ht hholds
    · exact Or.inr ⟨hpurged ht hholds, fun id e he => hexpired id e (get?_retain.mp he).1⟩

/-- **A release mirrors a release.** -/
theorem Mirrors.erased (h : Mirrors R key ttl now store leases) (id : Uuid) :
    Mirrors R key ttl now (hdel (millis now) store key (R.id id)) (leases.erase id) := by
  have hsub : ∀ {id' e}, (leases.erase id).get? id' = some e → leases.get? id' = some e :=
    fun he => (OrdMap.get?_erase_eq_some.mp he).2
  refine ⟨h.tidy.of_get? hsub, fun t ht => ?_⟩
  rcases h.mirrors t ht with hholds | ⟨hholds, hexpired⟩
  · left
    rw [OrdMap.mapVal_erase]
    exact holds_hdel hholds ht id
  · exact Or.inr ⟨holds_hdel hholds ht id, fun id' e he => hexpired id' e (hsub he)⟩

/-! ## Clocks -/

/-- What the Valkey coordinator computes from a reading, for readings and
TTLs of whole milliseconds. -/
theorem expiry_eq (hnow : 10 ^ 6 ∣ now) (httl : 10 ^ 6 ∣ ttl) (hfits : millis (now + ttl) ≤ u64Max) :
    nowMs now = millis now ∧ ttlMs ttl = millis ttl ∧
      saturatingAdd (millis now) (millis ttl) = millis (now + ttl) ∧
      millis (now + ttl) = millis now + millis ttl := by
  obtain ⟨a, rfl⟩ := hnow
  obtain ⟨b, rfl⟩ := httl
  unfold nowMs ttlMs saturatingAdd millis u64Max at *
  omega

/-- The time to live of a renewed hash is at least the TTL. -/
theorem le_saturatingAdd {a b : ℕ} (h : a + b ≤ u64Max) (extra : ℕ) :
    b ≤ saturatingAdd b extra := by
  unfold saturatingAdd
  omega

/-! ## Calls on one pool -/

variable {space pool : String} {memory : LeaseState ℚ}

/-- Readings of a call that takes no time. -/
abbrev atOnce (now : ℕ) : Readings := ⟨now, now, now⟩

/-- The scope of a lease in an empty scope is none. -/
abbrev scopeOf (scope : String) : Option String := if scope.isEmpty then none else some scope

theorem scopeOf_ne (scope : String) : scopeOf scope ≠ some "" := by
  unfold scopeOf
  split
  · exact Option.some_ne_none "" ∘ Eq.symm
  · rename_i hne
    rintro heq
    rw [Option.some.inj heq] at hne
    exact hne rfl

theorem scopeOf_getD (scope : String) : (scopeOf scope).getD "" = scope := by
  unfold scopeOf
  split
  · rename_i hempty
    exact (String.isEmpty_iff.mp hempty).symm
  · rfl

/-- **A reservation in the hash**, said of the ledger the hash mirrors. -/
theorem mirrors_reserveScoped (id : Uuid) (h : Mirrors R (keyOf space pool) ttl now store leases)
    (hnow : 10 ^ 6 ∣ now) (httl : 10 ^ 6 ∣ ttl) (hfits : millis (now + ttl) ≤ u64Max)
    (scope : String) {limit scopeLimit units : ℚ} (hlimit : 0 ≤ limit) (hscopeLimit : 0 ≤ scopeLimit)
    (hunits : 0 ≤ units) :
    ∃ store', ((limit < used (retain now leases) + units ∨
          scopeLimit < totalOf scope ((retain now leases).mapVal stored) + units) ∧
        ValkeyCoordinator.reserveScoped R space (atOnce now) id store pool scope limit scopeLimit
          units ttl = (.ok none, store') ∧
        Mirrors R (keyOf space pool) ttl now store' (retain now leases)) ∨
      (¬ (limit < used (retain now leases) + units ∨
          scopeLimit < totalOf scope ((retain now leases).mapVal stored) + units) ∧
        ValkeyCoordinator.reserveScoped R space (atOnce now) id store pool scope limit scopeLimit
          units ttl = (.ok (some ⟨id, pool, units, now + ttl, scopeOf scope⟩), store') ∧
        Mirrors R (keyOf space pool) ttl now store'
          ((retain now leases).insert id ⟨units, now + ttl, scopeOf scope⟩)) := by
  obtain ⟨hnowMs, httlMs, hexpiry, hsplit⟩ := expiry_eq hnow httl hfits
  obtain ⟨table, hholds, hpurge⟩ := (h.mirrors _ le_rfl).purge h.tidy hnow
  have hspec := reserveScoped_exact (c := atOnce now) hholds id scope limit scopeLimit units ttl
  simp only [hnowMs, httlMs, hexpiry, Full, hpurge, total_stored] at hspec
  rcases hspec with ⟨-, hbad⟩ | ⟨-, -, -, store', hrefused | hgranted⟩
  · rcases hbad with hbad | hbad | hbad <;> linarith
  · obtain ⟨hfull, hr, hpurged⟩ := hrefused
    exact ⟨store', Or.inl ⟨hfull, hr, h.purged hnow hpurged⟩⟩
  · obtain ⟨hroom, hr, hwritten⟩ := hgranted
    have htidy : Tidy ttl now ((retain now leases).insert id ⟨units, now + ttl, scopeOf scope⟩) :=
      (h.tidy.of_get? fun he => (get?_retain.mp he).1).insert hnow httl id rfl (scopeOf_ne scope)
        hunits
    have htable : ((retain now leases).mapVal stored).insert id
        ⟨units, millis (now + ttl), scope⟩ =
          ((retain now leases).insert id ⟨units, now + ttl, scopeOf scope⟩).mapVal stored := by
      rw [OrdMap.mapVal_insert, stored, scopeOf_getD]
    refine ⟨store', Or.inr ⟨hroom, hr, Mirrors.written htidy hwritten htable ?_⟩⟩
    omega

/-- A pool gets these leases on one side, and the hash that mirrors them on
the other. -/
theorem Mirrors.insert {leases' : PoolLeases ℚ}
    (h : Mirrors R (keyOf space pool) ttl now store leases') :
    Mirrors R (keyOf space pool) ttl now store (leasesOf (memory.insert pool leases') pool) := by
  rw [leasesOf_insert, if_pos rfl]
  exact h

/-- **Both answer a reservation in a scope alike.** -/
theorem agree_reserveScoped (id : Uuid)
    (h : Mirrors R (keyOf space pool) ttl now store (leasesOf memory pool)) (hnow : 10 ^ 6 ∣ now)
    (httl : 10 ^ 6 ∣ ttl) (hfits : millis (now + ttl) ≤ u64Max) {scope : String}
    (hscope : scope ≠ "") {poolLimit scopeLimit units : ℚ} (hlimit : 0 ≤ poolLimit)
    (hscopeLimit : 0 ≤ scopeLimit) (hunits : 0 ≤ units) :
    let m := InMemoryCoordinator.reserveScoped now id memory pool scope poolLimit scopeLimit units ttl
    let v := ValkeyCoordinator.reserveScoped R space (atOnce now) id store pool scope poolLimit
      scopeLimit units ttl
    m.1 = v.1 ∧ Mirrors R (keyOf space pool) ttl now v.2 (leasesOf m.2 pool) := by
  intro m v
  have hsome : scopeOf scope = some scope := if_neg (mt String.isEmpty_iff.mp hscope)
  obtain ⟨store', hvalkey⟩ := mirrors_reserveScoped id h hnow httl hfits scope hlimit
    hscopeLimit hunits
  rw [totalOf_stored hscope, hsome] at hvalkey
  rcases InMemoryCoordinator.reserveScoped_spec now id memory pool scope poolLimit scopeLimit units
      ttl with ⟨-, hbad⟩ | ⟨-, -, ⟨hm, hfull⟩ | ⟨hm, hroom⟩⟩
  · rw [validateLimits_rat, if_neg] at hbad
    · cases hbad
    · simp only [not_or, not_lt]
      exact ⟨hlimit, hscopeLimit, hunits⟩
  · rcases hvalkey with ⟨-, hv, hmirrors⟩ | ⟨hroom, -, -⟩
    · rw [show m = _ from hm, show v = _ from hv]
      exact ⟨rfl, hmirrors.insert⟩
    · exact absurd hfull hroom
  · rcases hvalkey with ⟨hfull, -, -⟩ | ⟨-, hv, hmirrors⟩
    · exact absurd hfull (not_or.mpr hroom)
    · rw [show m = _ from hm, show v = _ from hv]
      exact ⟨rfl, hmirrors.insert⟩

/-- **Both answer a reservation outside any scope alike.** The check the
Valkey coordinator makes of the empty scope follows from that of the pool. -/
theorem agree_reserve (id : Uuid)
    (h : Mirrors R (keyOf space pool) ttl now store (leasesOf memory pool)) (hnow : 10 ^ 6 ∣ now)
    (httl : 10 ^ 6 ∣ ttl) (hfits : millis (now + ttl) ≤ u64Max) {limit units : ℚ}
    (hlimit : 0 ≤ limit) (hunits : 0 ≤ units) :
    let m := InMemoryCoordinator.reserve now id memory pool limit units ttl
    let v := ValkeyCoordinator.reserve R space (atOnce now) id store pool limit units ttl
    m.1 = v.1 ∧ Mirrors R (keyOf space pool) ttl now v.2 (leasesOf m.2 pool) := by
  intro m v
  have hvalid : v =
      ValkeyCoordinator.reserveScoped R space (atOnce now) id store pool "" limit limit units ttl := by
    refine if_neg ?_
    simpa [Arith.isFinite] using hunits
  have hscope : totalOf "" ((retain now (leasesOf memory pool)).mapVal stored) ≤
      used (retain now (leasesOf memory pool)) := by
    rw [← total_stored]
    refine totalOf_le (fun he => ?_) ""
    rw [OrdMap.get?_mapVal, Option.map_eq_some_iff] at he
    obtain ⟨e, he, rfl⟩ := he
    exact h.tidy.nonneg (get?_retain.mp he).1
  obtain ⟨store', hvalkey⟩ := mirrors_reserveScoped id h hnow httl hfits "" hlimit hlimit hunits
  rw [← hvalid] at hvalkey
  rcases InMemoryCoordinator.reserve_spec now id memory pool limit units ttl with
    ⟨-, hbad⟩ | ⟨-, -, ⟨hm, hfull⟩ | ⟨hm, hroom⟩⟩
  · rcases hbad with hbad | hbad
    · cases hbad
    · exact absurd hbad (not_lt.mpr hunits)
  · rcases hvalkey with ⟨-, hv, hmirrors⟩ | ⟨hroom, -, -⟩
    · rw [show m = _ from hm, hv]
      exact ⟨rfl, hmirrors.insert⟩
    · exact absurd (Or.inl hfull) hroom
  · rcases hvalkey with ⟨hfull, -, -⟩ | ⟨-, hv, hmirrors⟩
    · rcases hfull with hfull | hfull
      · exact absurd hfull hroom
      · exact absurd (lt_of_lt_of_le hfull (by linarith)) hroom
    · rw [show m = _ from hm, hv]
      exact ⟨rfl, hmirrors.insert⟩

/-- **Both answer a renewal alike**, of a lease that has not expired. -/
theorem agree_renew {lease : Lease ℚ}
    (h : Mirrors R (keyOf space lease.pool) ttl now store (leasesOf memory lease.pool))
    (hnow : 10 ^ 6 ∣ now) (httl : 10 ^ 6 ∣ ttl) (hfits : millis (now + ttl) ≤ u64Max)
    (hlive : ∀ e ∈ (leasesOf memory lease.pool).get? lease.id, now < e.expires) :
    let m := InMemoryCoordinator.renew now memory lease ttl
    let v := ValkeyCoordinator.renew R space (atOnce now) store lease ttl
    .ok m.1 = v.1 ∧ Mirrors R (keyOf space lease.pool) ttl now v.2 (leasesOf m.2 lease.pool) := by
  intro m v
  obtain ⟨hnowMs, httlMs, hexpiry, hsplit⟩ := expiry_eq hnow httl hfits
  -- a hash that is gone held nothing that a renewal is asked for
  have htable : ∃ table, Holds R (millis now) store (keyOf space lease.pool) table ∧
      table.get? lease.id = ((leasesOf memory lease.pool).get? lease.id).map stored ∧
      (table = (leasesOf memory lease.pool).mapVal stored ∨
        (leasesOf memory lease.pool).get? lease.id = none) := by
    rcases h.mirrors _ le_rfl with hholds | ⟨hholds, hexpired⟩
    · exact ⟨_, hholds, OrdMap.get?_mapVal, Or.inl rfl⟩
    · have hnone : (leasesOf memory lease.pool).get? lease.id = none := by
        refine Option.eq_none_iff_forall_not_mem.mpr fun e he => ?_
        have hlt := (millis_lt_iff hnow (h.tidy.whole he)).mpr (hlive e he)
        have hle := hexpired lease.id e he
        omega
      exact ⟨∅, hholds, by rw [hnone]; rfl, Or.inr hnone⟩
  obtain ⟨table, hholds, hget, htable⟩ := htable
  have hvalkey := ValkeyCoordinator.renew_spec (c := atOnce now) hholds ttl (R.argument_eq _)
  simp only [hnowMs, httlMs, hexpiry] at hvalkey
  rcases InMemoryCoordinator.renew_spec now memory lease ttl with ⟨hm, hnone⟩ | ⟨e, he, hm⟩
  · rw [hnone, Option.map_none] at hget
    rcases hvalkey with ⟨-, hv⟩ | ⟨x, -, hx, -⟩
    · rw [show m = _ from hm, show v = _ from hv]
      exact ⟨rfl, h⟩
    · rw [hget] at hx
      cases hx
  · rw [he, Option.map_some] at hget
    rcases hvalkey with ⟨hnone, -⟩ | ⟨x, store', hx, hv, hwritten⟩
    · rw [hget] at hnone
      cases hnone
    · rw [hget] at hx
      cases hx
      have hform : table = (leasesOf memory lease.pool).mapVal stored :=
        htable.resolve_right fun hnone => by
          rw [he] at hnone
          cases hnone
      have hscope : e.scope ≠ some "" := h.tidy.scope_ne he
      have hunits : 0 ≤ e.units := h.tidy.nonneg he
      have htidy : Tidy ttl now ((leasesOf memory lease.pool).insert lease.id
          { e with expires := now + ttl }) :=
        h.tidy.insert hnow httl lease.id rfl hscope hunits
      rw [show m = _ from hm, show v = _ from hv]
      refine ⟨rfl, Mirrors.insert (Mirrors.written htidy hwritten ?_ ?_)⟩
      · rw [OrdMap.mapVal_insert, hform]
        rfl
      · rw [hsplit]
        exact Nat.add_le_add_left (le_saturatingAdd (hsplit ▸ hfits) 1000) _

theorem Mirrors.congr {store' : Store} (h : Mirrors R key ttl now store leases)
    (heq : ∀ {t}, hgetall t store' key = hgetall t store key) :
    Mirrors R key ttl now store' leases where
  tidy := h.tidy
  mirrors := by
    intro t ht
    have hm := h.mirrors t ht
    unfold MirrorsAt Holds at hm ⊢
    rw [heq]
    exact hm

/-- **What is stored and has not expired is the same on both sides.** -/
theorem MirrorsAt.unexpired {pool : String}
    (hm : MirrorsAt R (keyOf space pool) store (leasesOf memory pool) (millis now))
    (h : Tidy ttl clock (leasesOf memory pool)) (hnow : 10 ^ 6 ∣ now) (id : Uuid) :
    unexpiredInMemory memory now pool id = unexpiredInValkey R space store now pool id := by
  unfold unexpiredInMemory unexpiredInValkey hget
  rcases hm with hholds | ⟨hholds, hexpired⟩
  · rw [hholds.get?_eq, OrdMap.get?_mapVal]
    cases he : (leasesOf memory pool).get? id with
    | none => rfl
    | some e =>
      have hlt := millis_lt_iff hnow (h.whole he)
      have hexpires : millis e.expires * 10 ^ 6 = e.expires := Nat.div_mul_cancel (h.whole he)
      have hscope : (if (e.scope.getD "").isEmpty then none else some (e.scope.getD "")) = e.scope := by
        have hne := h.scope_ne he
        cases hs : e.scope with
        | none => rfl
        | some s =>
          rw [hs] at hne
          exact if_neg fun hempty => hne (congrArg some (String.isEmpty_iff.mp hempty))
      simp only [Option.map_some, Option.bind_some, R.read_value, Option.filter_some, stored, hlt]
      split
      · simp only [Option.map_some, hexpires, hscope]
      · rfl
  · rw [hholds.get?_eq, OrdMap.get?_empty]
    cases he : (leasesOf memory pool).get? id with
    | none => rfl
    | some e =>
      have hlt := millis_lt_iff hnow (h.whole he)
      have hle := hexpired id e he
      have hdead : ¬ now < e.expires := fun hlive => by
        have := hlt.mpr hlive
        omega
      simp [Option.filter_some, hdead]

/-! ## Runs -/

/-- Every hash mirrors the ledger of its pool. -/
def Agreed (R : Rendering ℚ) (space : String) (ttl clock : ℕ) (memory : LeaseState ℚ)
    (store : Store) : Prop :=
  ∀ pool, Mirrors R (keyOf space pool) ttl clock store (leasesOf memory pool)

/-- A call changes the ledger of its pool only. -/
theorem Both.inMemory_other (s : Both) (c : Ambient × Op ℚ) {pool : String} (hne : pool ≠ c.2.pool) :
    leasesOf (s.inMemory c).2 pool = leasesOf s.memory pool := by
  obtain ⟨a, op⟩ := c
  have happly : (s.inMemory (a, op)).2 = (apply s.memory ⟨a.now, a.id, op⟩).2 := by
    cases op <;> rfl
  unfold leasesOf
  rw [happly, get?_apply_of_ne _ _ hne]

/-- And the hash of its pool only. -/
theorem Both.inValkey_other (s : Both) (c : Ambient × Op ℚ) {key : String}
    (hne : key ≠ keyOf space c.2.pool) :
    hgetall t (s.inValkey R space c).2 key = hgetall t s.valkey key := by
  obtain ⟨a, op⟩ := c
  cases op with
  | reserve pool limit units ttl => exact reserve_other hne _ _ _ _ _
  | reserveScoped pool scope poolLimit scopeLimit units ttl =>
    exact reserveScoped_other hne _ _ _ _ _ _ _
  | release lease => exact hgetall_hdel_of_ne hne
  | renew lease ttl => exact renew_other hne _ _

/-- **One call, on its pool**: both answer alike, and the hash mirrors the
ledger afterwards. -/
theorem agree_pool (httl : 10 ^ 6 ∣ ttl) {s : Both} {c : Ambient × Op ℚ} (hc : s.Admissible ttl c)
    (h : Agreed R space ttl c.1.now s.memory s.valkey) :
    (s.inMemory c).1 = (s.inValkey R space c).1 ∧
      Mirrors R (keyOf space c.2.pool) ttl c.1.now (s.inValkey R space c).2
        (leasesOf (s.inMemory c).2 c.2.pool) := by
  obtain ⟨⟨now, id⟩, op⟩ := c
  obtain ⟨-, hnow, hfits, hop⟩ := hc
  cases op with
  | reserve pool limit units ttl' =>
    obtain ⟨rfl, hlimit, hunits⟩ := hop
    obtain ⟨hanswer, hmirrors⟩ := agree_reserve id (h pool) hnow httl hfits hlimit hunits
    exact ⟨congrArg Answer.reserved hanswer, hmirrors⟩
  | reserveScoped pool scope poolLimit scopeLimit units ttl' =>
    obtain ⟨rfl, hscope, hlimit, hscopeLimit, hunits⟩ := hop
    obtain ⟨hanswer, hmirrors⟩ :=
      agree_reserveScoped id (h pool) hnow httl hfits hscope hlimit hscopeLimit hunits
    exact ⟨congrArg Answer.reserved hanswer, hmirrors⟩
  | release lease =>
    refine ⟨rfl, ?_⟩
    have hleases : leasesOf (InMemoryCoordinator.release s.memory lease) lease.pool =
        (leasesOf s.memory lease.pool).erase lease.id := by
      rw [leasesOf_release, if_pos rfl]
    show Mirrors R (keyOf space lease.pool) ttl now _
      (leasesOf (InMemoryCoordinator.release s.memory lease) lease.pool)
    rw [hleases]
    exact (h lease.pool).erased lease.id
  | renew lease ttl' =>
    obtain ⟨rfl, hlive⟩ := hop
    obtain ⟨hanswer, hmirrors⟩ := agree_renew (h lease.pool) hnow httl hfits hlive
    exact ⟨congrArg Answer.renewed hanswer, hmirrors⟩

/-- **One call**: both answer alike, and agree afterwards. -/
theorem agree_step (httl : 10 ^ 6 ∣ ttl) {s : Both} {c : Ambient × Op ℚ}
    (h : Agreed R space ttl s.clock s.memory s.valkey) (hc : s.Admissible ttl c) :
    (s.inMemory c).1 = (s.inValkey R space c).1 ∧
      Agreed R space ttl c.1.now (s.inMemory c).2 (s.inValkey R space c).2 := by
  have hnow : Agreed R space ttl c.1.now s.memory s.valkey := fun pool => (h pool).mono hc.1
  obtain ⟨hanswer, hmirrors⟩ := agree_pool httl hc hnow
  refine ⟨hanswer, fun pool => ?_⟩
  by_cases hpool : pool = c.2.pool
  · rw [hpool]
    exact hmirrors
  · rw [s.inMemory_other c hpool]
    exact (hnow pool).congr (s.inValkey_other c fun hkey => hpool (keyOf_injective space hkey))

end

end ValkeyCoordinator

end InferQos
