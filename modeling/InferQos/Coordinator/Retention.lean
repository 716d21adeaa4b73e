import InferQos.Common.Trace
import InferQos.Coordinator.Ledger
import InferQos.Coordinator.Rendering
import InferQos.Coordinator.Scripts
import Mathlib.Tactic.Linarith
/-!
# Leases of a cluster

Any number of replicas reserve, renew and release leases in one store. The
ledger records, beside the store, what has been granted and not released,
with the units and the last expiry a call has set. A lease may be lost
before its expiry: the time to live of the hash is whatever the last script
has set, and a call with a short one takes along every lease that is to
live longer. And more may be granted than there is: the scripts write 14
digits of a number and add in floating point. `unexpired_leases_kept` says
that nothing else goes wrong.
-/

namespace InferQos

namespace ValkeyCoordinator

open Redis
open InMemoryCoordinator (Op)

variable {F : Type}

/-! ## Calls -/

/-- The expiry a call computes, in milliseconds. -/
def Readings.expiry (c : Readings) (ttl : ℕ) : ℕ := saturatingAdd (nowMs c.read) (ttlMs ttl)

/-- A call: its readings of the clock, the id it would give a lease, and
what it asks for. -/
structure Call (F : Type) extends Readings where
  id : Uuid
  op : Op F

namespace Call

variable (c : Call F)

/-- The time to live a call gives the hash, if it succeeds. -/
def timeToLive : Option ℕ :=
  match c.op with
  | .reserve _ _ _ ttl => some (max 1000 (c.expiry ttl - nowMs c.read + 1000))
  | .reserveScoped _ _ _ _ _ ttl => some (max 1000 (c.expiry ttl - nowMs c.read + 1000))
  | .release _ => none
  | .renew _ ttl => some (saturatingAdd (ttlMs ttl) 1000)

/-- The units a call reserves. -/
def units? : Option F :=
  match c.op with
  | .reserve _ _ units _ => some units
  | .reserveScoped _ _ _ _ units _ => some units
  | _ => none

/-- The expiry a call writes, if it succeeds. -/
def expiry? : Option ℕ :=
  match c.op with
  | .reserve _ _ _ ttl => some (c.expiry ttl)
  | .reserveScoped _ _ _ _ _ ttl => some (c.expiry ttl)
  | .release _ => none
  | .renew _ ttl => some (c.expiry ttl)

/-- A reservation in the pool passes this limit. -/
def Passes (pool : String) (limit : F) : Prop :=
  c.op.pool = pool → ∀ limit' ∈ c.op.poolLimit?, limit' = limit

/-- **The numbers of a call are written in full**: the units it reserves in
the pool are among the amounts `E` and are read back, and so is its expiry,
which a script writes as the client does. -/
def InFull (R : Format F) (E : Set F) (pool : String) : Prop :=
  c.op.pool = pool →
    (∀ units ∈ c.units?, units ∈ E ∧ R.readUnits (R.units units) = some units) ∧
    ∀ expiry ∈ c.expiry?,
      R.argument expiry = R.time expiry ∧ R.readTime (R.time expiry) = some expiry

end Call

/-! ## The cluster -/

/-- What has been granted for a lease: its units, and its last expiry. -/
structure Granted (F : Type) where
  units : F
  expires : ℕ
  deriving DecidableEq

/-- A lease gets another expiry. -/
def extend (ledger : OrdMap Uuid (Granted F)) (id : Uuid) (expiry : ℕ) :
    OrdMap Uuid (Granted F) :=
  match ledger.get? id with
  | some g => ledger.insert id { g with expires := expiry }
  | none => ledger

theorem get?_extend (ledger : OrdMap Uuid (Granted F)) (id id' : Uuid) (expiry : ℕ) :
    (extend ledger id expiry).get? id' =
      if id' = id then (ledger.get? id).map ({ · with expires := expiry })
      else ledger.get? id' := by
  unfold extend
  cases hg : ledger.get? id with
  | none =>
    by_cases hid : id' = id
    · rw [if_pos hid, hid, hg]
      rfl
    · rw [if_neg hid]
  | some g => rw [OrdMap.get?_insert, Option.map_some]

/-- What the answer to a reservation leaves in the ledger. -/
def noteReserved (ledger : OrdMap Uuid (Granted F)) (expiry : ℕ) :
    Except CoordinatorError (Option (Lease F)) → OrdMap Uuid (Granted F)
  | .ok (some lease) => ledger.insert lease.id ⟨lease.units, expiry⟩
  | _ => ledger

/-- What the answer to a renewal leaves in the ledger. -/
def noteRenewed (ledger : OrdMap Uuid (Granted F)) (id : Uuid) (expiry : ℕ) :
    Except CoordinatorError Bool → OrdMap Uuid (Granted F)
  | .ok true => extend ledger id expiry
  | _ => ledger

/-- The store of a cluster at the time of its last script, and the ledger
of what is granted and not released, by pool. No call reads the ledger. -/
structure Cluster (F : Type) where
  clock : ℕ
  store : Store
  ledger : String → OrdMap Uuid (Granted F)

namespace Cluster

/-- Nothing is stored. -/
def new : Cluster F := ⟨0, ∅, fun _ => ∅⟩

variable [Arith F] (R : Format F) (space : String) (s : Cluster F) (c : Call F)

/-- The store and the ledger of the pool after a call. -/
def effect : Store × OrdMap Uuid (Granted F) :=
  match c.op with
  | .reserve pool limit units ttl =>
    let r := reserve R space c.toReadings c.id s.store pool limit units ttl
    (r.2, noteReserved (s.ledger pool) (c.expiry ttl) r.1)
  | .reserveScoped pool scope limit scopeLimit units ttl =>
    let r := reserveScoped R space c.toReadings c.id s.store pool scope limit scopeLimit units ttl
    (r.2, noteReserved (s.ledger pool) (c.expiry ttl) r.1)
  | .release lease =>
    (release R space c.toReadings s.store lease, (s.ledger lease.pool).erase lease.id)
  | .renew lease ttl =>
    let r := renew R space c.toReadings s.store lease ttl
    (r.2, noteRenewed (s.ledger lease.pool) lease.id (c.expiry ttl) r.1)

/-- The cluster after a call. -/
def next : Cluster F :=
  ⟨c.server, (s.effect R space c).1, Function.update s.ledger c.op.pool (s.effect R space c).2⟩

/-- **One call.** The clock does not run backwards, and a script runs after
its caller has read it. -/
def Step (s : Cluster F) (c : Call F) (s' : Cluster F) : Prop :=
  s.clock ≤ c.server ∧ c.read ≤ c.server ∧ s' = s.next R space c

omit [Arith F] in
/-- **A call outlasts the leases of a pool**: no lease that is stored and
has not expired is to live longer than the time it gives the hash. -/
def Outlasts (pool : String) (s : Cluster F) (c : Call F) : Prop :=
  c.op.pool = pool → ∀ ms ∈ c.timeToLive,
    ∀ e ∈ (hgetall (millis c.server) s.store (keyOf space pool)).entries, ∀ x ∈ R.read e.2,
      millis c.server < x.expires → x.expires ≤ millis c.server + ms

end Cluster

/-! ## Tables and ledgers -/

/-- What the units of a table are worth. -/
def worthOf (worth : F → ℚ) (table : OrdMap Uuid (Stored F)) : ℚ :=
  table.sumOn fun _ e => worth e.amount

/-- **A table tracks a ledger** at time `t`: it holds every lease that has
not expired, with its units, in amounts and numbers that are read back, and
no more than `L` in all. -/
structure Tracks (R : Format F) (E : Set F) (worth : F → ℚ) (L : F) (t : ℕ)
    (table : OrdMap Uuid (Stored F)) (ledger : OrdMap Uuid (Granted F)) : Prop where
  worth_le : worthOf worth table ≤ worth L
  mem : ∀ {id e}, table.get? id = some e → e.amount ∈ E
  legible : AllLegible R table
  amount_eq : ∀ {id e g}, table.get? id = some e → ledger.get? id = some g → e.amount = g.units
  kept : ∀ {id g}, ledger.get? id = some g → t < g.expires →
    ∃ e, table.get? id = some e ∧ e.expires = g.expires

namespace Tracks

variable [Arith F] {R : Format F} {E : Set F} {worth : F → ℚ} {L : F} {t now server : ℕ}
variable {table : OrdMap Uuid (Stored F)} {ledger ledger' : OrdMap Uuid (Granted F)}

/-- The empty table tracks a ledger of expired leases. -/
theorem empty (hL : Arith.ExactUpTo E worth L)
    (h : ∀ {id g}, ledger.get? id = some g → g.expires ≤ t) :
    Tracks R E worth L t ∅ ledger where
  worth_le := hL.nonneg hL.limit_mem
  mem := fun he => by cases he
  legible := fun _ _ he => by cases he
  amount_eq := fun he => by cases he
  kept := by
    intro id g hg hlt
    have := h hg
    omega

/-- Fewer entries are worth less. -/
theorem worth_filter_le (h : Tracks R E worth L t table ledger) (hL : Arith.ExactUpTo E worth L)
    (p : Uuid → Stored F → Bool) : worthOf worth (table.filter p) ≤ worthOf worth table :=
  OrdMap.sumOn_filter_le (fun _ he => hL.nonneg (h.mem (OrdMap.get?_eq_some.mpr he))) p

theorem purged (h : Tracks R E worth L t table ledger) (hL : Arith.ExactUpTo E worth L)
    (hnow : now ≤ t) : Tracks R E worth L t (purge now table) ledger where
  worth_le := (h.worth_filter_le hL _).trans h.worth_le
  mem := fun he => h.mem (get?_purge.mp he).1
  legible := h.legible.purge
  amount_eq := fun he => h.amount_eq (get?_purge.mp he).1
  kept := by
    intro id g hg hlt
    obtain ⟨e, he, hexpires⟩ := h.kept hg hlt
    exact ⟨e, get?_purge.mpr ⟨he, by omega⟩, hexpires⟩

theorem erase (h : Tracks R E worth L t table ledger) (hL : Arith.ExactUpTo E worth L)
    (id : Uuid) : Tracks R E worth L t (table.erase id) (ledger.erase id) where
  worth_le := (h.worth_filter_le hL _).trans h.worth_le
  mem := fun he => h.mem (OrdMap.get?_erase_eq_some.mp he).2
  legible := fun id' e he => h.legible id' e (OrdMap.get?_erase_eq_some.mp he).2
  amount_eq := fun he hg =>
    h.amount_eq (OrdMap.get?_erase_eq_some.mp he).2 (OrdMap.get?_erase_eq_some.mp hg).2
  kept := by
    intro id' g hg hlt
    obtain ⟨hne, hg⟩ := OrdMap.get?_erase_eq_some.mp hg
    obtain ⟨e, he, hexpires⟩ := h.kept hg hlt
    exact ⟨e, OrdMap.get?_erase_eq_some.mpr ⟨hne, he⟩, hexpires⟩

omit [Arith F] in
/-- **A lease is written.** The table tracked the ledger when the script
ran; the ledger has what is written for the lease, and the others as before. -/
theorem insert (h : Tracks R E worth L server table ledger) (hle : server ≤ t) {id : Uuid}
    {e : Stored F} (hmem : e.amount ∈ E) (hlegible : R.Legible e)
    (hworth : worthOf worth (table.insert id e) ≤ worth L)
    (hself : ∀ g, ledger'.get? id = some g → e.amount = g.units ∧ e.expires = g.expires)
    (hother : ∀ id', id' ≠ id → ledger'.get? id' = ledger.get? id') :
    Tracks R E worth L t (table.insert id e) ledger' where
  worth_le := hworth
  mem := by
    intro id' e' he'
    rcases OrdMap.get?_insert_eq_some.mp he' with ⟨-, rfl⟩ | ⟨-, he'⟩
    · exact hmem
    · exact h.mem he'
  legible := by
    intro id' e' he'
    rcases OrdMap.get?_insert_eq_some.mp he' with ⟨-, rfl⟩ | ⟨-, he'⟩
    · exact hlegible
    · exact h.legible id' e' he'
  amount_eq := by
    intro id' e' g he' hg
    rcases OrdMap.get?_insert_eq_some.mp he' with ⟨rfl, rfl⟩ | ⟨hne, he'⟩
    · exact (hself g hg).1
    · exact h.amount_eq he' (hother id' hne ▸ hg)
  kept := by
    intro id' g hg hlt
    by_cases hid : id' = id
    · subst hid
      exact ⟨e, OrdMap.get?_insert_self, (hself g hg).2⟩
    · rw [hother id' hid] at hg
      obtain ⟨e', he', hexpires⟩ := h.kept hg (by omega)
      exact ⟨e', OrdMap.get?_insert_eq_some.mpr (Or.inr ⟨hid, he'⟩), hexpires⟩

/-- **What a script adds up is what the table is worth**, in whatever order
it meets the fields. -/
theorem worth_sum (h : Tracks R E worth L t table ledger) (hL : Arith.ExactUpTo E worth L)
    {order : List (Stored F)} (hperm : order.Perm table.values) :
    Arith.sum (order.map (·.amount)) ∈ E ∧
      worth (Arith.sum (order.map (·.amount))) = worthOf worth table := by
  have hworth : ((order.map (·.amount)).map worth).sum = worthOf worth table := by
    rw [List.map_map, (hperm.map _).sum_eq]
    unfold worthOf OrdMap.sumOn OrdMap.values
    rw [List.map_map]
    rfl
  rw [← hworth]
  refine hL.sum (fun x hx => ?_) (hworth.trans_le h.worth_le)
  obtain ⟨e, he, rfl⟩ := List.mem_map.mp hx
  obtain ⟨id, he⟩ := OrdMap.mem_values.mp (hperm.mem_iff.mp he)
  exact h.mem he

/-- **A grant.** -/
theorem grant (h : Tracks R E worth L server table ledger) (hL : Arith.ExactUpTo E worth L)
    (hle : server ≤ t) (hnow : now ≤ server) {id : Uuid} {units : F} {expiry : ℕ} {scope : String}
    (hunits : units ∈ E) (hlegible : R.Legible ⟨units, expiry, scope⟩)
    {order : List (Stored F)} (hperm : order.Perm (purge now table).values)
    (hroom : ¬ L < Arith.sum (order.map (·.amount)) + units) :
    Tracks R E worth L t ((purge now table).insert id ⟨units, expiry, scope⟩)
      (ledger.insert id ⟨units, expiry⟩) := by
  have hpurged := h.purged hL hnow
  refine hpurged.insert hle hunits hlegible ?_ ?_ fun id' hne => OrdMap.get?_insert_of_ne hne
  · obtain ⟨hsum, hworth⟩ := hpurged.worth_sum hL hperm
    have hfits : worth (Arith.sum (order.map (·.amount))) + worth units ≤ worth L :=
      not_lt.mp fun hlt => hroom (hL.lt_add hsum hunits hlt)
    have herase : worthOf worth ((purge now table).erase id) ≤ worthOf worth (purge now table) :=
      hpurged.worth_filter_le hL _
    have hinsert : worthOf worth ((purge now table).insert id ⟨units, expiry, scope⟩) =
        worth units + worthOf worth ((purge now table).erase id) := OrdMap.sumOn_insert _
    linarith
  · intro g hg
    rw [OrdMap.get?_insert_self, Option.some.injEq] at hg
    subst hg
    exact ⟨rfl, rfl⟩

omit [Arith F] in
/-- **A renewal.** -/
theorem renew (h : Tracks R E worth L server table ledger) (hle : server ≤ t) {id : Uuid}
    {e : Stored F} (he : table.get? id = some e) {expiry : ℕ}
    (hexpiry : R.readTime (R.time expiry) = some expiry) :
    Tracks R E worth L t (table.insert id { e with expires := expiry })
      (extend ledger id expiry) := by
  have hmem : e.amount ∈ E := h.mem he
  refine h.insert hle hmem ⟨(h.legible id e he).1, hexpiry⟩ ?_ ?_ fun id' hne => ?_
  · have hsum := OrdMap.sumOn_insert_add (v := { e with expires := expiry }) he
      fun _ e => worth e.amount
    have hworth := h.worth_le
    unfold worthOf at hworth ⊢
    linarith
  · intro g hg
    rw [get?_extend, if_pos rfl, Option.map_eq_some_iff] at hg
    obtain ⟨g', hg', rfl⟩ := hg
    have hunits : e.amount = g'.units := h.amount_eq he hg'
    exact ⟨hunits, rfl⟩
  · rw [get?_extend, if_neg hne]

omit [Arith F] in
/-- **Nothing outlives a call that outlasts the table.** -/
theorem expires_le {ms : ℕ} (h : Tracks R E worth L server table ledger)
    (hout : ∀ {id e}, table.get? id = some e → server < e.expires → e.expires ≤ server + ms)
    (ht : server + ms ≤ t) {id : Uuid} {g : Granted F} (hg : ledger.get? id = some g) :
    g.expires ≤ t := by
  by_cases hlt : server < g.expires
  · obtain ⟨e, he, hexpires⟩ := h.kept hg hlt
    have hle := hout he (by omega)
    omega
  · omega

/-- **What has not expired is worth no more than the limit.** -/
theorem sum_le (h : Tracks R E worth L t table ledger) (hL : Arith.ExactUpTo E worth L) :
    (ledger.filter fun _ g => t < g.expires).sumOn (fun _ g => worth g.units) ≤ worth L := by
  have hsub := OrdMap.sum_get?_le_sumOn (m := table) (f := fun _ e => worth e.amount)
    (fun _ he => hL.nonneg (h.mem (OrdMap.get?_eq_some.mpr he)))
    (ledger.filter fun _ g => t < g.expires).keys_nodup
  refine le_trans (le_of_eq ?_) (hsub.trans h.worth_le)
  unfold OrdMap.sumOn OrdMap.keys
  rw [List.map_map]
  congr 1
  refine List.map_congr_left fun entry hentry => ?_
  obtain ⟨hmem, hlt⟩ := OrdMap.mem_filter.mp hentry
  have hg := OrdMap.get?_eq_some.mpr hmem
  obtain ⟨e, he, -⟩ := h.kept hg (of_decide_eq_true hlt)
  simp only [Function.comp_apply, he, Option.elim_some, h.amount_eq he hg]

end Tracks

/-! ## The invariant -/

section

variable {R : Format F} {space key : String} {E : Set F} {worth : F → ℚ} {L : F}
variable {clock server : ℕ} {store store' : Store} {ledger ledger' : OrdMap Uuid (Granted F)}

/-- **The leases of a ledger are kept** from `clock` on: at every later
time, the hash is a table that tracks it. -/
def Kept (R : Format F) (key : String) (E : Set F) (worth : F → ℚ) (L : F) (clock : ℕ)
    (store : Store) (ledger : OrdMap Uuid (Granted F)) : Prop :=
  ∀ t, clock ≤ t → ∃ table, Holds R t store key table ∧ Tracks R E worth L t table ledger

theorem Kept.mono (h : Kept R key E worth L clock store ledger) (hle : clock ≤ server) :
    Kept R key E worth L server store ledger := fun t ht => h t (hle.trans ht)

theorem Kept.congr (h : Kept R key E worth L clock store ledger)
    (heq : ∀ {t}, hgetall t store' key = hgetall t store key) :
    Kept R key E worth L clock store' ledger := by
  intro t ht
  obtain ⟨table, hholds, htracks⟩ := h t ht
  refine ⟨table, ?_, htracks⟩
  unfold Holds
  rw [heq]
  exact hholds

variable {c : Readings} {pool : String}

/-- The client's clock is behind. -/
theorem nowMs_le (h : c.read ≤ c.server) : nowMs c.read ≤ millis c.server := by
  have hle : millis c.read ≤ millis c.server := Nat.div_le_div_right h
  have hmod : nowMs c.read ≤ millis c.read := Nat.mod_le _ _
  omega

/-- No stored lease of a table outlives the time `ms` gives it. -/
abbrev OutlastsTable (server ms : ℕ) (table : OrdMap Uuid (Stored F)) : Prop :=
  ∀ {id e}, table.get? id = some e → server < e.expires → e.expires ≤ server + ms

/-- The condition on a call, for the table its hash is. -/
theorem Cluster.Outlasts.table {s : Cluster F} {c : Call F}
    (h : Cluster.Outlasts R space c.op.pool s c) {ms : ℕ} (hms : c.timeToLive = some ms)
    {table : OrdMap Uuid (Stored F)}
    (hholds : Holds R (millis c.server) s.store (keyOf space c.op.pool) table)
    (hread : AllLegible R table) : OutlastsTable (millis c.server) ms table := by
  intro id e he hlt
  have hfield : (hgetall (millis c.server) s.store (keyOf space c.op.pool)).get? (R.id id) =
      some (R.value e) := by
    rw [hholds.get?_eq, he]
    rfl
  exact h rfl ms hms _ (OrdMap.get?_eq_some.mp hfield) e (hread id e he).read_value hlt

variable [Arith F]

/-- A write keeps them if it outlasts the table. -/
theorem Kept.written {table : OrdMap Uuid (Stored F)} {ms : ℕ} (hL : Arith.ExactUpTo E worth L)
    (hwritten : Written R server key table ms store')
    (htracks : ∀ {t}, server ≤ t → Tracks R E worth L t table ledger')
    (hexpires : ∀ {t}, server + ms ≤ t → ∀ {id g}, ledger'.get? id = some g → g.expires ≤ t) :
    Kept R key E worth L server store' ledger' := by
  intro t hle
  have hholds := hwritten hle
  by_cases ht : t < server + ms
  · rw [if_pos ht] at hholds
    exact ⟨table, hholds, htracks hle⟩
  · rw [if_neg ht] at hholds
    exact ⟨∅, hholds, Tracks.empty hL (hexpires (by omega))⟩

/-- **Reservations keep the leases.** -/
theorem kept_reserveScoped (hL : Arith.ExactUpTo E worth L) (hread : c.read ≤ c.server)
    (h : Kept R (keyOf space pool) E worth L (millis c.server) store ledger) (id : Uuid)
    (scope : String) (scopeLimit : F) {units : F} {ttl : ℕ} (hunits : units ∈ E)
    (hlegible : R.Legible ⟨units, c.expiry ttl, scope⟩)
    (hout : ∀ {table}, Holds R (millis c.server) store (keyOf space pool) table →
      AllLegible R table →
      OutlastsTable (millis c.server) (max 1000 (c.expiry ttl - nowMs c.read + 1000)) table) :
    Kept R (keyOf space pool) E worth L (millis c.server)
      (reserveScoped R space c id store pool scope L scopeLimit units ttl).2
      (noteReserved ledger (c.expiry ttl)
        (reserveScoped R space c id store pool scope L scopeLimit units ttl).1) := by
  obtain ⟨table, hholds, htracks⟩ := h _ le_rfl
  have hnow := nowMs_le hread
  rcases reserveScoped_spec hholds htracks.legible id scope L scopeLimit units ttl with
    ⟨e, -, hr⟩ | ⟨-, order, store', hperm, ⟨-, hr, hpurged⟩ | ⟨hroom, hr, hwritten⟩⟩
  · rw [hr]
    exact h
  · rw [hr]
    intro t ht
    obtain ⟨table', hholds', htracks'⟩ := h t ht
    exact ⟨_, hpurged ht hholds' htracks'.legible, htracks'.purged hL (by omega)⟩
  · rw [hr]
    show Kept R _ E worth L _ store' (ledger.insert id ⟨units, c.expiry ttl⟩)
    refine Kept.written hL hwritten (fun ht => htracks.grant hL ht hnow hunits hlegible hperm
      fun hlt => hroom (Or.inl hlt)) ?_
    intro t ht id' g hg
    rcases OrdMap.get?_insert_eq_some.mp hg with ⟨-, rfl⟩ | ⟨-, hg⟩
    · show saturatingAdd (nowMs c.read) (ttlMs ttl) ≤ t
      omega
    · exact htracks.expires_le (hout hholds htracks.legible) ht hg

/-- A reservation outside any scope is one in the empty scope, or invalid. -/
theorem kept_reserve (hL : Arith.ExactUpTo E worth L) (hread : c.read ≤ c.server)
    (h : Kept R (keyOf space pool) E worth L (millis c.server) store ledger) (id : Uuid)
    {units : F} {ttl : ℕ} (hunits : units ∈ E) (hlegible : R.Legible ⟨units, c.expiry ttl, ""⟩)
    (hout : ∀ {table}, Holds R (millis c.server) store (keyOf space pool) table →
      AllLegible R table →
      OutlastsTable (millis c.server) (max 1000 (c.expiry ttl - nowMs c.read + 1000)) table) :
    Kept R (keyOf space pool) E worth L (millis c.server)
      (reserve R space c id store pool L units ttl).2
      (noteReserved ledger (c.expiry ttl) (reserve R space c id store pool L units ttl).1) := by
  unfold reserve
  split
  · exact h
  · exact kept_reserveScoped hL hread h id "" L hunits hlegible hout

/-- **Renewals keep the leases.** -/
theorem kept_renew (hL : Arith.ExactUpTo E worth L) (hread : c.read ≤ c.server) {lease : Lease F}
    (h : Kept R (keyOf space lease.pool) E worth L (millis c.server) store ledger) {ttl : ℕ}
    (hwrites : R.argument (c.expiry ttl) = R.time (c.expiry ttl))
    (hreads : R.readTime (R.time (c.expiry ttl)) = some (c.expiry ttl))
    (hout : ∀ {table}, Holds R (millis c.server) store (keyOf space lease.pool) table →
      AllLegible R table → OutlastsTable (millis c.server) (saturatingAdd (ttlMs ttl) 1000) table) :
    Kept R (keyOf space lease.pool) E worth L (millis c.server) (renew R space c store lease ttl).2
      (noteRenewed ledger lease.id (c.expiry ttl) (renew R space c store lease ttl).1) := by
  obtain ⟨table, hholds, htracks⟩ := h _ le_rfl
  have hnow := nowMs_le hread
  rcases renew_spec hholds ttl hwrites with ⟨-, hr⟩ | ⟨e, store', he, hr, hwritten⟩
  · rw [hr]
    exact h
  · rw [hr]
    show Kept R _ E worth L _ store' (extend ledger lease.id (c.expiry ttl))
    refine Kept.written hL hwritten (fun ht => htracks.renew ht he hreads) ?_
    intro t ht id g hg
    rw [get?_extend] at hg
    split at hg
    · obtain ⟨g', -, rfl⟩ := Option.map_eq_some_iff.mp hg
      have httl : ttlMs ttl ≤ u64Max := Nat.min_le_right _ _
      show saturatingAdd (nowMs c.read) (ttlMs ttl) ≤ t
      unfold saturatingAdd at ht ⊢
      omega
    · exact htracks.expires_le (hout hholds htracks.legible) ht hg

/-- **Releases keep the others.** -/
theorem kept_release (hL : Arith.ExactUpTo E worth L) {lease : Lease F}
    (h : Kept R (keyOf space lease.pool) E worth L (millis c.server) store ledger) :
    Kept R (keyOf space lease.pool) E worth L (millis c.server) (release R space c store lease)
      (ledger.erase lease.id) := by
  intro t ht
  obtain ⟨table, hholds, htracks⟩ := h t ht
  exact ⟨_, holds_hdel hholds ht lease.id, htracks.erase hL lease.id⟩

/-- A call about another pool changes nothing for this one. -/
theorem Cluster.effect_other {s : Cluster F} {c : Call F} (hne : pool ≠ c.op.pool) {t : ℕ} :
    hgetall t (s.effect R space c).1 (keyOf space pool) = hgetall t s.store (keyOf space pool) := by
  have hkey : keyOf space pool ≠ keyOf space c.op.pool := fun heq => hne (keyOf_injective space heq)
  obtain ⟨readings, id, op⟩ := c
  cases op with
  | reserve pool' limit units ttl => exact reserve_other hkey readings id limit units ttl
  | reserveScoped pool' scope limit scopeLimit units ttl =>
    exact reserveScoped_other hkey readings id scope limit scopeLimit units ttl
  | release lease => exact hgetall_hdel_of_ne hkey
  | renew lease ttl => exact renew_other hkey readings ttl

/-- **One call.** -/
theorem kept_step (hL : Arith.ExactUpTo E worth L) {s s' : Cluster F} {c : Call F}
    (hpasses : c.Passes pool L) (hfull : c.InFull R E pool)
    (hout : Cluster.Outlasts R space pool s c) (hstep : Cluster.Step R space s c s')
    (h : Kept R (keyOf space pool) E worth L (millis s.clock) s.store (s.ledger pool)) :
    Kept R (keyOf space pool) E worth L (millis s'.clock) s'.store (s'.ledger pool) := by
  obtain ⟨hclock, hread, rfl⟩ := hstep
  have hkept := h.mono (Nat.div_le_div_right hclock : millis s.clock ≤ millis c.server)
  by_cases hpool : pool = c.op.pool
  · subst hpool
    simp only [Cluster.next, Function.update_self]
    obtain ⟨hamount, htime⟩ := hfull rfl
    obtain ⟨readings, id, op⟩ := c
    cases op with
    | reserve pool' limit units ttl =>
      obtain rfl := hpasses rfl _ rfl
      obtain ⟨hunits, hreads⟩ := hamount units rfl
      exact kept_reserve hL hread hkept id hunits ⟨hreads, (htime _ rfl).2⟩ (hout.table rfl)
    | reserveScoped pool' scope limit scopeLimit units ttl =>
      obtain rfl := hpasses rfl _ rfl
      obtain ⟨hunits, hreads⟩ := hamount units rfl
      exact kept_reserveScoped hL hread hkept id scope scopeLimit hunits
        ⟨hreads, (htime _ rfl).2⟩ (hout.table rfl)
    | release lease => exact kept_release hL hkept
    | renew lease ttl =>
      obtain ⟨hwrites, hreads⟩ := htime _ rfl
      exact kept_renew hL hread hkept hwrites hreads (hout.table rfl)
  · simp only [Cluster.next, Function.update_of_ne hpool]
    exact hkept.congr (Cluster.effect_other hpool)

end

/-! ## Runs -/

/-- **Leases are kept as long as no call shortens the life of the hash.**
For every number format and every way to write numbers, every number of
replicas and every interleaving of their calls, with any TTLs: let the units
of the calls on the pool be amounts that are added exactly up to the limit
all reservations pass, let their units and expiries be written in full, and
let no stored lease that has not expired, in the state before a call on the
pool that gives its hash a time to live, be to live longer. Then from each
state of the run on, until the next call, a lease that is granted and not
released and whose last expiry has not been reached is in the hash with its
units and that expiry, and those leases sum to at most the limit. -/
theorem unexpired_leases_kept [Arith F] (R : Format F) (space pool : String) {E : Set F}
    {worth : F → ℚ} {L : F} (hL : Arith.ExactUpTo E worth L) {calls : List (Call F)}
    {s : Cluster F}
    (h : Trace (Guarded (fun s c => c.Passes pool L ∧ c.InFull R E pool ∧
      Cluster.Outlasts R space pool s c) (Cluster.Step R space)) Cluster.new calls s)
    (t : ℕ) (ht : millis s.clock ≤ t) :
    (∀ id g, (s.ledger pool).get? id = some g → t < g.expires →
        ∃ value scope, hget t s.store (keyOf space pool) (R.id id) = some value ∧
          R.read value = some ⟨g.units, g.expires, scope⟩) ∧
      ((s.ledger pool).filter fun _ g => t < g.expires).sumOn (fun _ g => worth g.units) ≤
        worth L := by
  have hkept : Kept R (keyOf space pool) E worth L (millis s.clock) s.store (s.ledger pool) := by
    refine h.invariant (P := fun s =>
      Kept R (keyOf space pool) E worth L (millis s.clock) s.store (s.ledger pool)) ?_ ?_
    · intro t _
      exact ⟨∅, OrdMap.Rekeyed.empty, Tracks.empty hL fun hg => by cases hg⟩
    · intro s c s' hs hstep
      exact kept_step hL hstep.1.1 hstep.1.2.1 hstep.1.2.2 hstep.2 hs
  obtain ⟨table, hholds, htracks⟩ := hkept t ht
  refine ⟨fun id g hg hlt => ?_, htracks.sum_le hL⟩
  obtain ⟨e, he, hexpires⟩ := htracks.kept hg hlt
  refine ⟨R.value e, e.scope, ?_, ?_⟩
  · rw [hget, hholds.get?_eq, he]
    rfl
  · rw [(htracks.legible id e he).read_value, ← htracks.amount_eq he hg, ← hexpires]

/-! ### Runs of it -/

/-- A reservation of some units in a pool with ten, at a time in
milliseconds, for some seconds. -/
def sampleCall (id : Uuid) (time : ℕ) (units : ℚ) (seconds : ℕ) : Call ℚ :=
  ⟨⟨time * 10 ^ 6, time * 10 ^ 6, time * 10 ^ 6⟩, id, .reserve "pool" 10 units (seconds * 10 ^ 9)⟩

theorem passes_sample (id : Uuid) (time : ℕ) (units : ℚ) (seconds : ℕ) :
    (sampleCall id time units seconds).Passes "pool" 10 := by
  intro _ limit hlimit
  cases hlimit
  rfl

/-- An exact rendering writes every number in full. -/
theorem inFull_sample (id : Uuid) (time : ℕ) {units : ℚ} (hunits : 0 ≤ units) (seconds : ℕ) :
    (sampleCall id time units seconds).InFull exactRendering {x | 0 ≤ x} "pool" := by
  refine fun _ => ⟨fun units' h => ?_, fun expiry _ => ⟨rfl, exactRendering.readTime_time expiry⟩⟩
  cases h
  exact ⟨hunits, exactRendering.readUnits_units units⟩

/-- Calls one after the other. -/
def Cluster.run (calls : List (Call ℚ)) : Cluster ℚ :=
  calls.foldl (Cluster.next exactRendering "inferqos") .new

/-- Two leases of one length. -/
def evenCalls : List (Call ℚ) := [sampleCall 1 0 5 60, sampleCall 2 1000 5 60]

/-- The first of them is kept to its end. -/
theorem unexpired_leases_kept_even :
    ∃ value scope, hget 59999 (Cluster.run evenCalls).store (keyOf "inferqos" "pool")
        (exactRendering.id 1) = some value ∧
      exactRendering.read value = some ⟨5, 60000, scope⟩ := by
  have hledger : ((Cluster.run evenCalls).ledger "pool").get? 1 = some ⟨5, 60000⟩ := by
    decide +kernel
  have hfirst : Cluster.Outlasts exactRendering "inferqos" "pool" .new (sampleCall 1 0 5 60) := by
    unfold Cluster.Outlasts
    decide +kernel
  have hsecond : Cluster.Outlasts exactRendering "inferqos" "pool"
      (Cluster.run [sampleCall 1 0 5 60]) (sampleCall 2 1000 5 60) := by
    unfold Cluster.Outlasts
    decide +kernel
  have hrun : Trace (Guarded (fun s c => c.Passes "pool" 10 ∧
      c.InFull exactRendering {x | 0 ≤ x} "pool" ∧
      Cluster.Outlasts exactRendering "inferqos" "pool" s c)
      (Cluster.Step exactRendering "inferqos")) Cluster.new evenCalls (Cluster.run evenCalls) :=
    (Trace.nil.snoc ⟨⟨passes_sample _ _ _ _, inFull_sample _ _ (by norm_num) _, hfirst⟩,
      Nat.zero_le _, le_rfl, rfl⟩).snoc
      ⟨⟨passes_sample _ _ _ _, inFull_sample _ _ (by norm_num) _, hsecond⟩,
        Nat.zero_le _, le_rfl, rfl⟩
  exact (unexpired_leases_kept exactRendering "inferqos" "pool" (Arith.ExactUpTo.rat (by norm_num))
    hrun 59999 (by decide)).1 1 ⟨5, 60000⟩ hledger (by decide)

/-- A lease for a minute, one for five seconds, and one for all units when
the hash is gone with the second. -/
def unevenCalls : List (Call ℚ) := [sampleCall 1 0 5 60, sampleCall 2 0 5 5, sampleCall 3 6000 10 60]

/-- **A short lease takes a long one along.** After six seconds the lease
for a minute is not stored, and 15 of 10 units are granted. -/
theorem short_lease_takes_long_one :
    Trace (Guarded (fun _ c => c.Passes "pool" 10) (Cluster.Step exactRendering "inferqos"))
        Cluster.new unevenCalls (Cluster.run unevenCalls) ∧
      millis (Cluster.run unevenCalls).clock = 6000 ∧
      ((Cluster.run unevenCalls).ledger "pool").get? 1 = some ⟨5, 60000⟩ ∧
      hget 6000 (Cluster.run unevenCalls).store (keyOf "inferqos" "pool") (exactRendering.id 1) =
        none ∧
      (((Cluster.run unevenCalls).ledger "pool").filter fun _ g => 6000 < g.expires).sumOn
        (fun _ g => g.units) = 15 := by
  refine ⟨?_, by decide +kernel, by decide +kernel, by decide +kernel, by decide +kernel⟩
  exact ((Trace.nil.snoc ⟨passes_sample _ _ _ _, Nat.zero_le _, le_rfl, rfl⟩).snoc
    ⟨passes_sample _ _ _ _, Nat.zero_le _, le_rfl, rfl⟩).snoc
      ⟨passes_sample _ _ _ _, Nat.zero_le _, le_rfl, rfl⟩

end ValkeyCoordinator

end InferQos
