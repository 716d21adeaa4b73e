import InferQos.Coordinator.Valkey
/-!
# What the scripts do

A hash the scripts have written is a table of leases under other names:
`Holds` relates the two at a time of the server. Each script is then
described by the table it leaves, at every later time, as long as its
numbers are read as they were written. In exact arithmetic the order in
which a script meets the fields does not matter.
-/

namespace InferQos

namespace ValkeyCoordinator

open Redis

section

variable {F : Type} (R : Format F)

/-- **The hash under a key is this table** at time `t`. -/
abbrev Holds (t : ℕ) (store : Store) (key : String) (table : OrdMap Uuid (Stored F)) : Prop :=
  OrdMap.Rekeyed R.id R.value (hgetall t store key) table

/-- The numbers of a table are read as they were written. -/
def AllLegible (table : OrdMap Uuid (Stored F)) : Prop :=
  ∀ id e, table.get? id = some e → R.Legible e

variable {R} {t server : ℕ} {store : Store} {key : String} {table table' : OrdMap Uuid (Stored F)}

theorem Rendering.allLegible (R : Rendering F) (table : OrdMap Uuid (Stored F)) :
    AllLegible R table := fun _ e _ => R.legible e

/-- What is in the table later is in the table now. -/
theorem Holds.get?_of_later (h : Holds R server store key table) (hread : AllLegible R table)
    (hle : server ≤ t) (hlater : Holds R t store key table') (hread' : AllLegible R table')
    {id : Uuid} {e : Stored F} (he : table'.get? id = some e) : table.get? id = some e := by
  have hseen : hgetall t store key = hgetall server store key ∨ hgetall t store key = ∅ :=
    hgetall_later hle
  have hfield := hlater.get?_eq id
  rw [he, Option.map_some] at hfield
  rcases hseen with heq | heq
  · rw [heq, h.get?_eq, Option.map_eq_some_iff] at hfield
    obtain ⟨e', he', hval⟩ := hfield
    rw [he', (hread id e' he').eq_of_value (hread' id e he) hval]
  · rw [heq, OrdMap.get?_empty] at hfield
    cases hfield

/-- **What a write leaves**: a table, until its time to live has elapsed. -/
def Written (R : Format F) (server : ℕ) (key : String) (table : OrdMap Uuid (Stored F)) (ms : ℕ)
    (store : Store) : Prop :=
  ∀ {t}, server ≤ t → Holds R t store key (if t < server + ms then table else ∅)

theorem written_of_hset (h : Holds R server store key table) (id : Uuid) (e : Stored F) (ms : ℕ) :
    Written R server key (table.insert id e) ms
      (pexpire server (hset server store key (R.id id) (R.value e)) key ms) := by
  intro t _
  unfold Holds
  rw [hgetall_hset_pexpire]
  split
  · exact h.insert R.id_injective id e
  · exact OrdMap.Rekeyed.empty

/-! ## Releases and renewals -/

theorem holds_hdel (h : Holds R t store key table) (hle : server ≤ t) (id : Uuid) :
    Holds R t (hdel server store key (R.id id)) key (table.erase id) := by
  unfold Holds
  rw [hgetall_hdel_self hle]
  exact h.erase R.id_injective id

/-- **A renewal rewrites the expiry of a field that is there.** -/
theorem renewScript_spec (h : Holds R server store key table) (id : Uuid) {expiry : ℕ}
    (hexpiry : R.argument expiry = R.time expiry) (ms : ℕ) :
    (table.get? id = none ∧
        renewScript R server store key (R.id id) expiry ms = some (false, store)) ∨
      ∃ e store', table.get? id = some e ∧
        renewScript R server store key (R.id id) expiry ms = some (true, store') ∧
        Written R server key (table.insert id { e with expires := expiry }) ms store' := by
  have hfield : hget server store key (R.id id) = (table.get? id).map R.value := h.get?_eq id
  cases hget : table.get? id with
  | none =>
    left
    rw [hget, Option.map_none] at hfield
    simp only [renewScript, hfield, true_and]
  | some e =>
    right
    rw [hget, Option.map_some] at hfield
    refine ⟨e, _, rfl, ?_, written_of_hset h id { e with expires := expiry } ms⟩
    simp only [renewScript, hfield, splitValue_value, Option.map_some, hexpiry]
    rfl

/-- The same of the call. -/
theorem renew_spec {space : String} {c : Readings} {lease : Lease F}
    (h : Holds R (millis c.server) store (keyOf space lease.pool) table) (ttl : ℕ)
    (hexpiry : R.argument (saturatingAdd (nowMs c.read) (ttlMs ttl)) =
      R.time (saturatingAdd (nowMs c.read) (ttlMs ttl))) :
    (table.get? lease.id = none ∧ renew R space c store lease ttl = (.ok false, store)) ∨
      ∃ e store', table.get? lease.id = some e ∧
        renew R space c store lease ttl = (.ok true, store') ∧
        Written R (millis c.server) (keyOf space lease.pool)
          (table.insert lease.id
            { e with expires := saturatingAdd (nowMs c.read) (ttlMs ttl) })
          (saturatingAdd (ttlMs ttl) 1000) store' := by
  unfold renew
  rcases renewScript_spec h lease.id hexpiry (saturatingAdd (ttlMs ttl) 1000) with
    ⟨hnone, hr⟩ | ⟨e, store', he, hr, hwritten⟩
  · rw [hr]
    exact Or.inl ⟨hnone, rfl⟩
  · rw [hr]
    exact Or.inr ⟨e, store', he, rfl, hwritten⟩

end

/-! ## Other hashes -/

section

variable {F : Type} [Arith F] {R : Format F} {t server : ℕ} {store store' : Store}
variable {key key' : String}

/-- **A call leaves the hashes of other pools as they are.** -/
theorem reserveScript_other (hne : key' ≠ key) {now expiry : ℕ} {limit units scopeLimit : F}
    {lease scope : String} {b : Bool}
    (h : reserveScript R server store key now limit units lease expiry scope scopeLimit =
      some (b, store')) : hgetall t store' key' = hgetall t store key' := by
  have hscan : ∀ (es : List (String × String)) {acc acc' : Scan F},
      es.foldlM (scanEntry R server now key scope) acc = some acc' →
        hgetall t acc'.store key' = hgetall t acc.store key' := by
    intro es
    induction es with
    | nil =>
      intro acc acc' hfold
      cases hfold
      rfl
    | cons e es ih =>
      intro acc acc' hfold
      rw [List.foldlM_cons, Option.bind_eq_bind, Option.bind_eq_some_iff] at hfold
      obtain ⟨next, hnext, hfold⟩ := hfold
      rw [ih hfold]
      obtain ⟨x, -, rfl⟩ := Option.map_eq_some_iff.mp hnext
      split
      · exact hgetall_hdel_of_ne hne
      · rfl
  unfold reserveScript at h
  rw [Option.bind_eq_bind, Option.bind_eq_some_iff] at h
  obtain ⟨scan, hfold, h⟩ := h
  rw [← hscan _ hfold]
  split at h
  · cases h
    rfl
  · cases h
    exact hgetall_hset_pexpire_of_ne hne

@[inherit_doc reserveScript_other]
theorem reserveScoped_other {space pool : String} (hne : key' ≠ keyOf space pool) (c : Readings)
    (id : Uuid) (scope : String) (limit scopeLimit units : F) (ttl : ℕ) :
    hgetall t (reserveScoped R space c id store pool scope limit scopeLimit units ttl).2 key' =
      hgetall t store key' := by
  unfold reserveScoped
  split
  · rfl
  · split
    · rfl
    · rename_i hscript
      exact reserveScript_other hne hscript

@[inherit_doc reserveScript_other]
theorem reserve_other {space pool : String} (hne : key' ≠ keyOf space pool) (c : Readings)
    (id : Uuid) (limit units : F) (ttl : ℕ) :
    hgetall t (reserve R space c id store pool limit units ttl).2 key' = hgetall t store key' := by
  unfold reserve
  split
  · rfl
  · exact reserveScoped_other hne c id "" limit limit units ttl

omit [Arith F] in
@[inherit_doc reserveScript_other]
theorem renew_other {space : String} {lease : Lease F} (hne : key' ≠ keyOf space lease.pool)
    (c : Readings) (ttl : ℕ) :
    hgetall t (renew R space c store lease ttl).2 key' = hgetall t store key' := by
  unfold renew renewScript
  split
  · rfl
  · rename_i hscript
    split at hscript
    · cases hscript
      rfl
    · obtain ⟨parts, -, hparts⟩ := Option.map_eq_some_iff.mp hscript
      cases hparts
      exact hgetall_hset_pexpire_of_ne hne

end

/-! ## Reservations -/

section

variable {F : Type} {R : Format F} {t server now : ℕ} {store : Store} {key : String}
variable {table table' : OrdMap Uuid (Stored F)}

/-- What has not expired. -/
def purge (now : ℕ) (table : OrdMap Uuid (Stored F)) : OrdMap Uuid (Stored F) :=
  table.filter fun _ e => now < e.expires

theorem get?_purge {id : Uuid} {e : Stored F} :
    (purge now table).get? id = some e ↔ table.get? id = some e ∧ now < e.expires := by
  unfold purge
  rw [OrdMap.get?_filter, Option.filter_eq_some_iff]
  simp

theorem AllLegible.purge (h : AllLegible R table) : AllLegible R (purge now table) :=
  fun id e he => h id e (get?_purge.mp he).1

/-- What the loop counts of the fields, in the order it meets them. -/
def live (R : Format F) (now : ℕ) (es : List (String × String)) : List (Stored F) :=
  (es.filterMap fun e => R.read e.2).filter fun x => now < x.expires

/-- **The loop**, over values that can be read. -/
theorem foldlM_scanEntry [Arith F] (server now : ℕ) (key scope : String)
    (es : List (String × String)) (h : ∀ e ∈ es, ∃ x, R.read e.2 = some x) (acc : Scan F) :
    ∃ scan, es.foldlM (scanEntry R server now key scope) acc = some scan ∧
      scan.used = ((live R now es).map (·.amount)).foldl (· + ·) acc.used ∧
      scan.scopeUsed = (((live R now es).filter (·.scope = scope)).map (·.amount)).foldl (· + ·)
        acc.scopeUsed ∧
      scan.store = ((es.filter fun e => (R.read e.2).any fun x => x.expires ≤ now).map
        Prod.fst).foldl (hdel server · key ·) acc.store := by
  induction es generalizing acc with
  | nil => exact ⟨acc, rfl, rfl, rfl, rfl⟩
  | cons e es ih =>
    obtain ⟨x, hx⟩ := h e List.mem_cons_self
    have hes : ∀ e ∈ es, ∃ x, R.read e.2 = some x := fun e he => h e (List.mem_cons_of_mem _ he)
    have hlive : live R now (e :: es) = if now < x.expires then x :: live R now es else
        live R now es := by
      unfold live
      rw [List.filterMap_cons, hx, List.filter_cons]
      simp only [decide_eq_true_eq]
    by_cases hexpired : x.expires ≤ now
    · have hstep : scanEntry R server now key scope acc e =
          some { acc with store := hdel server acc.store key e.1 } := by
        simp only [scanEntry, hx, Option.map_some, if_pos hexpired]
      obtain ⟨scan, hscan, hused, hscope, hstore⟩ := ih hes { acc with
        store := hdel server acc.store key e.1 }
      rw [hlive, if_neg (by omega)]
      refine ⟨scan, ?_, hused, hscope, ?_⟩
      · rw [List.foldlM_cons, hstep]
        exact hscan
      · rw [hstore, List.filter_cons, hx]
        simp [hexpired]
    · have hstep : scanEntry R server now key scope acc e = some { acc with
          used := acc.used + x.amount
          scopeUsed := if x.scope = scope then acc.scopeUsed + x.amount else acc.scopeUsed } := by
        simp only [scanEntry, hx, Option.map_some, if_neg hexpired]
      obtain ⟨scan, hscan, hused, hscope, hstore⟩ := ih hes { acc with
        used := acc.used + x.amount
        scopeUsed := if x.scope = scope then acc.scopeUsed + x.amount else acc.scopeUsed }
      rw [hlive, if_pos (by omega)]
      refine ⟨scan, ?_, hused, ?_, ?_⟩
      · rw [List.foldlM_cons, hstep]
        exact hscan
      · rw [hscope, List.filter_cons]
        by_cases hin : x.scope = scope
        · simp [hin]
        · simp [hin]
      · rw [hstore, List.filter_cons, hx]
        simp [hexpired]

/-- Every value of a table can be read. -/
theorem Holds.read (h : Holds R server store key table) (hread : AllLegible R table)
    {e : String × String} (he : e ∈ (hgetall server store key).entries) :
    ∃ x, R.read e.2 = some x := by
  obtain ⟨⟨id, x⟩, hx, rfl⟩ := List.mem_map.mp ((h.entries_perm R.id_injective).mem_iff.mp he)
  exact ⟨x, (hread id x (OrdMap.get?_eq_some.mpr hx)).read_value⟩

/-- **What the loop counts is what has not expired.** -/
theorem Holds.live_perm (h : Holds R server store key table) (hread : AllLegible R table) :
    (live R now (hgetall server store key).entries).Perm (purge now table).values := by
  have hvalues : (table.entries.map fun e => (R.id e.1, R.value e.2)).filterMap
      (fun e => R.read e.2) = table.values := by
    have hentry : ∀ e ∈ table.entries, R.read (R.value e.2) = some e.2 :=
      fun e he => (hread e.1 e.2 (OrdMap.get?_eq_some.mpr he)).read_value
    rw [List.filterMap_map, OrdMap.values, ← List.filterMap_eq_map]
    exact List.filterMap_congr hentry
  unfold live purge
  rw [OrdMap.values_filter, ← hvalues]
  exact ((h.entries_perm R.id_injective).filterMap _).filter _

/-- **What the loop deletes**: at every later time, what has expired. -/
theorem Holds.scan (h : Holds R server store key table) (hread : AllLegible R table)
    (hle : server ≤ t) (hlater : Holds R t store key table') (hread' : AllLegible R table') :
    Holds R t ((((hgetall server store key).entries.filter fun e =>
      (R.read e.2).any fun x => x.expires ≤ now).map Prod.fst).foldl (hdel server · key ·) store)
      key (purge now table') := by
  have hmem : ∀ id, R.id id ∈ ((hgetall server store key).entries.filter fun e =>
      (R.read e.2).any fun x => x.expires ≤ now).map Prod.fst ↔
        ∃ x, table.get? id = some x ∧ x.expires ≤ now := by
    intro id
    rw [List.mem_map]
    constructor
    · rintro ⟨⟨field, value⟩, hmem, rfl⟩
      obtain ⟨hentry, hexpired⟩ := List.mem_filter.mp hmem
      have hget := OrdMap.get?_eq_some.mpr hentry
      rw [h.get?_eq, Option.map_eq_some_iff] at hget
      obtain ⟨x, hx, rfl⟩ := hget
      simp only [(hread id x hx).read_value, Option.any_some, decide_eq_true_eq] at hexpired
      exact ⟨x, hx, hexpired⟩
    · rintro ⟨x, hx, hexpired⟩
      refine ⟨(R.id id, R.value x), List.mem_filter.mpr ⟨?_, ?_⟩, rfl⟩
      · refine OrdMap.get?_eq_some.mp ?_
        rw [h.get?_eq, hx]
        rfl
      · simpa [(hread id x hx).read_value] using hexpired
  constructor
  · intro id
    rw [get?_hgetall_foldl_hdel _ hle, hlater.get?_eq, purge, OrdMap.get?_filter]
    cases hx : table'.get? id with
    | none => simp
    | some x =>
      have hnow := h.get?_of_later hread hle hlater hread' hx
      by_cases hexpired : x.expires ≤ now
      · rw [if_pos ((hmem id).mpr ⟨x, hnow, hexpired⟩), Option.filter_some]
        simp [hexpired]
      · have hnot : ¬ (∃ x, table.get? id = some x ∧ x.expires ≤ now) := by
          rintro ⟨x', hx', hexpired'⟩
          rw [hnow, Option.some.injEq] at hx'
          exact hexpired (hx' ▸ hexpired')
        rw [if_neg (mt (hmem id).mp hnot), Option.filter_some]
        simp [Nat.lt_of_not_le hexpired]
  · intro field value hget
    rw [get?_hgetall_foldl_hdel _ hle] at hget
    split at hget
    · cases hget
    · exact hlater.key hget

/-- What is in use, added up in this order, leaves too little. -/
def Exceeds [Arith F] (order : List (Stored F)) (scope : String) (limit scopeLimit units : F) :
    Prop :=
  limit < Arith.sum (order.map (·.amount)) + units ∨
    scopeLimit < Arith.sum ((order.filter (·.scope = scope)).map (·.amount)) + units

variable [Arith F]

/-- **The reservation script**: it purges the table, and adds the lease if
the units left suffice. -/
theorem reserveScript_spec (h : Holds R server store key table) (hread : AllLegible R table)
    (now : ℕ) (limit units : F) (id : Uuid) (expiry : ℕ) (scope : String) (scopeLimit : F) :
    ∃ order store', order.Perm (purge now table).values ∧
      ((Exceeds order scope limit scopeLimit units ∧
        reserveScript R server store key now limit units (R.id id) expiry scope scopeLimit =
          some (false, store') ∧
        ∀ {t table'}, server ≤ t → Holds R t store key table' → AllLegible R table' →
          Holds R t store' key (purge now table')) ∨
      (¬ Exceeds order scope limit scopeLimit units ∧
        reserveScript R server store key now limit units (R.id id) expiry scope scopeLimit =
          some (true, store') ∧
        Written R server key ((purge now table).insert id ⟨units, expiry, scope⟩)
          (max 1000 (expiry - now + 1000)) store')) := by
  obtain ⟨scan, hscan, hused, hscope, hstore⟩ := foldlM_scanEntry server now key scope
    (hgetall server store key).entries (fun e he => h.read hread he)
    ⟨store, Arith.lit 0, Arith.lit 0⟩
  have hpurged : ∀ {t table'}, server ≤ t → Holds R t store key table' → AllLegible R table' →
      Holds R t scan.store key (purge now table') := by
    intro t table' hle hlater hread'
    rw [hstore]
    exact h.scan hread hle hlater hread'
  unfold reserveScript
  rw [hscan]
  simp only [Option.bind_eq_bind, Option.bind_some, hused, hscope]
  by_cases hfull : Exceeds (live R now (hgetall server store key).entries) scope limit scopeLimit
      units
  · exact ⟨_, scan.store, h.live_perm hread, Or.inl ⟨hfull, if_pos hfull, hpurged⟩⟩
  · exact ⟨_, _, h.live_perm hread, Or.inr ⟨hfull, if_neg hfull,
      written_of_hset (hpurged le_rfl h hread) id ⟨units, expiry, scope⟩
        (max 1000 (expiry - now + 1000))⟩⟩

/-- **A reservation in a scope**: an invalid one changes nothing, a refused
one purges its hash, a granted one purges it and adds its lease. -/
theorem reserveScoped_spec {space pool : String} {c : Readings}
    (h : Holds R (millis c.server) store (keyOf space pool) table) (hread : AllLegible R table)
    (id : Uuid) (scope : String) (limit scopeLimit units : F) (ttl : ℕ) :
    (∃ e, InMemoryCoordinator.validateLimits limit scopeLimit units = .error e ∧
        reserveScoped R space c id store pool scope limit scopeLimit units ttl =
          (.error e, store)) ∨
      (InMemoryCoordinator.validateLimits limit scopeLimit units = .ok () ∧
        ∃ order store', order.Perm (purge (nowMs c.read) table).values ∧
        ((Exceeds order scope limit scopeLimit units ∧
          reserveScoped R space c id store pool scope limit scopeLimit units ttl =
            (.ok none, store') ∧
          ∀ {t table'}, millis c.server ≤ t → Holds R t store (keyOf space pool) table' →
            AllLegible R table' →
            Holds R t store' (keyOf space pool) (purge (nowMs c.read) table')) ∨
        (¬ Exceeds order scope limit scopeLimit units ∧
          reserveScoped R space c id store pool scope limit scopeLimit units ttl =
            (.ok (some ⟨id, pool, units, c.answered + ttl,
              if scope.isEmpty then none else some scope⟩), store') ∧
          Written R (millis c.server) (keyOf space pool)
            ((purge (nowMs c.read) table).insert id
              ⟨units, saturatingAdd (nowMs c.read) (ttlMs ttl), scope⟩)
            (max 1000 (saturatingAdd (nowMs c.read) (ttlMs ttl) - nowMs c.read + 1000))
            store'))) := by
  cases hvalid : InMemoryCoordinator.validateLimits limit scopeLimit units with
  | error e =>
    refine Or.inl ⟨e, rfl, ?_⟩
    rw [reserveScoped, hvalid]
  | ok =>
    obtain ⟨order, store', hperm, hscript⟩ := reserveScript_spec h hread (nowMs c.read) limit units
      id (saturatingAdd (nowMs c.read) (ttlMs ttl)) scope scopeLimit
    refine Or.inr ⟨rfl, order, store', hperm, ?_⟩
    rcases hscript with ⟨hfull, hr, hpurged⟩ | ⟨hroom, hr, hwritten⟩
    · left
      refine ⟨hfull, ?_, hpurged⟩
      simp only [reserveScoped, hvalid, hr, Bool.false_eq_true, if_false]
    · right
      refine ⟨hroom, ?_, hwritten⟩
      simp only [reserveScoped, hvalid, hr, if_true]

end

/-! ## Reservations in exact arithmetic -/

section

variable {R : Rendering ℚ} {now : ℕ} {store : Store} {table : OrdMap Uuid (Stored ℚ)}

/-- The units of a table. -/
def total (table : OrdMap Uuid (Stored ℚ)) : ℚ := table.sumOn fun _ e => e.amount

/-- The units of one scope. -/
def totalOf (scope : String) (table : OrdMap Uuid (Stored ℚ)) : ℚ :=
  table.sumOn fun _ e => if e.scope = scope then e.amount else 0

/-- Fewer entries have fewer units. -/
theorem total_filter_le (h : ∀ {id e}, table.get? id = some e → 0 ≤ e.amount)
    (p : Uuid → Stored ℚ → Bool) : total (table.filter p) ≤ total table :=
  OrdMap.sumOn_filter_le (fun _ he => h (OrdMap.get?_eq_some.mpr he)) p

theorem total_eq (table : OrdMap Uuid (Stored ℚ)) :
    total table = (table.values.map (·.amount)).sum := by
  unfold total OrdMap.sumOn OrdMap.values
  rw [List.map_map]
  rfl

/-- The units of a scope, as a sum over the entries of the scope. -/
theorem totalOf_eq (scope : String) (table : OrdMap Uuid (Stored ℚ)) :
    totalOf scope table = total (table.filter fun _ e => e.scope = scope) := by
  unfold totalOf total
  rw [OrdMap.sumOn_filter]
  simp only [decide_eq_true_eq]

/-- The units a reservation finds in use are too many. -/
def Full (now : ℕ) (table : OrdMap Uuid (Stored ℚ)) (scope : String) (limit scopeLimit units : ℚ) :
    Prop :=
  limit < total (purge now table) + units ∨ scopeLimit < totalOf scope (purge now table) + units

/-- The order of the fields does not matter. -/
theorem exceeds_iff_full {order : List (Stored ℚ)} (h : order.Perm (purge now table).values)
    {scope : String} {limit scopeLimit units : ℚ} :
    Exceeds order scope limit scopeLimit units ↔ Full now table scope limit scopeLimit units := by
  have hscope := ((h.filter (·.scope = scope)).map (·.amount)).sum_eq
  rw [← OrdMap.values_filter, ← total_eq, ← totalOf_eq] at hscope
  unfold Exceeds Full
  rw [Arith.sum_rat, Arith.sum_rat, hscope, (h.map (·.amount)).sum_eq, ← total_eq]

/-- `validate_limits`, where every number is finite. -/
theorem validateLimits_rat (limit scopeLimit units : ℚ) :
    InMemoryCoordinator.validateLimits limit scopeLimit units =
      if limit < 0 ∨ scopeLimit < 0 ∨ units < 0 then .error .invalidUnits else .ok () := by
  simp only [InMemoryCoordinator.validateLimits, Arith.isFinite, Arith.lit_rat, Bool.not_true,
    Bool.false_or, Bool.or_eq_true, decide_eq_true_eq, or_assoc]

@[inherit_doc reserveScoped_spec]
theorem reserveScoped_exact {space pool : String} {c : Readings}
    (h : Holds R (millis c.server) store (keyOf space pool) table) (id : Uuid) (scope : String)
    (limit scopeLimit units : ℚ) (ttl : ℕ) :
    (reserveScoped R space c id store pool scope limit scopeLimit units ttl =
        (.error .invalidUnits, store) ∧ (limit < 0 ∨ scopeLimit < 0 ∨ units < 0)) ∨
      (0 ≤ limit ∧ 0 ≤ scopeLimit ∧ 0 ≤ units ∧ ∃ store',
        (Full (nowMs c.read) table scope limit scopeLimit units ∧
          reserveScoped R space c id store pool scope limit scopeLimit units ttl =
            (.ok none, store') ∧
          ∀ {t : ℕ} {table' : OrdMap Uuid (Stored ℚ)}, millis c.server ≤ t →
            Holds R t store (keyOf space pool) table' →
            Holds R t store' (keyOf space pool) (purge (nowMs c.read) table')) ∨
        (¬ Full (nowMs c.read) table scope limit scopeLimit units ∧
          reserveScoped R space c id store pool scope limit scopeLimit units ttl =
            (.ok (some ⟨id, pool, units, c.answered + ttl,
              if scope.isEmpty then none else some scope⟩), store') ∧
          Written R (millis c.server) (keyOf space pool)
            ((purge (nowMs c.read) table).insert id
              ⟨units, saturatingAdd (nowMs c.read) (ttlMs ttl), scope⟩)
            (max 1000 (saturatingAdd (nowMs c.read) (ttlMs ttl) - nowMs c.read + 1000)) store')) := by
  rcases reserveScoped_spec h (R.allLegible table) id scope limit scopeLimit units ttl with
    ⟨e, hvalid, hr⟩ | ⟨hvalid, order, store', hperm, hscript⟩
  · rw [validateLimits_rat] at hvalid
    split at hvalid
    · rename_i hbad
      cases hvalid
      exact Or.inl ⟨hr, hbad⟩
    · cases hvalid
  · rw [validateLimits_rat] at hvalid
    split at hvalid
    · cases hvalid
    · rename_i hgood
      simp only [not_or, not_lt] at hgood
      refine Or.inr ⟨hgood.1, hgood.2.1, hgood.2.2, store', ?_⟩
      rw [exceeds_iff_full hperm] at hscript
      rcases hscript with ⟨hfull, hr, hpurged⟩ | hgranted
      · exact Or.inl ⟨hfull, hr, fun hle hlater => hpurged hle hlater (R.allLegible _)⟩
      · exact Or.inr hgranted

end

end ValkeyCoordinator

end InferQos
