import InferQos.Proxy.Replicas
/-!
# Leases kept alive

A streaming task renews its leases every `renewPeriod`, a third of their
time to live. What that buys is a statement about latencies. Two of them
matter to the capacity lease of a request: the time from its grant to the
first tick of the stream, in which falls the provider's time to its first
byte, and the time from a tick that is due to the renewal that answers it,
in which falls the client's time to take a chunk, since the task does not
renew while it sends.

A run is punctual if time does not pass beyond what the latencies allow.
`leases_kept_alive`: in a punctual run no lease in use ever expires, and so
the units in flight stay within the limit of their pool, if the larger of
the period and the first latency, and the second latency, together are less
than the time to live.
-/

namespace InferQos

namespace Proxy

open InMemoryCoordinator (LeaseState leasesOf Entry Call)
open Phase (renewPeriod)

/-! ## Expiry in the ledger -/

section Ledger

variable {all : LeaseState ℚ} {now ttl : ℕ} {pool : String} {id : Uuid} {e : Entry ℚ}

/-- **An entry after a call** was there before, or expires as the call sets
it. -/
theorem entry_after {c : Call ℚ}
    (h : (leasesOf (InMemoryCoordinator.apply all c).2 pool).get? id = some e) :
    (leasesOf all pool).get? id = some e ∨ ∃ ttl, ttl? c.op = some ttl ∧ e.expires = c.now + ttl := by
  obtain ⟨now, id', op⟩ := c
  have hretain : ∀ pool', (InMemoryCoordinator.retain now (leasesOf all pool')).get? id = some e →
      (leasesOf all pool').get? id = some e := by
    intro pool' h
    rw [InMemoryCoordinator.retain, OrdMap.get?_filter] at h
    exact (Option.filter_eq_some_iff.mp h).1
  -- the entries of one pool are replaced by those left and one more
  have hinsert : ∀ {pool' : String} {leases : InMemoryCoordinator.PoolLeases ℚ} {ttl : ℕ}
      {e' : Entry ℚ} {i : Uuid},
      (leases.get? id = some e → (leasesOf all pool').get? id = some e) →
      e'.expires = now + ttl →
      (leasesOf (all.insert pool' (leases.insert i e')) pool).get? id = some e →
      (leasesOf all pool).get? id = some e ∨ e.expires = now + ttl := by
    intro pool' leases ttl e' i hleft hexpires h
    rw [InMemoryCoordinator.leasesOf_insert] at h
    split at h
    · rename_i hp
      rcases OrdMap.get?_insert_eq_some.mp h with ⟨-, rfl⟩ | ⟨-, h⟩
      · exact Or.inr hexpires
      · exact Or.inl (hp ▸ hleft h)
    · exact Or.inl h
  have hpurged : ∀ {pool' : String}, (leasesOf (all.insert pool'
      (InMemoryCoordinator.retain now (leasesOf all pool'))) pool).get? id = some e →
      (leasesOf all pool).get? id = some e := by
    intro pool' h
    rw [InMemoryCoordinator.leasesOf_insert] at h
    split at h
    · rename_i hp
      exact hp ▸ hretain pool' h
    · exact h
  cases op with
  | reserve pool' limit units ttl =>
    change (leasesOf (InMemoryCoordinator.reserve now id' all pool' limit units ttl).2 pool).get? id =
      some e at h
    rcases InMemoryCoordinator.reserve_spec now id' all pool' limit units ttl with
      ⟨hr, -⟩ | ⟨-, -, ⟨hr, -⟩ | ⟨hr, -⟩⟩
    · rw [hr] at h
      exact Or.inl h
    · rw [hr] at h
      exact Or.inl (hpurged h)
    · rw [hr] at h
      exact (hinsert (hretain pool') rfl h).imp_right fun he => ⟨ttl, rfl, he⟩
  | reserveScoped pool' scope poolLimit scopeLimit units ttl =>
    change (leasesOf (InMemoryCoordinator.reserveScoped now id' all pool' scope poolLimit scopeLimit
      units ttl).2 pool).get? id = some e at h
    rcases InMemoryCoordinator.reserveScoped_spec now id' all pool' scope poolLimit scopeLimit units
      ttl with ⟨hr, -⟩ | ⟨-, -, ⟨hr, -⟩ | ⟨hr, -⟩⟩
    · rw [hr] at h
      exact Or.inl h
    · rw [hr] at h
      exact Or.inl (hpurged h)
    · rw [hr] at h
      exact (hinsert (hretain pool') rfl h).imp_right fun he => ⟨ttl, rfl, he⟩
  | release lease =>
    change (leasesOf (InMemoryCoordinator.release all lease) pool).get? id = some e at h
    rw [InMemoryCoordinator.leasesOf_release] at h
    split at h
    · exact Or.inl (OrdMap.get?_erase_eq_some.mp h).2
    · exact Or.inl h
  | renew lease ttl =>
    change (leasesOf (InMemoryCoordinator.renew now all lease ttl).2 pool).get? id = some e at h
    rcases InMemoryCoordinator.renew_spec now all lease ttl with ⟨hr, -⟩ | ⟨old, -, hr⟩
    · rw [hr] at h
      exact Or.inl h
    · rw [hr] at h
      exact (hinsert (fun h => h) rfl h).imp_right fun he => ⟨ttl, rfl, he⟩

/-- A renewal of a stored lease. -/
theorem entry_renewed {lease : Lease ℚ} (h : (leasesOf all lease.pool).get? lease.id = some e) :
    (leasesOf (InMemoryCoordinator.renew now all lease ttl).2 lease.pool).get? lease.id =
      some { e with expires := now + ttl } := by
  rcases InMemoryCoordinator.renew_spec now all lease ttl with ⟨-, hnone⟩ | ⟨old, hold, hr⟩
  · rw [h] at hnone
    cases hnone
  · rw [h] at hold
    cases hold
    rw [hr, InMemoryCoordinator.leasesOf_insert, if_pos rfl]
    exact OrdMap.get?_insert_self

/-- **No entry outlasts a lease granted now.** -/
def Recent (ttl now : ℕ) (all : LeaseState ℚ) : Prop :=
  ∀ pool id e, (leasesOf all pool).get? id = some e → e.expires ≤ now + ttl

end Ledger

/-! ## Punctual runs -/

variable {F σ : Type}

/-- **How late the tasks of a run may be.** -/
structure Latency where
  /-- From the grant of a capacity lease to the first tick of the stream, or
  to the end of the guard. -/
  opening : ℕ
  /-- From a tick that is due to the renewal of the capacity lease. -/
  renewal : ℕ

/-- How long a task may stay with a lease that it uses: counted from the
grant, or from the tick it has to answer. -/
def Latency.limit (lat : Latency) (ttl : ℕ) (lease : Lease F) : Option ℕ → ℕ
  | none => lease.expiresAt - ttl + lat.opening
  | some tick => tick + lat.renewal

namespace Phase

/-- **The tick that a streaming task has still to answer.** The capacity
lease is the first that it renews. -/
def owed (period : ℕ) : Phase F → Option ℕ
  | streaming _ (some _) _ due (.renewing [_, _, _]) => some (due - period)
  | streaming _ (some _) _ due _ => some due
  | _ => none

/-- The time by which a handler with a lease in use has gone on. -/
def latest (P : Params F σ) (lat : Latency) (phase : Phase F) : Option ℕ :=
  phase.live.map fun lease => lat.limit P.leaseTtl lease (phase.owed (renewPeriod P.leaseTtl))

end Phase

/-- The time by which the dispatcher has. -/
def DispatchPhase.latest (P : Params F σ) (lat : Latency) (d : DispatchPhase F) : Option ℕ :=
  d.live.map fun lease => lat.limit P.leaseTtl lease none

/-- **Time passes only as far as every task allows.** -/
def System.punctual (P : Params F σ) (lat : Latency) (s : System F σ) : Action F → Bool
  | .advance d =>
    (s.handlers.values.filterMap (Phase.latest P lat) ++ (s.dispatcher.latest P lat).toList).all
      fun latest => s.now + d ≤ latest
  | _ => true

/-! ## What a lease in use has left -/

/-- A lease that was granted and has not been renewed. -/
structure Granted (P : Params F σ) (lat : Latency) (now : ℕ) (lease : Lease F) (e : Entry F) :
    Prop where
  since : P.leaseTtl ≤ lease.expiresAt
  moving : now + P.leaseTtl ≤ lease.expiresAt + lat.opening
  entry : lease.expiresAt ≤ e.expires

/-- A lease that is renewed, up to the tick that is owed. -/
structure Renewed (P : Params F σ) (lat : Latency) (now tick : ℕ) (e : Entry F) : Prop where
  served : now ≤ tick + lat.renewal
  entry : tick + P.leaseTtl ≤ e.expires + max (renewPeriod P.leaseTtl) lat.opening

/-- **A lease in use is ahead of the clock.** -/
def Ahead (P : Params F σ) (lat : Latency) (now : ℕ) (lease : Lease F) (e : Entry F) :
    Option ℕ → Prop
  | none => Granted P lat now lease e
  | some tick => Renewed P lat now tick e

/-- A task in a round of renewals has begun it after its tick. -/
def Phase.InRound (period now : ℕ) : Phase F → Prop
  | streaming _ leases _ due (.renewing rest) =>
    ∃ l, leases = some l ∧ rest <:+ l.renewOrder ∧ period ≤ due ∧ due ≤ now + period
  | _ => True

theorem Phase.InRound.mono {period now later : ℕ} {phase : Phase F} (h : phase.InRound period now)
    (hle : now ≤ later) : phase.InRound period later := by
  cases phase with
  | streaming job leases throttled due stage =>
    cases stage with
    | renewing rest =>
      obtain ⟨l, hl, hsuffix, hperiod, hdue⟩ := h
      exact ⟨l, hl, hsuffix, hperiod, hdue.trans (Nat.add_le_add_right hle _)⟩
    | _ => trivial
  | _ => trivial

section Ahead

variable {P : Params F σ} {lat : Latency} {now : ℕ} {lease : Lease F} {e e' : Entry F}
variable {owed : Option ℕ}

/-- **The margin**: what is ahead of the clock has not expired. -/
theorem Ahead.lt_expires (h : Ahead P lat now lease e owed)
    (hlat : max (renewPeriod P.leaseTtl) lat.opening + lat.renewal < P.leaseTtl) :
    now < e.expires := by
  cases owed with
  | none =>
    have hopening : lat.opening ≤ max (renewPeriod P.leaseTtl) lat.opening := le_max_right _ _
    have hmoving := h.moving
    have hentry := h.entry
    omega
  | some tick =>
    have hserved := h.served
    have hentry := h.entry
    omega

theorem Ahead.mono (h : Ahead P lat now lease e owed) (hle : e.expires ≤ e'.expires) :
    Ahead P lat now lease e' owed := by
  cases owed with
  | none => exact ⟨h.since, h.moving, h.entry.trans hle⟩
  | some tick => exact ⟨h.served, h.entry.trans (Nat.add_le_add_right hle _)⟩

/-- Time passes, as far as the task allows. -/
theorem Ahead.advance {later : ℕ} (h : Ahead P lat now lease e owed)
    (hle : later ≤ lat.limit P.leaseTtl lease owed) : Ahead P lat later lease e owed := by
  cases owed with
  | none =>
    have hsince := h.since
    refine ⟨hsince, ?_, h.entry⟩
    simp only [Latency.limit] at hle
    omega
  | some tick => exact ⟨hle, h.entry⟩

/-- A lease just granted. -/
theorem Ahead.granted (hlease : lease.expiresAt = now + P.leaseTtl)
    (he : e.expires = now + P.leaseTtl) : Ahead P lat now lease e none := by
  refine ⟨?_, ?_, ?_⟩
  · omega
  · omega
  · omega

/-- The stream begins, and its first tick is due at once. -/
theorem Ahead.stream (h : Ahead P lat now lease e none) : Ahead P lat now lease e (some now) := by
  have hopening : lat.opening ≤ max (renewPeriod P.leaseTtl) lat.opening := le_max_right _ _
  have hmoving := h.moving
  have hentry := h.entry
  refine ⟨?_, ?_⟩
  · omega
  · omega

/-- A renewal answers the tick that is owed, and the next is owed. -/
theorem Ahead.renew {tick : ℕ} (h : Ahead P lat now lease e (some tick)) (hdue : tick ≤ now)
    (he : e'.expires = now + P.leaseTtl) :
    Ahead P lat now lease e' (some (tick + renewPeriod P.leaseTtl)) := by
  have hperiod : renewPeriod P.leaseTtl ≤ max (renewPeriod P.leaseTtl) lat.opening :=
    le_max_left _ _
  have hserved := h.served
  refine ⟨?_, ?_⟩
  · omega
  · omega

end Ahead

section Moves

/-- What is left of three, one at least. -/
theorem suffix_three {α : Type} {a b c x : α} {rest : List α} (h : x :: rest <:+ [a, b, c]) :
    x = a ∧ rest = [b, c] ∨ x = b ∧ rest = [c] ∨ x = c ∧ rest = [] := by
  simp only [List.suffix_cons_iff, List.suffix_nil, List.cons.injEq, reduceCtorEq, or_false] at h
  exact h

variable {P : Params ℚ (LeaseState ℚ)} {s : System ℚ (LeaseState ℚ)} {n : ℕ} {lease : Lease ℚ}

/-- A lease is granted by a step that leaves this ledger. -/
def JustGranted (P : Params ℚ (LeaseState ℚ)) (now : ℕ) (all : LeaseState ℚ) (lease : Lease ℚ) :
    Prop :=
  lease.expiresAt = now + P.leaseTtl ∧
    ∃ e, (leasesOf all lease.pool).get? lease.id = some e ∧ e.expires = now + P.leaseTtl

/-- **A lease in use after a reservation's step** was granted before it, or
is granted now. -/
theorem ReservePhase.justGranted_step {a : Attempt ℚ} {env : Ambient} {pending : List String}
    {all : LeaseState ℚ} {at_ : ReservePhase ℚ} (ha : a.leaseTtl = P.leaseTtl)
    (h : (at_.step InMemoryCoordinator.coordinator a env pending all).1.live = some lease) :
    at_.live = some lease ∨
      JustGranted P env.now (at_.step InMemoryCoordinator.coordinator a env pending all).2 lease := by
  revert h
  fun_cases ReservePhase.step InMemoryCoordinator.coordinator a env pending all at_
  all_goals intro h
  all_goals first
    | cases h
    | skip
  · rename_i tenantLimit lease all' hr
    change InMemoryCoordinator.reserveScoped env.now env.id all a.request.pool
      a.request.identity.tenant a.poolLimit tenantLimit a.charged a.leaseTtl = _ at hr
    rcases InMemoryCoordinator.reserveScoped_spec env.now env.id all a.request.pool
      a.request.identity.tenant a.poolLimit tenantLimit a.charged a.leaseTtl with
      ⟨hr', -⟩ | ⟨-, -, ⟨hr', -⟩ | ⟨hr', -⟩⟩
    · rw [hr] at hr'
      cases hr'
    · rw [hr] at hr'
      cases hr'
    · rw [hr] at hr'
      cases hr'
      refine Or.inr ⟨congrArg (env.now + ·) ha,
        ⟨a.charged, env.now + a.leaseTtl, some a.request.identity.tenant⟩, ?_,
        congrArg (env.now + ·) ha⟩
      rw [InMemoryCoordinator.leasesOf_insert, if_pos rfl]
      exact OrdMap.get?_insert_self
  · exact Or.inl h

theorem attempt_ttl {request : AdmissionRequest ℚ} {config : Config ℚ} {charged : ℚ} {a : Attempt ℚ}
    (h : s.attempt P request config charged = some a) : a.leaseTtl = P.leaseTtl := by
  obtain ⟨rt, -, rfl⟩ := Option.map_eq_some_iff.mp h
  rfl

theorem Phase.owed_afterReserve (period : ℕ) (job : Job ℚ) (charged : ℚ) (at_ : ReservePhase ℚ) :
    (afterReserve job charged at_).owed period = none := by
  unfold afterReserve
  split <;> rfl

theorem Phase.inRound_afterReserve {period now : ℕ} (job : Job ℚ) (charged : ℚ)
    (at_ : ReservePhase ℚ) : (afterReserve job charged at_).InRound period now := by
  unfold afterReserve
  split <;> trivial

theorem Phase.inRound_afterLeave {period now : ℕ} (job : Job ℚ) (error : Option CoordinatorError) :
    (afterLeave job error).InRound period now := by
  cases error <;> trivial

/-- The lease of a task goes on with the tick it owed, or the tick is the
first, or it is answered. -/
inductive Turn (P : Params ℚ (LeaseState ℚ)) (s : System ℚ (LeaseState ℚ)) (lease : Lease ℚ)
    (all : LeaseState ℚ) : Option ℕ → Option ℕ → Prop
  | same {owed : Option ℕ} : Turn P s lease all owed owed
  | stream : Turn P s lease all none (some s.now)
  | renew {tick : ℕ} : tick ≤ s.now →
      all = (InMemoryCoordinator.renew s.now s.coordinator lease P.leaseTtl).2 →
      Turn P s lease all (some tick) (some (tick + renewPeriod P.leaseTtl))

/-- **The lease a handler uses after its step.** -/
theorem Phase.move_turn (hP : P.coordinator = InMemoryCoordinator.coordinator) {phase : Phase ℚ}
    {choice : Choice ℚ} {m : Move ℚ (LeaseState ℚ) (Phase ℚ)}
    (hround : phase.InRound (renewPeriod P.leaseTtl) s.now)
    (hm : phase.move P s n choice = some m) (hl : m.next.live = some lease) :
    (m.next.owed (renewPeriod P.leaseTtl) = none ∧
        JustGranted P s.now (m.effect.apply P (s.bump m.counter)).coordinator lease) ∨
      (phase.live = some lease ∧
        Turn P s lease (m.effect.apply P (s.bump m.counter)).coordinator
          (phase.owed (renewPeriod P.leaseTtl)) (m.next.owed (renewPeriod P.leaseTtl))) := by
  revert hm
  fun_cases Phase.move P s n phase choice <;> intro hm <;> cases hm
  all_goals first
    | exact Or.inr ⟨hl, .same⟩
    | (cases hl; done)
    | skip
  · -- the reservation
    rename_i job charged at_ a ha r
    have hmemory : r = at_.step InMemoryCoordinator.coordinator a s.ambient s.pendingTenants
        s.coordinator := by
      rw [← hP]
    have hlive : r.1.live = some lease := (live_afterReserve job charged r.1).symm.trans hl
    rw [hmemory] at hlive
    have hstep := ReservePhase.justGranted_step (attempt_ttl ha) hlive
    change (owed _ (afterReserve job charged r.1) = none ∧ JustGranted P s.now r.2 lease) ∨
      at_.live = some lease ∧ Turn P s lease r.2 none (owed _ (afterReserve job charged r.1))
    rw [owed_afterReserve, hmemory]
    rcases hstep with hold | hnew
    · exact Or.inr ⟨hold, .same⟩
    · exact Or.inl ⟨rfl, hnew⟩
  · rename_i job error
    exact absurd ((live_afterLeave job error).symm.trans hl) (Option.some_ne_none lease).symm
  · obtain ⟨l, rfl, -⟩ := Option.map_eq_some_iff.mp hl
    exact Or.inr ⟨hl, .stream⟩
  · obtain ⟨l, rfl, -⟩ := Option.map_eq_some_iff.mp hl
    exact Or.inr ⟨hl, .same⟩
  · obtain ⟨l, rfl, -⟩ := Option.map_eq_some_iff.mp hl
    exact Or.inr ⟨hl, .same⟩
  · -- the tick: the one that was due is owed now
    rename_i job l throttled due hdue
    refine Or.inr ⟨hl, ?_⟩
    change Turn P s lease _ (some due) (some (due + renewPeriod P.leaseTtl - renewPeriod P.leaseTtl))
    rw [Nat.add_sub_cancel]
    exact .same
  · obtain ⟨l, rfl, -⟩ := Option.map_eq_some_iff.mp hl
    exact Or.inr ⟨hl, .same⟩
  · -- a renewal: of the capacity lease, or of one after it
    rename_i job leases throttled due r rest
    obtain ⟨l, rfl, hsuffix, hperiod, hdue⟩ := hround
    refine Or.inr ⟨hl, ?_⟩
    rcases suffix_three hsuffix with ⟨rfl, rfl⟩ | ⟨rfl, rfl⟩ | ⟨rfl, rfl⟩
    · cases hl
      have htick : due - renewPeriod P.leaseTtl ≤ s.now := by omega
      have hcall : (P.coordinator.renew s.ambient s.coordinator l.capacity P.leaseTtl).2 =
          (InMemoryCoordinator.renew s.now s.coordinator l.capacity P.leaseTtl).2 := by
        rw [hP]
        rfl
      have hturn := Turn.renew (P := P) htick hcall
      rwa [Nat.sub_add_cancel hperiod] at hturn
    · exact .same
    · exact .same

/-- **A step of a handler keeps it in its round.** -/
theorem Phase.InRound.move {phase : Phase ℚ} {choice : Choice ℚ}
    {m : Move ℚ (LeaseState ℚ) (Phase ℚ)} (h : phase.InRound (renewPeriod P.leaseTtl) s.now)
    (hm : phase.move P s n choice = some m) :
    m.next.InRound (renewPeriod P.leaseTtl) s.now := by
  revert hm
  fun_cases Phase.move P s n phase choice <;> intro hm <;> cases hm
  all_goals first
    | exact h
    | trivial
    | skip
  · exact inRound_afterReserve _ _ _
  · exact inRound_afterLeave _ _
  · rename_i job l throttled due hdue
    refine ⟨l, rfl, List.suffix_rfl, Nat.le_add_left _ _, Nat.add_le_add_right hdue _⟩
  · obtain ⟨l, hl, hsuffix, hbounds⟩ := h
    exact ⟨l, hl, (List.suffix_cons _ _).trans hsuffix, hbounds⟩

/-- **The lease the dispatcher uses after its step.** -/
theorem DispatchPhase.move_granted (hP : P.coordinator = InMemoryCoordinator.coordinator)
    {d : DispatchPhase ℚ} {m : Move ℚ (LeaseState ℚ) (DispatchPhase ℚ)} (hm : d.move P s = some m)
    (hl : m.next.live = some lease) :
    d.live = some lease ∨
      JustGranted P s.now (m.effect.apply P (s.bump m.counter)).coordinator lease := by
  revert hm
  fun_cases DispatchPhase.move P s d <;> intro hm <;> cases hm
  all_goals first
    | exact Or.inl hl
    | cases hl
    | cases (live_afterPop _).symm.trans hl
    | cases (live_afterLeave _ _).symm.trans hl
    | skip
  rename_i req p config charged at_ a ha r
  have hmemory : r = at_.step InMemoryCoordinator.coordinator a s.ambient s.pendingTenants
      s.coordinator := by
    rw [← hP]
  have hlive : r.1.live = some lease := (live_afterReserve req p config charged r.1).symm.trans hl
  rw [hmemory] at hlive
  change at_.live = some lease ∨ JustGranted P s.now r.2 lease
  rw [hmemory]
  exact ReservePhase.justGranted_step (attempt_ttl ha) hlive

/-- What is delivered is used without a tick. -/
theorem Phase.receive_owed {phase phase' : Phase ℚ} {l : AdmissionLeases ℚ}
    (h : phase.receive l = some phase') (period : ℕ) : phase'.owed period = none := by
  revert h
  fun_cases Phase.receive l phase <;> intro h <;> cases h
  · rfl
  · rfl

theorem Phase.receive_inRound {phase phase' : Phase ℚ} {l : AdmissionLeases ℚ}
    (h : phase.receive l = some phase') (period now : ℕ) : phase'.InRound period now := by
  revert h
  fun_cases Phase.receive l phase <;> intro h <;> cases h
  · trivial
  · trivial

end Moves

/-! ## Every state of a run -/

section Runs

variable {P : Params ℚ (LeaseState ℚ)} {s t : System ℚ (LeaseState ℚ)} {n : ℕ} {lease : Lease ℚ}
variable {lat : Latency} {owed : Option ℕ} {a : Action ℚ}

/-- A lease has an entry that is ahead of the clock. -/
def System.Keeps (P : Params ℚ (LeaseState ℚ)) (lat : Latency) (s : System ℚ (LeaseState ℚ))
    (lease : Lease ℚ) (owed : Option ℕ) : Prop :=
  ∃ e, (leasesOf s.coordinator lease.pool).get? lease.id = some e ∧ Ahead P lat s.now lease e owed

/-- **Every lease in use is ahead of the clock.** -/
structure Alive (P : Params ℚ (LeaseState ℚ)) (lat : Latency) (s : System ℚ (LeaseState ℚ)) :
    Prop where
  bound : PoolBound s
  recent : Recent P.leaseTtl s.now s.coordinator
  round : ∀ n phase, s.handlers.get? n = some phase →
    phase.InRound (renewPeriod P.leaseTtl) s.now
  handler : ∀ n phase lease, s.handlers.get? n = some phase → phase.live = some lease →
    s.Keeps P lat lease (phase.owed (renewPeriod P.leaseTtl))
  dispatcher : ∀ lease, s.dispatcher.live = some lease → s.Keeps P lat lease none

namespace Alive

theorem keeps (h : Alive P lat s) (hl : lease ∈ s.live) : ∃ owed, s.Keeps P lat lease owed := by
  rcases mem_live.mp hl with ⟨n, phase, hn, hl⟩ | hl
  · exact ⟨_, h.handler n phase lease hn hl⟩
  · exact ⟨_, h.dispatcher lease hl⟩

/-- **No lease in use has expired.** -/
theorem unexpired (h : Alive P lat s)
    (hlat : max (renewPeriod P.leaseTtl) lat.opening + lat.renewal < P.leaseTtl)
    (hl : lease ∈ s.live) :
    ∃ e, (leasesOf s.coordinator lease.pool).get? lease.id = some e ∧ s.now < e.expires := by
  obtain ⟨owed, e, he, hahead⟩ := h.keeps hl
  exact ⟨e, he, hahead.lt_expires hlat⟩

/-- So a reservation finds none that has. -/
theorem noneExpired (h : Alive P lat s)
    (hlat : max (renewPeriod P.leaseTtl) lat.opening + lat.renewal < P.leaseTtl) (a : Action ℚ) :
    noneExpired P s a = true := by
  unfold Proxy.noneExpired
  rw [Option.all_eq_true]
  intro key _
  refine List.all_eq_true.mpr fun lease hl => ?_
  obtain ⟨e, he, hlt⟩ := h.unexpired hlat hl
  by_cases hkey : lease.pool = key
  · subst hkey
    simp [he, hlt]
  · simp [hkey]

/-- The ledger after a step is the one its call leaves. -/
theorem ledger_step (hP : P.coordinator = InMemoryCoordinator.coordinator)
    (hs : step P s a = some t) :
    t.coordinator = s.coordinator ∨ ∃ op, (∀ ttl, ttl? op = some ttl → ttl = P.leaseTtl) ∧
      t.coordinator = (InMemoryCoordinator.apply s.coordinator ⟨s.now, s.nextId, op⟩).2 := by
  have hcalled := (step_onto (D := P.coordinator) (b := s.coordinator) hs fun _ _ => rfl).2
  cases hop : s.op? P a with
  | none =>
    rw [hop] at hcalled
    exact Or.inl hcalled
  | some op =>
    refine Or.inr ⟨op, fun ttl => System.ttl_of_op? hop, ?_⟩
    rw [hcalled, hop, hP]
    cases op <;> rfl

/-- **An entry after a step** was there before, or lasts as long as one
can. -/
theorem entry_step (hP : P.coordinator = InMemoryCoordinator.coordinator)
    (hs : step P s a = some t) {pool : String} {id : Uuid} {e : Entry ℚ}
    (he : (leasesOf t.coordinator pool).get? id = some e) :
    (leasesOf s.coordinator pool).get? id = some e ∨ e.expires = s.now + P.leaseTtl := by
  rcases ledger_step hP hs with hsame | ⟨op, httl, happly⟩
  · rw [hsame] at he
    exact Or.inl he
  · rw [happly] at he
    refine (entry_after he).imp_right ?_
    rintro ⟨ttl, hop, hexpires⟩
    rw [hexpires, httl ttl hop]

/-- A lease that stays in use keeps what it had. -/
theorem carry (h : Alive P lat s) (hP : P.coordinator = InMemoryCoordinator.coordinator)
    (hs : step P s a = some t) (hnow : t.now = s.now) (ht : PoolBound t) (hl : lease ∈ t.live)
    (hkeeps : s.Keeps P lat lease owed) : t.Keeps P lat lease owed := by
  obtain ⟨e, he, hahead⟩ := hkeeps
  obtain ⟨e', he', -, -⟩ := ht.stored lease hl
  refine ⟨e', he', hnow ▸ hahead.mono ?_⟩
  rcases entry_step hP hs he' with hold | hnew
  · rw [he] at hold
    cases hold
    exact le_rfl
  · rw [hnew]
    exact h.recent _ _ e he

theorem granted (hnow : t.now = s.now) (hgranted : JustGranted P s.now t.coordinator lease) :
    t.Keeps P lat lease none := by
  obtain ⟨hlease, e, he, hexpires⟩ := hgranted
  exact ⟨e, he, hnow ▸ Ahead.granted hlease hexpires⟩

/-- **A turn keeps the lease.** -/
theorem turn (h : Alive P lat s) (hP : P.coordinator = InMemoryCoordinator.coordinator)
    (hs : Proxy.step P s a = some t) (hnow : t.now = s.now) (ht : PoolBound t)
    (hl : lease ∈ t.live) {owed' : Option ℕ} (hturn : Turn P s lease t.coordinator owed owed')
    (hkeeps : s.Keeps P lat lease owed) : t.Keeps P lat lease owed' := by
  cases hturn with
  | same => exact h.carry hP hs hnow ht hl hkeeps
  | stream =>
    obtain ⟨e, he, hahead⟩ := h.carry hP hs hnow ht hl hkeeps
    exact ⟨e, he, hnow ▸ hahead.stream⟩
  | renew hdue hcall =>
    obtain ⟨e, he, hahead⟩ := hkeeps
    have hrenewed : (leasesOf t.coordinator lease.pool).get? lease.id =
        some { e with expires := s.now + P.leaseTtl } := by
      rw [hcall]
      exact entry_renewed he
    refine ⟨_, hrenewed, ?_⟩
    rw [hnow]
    exact hahead.renew hdue rfl

theorem recent_step (h : Alive P lat s) (hP : P.coordinator = InMemoryCoordinator.coordinator)
    (hs : Proxy.step P s a = some t) (hnow : s.now ≤ t.now) :
    Recent P.leaseTtl t.now t.coordinator := by
  intro pool id e he
  rcases entry_step hP hs he with hold | hnew
  · exact (h.recent pool id e hold).trans (Nat.add_le_add_right hnow _)
  · rw [hnew]
    exact Nat.add_le_add_right hnow _

/-- A step that moves no task and no clock. -/
theorem of_same (h : Alive P lat s) (hP : P.coordinator = InMemoryCoordinator.coordinator)
    (hs : Proxy.step P s a = some t) (ht : PoolBound t) (hnow : t.now = s.now)
    (hhandlers : t.handlers = s.handlers) (hdispatcher : t.dispatcher = s.dispatcher) :
    Alive P lat t where
  bound := ht
  recent := h.recent_step hP hs hnow.ge
  round n phase hn := by
    rw [hnow]
    exact h.round n phase (hhandlers ▸ hn)
  handler n phase lease hn hl :=
    h.carry hP hs hnow ht (mem_live.mpr (Or.inl ⟨n, phase, hn, hl⟩))
      (h.handler n phase lease (hhandlers ▸ hn) hl)
  dispatcher lease hl :=
    h.carry hP hs hnow ht (mem_live.mpr (Or.inr hl)) (h.dispatcher lease (hdispatcher ▸ hl))

/-- Time passes, as far as every task allows. -/
theorem advance (h : Alive P lat s) {d : ℕ} (hok : s.punctual P lat (.advance d) = true)
    (ht : PoolBound { s with now := s.now + d }) : Alive P lat { s with now := s.now + d } := by
  have hall := List.all_eq_true.mp hok
  refine ⟨ht, fun pool id e he => ?_, fun n phase hn => ?_, fun n phase lease hn hl => ?_,
    fun lease hl => ?_⟩
  · have hle : s.now ≤ s.now + d := Nat.le_add_right _ _
    exact (h.recent pool id e he).trans (Nat.add_le_add_right hle _)
  · exact (h.round n phase hn).mono (Nat.le_add_right _ _)
  · obtain ⟨e, he, hahead⟩ := h.handler n phase lease hn hl
    have hlatest : lat.limit P.leaseTtl lease (phase.owed (renewPeriod P.leaseTtl)) ∈
        s.handlers.values.filterMap (Phase.latest P lat) :=
      List.mem_filterMap.mpr ⟨phase, OrdMap.mem_values.mpr ⟨n, hn⟩, by rw [Phase.latest, hl]; rfl⟩
    exact ⟨e, he, hahead.advance
      (of_decide_eq_true (hall _ (List.mem_append_left _ hlatest)))⟩
  · obtain ⟨e, he, hahead⟩ := h.dispatcher lease hl
    have hlatest : lat.limit P.leaseTtl lease none ∈ (s.dispatcher.latest P lat).toList := by
      rw [DispatchPhase.latest, hl]
      exact List.mem_singleton_self _
    exact ⟨e, he, hahead.advance
      (of_decide_eq_true (hall _ (List.mem_append_right _ hlatest)))⟩

/-- **Every punctual step keeps the leases alive.** -/
theorem step (h : Alive P lat s)
    (hlat : max (renewPeriod P.leaseTtl) lat.opening + lat.renewal < P.leaseTtl)
    (hP : P.coordinator = InMemoryCoordinator.coordinator) (hok : s.punctual P lat a = true)
    (hs : Proxy.step P s a = some t) : Alive P lat t := by
  have ht : PoolBound t := h.bound.step hP (h.noneExpired hlat a) hs
  have hstepped := stepped hs
  cases hstepped with
  | arrive =>
    refine ⟨ht, h.recent, fun n phase hn => ?_, fun n phase lease hn hl => ?_, fun lease hl => ?_⟩
    · rcases System.goto_get? hn with ⟨-, rfl⟩ | ⟨-, hn⟩
      · cases s.draining <;> trivial
      · exact h.round n phase hn
    · rcases System.goto_get? hn with ⟨-, rfl⟩ | ⟨-, hn⟩
      · revert hl
        cases s.draining <;> intro hl <;> cases hl
      · exact h.handler n phase lease hn hl
    · exact h.dispatcher lease hl
  | @handler n choice phase m hphase hm =>
    have hnow : (m.effect.apply P (s.bump m.counter)).now = s.now := by cases m.effect <;> rfl
    have hhandlers : (m.effect.apply P (s.bump m.counter)).handlers = s.handlers :=
      Effect.apply_handlers (Phase.move_not_deliver hm)
    have hround := h.round n phase hphase
    refine ⟨ht, h.recent_step hP hs hnow.ge, fun n' phase' hn => ?_, fun n' phase' lease hn hl => ?_,
      fun lease hl => ?_⟩
    · change phase'.InRound _ (m.effect.apply P (s.bump m.counter)).now
      rw [hnow]
      rcases System.goto_get? hn with ⟨-, rfl⟩ | ⟨-, hn⟩
      · exact hround.move hm
      · exact h.round n' phase' (hhandlers ▸ hn)
    · have hlive := mem_live.mpr (Or.inl ⟨n', phase', hn, hl⟩)
      rcases System.goto_get? hn with ⟨-, rfl⟩ | ⟨-, hn⟩
      · rcases Phase.move_turn hP hround hm hl with ⟨howed, hgranted⟩ | ⟨hold, hturn⟩
        · rw [howed]
          exact granted hnow hgranted
        · exact h.turn hP hs hnow ht hlive hturn (h.handler n phase lease hphase hold)
      · exact h.carry hP hs hnow ht hlive (h.handler n' phase' lease (hhandlers ▸ hn) hl)
    · have hdispatcher : s.dispatcher.live = some lease := by
        rwa [System.goto, Effect.apply_dispatcher] at hl
      exact h.carry hP hs hnow ht (mem_live.mpr (Or.inr hl)) (h.dispatcher lease hdispatcher)
  | @dispatch m hm =>
    have hnow : (m.effect.apply P (s.bump m.counter)).now = s.now := by cases m.effect <;> rfl
    refine ⟨ht, h.recent_step hP hs hnow.ge, fun n phase hn => ?_, fun n phase lease hn hl => ?_,
      fun lease hl => ?_⟩
    · change phase.InRound _ (m.effect.apply P (s.bump m.counter)).now
      rw [hnow]
      rw [Effect.apply_bump] at hn
      rcases DispatchPhase.move_get? hm hn with hn | ⟨_, _, l, old, -, -, -, hr⟩
      · exact h.round n phase hn
      · exact Phase.receive_inRound hr _ _
    · have hlive := mem_live.mpr (Or.inl ⟨n, phase, hn, hl⟩)
      rw [Effect.apply_bump] at hn
      rcases DispatchPhase.move_get? hm hn with hn | ⟨req, p, l, old, hsend, -, -, hr⟩
      · exact h.carry hP hs hnow ht hlive (h.handler n phase lease hn hl)
      · -- the lease changes hands
        have hheld : s.dispatcher.live = some lease := by
          rw [hsend, Phase.receive_live hr hl]
          rfl
        rw [Phase.receive_owed hr]
        exact h.carry hP hs hnow ht hlive (h.dispatcher lease hheld)
    · rcases DispatchPhase.move_granted hP hm hl with hold | hgranted
      · exact h.carry hP hs hnow ht (mem_live.mpr (Or.inr hl)) (h.dispatcher lease hold)
      · exact granted hnow hgranted
  | release hk => exact h.of_same hP hs ht rfl rfl rfl
  | advance d => exact h.advance hok ht
  | reload config => exact h.of_same hP hs ht rfl rfl rfl
  | drain => exact h.of_same hP hs ht rfl rfl rfl

end Alive

/-- A proxy built from a validated configuration has no leases yet. -/
theorem alive_build {ext : External} {config : Config ℚ} (P : Params ℚ (LeaseState ℚ))
    (lat : Latency) (h : Config.validate ext config = .ok ()) :
    Alive P lat (System.build config ∅) where
  bound := poolBound_build h
  recent pool id e he := by cases he
  round n phase hn := by cases hn
  handler n phase lease hn := by cases hn
  dispatcher lease hl := by cases hl

/-- **Renewal keeps the leases alive.** If the larger of the renewal period
and the time to the stream, and the lateness of a renewal, are together less
than the time to live, then in a punctual run from a validated configuration
no capacity lease in use is ever expired, and the units in flight in a pool
never exceed its limit. -/
theorem leases_kept_alive {ext : External} {config : Config ℚ}
    (hvalid : Config.validate ext config = .ok ()) {P : Params ℚ (LeaseState ℚ)}
    (hP : P.coordinator = InMemoryCoordinator.coordinator) {lat : Latency}
    (hlat : max (renewPeriod P.leaseTtl) lat.opening + lat.renewal < P.leaseTtl)
    {es : List (Action ℚ)}
    (hrun : Trace (Guarded (fun s a => s.punctual P lat a = true) (StepOf (step P)))
      (System.build config ∅) es s) :
    (∀ lease ∈ s.live,
      ∃ e, (leasesOf s.coordinator lease.pool).get? lease.id = some e ∧ s.now < e.expires) ∧
    ∀ pool rt, s.pools.get? pool = some rt → s.inFlight pool ≤ rt.limit := by
  have h : Alive P lat s := hrun.invariant (alive_build P lat hvalid)
    fun h hs => h.step hlat hP hs.1 hs.2
  exact ⟨fun lease hl => h.unexpired hlat hl, fun pool rt hrt => h.bound.inFlight_le hrt⟩

end Runs

/-- A minute to the stream, and renewals that are fifty seconds late. -/
def minuteToStream : Latency := ⟨60000000000, 50000000000⟩

/-- Handler `n` answers a tick: it renews its three leases. -/
def renews (n : ℕ) : List (Action ℚ) := goOn n 5

/-- A stream goes on for six minutes, with a lease of five, and then another
tenant asks for what is left. -/
def streamsOn : List (Action ℚ) :=
  admits 0 (sampleArrival 1 6) ++
    [.advance 50000000000, .handler 0 (.respond false), .handler 0 .next] ++
    renews 0 ++ [.advance 110000000000] ++ renews 0 ++ [.advance 100000000000] ++
    renews 0 ++ [.advance 100000000000] ++ admits 1 (otherArrival 2 4)

/-- **The lease of the stream is alive** after more than its time to live. -/
theorem leases_kept_alive_streaming :
    ∃ s rt, Trace (Guarded
        (fun s a => System.punctual (Params.inMemory (Config.minimal .enforce []))
          minuteToStream s a = true)
        (StepOf (step (Params.inMemory (Config.minimal .enforce [])))))
        (System.build (Config.minimal .enforce []) ∅) streamsOn s ∧
      s.now = 360000000000 ∧ s.pools.get? "primary" = some rt ∧ s.inFlight "primary" = 10 ∧
      s.inFlight "primary" ≤ rt.limit := by
  have hrun : (streamsOn.foldlM
      (fun s a => if System.punctual (Params.inMemory (Config.minimal .enforce []))
          minuteToStream s a
        then step (Params.inMemory (Config.minimal .enforce [])) s a else none)
      (System.build (Config.minimal .enforce []) ∅)).any
      (fun s => s.now == 360000000000 && ((s.pools.get? "primary").isSome &&
        s.inFlight "primary" == 10)) = true := by
    decide +kernel
  obtain ⟨s, htrace, hend⟩ := Trace.exists_guarded_of_any hrun
  obtain ⟨hnow, hend⟩ := Bool.and_eq_true_iff.mp hend
  obtain ⟨hpool, hflight⟩ := Bool.and_eq_true_iff.mp hend
  obtain ⟨rt, hrt⟩ := Option.isSome_iff_exists.mp hpool
  have hvalid : Config.validate Config.noParsers (Config.minimal .enforce []) = .ok () := by
    decide +kernel
  exact ⟨s, rt, htrace, beq_iff_eq.mp hnow, hrt, beq_iff_eq.mp hflight,
    (leases_kept_alive hvalid rfl (by decide) htrace).2 _ _ hrt⟩

end Proxy

end InferQos
