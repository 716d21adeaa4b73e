import InferQos.Proxy.Calls
import InferQos.Proxy.Provenance
import Mathlib.Algebra.BigOperators.Fin
import Mathlib.Algebra.Order.BigOperators.Group.Finset
/-!
# Replicas over one coordinator

Several replicas of the proxy share a coordinator, and with it the clock
and the ids of the leases; everything else is a replica's own. What keeps
the requests in flight of all of them within the limit of their pool is the
ledger, as for one proxy: `ReplicasBound` is `PoolBound` of each, with the
ids of all replicas distinct.

The replicas of a deployment share a Valkey server. Step by step they do
what they would do over the in-memory ledger (`replicas_refine`), so that
the bound holds over the server as well (`replicas_within_limit`).
-/

namespace InferQos

namespace Proxy

open InMemoryCoordinator (LeaseState leasesOf unitsIn NonNeg Op)

/-! ## The calls of one step -/

section Calls

variable {σ : Type} {P : Params ℚ σ} {s t : System ℚ σ} {a : Action ℚ} {op : Op ℚ}

theorem ReservePhase.key?_of_op? {attempt : Attempt ℚ} {at_ : ReservePhase ℚ}
    (h : at_.op? attempt = some op) (hlimit : op.poolLimit?.isSome) :
    at_.key? attempt = some op.pool := by
  cases at_ with
  | undoApplication tenantSlot applicationSlot =>
    cases h
    cases hlimit
  | undoTenant tenantSlot =>
    cases h
    cases hlimit
  | _ =>
    cases h
    try rfl

/-- A reservation is made under its key. -/
theorem System.reservesUnder_of_op? (h : s.op? P a = some op) (hlimit : op.poolLimit?.isSome) :
    s.reservesUnder P a = some op.pool := by
  have hphase : ∀ {request : AdmissionRequest ℚ} {config : Config ℚ} {charged : ℚ}
      {at_ : ReservePhase ℚ}, (s.attempt P request config charged).bind at_.op? = some op →
      (s.attempt P request config charged).bind at_.key? = some op.pool := by
    intro request config charged at_ h
    obtain ⟨attempt, hattempt, hop⟩ := Option.bind_eq_some_iff.mp h
    rw [hattempt, Option.bind_some]
    exact ReservePhase.key?_of_op? hop hlimit
  cases a with
  | handler n choice =>
    obtain ⟨phase, hn, hop⟩ := Option.bind_eq_some_iff.mp h
    revert hop
    fun_cases Phase.op? P s phase choice with
    | case1 job charged at_ =>
      intro hop
      simp only [System.reservesUnder, hn]
      exact hphase hop
    | case2 =>
      intro hop
      cases hop
      cases hlimit
    | case3 =>
      intro hop
      cases hop
      cases hlimit
    | case4 =>
      intro hop
      cases hop
  | dispatch =>
    change s.dispatcher.op? P s = some op at h
    simp only [System.reservesUnder]
    revert h
    generalize s.dispatcher = d
    fun_cases DispatchPhase.op? P s d with
    | case1 req p config charged at_ => exact hphase
    | case2 =>
      intro hop
      cases hop
      cases hlimit
    | case3 =>
      intro hop
      cases hop
  | release k =>
    obtain ⟨rest, -, hop⟩ := Option.bind_eq_some_iff.mp h
    obtain ⟨lease, -, rfl⟩ := Option.map_eq_some_iff.mp hop
    cases hlimit
  | _ => cases h

theorem ReservePhase.mem_ids_of_op? {attempt : Attempt ℚ} {at_ : ReservePhase ℚ} {lease : Lease ℚ}
    (h : at_.op? attempt = some (.release lease)) : lease.id ∈ at_.ids := by
  cases at_ with
  | undoApplication tenantSlot applicationSlot =>
    cases h
    exact mem_leaseIds_cons _ _
  | undoTenant tenantSlot =>
    cases h
    exact mem_leaseIds_cons _ _
  | _ => cases h

/-- What is released is held. -/
theorem System.mem_ids_of_op? {lease : Lease ℚ} (h : s.op? P a = some (.release lease)) :
    lease.id ∈ s.ids := by
  cases a with
  | handler n choice =>
    obtain ⟨phase, hn, hop⟩ := Option.bind_eq_some_iff.mp h
    have hmem : lease.id ∈ phase.ids := by
      revert hop
      fun_cases Phase.op? P s phase choice with
      | case1 job charged at_ =>
        intro hop
        obtain ⟨attempt, -, hop⟩ := Option.bind_eq_some_iff.mp hop
        exact ReservePhase.mem_ids_of_op? hop
      | case2 => exact fun hop => nomatch hop
      | case3 =>
        intro hop
        cases hop
        exact mem_leaseIds_cons _ _
      | case4 =>
        intro hop
        cases hop
    exact Multiset.mem_of_le ((Multiset.le_add_right _ _).trans (handler_dispatcher_ids_le hn)) hmem
  | dispatch =>
    have hmem : lease.id ∈ s.dispatcher.ids := by
      change s.dispatcher.op? P s = some (.release lease) at h
      revert h
      generalize s.dispatcher = d
      fun_cases DispatchPhase.op? P s d with
      | case1 req p config charged at_ =>
        intro hop
        obtain ⟨attempt, -, hop⟩ := Option.bind_eq_some_iff.mp hop
        exact ReservePhase.mem_ids_of_op? hop
      | case2 =>
        intro hop
        cases hop
        exact mem_leaseIds_cons _ _
      | case3 =>
        intro hop
        cases hop
    exact Multiset.mem_of_le ((Multiset.le_add_left _ _).trans (Multiset.le_add_right _ _)) hmem
  | release k =>
    obtain ⟨rest, hk, hop⟩ := Option.bind_eq_some_iff.mp h
    obtain ⟨lease', hhead, hop⟩ := Option.map_eq_some_iff.mp hop
    cases hop
    obtain ⟨rest', rfl⟩ := List.head?_eq_some_iff.mp hhead
    exact Multiset.mem_of_le ((Multiset.le_add_left _ _).trans (release_ids_le hk))
      (mem_leaseIds_cons _ _)
  | _ => cases h

variable {held : σ → String → Uuid → Prop}

/-- **The leases a step adds to those held**: at most one, with the next
id. -/
theorem ids_step (hC : P.coordinator.Lawful held) (hl : Linked s) (hs : step P s a = some t) :
    t.ids ≤ s.ids ∧ t.nextId = s.nextId ∨
      t.ids ≤ s.ids + {s.nextId} ∧ t.nextId = s.nextId + 1 := by
  have hgrants : ∀ {e : Effect ℚ σ} {c : Option Counter} {ids : Multiset Uuid},
      ids ≤ s.ids + e.grants s.nextId →
      ids ≤ s.ids ∧ (e.apply P (s.bump c)).nextId = s.nextId ∨
        ids ≤ s.ids + {s.nextId} ∧ (e.apply P (s.bump c)).nextId = s.nextId + 1 := by
    intro e c ids hle
    cases e with
    | call coordinator => exact Or.inr ⟨hle, rfl⟩
    | _ => exact Or.inl ⟨hle.trans_eq (add_zero _), rfl⟩
  cases stepped hs with
  | arrive =>
    refine Or.inl ⟨le_of_eq ?_, rfl⟩
    have hfirst : ∀ b, (Phase.first b : Phase ℚ).ids = 0 := by
      intro b
      cases b <;> rfl
    unfold System.ids
    simp only [System.goto, System.bump]
    rw [hl.sumOn_arrive, hfirst, zero_add]
  | @handler n choice phase m hn hm =>
    have hsum := sumOver_handler Phase.ids DispatchPhase.ids hn hm
    have hrel := releases_apply P (s.bump m.counter) m.effect
    refine hgrants (le_of_add_le_add_right (a := phase.ids) ?_)
    calc ((m.effect.apply P (s.bump m.counter)).goto n m.next).ids + phase.ids
        = s.sumOver Phase.ids DispatchPhase.ids + m.next.ids +
            (m.effect.apply P (s.bump m.counter)).releases.sumOn fun _ rest => leaseIds rest := by
          rw [← hsum]
          exact add_right_comm _ _ _
      _ ≤ s.sumOver Phase.ids DispatchPhase.ids + m.next.ids +
            (m.effect.spawned + s.releases.sumOn fun _ rest => leaseIds rest) :=
          add_le_add le_rfl hrel
      _ = s.ids + (m.next.ids + m.effect.spawned) := by
          rw [System.ids, System.sumOver]; abel
      _ ≤ s.ids + (phase.ids + m.effect.grants s.nextId) :=
          add_le_add le_rfl (Phase.move_ids hC hm)
      _ = s.ids + m.effect.grants s.nextId + phase.ids := by abel
  | @dispatch m hm =>
    have hrel := releases_apply P (s.bump m.counter) m.effect
    rw [DispatchPhase.move_spawned hm, zero_add] at hrel
    have hsum : System.sumOver Phase.ids DispatchPhase.ids
        { m.effect.apply P (s.bump m.counter) with dispatcher := m.next } ≤
          s.sumOver Phase.ids DispatchPhase.ids + m.effect.grants s.nextId := by
      rcases sumOver_dispatch Phase.ids DispatchPhase.ids hm with
        ⟨_, _, l, old, _, hsend, -, -, -, hr, hsum⟩ | ⟨-, hsum⟩
      · have hsame : s.dispatcher.ids = l.ids := by rw [hsend]; rfl
        have hidle : (DispatchPhase.idle : DispatchPhase ℚ).ids = 0 := rfl
        rw [Phase.receive_ids hr, ← hsame, hidle, add_zero] at hsum
        exact (add_right_cancel hsum).le.trans (Multiset.le_add_right _ _)
      · refine le_of_add_le_add_right (a := s.dispatcher.ids) ?_
        rw [hsum, add_assoc, add_comm _ s.dispatcher.ids]
        exact add_le_add le_rfl (DispatchPhase.move_ids hC hm)
    refine hgrants ((add_le_add hsum hrel).trans_eq ?_)
    rw [add_right_comm]
    rfl
  | @release k lease rest hk =>
    refine Or.inr ⟨le_trans ?_ (Multiset.le_add_right _ _), rfl⟩
    unfold System.ids
    refine add_le_add le_rfl ?_
    change (s.releases.insert k rest).sumOn (fun _ rest => leaseIds rest) ≤ _
    rw [OrdMap.sumOn_insert, OrdMap.sumOn_eq_add_erase hk, leaseIds_cons]
    exact add_le_add (Multiset.le_add_left _ _) le_rfl
  | advance d => exact Or.inl ⟨le_rfl, rfl⟩
  | reload config => exact Or.inl ⟨le_rfl, rfl⟩
  | drain => exact Or.inl ⟨le_rfl, rfl⟩

end Calls

/-! ## The replicas -/

/-- The state another replica leaves behind: it shares the clock, the
coordinator and the next id. -/
def System.share {σ : Type} (s t : System ℚ σ) : System ℚ σ :=
  { s with now := t.now, coordinator := t.coordinator, nextId := t.nextId }

/-- **Replicas of the proxy over one coordinator**, with the clock and the
next id of all of them. -/
structure Replicas (k : ℕ) (σ : Type) where
  now : ℕ
  coordinator : σ
  nextId : Uuid
  own : Fin k → System ℚ σ

namespace Replicas

variable {k : ℕ} {σ σ' : Type}

/-- A replica, with what it shares. -/
def replica (c : Replicas k σ) (i : Fin k) : System ℚ σ :=
  { c.own i with now := c.now, coordinator := c.coordinator, nextId := c.nextId }

/-- Replicas with one configuration, over the state of their coordinator. -/
def build (k : ℕ) (config : Config ℚ) (coordinator : σ) : Replicas k σ where
  now := 0
  coordinator := coordinator
  nextId := 0
  own _ := System.build config coordinator

/-- **One step of one replica.** -/
def step (P : Params ℚ σ) (c : Replicas k σ) (e : Fin k × Action ℚ) : Option (Replicas k σ) :=
  (Proxy.step P (c.replica e.1) e.2).map fun t =>
    ⟨t.now, t.coordinator, t.nextId, Function.update (fun j => (c.own j).share t) e.1 t⟩

/-- The leases in a pool under which the guards of all replicas are held. -/
def guards (c : Replicas k σ) (pool : String) : List (Lease ℚ) :=
  (List.finRange k).flatMap fun i => (c.replica i).guards pool

/-- **The charged units in flight in a pool, of all replicas.** -/
def inFlight (c : Replicas k σ) (pool : String) : ℚ := ((c.guards pool).map (·.units)).sum

/-- The replicas with another coordinator's state. -/
def onto (c : Replicas k σ) (coordinator : σ') : Replicas k σ' where
  now := c.now
  coordinator := coordinator
  nextId := c.nextId
  own i := (c.own i).onto coordinator

variable {P : Params ℚ σ} {c d : Replicas k σ} {e : Fin k × Action ℚ}

/-- **What a step of one replica does to the others**: nothing but the
shared state changes. -/
theorem stepped (h : c.step P e = some d) : ∃ t, Proxy.step P (c.replica e.1) e.2 = some t ∧
    d.now = t.now ∧ d.coordinator = t.coordinator ∧ d.nextId = t.nextId ∧ d.replica e.1 = t ∧
    ∀ j, j ≠ e.1 → d.replica j = (c.replica j).share t := by
  obtain ⟨t, hs, rfl⟩ := Option.map_eq_some_iff.mp h
  refine ⟨t, hs, rfl, rfl, rfl, ?_, fun j hj => ?_⟩
  · simp [replica]
  · simp [replica, System.share, Function.update_of_ne hj]

end Replicas

/-! ## The bound over the in-memory ledger -/

section Bound

variable {P : Params ℚ (LeaseState ℚ)} {s t : System ℚ (LeaseState ℚ)} {a : Action ℚ}
variable {pool : String} {lease : Lease ℚ}

/-- No step changes the limit of a pool. -/
theorem limit_step (hs : step P s a = some t) :
    (t.pools.get? pool).map (·.limit) = (s.pools.get? pool).map (·.limit) := by
  have hsome : (t.pools.get? pool).isSome = (s.pools.get? pool).isSome := pools_step hs
  cases ht : t.pools.get? pool with
  | none =>
    rw [ht] at hsome
    rw [Option.isSome_eq_false_iff.mp hsome.symm |> Option.isNone_iff_eq_none.mp]
  | some rt =>
    have hold : ∃ rt', s.pools.get? pool = some rt' ∧ rt'.limit = rt.limit := by
      cases stepped hs with
      | @handler n choice phase m hn hm => exact limit_apply (s := s.bump m.counter) ht
      | @dispatch m hm => exact limit_apply (s := s.bump m.counter) ht
      | _ => exact ⟨rt, ht, rfl⟩
    obtain ⟨rt', hrt', hlimit⟩ := hold
    rw [hrt', Option.map_some, Option.map_some, hlimit]

theorem mem_ids_of_live (h : lease ∈ s.live) : lease.id ∈ s.ids := by
  rcases mem_live.mp h with ⟨n, phase, hn, hl⟩ | hd
  · exact Multiset.mem_of_le ((Multiset.le_add_right _ _).trans (handler_dispatcher_ids_le hn))
      (Phase.live_mem_ids hl)
  · exact Multiset.mem_of_le ((Multiset.le_add_left _ _).trans (Multiset.le_add_right _ _))
      (DispatchPhase.live_mem_ids hd)

/-- **A lease of another replica stays stored**: a reservation that could
purge it finds it unexpired, and nobody else releases it. -/
theorem Stored.of_step (hP : P.coordinator = InMemoryCoordinator.coordinator)
    (hs : step P s a = some t) (h : Stored s.coordinator lease) (hlt : lease.id < s.nextId)
    (hunexpired : s.reservesUnder P a = some lease.pool →
      ((leasesOf s.coordinator lease.pool).get? lease.id).all fun e => s.now < e.expires)
    (hheld : lease.id ∉ s.ids) : Stored t.coordinator lease := by
  obtain ⟨entry, hentry, hunits, hscope⟩ := h
  have hcalled := (step_onto (D := P.coordinator) (b := s.coordinator) hs fun _ _ => rfl).2
  rw [hcalled]
  cases hop : s.op? P a with
  | none => exact ⟨entry, hentry, hunits, hscope⟩
  | some op =>
    have happly : called P.coordinator s.ambient s.coordinator (some op) =
        (InMemoryCoordinator.apply s.coordinator ⟨s.now, s.nextId, op⟩).2 := by
      rw [hP]
      cases op <;> rfl
    rw [happly]
    have hkept := InMemoryCoordinator.entry_kept (c := ⟨s.now, s.nextId, op⟩) hentry ?_ ?_
    · obtain ⟨entry', hentry', hu, hsc⟩ := hkept
      exact ⟨entry', hentry', hu.trans hunits, hsc ▸ hscope⟩
    · intro hlimit hpool
      refine ⟨?_, ne_of_lt hlt⟩
      have hunder := System.reservesUnder_of_op? hop hlimit
      rw [show op.pool = lease.pool from hpool] at hunder
      simpa [hentry] using hunexpired hunder
    · intro l hl heq
      cases hl
      exact hheld (heq ▸ System.mem_ids_of_op? hop)

end Bound

namespace Replicas

variable {k : ℕ} {P : Params ℚ (LeaseState ℚ)} {c d : Replicas k (LeaseState ℚ)}
variable {e : Fin k × Action ℚ} {pool : String}

/-- **A reservation finds no expired lease of any replica in use** under its
key. -/
def noneExpired (P : Params ℚ (LeaseState ℚ)) (c : Replicas k (LeaseState ℚ))
    (e : Fin k × Action ℚ) : Bool :=
  ((c.replica e.1).reservesUnder P e.2).all fun key =>
    (List.finRange k).all fun j => (c.replica j).unexpired key

/-- **Every replica is within the limits, and no two hold the same lease.** -/
structure ReplicasBound (c : Replicas k (LeaseState ℚ)) : Prop where
  each : ∀ i, PoolBound (c.replica i)
  issued : Issued (∑ i, (c.replica i).ids) c.nextId
  limits : ∀ i j pool, ((c.replica i).pools.get? pool).map (·.limit) =
    ((c.replica j).pools.get? pool).map (·.limit)

theorem replicasBound_build {ext : External} {config : Config ℚ}
    (h : Config.validate ext config = .ok ()) : ReplicasBound (build k config ∅) where
  each _ := poolBound_build h
  issued := by
    have hnone : (∑ i, ((build k config (∅ : LeaseState ℚ)).replica i).ids) = 0 :=
      Finset.sum_eq_zero fun _ _ => rfl
    rw [hnone]
    exact ⟨Multiset.nodup_zero, fun id hid => absurd hid (Multiset.notMem_zero id)⟩
  limits _ _ _ := rfl

theorem ids_le_sum (c : Replicas k (LeaseState ℚ)) {i j : Fin k} (hij : j ≠ i) :
    (c.replica i).ids + (c.replica j).ids ≤ ∑ i, (c.replica i).ids := by
  rw [← Finset.add_sum_erase _ _ (Finset.mem_univ i)]
  refine add_le_add le_rfl ?_
  exact Finset.single_le_sum (f := fun i => (c.replica i).ids) (fun _ _ => Multiset.zero_le _)
    (Finset.mem_erase.mpr ⟨hij, Finset.mem_univ j⟩)

/-- **Every step of a replica keeps the bound.** -/
theorem ReplicasBound.step (hP : P.coordinator = InMemoryCoordinator.coordinator)
    (h : ReplicasBound c) (hok : noneExpired P c e = true) (hs : c.step P e = some d) :
    ReplicasBound d := by
  have hC : P.coordinator.Lawful InMemoryCoordinator.Held :=
    hP ▸ InMemoryCoordinator.coordinator_lawful
  obtain ⟨i, a⟩ := e
  obtain ⟨t, ht, hnow, hcoord, hnext, hown, hothers⟩ := stepped hs
  have hunexpired : ∀ j key, (c.replica i).reservesUnder P a = some key →
      (c.replica j).unexpired key = true := by
    intro j key hkey
    simp only [noneExpired, hkey, Option.all_some, List.all_eq_true] at hok
    exact hok j (List.mem_finRange j)
  have htBound : PoolBound t := by
    refine (h.each i).step hP ?_ ht
    unfold Proxy.noneExpired
    cases hkey : (c.replica i).reservesUnder P a with
    | none => rfl
    | some key => exact hunexpired i key hkey
  have hids := ids_step hC (h.each i).linked ht
  have hnextle : (c.replica i).nextId ≤ t.nextId := by
    rcases hids with ⟨-, hid⟩ | ⟨-, hid⟩
    · exact hid.ge
    · exact (Nat.le_succ _).trans hid.ge
  have hlimit : ∀ j pool, ((d.replica j).pools.get? pool).map (·.limit) =
      ((c.replica j).pools.get? pool).map (·.limit) := by
    intro j pool
    by_cases hj : j = i
    · rw [hj, hown]
      exact limit_step ht
    · rw [hothers j hj]
      rfl
  refine ⟨fun j => ?_, ?_, fun j j' pool => ?_⟩
  · by_cases hj : j = i
    · rw [hj, hown]
      exact htBound
    · have hold := h.each j
      rw [hothers j hj]
      refine ⟨⟨hold.linked.fresh, hold.linked.listed, hold.linked.carried⟩,
        ⟨hold.issued.nodup, fun id hid => (hold.issued.lt id hid).trans_le hnextle⟩, ?_,
        htBound.nonNeg, fun pool rt hrt => ?_⟩
      · intro lease hlease
        have hlease : lease ∈ (c.replica j).live := hlease
        have hstored : Stored t.coordinator lease := by
          refine Stored.of_step (s := c.replica i) hP ht (hold.stored lease hlease)
            (hold.live_lt hlease) (fun hunder => ?_) ?_
          · have hlive := List.all_eq_true.mp (hunexpired j _ hunder) lease hlease
            simp only [ne_eq, not_true_eq_false, decide_false, Bool.false_or] at hlive
            exact hlive
          · exact h.issued.disjoint (ids_le_sum c (Ne.symm hj)) (mem_ids_of_live hlease)
        exact hstored
      · -- the limit is the stepping replica's
        have hsame := (h.limits j i pool).trans (limit_step ht).symm
        rw [show (c.replica j).pools.get? pool = some rt from hrt, Option.map_some] at hsame
        obtain ⟨rt', hrt', hlim⟩ := Option.map_eq_some_iff.mp hsame.symm
        rw [← hlim]
        exact htBound.bounded pool rt' hrt'
  · -- only the ids of the stepping replica change
    have hsum : (∑ j, (d.replica j).ids) + (c.replica i).ids =
        (∑ j, (c.replica j).ids) + t.ids := by
      rw [← Finset.add_sum_erase _ _ (Finset.mem_univ i),
        ← Finset.add_sum_erase _ (fun j => (c.replica j).ids) (Finset.mem_univ i), hown]
      have hrest : ∑ j ∈ Finset.univ.erase i, (d.replica j).ids =
          ∑ j ∈ Finset.univ.erase i, (c.replica j).ids :=
        Finset.sum_congr rfl fun j hj => by rw [hothers j (Finset.ne_of_mem_erase hj)]; rfl
      rw [hrest]
      abel
    rw [hnext]
    rcases hids with ⟨hle, hid⟩ | ⟨hle, hid⟩
    · rw [hid]
      refine h.issued.mono (le_of_add_le_add_right (a := (c.replica i).ids) ?_)
      rw [hsum]
      exact add_le_add le_rfl hle
    · rw [hid]
      refine h.issued.issue.mono (le_of_add_le_add_right (a := (c.replica i).ids) ?_)
      rw [hsum, add_assoc, add_comm {_}]
      exact add_le_add le_rfl hle
  · rw [hlimit j, hlimit j']
    exact h.limits j j' pool

/-- The guards of all replicas hold distinct leases. -/
theorem ReplicasBound.guards_nodup (h : ReplicasBound c) (pool : String) :
    ((c.guards pool).map (·.id)).Nodup := by
  have hle : leaseIds (c.guards pool) ≤ ∑ i, (c.replica i).ids := by
    have hlist : ∀ is : List (Fin k), leaseIds (is.flatMap fun i => (c.replica i).guards pool) ≤
        (is.map fun i => (c.replica i).ids).sum := by
      intro is
      induction is with
      | nil => exact Multiset.zero_le _
      | cons i is ih =>
        have hguards : leaseIds ((c.replica i).guards pool) ≤ (c.replica i).ids := by
          refine le_trans ?_ ((guarded_ids_le (c.replica i).handlers.entries).trans
            ((Multiset.le_add_right _ _).trans (Multiset.le_add_right _ _)))
          exact Multiset.coe_le.mpr ((List.filter_sublist.map _).subperm)
        rw [List.flatMap_cons, List.map_cons, List.sum_cons]
        refine le_trans (le_of_eq ?_) (add_le_add hguards ih)
        simp only [leaseIds, List.map_append, Multiset.coe_add]
    refine (hlist (List.finRange k)).trans_eq ?_
    rw [← Fin.sum_univ_def]
  exact Multiset.coe_nodup.mp (Multiset.nodup_of_le hle h.issued.nodup)

/-- **The units in flight of all replicas are units of the ledger.** -/
theorem ReplicasBound.inFlight_le (h : ReplicasBound c) {i : Fin k} {rt : PoolRuntime ℚ}
    (hrt : (c.replica i).pools.get? pool = some rt) : c.inFlight pool ≤ rt.limit := by
  set f : Uuid → InMemoryCoordinator.Entry ℚ → ℚ :=
    fun _ e => if e.scope.isSome then e.units else 0 with hf
  have hunits : (c.guards pool).map (·.units) = ((c.guards pool).map (·.id)).map fun id =>
      ((leasesOf c.coordinator pool).get? id).elim 0 (f id) := by
    rw [List.map_map]
    refine List.map_congr_left fun lease hlease => ?_
    obtain ⟨j, -, hlease⟩ := List.mem_flatMap.mp hlease
    obtain ⟨hmem, hpool⟩ := List.mem_filter.mp hlease
    obtain ⟨phase, hphase, hguard⟩ := List.mem_filterMap.mp hmem
    obtain ⟨n, hn⟩ := OrdMap.mem_values.mp hphase
    obtain ⟨entry, he, hu, hscope⟩ := (h.each j).stored lease
      (mem_live.mpr (Or.inl ⟨n, phase, hn, Phase.live_of_guarded hguard⟩))
    rw [of_decide_eq_true hpool] at he
    have he : (leasesOf c.coordinator pool).get? lease.id = some entry := he
    simp [he, hf, hscope, hu]
  calc c.inFlight pool
      = (((c.guards pool).map (·.id)).map fun id =>
          ((leasesOf c.coordinator pool).get? id).elim 0 (f id)).sum := by
        rw [inFlight, hunits]
    _ ≤ (leasesOf c.coordinator pool).sumOn f :=
        OrdMap.sum_get?_le_sumOn (((h.each i).nonNeg pool).weight Option.isSome)
          (h.guards_nodup pool)
    _ ≤ rt.limit := (h.each i).bounded pool rt hrt

end Replicas

/-! ## Over a Valkey server -/

open ValkeyCoordinator (Agreed Rendering unexpiredInMemory unexpiredInValkey millis)
open Redis (Store)

section Reservations

variable {σ : Type} {P : Params ℚ σ} {s : System ℚ σ} {a : Action ℚ}

theorem ReservePhase.op?_of_key? {attempt : Attempt ℚ} {at_ : ReservePhase ℚ} {key : String}
    (h : at_.key? attempt = some key) :
    ∃ op, at_.op? attempt = some op ∧ op.pool = key ∧ op.poolLimit?.isSome := by
  cases at_ with
  | tenant => exact ⟨_, rfl, Option.some.inj h, rfl⟩
  | application tenantSlot => exact ⟨_, rfl, Option.some.inj h, rfl⟩
  | capacity tenantSlot applicationSlot tenantLimit => exact ⟨_, rfl, Option.some.inj h, rfl⟩
  | _ => cases h

/-- Under a key there is a reservation. -/
theorem System.op?_of_reservesUnder {key : String} (h : s.reservesUnder P a = some key) :
    ∃ op, s.op? P a = some op ∧ op.pool = key ∧ op.poolLimit?.isSome := by
  have hphase : ∀ {request : AdmissionRequest ℚ} {config : Config ℚ} {charged : ℚ}
      {at_ : ReservePhase ℚ}, (s.attempt P request config charged).bind at_.key? = some key →
      ∃ op, (s.attempt P request config charged).bind at_.op? = some op ∧ op.pool = key ∧
        op.poolLimit?.isSome := by
    intro request config charged at_ h
    obtain ⟨attempt, hattempt, hkey⟩ := Option.bind_eq_some_iff.mp h
    rw [hattempt, Option.bind_some]
    exact ReservePhase.op?_of_key? hkey
  revert h
  fun_cases System.reservesUnder P s a with
  | case1 n job charged at_ hn =>
    simp only [System.op?, hn, Option.bind_some, Phase.op?]
    exact hphase
  | case3 req p config charged at_ hd =>
    simp only [System.op?, hd, DispatchPhase.op?]
    exact hphase
  | _ =>
    intro h
    cases h

/-- The time to live a call sets. -/
def ttl? : Op ℚ → Option ℕ
  | .reserve _ _ _ ttl => some ttl
  | .reserveScoped _ _ _ _ _ ttl => some ttl
  | .renew _ ttl => some ttl
  | .release _ => none

/-- What a step reserves or renews, it does for the time of a lease. -/
theorem System.ttl_of_op? {op : Op ℚ} {ttl : ℕ} (h : s.op? P a = some op)
    (httl : ttl? op = some ttl) : ttl = P.leaseTtl := by
  have hphase : ∀ {request : AdmissionRequest ℚ} {config : Config ℚ} {charged : ℚ}
      {at_ : ReservePhase ℚ}, (s.attempt P request config charged).bind at_.op? = some op →
      ttl = P.leaseTtl := by
    intro request config charged at_ h
    obtain ⟨attempt, hattempt, hop⟩ := Option.bind_eq_some_iff.mp h
    obtain ⟨rt, -, rfl⟩ := Option.map_eq_some_iff.mp hattempt
    cases at_ <;> cases hop <;> cases httl <;> rfl
  cases a with
  | handler n choice =>
    obtain ⟨phase, -, hop⟩ := Option.bind_eq_some_iff.mp h
    revert hop
    fun_cases Phase.op? P s phase choice with
    | case1 job charged at_ => exact hphase
    | case2 =>
      intro hop
      cases hop
      exact (Option.some.inj httl).symm
    | case3 =>
      intro hop
      cases hop
      cases httl
    | case4 =>
      intro hop
      cases hop
  | dispatch =>
    change s.dispatcher.op? P s = some op at h
    revert h
    generalize s.dispatcher = d
    fun_cases DispatchPhase.op? P s d with
    | case1 req p config charged at_ => exact hphase
    | case2 =>
      intro hop
      cases hop
      cases httl
    | case3 =>
      intro hop
      cases hop
  | release k =>
    obtain ⟨rest, -, hop⟩ := Option.bind_eq_some_iff.mp h
    obtain ⟨lease, -, rfl⟩ := Option.map_eq_some_iff.mp hop
    cases httl
  | _ => cases h

end Reservations

namespace Replicas

variable {k : ℕ}

/-- Limits and units that are not negative, and a scope that is not empty. -/
def regular : Op ℚ → Bool
  | .reserve _ limit units _ => 0 ≤ limit && 0 ≤ units
  | .reserveScoped _ scope poolLimit scopeLimit units _ =>
    scope ≠ "" && 0 ≤ poolLimit && 0 ≤ scopeLimit && 0 ≤ units
  | .release _ => true
  | .renew _ _ => true

/-- The server has a lease that has not expired. -/
def unexpiredLease (R : Rendering ℚ) (space : String) (c : Replicas k Store) (lease : Lease ℚ) :
    Bool :=
  (unexpiredInValkey R space c.coordinator c.now lease.pool lease.id).isSome

/-- **No lease expires in use**: a reservation finds the leases in use under
its key on the server, whichever replica uses them, and a renewal the lease
it is of. -/
def lasting (R : Rendering ℚ) (space : String) (c : Replicas k Store) : Op ℚ → Bool
  | .release _ => true
  | .renew lease _ => c.unexpiredLease R space lease
  | op => (List.finRange k).all fun j => (c.replica j).live.all fun lease =>
      lease.pool ≠ op.pool || c.unexpiredLease R space lease

/-- **An orderly call**: at a time of whole milliseconds, with an expiry that
fits a `u64`, of regular values, and finding no lease expired in use. -/
def orderly (R : Rendering ℚ) (space : String) (P : Params ℚ Store) (c : Replicas k Store)
    (e : Fin k × Action ℚ) : Bool :=
  ((c.replica e.1).op? P e.2).all fun op =>
    c.now % 10 ^ 6 == 0 && decide (millis (c.now + P.leaseTtl) ≤ u64Max) && regular op &&
      c.lasting R space op

section Refinement

variable {R : Rendering ℚ} {space : String} {P : Params ℚ Store} {c d : Replicas k Store}
variable {e : Fin k × Action ℚ} {ledger : LeaseState ℚ} {op : Op ℚ}

theorem regular_of_orderly (hok : c.orderly R space P e = true)
    (hop : (c.replica e.1).op? P e.2 = some op) :
    10 ^ 6 ∣ c.now ∧ millis (c.now + P.leaseTtl) ≤ u64Max ∧ regular op = true ∧
      c.lasting R space op = true := by
  simp only [orderly, hop, Option.all_some, Bool.and_eq_true, beq_iff_eq, decide_eq_true_eq] at hok
  exact ⟨Nat.dvd_of_mod_eq_zero hok.1.1.1, hok.1.1.2, hok.1.2, hok.2⟩

/-- What the server has unexpired, the ledger has. -/
theorem unexpired_in_ledger (hagreed : Agreed R space P.leaseTtl c.now ledger c.coordinator)
    (hnow : 10 ^ 6 ∣ c.now) {lease : Lease ℚ} (h : c.unexpiredLease R space lease = true) :
    ∃ entry, (leasesOf ledger lease.pool).get? lease.id = some entry ∧ c.now < entry.expires := by
  have hsame := ((hagreed lease.pool).mirrors _ le_rfl).unexpired (hagreed lease.pool).tidy hnow
    lease.id
  unfold unexpiredLease at h
  rw [← hsame] at h
  obtain ⟨v, hv⟩ := Option.isSome_iff_exists.mp h
  obtain ⟨entry, hentry, -⟩ := Option.map_eq_some_iff.mp hv
  obtain ⟨hget, hlt⟩ := Option.filter_eq_some_iff.mp hentry
  exact ⟨entry, hget, of_decide_eq_true hlt⟩

/-- **An orderly call is one the two coordinators answer alike.** -/
theorem admissible_of_orderly (hagreed : Agreed R space P.leaseTtl c.now ledger c.coordinator)
    (hok : c.orderly R space P e = true) (hop : (c.replica e.1).op? P e.2 = some op) :
    ValkeyCoordinator.Both.Admissible P.leaseTtl ⟨c.now, ledger, c.coordinator⟩
      ((c.replica e.1).ambient, op) := by
  obtain ⟨hnow, hfits, hregular, hlasting⟩ := regular_of_orderly hok hop
  refine ⟨le_rfl, hnow, hfits, ?_⟩
  have httl := fun ttl (h : ttl? op = some ttl) => System.ttl_of_op? hop h
  cases op with
  | reserve pool limit units ttl =>
    simp only [regular, Bool.and_eq_true, decide_eq_true_eq] at hregular
    exact ⟨httl ttl rfl, hregular⟩
  | reserveScoped pool scope poolLimit scopeLimit units ttl =>
    simp only [regular, Bool.and_eq_true, decide_eq_true_eq] at hregular
    exact ⟨httl ttl rfl, hregular.1.1.1, hregular.1.1.2, hregular.1.2, hregular.2⟩
  | release lease => trivial
  | renew lease ttl =>
    obtain ⟨entry, hentry, hlt⟩ := unexpired_in_ledger hagreed hnow hlasting
    refine ⟨httl ttl rfl, fun entry' hentry' => ?_⟩
    rw [hentry] at hentry'
    cases hentry'
    exact hlt

/-- **A reservation finds no lease expired in use in the ledger either.** -/
theorem noneExpired_of_orderly (hagreed : Agreed R space P.leaseTtl c.now ledger c.coordinator)
    (hok : c.orderly R space P e = true) :
    (c.onto ledger).noneExpired (P.onto InMemoryCoordinator.coordinator) e = true := by
  have hunder : ((c.onto ledger).replica e.1).reservesUnder
      (P.onto InMemoryCoordinator.coordinator) e.2 = (c.replica e.1).reservesUnder P e.2 := rfl
  unfold noneExpired
  rw [hunder]
  cases hkey : (c.replica e.1).reservesUnder P e.2 with
  | none => rfl
  | some key =>
    obtain ⟨op, hop, hpool, hlimit⟩ := System.op?_of_reservesUnder hkey
    obtain ⟨hnow, -, -, hlasting⟩ := regular_of_orderly hok hop
    have hall : ∀ j, ∀ lease ∈ (c.replica j).live, lease.pool = key →
        c.unexpiredLease R space lease = true := by
      intro j lease hlease hsame
      have hlive : (List.finRange k).all (fun j => (c.replica j).live.all fun lease =>
          decide (lease.pool ≠ op.pool) || c.unexpiredLease R space lease) = true := by
        cases op with
        | release lease => cases hlimit
        | renew lease ttl => cases hlimit
        | _ => exact hlasting
      have := List.all_eq_true.mp (List.all_eq_true.mp hlive j (List.mem_finRange j)) lease hlease
      rw [hpool, hsame] at this
      simpa using this
    simp only [Option.all_some, List.all_eq_true]
    intro j _
    refine List.all_eq_true.mpr fun lease hlease => ?_
    by_cases hsame : lease.pool = key
    · obtain ⟨entry, hentry, hlt⟩ := unexpired_in_ledger hagreed hnow (hall j lease hlease hsame)
      rw [hsame] at hentry
      have hentry : (leasesOf ((c.onto ledger).replica j).coordinator key).get? lease.id =
          some entry := hentry
      rw [hentry]
      simp only [Option.all_some, Bool.or_eq_true, decide_eq_true_eq]
      exact Or.inr hlt
    · simp [hsame]

/-- **A step over the server is a step over the ledger**, which agree
afterwards. -/
theorem step_refine (hP : P.coordinator = ValkeyCoordinator.coordinator R space)
    (httl : 10 ^ 6 ∣ P.leaseTtl)
    (hagreed : Agreed R space P.leaseTtl c.now ledger c.coordinator)
    (hok : c.orderly R space P e = true) (hs : c.step P e = some d) :
    ∃ ledger', (c.onto ledger).step (P.onto InMemoryCoordinator.coordinator) e =
        some (d.onto ledger') ∧
      Agreed R space P.leaseTtl d.now ledger' d.coordinator := by
  obtain ⟨t, ht, rfl⟩ := Option.map_eq_some_iff.mp hs
  -- the call, if there is one, is answered alike
  have hcall : Alike P.coordinator InMemoryCoordinator.coordinator (c.replica e.1).ambient
        (c.replica e.1).coordinator ledger ((c.replica e.1).op? P e.2) ∧
      Agreed R space P.leaseTtl c.now
        (called InMemoryCoordinator.coordinator (c.replica e.1).ambient ledger
          ((c.replica e.1).op? P e.2))
        (called P.coordinator (c.replica e.1).ambient (c.replica e.1).coordinator
          ((c.replica e.1).op? P e.2)) := by
    cases hop : (c.replica e.1).op? P e.2 with
    | none => exact ⟨fun _ h => (nomatch h), hagreed⟩
    | some op =>
      obtain ⟨hanswer, hafter⟩ := ValkeyCoordinator.agree_step httl
        (s := ⟨c.now, ledger, c.coordinator⟩) hagreed (admissible_of_orderly hagreed hok hop)
      rw [hP]
      refine ⟨?_, hafter⟩
      rintro op' ⟨⟩
      exact hanswer.symm
  obtain ⟨hstep, hcoordinator⟩ := step_onto ht hcall.1
  refine ⟨called InMemoryCoordinator.coordinator (c.replica e.1).ambient ledger
    ((c.replica e.1).op? P e.2), ?_, fun pool => ?_⟩
  · change (Proxy.step (P.onto InMemoryCoordinator.coordinator) ((c.replica e.1).onto ledger)
      e.2).map _ = _
    rw [hstep, Option.map_some]
    refine congrArg some (congrArg (Replicas.mk _ _ _) (funext fun j => ?_))
    by_cases hj : j = e.1
    · subst hj
      simp
    · simp only [Function.update_of_ne hj]
      rfl
  · have hmono := (hcall.2 pool).mono (now_le_step ht)
    rw [← hcoordinator] at hmono
    exact hmono

end Refinement

/-- Nothing is stored on either side. -/
theorem agreed_empty (R : Rendering ℚ) (space : String) (ttl : ℕ) : Agreed R space ttl 0 ∅ ∅ := by
  intro pool
  refine ⟨⟨?_, ?_, ?_, ?_⟩, fun t _ => Or.inl OrdMap.Rekeyed.empty⟩ <;>
    exact fun he => by cases he

section Runs

variable {R : Rendering ℚ} {space : String} {P : Params ℚ Store} {c : Replicas k Store}
variable {es : List (Fin k × Action ℚ)} {config : Config ℚ}

/-- **A run of orderly calls is a run over a ledger** that agrees with the
server. -/
theorem exists_ledger (hP : P.coordinator = ValkeyCoordinator.coordinator R space)
    (httl : 10 ^ 6 ∣ P.leaseTtl)
    (hrun : Trace (Guarded (fun c e => c.orderly R space P e = true) (StepOf (Replicas.step P)))
      (Replicas.build k config ∅) es c) :
    ∃ ledger : LeaseState ℚ,
      Trace (Guarded
          (fun c e => c.noneExpired (P.onto InMemoryCoordinator.coordinator) e = true)
          (StepOf (Replicas.step (P.onto InMemoryCoordinator.coordinator))))
        (Replicas.build k config ∅) es (c.onto ledger) ∧
      Agreed R space P.leaseTtl c.now ledger c.coordinator := by
  induction hrun with
  | nil => exact ⟨∅, Trace.nil, agreed_empty R space P.leaseTtl⟩
  | snoc _ hs ih =>
    obtain ⟨ledger, htrace, hagreed⟩ := ih
    obtain ⟨ledger', hstep, hagreed'⟩ := step_refine hP httl hagreed hs.1 hs.2
    exact ⟨ledger', htrace.snoc ⟨noneExpired_of_orderly hagreed hs.1, hstep⟩, hagreed'⟩

/-- **Replicas over a Valkey server refine replicas over the in-memory
ledger.** In a run of orderly calls, with leases of whole milliseconds, the
replicas take the same steps over a ledger, every part of their state but
the coordinator's being the same, and the ledger holds the same unexpired
leases as the server. -/
theorem replicas_refine (hP : P.coordinator = ValkeyCoordinator.coordinator R space)
    (httl : 10 ^ 6 ∣ P.leaseTtl)
    (hrun : Trace (Guarded (fun c e => c.orderly R space P e = true) (StepOf (Replicas.step P)))
      (Replicas.build k config ∅) es c) :
    ∃ ledger : LeaseState ℚ,
      Trace (StepOf (Replicas.step (P.onto InMemoryCoordinator.coordinator)))
        (Replicas.build k config ∅) es (c.onto ledger) ∧
      ∀ now, c.now ≤ now → 10 ^ 6 ∣ now → ∀ pool id,
        unexpiredInMemory ledger now pool id =
          unexpiredInValkey R space c.coordinator now pool id := by
  obtain ⟨ledger, htrace, hagreed⟩ := exists_ledger hP httl hrun
  refine ⟨ledger, htrace.mono fun hs => hs.2, fun now hle hnow pool id => ?_⟩
  have hms : millis c.now ≤ millis now := Nat.div_le_div_right hle
  exact ((hagreed pool).mirrors _ hms).unexpired (hagreed pool).tidy hnow id

/-- **The hard limit of a deployment.** Replicas of one validated
configuration over a Valkey server, whose calls are orderly: the units in
flight in a pool, of all replicas together, never exceed its limit. -/
theorem replicas_within_limit {ext : External} (hvalid : Config.validate ext config = .ok ())
    (hP : P.coordinator = ValkeyCoordinator.coordinator R space) (httl : 10 ^ 6 ∣ P.leaseTtl)
    (hrun : Trace (Guarded (fun c e => c.orderly R space P e = true) (StepOf (Replicas.step P)))
      (Replicas.build k config ∅) es c) {i : Fin k} {pool : String} {rt : PoolRuntime ℚ}
    (hrt : (c.replica i).pools.get? pool = some rt) : c.inFlight pool ≤ rt.limit := by
  obtain ⟨ledger, htrace, -⟩ := exists_ledger hP httl hrun
  have hbound : ReplicasBound (c.onto ledger) :=
    htrace.invariant (replicasBound_build hvalid) fun h hs => h.step rfl hs.1 hs.2
  exact hbound.inFlight_le (i := i) hrt

end Runs

/-! ### Two replicas -/

/-- Parameters over a Valkey server, with leases of five minutes. -/
def overValkey (config : Config ℚ) : Params ℚ Store where
  coordinator := ValkeyCoordinator.coordinator ValkeyCoordinator.exactRendering "inferqos"
  scheduler := schedulerConfig config.limits
  leaseTtl := 300000000000

/-- One replica admits six units, and the other, a millisecond later, four. -/
def twoReplicas : List (Fin 2 × Action ℚ) :=
  (admits 0 (sampleArrival 1 6)).map (0, ·) ++ [(1, .advance 1000000)] ++
    (admits 0 (otherArrival 2 4)).map (1, ·)

theorem twoReplicas_orderly :
    ∃ c, Trace (Guarded (fun c e => c.orderly ValkeyCoordinator.exactRendering "inferqos"
          (overValkey (Config.minimal .enforce [])) e = true)
        (StepOf (Replicas.step (overValkey (Config.minimal .enforce [])))))
        (Replicas.build 2 (Config.minimal .enforce []) ∅) twoReplicas c ∧
      ((c.replica 0).pools.get? "primary").isSome = true ∧ c.inFlight "primary" = 10 := by
  have hrun : (twoReplicas.foldlM (fun (c : Replicas 2 Store) e =>
      if c.orderly ValkeyCoordinator.exactRendering "inferqos"
        (overValkey (Config.minimal .enforce [])) e
      then Replicas.step (overValkey (Config.minimal .enforce [])) c e else none)
      (Replicas.build 2 (Config.minimal .enforce []) ∅)).any
      (fun c => ((c.replica 0).pools.get? "primary").isSome && c.inFlight "primary" == 10) =
        true := by
    decide +kernel
  obtain ⟨c, htrace, hend⟩ := Trace.exists_guarded_of_any hrun
  obtain ⟨hpool, hflight⟩ := Bool.and_eq_true_iff.mp hend
  exact ⟨c, htrace, hpool, beq_iff_eq.mp hflight⟩

/-- Over a ledger they do the same. -/
theorem replicas_refine_two :
    ∃ (c : Replicas 2 Store) (ledger : LeaseState ℚ), c.inFlight "primary" = 10 ∧
      Trace (StepOf (Replicas.step ((overValkey (Config.minimal .enforce [])).onto
          InMemoryCoordinator.coordinator)))
        (Replicas.build 2 (Config.minimal .enforce []) ∅) twoReplicas (c.onto ledger) := by
  obtain ⟨c, htrace, -, hflight⟩ := twoReplicas_orderly
  obtain ⟨ledger, hledger, -⟩ := replicas_refine rfl (by decide) htrace
  exact ⟨c, ledger, hflight, hledger⟩

/-- Together they have ten units in flight, of a limit of ten. -/
theorem replicas_within_limit_full :
    ∃ (c : Replicas 2 Store) (rt : PoolRuntime ℚ),
      (c.replica 0).pools.get? "primary" = some rt ∧ c.inFlight "primary" = 10 ∧
      c.inFlight "primary" ≤ rt.limit := by
  obtain ⟨c, htrace, hpool, hflight⟩ := twoReplicas_orderly
  obtain ⟨rt, hrt⟩ := Option.isSome_iff_exists.mp hpool
  have hvalid : Config.validate Config.noParsers (Config.minimal .enforce []) = .ok () := by
    decide +kernel
  exact ⟨c, rt, hrt, hflight, replicas_within_limit hvalid rfl (by decide) htrace hrt⟩

end Replicas

end Proxy

end InferQos
