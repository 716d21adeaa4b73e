import InferQos.Common.Trace
import InferQos.Proxy.AllOrNothing
import InferQos.Proxy.Linking
import Mathlib.Algebra.Order.Group.Multiset
import Mathlib.Tactic.Abel
/-!
# Claim conservation

An admitted request holds a slot in the concurrency counters, an id in the
reservations of its pool and a unit of `active`. `claims` says who holds
what at each position of a task, and a step moves claims between the
bookkeeping and one task, or from the dispatcher to the handler it sends to.

Three places lose a claim: a handler dropped inside `reserve_distributed`,
a handler whose receiver is dropped with the leases in it, and a dispatcher
that finds, under the id of the request it popped, the entry of a request
of another identity or pool. `claims_conserved` says that nothing else does.
-/

namespace InferQos

namespace Proxy

variable {F σ : Type}

/-! ## Tallies -/

/-- **The map holds the positive values of a count.** -/
def Tallies (m : OrdMap String ℕ) (f : String → ℕ) : Prop :=
  ∀ k, m.get? k = if f k = 0 then none else some (f k)

namespace Tallies

variable {m : OrdMap String ℕ} {f g : String → ℕ} {k : String}

theorem congr (h : Tallies m f) (hfg : ∀ k, f k = g k) : Tallies m g := by
  intro k
  rw [← hfg k]
  exact h k

theorem count_eq (h : Tallies m f) (k : String) : count m k = f k := by
  unfold count
  rw [h k]
  split
  · rename_i h0
    exact h0.symm
  · rfl

theorem increment (h : Tallies m f) (hg : ∀ k', g k' = f k' + if k' = k then 1 else 0) :
    Tallies (increment m k) g := by
  intro k'
  rw [hg k', Proxy.increment, OrdMap.get?_insert, h.count_eq]
  by_cases hk : k' = k
  · simp [hk]
  · simp [hk, h k']

theorem decrement (h : Tallies m f) (hg : ∀ k', f k' = g k' + if k' = k then 1 else 0) :
    Tallies (decrement m k) g := by
  have hk := hg k
  rw [if_pos rfl] at hk
  have hget : m.get? k = some (g k + 1) := by
    rw [h k, hk, if_neg (Nat.succ_ne_zero _)]
  intro k'
  unfold Proxy.decrement
  simp only [hget, Nat.add_sub_cancel]
  by_cases hk' : k' = k
  · subst hk'
    by_cases h0 : g k' = 0
    · rw [if_pos h0, if_pos h0, OrdMap.get?_erase_self]
    · rw [if_neg h0, if_neg h0, OrdMap.get?_insert_self]
  · have hother : m.get? k' = if g k' = 0 then none else some (g k') := by
      rw [h k', hg k', if_neg hk', Nat.add_zero]
    rw [← hother]
    split
    · exact OrdMap.get?_erase_of_ne hk'
    · exact OrdMap.get?_insert_of_ne hk'

/-- A map without positive values is empty. -/
theorem eq_empty (h : Tallies m f) (h0 : ∀ k, f k = 0) : m = ∅ := by
  apply OrdMap.ext
  refine List.eq_nil_iff_forall_not_mem.mpr fun e he => ?_
  have hget := OrdMap.get?_eq_some.mpr he
  rw [h e.1, if_pos (h0 e.1)] at hget
  cases hget

end Tallies

/-! ## Who holds what -/

namespace Claim

/-- The claim is a slot of an identity with this name. -/
def isSlot (name : IdentityContext → String) (k : String) : Claim → Bool
  | slot identity => k = name identity
  | _ => false

/-- The id of a reservation. -/
def id? : Claim → Option Uuid
  | reservation _ id => some id
  | _ => none

end Claim

/-- The slots held under a name. -/
def slots (name : IdentityContext → String) (held : Multiset Claim) (k : String) : ℕ :=
  held.countP fun c => c.isSlot name k = true

section Slots

variable {name : IdentityContext → String} {held : Multiset Claim} {k : String}

@[simp] theorem slots_slot {identity : IdentityContext} :
    slots name (.slot identity ::ₘ held) k =
      slots name held k + if k = name identity then 1 else 0 := by
  unfold slots
  rw [Multiset.countP_cons]
  simp only [Claim.isSlot, decide_eq_true_eq]

@[simp] theorem slots_reservation {pool : String} {id : Uuid} :
    slots name (.reservation pool id ::ₘ held) k = slots name held k :=
  Multiset.countP_cons_of_neg _ (by simp [Claim.isSlot])

@[simp] theorem slots_active : slots name (.active ::ₘ held) k = slots name held k :=
  Multiset.countP_cons_of_neg _ (by simp [Claim.isSlot])

end Slots

/-- The slot and the reservation of an admission. -/
def admissionClaims (request : AdmissionRequest F) (leases : AdmissionLeases F) :
    Multiset Claim :=
  {.slot request.identity} + {.reservation request.pool leases.capacity.id}

/-- The slot, and the reservation if there are leases. -/
def guardClaims (request : AdmissionRequest F) (leases : Option (AdmissionLeases F)) :
    Multiset Claim :=
  match leases with
  | none => {.slot request.identity}
  | some leases => admissionClaims request leases

/-- **What a handler holds.** -/
def Phase.claims : Phase F → Multiset Claim
  | reserving job _ _ => {.slot job.request.identity}
  | tracking job _ _ => {.slot job.request.identity}
  | leaving job _ => {.slot job.request.identity}
  | waiting job _ (some leases) => admissionClaims job.request leases
  | expired job (some leases) => admissionClaims job.request leases
  | admitted job leases => guardClaims job.request leases
  | loading job leases => guardClaims job.request leases + {.active}
  | dispatching job leases => guardClaims job.request leases + {.active}
  | opening job leases _ => guardClaims job.request leases + {.active}
  | streaming job leases _ _ _ => guardClaims job.request leases + {.active}
  | completing job leases _ _ _ => admissionClaims job.request leases + {.active}
  | closing job leases _ => guardClaims job.request leases + {.active}
  | spawning job _ _ => {.slot job.request.identity} + {.active}
  | departing job _ => {.slot job.request.identity} + {.active}
  | uncounting _ => {.active}
  | _ => 0

/-- **What the dispatcher holds.** -/
def DispatchPhase.claims : DispatchPhase F → Multiset Claim
  | charging req _ _ => {.slot req.identity}
  | reserving req _ _ _ _ => {.slot req.identity}
  | tracking req _ _ _ => {.slot req.identity}
  | sending req _ leases => admissionClaims req leases
  | unsent req leases _ => admissionClaims req leases
  | leaving req _ => {.slot req.identity}
  | _ => 0

/-- **All claims held by tasks.** -/
def System.owned (s : System F σ) : Multiset Claim :=
  s.handlers.sumOn (fun _ phase => phase.claims) + s.dispatcher.claims

/-- What an effect takes. -/
def Effect.takes : Effect F σ → Multiset Claim
  | enter identity => {.slot identity}
  | track pool id _ => {.reservation pool id}
  | activate => {.active}
  | _ => 0

/-- What an effect gives back, its release succeeding. -/
def Effect.gives : Effect F σ → Multiset Claim
  | leave identity => {.slot identity}
  | settle pool id _ _ _ => {.reservation pool id}
  | deactivate => {.active}
  | _ => 0

/-! ## The condition -/

/-- A handler that takes this choice here loses no claim: it is not dropped
while it reserves, nor is its receiver dropped with leases in it. -/
def Phase.keeps : Phase F → Choice F → Bool
  | reserving .., .drop => false
  | waiting _ _ (some _), .drop => false
  | expired _ (some _), .next => false
  | _, _ => true

/-- **No claim is lost at this step.** Besides, the entry the dispatcher
finds has the identity and the pool of the request it popped. -/
def noLoss (s : System F σ) : Action F → Bool
  | .handler n choice => (s.handlers.get? n).all (·.keeps choice)
  | .dispatch =>
    match s.dispatcher with
    | .popped req => (s.pending.get? req.id).all fun p =>
        p.request.identity = req.identity ∧ p.request.pool = req.pool
    | _ => true
  | _ => true

/-! ## One step moves claims -/

section Balance

variable [Arith F] {P : Params F σ} {s t : System F σ} {n : ℕ}

omit [Arith F] in
theorem Phase.claims_afterReserve (job : Job F) (charged : F) (at_ : ReservePhase F) :
    (afterReserve job charged at_).claims = {.slot job.request.identity} := by
  unfold afterReserve
  split <;> rfl

omit [Arith F] in
theorem Phase.claims_afterLeave (job : Job F) (error : Option CoordinatorError) :
    (afterLeave job error).claims = 0 := by
  cases error <;> rfl

omit [Arith F] in
theorem DispatchPhase.claims_afterReserve (req : AdmissionRequest F) (p : Pending F)
    (config : Config F) (charged : F) (at_ : ReservePhase F) :
    (afterReserve req p config charged at_).claims = {.slot req.identity} := by
  unfold afterReserve
  split <;> rfl

omit [Arith F] in
theorem DispatchPhase.claims_afterLeave (req : AdmissionRequest F) (q : Option (Pending F)) :
    (afterLeave req q).claims = 0 := by
  cases q <;> rfl

omit [Arith F] in
theorem DispatchPhase.claims_afterPop (r : Except String (Option (AdmissionRequest F))) :
    (afterPop r).claims = 0 := by
  unfold afterPop
  split <;> rfl

/-- **A handler's step that keeps its claims balances.** -/
theorem Phase.move_balance {phase : Phase F} {choice : Choice F} {m : Move F σ (Phase F)}
    (hk : phase.keeps choice = true) (h : phase.move P s n choice = some m) :
    m.next.claims + m.effect.gives = phase.claims + m.effect.takes := by
  revert h
  fun_cases Phase.move P s n phase choice <;> intro h <;> cases h
  all_goals simp only [claims_afterReserve, claims_afterLeave]
  all_goals simp only [claims, Effect.gives, Effect.takes, guardClaims, admissionClaims, add_zero,
    zero_add]
  all_goals first
    | exact add_right_comm _ _ _
    | exact add_comm _ _
    | cases hk
    | skip
  -- the receiver is dropped, by the client or by the timeout
  · rename_i value
    cases value with
    | none => rfl
    | some leases => cases hk
  · rename_i value
    cases value with
    | none => rfl
    | some leases => cases hk

/-- **And so does the dispatcher's, unless it sends.** -/
theorem DispatchPhase.move_balance {d : DispatchPhase F} {m : Move F σ (DispatchPhase F)}
    (hd : ∀ w phase, m.effect ≠ .deliver w phase) (h : d.move P s = some m) :
    m.next.claims + m.effect.gives = d.claims + m.effect.takes := by
  revert h
  fun_cases DispatchPhase.move P s d <;> intro h <;> cases h
  all_goals simp only [claims_afterReserve, claims_afterLeave, claims_afterPop]
  all_goals simp only [claims, Effect.gives, Effect.takes, admissionClaims, add_zero, zero_add]
  exact absurd rfl (hd _ _)

omit [Arith F] in
/-- What is sent is added to what the receiver holds. -/
theorem Phase.receive_claims {phase phase' : Phase F} {leases : AdmissionLeases F}
    {r : AdmissionRequest F} (hs : phase.Serves r) (h : phase.receive leases = some phase') :
    phase'.claims = phase.claims + admissionClaims r leases := by
  revert h
  fun_cases Phase.receive leases phase <;> intro h <;> cases h
  · rw [← hs]
    exact (zero_add _).symm
  · rw [← hs]
    exact (zero_add _).symm

/-- The request the dispatcher popped and the entry it found have one
identity and one pool. -/
def Matched (s : System F σ) : Prop :=
  ∀ req p, s.dispatcher.pair? = some (req, p) →
    p.request.identity = req.identity ∧ p.request.pool = req.pool

/-- **The claims held change by what is taken and given back.** -/
theorem owned_step_handler {choice : Choice F} {phase : Phase F} {m : Move F σ (Phase F)}
    (hn : s.handlers.get? n = some phase) (hm : phase.move P s n choice = some m)
    (hk : phase.keeps choice = true) :
    ((m.effect.apply P (s.bump m.counter)).goto n m.next).owned + m.effect.gives =
      s.owned + m.effect.takes := by
  have hsum : ((m.effect.apply P (s.bump m.counter)).goto n m.next).owned + phase.claims =
      s.owned + m.next.claims := sumOver_handler Phase.claims DispatchPhase.claims hn hm
  refine add_right_cancel (b := phase.claims) ?_
  rw [add_right_comm, hsum, add_assoc, Phase.move_balance hk hm, add_comm phase.claims, add_assoc]

/-- The same for the dispatcher, whose sends move claims to the receiver. -/
theorem owned_step_dispatch {m : Move F σ (DispatchPhase F)} (hl : Linked s) (hmatch : Matched s)
    (hm : s.dispatcher.move P s = some m) :
    System.owned { m.effect.apply P (s.bump m.counter) with dispatcher := m.next } +
      m.effect.gives = s.owned + m.effect.takes := by
  rcases sumOver_dispatch Phase.claims DispatchPhase.claims hm with
    ⟨req, p, leases, old, new, hsend, -, he, hw, hr, hsum⟩ | ⟨hd, hsum⟩
  · have hpair : s.dispatcher.pair? = some (req, p) := by rw [hsend]; rfl
    obtain ⟨phase, hphase, hserves⟩ := (hl.carried req p hpair).2
    obtain rfl : old = phase := Option.some.inj (hw.symm.trans hphase)
    have hsame : admissionClaims p.request leases = s.dispatcher.claims := by
      obtain ⟨hident, hpool⟩ := hmatch req p hpair
      rw [hsend, DispatchPhase.claims, admissionClaims, admissionClaims, hident, hpool]
    have hgives : m.effect.gives = 0 := by rw [he]; rfl
    have htakes : m.effect.takes = 0 := by rw [he]; rfl
    -- the receiver holds what the dispatcher held
    have hidle : (DispatchPhase.idle : DispatchPhase F).claims = 0 := rfl
    rw [Phase.receive_claims hserves hr, hsame, hidle, add_zero] at hsum
    rw [hgives, htakes, add_zero, add_zero]
    exact add_right_cancel hsum
  · refine add_right_cancel (b := s.dispatcher.claims) ?_
    rw [add_right_comm]
    refine (congrArg (· + m.effect.gives) hsum).trans ?_
    change s.owned + m.next.claims + m.effect.gives = _
    rw [add_assoc, DispatchPhase.move_balance hd hm, add_comm s.dispatcher.claims, add_assoc]

end Balance

/-! ## The bookkeeping is what tasks hold -/

/-- **The local bookkeeping shows exactly the claims `held`.** -/
structure Accurate (s : System F σ) (held : Multiset Claim) : Prop where
  balance : (s.taken : Multiset Claim) = s.returned + held
  tenants : Tallies s.concurrency.tenants (slots (·.tenant) held)
  applications : Tallies s.concurrency.applications (slots (·.application) held)
  reserved : ∀ pool id, s.reserves pool id = true ↔ Claim.reservation pool id ∈ held
  active : s.metrics.active = held.count .active % 2 ^ 64

section Accurate

variable [Arith F] {P : Params F σ} {s : System F σ} {pool pool' : String} {id id' : Uuid}

theorem reserves_track {units : F} (hpool : (s.pools.get? pool).isSome) :
    ((Effect.track pool id units).apply P s).reserves pool' id' = true ↔
      s.reserves pool' id' = true ∨ pool' = pool ∧ id' = id := by
  obtain ⟨rt, hrt⟩ := Option.isSome_iff_exists.mp hpool
  simp only [System.reserves, Effect.apply, System.onPool, hrt, OrdMap.get?_insert]
  by_cases hp : pool' = pool
  · by_cases hid : id' = id
    · simp [hp, hid]
    · simp [hp, hid, hrt]
  · simp [hp]

theorem reserves_settle {predicted : F} {actual : Option F} {throttled : Bool} :
    ((Effect.settle pool id predicted actual throttled).apply P s).reserves pool' id' = true ↔
      s.reserves pool' id' = true ∧ ¬ (pool' = pool ∧ id' = id) := by
  simp only [System.reserves, Effect.apply, System.onPool]
  cases hrt : s.pools.get? pool with
  | none =>
    by_cases hp : pool' = pool
    · simp [hp, hrt]
    · simp [hp]
  | some rt =>
    by_cases hp : pool' = pool
    · by_cases hid : id' = id
      · simp [hp, hid, (CapacityModel.release_spec rt.capacity id predicted actual throttled).2]
      · simp [hp, hid, hrt, (CapacityModel.release_spec rt.capacity id predicted actual throttled).2]
    · simp [hp, OrdMap.get?_insert_of_ne]

variable {held held' : Multiset Claim} {e : Effect F σ}

/-- A claim logged as taken is held. -/
theorem balance_take {taken returned : List Claim} {c : Claim}
    (h : (taken : Multiset Claim) = returned + held) :
    ((c :: taken : List Claim) : Multiset Claim) = returned + c ::ₘ held := by
  rw [← Multiset.cons_coe, h, Multiset.add_cons]

/-- A claim logged as returned is held no longer. -/
theorem balance_give {taken returned : List Claim} {c : Claim}
    (h : (taken : Multiset Claim) = returned + c ::ₘ held) :
    (taken : Multiset Claim) = ((c :: returned : List Claim) : Multiset Claim) + held := by
  rw [← Multiset.cons_coe, h, Multiset.add_cons, Multiset.cons_add]

/-- **An effect keeps the bookkeeping accurate.** A reservation tracked is
new, and one settled is held once. -/
theorem Accurate.apply (h : Accurate s held) (hheld : held' + e.gives = held + e.takes)
    (honce : ∀ pool id, held.count (.reservation pool id) ≤ 1)
    (htrack : ∀ pool id units, e = .track pool id units →
      (s.pools.get? pool).isSome ∧ Claim.reservation pool id ∉ held) :
    Accurate (e.apply P s) held' := by
  -- in cons form: one claim more, one claim less, or the same claims
  have htake : ∀ c, held' + 0 = held + {c} → held' = c ::ₘ held := by
    intro c hc
    rw [← add_zero held', hc, add_comm, Multiset.singleton_add]
  have hgive : ∀ c, held' + {c} = held + 0 → held = c ::ₘ held' := by
    intro c hc
    rw [← add_zero held, ← hc, add_comm, Multiset.singleton_add]
  cases e with
  | enter identity =>
    obtain rfl := htake _ hheld
    refine ⟨balance_take h.balance, h.tenants.increment fun k => slots_slot,
      h.applications.increment fun k => slots_slot, fun pool id => ?_, ?_⟩
    · exact (h.reserved pool id).trans (by simp)
    · exact h.active.trans (by simp)
  | leave identity =>
    obtain rfl := hgive _ hheld
    refine ⟨balance_give h.balance, h.tenants.decrement fun k => slots_slot,
      h.applications.decrement fun k => slots_slot, fun pool id => ?_, ?_⟩
    · exact (h.reserved pool id).trans (by simp)
    · exact h.active.trans (by simp)
  | track pool id units =>
    obtain rfl := htake _ hheld
    obtain ⟨hpool, -⟩ := htrack pool id units rfl
    refine ⟨balance_take h.balance, h.tenants.congr fun k => by simp,
      h.applications.congr fun k => by simp, fun pool' id' => ?_, ?_⟩
    · rw [reserves_track hpool, h.reserved pool' id']
      simp [or_comm]
    · exact h.active.trans (by simp)
  | settle pool id predicted actual throttled =>
    obtain rfl := hgive _ hheld
    have hfound : s.reserves pool id = true := (h.reserved pool id).mpr (by simp)
    have hgone : Claim.reservation pool id ∉ held' := by
      have := honce pool id
      rw [Multiset.count_cons_self] at this
      exact Multiset.count_eq_zero.mp (by omega)
    refine ⟨?_, h.tenants.congr fun k => by simp, h.applications.congr fun k => by simp,
      fun pool' id' => ?_, ?_⟩
    · simp only [Effect.apply, hfound, if_true]
      exact balance_give h.balance
    · rw [reserves_settle, h.reserved pool' id', Multiset.mem_cons]
      constructor
      · rintro ⟨heq | hmem, hne⟩
        · exact absurd (by simpa using heq) hne
        · exact hmem
      · intro hmem
        refine ⟨Or.inr hmem, ?_⟩
        rintro ⟨rfl, rfl⟩
        exact hgone hmem
    · exact h.active.trans (by simp)
  | activate =>
    obtain rfl := htake _ hheld
    refine ⟨balance_take h.balance, h.tenants.congr fun k => by simp,
      h.applications.congr fun k => by simp, fun pool' id' => ?_, ?_⟩
    · exact (h.reserved pool' id').trans (by simp)
    · simp only [Effect.apply, Metrics.activate, wrappingAdd, h.active, Multiset.count_cons_self]
      omega
  | deactivate =>
    obtain rfl := hgive _ hheld
    refine ⟨balance_give h.balance, h.tenants.congr fun k => by simp,
      h.applications.congr fun k => by simp, fun pool' id' => ?_, ?_⟩
    · exact (h.reserved pool' id').trans (by simp)
    · simp only [Effect.apply, Metrics.deactivate, wrappingSub, h.active, Multiset.count_cons_self]
      split <;> omega
  | _ =>
    obtain rfl : held' = held := add_right_cancel (b := 0) hheld
    exact ⟨h.balance, h.tenants, h.applications, h.reserved, h.active⟩

end Accurate

/-! ## Ids are tracked once -/

/-- The capacity lease of a reservation that has just been granted. -/
def ReservePhase.granted : ReservePhase F → Multiset Uuid
  | finished (.ok (some leases)) => {leases.capacity.id}
  | _ => 0

theorem ReservePhase.granted_tenant : (tenant : ReservePhase F).granted = 0 := rfl

/-- The capacity lease a handler is about to track. -/
def Phase.untracked : Phase F → Multiset Uuid
  | reserving _ _ at_ => at_.granted
  | tracking _ _ leases => {leases.capacity.id}
  | _ => 0

/-- The capacity lease the dispatcher is about to track. -/
def DispatchPhase.untracked : DispatchPhase F → Multiset Uuid
  | reserving _ _ _ _ at_ => at_.granted
  | tracking _ _ _ leases => {leases.capacity.id}
  | _ => 0

/-- The ids about to be tracked. -/
def System.untracked (s : System F σ) : Multiset Uuid :=
  s.handlers.sumOn (fun _ phase => phase.untracked) + s.dispatcher.untracked

/-- The ids ever tracked. -/
def System.tracked (s : System F σ) : Multiset Uuid := (s.taken.filterMap Claim.id? : List Uuid)

/-- The id an effect tracks. -/
def Effect.tracks : Effect F σ → Multiset Uuid
  | track _ id _ => {id}
  | _ => 0

section Tracked

variable [Arith F] {P : Params F σ} {s : System F σ} {n : ℕ} {held : σ → String → Uuid → Prop}

/-- A reservation that is granted gets the id its call was offered. -/
theorem ReservePhase.granted_step {C : Coordinator F σ} (hC : C.Lawful held) (a : Attempt F)
    (env : Ambient) (pending : List String) (c : σ) (at_ : ReservePhase F) :
    (at_.step C a env pending c).1.granted ≤ at_.granted + {env.id} := by
  fun_cases ReservePhase.step C a env pending c at_
  all_goals simp only [granted]
  all_goals first
    | exact Multiset.zero_le _
    | exact Multiset.le_add_right _ _
    | skip
  rename_i hr
  rw [(capacity_law hC).granted_id hr]
  exact Multiset.le_add_left _ _

omit [Arith F] in
theorem Phase.untracked_afterReserve (job : Job F) (charged : F) (at_ : ReservePhase F) :
    (afterReserve job charged at_).untracked = at_.granted := by
  unfold afterReserve
  split <;> rfl

omit [Arith F] in
theorem Phase.untracked_afterLeave (job : Job F) (error : Option CoordinatorError) :
    (afterLeave job error).untracked = 0 := by
  cases error <;> rfl

omit [Arith F] in
theorem DispatchPhase.untracked_afterReserve (req : AdmissionRequest F) (p : Pending F)
    (config : Config F) (charged : F) (at_ : ReservePhase F) :
    (afterReserve req p config charged at_).untracked = at_.granted := by
  unfold afterReserve
  split <;> first | rfl | skip
  rename_i r hr
  cases r with
  | error e => rfl
  | ok leases =>
    cases leases with
    | none => rfl
    | some leases => exact absurd rfl (hr leases)

omit [Arith F] in
theorem DispatchPhase.untracked_afterLeave (req : AdmissionRequest F) (q : Option (Pending F)) :
    (afterLeave req q).untracked = 0 := by
  cases q <;> rfl

omit [Arith F] in
theorem DispatchPhase.untracked_afterPop (r : Except String (Option (AdmissionRequest F))) :
    (afterPop r).untracked = 0 := by
  unfold afterPop
  split <;> rfl

/-- **A handler tracks what it was granted**, and is granted the next id. -/
theorem Phase.move_untracked (hC : P.coordinator.Lawful held) {phase : Phase F}
    {choice : Choice F} {m : Move F σ (Phase F)} (h : phase.move P s n choice = some m) :
    m.next.untracked + m.effect.tracks ≤ phase.untracked + m.effect.grants s.nextId := by
  revert h
  fun_cases Phase.move P s n phase choice <;> intro h <;> cases h
  all_goals simp only [untracked_afterReserve, untracked_afterLeave]
  all_goals simp only [untracked, ReservePhase.granted_tenant, Effect.tracks, Effect.grants,
    add_zero, zero_add, le_refl, Multiset.zero_le]
  exact ReservePhase.granted_step hC _ s.ambient _ _ _

/-- And so does the dispatcher. -/
theorem DispatchPhase.move_untracked (hC : P.coordinator.Lawful held) {d : DispatchPhase F}
    {m : Move F σ (DispatchPhase F)} (h : d.move P s = some m) :
    m.next.untracked + m.effect.tracks ≤ d.untracked + m.effect.grants s.nextId := by
  revert h
  fun_cases DispatchPhase.move P s d <;> intro h <;> cases h
  all_goals simp only [untracked_afterReserve, untracked_afterLeave, untracked_afterPop]
  all_goals simp only [untracked, ReservePhase.granted_tenant, Effect.tracks, Effect.grants,
    add_zero, zero_add, le_refl, Multiset.zero_le]
  exact ReservePhase.granted_step hC _ s.ambient _ _ _

theorem tracked_apply (P : Params F σ) (s : System F σ) (e : Effect F σ) :
    (e.apply P s).tracked = e.tracks + s.tracked := by
  cases e with
  | track pool id units =>
    simp only [System.tracked, Effect.apply, Effect.tracks, List.filterMap_cons, Claim.id?]
    rfl
  | _ => exact (zero_add _).symm

/-- **No id is tracked twice.** -/
def Once (s : System F σ) : Prop := Issued (s.tracked + s.untracked) s.nextId

theorem Once.handler (hC : P.coordinator.Lawful held) (h : Once s) {phase : Phase F}
    {choice : Choice F} {m : Move F σ (Phase F)} (hn : s.handlers.get? n = some phase)
    (hm : phase.move P s n choice = some m) :
    Once ((m.effect.apply P (s.bump m.counter)).goto n m.next) := by
  have hsum : ((m.effect.apply P (s.bump m.counter)).goto n m.next).untracked + phase.untracked =
      s.untracked + m.next.untracked := sumOver_handler Phase.untracked DispatchPhase.untracked hn hm
  have htracked : ((m.effect.apply P (s.bump m.counter)).goto n m.next).tracked =
      m.effect.tracks + s.tracked := tracked_apply P (s.bump m.counter) m.effect
  refine Issued.apply (s := s.bump m.counter) h ?_
  refine le_of_add_le_add_right (a := phase.untracked) ?_
  calc ((m.effect.apply P (s.bump m.counter)).goto n m.next).tracked +
          ((m.effect.apply P (s.bump m.counter)).goto n m.next).untracked + phase.untracked
      = s.tracked + s.untracked + (m.next.untracked + m.effect.tracks) := by
        rw [add_assoc, hsum, htracked]; abel
    _ ≤ s.tracked + s.untracked + (phase.untracked + m.effect.grants s.nextId) :=
        add_le_add le_rfl (Phase.move_untracked hC hm)
    _ = s.tracked + s.untracked + m.effect.grants s.nextId + phase.untracked := by abel

omit [Arith F] in
/-- A receiver has nothing to track. -/
theorem Phase.receive_untracked {phase phase' : Phase F} {leases : AdmissionLeases F}
    (h : phase.receive leases = some phase') : phase'.untracked = phase.untracked := by
  revert h
  fun_cases Phase.receive leases phase <;> intro h <;> cases h
  · rfl
  · rfl

theorem Once.dispatch (hC : P.coordinator.Lawful held) (h : Once s)
    {m : Move F σ (DispatchPhase F)} (hm : s.dispatcher.move P s = some m) :
    Once { m.effect.apply P (s.bump m.counter) with dispatcher := m.next } := by
  have hsum : System.untracked { m.effect.apply P (s.bump m.counter) with dispatcher := m.next } +
      s.dispatcher.untracked = s.untracked + m.next.untracked := by
    rcases sumOver_dispatch Phase.untracked DispatchPhase.untracked hm with
      ⟨_, _, _, old, _, -, hnext, -, -, hr, hsum⟩ | ⟨-, hsum⟩
    · rw [Phase.receive_untracked hr, add_left_comm, add_left_comm _ old.untracked] at hsum
      rw [hnext] at hsum ⊢
      exact add_left_cancel hsum
    · exact hsum
  have htracked : System.tracked { m.effect.apply P (s.bump m.counter) with dispatcher := m.next } =
      m.effect.tracks + s.tracked := tracked_apply P (s.bump m.counter) m.effect
  refine Issued.apply (s := s.bump m.counter) h ?_
  refine le_of_add_le_add_right (a := s.dispatcher.untracked) ?_
  rw [add_assoc, hsum, htracked]
  calc m.effect.tracks + s.tracked + (s.untracked + m.next.untracked)
      = s.tracked + s.untracked + (m.next.untracked + m.effect.tracks) := by abel
    _ ≤ s.tracked + s.untracked + (s.dispatcher.untracked + m.effect.grants s.nextId) :=
        add_le_add le_rfl (DispatchPhase.move_untracked hC hm)
    _ = s.tracked + s.untracked + m.effect.grants s.nextId + s.dispatcher.untracked := by abel

omit [Arith F] in
/-- A reservation is in the list once if its id is. -/
theorem count_reservation_le {claims : List Claim} (h : (claims.filterMap Claim.id?).Nodup)
    (pool : String) (id : Uuid) : claims.count (.reservation pool id) ≤ 1 := by
  induction claims with
  | nil => exact Nat.zero_le _
  | cons c claims ih =>
    have hsub : (claims.filterMap Claim.id?).Nodup :=
      h.sublist ((List.sublist_cons_self c claims).filterMap _)
    by_cases hc : c = .reservation pool id
    · -- the id is in the head, and so not in the tail
      subst hc
      have hnot : Claim.reservation pool id ∉ claims := by
        intro hmem
        rw [List.filterMap_cons] at h
        exact (List.nodup_cons.mp h).1 (List.mem_filterMap.mpr ⟨_, hmem, rfl⟩)
      rw [List.count_cons_self, List.count_eq_zero.mpr hnot]
    · rw [List.count_cons_of_ne hc]
      exact ih hsub

end Tracked

/-! ## Conservation along a run -/

/-- **Claims are conserved**: the bookkeeping shows what tasks hold, each id
is tracked once, and entries belong to the requests they are found for. -/
structure Conserved (s : System F σ) : Prop where
  linked : Linked s
  matched : Matched s
  once : Once s
  accurate : Accurate s s.owned

section Conserved

variable [Arith F] {P : Params F σ} {s t : System F σ} {held : σ → String → Uuid → Prop}

theorem conserved_build (config : Config F) (coordinator : σ) :
    Conserved (System.build config coordinator) where
  linked := linked_build config coordinator
  matched req p h := by cases h
  once := ⟨Multiset.nodup_zero, fun i hi => absurd hi (Multiset.notMem_zero i)⟩
  accurate :=
    { balance := rfl
      tenants := fun k => rfl
      applications := fun k => rfl
      reserved := by
        intro pool id
        simp only [System.reserves, System.build, OrdMap.get?_mapVal]
        cases config.pools.get? pool with
        | none => simp [System.owned, DispatchPhase.claims]
        | some c => simp [System.owned, DispatchPhase.claims, CapacityModel.new]
      active := rfl }

omit [Arith F] in
theorem Accurate.bump {claims : Multiset Claim} (h : Accurate s claims) (c : Option Counter) :
    Accurate (s.bump c) claims :=
  ⟨h.balance, h.tenants, h.applications, h.reserved, (System.bump_active c).trans h.active⟩

omit [Arith F] in
/-- A reservation is held at most once. -/
theorem Conserved.owned_once (h : Conserved s) (pool : String) (id : Uuid) :
    s.owned.count (.reservation pool id) ≤ 1 := by
  have hnd : s.tracked.Nodup := Multiset.nodup_of_le (Multiset.le_add_right _ _) h.once.nodup
  have hle : s.owned ≤ s.taken := h.accurate.balance ▸ Multiset.le_add_left _ _
  refine (Multiset.count_le_of_le _ hle).trans ?_
  rw [Multiset.coe_count]
  exact count_reservation_le (Multiset.coe_nodup.mp hnd) pool id

omit [Arith F] in
/-- What is about to be tracked is not held yet. -/
theorem Conserved.not_owned (h : Conserved s) {pool : String} {id : Uuid}
    (hid : id ∈ s.untracked) : Claim.reservation pool id ∉ s.owned := by
  intro hmem
  have htaken : Claim.reservation pool id ∈ s.taken := by
    have : Claim.reservation pool id ∈ (s.taken : Multiset Claim) := by
      rw [h.accurate.balance]
      exact Multiset.mem_add.mpr (Or.inr hmem)
    exact Multiset.mem_coe.mp this
  have htracked : id ∈ s.tracked :=
    Multiset.mem_coe.mpr (List.mem_filterMap.mpr ⟨_, htaken, rfl⟩)
  exact Multiset.disjoint_left.mp (Multiset.nodup_add.mp h.once.nodup).2.2 htracked hid

/-- A handler tracks in a pool that exists, and the id it was granted. -/
theorem Phase.move_track {n : ℕ} {phase : Phase F} {choice : Choice F} {m : Move F σ (Phase F)}
    {pool : String} {id : Uuid} {units : F} (h : phase.move P s n choice = some m)
    (he : m.effect = .track pool id units) :
    (s.pools.get? pool).isSome ∧ id ∈ phase.untracked := by
  revert h
  fun_cases Phase.move P s n phase choice <;> intro h <;> cases h <;> cases he
  rename_i hpool
  exact ⟨Option.isSome_iff_exists.mpr ⟨_, hpool⟩, Multiset.mem_singleton_self _⟩

/-- And so does the dispatcher. -/
theorem DispatchPhase.move_track {d : DispatchPhase F} {m : Move F σ (DispatchPhase F)}
    {pool : String} {id : Uuid} {units : F} (h : d.move P s = some m)
    (he : m.effect = .track pool id units) :
    (s.pools.get? pool).isSome ∧ id ∈ d.untracked := by
  revert h
  fun_cases DispatchPhase.move P s d <;> intro h <;> cases h <;> cases he
  rename_i hpool
  exact ⟨Option.isSome_iff_exists.mpr ⟨_, hpool⟩, Multiset.mem_singleton_self _⟩

/-- **A step without loss conserves the claims.** -/
theorem Conserved.step (hC : P.coordinator.Lawful held) {a : Action F} (h : Conserved s)
    (hok : noLoss s a = true) (hs : step P s a = some t) : Conserved t := by
  have hlinked := h.linked.step hs
  have ha := h.accurate
  cases stepped hs with
  | arrive =>
    have hclaims : ∀ b, (Phase.first b : Phase F).claims = 0 := by
      intro b
      cases b <;> rfl
    have huntracked : ∀ b, (Phase.first b : Phase F).untracked = 0 := by
      intro b
      cases b <;> rfl
    have howned : (s.handlers.insert s.nextTask (.first s.draining)).sumOn
        (fun _ phase => phase.claims) = s.handlers.sumOn fun _ phase => phase.claims := by
      rw [h.linked.sumOn_arrive, hclaims, zero_add]
    have hids : (s.handlers.insert s.nextTask (.first s.draining)).sumOn
        (fun _ phase => phase.untracked) = s.handlers.sumOn fun _ phase => phase.untracked := by
      rw [h.linked.sumOn_arrive, huntracked, zero_add]
    refine ⟨hlinked, h.matched, ?_, ?_⟩
    · unfold Once System.untracked
      simp only [System.goto, System.bump, hids]
      exact h.once
    · unfold System.owned
      simp only [System.goto, System.bump, howned]
      have hacc := ha.bump (firstCounter s.draining)
      exact ⟨hacc.balance, hacc.tenants, hacc.applications, hacc.reserved, hacc.active⟩
  | @handler n choice phase m hn hm =>
    have hk : phase.keeps choice = true := by
      simpa [noLoss, hn] using hok
    have hacc := ha.bump m.counter
    refine ⟨hlinked, ?_, h.once.handler hC hn hm, ?_⟩
    · intro req p hp
      refine h.matched req p ?_
      rwa [System.goto, Effect.apply_dispatcher] at hp
    · have hnew := hacc.apply (owned_step_handler hn hm hk) h.owned_once (P := P)
        fun pool id units he => ?_
      · exact ⟨hnew.balance, hnew.tenants, hnew.applications, hnew.reserved, hnew.active⟩
      · obtain ⟨hpool, hid⟩ := Phase.move_track hm he
        refine ⟨hpool, h.not_owned (Multiset.mem_add.mpr (Or.inl ?_))⟩
        rw [OrdMap.sumOn_eq_add_erase hn]
        exact Multiset.mem_add.mpr (Or.inl hid)
  | @dispatch m hm =>
    have hacc := ha.bump m.counter
    refine ⟨hlinked, ?_, h.once.dispatch hC hm, ?_⟩
    · intro req p hp
      rcases DispatchPhase.move_pair hm hp with hp | ⟨hd, hp⟩
      · exact h.matched req p hp
      · simpa [noLoss, hd, hp] using hok
    · have hnew := hacc.apply (owned_step_dispatch h.linked h.matched hm) h.owned_once (P := P)
        fun pool id units he => ?_
      · exact ⟨hnew.balance, hnew.tenants, hnew.applications, hnew.reserved, hnew.active⟩
      · obtain ⟨hpool, hid⟩ := DispatchPhase.move_track hm he
        exact ⟨hpool, h.not_owned (Multiset.mem_add.mpr (Or.inr hid))⟩
  | release hk =>
    refine ⟨hlinked, h.matched, ?_, ⟨ha.balance, ha.tenants, ha.applications, ha.reserved,
      ha.active⟩⟩
    exact (Issued.issue h.once).mono (Multiset.le_add_right _ _)
  | advance d =>
    exact ⟨hlinked, h.matched, h.once,
      ⟨ha.balance, ha.tenants, ha.applications, ha.reserved, ha.active⟩⟩
  | reload config =>
    exact ⟨hlinked, h.matched, h.once,
      ⟨ha.balance, ha.tenants, ha.applications, ha.reserved, ha.active⟩⟩
  | drain =>
    exact ⟨hlinked, h.matched, h.once,
      ⟨ha.balance, ha.tenants, ha.applications, ha.reserved, ha.active⟩⟩

/-- Nothing more happens in a handler, nor in the task that streams for
it. -/
def Phase.isDone : Phase F → Bool
  | done _ => true
  | _ => false

/-- The dispatcher is between two iterations, or gone. -/
def DispatchPhase.isBetween : DispatchPhase F → Bool
  | idle => true
  | ticked => true
  | exited => true
  | _ => false

/-- **Quiescence**: no handler, no streaming task, no iteration of the
dispatcher and no release task is alive, and the scheduler is empty. -/
def System.quiet (s : System F σ) : Bool :=
  s.handlers.values.all (·.isDone) && s.dispatcher.isBetween &&
    s.releases.values.all (·.isEmpty) && s.scheduler.queues.entries.isEmpty

omit [Arith F] in
/-- Nothing is held at rest. -/
theorem owned_of_quiet (h : s.quiet = true) : s.owned = 0 := by
  simp only [System.quiet, Bool.and_eq_true, List.all_eq_true] at h
  obtain ⟨⟨⟨hdone, hbetween⟩, -⟩, -⟩ := h
  have hhandlers : s.handlers.sumOn (fun _ phase => phase.claims) = 0 := by
    refine List.sum_eq_zero fun x hx => ?_
    obtain ⟨e, he, rfl⟩ := List.mem_map.mp hx
    have hd := hdone e.2 (List.mem_map.mpr ⟨e, he, rfl⟩)
    cases hphase : e.2 with
    | done r => rfl
    | _ => rw [hphase] at hd; cases hd
  unfold System.owned
  rw [hhandlers, zero_add]
  cases hd : s.dispatcher with
  | idle => rfl
  | ticked => rfl
  | exited => rfl
  | _ => rw [hd] at hbetween; cases hbetween

/-- **Claim conservation.** In a run none of whose steps loses a claim,
every claim taken has been returned or is held by one task, no id is
tracked twice, and at rest the local bookkeeping is empty. -/
theorem claims_conserved (hC : P.coordinator.Lawful held) (config : Config F) (coordinator : σ)
    {es : List (Action F)}
    (hrun : Trace (Guarded (fun s a => noLoss s a = true) (StepOf (step P)))
      (System.build config coordinator) es s) :
    (∀ c, s.taken.count c = s.returned.count c + s.owned.count c) ∧
      (∀ pool id, s.taken.count (.reservation pool id) ≤ 1) ∧
      (s.quiet = true → s.concurrency.tenants = ∅ ∧ s.concurrency.applications = ∅ ∧
        (∀ pool rt, s.pools.get? pool = some rt → rt.capacity.reservations = ∅) ∧
        s.metrics.active = 0) := by
  have h : Conserved s := hrun.invariant (conserved_build config coordinator)
    fun h hs => h.step hC hs.1 hs.2
  refine ⟨fun c => ?_, fun pool id => ?_, fun hquiet => ?_⟩
  · have := congrArg (Multiset.count c) h.accurate.balance
    rwa [Multiset.count_add, Multiset.coe_count, Multiset.coe_count] at this
  · have hnd : s.tracked.Nodup := Multiset.nodup_of_le (Multiset.le_add_right _ _) h.once.nodup
    exact count_reservation_le (Multiset.coe_nodup.mp hnd) pool id
  · have ha := h.accurate
    rw [owned_of_quiet hquiet] at ha
    refine ⟨ha.tenants.eq_empty fun k => rfl, ha.applications.eq_empty fun k => rfl,
      fun pool rt hrt => ?_, ha.active⟩
    apply OrdMap.ext
    refine List.eq_nil_iff_forall_not_mem.mpr fun e he => ?_
    -- a stored id would be a claim that someone holds
    have hres : s.reserves pool e.1 = true := by
      simp [System.reserves, hrt, OrdMap.get?_eq_some.mpr he]
    exact absurd ((ha.reserved pool e.1).mp hres) (Multiset.notMem_zero _)

end Conserved

/-- A request is admitted, its client goes away during the dispatch, and
everything it held comes back. -/
def abandonedDispatch : List (Action ℚ) :=
  admits 0 (sampleArrival 1 2) ++ [.handler 0 .drop] ++ goOn 0 4 ++
    List.replicate 3 (.release 1)

/-- Three claims are taken and returned in that run. -/
theorem claims_conserved_abandoned :
    ∃ s, Trace (Guarded (fun s a => noLoss s a = true)
        (StepOf (step (Params.inMemory (Config.minimal .enforce [])))))
        (System.build (Config.minimal .enforce []) ∅) abandonedDispatch s ∧
      s.taken.length = 3 ∧ s.concurrency.tenants = ∅ ∧ s.metrics.active = 0 := by
  have hrun : (abandonedDispatch.foldlM
      (fun s a => if noLoss s a then step (Params.inMemory (Config.minimal .enforce [])) s a
        else none) (System.build (Config.minimal .enforce []) ∅)).any
      (fun s => s.quiet && s.taken.length == 3) = true := by
    decide +kernel
  obtain ⟨s, htrace, hend⟩ := Trace.exists_guarded_of_any hrun
  obtain ⟨hquiet, htaken⟩ := Bool.and_eq_true_iff.mp hend
  have hempty := (claims_conserved InMemoryCoordinator.coordinator_lawful _ _ htrace).2.2 hquiet
  exact ⟨s, htrace, beq_iff_eq.mp htaken, hempty.1, hempty.2.2.2⟩

/-- A second request queues behind the first. The first one is abandoned,
the dispatcher admits the second and sends it its leases, and the second
client goes away before its handler is polled again. -/
def abandonedWait : List (Action ℚ) :=
  admits 0 (sampleArrival 1 2) ++ begins 1 (sampleArrival 2 2) ++ goOn 1 2 ++
    [.handler 0 .drop] ++ goOn 0 4 ++ List.replicate 3 (.release 2) ++
    List.replicate 12 .dispatch ++ [.handler 1 .drop]

/-- **A receiver dropped with its leases leaks them.** At rest the tenant
still holds its one slot and the pool a reservation, and nothing is left to
give them back. -/
theorem dropped_receiver_leaks :
    ∃ s, Trace (StepOf (step (Params.inMemory (Config.minimal .enforce []))))
        (System.build (Config.minimal .enforce []) ∅) abandonedWait s ∧
      s.quiet = true ∧ count s.concurrency.tenants "tenant" = 1 ∧
      s.reserves "primary" 10 = true := by
  have hrun : (abandonedWait.foldlM (step (Params.inMemory (Config.minimal .enforce [])))
      (System.build (Config.minimal .enforce []) ∅)).any
      (fun s => s.quiet && (count s.concurrency.tenants "tenant" == 1 &&
        s.reserves "primary" 10)) = true := by
    decide +kernel
  obtain ⟨s, htrace, hend⟩ := Trace.exists_of_any hrun
  obtain ⟨hquiet, hend⟩ := Bool.and_eq_true_iff.mp hend
  obtain ⟨hcount, hres⟩ := Bool.and_eq_true_iff.mp hend
  exact ⟨s, htrace, hquiet, beq_iff_eq.mp hcount, hres⟩

end Proxy

end InferQos
