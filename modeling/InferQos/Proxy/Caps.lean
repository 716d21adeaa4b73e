import InferQos.Proxy.Conservation
import InferQos.Proxy.Provenance
import InferQos.Proxy.Waiting
/-!
# The concurrency caps, over whole runs

`try_enter` tests two counters against `max_concurrency`, and tasks come
and go through them: handlers, the dispatcher on a handler's behalf, guards
on their way out, clients that disappear at any await. A lost claim leaves
a counter too high and never too low, so in enforce mode the counters bound
the requests in flight whatever the interleaving, losses included.

One thing has to be asked for: that a request id names one identity.
`pending` is keyed by an id the client chooses, and the dispatcher enters
for the request it popped and leaves with the entry it found.
-/

namespace InferQos

namespace Proxy

variable {F σ : Type}

/-! ## The two caps -/

/-- What `max_concurrency` is configured for. -/
inductive Cap
  | tenant
  | application
  deriving DecidableEq

namespace Cap

/-- The name an identity is counted under. -/
def name : Cap → IdentityContext → String
  | tenant, identity => identity.tenant
  | application, identity => identity.application

/-- The counter it is counted in. -/
def values : Cap → ConcurrencyState → OrdMap String ℕ
  | tenant, active => active.tenants
  | application, active => active.applications

/-- The limit `try_enter` reads. -/
def limit : Cap → Config F → String → ℕ
  | tenant, config => config.tenantConcurrency
  | application, config => config.applicationConcurrency

variable {cap : Cap} {active : ConcurrencyState} {identity : IdentityContext} {k : String}

theorem count_increment (m : OrdMap String ℕ) (k k' : String) :
    count (increment m k) k' = count m k' + if k' = k then 1 else 0 := by
  unfold increment count
  rw [OrdMap.get?_insert]
  split
  · rename_i h
    rw [h]
    rfl
  · rfl

theorem count_decrement (m : OrdMap String ℕ) (k k' : String) :
    count (decrement m k) k' = count m k' - if k' = k then 1 else 0 := by
  unfold decrement
  cases hm : m.get? k with
  | none =>
    by_cases hk : k' = k
    · simp [count, hk, hm]
    · simp [hk]
  | some v =>
    by_cases hk : k' = k
    · subst hk
      by_cases hv : v - 1 = 0
      · simp [count, hm, hv]
      · simp [count, hm, hv]
    · by_cases hv : v - 1 = 0
      · simp [count, hk, hv]
      · simp [count, hk, hv]

theorem count_forceEnter : count (cap.values (forceEnter active identity)) k =
    count (cap.values active) k + if k = cap.name identity then 1 else 0 := by
  cases cap <;> exact count_increment _ _ _

theorem count_leave : count (cap.values (leave active identity)) k =
    count (cap.values active) k - if k = cap.name identity then 1 else 0 := by
  cases cap <;> exact count_decrement _ _ _

/-- **An entry was below both limits.** -/
theorem count_lt_of_tryEnter {config : Config F} {entered : ConcurrencyState}
    (h : tryEnter config active identity = some entered) :
    count (cap.values active) (cap.name identity) < cap.limit config (cap.name identity) := by
  unfold tryEnter at h
  split at h
  · cases h
  · rename_i hroom
    obtain ⟨htenant, happ⟩ := not_or.mp hroom
    cases cap with
    | tenant => exact not_le.mp htenant
    | application => exact not_le.mp happ

end Cap

/-! ## Slots held -/

section Slots

variable {name : IdentityContext → String} {k : String}

@[simp] theorem slots_zero : slots name 0 k = 0 := Multiset.countP_zero _

@[simp] theorem slots_one {identity : IdentityContext} :
    slots name {.slot identity} k = if k = name identity then 1 else 0 := by
  rw [← Multiset.cons_zero, slots_slot, slots_zero, Nat.zero_add]

@[simp] theorem slots_one_reservation {pool : String} {id : Uuid} :
    slots name {.reservation pool id} k = 0 := by
  rw [← Multiset.cons_zero, slots_reservation, slots_zero]

@[simp] theorem slots_one_active : slots name {.active} k = 0 := by
  rw [← Multiset.cons_zero, slots_active, slots_zero]

@[simp] theorem slots_add (a b : Multiset Claim) :
    slots name (a + b) k = slots name a k + slots name b k :=
  Multiset.countP_add _ _ _

theorem slots_le {a b : Multiset Claim} (h : a ≤ b) : slots name a k ≤ slots name b k :=
  Multiset.countP_le_of_le _ h

@[simp] theorem slots_admissionClaims (r : AdmissionRequest F) (leases : AdmissionLeases F) :
    slots name (admissionClaims r leases) k = if k = name r.identity then 1 else 0 := by
  rw [admissionClaims, slots_add, slots_one, slots_one_reservation, Nat.add_zero]

@[simp] theorem slots_guardClaims (r : AdmissionRequest F) (leases : Option (AdmissionLeases F)) :
    slots name (guardClaims r leases) k = if k = name r.identity then 1 else 0 := by
  cases leases with
  | none => exact slots_one
  | some l => exact slots_admissionClaims r l

end Slots

/-- **How many slots tasks hold** under a name. -/
def System.heldSlots (s : System F σ) (cap : Cap) (k : String) : ℕ :=
  s.sumOver (fun phase => slots cap.name phase.claims k) fun d => slots cap.name d.claims k

/-- The request of an `ActiveAdmissionGuard` that is still counted. -/
def Phase.guarding : Phase F → Option (AdmissionRequest F)
  | loading job _ => some job.request
  | dispatching job _ => some job.request
  | opening job _ _ => some job.request
  | streaming job _ _ _ _ => some job.request
  | completing job _ _ _ _ => some job.request
  | closing job _ _ => some job.request
  | spawning job _ _ => some job.request
  | departing job _ => some job.request
  | _ => none

/-- **How many requests are in flight** under a name: the guards alive for
it. -/
def System.activeUnder (s : System F σ) (cap : Cap) (k : String) : ℕ :=
  s.handlers.values.countP fun phase => phase.guarding.any (cap.name ·.identity = k)

/-- A guard holds the slot of its request. -/
theorem Phase.guarding_le {phase : Phase F} {cap : Cap} {k : String} :
    (if phase.guarding.any (cap.name ·.identity = k) then 1 else 0) ≤
      slots cap.name phase.claims k := by
  cases phase with
  | loading job leases => simp [guarding, claims, eq_comm]
  | dispatching job leases => simp [guarding, claims, eq_comm]
  | opening job leases throttled => simp [guarding, claims, eq_comm]
  | streaming job leases throttled due stage => simp [guarding, claims, eq_comm]
  | completing job leases rest actual throttled => simp [guarding, claims, eq_comm]
  | closing job leases response => simp [guarding, claims, eq_comm]
  | spawning job leases response => simp [guarding, claims, -Multiset.singleton_add, eq_comm]
  | departing job response => simp [guarding, claims, -Multiset.singleton_add, eq_comm]
  | _ => exact Nat.zero_le _

/-- **Requests in flight hold slots.** -/
theorem System.activeUnder_le (s : System F σ) (cap : Cap) (k : String) :
    s.activeUnder cap k ≤ s.heldSlots cap k := by
  refine le_trans ?_ (Nat.le_add_right _ _)
  unfold activeUnder OrdMap.values OrdMap.sumOn
  induction s.handlers.entries with
  | nil => exact Nat.le_refl _
  | cons e es ih =>
    simp only [List.map_cons, List.countP_cons, List.sum_cons]
    exact (Nat.add_comm _ _).trans_le (Nat.add_le_add Phase.guarding_le ih)

/-! ## Steps -/

section Steps

variable [Arith F] {P : Params F σ} {s t : System F σ} {n : ℕ} {cap : Cap} {k : String}
variable {identity : IdentityContext}

/-- **A handler never ends up with claims it has not taken**, whatever it
loses. -/
theorem Phase.move_claims_le {phase : Phase F} {choice : Choice F} {m : Move F σ (Phase F)}
    (h : phase.move P s n choice = some m) :
    m.next.claims + m.effect.gives ≤ phase.claims + m.effect.takes := by
  by_cases hk : phase.keeps choice = true
  · exact (move_balance hk h).le
  -- what is left holds nothing any more and gives nothing back
  · unfold keeps at hk
    split at hk
    · simp only [Phase.move] at h
      split at h
      · cases h
        exact Multiset.zero_le _
      · cases h
    · cases h
      exact Multiset.zero_le _
    · cases h
      exact Multiset.zero_le _
    · exact absurd rfl hk

/-- **A handler enters below the limits**, or by force in shadow mode. -/
theorem Phase.move_enter {phase : Phase F} {choice : Choice F} {m : Move F σ (Phase F)}
    (h : phase.move P s n choice = some m) (he : m.effect = .enter identity) :
    ∃ config, phase.config? = some config ∧
      (config.mode = .shadow ∨ ∃ entered, tryEnter config s.concurrency identity = some entered) := by
  revert h
  fun_cases Phase.move P s n phase choice <;> intro h <;> cases h <;> cases he
  · rename_i henter
    exact ⟨_, rfl, Or.inr ⟨_, henter⟩⟩
  · rename_i hmode
    exact ⟨_, rfl, Or.inl hmode⟩

/-- The dispatcher enters below them. -/
theorem DispatchPhase.move_enter {d : DispatchPhase F} {m : Move F σ (DispatchPhase F)}
    (h : d.move P s = some m) (he : m.effect = .enter identity) :
    ∃ config, d.config? = some config ∧ ∃ entered, tryEnter config s.concurrency identity =
      some entered := by
  revert h
  fun_cases DispatchPhase.move P s d <;> intro h <;> cases h <;> cases he
  rename_i henter
  exact ⟨_, rfl, _, henter⟩

/-- **What a counter shows after an effect**: it covers what is held, and an
entry below the limit stays within it. -/
theorem Effect.apply_count {e : Effect F σ} {held held' limit : ℕ}
    (hheld : held' + slots cap.name e.gives k ≤ held + slots cap.name e.takes k)
    (hcovers : held ≤ count (cap.values s.concurrency) k)
    (hwithin : count (cap.values s.concurrency) k ≤ limit)
    (hroom : ∀ identity, e = .enter identity → k = cap.name identity →
      count (cap.values s.concurrency) k < limit) :
    held' ≤ count (cap.values (e.apply P s).concurrency) k ∧
      count (cap.values (e.apply P s).concurrency) k ≤ limit := by
  cases e with
  | enter identity =>
    simp only [gives, takes, slots_one, slots_zero, Nat.add_zero] at hheld
    simp only [apply, Cap.count_forceEnter]
    split
    · rename_i hk
      rw [if_pos hk] at hheld
      have := hroom identity rfl hk
      omega
    · rename_i hk
      rw [if_neg hk] at hheld
      omega
  | leave identity =>
    simp only [gives, takes, slots_one, slots_zero, Nat.add_zero] at hheld
    simp only [apply, Cap.count_leave]
    omega
  | _ =>
    simp only [takes, slots_zero, slots_one_reservation, slots_one_active, Nat.add_zero] at hheld
    exact ⟨le_trans (le_trans (Nat.le_add_right _ _) hheld) hcovers, hwithin⟩

end Steps

/-! ## Along a run -/

/-- **A configuration enforces, within these limits.** -/
def Respects (limits : Cap → String → ℕ) (config : Config F) : Prop :=
  config.mode = .enforce ∧ ∀ (cap : Cap) (k : String), cap.limit config k ≤ limits cap k

/-- A request carries the identity its id belongs to. -/
def OwnedBy (owner : Uuid → IdentityContext) (r : AdmissionRequest F) : Prop :=
  r.identity = owner r.id

/-- **What a run may bring in**: requests whose id names their identity, and
configurations that enforce within the limits. -/
def Admissible (limits : Cap → String → ℕ) (owner : Uuid → IdentityContext) : Action F → Prop
  | .handler _ (.arrive arrival) => arrival.identity = owner arrival.requestId
  | .reload config => Respects limits config
  | _ => True

theorem prepare_identity {config : Config F} {pools : List String} {arrival : Arrival F}
    {job : Job F} (h : prepare config pools arrival = .ok job) :
    job.request.identity = arrival.identity ∧ job.request.id = arrival.requestId := by
  unfold prepare at h
  revert h
  dsimp only
  repeat' split
  all_goals intro h; cases h
  exact ⟨rfl, rfl⟩

theorem Admissible.brings {limits : Cap → String → ℕ} {owner : Uuid → IdentityContext}
    {a : Action F} (h : Admissible limits owner a) (pools : List String) :
    Brings (OwnedBy owner) (Respects limits) pools a := by
  cases a with
  | handler n choice =>
    cases choice with
    | arrive arrival =>
      intro config job _ hprep
      obtain ⟨hidentity, hid⟩ := prepare_identity hprep
      unfold OwnedBy
      rw [hidentity, hid]
      exact h
    | _ => trivial
  | reload config => exact h
  | _ => trivial

/-- **The counters cover what is held and stay within the limits.** -/
structure Capped (limits : Cap → String → ℕ) (owner : Uuid → IdentityContext) (s : System F σ) :
    Prop where
  linked : Linked s
  sourced : Sourced (OwnedBy owner) (Respects limits) s
  covers : ∀ cap k, s.heldSlots cap k ≤ count (cap.values s.concurrency) k
  within : ∀ cap k, count (cap.values s.concurrency) k ≤ limits cap k

section Run

variable [Arith F] {P : Params F σ} {s t : System F σ} {limits : Cap → String → ℕ}
variable {owner : Uuid → IdentityContext}

theorem capped_build {config : Config F} (coordinator : σ) (h : Respects limits config) :
    Capped limits owner (System.build config coordinator) where
  linked := linked_build config coordinator
  sourced := sourced_build coordinator h
  covers cap k := Nat.zero_le _
  within cap k := by cases cap <;> exact Nat.zero_le _

namespace Capped

omit [Arith F] in
/-- Only the tasks and the counters matter. -/
theorem of_eq (h : Capped limits owner s) (hl : Linked t)
    (hs : Sourced (OwnedBy owner) (Respects limits) t)
    (hheld : ∀ cap k, t.heldSlots cap k = s.heldSlots cap k)
    (hactive : t.concurrency = s.concurrency) : Capped limits owner t where
  linked := hl
  sourced := hs
  covers cap k := by
    rw [hheld, hactive]
    exact h.covers cap k
  within cap k := by
    rw [hactive]
    exact h.within cap k

/-- A handler takes a slot only where there is one left. -/
theorem room_handler (h : Capped limits owner s) {n : ℕ} {phase : Phase F} {choice : Choice F}
    {m : Move F σ (Phase F)} (hphase : s.handlers.get? n = some phase)
    (hm : phase.move P s n choice = some m) {identity : IdentityContext}
    (he : m.effect = .enter identity) (cap : Cap) :
    count (cap.values s.concurrency) (cap.name identity) < limits cap (cap.name identity) := by
  obtain ⟨config, hconfig, hwhy⟩ := Phase.move_enter hm he
  obtain ⟨hmode, hlimit⟩ := h.sourced.cloned hphase hconfig
  rcases hwhy with hshadow | ⟨entered, henter⟩
  · rw [hmode] at hshadow
    cases hshadow
  · exact (Cap.count_lt_of_tryEnter henter).trans_le (hlimit cap _)

/-- And so does the dispatcher. -/
theorem room_dispatch (h : Capped limits owner s) {m : Move F σ (DispatchPhase F)}
    (hm : s.dispatcher.move P s = some m) {identity : IdentityContext}
    (he : m.effect = .enter identity) (cap : Cap) :
    count (cap.values s.concurrency) (cap.name identity) < limits cap (cap.name identity) := by
  obtain ⟨config, hconfig, entered, henter⟩ := DispatchPhase.move_enter hm he
  obtain ⟨-, hlimit⟩ := h.sourced.read hconfig
  exact (Cap.count_lt_of_tryEnter henter).trans_le (hlimit cap _)

/-- **The slots held change by what a step takes and gives back**, a
handler's losses aside. -/
theorem held_handler {n : ℕ} {phase : Phase F} {choice : Choice F} {m : Move F σ (Phase F)}
    (hphase : s.handlers.get? n = some phase) (hm : phase.move P s n choice = some m) (cap : Cap)
    (k : String) :
    ((m.effect.apply P (s.bump m.counter)).goto n m.next).heldSlots cap k +
      slots cap.name m.effect.gives k ≤ s.heldSlots cap k + slots cap.name m.effect.takes k := by
  have hsum := sumOver_handler (fun phase => slots cap.name phase.claims k)
    (fun d => slots cap.name d.claims k) hphase hm
  have hmove : slots cap.name _ k ≤ slots cap.name _ k := slots_le (Phase.move_claims_le hm)
  rw [slots_add, slots_add] at hmove
  unfold System.heldSlots
  omega

/-- A send moves a slot from the dispatcher to the handler it sends to. -/
theorem held_dispatch (h : Capped limits owner s) {m : Move F σ (DispatchPhase F)}
    (hm : s.dispatcher.move P s = some m) (cap : Cap) (k : String) :
    System.heldSlots { m.effect.apply P (s.bump m.counter) with dispatcher := m.next } cap k +
      slots cap.name m.effect.gives k ≤ s.heldSlots cap k + slots cap.name m.effect.takes k := by
  rcases sumOver_dispatch (fun phase => slots cap.name phase.claims k)
    (fun d => slots cap.name d.claims k) hm with
    ⟨req, p, leases, old, new, hsend, -, he, hw, hr, hsum⟩ | ⟨hd, hsum⟩
  · have hpair : s.dispatcher.pair? = some (req, p) := by
      rw [hsend]
      rfl
    obtain ⟨hid, phase, hphase, hserves⟩ := h.linked.carried req p hpair
    obtain rfl : old = phase := Option.some.inj (hw.symm.trans hphase)
    -- the request popped and the entry found have one id, and so one identity
    have hident : p.request.identity = req.identity := by
      have hp : p.request.identity = owner p.request.id := h.sourced.carried hpair
      have hreq : req.identity = owner req.id := h.sourced.popped (by rw [hsend]; rfl)
      rw [hp, hreq, hid]
    have hgives : m.effect.gives = 0 := by
      rw [he]
      rfl
    have htakes : m.effect.takes = 0 := by
      rw [he]
      rfl
    have hidle : slots cap.name (DispatchPhase.idle : DispatchPhase F).claims k = 0 := slots_zero
    rw [hsend, Phase.receive_claims hserves hr, slots_add, slots_admissionClaims, hident,
      DispatchPhase.claims, slots_admissionClaims, hidle] at hsum
    rw [hgives, htakes, slots_zero]
    unfold System.heldSlots
    omega
  · have hmove := congrArg (slots cap.name · k) (DispatchPhase.move_balance hd hm)
    simp only [slots_add] at hmove
    unfold System.heldSlots
    omega

/-- **A step keeps the counters within the limits.** -/
theorem step {a : Action F} (h : Capped limits owner s) (ha : Admissible limits owner a)
    (hs : Proxy.step P s a = some t) : Capped limits owner t := by
  have hl := h.linked.step hs
  have hsourced := h.sourced.step (ha.brings _) hs
  cases stepped hs with
  | arrive =>
    have hfirst : ∀ b, (Phase.first b : Phase F).claims = 0 := by
      intro b
      cases b <;> rfl
    refine h.of_eq hl hsourced (fun cap k => ?_) rfl
    unfold System.heldSlots System.sumOver
    simp only [System.goto, System.bump, h.linked.sumOn_arrive, hfirst, slots_zero, Nat.zero_add]
  | @handler n choice phase m hphase hm =>
    have hcount : ∀ cap k, _ := fun cap k => Effect.apply_count (P := P) (s := s.bump m.counter)
      (held_handler hphase hm cap k) (h.covers cap k) (h.within cap k)
      fun identity he hk => hk ▸ h.room_handler hphase hm he cap
    exact ⟨hl, hsourced, fun cap k => (hcount cap k).1, fun cap k => (hcount cap k).2⟩
  | @dispatch m hm =>
    have hcount : ∀ cap k, _ := fun cap k => Effect.apply_count (P := P) (s := s.bump m.counter)
      (h.held_dispatch hm cap k) (h.covers cap k) (h.within cap k)
      fun identity he hk => hk ▸ h.room_dispatch hm he cap
    exact ⟨hl, hsourced, fun cap k => (hcount cap k).1, fun cap k => (hcount cap k).2⟩
  | release hk => exact h.of_eq hl hsourced (fun _ _ => rfl) rfl
  | advance d => exact h.of_eq hl hsourced (fun _ _ => rfl) rfl
  | reload config => exact h.of_eq hl hsourced (fun _ _ => rfl) rfl
  | drain => exact h.of_eq hl hsourced (fun _ _ => rfl) rfl

end Capped

/-- **The concurrency caps hold over every run.** If every configuration in
force enforces with at most `limits`, and an id names one identity, then no
tenant and no application ever has more requests in flight than its limit:
whichever way handlers, dispatcher and guards interleave, and wherever
clients disappear. -/
theorem in_flight_within_caps (P : Params F σ) {config : Config F} (coordinator : σ)
    (limits : Cap → String → ℕ) (owner : Uuid → IdentityContext) {es : List (Action F)}
    (hconfig : Respects limits config) (hes : ∀ a ∈ es, Admissible limits owner a)
    (hrun : Trace (StepOf (Proxy.step P)) (System.build config coordinator) es s) (cap : Cap)
    (k : String) : s.activeUnder cap k ≤ limits cap k := by
  have h : Capped limits owner s := by
    refine hrun.along (capped_build coordinator hconfig) fun {pre a t u} hpre _ hcapped hs => ?_
    exact hcapped.step (hes a (hpre.subset (List.mem_append_right pre
      (List.mem_singleton_self a)))) hs
  calc s.activeUnder cap k
    _ ≤ s.heldSlots cap k := s.activeUnder_le cap k
    _ ≤ count (cap.values s.concurrency) k := h.covers cap k
    _ ≤ limits cap k := h.within cap k

end Run

/-- A tenant without a policy has one request in flight, and a second one
waits behind it. -/
theorem in_flight_within_caps_queued :
    ∃ s, Trace (StepOf (step (Params.inMemory (Config.minimal .enforce []))))
        (System.build (Config.minimal .enforce []) ∅) queuesBehind s ∧
      s.activeUnder .tenant "tenant" = 1 := by
  have hrun : (queuesBehind.foldlM (step (Params.inMemory (Config.minimal .enforce [])))
      (System.build (Config.minimal .enforce []) ∅)).any
      (fun s => 1 ≤ s.activeUnder .tenant "tenant") = true := by
    decide +kernel
  obtain ⟨s, htrace, hend⟩ := Trace.exists_of_any hrun
  have hconfig : Respects (fun _ _ => 1) (Config.minimal .enforce []) :=
    ⟨rfl, fun cap k => by cases cap <;> exact Nat.le_refl 1⟩
  have hes : ∀ a ∈ queuesBehind,
      Admissible (fun _ _ => 1) (fun _ => (sampleArrival 1 2).identity) a := by
    intro a ha
    simp only [queuesBehind, admits, begins, goOn, List.mem_append, List.mem_cons,
      List.mem_replicate, List.not_mem_nil, or_false] at ha
    rcases ha with ((((rfl | rfl | rfl) | ⟨-, rfl⟩) | ⟨-, rfl⟩) | (rfl | rfl | rfl) | ⟨-, rfl⟩) |
      ⟨-, rfl⟩
    all_goals trivial
  refine ⟨s, htrace, le_antisymm ?_ (of_decide_eq_true hend)⟩
  exact in_flight_within_caps _ _ (fun _ _ => 1) _ hconfig hes htrace .tenant "tenant"

end Proxy

end InferQos
