import InferQos.Coordinator.Agreement
import InferQos.Proxy.PoolLimit
/-!
# The proxy over one coordinator and over another

A step of the system makes at most one call of the `Coordinator` trait, and
what the step does depends on the answer only. So a second coordinator that
answers the call alike takes the system through the same step: `step_onto`
is that, with the state of the coordinator exchanged and the rest of the
system as it is.
-/

namespace InferQos

namespace Proxy

open InMemoryCoordinator (Op)

variable {σ σ' : Type}

/-! ## The call of a step -/

/-- The call a handler's step makes. -/
def Phase.op? (P : Params ℚ σ) (s : System ℚ σ) : Phase ℚ → Choice ℚ → Option (Op ℚ)
  | reserving job charged at_, .next =>
    (s.attempt P job.request job.config charged).bind at_.op?
  | streaming _ _ _ _ (.renewing (lease :: _)), .next => some (.renew lease P.leaseTtl)
  | completing _ _ (lease :: _) _ _, .next => some (.release lease)
  | _, _ => none

/-- The call of the dispatcher's step. -/
def DispatchPhase.op? (P : Params ℚ σ) (s : System ℚ σ) : DispatchPhase ℚ → Option (Op ℚ)
  | reserving req _ config charged at_ => (s.attempt P req config charged).bind at_.op?
  | unsent _ _ (lease :: _) => some (.release lease)
  | _ => none

/-- **The call a step makes**, if it makes one. -/
def System.op? (P : Params ℚ σ) (s : System ℚ σ) : Action ℚ → Option (Op ℚ)
  | .handler n choice => (s.handlers.get? n).bind fun phase => phase.op? P s choice
  | .dispatch => s.dispatcher.op? P s
  | .release k => (s.releases.get? k).bind fun rest => rest.head?.map .release
  | _ => none

/-- The state of a coordinator after a call, or after none. -/
def called (C : Coordinator ℚ σ) (env : Ambient) (c : σ) : Option (Op ℚ) → σ
  | none => c
  | some op => (C.perform env c op).2

/-- Two coordinators answer a call alike. -/
def Alike (C : Coordinator ℚ σ) (D : Coordinator ℚ σ') (env : Ambient) (c : σ) (b : σ')
    (op? : Option (Op ℚ)) : Prop :=
  ∀ op, op? = some op → (C.perform env c op).1 = (D.perform env b op).1

/-! ## Another coordinator -/

/-- The system with another coordinator's state. -/
def System.onto (s : System ℚ σ) (c : σ') : System ℚ σ' where
  now := s.now
  config := s.config
  pools := s.pools
  scheduler := s.scheduler
  pending := s.pending
  draining := s.draining
  metrics := s.metrics
  coordinator := c
  concurrency := s.concurrency
  nextId := s.nextId
  handlers := s.handlers
  releases := s.releases
  nextTask := s.nextTask
  dispatcher := s.dispatcher
  taken := s.taken
  returned := s.returned

/-- The parameters with another coordinator. -/
def Params.onto (P : Params ℚ σ) (C : Coordinator ℚ σ') : Params ℚ σ' where
  coordinator := C
  scheduler := P.scheduler
  leaseTtl := P.leaseTtl

/-- An effect with another coordinator's state after a call. -/
def Effect.onto (c : σ') : Effect ℚ σ → Effect ℚ σ'
  | silent => .silent
  | enter identity => .enter identity
  | leave identity => .leave identity
  | track pool id units => .track pool id units
  | settle pool id predicted actual throttled => .settle pool id predicted actual throttled
  | call _ => .call c
  | schedule op => .schedule op
  | list id p => .list id p
  | unlist id => .unlist id
  | activate => .activate
  | deactivate => .deactivate
  | spawn leases => .spawn leases
  | deliver waiter phase => .deliver waiter phase

/-- A move with another coordinator's state after a call. -/
def Move.onto {α : Type} (c : σ') (m : Move ℚ σ α) : Move ℚ σ' α where
  next := m.next
  effect := m.effect.onto c
  counter := m.counter

/-- The effect leaves the coordinator in this state. -/
def Effect.Leaves (before after : σ) : Effect ℚ σ → Prop
  | call c => c = after
  | _ => before = after

section Steps

variable {C : Coordinator ℚ σ} {D : Coordinator ℚ σ'} {c : σ} {b : σ'} {P : Params ℚ σ}
variable {s t : System ℚ σ} {env : Ambient} {n : ℕ}

/-- **A reservation's step with both.** It goes on alike, and each makes its
call. -/
theorem ReservePhase.step_onto {a : Attempt ℚ} (pending : List String) {at_ : ReservePhase ℚ}
    (h : Alike C D env c b (at_.op? a)) :
    at_.step C a env pending c =
        ((at_.step D a env pending b).1, called C env c (at_.op? a)) ∧
      (at_.step D a env pending b).2 = called D env b (at_.op? a) := by
  cases at_ with
  | tenant =>
    have hsame := Coordinator.Answer.reserved.inj (h _ rfl)
    revert hsame
    simp only [step, op?, called, Coordinator.perform, Attempt.reserveTenant]
    generalize C.reserve env c a.tenantKey _ _ a.leaseTtl = r
    generalize D.reserve env b a.tenantKey _ _ a.leaseTtl = r'
    obtain ⟨x, d⟩ := r
    obtain ⟨x', d'⟩ := r'
    rintro rfl
    rcases x with e | _ | lease <;> exact ⟨rfl, rfl⟩
  | application tenantSlot =>
    have hsame := Coordinator.Answer.reserved.inj (h _ rfl)
    revert hsame
    simp only [step, op?, called, Coordinator.perform, Attempt.reserveApplication]
    generalize C.reserve env c a.applicationKey _ _ a.leaseTtl = r
    generalize D.reserve env b a.applicationKey _ _ a.leaseTtl = r'
    obtain ⟨x, d⟩ := r
    obtain ⟨x', d'⟩ := r'
    rintro rfl
    rcases x with e | _ | lease <;> exact ⟨rfl, rfl⟩
  | limit tenantSlot applicationSlot => exact ⟨rfl, rfl⟩
  | capacity tenantSlot applicationSlot tenantLimit =>
    have hsame := Coordinator.Answer.reserved.inj (h _ rfl)
    revert hsame
    simp only [step, op?, called, Coordinator.perform, Attempt.reserveCapacity]
    generalize C.reserveScoped env c a.request.pool _ _ _ _ a.leaseTtl = r
    generalize D.reserveScoped env b a.request.pool _ _ _ _ a.leaseTtl = r'
    obtain ⟨x, d⟩ := r
    obtain ⟨x', d'⟩ := r'
    rintro rfl
    rcases x with e | _ | lease <;> exact ⟨rfl, rfl⟩
  | undoApplication tenantSlot applicationSlot =>
    have hsame := Coordinator.Answer.released.inj (h _ rfl)
    revert hsame
    simp only [step, op?, called, Coordinator.perform]
    generalize C.release env c applicationSlot = r
    generalize D.release env b applicationSlot = r'
    obtain ⟨x, d⟩ := r
    obtain ⟨x', d'⟩ := r'
    rintro rfl
    rcases x with e | _ <;> exact ⟨rfl, rfl⟩
  | undoTenant tenantSlot =>
    have hsame := Coordinator.Answer.released.inj (h _ rfl)
    revert hsame
    simp only [step, op?, called, Coordinator.perform]
    generalize C.release env c tenantSlot = r
    generalize D.release env b tenantSlot = r'
    obtain ⟨x, d⟩ := r
    obtain ⟨x', d'⟩ := r'
    rintro rfl
    rcases x with e | _ <;> exact ⟨rfl, rfl⟩
  | finished r => exact ⟨rfl, rfl⟩

/-- **An effect with both.** -/
theorem Effect.apply_onto {e : Effect ℚ σ} {d : σ'} (h : (∀ c, e ≠ .call c) → d = b) :
    (e.onto d).apply (P.onto D) (s.onto b) = (e.apply P s).onto d := by
  cases e with
  | call c => rfl
  | _ =>
    rw [h fun c hc => by cases hc]
    rfl

/-- What a move does is the call's, with both: it leaves the one in its state
after the call, and without a call it makes none. -/
def Move.Calls {α : Type} (C : Coordinator ℚ σ) (s : System ℚ σ) (op? : Option (Op ℚ))
    (m : Move ℚ σ α) : Prop :=
  m.effect.Leaves s.coordinator (called C s.ambient s.coordinator op?) ∧
    ((∀ c, m.effect ≠ .call c) → op? = none)

/-- **A handler's step with both.** -/
theorem Phase.move_onto {phase : Phase ℚ} {choice : Choice ℚ} {m : Move ℚ σ (Phase ℚ)}
    (hm : phase.move P s n choice = some m)
    (h : Alike P.coordinator D s.ambient s.coordinator b (phase.op? P s choice)) :
    phase.move (P.onto D) (s.onto b) n choice =
        some (m.onto (called D s.ambient b (phase.op? P s choice))) ∧
      m.Calls P.coordinator s (phase.op? P s choice) := by
  revert h hm
  fun_cases Phase.move P s n phase choice <;> intro hm h <;> cases hm
  all_goals first
    | exact ⟨rfl, rfl, fun _ => rfl⟩
    | exact ⟨rfl, rfl, fun hcall => absurd rfl (hcall _)⟩
    | (refine ⟨?_, rfl, fun _ => rfl⟩
       simp [Phase.move, System.onto, Params.onto, Move.onto, Effect.onto, *]
       done)
    | skip
  · -- the reservation, whose answer decides how the handler goes on
    rename_i job charged at_ a ha r
    have hop : (reserving job charged at_).op? P s .next = at_.op? a := by
      simp only [op?, ha, Option.bind_some]
    have ha' : (s.onto b).attempt (P.onto D) job.request job.config charged = some a := ha
    obtain ⟨hstep, hafter⟩ := ReservePhase.step_onto (C := P.coordinator) (D := D)
      s.pendingTenants (hop ▸ h)
    rw [hop]
    refine ⟨?_, congrArg Prod.snd hstep, fun hcall => absurd rfl (hcall _)⟩
    have hr : r.1 = (at_.step D a s.ambient s.pendingTenants b).1 := congrArg Prod.fst hstep
    simp only [Phase.move, ha', Move.onto, Effect.onto, hr, ← hafter]
    rfl
  · rename_i job since hdead
    have hdead' : ¬ (s.onto b).senderAlive n = true := hdead
    refine ⟨?_, rfl, fun _ => rfl⟩
    simp [Phase.move, hdead', Move.onto, Effect.onto]
  · rename_i stage actual hstage
    cases stage with
    | renewing rest => exact absurd rfl (hstage rest)
    | _ => exact ⟨rfl, rfl, fun _ => rfl⟩
  · rename_i stage actual hstage
    cases stage with
    | renewing rest => exact absurd rfl (hstage rest)
    | _ => exact ⟨rfl, rfl, fun _ => rfl⟩

/-- **The dispatcher's step with both.** -/
theorem DispatchPhase.move_onto {d : DispatchPhase ℚ} {m : Move ℚ σ (DispatchPhase ℚ)}
    (hm : d.move P s = some m)
    (h : Alike P.coordinator D s.ambient s.coordinator b (d.op? P s)) :
    d.move (P.onto D) (s.onto b) = some (m.onto (called D s.ambient b (d.op? P s))) ∧
      m.Calls P.coordinator s (d.op? P s) := by
  revert h hm
  fun_cases DispatchPhase.move P s d <;> intro hm h <;> cases hm
  all_goals first
    | exact ⟨rfl, rfl, fun _ => rfl⟩
    | exact ⟨rfl, rfl, fun hcall => absurd rfl (hcall _)⟩
    | (refine ⟨?_, rfl, fun _ => rfl⟩
       simp [DispatchPhase.move, System.onto, Move.onto, Effect.onto, *])
    | skip
  rename_i req p config charged at_ a ha r
  have hop : (reserving req p config charged at_).op? P s = at_.op? a := by
    simp only [op?, ha, Option.bind_some]
  have ha' : (s.onto b).attempt (P.onto D) req config charged = some a := ha
  obtain ⟨hstep, hafter⟩ := ReservePhase.step_onto (C := P.coordinator) (D := D)
    s.pendingTenants (hop ▸ h)
  rw [hop]
  refine ⟨?_, congrArg Prod.snd hstep, fun hcall => absurd rfl (hcall _)⟩
  have hr : r.1 = (at_.step D a s.ambient s.pendingTenants b).1 := congrArg Prod.fst hstep
  simp only [DispatchPhase.move, ha', Move.onto, Effect.onto, hr, ← hafter]
  rfl

theorem Effect.Leaves.apply_coordinator {e : Effect ℚ σ} (h : e.Leaves s.coordinator c) :
    (e.apply P s).coordinator = c := by
  cases e <;> exact h

/-- **Every step of the system is one with another coordinator** that answers
its call alike; each coordinator is left as its call leaves it. -/
theorem step_onto {a : Action ℚ} (hs : step P s a = some t)
    (h : Alike P.coordinator D s.ambient s.coordinator b (s.op? P a)) :
    step (P.onto D) (s.onto b) a = some (t.onto (called D s.ambient b (s.op? P a))) ∧
      t.coordinator = called P.coordinator s.ambient s.coordinator (s.op? P a) := by
  cases stepped hs with
  | arrive => exact ⟨rfl, rfl⟩
  | @handler n choice phase m hphase hm =>
    have hop : s.op? P (.handler n choice) = phase.op? P s choice := by
      simp only [System.op?, hphase, Option.bind_some]
    rw [hop] at h ⊢
    obtain ⟨hmove, hleaves, hnone⟩ := Phase.move_onto hm h
    refine ⟨?_, Effect.Leaves.apply_coordinator (s := s.bump m.counter) hleaves⟩
    have happly := Effect.apply_onto (P := P) (D := D) (s := s.bump m.counter) (b := b)
      (e := m.effect) (d := called D s.ambient b (phase.op? P s choice)) fun hcall => by
        rw [hnone hcall]
        rfl
    have hphase' : (s.onto b).handlers.get? n = some phase := hphase
    simp only [step, hphase', hmove, Option.bind_eq_bind, Option.bind_some]
    exact congrArg (fun u : System ℚ σ' => some (u.goto n m.next)) happly
  | @dispatch m hm =>
    obtain ⟨hmove, hleaves, hnone⟩ := DispatchPhase.move_onto hm h
    refine ⟨?_, Effect.Leaves.apply_coordinator (s := s.bump m.counter) hleaves⟩
    have happly := Effect.apply_onto (P := P) (D := D) (s := s.bump m.counter) (b := b)
      (e := m.effect) (d := called D s.ambient b (s.dispatcher.op? P s)) fun hcall => by
        rw [hnone hcall]
        rfl
    have hmove' : (s.onto b).dispatcher.move (P.onto D) (s.onto b) =
        some (m.onto (called D s.ambient b (s.dispatcher.op? P s))) := hmove
    simp only [step, hmove', Option.bind_eq_bind, Option.bind_some]
    exact congrArg (fun u : System ℚ σ' => some { u with dispatcher := m.next }) happly
  | @release k lease rest hk =>
    have hop : s.op? P (.release k) = some (.release lease) := by
      simp only [System.op?, hk, Option.bind_some, List.head?_cons, Option.map_some]
    rw [hop]
    have hk' : (s.onto b).releases.get? k = some (lease :: rest) := hk
    refine ⟨?_, rfl⟩
    simp only [step, hk']
    rfl
  | advance d => exact ⟨rfl, rfl⟩
  | reload config => exact ⟨rfl, rfl⟩
  | drain => exact ⟨rfl, rfl⟩

end Steps

end Proxy

end InferQos
