import InferQos.Proxy.Iteration
/-!
# Where requests and configurations come from

A request enters the system with a handler's preparation and is only passed
on from there: to the scheduler, to `pending`, to the dispatcher and back.
A configuration enters at the start or with a reload and is cloned by the
tasks that read it. So what the preparation and the reloads establish holds
of everything a task works with: `Sourced` is that, for a property of
requests and one of configurations.
-/

namespace InferQos

/-! ## The scheduler -/

namespace Scheduler

variable {F : Type} [Arith F] {s : Inner F} {r : AdmissionRequest F}

/-- **What waits after a call waited before**, or is what it enqueues. -/
theorem Holds.of_apply (hk : Keyed s) {cfg : Config F} {c : Call F} (h : Holds (apply cfg s c).2 r) :
    Holds s r ∨ ∃ b cw tw aw, c.op = .enqueue r b cw tw aw := by
  obtain ⟨now, op⟩ := c
  obtain ⟨it, hit, rfl⟩ := h
  cases op with
  | enqueue request b cw tw aw =>
    change it ∈ queued (Scheduler.enqueue cfg now s request b cw tw aw).2 at hit
    rcases enqueue_spec cfg now s request b cw tw aw with ⟨e, -, hs, -⟩ | ⟨-, -, -, hp⟩
    · rw [hs] at hit
      exact Or.inl ⟨it, hit, rfl⟩
    · rcases hp.mem_queued.mp hit with hit | rfl
      · exact Or.inl ⟨it, hit, rfl⟩
      · exact Or.inr ⟨b, cw, tw, aw, rfl⟩
  | cancel id => exact Or.inl ⟨it, mem_queued_of_cancel hk hit, rfl⟩
  | popNext => exact Or.inl ⟨it, mem_queued_of_popNext hk hit, rfl⟩

/-- What is popped waited. -/
theorem holds_of_popNext (hk : Keyed s) {cfg : Config F} {now : ℕ}
    (h : (popNext cfg now s).1 = .ok (some r)) : Holds s r := by
  rcases popNext_spec cfg now hk.noEmpty with ⟨-, hs⟩ | ⟨k, item, rest, hitems, hres, -⟩
  · rw [hs] at h
    cases h
  · rw [hres] at h
    cases h
    refine ⟨item, mem_queued.mpr ⟨k, ?_⟩, rfl⟩
    rw [hitems]
    exact List.mem_cons_self

end Scheduler

namespace Proxy

variable {F σ : Type}

/-! ## What a task works with -/

/-- The job of a handler. -/
def Phase.job? : Phase F → Option (Job F)
  | charging job => some job
  | entering job _ => some job
  | reserving job _ _ => some job
  | tracking job _ _ => some job
  | leaving job _ => some job
  | refused job => some job
  | enqueued job => some job
  | waiting job _ _ => some job
  | expired job _ => some job
  | cancelling job => some job
  | unlisting job => some job
  | rejecting job _ => some job
  | admitted job _ => some job
  | loading job _ => some job
  | dispatching job _ => some job
  | opening job _ _ => some job
  | streaming job _ _ _ _ => some job
  | completing job _ _ _ _ => some job
  | closing job _ _ => some job
  | spawning job _ _ => some job
  | departing job _ => some job
  | _ => none

/-- The configuration a handler has cloned. -/
def Phase.config? : Phase F → Option (Config F)
  | loaded config => some config
  | phase => phase.job?.map (·.config)

/-- The request the dispatcher has popped. -/
def DispatchPhase.request? : DispatchPhase F → Option (AdmissionRequest F)
  | popped req => some req
  | holding req _ => some req
  | entering req _ _ => some req
  | charging req _ _ => some req
  | reserving req _ _ _ _ => some req
  | tracking req _ _ _ => some req
  | sending req _ _ => some req
  | unsent req _ _ => some req
  | leaving req _ => some req
  | retry req _ => some req
  | requeueing req _ => some req
  | reinserting req _ => some req
  | _ => none

/-- The configuration the dispatcher has cloned. -/
def DispatchPhase.config? : DispatchPhase F → Option (Config F)
  | entering _ _ config => some config
  | charging _ _ config => some config
  | reserving _ _ config _ _ => some config
  | _ => none

section Moves

variable [Arith F] {P : Params F σ} {s : System F σ} {n : ℕ}

omit [Arith F] in
/-- A job keeps the configuration it was prepared under. -/
theorem prepare_config {config : Config F} {pools : List String} {arrival : Arrival F} {job : Job F}
    (h : prepare config pools arrival = .ok job) : job.config = config := by
  unfold prepare at h
  revert h
  dsimp only
  repeat' split
  all_goals intro h; cases h
  rfl

namespace Phase

variable {phase : Phase F} {choice : Choice F} {m : Move F σ (Phase F)} {job : Job F}
variable {config : Config F}

omit [Arith F] in
theorem job?_afterReserve (job : Job F) (charged : F) (at_ : ReservePhase F) :
    (afterReserve job charged at_).job? = some job := by
  unfold afterReserve
  split <;> rfl

omit [Arith F] in
theorem config?_afterReserve (job : Job F) (charged : F) (at_ : ReservePhase F) :
    (afterReserve job charged at_).config? = some job.config := by
  unfold afterReserve
  split <;> rfl

/-- **A handler's job is the one it had, or the one just prepared.** -/
theorem move_job (h : phase.move P s n choice = some m) (hj : m.next.job? = some job) :
    phase.job? = some job ∨ ∃ config arrival, phase = loaded config ∧ choice = .arrive arrival ∧
      prepare config s.pools.keys arrival = .ok job := by
  revert h
  fun_cases Phase.move P s n phase choice <;> intro h <;> cases h
  all_goals first
    | exact Or.inl hj
    | exact Or.inl ((job?_afterReserve _ _ _).symm.trans hj)
    | cases hj
    | skip
  -- left are the preparation and the answer after `leave`
  · rename_i hprep
    exact Or.inr ⟨_, _, rfl, rfl, hprep⟩
  · rename_i error
    cases error with
    | none => exact Or.inl hj
    | some e => cases hj

/-- **Its configuration is the one it had, or the one just read.** -/
theorem move_config (h : phase.move P s n choice = some m) (hc : m.next.config? = some config) :
    phase.config? = some config ∨ config = s.config := by
  revert h
  fun_cases Phase.move P s n phase choice <;> intro h <;> cases h
  all_goals first
    | exact Or.inl hc
    | exact Or.inl ((config?_afterReserve _ _ _).symm.trans hc)
    | cases hc
    | skip
  · exact Or.inr rfl
  · rename_i hprep
    exact Or.inl (congrArg some (prepare_config hprep).symm)
  · rename_i error
    cases error with
    | none => exact Or.inl hc
    | some e => cases hc

omit [Arith F] in
/-- A delivery changes neither. -/
theorem receive_job {phase' : Phase F} {leases : AdmissionLeases F}
    (h : phase.receive leases = some phase') :
    phase'.job? = phase.job? ∧ phase'.config? = phase.config? := by
  revert h
  fun_cases Phase.receive leases phase <;> intro h <;> cases h
  · exact ⟨rfl, rfl⟩
  · exact ⟨rfl, rfl⟩

end Phase

namespace DispatchPhase

variable {d : DispatchPhase F} {m : Move F σ (DispatchPhase F)} {req : AdmissionRequest F}
variable {config : Config F}

omit [Arith F] in
theorem request?_afterReserve (req : AdmissionRequest F) (p : Pending F) (config : Config F)
    (charged : F) (at_ : ReservePhase F) :
    (afterReserve req p config charged at_).request? = some req := by
  unfold afterReserve
  split <;> rfl

omit [Arith F] in
theorem config?_afterReserve {req : AdmissionRequest F} {p : Pending F} {config config' : Config F}
    {charged : F} {at_ : ReservePhase F}
    (h : (afterReserve req p config charged at_).config? = some config') : config = config' := by
  unfold afterReserve at h
  split at h
  · cases h
  · cases h
  · exact Option.some.inj h

/-- **The dispatcher's request is the one it had, or the one just popped.** -/
theorem move_request (h : d.move P s = some m) (hr : m.next.request? = some req) :
    d.request? = some req ∨
      d = ticked ∧ (Scheduler.popNext P.scheduler s.now s.scheduler).1 = .ok (some req) := by
  revert h
  fun_cases DispatchPhase.move P s d <;> intro h <;> cases h
  all_goals first
    | exact Or.inl hr
    | exact Or.inl ((request?_afterReserve _ _ _ _ _).symm.trans hr)
    | cases hr
    | skip
  · right
    refine ⟨rfl, ?_⟩
    revert hr
    unfold afterPop
    split
    · rename_i hpop
      intro hr
      cases hr
      exact hpop
    · intro hr
      cases hr
    · intro hr
      cases hr
  · rename_i q
    cases q with
    | none => cases hr
    | some p => exact Or.inl hr

/-- **Its configuration is the one it had, or the one just read.** -/
theorem move_config (h : d.move P s = some m) (hc : m.next.config? = some config) :
    d.config? = some config ∨ config = s.config := by
  revert h
  fun_cases DispatchPhase.move P s d <;> intro h <;> cases h
  all_goals first
    | exact Or.inl hc
    | exact Or.inl (congrArg some (config?_afterReserve hc))
    | exact Or.inr (Option.some.inj hc).symm
    | cases hc
    | skip
  · revert hc
    unfold afterPop
    split <;> intro hc <;> cases hc
  · rename_i q
    cases q <;> cases hc

end DispatchPhase

end Moves

/-! ## Along a run -/

/-- **Every request has property `R` and every configuration property `K`.** -/
structure Sourced (R : AdmissionRequest F → Prop) (K : Config F → Prop) (s : System F σ) : Prop where
  keyed : Scheduler.Keyed s.scheduler
  config : K s.config
  jobs : ∀ {n phase job}, s.handlers.get? n = some phase → phase.job? = some job → R job.request
  cloned : ∀ {n phase config}, s.handlers.get? n = some phase → phase.config? = some config →
    K config
  listed : ∀ {id p}, s.pending.get? id = some p → R p.request
  queued : ∀ {r}, Scheduler.Holds s.scheduler r → R r
  popped : ∀ {req}, s.dispatcher.request? = some req → R req
  carried : ∀ {req p}, s.dispatcher.pair? = some (req, p) → R p.request
  read : ∀ {config}, s.dispatcher.config? = some config → K config

/-- **What a step brings in**: a request prepared under a configuration that
has `K` has `R`, and a configuration loaded has `K`. -/
def Brings (R : AdmissionRequest F → Prop) (K : Config F → Prop) (pools : List String) :
    Action F → Prop
  | .handler _ (.arrive arrival) => ∀ config job, K config →
      prepare config pools arrival = .ok job → R job.request
  | .reload config => K config
  | _ => True

section Sourced

variable [Arith F] {P : Params F σ} {s t : System F σ} {R : AdmissionRequest F → Prop}
variable {K : Config F → Prop} {e : Effect F σ}

theorem sourced_build {config : Config F} (coordinator : σ) (hK : K config) :
    Sourced R K (System.build config coordinator) where
  keyed := Scheduler.init_keyed
  config := hK
  jobs h := by cases h
  cloned h := by cases h
  listed h := by cases h
  queued := by
    rintro r ⟨it, hit, -⟩
    cases hit
  popped h := by cases h
  carried h := by cases h
  read h := by cases h

/-- The requests an effect hands over have `R`. -/
structure Effect.Passes (R : AdmissionRequest F → Prop) (e : Effect F σ) : Prop where
  lists : ∀ id p, e = .list id p → R p.request
  enqueues : ∀ r b cw tw aw, e = .schedule (.enqueue r b cw tw aw) → R r

/-- **What waits or is listed after an effect has `R`** if what it hands
over does. -/
theorem Sourced.apply (h : Sourced R K s) (he : e.Passes R) :
    (∀ {id p}, (e.apply P s).pending.get? id = some p → R p.request) ∧
      ∀ {r}, Scheduler.Holds (e.apply P s).scheduler r → R r := by
  refine ⟨fun {id p} hp => ?_, fun {r} hr => ?_⟩
  · rcases Effect.listed_of_apply hp with hp | hlist
    · exact h.listed hp
    · exact he.lists id p hlist
  · cases e with
    | schedule op =>
      rcases hr.of_apply h.keyed with hr | ⟨b, cw, tw, aw, hop⟩
      · exact h.queued hr
      · exact he.enqueues r b cw tw aw (by rw [show op = _ from hop])
    | _ => exact h.queued hr

/-- A handler hands over the request of its job. -/
theorem Phase.move_passes {n : ℕ} {phase : Phase F} {choice : Choice F} {m : Move F σ (Phase F)}
    (h : phase.move P s n choice = some m) (hR : ∀ job, phase.job? = some job → R job.request) :
    m.effect.Passes R := by
  revert h
  fun_cases Phase.move P s n phase choice <;> intro h <;> cases h
  all_goals refine ⟨fun id p he => ?_, fun r b cw tw aw he => ?_⟩ <;> cases he
  · exact hR _ rfl
  · exact hR _ rfl

/-- The dispatcher hands over the request of its entry. -/
theorem DispatchPhase.move_passes {d : DispatchPhase F} {m : Move F σ (DispatchPhase F)}
    (h : d.move P s = some m) (hR : ∀ req p, d.pair? = some (req, p) → R p.request) :
    m.effect.Passes R := by
  revert h
  fun_cases DispatchPhase.move P s d <;> intro h <;> cases h
  all_goals refine ⟨fun id p he => ?_, fun r b cw tw aw he => ?_⟩ <;> cases he
  · exact hR _ _ rfl
  · exact hR _ _ rfl

theorem Effect.apply_config : (e.apply P s).config = s.config := by cases e <;> rfl

theorem Effect.apply_now : (e.apply P s).now = s.now := by cases e <;> rfl

/-- The clock does not run backwards. -/
theorem now_le_step {a : Action F} (hs : step P s a = some t) : s.now ≤ t.now := by
  cases stepped hs with
  | @handler n choice phase m hphase hm => exact (Effect.apply_now (s := s.bump m.counter)).ge
  | @dispatch m hm => exact (Effect.apply_now (s := s.bump m.counter)).ge
  | advance d => exact Nat.le_add_right _ _
  | _ => exact le_rfl

/-- **A step keeps both properties** if what it brings in has them. -/
theorem Sourced.step {a : Action F} (h : Sourced R K s) (hin : Brings R K s.pools.keys a)
    (hs : step P s a = some t) : Sourced R K t := by
  cases stepped hs with
  | arrive =>
    have hfirst : ∀ b, (Phase.first b : Phase F).job? = none ∧
        (Phase.first b : Phase F).config? = none := by
      intro b
      cases b <;> exact ⟨rfl, rfl⟩
    refine ⟨h.keyed, h.config, fun hn hj => ?_, fun hn hc => ?_, h.listed, h.queued, h.popped,
      h.carried, h.read⟩
    · rcases System.goto_get? hn with ⟨-, rfl⟩ | ⟨-, hn⟩
      · rw [(hfirst s.draining).1] at hj
        cases hj
      · exact h.jobs hn hj
    · rcases System.goto_get? hn with ⟨-, rfl⟩ | ⟨-, hn⟩
      · rw [(hfirst s.draining).2] at hc
        cases hc
      · exact h.cloned hn hc
  | @handler n choice phase m hphase hm =>
    have hhandlers : (m.effect.apply P (s.bump m.counter)).handlers = s.handlers :=
      Effect.apply_handlers (Phase.move_not_deliver hm)
    have hbumped : Sourced R K (s.bump m.counter) :=
      ⟨h.keyed, h.config, h.jobs, h.cloned, h.listed, h.queued, h.popped, h.carried, h.read⟩
    have hafter := hbumped.apply (P := P) (Phase.move_passes hm fun job hj => h.jobs hphase hj)
    refine ⟨Effect.apply_keyed h.keyed, ?_, fun {n' phase' job} hn hj => ?_,
      fun {n' phase' config} hn hc => ?_, hafter.1, hafter.2, fun hd => ?_, fun hd => ?_, fun hd => ?_⟩
    · change K (m.effect.apply P (s.bump m.counter)).config
      rw [Effect.apply_config]
      exact h.config
    · rcases System.goto_get? hn with ⟨-, rfl⟩ | ⟨-, hn⟩
      · rcases Phase.move_job hm hj with hj | ⟨config, arrival, rfl, rfl, hprep⟩
        · exact h.jobs hphase hj
        · exact hin config job (h.cloned hphase rfl) hprep
      · exact h.jobs (hhandlers ▸ hn) hj
    · rcases System.goto_get? hn with ⟨-, rfl⟩ | ⟨-, hn⟩
      · rcases Phase.move_config hm hc with hc | rfl
        · exact h.cloned hphase hc
        · exact h.config
      · exact h.cloned (hhandlers ▸ hn) hc
    · rw [System.goto, Effect.apply_dispatcher] at hd
      exact h.popped hd
    · rw [System.goto, Effect.apply_dispatcher] at hd
      exact h.carried hd
    · rw [System.goto, Effect.apply_dispatcher] at hd
      exact h.read hd
  | @dispatch m hm =>
    have hbumped : Sourced R K (s.bump m.counter) :=
      ⟨h.keyed, h.config, h.jobs, h.cloned, h.listed, h.queued, h.popped, h.carried, h.read⟩
    have hafter := hbumped.apply (P := P) (DispatchPhase.move_passes hm fun _ _ hp => h.carried hp)
    refine ⟨Effect.apply_keyed h.keyed, ?_, fun {n phase job} hn hj => ?_,
      fun {n phase config} hn hc => ?_, hafter.1, hafter.2, fun {req} hd => ?_, fun {req p} hd => ?_,
      fun {config} hd => ?_⟩
    · change K (m.effect.apply P (s.bump m.counter)).config
      rw [Effect.apply_config]
      exact h.config
    · have hn : (m.effect.apply P s).handlers.get? n = some phase := by
        rwa [Effect.apply_bump] at hn
      rcases DispatchPhase.move_get? hm hn with hn | ⟨_, _, _, old, -, -, hn, hr⟩
      · exact h.jobs hn hj
      · exact h.jobs hn ((Phase.receive_job hr).1 ▸ hj)
    · have hn : (m.effect.apply P s).handlers.get? n = some phase := by
        rwa [Effect.apply_bump] at hn
      rcases DispatchPhase.move_get? hm hn with hn | ⟨_, _, _, old, -, -, hn, hr⟩
      · exact h.cloned hn hc
      · exact h.cloned hn ((Phase.receive_job hr).2 ▸ hc)
    · rcases DispatchPhase.move_request hm hd with hd | ⟨-, hpop⟩
      · exact h.popped hd
      · exact h.queued (Scheduler.holds_of_popNext h.keyed hpop)
    · rcases DispatchPhase.move_pair hm hd with hd | ⟨-, hp⟩
      · exact h.carried hd
      · exact h.listed hp
    · rcases DispatchPhase.move_config hm hd with hd | rfl
      · exact h.read hd
      · exact h.config
  | release hk =>
    exact ⟨h.keyed, h.config, h.jobs, h.cloned, h.listed, h.queued, h.popped, h.carried, h.read⟩
  | advance d =>
    exact ⟨h.keyed, h.config, h.jobs, h.cloned, h.listed, h.queued, h.popped, h.carried, h.read⟩
  | reload config =>
    exact ⟨h.keyed, hin, h.jobs, h.cloned, h.listed, h.queued, h.popped, h.carried, h.read⟩
  | drain =>
    exact ⟨h.keyed, h.config, h.jobs, h.cloned, h.listed, h.queued, h.popped, h.carried, h.read⟩

end Sourced

/-! ## The pools -/

section Pools

variable [Arith F] {P : Params F σ} {s t : System F σ} {e : Effect F σ} {pool : String}

/-- **No step adds a pool or takes one away.** -/
theorem Effect.apply_pools : ((e.apply P s).pools.get? pool).isSome = (s.pools.get? pool).isSome := by
  have honPool : ∀ name f, ((s.onPool name f).get? pool).isSome = (s.pools.get? pool).isSome := by
    intro name f
    unfold System.onPool
    split
    · rfl
    · rename_i rt hrt
      by_cases hname : pool = name
      · simp [hname, hrt]
      · rw [OrdMap.get?_insert_of_ne hname]
  cases e with
  | track name id units => exact honPool _ _
  | settle name id predicted actual throttled => exact honPool _ _
  | _ => rfl

theorem pools_step {a : Action F} (hs : step P s a = some t) :
    (t.pools.get? pool).isSome = (s.pools.get? pool).isSome := by
  cases stepped hs with
  | @handler n choice phase m hphase hm => exact Effect.apply_pools (s := s.bump m.counter)
  | @dispatch m hm => exact Effect.apply_pools (s := s.bump m.counter)
  | _ => rfl

omit [Arith F] in
/-- A job is prepared for a pool that runs. -/
theorem pool_of_prepare {config : Config F} {arrival : Arrival F} {job : Job F}
    (h : prepare config s.pools.keys arrival = .ok job) :
    (s.pools.get? job.request.pool).isSome := by
  unfold prepare at h
  revert h
  dsimp only
  repeat' split
  all_goals intro h; cases h
  rename_i hmem _ _ _
  obtain ⟨e, he, heq⟩ := List.mem_map.mp hmem
  exact Option.isSome_iff_exists.mpr ⟨e.2, OrdMap.get?_eq_some.mpr (heq ▸ he)⟩

end Pools

end Proxy

end InferQos
