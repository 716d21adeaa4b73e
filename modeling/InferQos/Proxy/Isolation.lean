import InferQos.Proxy.Waiting
/-!
# Handlers that share a request id

`pending` and the scheduler's index are keyed by the id of a request, which
the client chooses. The only check of it is `enqueue`'s, against the index,
and a request the dispatcher holds is not in the index: another handler
with its id is accepted then, and from there on the two share one entry and
one index slot. `requests_isolated` says that this is the only way for a
handler, or a re-insert of the dispatcher, to take away what another
handler waits for.
-/

namespace InferQos

namespace Proxy

variable {F σ : Type}

/-! ## What a handler acts on -/

namespace Phase

/-- The id a handler is still to act on: from its `enqueue` to the end of
its cleanup, or to the leases in its channel. -/
def contends : Phase F → Option Uuid
  | enqueued job => some job.request.id
  | waiting job _ none => some job.request.id
  | expired job _ => some job.request.id
  | cancelling job => some job.request.id
  | unlisting job => some job.request.id
  | _ => none

/-- The request of a handler that waits, or is about to. -/
def awaited : Phase F → Option (AdmissionRequest F)
  | enqueued job => some job.request
  | waiting job _ none => some job.request
  | _ => none

end Phase

/-- **The handler a step acts for**, where it lists, unlists, queues or
cancels: the one that moves, or the one whose entry the dispatcher puts
back. -/
def actor (s : System F σ) : Action F → Option ℕ
  | .handler n _ => some n
  | .dispatch =>
    match s.dispatcher with
    | .requeueing _ p => some p.waiter
    | .reinserting _ p => some p.waiter
    | _ => none
  | _ => none

/-- **A step spares a handler**: while it waits, its entry stays listed and
its request stays queued. -/
def Spares (s t : System F σ) (m : ℕ) : Prop :=
  ∀ phase r, s.handlers.get? m = some phase → phase.awaited = some r →
    (∀ id p, s.pending.get? id = some p → p.waiter = m → t.pending.get? id = some p) ∧
      ∀ item ∈ Scheduler.queued s.scheduler, item.request = r → item ∈ Scheduler.queued t.scheduler

/-! ## The condition -/

/-- Somebody else is still to act on an id: a handler, the owner of the
entry listed under it, or the dispatcher with an entry in hand. -/
def System.claimed (s : System F σ) (n : ℕ) (id : Uuid) : Bool :=
  (s.handlers.entries.any fun e => e.1 ≠ n && e.2.contends = some id) ||
    (s.pending.get? id).isSome || s.dispatcher.pair?.any (·.1.id = id)

variable [Arith F]

/-- The queue takes the request of a handler that was refused. -/
def accepts (P : Params F σ) (s : System F σ) (job : Job F) : Bool :=
  decide (job.config.mode ≠ .shadow) && job.request.queueable &&
    (Scheduler.enqueue P.scheduler s.now s.scheduler job.request job.bodyBytes job.classWeight
      job.tenantWeight job.appWeight).1.isOk

/-- **No accepted `enqueue` is for an id somebody else is still to act on.** -/
def freshId (P : Params F σ) (s : System F σ) : Action F → Bool
  | .handler n .next =>
    match s.handlers.get? n with
    | some (.refused job) => !accepts P s job || !s.claimed n job.request.id
    | _ => true
  | _ => true

/-! ## The invariant -/

/-- **An id belongs to one handler at a time.** -/
structure Separate (s : System F σ) : Prop where
  linked : Linked s
  keyed : Scheduler.Keyed s.scheduler
  /-- Two handlers are not to act on one id. -/
  apart : ∀ {n m phase phase' id}, s.handlers.get? n = some phase → s.handlers.get? m = some phase' →
    phase.contends = some id → phase'.contends = some id → n = m
  /-- An entry listed under it is that handler's. -/
  listed : ∀ {id p m phase}, s.pending.get? id = some p → s.handlers.get? m = some phase →
    phase.contends = some id → p.waiter = m
  /-- And so is one the dispatcher carries. -/
  carried : ∀ {req p m phase}, s.dispatcher.pair? = some (req, p) → s.handlers.get? m = some phase →
    phase.contends = some req.id → p.waiter = m

section Moves

variable {P : Params F σ} {s t : System F σ} {n m : ℕ} {e : Effect F σ} {id : Uuid} {p : Pending F}
variable {job : Job F} {r : AdmissionRequest F}

namespace Phase

variable {phase phase' : Phase F} {choice : Choice F} {mv : Move F σ (Phase F)}

omit [Arith F] in
theorem contends_afterReserve (charged : F) (at_ : ReservePhase F) :
    (afterReserve job charged at_).contends = none := by
  unfold afterReserve
  split <;> rfl

omit [Arith F] in
theorem contends_afterLeave (error : Option CoordinatorError) :
    (afterLeave job error).contends = none := by
  cases error <;> rfl

omit [Arith F] in
theorem contends_first (b : Bool) : (first b : Phase F).contends = none := by
  cases b <;> rfl

/-- **A handler comes to act on its id by an accepted `enqueue`.** -/
theorem move_contends (h : phase.move P s n choice = some mv) (hc : mv.next.contends = some id) :
    phase.contends = some id ∨
      ∃ job, phase = refused job ∧ choice = .next ∧ job.request.id = id ∧ accepts P s job = true := by
  revert h
  fun_cases Phase.move P s n phase choice <;> intro h <;> cases h
  all_goals first
    | exact Or.inl hc
    | cases (contends_afterReserve _ _).symm.trans hc
    | cases (contends_afterLeave _).symm.trans hc
    | cases hc
  -- left is the accepted `enqueue`
  rename_i hmode hqueueable depth hok
  refine Or.inr ⟨_, rfl, rfl, rfl, ?_⟩
  simp only [Bool.not_eq_true', Bool.not_eq_false] at hqueueable
  simp [accepts, hmode, hqueueable, hok, Except.isOk, Except.toBool]

/-- **A handler lists and unlists under the id it acts on**, and cancels
that id. -/
theorem move_effect (h : phase.move P s n choice = some mv) :
    (∀ id p, mv.effect = .list id p → phase.contends = some id) ∧
      (∀ id, mv.effect = .unlist id → phase.contends = some id) ∧
        ∀ id, mv.effect = .schedule (.cancel id) → phase.contends = some id := by
  revert h
  fun_cases Phase.move P s n phase choice <;> intro h <;> cases h
  all_goals refine ⟨fun id p he => ?_, fun id he => ?_, fun id he => ?_⟩ <;> cases he <;> rfl

/-- A handler does not pop. -/
theorem move_not_pop (h : phase.move P s n choice = some mv) : mv.effect ≠ .schedule .popNext := by
  intro he
  revert h
  fun_cases Phase.move P s n phase choice <;> intro h <;> cases h <;> cases he

omit [Arith F] in
/-- A handler that has received leases acts on its id no more, or as
before. -/
theorem receive_contends {leases : AdmissionLeases F} (h : phase.receive leases = some phase')
    (hc : phase'.contends = some id) : phase.contends = some id := by
  revert h
  fun_cases Phase.receive leases phase <;> intro h <;> cases h
  · cases hc
  · exact hc

omit [Arith F] in
/-- A handler that waits acts on the id of its request, and serves no other
request. -/
theorem awaited_spec (h : phase.awaited = some r) :
    phase.contends = some r.id ∧ ∀ r', phase.Serves r' → r' = r := by
  cases phase with
  | enqueued job =>
    cases h
    exact ⟨rfl, fun r' hs => hs.symm⟩
  | waiting job since value =>
    cases value with
    | none =>
      cases h
      exact ⟨rfl, fun r' hs => hs.symm⟩
    | some leases => cases h
  | _ => cases h

end Phase

/-! ## Steps -/

/-- A new proxy has no handlers. -/
theorem separate_build (config : Config F) (coordinator : σ) :
    Separate (System.build config coordinator) where
  linked := linked_build config coordinator
  keyed := Scheduler.init_keyed
  apart h := by cases h
  listed h := by cases h
  carried h := by cases h

namespace Separate

omit [Arith F] in
/-- Only the handlers, the entries and the dispatcher matter. -/
theorem of_eq (h : Separate s) (hl : Linked t) (hsched : t.scheduler = s.scheduler)
    (hhandlers : t.handlers = s.handlers) (hpending : t.pending = s.pending)
    (hdisp : t.dispatcher = s.dispatcher) : Separate t where
  linked := hl
  keyed := hsched ▸ h.keyed
  apart hn hm := h.apart (hhandlers ▸ hn) (hhandlers ▸ hm)
  listed hp hm := h.listed (hpending ▸ hp) (hhandlers ▸ hm)
  carried hp hm := h.carried (hdisp ▸ hp) (hhandlers ▸ hm)

omit [Arith F] in
/-- Nobody else acts on an id that is not claimed. -/
theorem not_claimed (h : s.claimed n id = false) :
    (∀ m phase, s.handlers.get? m = some phase → phase.contends = some id → m = n) ∧
      s.pending.get? id = none ∧ ∀ req p, s.dispatcher.pair? = some (req, p) → req.id ≠ id := by
  simp only [System.claimed, Bool.or_eq_false_iff, Option.isSome_eq_false_iff,
    Option.isNone_iff_eq_none] at h
  obtain ⟨⟨hhandlers, hpending⟩, hpair⟩ := h
  refine ⟨fun m phase hm hc => ?_, hpending, fun req p hp heq => ?_⟩
  · by_contra hne
    have hany := List.any_eq_false.mp hhandlers (m, phase) (OrdMap.get?_eq_some.mp hm)
    simp [hne, hc] at hany
  · rw [hp] at hpair
    simp [heq] at hpair

/-- What a handler newly acts on nobody else does, if its `enqueue` was for a
fresh id. -/
theorem move_fresh {phase : Phase F} {choice : Choice F} {mv : Move F σ (Phase F)}
    (hok : freshId P s (.handler n choice) = true) (hphase : s.handlers.get? n = some phase)
    (hmv : phase.move P s n choice = some mv) (hc : mv.next.contends = some id) :
    phase.contends = some id ∨ s.claimed n id = false := by
  rcases Phase.move_contends hmv hc with hc | ⟨job, rfl, rfl, rfl, haccepts⟩
  · exact Or.inl hc
  · right
    simpa [freshId, hphase, haccepts] using hok

/-- **A step with fresh ids keeps the handlers apart.** -/
theorem step {a : Action F} (h : Separate s) (hok : freshId P s a = true)
    (hs : Proxy.step P s a = some t) : Separate t := by
  have hl := h.linked.step hs
  cases stepped hs with
  | arrive =>
    -- a new handler acts on no id
    have hold : ∀ {m phase id}, ((s.bump (firstCounter s.draining)).goto s.nextTask
        (.first s.draining)).handlers.get? m = some phase → phase.contends = some id →
        s.handlers.get? m = some phase := by
      intro m phase id hm hc
      rcases System.goto_get? hm with ⟨-, hfirst⟩ | ⟨-, hm⟩
      · rw [← hfirst, Phase.contends_first] at hc
        cases hc
      · exact hm
    exact ⟨hl, h.keyed, fun hn hm hc hc' => h.apart (hold hn hc) (hold hm hc') hc hc',
      fun hp hm hc => h.listed hp (hold hm hc) hc, fun hp hm hc => h.carried hp (hold hm hc) hc⟩
  | @handler n choice phase mv hphase hmv =>
    have hhandlers : (mv.effect.apply P (s.bump mv.counter)).handlers = s.handlers :=
      Effect.apply_handlers (Phase.move_not_deliver hmv)
    -- who acts on an id did so before, or is the one that moves and nobody else claimed it
    have hold : ∀ {m phase' id}, ((mv.effect.apply P (s.bump mv.counter)).goto n
        mv.next).handlers.get? m = some phase' → phase'.contends = some id →
        (∃ old, s.handlers.get? m = some old ∧ old.contends = some id) ∨
          m = n ∧ s.claimed n id = false := by
      intro m phase' id hm hc
      rcases System.goto_get? hm with ⟨rfl, rfl⟩ | ⟨-, hm⟩
      · rcases move_fresh hok hphase hmv hc with hc | hfree
        · exact Or.inl ⟨phase, hphase, hc⟩
        · exact Or.inr ⟨rfl, hfree⟩
      · rw [hhandlers] at hm
        exact Or.inl ⟨phase', hm, hc⟩
    refine ⟨hl, Effect.apply_keyed h.keyed, fun {m m' _ _ id} hm hm' hc hc' => ?_,
      fun {id p m _} hp hm hc => ?_, fun {req p m _} hp hm hc => ?_⟩
    · rcases hold hm hc with ⟨old, hold₁, hc₁⟩ | ⟨rfl, hfree⟩
      · rcases hold hm' hc' with ⟨old', hold₂, hc₂⟩ | ⟨rfl, hfree⟩
        · exact h.apart hold₁ hold₂ hc₁ hc₂
        · exact (not_claimed hfree).1 m old hold₁ hc₁
      · rcases hold hm' hc' with ⟨old', hold₂, hc₂⟩ | ⟨rfl, -⟩
        · exact ((not_claimed hfree).1 m' old' hold₂ hc₂).symm
        · rfl
    · rcases Effect.listed_of_apply hp with hp | he
      · rcases hold hm hc with ⟨old, hold₁, hc₁⟩ | ⟨-, hfree⟩
        · exact h.listed hp hold₁ hc₁
        · exact nomatch (not_claimed hfree).2.1.symm.trans hp
      · rw [(Phase.move_list hmv he).1]
        rcases hold hm hc with ⟨old, hold₁, hc₁⟩ | ⟨rfl, -⟩
        · exact h.apart hphase hold₁ ((Phase.move_effect hmv).1 id p he) hc₁
        · rfl
    · have hp' : s.dispatcher.pair? = some (req, p) := by
        rwa [System.goto, Effect.apply_dispatcher] at hp
      rcases hold hm hc with ⟨old, hold₁, hc₁⟩ | ⟨-, hfree⟩
      · exact h.carried hp' hold₁ hc₁
      · exact absurd rfl ((not_claimed hfree).2.2 req p hp')
  | @dispatch mv hmv =>
    have hold : ∀ {m phase' id}, (mv.effect.apply P (s.bump mv.counter)).handlers.get? m =
        some phase' → phase'.contends = some id →
        ∃ old, s.handlers.get? m = some old ∧ old.contends = some id := by
      intro m phase' id hm hc
      rw [Effect.apply_bump] at hm
      rcases DispatchPhase.move_get? hmv hm with hm | ⟨_, _, leases, old, -, -, hm, hr⟩
      · exact ⟨phase', hm, hc⟩
      · exact ⟨old, hm, Phase.receive_contends hr hc⟩
    refine ⟨hl, Effect.apply_keyed h.keyed, fun hm hm' hc hc' => ?_, fun {id p m _} hp hm hc => ?_,
      fun {req p m _} hp hm hc => ?_⟩
    · obtain ⟨old, hold₁, hc₁⟩ := hold hm hc
      obtain ⟨old', hold₂, hc₂⟩ := hold hm' hc'
      exact h.apart hold₁ hold₂ hc₁ hc₂
    · obtain ⟨old, hold₁, hc₁⟩ := hold hm hc
      rcases Effect.listed_of_apply hp with hp | he
      · exact h.listed hp hold₁ hc₁
      · -- an entry put back was carried
        obtain ⟨req, hd, rfl⟩ := DispatchPhase.move_list hmv he
        exact h.carried (by rw [hd]; rfl) hold₁ hc₁
    · obtain ⟨old, hold₁, hc₁⟩ := hold hm hc
      rcases DispatchPhase.move_pair hmv hp with hp | ⟨-, hp⟩
      · exact h.carried hp hold₁ hc₁
      · exact h.listed hp hold₁ hc₁
  | release hk => exact h.of_eq hl rfl rfl rfl rfl
  | advance d => exact h.of_eq hl rfl rfl rfl rfl
  | reload config => exact h.of_eq hl rfl rfl rfl rfl
  | drain => exact h.of_eq hl rfl rfl rfl rfl

end Separate

/-! ## What a step takes away -/

/-- **A call other than a pop leaves a queued request in place**, unless it
cancels its id. -/
theorem queued_of_schedule {op : Scheduler.Op F} {item : Scheduler.Queued F}
    (hk : Scheduler.Keyed s.scheduler) (hmem : item ∈ Scheduler.queued s.scheduler)
    (hpop : op ≠ .popNext) (hcancel : ∀ id, op = .cancel id → item.request.id ≠ id) (now : ℕ) :
    item ∈ Scheduler.queued (Scheduler.apply P.scheduler s.scheduler ⟨now, op⟩).2 := by
  cases op with
  | enqueue request b cw tw aw =>
    rcases Scheduler.enqueue_spec P.scheduler now s.scheduler request b cw tw aw with
      ⟨_, -, hs, -⟩ | ⟨-, -, -, hp⟩
    · change item ∈ Scheduler.queued (Scheduler.enqueue _ _ _ _ _ _ _ _).2
      rw [hs]
      exact hmem
    · exact hp.mem_queued.mpr (Or.inl hmem)
  | cancel id =>
    rcases Scheduler.cancel_spec hk id with ⟨-, hs⟩ | ⟨k, gone, hid, -, hr⟩
    · change item ∈ Scheduler.queued (Scheduler.cancel _ _).2
      rw [hs]
      exact hmem
    · exact (hr.mem_queued hk).mpr ⟨hmem, hid.symm ▸ hcancel id rfl⟩
  | popNext => exact absurd rfl hpop

omit [Arith F] in
/-- The entry of a handler that waits is listed under the id it acts on. -/
theorem Linked.contends_of_listed (h : Linked s) {phase : Phase F}
    (hm : s.handlers.get? m = some phase) (hr : phase.awaited = some r)
    (hp : s.pending.get? id = some p) (hw : p.waiter = m) : phase.contends = some id := by
  obtain ⟨hid, old, hold, hserves⟩ := h.listed id p hp
  rw [hw, hm] at hold
  cases hold
  obtain ⟨hc, honly⟩ := Phase.awaited_spec hr
  rw [hc, ← honly _ hserves, hid]

/-- **A handler's step spares every other handler.** -/
theorem Separate.handler_spares (h : Separate s) {phase : Phase F} {choice : Choice F}
    {mv : Move F σ (Phase F)} (hphase : s.handlers.get? n = some phase)
    (hmv : phase.move P s n choice = some mv) (hne : m ≠ n) :
    Spares s ((mv.effect.apply P (s.bump mv.counter)).goto n mv.next) m := by
  intro phase' r hm hr
  obtain ⟨hlist, hunlist, hcancel⟩ := Phase.move_effect hmv
  obtain ⟨hc, -⟩ := Phase.awaited_spec hr
  -- an id the mover acts on is not the one this handler waits on
  have hother : ∀ id, phase.contends = some id → phase'.contends ≠ some id := fun id h₁ h₂ =>
    hne (h.apart hm hphase h₂ h₁)
  refine ⟨fun id p hp hw => ?_, fun item hitem heq => ?_⟩
  · have hid := h.linked.contends_of_listed hm hr hp hw
    change (mv.effect.apply P (s.bump mv.counter)).pending.get? id = some p
    cases he : mv.effect with
    | list id' p' =>
      have hne' : id ≠ id' := fun heq => hother id' (hlist id' p' he) (heq ▸ hid)
      exact (OrdMap.get?_insert_of_ne hne').trans hp
    | unlist id' =>
      have hne' : id ≠ id' := fun heq => hother id' (hunlist id' he) (heq ▸ hid)
      exact (OrdMap.get?_erase_of_ne hne').trans hp
    | _ => exact hp
  · change item ∈ Scheduler.queued (mv.effect.apply P (s.bump mv.counter)).scheduler
    cases he : mv.effect with
    | schedule op =>
      refine queued_of_schedule h.keyed hitem (fun hop => ?_) (fun id hop hid => ?_) s.now
      · exact Phase.move_not_pop hmv (by rw [he, hop])
      · refine hother id (hcancel id (by rw [he, hop])) ?_
        rw [hc, ← heq, hid]
    | _ => exact hitem

/-- **Putting an entry back spares every handler but its own.** -/
theorem Separate.dispatch_spares (h : Separate s) {mv : Move F σ (DispatchPhase F)}
    (hmv : s.dispatcher.move P s = some mv) (hactor : actor s .dispatch = some n) (hne : m ≠ n) :
    Spares s { mv.effect.apply P (s.bump mv.counter) with dispatcher := mv.next } m := by
  intro phase r hm hr
  cases hd : s.dispatcher with
  | requeueing req p =>
    rw [hd] at hmv
    cases hmv
    exact ⟨fun id p hp _ => hp, fun item hitem _ =>
      queued_of_schedule h.keyed hitem (fun hop => by cases hop) (fun id hop => by cases hop) s.now⟩
  | reinserting req p =>
    have hwaiter : p.waiter = n := by simpa [actor, hd] using hactor
    rw [hd] at hmv
    cases hmv
    refine ⟨fun id p' hp hw => ?_, fun item hitem _ => hitem⟩
    have hid := h.linked.contends_of_listed hm hr hp hw
    have hne' : id ≠ req.id := by
      rintro rfl
      exact hne ((h.carried (by rw [hd]; rfl) hm hid).symm.trans hwaiter)
    exact (OrdMap.get?_insert_of_ne hne').trans hp
  | _ => simp [actor, hd] at hactor

end Moves

section Runs

variable {P : Params F σ} {s t : System F σ} {n m : ℕ}

/-- **Requests are isolated by handler.** Along every run in which no
`enqueue` is accepted for an id somebody else is still to act on, a step of
one handler, or of the dispatcher putting its entry back, takes away
neither the entry nor the queued request of another handler that waits. -/
theorem requests_isolated (config : Config F) (coordinator : σ) {es : List (Action F)}
    (hrun : Trace (Guarded (fun s a => freshId P s a = true) (StepOf (step P)))
      (System.build config coordinator) es s)
    {a : Action F} (hs : step P s a = some t) (hactor : actor s a = some n) (hne : m ≠ n) :
    Spares s t m := by
  have h : Separate s := hrun.invariant (separate_build config coordinator)
    fun h hs => h.step hs.1 hs.2
  cases stepped hs with
  | @handler n' choice phase mv hphase hmv =>
    cases hactor
    exact h.handler_spares hphase hmv hne
  | dispatch hmv => exact h.dispatch_spares hmv hactor hne
  | _ => cases hactor

end Runs

/-- While the dispatcher holds the entry of handler 1, handler 2 arrives
with a request of this id, queues and waits; the dispatcher cannot admit
handler 1 and is about to put its entry back. -/
def arrivesMeanwhile (id : Uuid) : List (Action ℚ) :=
  queuesBehind ++ goOn 1 1 ++ List.replicate 3 .dispatch ++ begins 2 (sampleArrival id 3) ++
    goOn 2 2 ++ List.replicate 4 .dispatch

/-- With an id of its own, handler 2 keeps its entry and its request. -/
theorem requests_isolated_meanwhile :
    ∃ s t, Trace (Guarded
        (fun s a => freshId (Params.inMemory (Config.minimal .enforce [])) s a = true)
        (StepOf (step (Params.inMemory (Config.minimal .enforce [])))))
        (System.build (Config.minimal .enforce []) ∅) (arrivesMeanwhile 3) s ∧
      step (Params.inMemory (Config.minimal .enforce [])) s .dispatch = some t ∧
      actor s .dispatch = some 1 ∧ Spares s t 2 := by
  have hrun : ((arrivesMeanwhile 3).foldlM
      (fun s a => if freshId (Params.inMemory (Config.minimal .enforce [])) s a
        then step (Params.inMemory (Config.minimal .enforce [])) s a else none)
      (System.build (Config.minimal .enforce []) ∅)).any
      (fun s => actor s (.dispatch : Action ℚ) = some 1 &&
        (step (Params.inMemory (Config.minimal .enforce [])) s .dispatch).isSome) = true := by
    decide +kernel
  obtain ⟨s, htrace, hend⟩ := Trace.exists_guarded_of_any hrun
  obtain ⟨hactor, hstep⟩ := Bool.and_eq_true_iff.mp hend
  have hactor : actor s (.dispatch : Action ℚ) = some 1 := of_decide_eq_true hactor
  obtain ⟨t, ht⟩ := Option.isSome_iff_exists.mp hstep
  exact ⟨s, t, htrace, ht, hactor, requests_isolated _ _ htrace ht hactor (by decide)⟩

/-- **With the id of handler 1, it loses its entry**: the re-insert of
handler 1's entry overwrites it while it waits, and its sender is gone. -/
theorem shared_id_overwrites :
    ∃ s t, Trace (StepOf (step (Params.inMemory (Config.minimal .enforce []))))
        (System.build (Config.minimal .enforce []) ∅) (arrivesMeanwhile 2) s ∧
      step (Params.inMemory (Config.minimal .enforce [])) s .dispatch = some t ∧
      actor s .dispatch = some 1 ∧ s.senderAlive 2 = true ∧ t.senderAlive 2 = false ∧
      ¬ Spares s t 2 := by
  have hrun : ((arrivesMeanwhile 2).foldlM (step (Params.inMemory (Config.minimal .enforce [])))
      (System.build (Config.minimal .enforce []) ∅)).any
      (fun s => (actor s (.dispatch : Action ℚ) = some 1 && s.senderAlive 2) &&
        ((s.handlers.get? 2).any (·.awaited.isSome) && (s.pending.get? 2).any (·.waiter = 2)) &&
        (step (Params.inMemory (Config.minimal .enforce [])) s .dispatch).any fun t =>
          !t.senderAlive 2 && (t.pending.get? 2).any (·.waiter = 1)) = true := by
    decide +kernel
  obtain ⟨s, htrace, hend⟩ := Trace.exists_of_any hrun
  simp only [Bool.and_eq_true, decide_eq_true_eq, Option.any_eq_true] at hend
  obtain ⟨⟨⟨hactor, halive⟩, ⟨phase, hphase, hawaited⟩, p, hp, hw⟩, t, ht, hdead, p', hp', hw'⟩ := hend
  obtain ⟨r, hr⟩ := Option.isSome_iff_exists.mp hawaited
  refine ⟨s, t, htrace, ht, hactor, halive, by simpa using hdead, fun hspares => ?_⟩
  have hkept := (hspares phase r hphase hr).1 2 p hp hw
  rw [hp'] at hkept
  cases hkept
  rw [hw] at hw'
  omega

end Proxy

end InferQos
