import InferQos.Proxy.Iteration
/-!
# The end of a drain

`begin_drain` turns new requests away, and the dispatcher leaves its loop
at the first tick that finds the proxy draining and `pending` empty. A
handler reads the flag first and enqueues much later, so a request that
came before the drain can still be on its way to the queue at that tick.
Nobody serves it then. `drain_strands_nobody` says that such handlers are
all there is to it: a dispatcher that leaves none behind strands nobody,
whatever the tasks do afterwards.
-/

namespace InferQos

namespace Proxy

variable {F σ : Type} [Arith F]
variable {P : Params F σ} {s t : System F σ} {n : ℕ} {id : Uuid} {p : Pending F}

/-! ## Handlers on their way to the queue -/

/-- A job without a reservation calls `enqueue`. -/
def Job.queues (job : Job F) : Bool := job.config.mode ≠ .shadow && job.request.queueable

namespace Phase

/-- **On the way to `pending`**: past the check of the drain, and able to
enqueue or about to list an entry. -/
def late : Phase F → Bool
  | starting => true
  | loaded config => config.mode ≠ .shadow
  | charging job => job.queues
  | entering job _ => job.queues
  | reserving job _ _ => job.queues
  | leaving job none => job.queues
  | refused job => job.queues
  | enqueued _ => true
  | _ => false

variable {phase : Phase F} {choice : Choice F} {m : Move F σ (Phase F)} {job : Job F}

omit [Arith F] in
theorem late_afterReserve {charged : F} {at_ : ReservePhase F}
    (h : (afterReserve job charged at_).late = true) : job.queues = true := by
  unfold afterReserve at h
  split at h
  · cases h
  · exact h
  · cases h
  · exact h

omit [Arith F] in
theorem late_afterLeave {error : Option CoordinatorError}
    (h : (afterLeave job error).late = true) : (leaving job error).late = true := by
  cases error with
  | none => exact h
  | some e => cases h

omit [Arith F] in
theorem queues_of_prepare {config : Config F} {pools : List String} {arrival : Arrival F}
    (h : prepare config pools arrival = .ok job) (hq : job.queues = true) :
    config.mode ≠ .shadow := by
  have hconfig : job.config = config := by
    revert h
    fun_cases prepare config pools arrival <;> intro h <;> cases h
    rfl
  rw [Job.queues, Bool.and_eq_true, decide_eq_true_eq, hconfig] at hq
  exact hq.1

/-- **Nobody sets out for the queue late**: a handler on its way was on it
before its step. -/
theorem late_of_move (h : phase.move P s n choice = some m) (hl : m.next.late = true) :
    phase.late = true := by
  revert h
  fun_cases Phase.move P s n phase choice <;> intro h <;> cases h
  all_goals first
    | exact hl
    | rfl
    | cases hl
    | exact late_afterReserve hl
    | exact late_afterLeave hl
    | skip
  -- left are the arrival of a request and the refused job that is enqueued
  · rename_i hprepare
    exact decide_eq_true (queues_of_prepare hprepare hl)
  · rename_i hmode hqueueable _ _
    rw [Bool.not_eq_true', Bool.not_eq_false] at hqueueable
    exact Bool.and_eq_true_iff.mpr ⟨decide_eq_true hmode, hqueueable⟩

/-- A handler that lists its entry is on its way. -/
theorem late_of_list (h : phase.move P s n choice = some m) (he : m.effect = .list id p) :
    phase.late = true := by
  revert h
  fun_cases Phase.move P s n phase choice <;> intro h <;> cases h <;> cases he
  rfl

end Phase

/-! ## The last tick -/

/-- This tick of the dispatcher is its last. -/
def System.lastTick (s : System F σ) : Bool :=
  s.dispatcher.isIdle && (s.draining && s.pending.entries.isEmpty)

/-- **The dispatcher leaves nobody behind**: at its last tick no handler is
on its way to the queue. -/
def leavesNobody (s : System F σ) : Action F → Bool
  | .dispatch => !s.lastTick || s.handlers.values.all fun phase => !phase.late
  | _ => true

/-- **How the dispatcher ends**: at its last tick, or in a panic of
`pop_next`. -/
theorem DispatchPhase.move_exited {d : DispatchPhase F} {m : Move F σ (DispatchPhase F)}
    (h : d.move P s = some m) (hexit : m.next = exited) :
    d = idle ∧ s.draining = true ∧ s.pending.entries = [] ∧ m.effect = .silent ∨
      d = ticked ∧ ∃ e, (Scheduler.popNext P.scheduler s.now s.scheduler).1 = .error e := by
  revert h
  fun_cases DispatchPhase.move P s d <;> intro h <;> cases h
  all_goals first
    | cases hexit
    | skip
  · rename_i hlast
    obtain ⟨hdraining, hempty⟩ := Bool.and_eq_true_iff.mp hlast
    exact Or.inl ⟨rfl, hdraining, List.isEmpty_iff.mp hempty, rfl⟩
  · refine Or.inr ⟨rfl, ?_⟩
    unfold afterPop at hexit
    split at hexit
    · cases hexit
    · cases hexit
    · exact ⟨_, by assumption⟩
  · unfold afterReserve at hexit
    split at hexit <;> cases hexit
  · unfold afterLeave at hexit
    split at hexit <;> cases hexit

/-- **What is left of the proxy once the dispatcher has ended.** -/
structure Drained (s : System F σ) : Prop where
  draining : s.draining = true
  /-- Nobody is listed. -/
  unlisted : ∀ id p, s.pending.get? id ≠ some p
  /-- Nobody is on the way. -/
  settled : ∀ n phase, s.handlers.get? n = some phase → phase.late = false

theorem Effect.apply_draining {e : Effect F σ} : (e.apply P s).draining = s.draining := by
  cases e <;> rfl

/-- **The other tasks keep it so.** -/
theorem Drained.step {a : Action F} (h : Drained s) (hexit : s.dispatcher = .exited)
    (hs : step P s a = some t) : Drained t := by
  cases stepped hs with
  | arrive =>
    refine ⟨h.draining, h.unlisted, fun n phase hn => ?_⟩
    rcases System.goto_get? hn with ⟨-, rfl⟩ | ⟨-, hn⟩
    · rw [h.draining]
      rfl
    · exact h.settled n phase hn
  | @handler n choice phase m hphase hm =>
    have hsettled := h.settled n phase hphase
    refine ⟨Effect.apply_draining.trans h.draining, fun id p hp => ?_, fun n' phase' hn => ?_⟩
    · rcases Effect.listed_of_apply hp with hp | he
      · exact h.unlisted id p hp
      · rw [Phase.late_of_list hm he] at hsettled
        cases hsettled
    · rcases System.goto_get? hn with ⟨-, rfl⟩ | ⟨-, hn⟩
      · refine Bool.eq_false_iff.mpr fun hlate => ?_
        rw [Phase.late_of_move hm hlate] at hsettled
        cases hsettled
      · rw [Effect.apply_handlers (Phase.move_not_deliver hm)] at hn
        exact h.settled n' phase' hn
  | @dispatch m hm =>
    rw [hexit] at hm
    cases hm
  | release hk => exact ⟨h.draining, h.unlisted, h.settled⟩
  | advance d => exact ⟨h.draining, h.unlisted, h.settled⟩
  | reload config => exact ⟨h.draining, h.unlisted, h.settled⟩
  | drain => exact ⟨rfl, h.unlisted, h.settled⟩

/-- **The last tick makes it so**, if it leaves nobody behind. -/
theorem drained_of_dispatch {m : Move F σ (DispatchPhase F)} (hk : Scheduler.Keyed s.scheduler)
    (hok : leavesNobody s .dispatch = true) (hm : s.dispatcher.move P s = some m)
    (hexit : m.next = .exited) :
    Drained { m.effect.apply P (s.bump m.counter) with dispatcher := m.next } := by
  rcases DispatchPhase.move_exited hm hexit with ⟨hidle, hdraining, hempty, he⟩ | ⟨-, e, hpop⟩
  · have hlast : s.lastTick = true := by
      rw [System.lastTick, hidle, hdraining, hempty]
      rfl
    have hnone : ∀ phase ∈ s.handlers.values, phase.late = false := by
      rw [leavesNobody, hlast, Bool.not_true, Bool.false_or, List.all_eq_true] at hok
      intro phase hphase
      exact (Bool.not_eq_true' _).mp (hok phase hphase)
    rw [he]
    refine ⟨hdraining, fun id p hp => ?_, fun n phase hn => ?_⟩
    · have hmem := OrdMap.get?_eq_some.mp hp
      rw [Effect.apply, System.bump, hempty] at hmem
      exact List.not_mem_nil hmem
    · exact hnone phase (OrdMap.mem_values.mpr ⟨n, hn⟩)
  · -- a reachable scheduler does not panic
    rcases Scheduler.popNext_spec P.scheduler s.now hk.noEmpty with ⟨-, hs⟩ | ⟨_, item, _, -, hs, -⟩
    · rw [hs] at hpop
      cases hpop
    · rw [hpop] at hs
      cases hs

/-- **A dispatcher that ends leaves a drained proxy**, along every run in
which its last tick leaves nobody behind. -/
theorem drained_of_run {config : Config F} {c : σ} {es : List (Action F)}
    (hrun : Trace (Guarded (fun s a => leavesNobody s a = true) (StepOf (step P)))
      (System.build config c) es t) : t.dispatcher = .exited → Drained t := by
  refine hrun.along (P := fun t => t.dispatcher = .exited → Drained t) (fun h => by cases h) ?_
  rintro pre a s t - hs₀ hdrained ⟨hok, hs⟩ hexit
  have hkeyed := (scheduled_of_run (hs₀.mono fun h => h.2)).keyed
  by_cases hbefore : s.dispatcher = .exited
  · exact (hdrained hbefore).step hbefore hs
  · cases stepped hs with
    | @handler n choice phase m hphase hm =>
      exact absurd (Effect.apply_dispatcher.symm.trans hexit) hbefore
    | @dispatch m hm => exact drained_of_dispatch hkeyed hok hm hexit
    | _ => exact absurd hexit hbefore

omit [Arith F] in
/-- Nobody listed and nobody carried: every channel is closed. -/
theorem Drained.senderAlive (h : Drained s) (hexit : s.dispatcher = .exited) (n : ℕ) :
    s.senderAlive n = false := by
  unfold System.senderAlive
  rw [hexit, Bool.or_eq_false_iff]
  refine ⟨List.any_eq_false.mpr fun p hp => ?_, rfl⟩
  obtain ⟨id, hid⟩ := OrdMap.mem_values.mp hp
  exact absurd hid (h.unlisted id p)

/-- **A drain strands nobody if the dispatcher leaves nobody behind.** Take
any run at whose last tick of the dispatcher no handler is between the
check of the drain and its entry in `pending`. In every state after that
tick, a handler at its receiver finds the channel closed unless it has been
sent its leases, and no handler is about to enqueue. -/
theorem drain_strands_nobody (P : Params F σ) (config : Config F) (c : σ) {es : List (Action F)}
    (hrun : Trace (Guarded (fun s a => leavesNobody s a = true) (StepOf (step P)))
      (System.build config c) es t) (hexit : t.dispatcher = .exited) :
    (∀ n job since, t.handlers.get? n = some (.waiting job since none) →
        t.senderAlive n = false) ∧
      ∀ n job, t.handlers.get? n = some (.refused job) →
        job.config.mode = .shadow ∨ job.request.queueable = false := by
  have hdrained := drained_of_run hrun hexit
  refine ⟨fun n job since _ => hdrained.senderAlive hexit n, fun n job hn => ?_⟩
  have hsettled : job.queues = false := hdrained.settled n _ hn
  rw [Job.queues, Bool.and_eq_false_iff, decide_eq_false_iff_not, not_not] at hsettled
  exact hsettled

/-! ## Runs of it -/

/-- A dispatcher past its last tick. -/
def DispatchPhase.isExited : DispatchPhase F → Bool
  | exited => true
  | _ => false

omit [Arith F] in
theorem DispatchPhase.eq_exited {d : DispatchPhase F} (h : d.isExited = true) : d = exited := by
  cases d with
  | exited => rfl
  | _ => cases h

/-- Handler 1 waits behind handler 0 and is served once that is done; the
proxy drains meanwhile, and the dispatcher's next tick is its last. -/
def drainsInTime : List (Action ℚ) :=
  queuesBehind ++ goOn 1 1 ++ [.drain] ++
    [.handler 0 (.respond false), .handler 0 .next, .handler 0 (.finish none)] ++ goOn 0 6 ++
    List.replicate 13 .dispatch

/-- It leaves nobody at the receiver of an open channel. -/
theorem drain_strands_nobody_in_time :
    ∃ t, Trace (Guarded (fun s a => leavesNobody s a = true)
        (StepOf (step (Params.inMemory (Config.minimal .enforce [])))))
        (System.build (Config.minimal .enforce []) ∅) drainsInTime t ∧ t.dispatcher = .exited ∧
      ∀ n job since, t.handlers.get? n = some (.waiting job since none) →
        t.senderAlive n = false := by
  have hrun : (drainsInTime.foldlM
      (fun s a => if leavesNobody s a
        then step (Params.inMemory (Config.minimal .enforce [])) s a else none)
      (System.build (Config.minimal .enforce []) ∅)).any (fun s => s.dispatcher.isExited) = true := by
    decide +kernel
  obtain ⟨t, htrace, hend⟩ := Trace.exists_guarded_of_any hrun
  have hexit := DispatchPhase.eq_exited hend
  exact ⟨t, htrace, hexit, (drain_strands_nobody _ _ _ htrace hexit).1⟩

/-- Handler 1 has been refused entry when the drain begins, and the
dispatcher ticks before it enqueues. -/
def drainsTooEarly : List (Action ℚ) :=
  admits 0 (sampleArrival 1 2) ++ begins 1 (sampleArrival 2 2) ++ [.drain, .dispatch] ++ goOn 1 2

/-- **The dispatcher has ended, and handler 1 waits** on an open channel,
with its request queued. -/
theorem drain_strands_late_handler :
    ∃ t job since, Trace (StepOf (step (Params.inMemory (Config.minimal .enforce []))))
        (System.build (Config.minimal .enforce []) ∅) drainsTooEarly t ∧ t.dispatcher = .exited ∧
      t.handlers.get? 1 = some (.waiting job since none) ∧ t.senderAlive 1 = true ∧
      (Scheduler.queued t.scheduler).map (·.request.id) = [2] := by
  have hrun : (drainsTooEarly.foldlM (step (Params.inMemory (Config.minimal .enforce [])))
      (System.build (Config.minimal .enforce []) ∅)).any
      (fun s => ((s.handlers.get? 1).any (·.unanswered.isSome) && s.senderAlive 1) &&
        (s.dispatcher.isExited &&
          (Scheduler.queued s.scheduler).map (·.request.id) == [2])) = true := by
    decide +kernel
  obtain ⟨t, htrace, hend⟩ := Trace.exists_of_any hrun
  obtain ⟨hhandler, hrest⟩ := Bool.and_eq_true_iff.mp hend
  obtain ⟨hwaits, halive⟩ := Bool.and_eq_true_iff.mp hhandler
  obtain ⟨hexited, hqueued⟩ := Bool.and_eq_true_iff.mp hrest
  obtain ⟨phase, hphase, hsome⟩ := (Option.any_eq_true _ _).mp hwaits
  obtain ⟨job, since, rfl⟩ := Phase.eq_waiting hsome
  exact ⟨t, job, since, htrace, DispatchPhase.eq_exited hexited, hphase, halive,
    eq_of_beq hqueued⟩

end Proxy

end InferQos
