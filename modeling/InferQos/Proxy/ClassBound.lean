import InferQos.Proxy.Provenance
/-!
# The bound of a class

`service_classes[..].max_queued` is validated to be positive and read
nowhere else: `enqueue` tests the depth and the bytes of the whole queue. So
what bounds a class is the bound of the queue and what arrives:
`class_bound_kept` says that the bounds of the classes hold along a run if
each is no smaller than the depth of the queue, or than the number of
requests of its class that arrive.
-/

namespace InferQos

/-! ## Requests of a class -/

namespace Scheduler

variable {F : Type} {s s' : Inner F} {k : QueueKey} {item : Queued F} {cls : ServiceClass}

/-- How many requests of a class wait. -/
def classDepth (s : Inner F) (cls : ServiceClass) : ℕ :=
  (queued s).countP (·.request.effectiveClass = cls)

/-- **Ids that cover a class bound it**: no id waits twice. -/
theorem classDepth_le_ids (hk : Keyed s) {ids : List Uuid}
    (h : ∀ r, Holds s r → r.effectiveClass = cls → r.id ∈ ids) : classDepth s cls ≤ ids.length := by
  unfold classDepth
  rw [List.countP_eq_length_filter, ← List.length_map (·.request.id)]
  refine (List.subperm_of_subset (hk.ids_nodup.sublist (List.filter_sublist.map _)) ?_).length_le
  intro id hid
  obtain ⟨it, hit, rfl⟩ := List.mem_map.mp hid
  obtain ⟨hit, hcls⟩ := List.mem_filter.mp hit
  exact h it.request ⟨it, hit, rfl⟩ (of_decide_eq_true hcls)

/-- The depth counts the items, and is within its bound. -/
def DepthOk (cfg : Config F) (s : Inner F) : Prop :=
  s.depth = (queued s).length ∧ s.depth ≤ cfg.maxDepth

theorem Pushed.depthOk {cfg : Config F} (h : DepthOk cfg s) (hp : Pushed s s' item)
    (hdepth : s.depth < cfg.maxDepth) : DepthOk cfg s' := by
  have hmax := cfg.maxDepth_le
  have hlt : u64Max < 2 ^ 64 := by decide
  have hdep : s'.depth = s.depth + 1 := hp.depth.trans (wrappingAdd_of_lt (by omega))
  have htotal := hp.total fun _ => 1
  have hlen := h.1
  rw [length_queued] at hlen
  refine ⟨?_, by omega⟩
  rw [length_queued]
  omega

theorem Removed.depthOk {cfg : Config F} (h : DepthOk cfg s) (hr : Removed s s' k item) :
    DepthOk cfg s' := by
  have htotal := hr.total fun _ => 1
  have hlen := h.1
  have hle := h.2
  rw [length_queued] at hlen
  have hdep : s'.depth = s.depth - 1 := hr.depth.trans (wrappingSub_of_le (by omega))
  refine ⟨?_, by omega⟩
  rw [length_queued]
  omega

variable [Arith F] {cfg : Config F}

/-- **A call keeps the depth**, whatever becomes of the bytes. -/
theorem apply_depthOk (hk : Keyed s) (h : DepthOk cfg s) (c : Call F) :
    DepthOk cfg (apply cfg s c).2 := by
  obtain ⟨now, op⟩ := c
  cases op with
  | enqueue request b cw tw aw =>
    change DepthOk cfg (enqueue cfg now s request b cw tw aw).2
    rcases enqueue_spec cfg now s request b cw tw aw with ⟨e, -, hs, -⟩ | ⟨-, hdepth, -, hp⟩
    · rw [hs]
      exact h
    · exact hp.depthOk h hdepth
  | cancel id =>
    change DepthOk cfg (cancel s id).2
    rcases cancel_spec hk id with ⟨-, hs⟩ | ⟨k, item, -, -, hr⟩
    · rw [hs]
      exact h
    · exact hr.depthOk h
  | popNext =>
    change DepthOk cfg (popNext cfg now s).2
    rcases popNext_spec cfg now hk.noEmpty with ⟨-, hs⟩ | ⟨k, item, rest, -, -, hr⟩
    · rw [hs]
      exact h
    · exact hr.depthOk h

theorem exec_depthOk (cfg : Config F) (calls : List (Call F)) : DepthOk cfg (exec cfg calls) := by
  induction calls using List.reverseRecOn with
  | nil => exact ⟨rfl, Nat.zero_le _⟩
  | append_singleton calls c ih =>
    rw [exec_snoc]
    exact apply_depthOk (exec_keyed cfg calls) ih c

end Scheduler

namespace Proxy

variable {F σ : Type}

/-! ## Requests of a class that arrive -/

/-- The configurations of a run: the first, and those it loads. -/
def configsOf (config : Config F) (es : List (Action F)) : List (Config F) :=
  config :: es.filterMap fun
    | .reload loaded => some loaded
    | _ => none

/-- **The ids of the requests of a class that arrive**: those which one of
the configurations puts into the class. -/
def arrivalsOf (config : Config F) (es : List (Action F)) (cls : ServiceClass) : List Uuid :=
  es.filterMap fun
    | .handler _ (.arrive a) =>
      if (configsOf config es).any fun c => (effectiveClass c a.identity a.requested).1 = cls then
        some a.requestId
      else none
    | _ => none

theorem prepare_class {config : Config F} {pools : List String} {arrival : Arrival F} {job : Job F}
    (h : prepare config pools arrival = .ok job) :
    job.request.effectiveClass = (effectiveClass config arrival.identity arrival.requested).1 ∧
      job.request.id = arrival.requestId := by
  unfold prepare at h
  revert h
  dsimp only
  repeat' split
  all_goals intro h; cases h
  exact ⟨rfl, rfl⟩

/-- **What a step of a run brings in is among what arrives.** -/
theorem brings_arrivals {config : Config F} {es : List (Action F)} {a : Action F} (ha : a ∈ es)
    (pools : List String) :
    Brings (fun r => r.id ∈ arrivalsOf config es r.effectiveClass) (· ∈ configsOf config es)
      pools a := by
  cases a with
  | handler n choice =>
    cases choice with
    | arrive arrival =>
      intro c job hc hprep
      obtain ⟨hcls, hid⟩ := prepare_class hprep
      refine List.mem_filterMap.mpr ⟨_, ha, ?_⟩
      have hany : (configsOf config es).any (fun c =>
          (effectiveClass c arrival.identity arrival.requested).1 = job.request.effectiveClass) =
          true :=
        List.any_eq_true.mpr ⟨c, hc, decide_eq_true hcls.symm⟩
      simp only [hany, if_true, hid]
    | _ => exact trivial
  | reload loaded => exact List.mem_cons_of_mem _ (List.mem_filterMap.mpr ⟨_, ha, rfl⟩)
  | _ => exact trivial

variable [Arith F] {P : Params F σ} {t : System F σ}

/-- **No more of a class wait than arrived.** -/
theorem classDepth_le_arrivals {config : Config F} {coordinator : σ} {es pre : List (Action F)}
    (h : Trace (StepOf (step P)) (System.build config coordinator) pre t) (hpre : pre <+: es)
    (cls : ServiceClass) :
    Scheduler.classDepth t.scheduler cls ≤ (arrivalsOf config es cls).length := by
  have hsourced : Sourced (fun r => r.id ∈ arrivalsOf config es r.effectiveClass)
      (· ∈ configsOf config es) t := by
    refine h.along (sourced_build coordinator List.mem_cons_self) ?_
    intro pre' a s u hpre' _ hs hstep
    have ha : a ∈ es := (hpre'.trans hpre).subset (by simp)
    exact hs.step (brings_arrivals ha s.pools.keys) hstep
  refine Scheduler.classDepth_le_ids hsourced.keyed fun r hr hcls => ?_
  exact hcls ▸ hsourced.queued hr

theorem classDepth_le_maxDepth (h : Scheduled P t) (cls : ServiceClass) :
    Scheduler.classDepth t.scheduler cls ≤ P.scheduler.maxDepth := by
  obtain ⟨calls, hcalls⟩ := h
  obtain ⟨hlen, hle⟩ := Scheduler.exec_depthOk P.scheduler calls
  rw [← hcalls] at hlen hle
  exact (List.countP_le_length.trans hlen.ge).trans hle

/-! ## The bounds along a run -/

/-- **No class has more requests waiting than its `max_queued`.** -/
def ClassBounded (config : Config F) (s : System F σ) : Prop :=
  ∀ cls c, config.serviceClasses.get? cls.toString = some c →
    Scheduler.classDepth s.scheduler cls ≤ c.maxQueued

/-- **The bounds of the classes hold along a run** that starts from a
configuration which gives each class a `max_queued` of the depth of the
whole queue, or in which no more requests of the class arrive than its
`max_queued`. -/
theorem class_bound_kept (P : Params F σ) (config : Config F) (coordinator : σ)
    (hP : P.scheduler = schedulerConfig config.limits) (es : List (Action F))
    (hroom : ∀ cls c, config.serviceClasses.get? cls.toString = some c →
      config.limits.totalQueueDepth ≤ c.maxQueued ∨
        (arrivalsOf config es cls).length ≤ c.maxQueued) :
    ∀ pre t, pre <+: es → Trace (StepOf (step P)) (System.build config coordinator) pre t →
      ClassBounded config t := by
  intro pre t hpre ht cls c hc
  rcases hroom cls c hc with hdepth | harrivals
  · have hle := classDepth_le_maxDepth (scheduled_of_run ht) cls
    rw [hP] at hle
    exact hle.trans hdepth
  · exact (classDepth_le_arrivals ht hpre cls).trans harrivals

/-- Every class may have `n` requests waiting. -/
def queueing (n : ℕ) : Config ℚ :=
  { Config.minimal .enforce [] with
    serviceClasses := OrdMap.ofList ([ServiceClass.realtime, .interactive, .standard, .workflow,
      .batch].map fun c => (c.toString, ⟨1, 30000000000, 60000000000, n⟩)) }

/-- Handler 0 is admitted, and two more queue behind it. -/
def twoQueue : List (Action ℚ) :=
  admits 0 (sampleArrival 1 2) ++ begins 1 (sampleArrival 2 2) ++ goOn 1 2 ++
    begins 2 (sampleArrival 3 2) ++ goOn 2 2

theorem twoQueue_runs (n : ℕ) (h : n = 1 ∨ n = 3) :
    ∃ t, Trace (StepOf (step (Params.inMemory (queueing n)))) (System.build (queueing n) ∅)
      twoQueue t ∧ Scheduler.classDepth t.scheduler .standard = 2 := by
  have hrun : (twoQueue.foldlM (step (Params.inMemory (queueing n)))
      (System.build (queueing n) ∅)).any
        (fun s => Scheduler.classDepth s.scheduler .standard = 2) = true := by
    rcases h with rfl | rfl <;> decide +kernel
  obtain ⟨t, htrace, hend⟩ := Trace.exists_of_any hrun
  exact ⟨t, htrace, of_decide_eq_true hend⟩

/-- Three arrive where three may wait, and the bounds hold. -/
theorem class_bound_of_three :
    ∃ t, Trace (StepOf (step (Params.inMemory (queueing 3)))) (System.build (queueing 3) ∅)
        twoQueue t ∧
      Scheduler.classDepth t.scheduler .standard = 2 ∧ ClassBounded (queueing 3) t := by
  obtain ⟨t, htrace, htwo⟩ := twoQueue_runs 3 (Or.inr rfl)
  refine ⟨t, htrace, htwo, class_bound_kept _ _ ∅ rfl twoQueue ?_ twoQueue t List.prefix_rfl htrace⟩
  intro cls c hc
  have hqueued : ∀ e ∈ (queueing 3).serviceClasses.entries, e.2.maxQueued = 3 := by decide +kernel
  have harrivals : (arrivalsOf (queueing 3) twoQueue cls).length ≤ 3 := by
    cases cls <;> decide +kernel
  exact Or.inr (harrivals.trans (hqueued _ (OrdMap.get?_eq_some.mp hc)).ge)

/-- **Two requests of a class wait where one may.** -/
theorem class_bound_exceeded :
    Config.validate Config.noParsers (queueing 1) = .ok () ∧
      ∃ t, Trace (StepOf (step (Params.inMemory (queueing 1)))) (System.build (queueing 1) ∅)
          twoQueue t ∧
        Scheduler.classDepth t.scheduler .standard = 2 ∧ ¬ ClassBounded (queueing 1) t := by
  obtain ⟨t, htrace, htwo⟩ := twoQueue_runs 1 (Or.inl rfl)
  refine ⟨by decide +kernel, t, htrace, htwo, fun hbound => ?_⟩
  have hclass : ((queueing 1).serviceClasses.get? ServiceClass.standard.toString).any
      (·.maxQueued = 1) = true := by
    decide +kernel
  obtain ⟨c, hc, hone⟩ := (Option.any_eq_true _ _).mp hclass
  have hle := hbound .standard c hc
  rw [htwo, of_decide_eq_true hone] at hle
  exact absurd hle (by decide)

end Proxy

end InferQos
