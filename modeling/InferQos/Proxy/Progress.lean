import InferQos.Common.Ranking
import InferQos.Proxy.Conservation
import InferQos.Proxy.Drain
import InferQos.Proxy.Provenance
import InferQos.Proxy.Waiting
/-!
# Handlers come to an end

A handler goes through its positions in one direction: only the loop of a
streaming task goes round, once per chunk and once per renewal. `rank`
bounds the steps that are left outside that loop. It falls with every step
a handler takes there, and no step of another task raises it, so the steps
of a handler are bounded (`handler_steps_bounded`).

Nothing blocks for good either: what a task looks up is there, and a wait
ends with its deadline. From every reachable state the tasks that are there
and the passing of time can bring the system to rest, with no request
dropped on the way and whatever the world answers (`comes_to_rest`).
-/

namespace InferQos

namespace Proxy

variable {F σ : Type}

/-! ## Ranks -/

/-- The calls a reservation may still make. -/
def ReservePhase.rank : ReservePhase F → ℕ
  | tenant => 6
  | application _ => 5
  | limit _ _ => 4
  | capacity _ _ _ => 3
  | undoApplication _ _ => 2
  | undoTenant _ => 1
  | finished _ => 0

/-- **The steps a handler may still take**, the loop of its streaming task
aside. -/
def Phase.rank : Phase F → ℕ
  | starting => 26
  | loaded _ => 25
  | charging _ => 24
  | entering _ _ => 23
  | reserving _ _ at_ => 16 + at_.rank
  | leaving _ _ => 15
  | refused _ => 14
  | enqueued _ => 13
  | waiting _ _ _ => 12
  | tracking _ _ _ => 12
  | admitted _ _ => 11
  | loading _ _ => 10
  | dispatching _ _ => 9
  | opening _ _ _ => 8
  | streaming _ _ _ _ _ => 7
  | completing _ _ rest _ _ => 3 + rest.length
  | closing _ _ _ => 4
  | spawning _ _ _ => 3
  | departing _ _ => 2
  | uncounting _ => 1
  | expired _ _ => 4
  | cancelling _ => 3
  | unlisting _ => 2
  | rejecting _ _ => 1
  | done _ => 0

/-- A turn of the streaming loop: a chunk passed on, or a renewal. -/
def Phase.loops : Phase F → Choice F → Bool
  | streaming .., .finish _ => false
  | streaming .., _ => true
  | _, _ => false

section Moves

variable [Arith F] {P : Params F σ} {s : System F σ} {n : ℕ}

/-- **A call brings a reservation closer to its answer.** -/
theorem ReservePhase.rank_step (C : Coordinator F σ) (a : Attempt F) (env : Ambient)
    (pending : List String) (c : σ) (at_ : ReservePhase F) :
    (at_.step C a env pending c).1.rank < at_.rank ∨
      ∃ r, (at_.step C a env pending c).1 = finished r := by
  cases at_ with
  | tenant =>
    simp only [step]
    split
    · exact Or.inr ⟨_, rfl⟩
    · exact Or.inr ⟨_, rfl⟩
    · exact Or.inl (by simp [rank])
  | application tenantSlot =>
    simp only [step]
    split
    · exact Or.inr ⟨_, rfl⟩
    · exact Or.inl (by simp [rank])
    · exact Or.inl (by simp [rank])
  | limit tenantSlot applicationSlot => exact Or.inl (by simp [step, rank])
  | capacity tenantSlot applicationSlot tenantLimit =>
    simp only [step]
    split
    · exact Or.inr ⟨_, rfl⟩
    · exact Or.inl (by simp [rank])
    · exact Or.inr ⟨_, rfl⟩
  | undoApplication tenantSlot applicationSlot =>
    simp only [step]
    split
    · exact Or.inr ⟨_, rfl⟩
    · exact Or.inl (by simp [rank])
  | undoTenant tenantSlot =>
    simp only [step]
    split
    · exact Or.inr ⟨_, rfl⟩
    · exact Or.inr ⟨_, rfl⟩
  | finished r => exact Or.inr ⟨r, rfl⟩

namespace Phase

variable {phase : Phase F} {choice : Choice F} {m : Move F σ (Phase F)}

omit [Arith F] in
theorem rank_afterReserve {job : Job F} {charged : F} {at_ at' : ReservePhase F}
    (h : at'.rank < at_.rank ∨ ∃ r, at' = .finished r) :
    (afterReserve job charged at').rank < 16 + at_.rank := by
  unfold afterReserve
  split
  · simp only [rank]
    omega
  · simp only [rank]
    omega
  · simp only [rank]
    omega
  · rename_i hsome hnone herror
    rcases h with h | ⟨r, rfl⟩
    · simp only [rank]
      omega
    · rcases r with e | _ | leases
      · exact absurd rfl (herror e)
      · exact absurd rfl hnone
      · exact absurd rfl (hsome leases)

omit [Arith F] in
theorem rank_afterLeave (job : Job F) (error : Option CoordinatorError) :
    (afterLeave job error).rank < 15 := by
  cases error <;> simp [afterLeave, rank]

/-- **A handler's step lowers its rank**, unless it is a turn of the
streaming loop, which keeps it. -/
theorem move_rank (h : phase.move P s n choice = some m) :
    m.next.rank + (if phase.loops choice then 0 else 1) ≤ phase.rank := by
  revert h
  fun_cases Phase.move P s n phase choice <;> intro h <;> cases h
  all_goals first
    | exact rank_afterReserve (ReservePhase.rank_step _ _ _ _ _ _)
    | exact rank_afterLeave _ _
    | exact le_add_right (by decide)
    | exact (Nat.add_assoc _ _ _).le
    | simp [rank, loops]
  exact le_add_right (by decide)

omit [Arith F] in
/-- A delivery keeps the rank. -/
theorem receive_rank {phase' : Phase F} {leases : AdmissionLeases F}
    (h : phase.receive leases = some phase') : phase'.rank = phase.rank := by
  revert h
  fun_cases Phase.receive leases phase <;> intro h <;> cases h
  · rfl
  · rfl

end Phase

end Moves

/-! ## A handler's own steps -/

/-- A handler's step outside the streaming loop. -/
def System.advances (n : ℕ) (s : System F σ) : Action F → Bool
  | .handler n' choice => n' = n && (s.handlers.get? n).all (!·.loops choice)
  | _ => false

/-- What a handler may still take, one that is not there yet included. -/
def System.rank (n : ℕ) (s : System F σ) : ℕ := (s.handlers.get? n).elim 26 Phase.rank

section Bounded

variable [Arith F] {P : Params F σ} {s t : System F σ} {n : ℕ}

/-- **A step lowers the rank of the handler that takes it**, unless it is a
turn of the loop, and raises no handler's. -/
theorem rank_step {a : Action F} (hl : Linked s) (hs : step P s a = some t) :
    t.rank n + (if s.advances n a then 1 else 0) ≤ s.rank n := by
  cases stepped hs with
  | arrive =>
    simp only [System.advances, Bool.false_eq_true, if_false, add_zero, System.rank, System.goto,
      System.bump, OrdMap.get?_insert]
    split
    · rename_i hn
      have hnone : s.handlers.get? n = none := Option.eq_none_iff_forall_ne_some.mpr
        fun old hold => lt_irrefl _ (hn ▸ hl.fresh _ old hold)
      rw [hnone]
      cases s.draining <;> simp [Phase.first, Phase.rank]
    · exact le_rfl
  | @handler n' choice phase m hphase hm =>
    have hhandlers : (m.effect.apply P (s.bump m.counter)).handlers = s.handlers :=
      Effect.apply_handlers (Phase.move_not_deliver hm)
    simp only [System.rank, System.goto, hhandlers, OrdMap.get?_insert, System.advances]
    by_cases hn : n = n'
    · subst hn
      have hmove := Phase.move_rank hm
      simp only [hphase, if_true, Option.elim_some, Option.all_some, decide_true, Bool.true_and]
      cases hloop : phase.loops choice with
      | false => simpa [hloop] using hmove
      | true => simpa [hloop] using hmove
    · simp [hn, Ne.symm hn]
  | @dispatch m hm =>
    simp only [System.advances, Bool.false_eq_true, if_false, add_zero, System.rank]
    rw [Effect.apply_bump]
    by_cases hd : ∃ w phase, m.effect = .deliver w phase
    · obtain ⟨w, phase, he⟩ := hd
      obtain ⟨-, p, leases, old, -, -, rfl, hold, hr⟩ := DispatchPhase.move_deliver hm he
      simp only [he, Effect.apply, System.goto, System.bump, OrdMap.get?_insert]
      split
      · rename_i hn
        rw [hn, hold]
        exact (Phase.receive_rank hr).le
      · exact le_rfl
    · rw [System.bump, Effect.apply_handlers fun w phase he => hd ⟨w, phase, he⟩]
  | _ => exact le_rfl

/-- **A handler takes at most 26 steps outside its streaming loop**, in
every run: whatever the other tasks do in between, whether calls fail and
whenever its client goes away. -/
theorem handler_steps_bounded (config : Config F) (coordinator : σ) (n : ℕ)
    {es : List (Action F × Bool)}
    (hrun : Trace (Observed (System.advances n) (StepOf (step P)))
      (System.build config coordinator) es s) :
    es.countP (·.2) + s.rank n ≤ 26 :=
  hrun.countP_add_le (linked_build config coordinator) (fun hl hs => hl.step hs)
    (fun hl hs => (Nat.le_add_right _ _).trans (rank_step hl hs)) fun hl hs hadv => by
      have := rank_step (n := n) hl hs
      rwa [if_pos hadv] at this

/-- Eleven of them bring a request to the provider, and nine are left. -/
theorem handler_steps_bounded_admitted :
    ∃ es s, Trace (Observed (System.advances 0)
        (StepOf (step (Params.inMemory (Config.minimal .enforce [])))))
        (System.build (Config.minimal .enforce []) ∅) es s ∧
      es.map Prod.fst = admits 0 (sampleArrival 1 2) ∧ es.countP (·.2) = 11 ∧ s.rank 0 = 9 ∧
      es.countP (·.2) + s.rank 0 ≤ 26 := by
  have hrun : (((.arrive, false) :: (admits 0 (sampleArrival 1 2)).tail.map (·, true)).foldlM
      (fun s (e : Action ℚ × Bool) => if e.2 = System.advances 0 s e.1 then
        step (Params.inMemory (Config.minimal .enforce [])) s e.1 else none)
      (System.build (Config.minimal .enforce []) ∅)).any (fun s => s.rank 0 = 9) = true := by
    decide +kernel
  obtain ⟨s, htrace, hrank⟩ := Trace.exists_observed_of_any hrun
  exact ⟨_, s, htrace, rfl, rfl, of_decide_eq_true hrank, handler_steps_bounded _ _ 0 htrace⟩

end Bounded

/-! ## Coming to rest -/

/-- What the world gives each handler: the request it reads, the provider's
answer and the usage found in it. -/
structure World (F : Type) where
  arrival : ℕ → Arrival F
  throttled : ℕ → Bool
  actual : ℕ → Option (WorkEstimate F)

/-- **Steps of the tasks that are there**, with the world's answers, and the
passing of time: no new request, no failure, no client that goes away. -/
def World.Allows (w : World F) : Action F → Prop
  | .handler n choice =>
    choice = .next ∨ choice = .expire ∨ choice = .arrive (w.arrival n) ∨
      choice = .respond (w.throttled n) ∨ choice = .finish (w.actual n)
  | .dispatch => True
  | .release _ => True
  | .advance _ => True
  | _ => False

/-- What holds a handler up at its position: a deadline to come, or the
renewals under way. -/
def Phase.pause (now : ℕ) : Phase F → ℕ
  | waiting job since none => if since + job.request.deadline ≤ now then 0 else 1
  | streaming _ _ _ _ (.renewing rest) => rest.length + 1
  | _ => 0

/-- How far a handler is from its end. A step on its way may enqueue a
request or spawn a release, and still brings the system closer. -/
def Phase.distance (now : ℕ) (phase : Phase F) : ℕ := 64 * phase.rank + phase.pause now

/-- **How far the dispatcher is from the end of its iteration.** -/
def DispatchPhase.distance (now : ℕ) : DispatchPhase F → ℕ
  | ticked => 0
  | exited => 0
  | idle => 1
  | reinserting _ _ => 2
  | requeueing _ _ => 51
  | retry _ p => if p.request.deadline ≤ now - p.queuedAt then 2 else 3
  | leaving _ _ => 4
  | unsent _ _ rest => 5 + rest.length
  | sending _ _ _ => 9
  | tracking _ _ _ _ => 10
  | reserving _ _ _ _ at_ => 11 + at_.rank
  | charging _ _ _ => 18
  | entering _ _ _ => 19
  | holding _ _ => 20
  | popped _ => 21

/-- What waits in the scheduler and for the release tasks. -/
def System.backlog (s : System F σ) : ℕ :=
  48 * Scheduler.total (fun _ => 1) s.scheduler.queues + s.releases.sumOn fun _ rest => rest.length

/-- How far the system is from rest. -/
def System.distance (s : System F σ) : ℕ :=
  s.sumOver (Phase.distance s.now) (DispatchPhase.distance s.now) + s.backlog

/-- What an effect adds to the backlog at most. -/
def Effect.load : Effect F σ → ℕ
  | schedule (.enqueue ..) => 48
  | spawn _ => 3
  | _ => 0

section Rest

variable [Arith F] {P : Params F σ} {s t : System F σ} {n : ℕ}

/-- **The backlog after an effect.** -/
theorem Effect.backlog_apply_le (hk : Scheduler.Keyed s.scheduler) (e : Effect F σ) :
    (e.apply P s).backlog ≤ s.backlog + e.load := by
  cases e with
  | schedule op =>
    refine Nat.add_right_comm _ _ _ ▸ Nat.add_le_add_right ?_ _
    cases op with
    | enqueue request b cw tw aw =>
      change 48 * Scheduler.total _ (Scheduler.enqueue P.scheduler s.now s.scheduler request b cw tw
        aw).2.queues ≤ _
      rcases Scheduler.enqueue_spec P.scheduler s.now s.scheduler request b cw tw aw with
        ⟨e, -, hs, -⟩ | ⟨-, -, -, hp⟩
      · rw [hs]
        exact Nat.le_add_right _ _
      · rw [hp.total]
        exact (Nat.mul_add _ _ _).le
    | cancel id =>
      change 48 * Scheduler.total _ (Scheduler.cancel s.scheduler id).2.queues ≤ _
      rcases Scheduler.cancel_spec hk id with ⟨-, hs⟩ | ⟨k, item, -, -, hr⟩
      · rw [hs]
        exact Nat.le_add_right _ _
      · rw [hr.total]
        simp only [load]
        omega
    | popNext =>
      change 48 * Scheduler.total _ (Scheduler.popNext P.scheduler s.now s.scheduler).2.queues ≤ _
      rcases Scheduler.popNext_spec P.scheduler s.now hk.noEmpty with
        ⟨-, hs⟩ | ⟨k, item, rest, -, -, hr⟩
      · rw [hs]
        exact Nat.le_add_right _ _
      · rw [hr.total]
        simp only [load]
        omega
  | spawn leases =>
    have herase : (s.releases.erase s.nextTask).sumOn (fun _ rest => rest.length) ≤
        s.releases.sumOn fun _ rest => rest.length :=
      OrdMap.sumOn_filter_le (fun e _ => Nat.zero_le _) _
    simp only [System.backlog, apply, OrdMap.sumOn_insert, load, AdmissionLeases.releaseOrder,
      List.length_cons, List.length_nil]
    omega
  | _ => exact le_rfl

omit [Arith F] in
theorem Effect.load_le (e : Effect F σ) : e.load ≤ 48 := by
  unfold load
  split <;> decide

namespace Phase

variable {phase : Phase F} {choice : Choice F} {m : Move F σ (Phase F)}

omit [Arith F] in
/-- Time only brings a handler closer. -/
theorem distance_anti (phase : Phase F) {now now' : ℕ} (h : now ≤ now') :
    phase.distance now' ≤ phase.distance now := by
  refine Nat.add_le_add_left ?_ _
  unfold pause
  split
  · split
    · exact Nat.zero_le _
    · rename_i hnot
      rw [if_neg fun hdue => hnot (hdue.trans h)]
  · exact le_rfl
  · exact le_rfl

theorem move_pause_le (h : phase.move P s n choice = some m) (hloop : phase.loops choice = false) :
    m.next.pause s.now ≤ 1 := by
  revert h hloop
  fun_cases Phase.move P s n phase choice <;> intro h hloop <;> cases h
  all_goals first
    | exact Nat.zero_le _
    | cases hloop
  · unfold afterReserve
    split <;> exact Nat.zero_le _
  · rename_i error
    cases error <;> exact Nat.zero_le _
  · simp only [pause]
    split <;> decide

/-- **A step outside the loop brings the handler closer to its end**, by
more than it adds to the backlog. -/
theorem move_distance (h : phase.move P s n choice = some m) (hloop : phase.loops choice = false) :
    m.next.distance s.now + m.effect.load < phase.distance s.now := by
  have hrank := move_rank h
  have hpause := move_pause_le h hloop
  have hload := m.effect.load_le
  rw [hloop] at hrank
  simp only [Bool.false_eq_true, if_false] at hrank
  unfold distance
  omega

/-- **A handler that is not done can get closer to its end**, by a step the
world allows or by waiting. -/
theorem nears (w : World F) (hdone : phase.isDone = false)
    (hpool : ∀ job, phase.job? = some job → (s.pools.get? job.request.pool).isSome) :
    (∃ choice m, w.Allows (.handler n choice) ∧ phase.move P s n choice = some m ∧
        m.next.distance s.now + m.effect.load < phase.distance s.now) ∨
      ∃ d, phase.distance (s.now + d) < phase.distance s.now := by
  have hstep : ∀ choice, w.Allows (.handler n choice) → phase.loops choice = false →
      (phase.move P s n choice).isSome → ∃ choice m, w.Allows (.handler n choice) ∧
        phase.move P s n choice = some m ∧
        m.next.distance s.now + m.effect.load < phase.distance s.now := by
    intro choice hok hloop hsome
    obtain ⟨m, hm⟩ := Option.isSome_iff_exists.mp hsome
    exact ⟨choice, m, hok, hm, move_distance hm hloop⟩
  have hnext : w.Allows (.handler n .next) := Or.inl rfl
  cases phase with
  | done r => cases hdone
  | loaded config =>
    refine Or.inl (hstep (.arrive (w.arrival n)) (.inr (.inr (.inl rfl))) rfl ?_)
    simp only [move]
    split <;> rfl
  | charging job =>
    obtain ⟨rt, hrt⟩ := Option.isSome_iff_exists.mp (hpool job rfl)
    exact Or.inl (hstep .next hnext rfl (by simp [move, hrt]))
  | entering job charged =>
    refine Or.inl (hstep .next hnext rfl ?_)
    simp only [move]
    split <;> rfl
  | reserving job charged at_ =>
    obtain ⟨rt, hrt⟩ := Option.isSome_iff_exists.mp (hpool job rfl)
    exact Or.inl (hstep .next hnext rfl (by simp [move, System.attempt, hrt]))
  | tracking job charged leases =>
    obtain ⟨rt, hrt⟩ := Option.isSome_iff_exists.mp (hpool job rfl)
    exact Or.inl (hstep .next hnext rfl (by simp [move, hrt]))
  | refused job =>
    refine Or.inl (hstep .next hnext rfl ?_)
    simp only [move]
    split
    · rfl
    · split
      · rfl
      · split <;> rfl
  | waiting job since value =>
    cases value with
    | some leases => exact Or.inl (hstep .next hnext rfl rfl)
    | none =>
      by_cases hdue : since + job.request.deadline ≤ s.now
      · exact Or.inl (hstep .expire (.inr (.inl rfl)) rfl (by simp [move, hdue]))
      · refine Or.inr ⟨since + job.request.deadline, ?_⟩
        simp only [distance, pause, if_neg hdue, if_pos (Nat.le_add_left _ _)]
        omega
  | dispatching job leases =>
    exact Or.inl (hstep (.respond (w.throttled n)) (.inr (.inr (.inr (.inl rfl)))) rfl rfl)
  | streaming job leases throttled due stage =>
    have hfinish : w.Allows (.handler n (.finish (w.actual n))) :=
      .inr (.inr (.inr (.inr rfl)))
    cases stage with
    | renewing rest =>
      -- the renewals come first, and are a turn of the loop
      left
      cases rest with
      | nil => exact ⟨.next, _, hnext, rfl, by simp [distance, rank, pause, Effect.load]⟩
      | cons lease rest =>
        exact ⟨.next, _, hnext, rfl, by simp [distance, rank, pause, Effect.load]⟩
    | select => cases leases <;> exact Or.inl (hstep _ hfinish rfl rfl)
    | sending => cases leases <;> exact Or.inl (hstep _ hfinish rfl rfl)
  | completing job leases rest actual throttled =>
    cases rest <;> exact Or.inl (hstep .next hnext rfl rfl)
  | closing job leases response =>
    cases leases <;> exact Or.inl (hstep .next hnext rfl rfl)
  | _ => exact Or.inl (hstep .next hnext rfl rfl)

omit [Arith F] in
/-- A delivery takes a handler no further away. -/
theorem receive_distance {phase' : Phase F} {leases : AdmissionLeases F} (now : ℕ)
    (h : phase.receive leases = some phase') : phase'.distance now ≤ phase.distance now := by
  revert h
  fun_cases Phase.receive leases phase <;> intro h <;> cases h
  · exact Nat.le_add_right _ _
  · exact le_rfl

end Phase

namespace DispatchPhase

variable {d : DispatchPhase F}

omit [Arith F] in
theorem distance_anti (d : DispatchPhase F) {now now' : ℕ} (h : now ≤ now') :
    d.distance now' ≤ d.distance now := by
  cases d with
  | retry req p =>
    simp only [distance]
    split
    · split <;> decide
    · rename_i hnot
      rw [if_neg fun hdue => hnot (hdue.trans (Nat.sub_le_sub_right h _))]
  | _ => exact le_rfl

omit [Arith F] in
theorem distance_retry_le (req : AdmissionRequest F) (p : Pending F) (now : ℕ) :
    (retry req p).distance now ≤ 3 := by
  simp only [distance]
  split <;> decide

omit [Arith F] in
theorem distance_afterReserve {req : AdmissionRequest F} {p : Pending F} {config : Config F}
    {charged : F} {at_ at' : ReservePhase F} (now : ℕ)
    (h : at'.rank < at_.rank ∨ ∃ r, at' = .finished r) :
    (afterReserve req p config charged at').distance now < 11 + at_.rank := by
  unfold afterReserve
  split
  · simp only [distance]
    omega
  · simp only [distance]
    omega
  · rename_i hsome hfin
    rcases h with h | ⟨r, rfl⟩
    · simp only [distance]
      omega
    · exact absurd rfl (hfin r)

/-- **The dispatcher, unless it has left its loop, can get closer to the end
of its iteration and of the queue**, by a step or by waiting. -/
theorem nears (hk : Scheduler.Keyed s.scheduler)
    (hpool : ∀ req, d.request? = some req → (s.pools.get? req.pool).isSome) (hexit : d ≠ exited)
    (hgo : d.isBetween = false ∨ s.scheduler.queues.entries ≠ []) :
    (∃ m, d.move P s = some m ∧ m.next.distance s.now + (m.effect.apply P s).backlog <
        d.distance s.now + s.backlog) ∨
      ∃ k, d.distance (s.now + k) < d.distance s.now := by
  have hstep : ∀ m, d.move P s = some m → m.next.distance s.now + m.effect.load < d.distance s.now →
      ∃ m, d.move P s = some m ∧ m.next.distance s.now + (m.effect.apply P s).backlog <
        d.distance s.now + s.backlog := by
    intro m hm hlt
    have := m.effect.backlog_apply_le (P := P) hk
    exact ⟨m, hm, by omega⟩
  cases d with
  | exited => exact absurd rfl hexit
  | idle =>
    left
    by_cases hend : (s.draining && s.pending.entries.isEmpty) = true
    · exact hstep { next := exited } (if_pos hend) Nat.zero_lt_one
    · exact hstep { next := ticked } (if_neg hend) Nat.zero_lt_one
  | ticked =>
    rcases Scheduler.popNext_spec P.scheduler s.now hk.noEmpty with
      ⟨hnil, -⟩ | ⟨k, item, rest, -, hres, hr⟩
    · rcases hgo with hgo | hgo
      · cases hgo
      · exact absurd hnil hgo
    · refine Or.inl ⟨_, rfl, ?_⟩
      have htotal := hr.total fun _ => 1
      change (afterPop (Scheduler.popNext P.scheduler s.now s.scheduler).1).distance s.now +
        (48 * Scheduler.total (fun _ => 1)
          (Scheduler.popNext P.scheduler s.now s.scheduler).2.queues + _) < _
      rw [hres]
      simp only [afterPop, distance, System.backlog, Effect.apply, htotal]
      omega
  | popped req =>
    left
    cases hp : s.pending.get? req.id with
    | none => exact hstep { next := idle } (by simp [move, hp]) (by simp [distance, Effect.load])
    | some p =>
      exact hstep { next := holding req p, effect := .unlist req.id } (by simp [move, hp])
        (by simp [distance, Effect.load])
  | holding req p =>
    obtain ⟨rt, hrt⟩ := Option.isSome_iff_exists.mp (hpool req rfl)
    exact Or.inl (hstep { next := entering req p s.config } (by simp [move, hrt])
      (by simp [distance, Effect.load]))
  | entering req p config =>
    left
    cases ht : tryEnter config s.concurrency req.identity with
    | none =>
      refine hstep { next := retry req p } (by simp [move, ht]) ?_
      have := distance_retry_le req p s.now
      change (retry req p).distance s.now < 19
      omega
    | some _ =>
      exact hstep { next := charging req p config, effect := .enter req.identity }
        (by simp [move, ht]) (by simp [distance, Effect.load])
  | charging req p config =>
    obtain ⟨rt, hrt⟩ := Option.isSome_iff_exists.mp (hpool req rfl)
    exact Or.inl (hstep _ (by simp [move, hrt]; rfl)
      (by simp [distance, ReservePhase.rank, Effect.load]))
  | reserving req p config charged at_ =>
    obtain ⟨rt, hrt⟩ := Option.isSome_iff_exists.mp (hpool req rfl)
    let r := at_.step P.coordinator ⟨req, config, rt.limit, charged, P.leaseTtl⟩ s.ambient
      s.pendingTenants s.coordinator
    exact Or.inl (hstep
      { next := afterReserve req p config charged r.1, effect := .call r.2 }
      (by simp [move, System.attempt, hrt, r])
      (distance_afterReserve s.now (ReservePhase.rank_step _ _ _ _ _ _)))
  | tracking req p charged leases =>
    obtain ⟨rt, hrt⟩ := Option.isSome_iff_exists.mp (hpool req rfl)
    exact Or.inl (hstep _ (by simp [move, hrt]; rfl) (by simp [distance, Effect.load]))
  | sending req p leases =>
    left
    cases hr : (s.handlers.get? p.waiter).bind (Phase.receive leases) with
    | none =>
      exact hstep { next := unsent req leases leases.releaseOrder } (by simp [move, hr])
        (by simp [distance, Effect.load, AdmissionLeases.releaseOrder])
    | some phase =>
      exact hstep { next := idle, effect := .deliver p.waiter phase } (by simp [move, hr])
        (by simp [distance, Effect.load])
  | unsent req leases rest =>
    left
    cases rest with
    | nil => exact hstep _ rfl (by simp [distance, Effect.load])
    | cons lease rest => exact hstep _ rfl (by simp [distance, Effect.load])
  | leaving req p =>
    left
    refine hstep _ rfl ?_
    cases p with
    | none => simp [afterLeave, distance, Effect.load]
    | some p =>
      have := distance_retry_le req p s.now
      change (retry req p).distance s.now < 4
      omega
  | retry req p =>
    by_cases hdue : p.request.deadline ≤ s.now - p.queuedAt
    · exact Or.inl (hstep { next := idle, counter := some .rejected } (if_pos hdue)
        (by simp [distance, hdue, Effect.load]))
    · refine Or.inr ⟨p.queuedAt + p.request.deadline, ?_⟩
      have hthen : p.request.deadline ≤ s.now + (p.queuedAt + p.request.deadline) - p.queuedAt := by
        omega
      simp [distance, hdue, hthen]
  | requeueing req p => exact Or.inl (hstep _ rfl (by simp [distance, Effect.load]))
  | reinserting req p => exact Or.inl (hstep _ rfl (by simp [distance, Effect.load]))

end DispatchPhase

/-! ## The whole system -/

/-- **What the tasks rely on**: their pools are there, and the dispatcher
leaves its loop for a drain only. -/
structure Sound (s : System F σ) : Prop where
  sourced : Sourced (fun r => (s.pools.get? r.pool).isSome = true) (fun _ => True) s
  exited : s.dispatcher = .exited → s.draining = true

theorem sound_build (config : Config F) (coordinator : σ) :
    Sound (System.build config coordinator) where
  sourced := sourced_build coordinator trivial
  exited h := by cases h

theorem Sound.step {a : Action F} (h : Sound s) (hs : step P s a = some t) : Sound t where
  sourced := by
    have hin : Brings (fun r => (s.pools.get? r.pool).isSome = true) (fun _ => True) s.pools.keys
        a := by
      unfold Brings
      split
      · intro config job _ hprep
        exact pool_of_prepare hprep
      · trivial
      · trivial
    have hpools : (fun r : AdmissionRequest F => (t.pools.get? r.pool).isSome = true) =
        fun r => (s.pools.get? r.pool).isSome = true := by
      funext r
      rw [pools_step hs]
    rw [hpools]
    exact h.sourced.step hin hs
  exited hexit := by
    cases stepped hs with
    | arrive => exact h.exited hexit
    | @handler n choice phase m hphase hm =>
      rw [System.goto, Effect.apply_dispatcher] at hexit
      rw [System.goto, Effect.apply_draining]
      exact h.exited hexit
    | @dispatch m hm =>
      change (m.effect.apply P (s.bump m.counter)).draining = true
      rw [Effect.apply_draining]
      rcases DispatchPhase.move_exited hm hexit with ⟨-, hdrain, -, -⟩ | ⟨-, e, hpanic⟩
      · exact hdrain
      · -- `pop_next` does not panic
        rcases Scheduler.popNext_spec P.scheduler s.now h.sourced.keyed.noEmpty with
          ⟨-, hpop⟩ | ⟨k, item, rest, -, hpop, -⟩
        · rw [hpop] at hpanic
          cases hpanic
        · rw [hpop] at hpanic
          cases hpanic
    | release hk => exact h.exited hexit
    | advance d => exact h.exited hexit
    | reload config => exact h.exited hexit
    | drain => rfl

omit [Arith F] in
theorem System.distance_of_now {now : ℕ} (h : t.now = now) :
    t.distance = t.sumOver (Phase.distance now) (DispatchPhase.distance now) + t.backlog := by
  rw [System.distance, h]

omit [Arith F] in
theorem System.backlog_goto (s : System F σ) (phase : Phase F) :
    (s.goto n phase).backlog = s.backlog := rfl

omit [Arith F] in
theorem System.backlog_bump (s : System F σ) (c : Option Counter) :
    (s.bump c).backlog = s.backlog := rfl

omit [Arith F] in
theorem System.backlog_dispatcher (s : System F σ) (d : DispatchPhase F) :
    System.backlog { s with dispatcher := d } = s.backlog := rfl

namespace Sound

/-- **A handler that is not done can bring the system closer to rest.** -/
theorem handler_nears {phase : Phase F} (h : Sound s) (w : World F)
    (hn : s.handlers.get? n = some phase) (hdone : phase.isDone = false) :
    ∃ a t, Proxy.step P s a = some t ∧ w.Allows a ∧ t.distance < s.distance := by
  rcases phase.nears (P := P) (n := n) w hdone fun job hjob => h.sourced.jobs hn hjob with
    ⟨choice, m, hok, hm, hlt⟩ | ⟨d, hlt⟩
  · refine ⟨.handler n choice, (m.effect.apply P (s.bump m.counter)).goto n m.next, ?_, hok, ?_⟩
    · simp [Proxy.step, hn, hm]
    · have hsum := sumOver_handler (Phase.distance s.now) (DispatchPhase.distance s.now) hn hm
      have hback := m.effect.backlog_apply_le (P := P) (s := s.bump m.counter) h.sourced.keyed
      rw [System.backlog_bump] at hback
      have hnow : (m.effect.apply P (s.bump m.counter)).now = s.now := Effect.apply_now
      generalize m.effect.apply P (s.bump m.counter) = u at hsum hback hnow ⊢
      rw [System.distance_of_now (t := u.goto n m.next) hnow, System.distance, System.backlog_goto]
      omega
  · refine ⟨.advance d, _, rfl, trivial, Nat.add_lt_add_right ?_ _⟩
    have hrest : (s.handlers.erase n).sumOn (fun _ => Phase.distance (s.now + d)) ≤
        (s.handlers.erase n).sumOn fun _ => Phase.distance s.now :=
      OrdMap.sumOn_mono fun e _ => e.2.distance_anti (Nat.le_add_right _ _)
    have hdisp := s.dispatcher.distance_anti (Nat.le_add_right s.now d)
    change s.handlers.sumOn (fun _ => Phase.distance (s.now + d)) +
        s.dispatcher.distance (s.now + d) <
      s.handlers.sumOn (fun _ => Phase.distance s.now) + s.dispatcher.distance s.now
    rw [OrdMap.sumOn_eq_add_erase hn, OrdMap.sumOn_eq_add_erase hn]
    omega

/-- **So can the dispatcher** in an iteration, or with requests waiting. -/
theorem dispatch_nears (h : Sound s) (w : World F) (hexit : s.dispatcher ≠ .exited)
    (hgo : s.dispatcher.isBetween = false ∨ s.scheduler.queues.entries ≠ []) :
    ∃ a t, Proxy.step P s a = some t ∧ w.Allows a ∧ t.distance < s.distance := by
  rcases DispatchPhase.nears (P := P) h.sourced.keyed (fun _ hreq => h.sourced.popped hreq) hexit
    hgo with ⟨m, hm, hlt⟩ | ⟨d, hlt⟩
  · refine ⟨.dispatch, { m.effect.apply P (s.bump m.counter) with dispatcher := m.next }, ?_,
      trivial, ?_⟩
    · simp [Proxy.step, hm]
    have hback : (m.effect.apply P (s.bump m.counter)).backlog = (m.effect.apply P s).backlog := by
      rw [Effect.apply_bump]
      rfl
    have hnow : (m.effect.apply P (s.bump m.counter)).now = s.now := Effect.apply_now
    have hsums := sumOver_dispatch (Phase.distance s.now) (DispatchPhase.distance s.now) hm
    generalize m.effect.apply P (s.bump m.counter) = u at hsums hback hnow ⊢
    dsimp only at hsums
    rw [System.distance_of_now (t := { u with dispatcher := m.next }) hnow, System.distance,
      System.backlog_dispatcher, hback]
    rcases hsums with
      ⟨_, p, leases, old, new, -, hnext, -, -, hr, hsum⟩ | ⟨-, hsum⟩
    · have hreceive := Phase.receive_distance s.now hr
      rw [hnext] at hlt
      omega
    · omega
  · refine ⟨.advance d, _, rfl, trivial, Nat.add_lt_add_right ?_ _⟩
    exact Nat.add_lt_add_of_le_of_lt
      (OrdMap.sumOn_mono fun e _ => e.2.distance_anti (Nat.le_add_right _ _)) hlt

/-- **So can a release task** with calls to make. -/
theorem release_nears {k : ℕ} {lease : Lease F} {rest : List (Lease F)} (w : World F)
    (hk : s.releases.get? k = some (lease :: rest)) :
    ∃ a t, Proxy.step P s a = some t ∧ w.Allows a ∧ t.distance < s.distance := by
  have hsum := OrdMap.sumOn_insert_add (v := rest) hk fun _ rest => rest.length
  simp only [List.length_cons] at hsum
  let called := (Effect.call (P.coordinator.release s.ambient s.coordinator lease).2).apply P s
  refine ⟨.release k, { called with releases := s.releases.insert k rest },
    by simp only [Proxy.step, hk, called], trivial, ?_⟩
  simp only [called, System.distance, System.backlog, System.sumOver, Effect.apply]
  omega

end Sound

/-- **At rest**: every handler is done, every release task has made its
calls and the dispatcher is between iterations. -/
def System.atRest (s : System F σ) : Bool :=
  s.handlers.values.all (·.isDone) && s.dispatcher.isBetween && s.releases.values.all (·.isEmpty)

/-- **At rest, or closer to it.** Unless the proxy drains, rest includes that
no request waits. -/
theorem Sound.rests_or_nears (h : Sound s) (w : World F) :
    (s.atRest = true ∧ (s.draining = false → s.quiet = true)) ∨
      ∃ a t, Proxy.step P s a = some t ∧ w.Allows a ∧ t.distance < s.distance := by
  by_cases hhandlers : s.handlers.values.all (·.isDone) = true
  case neg =>
    obtain ⟨phase, hmem, hphase⟩ : ∃ phase ∈ s.handlers.values, ¬ phase.isDone = true := by
      simpa using hhandlers
    obtain ⟨n, hn⟩ := OrdMap.mem_values.mp hmem
    exact Or.inr (h.handler_nears w hn (Bool.eq_false_iff.mpr hphase))
  by_cases hreleases : s.releases.values.all (·.isEmpty) = true
  case neg =>
    obtain ⟨rest, hmem, hrest⟩ : ∃ rest ∈ s.releases.values, ¬ rest.isEmpty = true := by
      simpa using hreleases
    obtain ⟨k, hk⟩ := OrdMap.mem_values.mp hmem
    cases rest with
    | nil => exact absurd rfl hrest
    | cons lease rest => exact Or.inr (Sound.release_nears w hk)
  by_cases hgo : s.dispatcher.isBetween = false ∨ s.scheduler.queues.entries ≠ []
  · by_cases hexit : s.dispatcher = .exited
    · -- the dispatcher left its loop, which a drain alone makes it do
      have hbetween : s.dispatcher.isBetween = true := by rw [hexit]; rfl
      refine Or.inl ⟨by simp [System.atRest, hhandlers, hreleases, hbetween], fun hd => ?_⟩
      rw [h.exited hexit] at hd
      cases hd
    · exact Or.inr (h.dispatch_nears w hexit hgo)
  · rw [not_or, Bool.not_eq_false, not_not] at hgo
    left
    simp [System.atRest, System.quiet, hhandlers, hreleases, hgo.1, hgo.2]

theorem draining_of_allowed {w : World F} {a : Action F} (ha : w.Allows a)
    (hs : step P s a = some t) : t.draining = s.draining := by
  cases stepped hs with
  | @handler n choice phase m hphase hm =>
    rw [System.goto, Effect.apply_draining]
    rfl
  | @dispatch m hm => exact Effect.apply_draining (s := s.bump m.counter)
  | drain => cases ha
  | _ => rfl

/-- **From every reachable state the system can come to rest**, by steps of
the tasks that are there and the passing of time, whatever the world
answers: nothing waits for good, and no request is dropped on the way. If
the proxy is not draining the queue is emptied as well. -/
theorem comes_to_rest (config : Config F) (coordinator : σ) {es : List (Action F)}
    (hrun : Trace (StepOf (step P)) (System.build config coordinator) es s) (w : World F) :
    ∃ fs t, Trace (StepOf (step P)) s fs t ∧ (∀ a ∈ fs, w.Allows a) ∧ fs.length ≤ s.distance ∧
      t.atRest = true ∧ (s.draining = false → t.quiet = true) := by
  have hsound : Sound s := hrun.invariant (sound_build config coordinator) fun h hs => h.step hs
  have hnears : ∀ t : System F σ, Sound t ∧ t.draining = s.draining →
      (t.atRest = true ∧ (s.draining = false → t.quiet = true)) ∨
        ∃ a u, StepOf (step P) t a u ∧ w.Allows a ∧ (Sound u ∧ u.draining = s.draining) ∧
          u.distance < t.distance := by
    rintro t ⟨ht, hdrain⟩
    rcases ht.rests_or_nears (P := P) w with hrest | ⟨a, u, hs, hallow, hlt⟩
    · exact Or.inl (hdrain ▸ hrest)
    · have hsame := (draining_of_allowed hallow hs).trans hdrain
      exact Or.inr ⟨a, u, hs, hallow, ⟨ht.step hs, hsame⟩, hlt⟩
  exact exists_trace_of_rank hnears s ⟨hsound, rfl⟩

/-- A request that waits behind another one: time, the two handlers and the
dispatcher bring that run to rest. -/
theorem comes_to_rest_put_back :
    ∃ s fs t, Trace (StepOf (step (Params.inMemory (Config.minimal .enforce []))))
        (System.build (Config.minimal .enforce []) ∅) putBack s ∧
      (s.handlers.get? 1).any (·.unanswered.isSome) = true ∧
      Trace (StepOf (step (Params.inMemory (Config.minimal .enforce [])))) s fs t ∧
      t.quiet = true := by
  have hrun : (putBack.foldlM (step (Params.inMemory (Config.minimal .enforce [])))
      (System.build (Config.minimal .enforce []) ∅)).any
      (fun s => (s.handlers.get? 1).any (·.unanswered.isSome) && !s.draining) = true := by
    decide +kernel
  obtain ⟨s, htrace, hend⟩ := Trace.exists_of_any hrun
  obtain ⟨hwaits, hdrain⟩ := Bool.and_eq_true_iff.mp hend
  obtain ⟨fs, t, hfs, -, -, -, hquiet⟩ := comes_to_rest (Config.minimal .enforce []) ∅ htrace
    ⟨fun id => sampleArrival id 2, fun _ => false, fun _ => none⟩
  exact ⟨s, fs, t, htrace, hwaits, hfs, hquiet (Bool.not_eq_true' _ ▸ hdrain)⟩

end Rest

end Proxy

end InferQos
