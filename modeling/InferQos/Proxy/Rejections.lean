import InferQos.Common.Trace
import InferQos.Proxy.Linking
/-!
# The rejection counter

A handler counts its rejection in the step in which it answers. The
dispatcher counts one too: past the deadline of an entry it bumps the
counter and drops the entry, and the handler, woken by its lost sender,
rejects and counts again. `rejected` is at every moment the number of
answers plus the number of times the dispatcher has given up, so it counts
answers exactly along the runs in which the dispatcher never does.
-/

namespace InferQos

namespace Proxy

variable {F σ : Type}

/-! ## Who has been rejected -/

/-- The response is `qos_rejected`. -/
def Response.isRejection : Response → Bool
  | qosRejected _ => true
  | _ => false

namespace Phase

/-- The handler has answered `qos_rejected`. -/
def isRejected : Phase F → Bool
  | done response => response.isRejection
  | _ => false

/-- A handler that drops its guard is not on its way to `qos_rejected`. -/
def Sound : Phase F → Prop
  | closing _ _ response => response.isRejection = false
  | spawning _ _ response => response.isRejection = false
  | departing _ response => response.isRejection = false
  | uncounting response => response.isRejection = false
  | _ => True

/-- One for a handler that has answered `qos_rejected`. -/
def rejection (phase : Phase F) : ℕ := phase.isRejected.toNat

end Phase

/-- **The handler runs that answered `qos_rejected`.** -/
def System.rejections (s : System F σ) : ℕ := s.handlers.values.countP Phase.isRejected

/-- The dispatcher is at its deadline branch, and the deadline has passed. -/
def DispatchPhase.givesUp (now : ℕ) : DispatchPhase F → Bool
  | retry _ p => p.request.deadline ≤ now - p.queuedAt
  | _ => false

/-- **The step drops an entry past its deadline.** -/
def givesUp (s : System F σ) : Action F → Bool
  | .dispatch => s.dispatcher.givesUp s.now
  | _ => false

/-- One for a step that counts a rejection. -/
def rejectionOf : Option Counter → ℕ
  | some .rejected => 1
  | _ => 0

theorem System.rejections_eq (s : System F σ) :
    s.rejections = s.sumOver Phase.rejection fun _ => 0 := by
  unfold rejections sumOver OrdMap.sumOn OrdMap.values
  rw [add_zero, List.countP_map]
  induction s.handlers.entries with
  | nil => rfl
  | cons e es ih =>
    rw [List.countP_cons, List.map_cons, List.sum_cons, ih, add_comm]
    unfold Phase.rejection
    cases h : e.2.isRejected <;> simp [h]

/-- **The counter agrees with the answers**, `k` dispatcher rejections
aside. -/
structure Tallied (s : System F σ) (k : ℕ) : Prop where
  linked : Linked s
  sound : ∀ n phase, s.handlers.get? n = some phase → phase.Sound
  counted : s.metrics.rejected = (s.rejections + k) % 2 ^ 64

section Moves

variable [Arith F] {P : Params F σ} {s t : System F σ} {n : ℕ} {e : Effect F σ}

@[simp] theorem Effect.apply_rejected :
    (e.apply P s).metrics.rejected = s.metrics.rejected := by
  cases e <;> rfl

omit [Arith F] in
/-- **What a step adds to the counter.** -/
theorem System.bump_rejected (c : Option Counter) (k : ℕ)
    (h : s.metrics.rejected = k % 2 ^ 64) :
    (s.bump c).metrics.rejected = (k + rejectionOf c) % 2 ^ 64 := by
  cases c with
  | none => exact h
  | some c =>
    cases c with
    | rejected =>
      change wrappingAdd s.metrics.rejected 1 = _
      rw [h, wrappingAdd, rejectionOf, Nat.mod_add_mod]
    | _ => exact h

omit [Arith F] in
/-- A request that cannot be prepared is not rejected for QoS. -/
theorem isRejection_of_prepare {config : Config F} {pools : List String} {arrival : Arrival F}
    {response : Response} (h : prepare config pools arrival = .error response) :
    response.isRejection = false := by
  unfold prepare at h
  simp only at h
  split at h
  · cases h
    rfl
  · split at h
    · split at h
      · cases h
        rfl
      · cases h
    · cases h
      rfl

namespace Phase

variable {phase : Phase F} {choice : Choice F} {m : Move F σ (Phase F)} {job : Job F}

omit [Arith F] in
theorem isRejected_afterReserve (charged : F) (at_ : ReservePhase F) :
    (afterReserve job charged at_).isRejected = false := by
  unfold afterReserve
  split <;> rfl

omit [Arith F] in
theorem sound_afterReserve (charged : F) (at_ : ReservePhase F) :
    (afterReserve job charged at_).Sound := by
  unfold afterReserve
  split <;> trivial

omit [Arith F] in
theorem isRejected_afterLeave (error : Option CoordinatorError) :
    (afterLeave job error).isRejected = false := by
  cases error <;> rfl

omit [Arith F] in
theorem sound_afterLeave (error : Option CoordinatorError) : (afterLeave job error).Sound := by
  cases error <;> trivial

/-- **A handler counts a rejection exactly where it answers one.** -/
theorem move_rejection (h : phase.move P s n choice = some m) (hs : phase.Sound) :
    m.next.rejection = phase.rejection + rejectionOf m.counter := by
  revert h
  fun_cases Phase.move P s n phase choice <;> intro h <;> cases h
  all_goals first
    | rfl
    | exact congrArg Bool.toNat (isRejected_afterReserve _ _)
    | exact congrArg Bool.toNat (isRejected_afterLeave _)
    | exact congrArg Bool.toNat (isRejection_of_prepare ‹_›)
    | exact congrArg Bool.toNat hs
    | skip
  -- a throttled response has a counter of its own
  all_goals split <;> rfl

/-- The guard of a handler is dropped with other responses. -/
theorem Sound.move (h : phase.move P s n choice = some m) (hs : phase.Sound) : m.next.Sound := by
  revert h
  fun_cases Phase.move P s n phase choice <;> intro h <;> cases h
  all_goals first
    | trivial
    | rfl
    | exact hs
    | exact sound_afterReserve _ _
    | exact sound_afterLeave _

omit [Arith F] in
/-- A handler that receives leases has not been rejected. -/
theorem receive_rejection {phase' : Phase F} {leases : AdmissionLeases F}
    (h : phase.receive leases = some phase') :
    phase'.rejection = phase.rejection ∧ phase'.Sound := by
  revert h
  fun_cases Phase.receive leases phase <;> intro h <;> cases h
  · exact ⟨rfl, trivial⟩
  · exact ⟨rfl, trivial⟩

end Phase

/-- **The dispatcher counts a rejection exactly where it gives up.** -/
theorem DispatchPhase.move_rejection {d : DispatchPhase F} {m : Move F σ (DispatchPhase F)}
    (h : d.move P s = some m) : rejectionOf m.counter = (d.givesUp s.now).toNat := by
  revert h
  fun_cases DispatchPhase.move P s d <;> intro h <;> cases h
  all_goals try rfl
  · rename_i p hpast
    simp only [DispatchPhase.givesUp, hpast]
    rfl
  · rename_i p hpast
    simp only [DispatchPhase.givesUp, hpast]
    rfl

/-! ## Steps -/

/-- A new proxy has rejected nothing. -/
theorem tallied_build (config : Config F) (coordinator : σ) :
    Tallied (System.build config coordinator) 0 where
  linked := linked_build config coordinator
  sound n phase h := by cases h
  counted := rfl

namespace Tallied

variable {k : ℕ}

omit [Arith F] in
/-- Only the handlers and the counter matter. -/
theorem of_eq (h : Tallied s k) (hl : Linked t) (hhandlers : t.handlers = s.handlers)
    (hrejected : t.metrics.rejected = s.metrics.rejected) : Tallied t k where
  linked := hl
  sound n phase hn := h.sound n phase (hhandlers ▸ hn)
  counted := by
    rw [hrejected, h.counted, System.rejections, System.rejections, hhandlers]

/-- **A step adds one to the dispatcher's rejections exactly where it gives
up.** -/
theorem step {a : Action F} (h : Tallied s k) (hs : step P s a = some t) :
    Tallied t (k + (givesUp s a).toNat) := by
  have hl := h.linked.step hs
  cases stepped hs with
  | arrive =>
    have hfirst : ∀ b, (Phase.first b : Phase F).rejection = 0 ∧ (Phase.first b : Phase F).Sound := by
      intro b
      cases b <;> exact ⟨rfl, trivial⟩
    refine ⟨hl, fun n phase hn => ?_, ?_⟩
    · rcases System.goto_get? hn with ⟨-, rfl⟩ | ⟨-, hn⟩
      · exact (hfirst _).2
      · exact h.sound n phase hn
    · have hsum := h.linked.sumOn_arrive Phase.rejection (.first s.draining)
      have hcount := System.bump_rejected (firstCounter s.draining) _ h.counted
      have hzero : rejectionOf (firstCounter s.draining) = 0 := by
        cases s.draining <;> rfl
      rw [System.rejections_eq] at hcount ⊢
      simp only [System.sumOver, System.goto, System.bump] at hcount ⊢
      rw [hsum, (hfirst _).1, zero_add]
      rw [hzero] at hcount
      exact hcount
  | @handler n choice phase m hphase hm =>
    have hsound := h.sound n phase hphase
    have hhandlers : (m.effect.apply P (s.bump m.counter)).handlers = s.handlers :=
      Effect.apply_handlers (Phase.move_not_deliver hm)
    refine ⟨hl, fun n' phase' hn => ?_, ?_⟩
    · rcases System.goto_get? hn with ⟨-, rfl⟩ | ⟨-, hn⟩
      · exact hsound.move hm
      · exact h.sound n' phase' (hhandlers ▸ hn)
    · have hsum := sumOver_handler Phase.rejection (fun _ => 0) hphase hm
      have hmove := Phase.move_rejection hm hsound
      have hcount := System.bump_rejected m.counter _ h.counted
      rw [System.rejections_eq] at hcount ⊢
      change (m.effect.apply P (s.bump m.counter)).metrics.rejected = _
      rw [Effect.apply_rejected, hcount]
      congr 1
      simp only [givesUp, Bool.toNat_false]
      omega
  | @dispatch m hm =>
    have hmove := DispatchPhase.move_rejection hm
    have hcount := System.bump_rejected m.counter _ h.counted
    refine ⟨hl, fun n phase hn => ?_, ?_⟩
    · rw [Effect.apply_bump] at hn
      rcases DispatchPhase.move_get? hm hn with hn | ⟨_, _, leases, old, -, -, -, hr⟩
      · exact h.sound n phase hn
      · exact (Phase.receive_rejection hr).2
    · rw [System.rejections_eq] at hcount ⊢
      change (m.effect.apply P (s.bump m.counter)).metrics.rejected = _
      rw [Effect.apply_rejected, hcount]
      change _ = (System.sumOver Phase.rejection (fun _ => 0)
        { m.effect.apply P (s.bump m.counter) with dispatcher := m.next } +
          (k + (s.dispatcher.givesUp s.now).toNat)) % 2 ^ 64
      congr 1
      -- a send moves the receiver, which is not rejected before or after
      rcases sumOver_dispatch Phase.rejection (fun _ => 0) hm with
        ⟨_, _, leases, old, new, -, -, -, -, hr, hsum⟩ | ⟨-, hsum⟩
      · have := (Phase.receive_rejection hr).1
        omega
      · omega
  | release hk => exact h.of_eq hl rfl rfl
  | advance d => exact h.of_eq hl rfl rfl
  | reload config => exact h.of_eq hl rfl rfl
  | drain => exact h.of_eq hl rfl rfl

end Tallied

end Moves

/-! ## Runs -/

section Runs

variable [Arith F] {P : Params F σ} {s : System F σ}

/-- **The counter is the number of rejections answered**, in every state a
run goes through. The counter is a `u64`. -/
def CountsAnswers (P : Params F σ) (s₀ : System F σ) (es : List (Action F)) : Prop :=
  ∀ pre t, pre <+: es → Trace (StepOf (step P)) s₀ pre t → t.metrics.rejected = t.rejections % 2 ^ 64

/-- A run none of whose steps gives up has no rejections of the dispatcher. -/
theorem tallied_of_run (config : Config F) (coordinator : σ) {es : List (Action F)}
    (hrun : Trace (StepOf (step P)) (System.build config coordinator) es s)
    (hno : ∀ pre a t, pre ++ [a] <+: es →
      Trace (StepOf (step P)) (System.build config coordinator) pre t → givesUp t a = false) :
    Tallied s 0 := by
  refine hrun.along (P := (Tallied · 0)) (tallied_build config coordinator) ?_
  intro pre a t u hpre ht htallied hs
  have hstep := htallied.step hs
  rwa [hno pre a t hpre ht] at hstep

/-- Some number of rejections is the dispatcher's. -/
theorem exists_tallied (config : Config F) (coordinator : σ) {es : List (Action F)}
    (hrun : Trace (StepOf (step P)) (System.build config coordinator) es s) :
    ∃ k, Tallied s k :=
  hrun.invariant (P := fun s => ∃ k, Tallied s k) ⟨0, tallied_build config coordinator⟩
    fun ⟨_, h⟩ hs => ⟨_, h.step hs⟩

/-- Giving up is a step that can be taken. -/
theorem step_of_givesUp {a : Action F} (h : givesUp s a = true) : ∃ t, step P s a = some t := by
  cases a with
  | dispatch =>
    cases hd : s.dispatcher with
    | retry req p =>
      simp only [givesUp, hd, DispatchPhase.givesUp, decide_eq_true_eq] at h
      simp only [step, hd, DispatchPhase.move, if_pos h]
      exact ⟨_, rfl⟩
    | _ => simp [givesUp, hd, DispatchPhase.givesUp] at h
  | _ => cases h

/-- **The counter counts the answers along a run exactly when no step of
the run gives up on an entry.** -/
theorem counts_answers_iff (P : Params F σ) (config : Config F) (coordinator : σ)
    (es : List (Action F)) :
    CountsAnswers P (System.build config coordinator) es ↔
      ∀ pre a t, pre ++ [a] <+: es →
        Trace (StepOf (step P)) (System.build config coordinator) pre t → givesUp t a = false := by
  constructor
  · intro hcounts pre a t hpre ht
    by_contra hgive
    rw [Bool.not_eq_false] at hgive
    obtain ⟨k, hk⟩ := exists_tallied config coordinator ht
    obtain ⟨u, hu⟩ := step_of_givesUp (P := P) hgive
    have hk' := hk.step hu
    -- both states count right, so the dispatcher has `k` rejections before and
    -- `k + 1` after, modulo the width
    have hbefore := hcounts pre t ((List.prefix_append pre [a]).trans hpre) ht
    have hafter := hcounts (pre ++ [a]) u hpre (ht.snoc hu)
    rw [hk.counted] at hbefore
    rw [hk'.counted, hgive, Bool.toNat_true] at hafter
    omega
  · intro hno pre t hpre ht
    have h := tallied_of_run config coordinator ht fun pre' a t' hpre' =>
      hno pre' a t' (hpre'.trans hpre)
    exact h.counted

end Runs

/-- A second request of a tenant that may have one in flight queues and
waits; its deadline passes; the dispatcher notices first, and then its
handler. -/
def noticedTwice : List (Action ℚ) :=
  admits 0 (sampleArrival 1 2) ++ begins 1 (sampleArrival 2 2) ++ goOn 1 2 ++
    [.advance 1000000000000] ++ List.replicate 6 .dispatch ++ goOn 1 4

/-- **One request, two rejections.** -/
theorem noticed_twice_counts_twice :
    (∃ s, Trace (StepOf (step (Params.inMemory (Config.minimal .enforce []))))
        (System.build (Config.minimal .enforce []) ∅) noticedTwice s ∧
      s.rejections = 1 ∧ s.metrics.rejected = 2) ∧
    ¬ CountsAnswers (Params.inMemory (Config.minimal .enforce []))
      (System.build (Config.minimal .enforce []) ∅) noticedTwice := by
  have hrun : (noticedTwice.foldlM (step (Params.inMemory (Config.minimal .enforce [])))
      (System.build (Config.minimal .enforce []) ∅)).any
      (fun s => s.rejections = 1 && s.metrics.rejected = 2) = true := by
    decide +kernel
  obtain ⟨s, htrace, hend⟩ := Trace.exists_of_any hrun
  obtain ⟨hone, htwo⟩ := Bool.and_eq_true_iff.mp hend
  have hone : s.rejections = 1 := of_decide_eq_true hone
  have htwo : s.metrics.rejected = 2 := of_decide_eq_true htwo
  refine ⟨⟨s, htrace, hone, htwo⟩, fun hcounts => ?_⟩
  have heq := hcounts noticedTwice s List.prefix_rfl htrace
  rw [hone, htwo] at heq
  omega

end Proxy

end InferQos
