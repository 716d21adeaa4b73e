import InferQos.Proxy.Decisions
import InferQos.Proxy.Rejections
/-!
# The counters and the decisions

`Metrics` are plain atomics: the handlers and the dispatcher add to them in
different places, and the guard takes from `active` again wherever it is
dropped. `counters_add_up` says what they add up to over a run. Each counter
agrees with the decisions made and with where the handlers stand, modulo
`2 ^ 64`; the requests counted are the ones admitted, the ones rejected and
the ones that have made no decision. What is left over is how often the
dispatcher gave up on an entry, which `rejected` counts twice.
-/

namespace InferQos

namespace Proxy

variable {F σ : Type}

/-! ## What a counter counts -/

/-- The value of a counter. -/
def Metrics.get (m : Metrics) : Counter → ℕ
  | .requests => m.requests
  | .admitted => m.admitted
  | .queued => m.queued
  | .rejected => m.rejected
  | .shadowWouldQueue => m.shadowWouldQueue
  | .providerThrottles => m.providerThrottles

namespace Phase

/-- The proxy was not draining when the handler came. -/
def isCounted : Phase F → Bool
  | done .draining => false
  | _ => true

/-- In shadow mode, between the counter and the decision. -/
def isForced : Phase F → Bool
  | admitted _ none => true
  | _ => false

/-- A guard with `counted_active` exists. -/
def isActive : Phase F → Bool
  | loading _ _ => true
  | dispatching _ _ => true
  | opening _ _ _ => true
  | streaming _ _ _ _ _ => true
  | completing _ _ _ _ _ => true
  | closing _ _ _ => true
  | spawning _ _ _ => true
  | departing _ _ => true
  | uncounting _ => true
  | _ => false

end Phase

namespace Counter

/-- The counter is told by the decisions and the handlers. How often
requests were queued or throttled is not. -/
def isBooked : Counter → Bool
  | queued => false
  | providerThrottles => false
  | _ => true

/-- The decisions it counts. -/
def marks : Counter → Outcome → Bool
  | admitted, o => o.isAdmission
  | rejected, o => !o.isAdmission
  | shadowWouldQueue, o => o = .shadowWouldQueue
  | _, _ => false

/-- And the handlers. -/
def stands : Counter → Phase F → Bool
  | requests, phase => phase.isCounted
  | shadowWouldQueue, phase => phase.isForced
  | _, _ => false

/-- One for a step that adds to this counter. -/
def hits (c : Counter) (counter : Option Counter) : ℕ := (counter = some c : Bool).toNat

/-- One for a decision it counts. -/
def tally (c : Counter) (decision : Option (Job F × Outcome × ℕ)) : ℕ :=
  (decision.any fun d => c.marks d.2.1).toNat

end Counter

/-- The handlers in a position. -/
def System.standing (s : System F σ) (p : Phase F → Bool) : ℕ := s.handlers.values.countP p

/-- **What a counter should show.** -/
def Audit.book (a : Audit F σ) (c : Counter) : ℕ :=
  a.made.countP (fun d => c.marks d.outcome) + a.system.standing c.stands

/-- **The requests with no decision.** -/
def Audit.undecided (a : Audit F σ) : ℕ :=
  a.system.handlers.entries.countP fun e => e.2.isCounted && e.1 ∉ a.made.map (·.handler)

theorem System.standing_eq (s : System F σ) (p : Phase F → Bool) :
    s.standing p = s.sumOver (fun phase => (p phase).toNat) fun _ => 0 := by
  unfold standing sumOver OrdMap.sumOn OrdMap.values
  rw [add_zero, List.countP_map]
  induction s.handlers.entries with
  | nil => rfl
  | cons e es ih =>
    rw [List.countP_cons, List.map_cons, List.sum_cons, ih, add_comm]
    cases h : p e.2 <;> simp [h]

/-! ## One handler -/

section Moves

variable [Arith F] {P : Params F σ} {s t : System F σ} {n : ℕ} {phase : Phase F}
variable {choice : Choice F} {m : Move F σ (Phase F)} {told : Option (Outcome × ℕ)}
variable {said : Option Outcome} {c : Counter} {e : Effect F σ}

/-- Effects leave the counters alone. -/
theorem Effect.apply_get : (e.apply P s).metrics.get c = s.metrics.get c := by
  cases e with
  | activate => cases c <;> rfl
  | deactivate => cases c <;> rfl
  | _ => rfl

omit [Arith F] in
/-- **What a step adds to a counter.** -/
theorem System.bump_get (counter : Option Counter) {k : ℕ} (h : s.metrics.get c = k % 2 ^ 64) :
    (s.bump counter).metrics.get c = (k + c.hits counter) % 2 ^ 64 := by
  cases counter with
  | none => exact h
  | some c' =>
    by_cases hc : c' = c
    · subst hc
      have hone : c'.hits (some c') = 1 := by simp [Counter.hits]
      have hadd : (s.metrics.bump c').get c' = wrappingAdd (s.metrics.get c') 1 := by
        cases c' <;> rfl
      change (s.metrics.bump c').get c' = _
      rw [hadd, h, wrappingAdd, hone, Nat.mod_add_mod]
    · have hzero : c.hits (some c') = 0 := by simp [Counter.hits, hc]
      have hsame : (s.metrics.bump c').get c = s.metrics.get c := by
        cases c' <;> cases c <;> first | rfl | exact absurd rfl hc
      change (s.metrics.bump c').get c = _
      rw [hsame, h, hzero, add_zero]

omit [Arith F] in
/-- A request that cannot be prepared was not turned away. -/
theorem isCounted_of_prepare {config : Config F} {pools : List String} {arrival : Arrival F}
    {response : Response} (h : prepare config pools arrival = .error response) :
    (Phase.done response : Phase F).isCounted = true := by
  rcases response_of_prepare h with rfl | rfl
  · rfl
  · rfl

omit [Arith F] in
/-- A handler that has decided was not turned away. -/
theorem isCounted_of_said {o : Outcome} {response : Response} (h : Ended (some o) response) :
    (Phase.done response : Phase F).isCounted = true := by
  cases response with
  | draining => cases h
  | _ => rfl

omit [Arith F] in
/-- What the locals of an admitted handler say. -/
theorem Fits.locals_admitted {job : Job F} {leases : Option (AdmissionLeases F)}
    (h : Fits told said (.admitted job leases)) :
    (Audit.localsOf told).1.isAdmission = true ∧
      ((Audit.localsOf told).1 = .shadowWouldQueue ↔ leases.isSome = false) := by
  obtain ⟨o, ho, hpassed⟩ := passed_of_admitted h
  cases ho
  exact hpassed

omit [Arith F] in
/-- A handler that is done and was not turned away counts as it did before. -/
theorem stands_done {response : Response}
    (h : (Phase.done response : Phase F).isCounted = true) :
    c.stands (Phase.done response : Phase F) = c.stands (Phase.starting : Phase F) := by
  cases c with
  | requests => exact h
  | _ => rfl

omit [Arith F] in
theorem stands_afterReserve {job : Job F} {charged : F} (at_ : ReservePhase F) :
    c.stands (Phase.afterReserve job charged at_) =
      c.stands (Phase.reserving job charged at_) := by
  unfold Phase.afterReserve
  split <;> cases c <;> rfl

omit [Arith F] in
theorem stands_afterLeave {job : Job F} (error : Option CoordinatorError) :
    c.stands (Phase.afterLeave job error) = c.stands (Phase.leaving job error) := by
  cases error <;> cases c <;> rfl

omit [Arith F] in
/-- **An admitted handler decides**, and what it decides is counted. -/
theorem Fits.books_admitted {job : Job F} {leases : Option (AdmissionLeases F)}
    (hc : c.isBooked = true) (h : Fits told said (.admitted job leases)) :
    c.tally (some (job, Audit.localsOf told)) + (c.stands (.loading job leases)).toNat =
      (c.stands (.admitted job leases)).toNat + c.hits (some .admitted) := by
  obtain ⟨hadmission, hshadow⟩ := h.locals_admitted
  cases c with
  | queued => cases hc
  | providerThrottles => cases hc
  | requests => rfl
  | admitted =>
    simp only [Counter.tally, Option.any_some, Counter.marks, hadmission]
    rfl
  | rejected =>
    simp only [Counter.tally, Option.any_some, Counter.marks, hadmission]
    rfl
  | shadowWouldQueue =>
    simp only [Counter.tally, Option.any_some, Counter.marks, hshadow]
    cases leases <;> rfl

/-- **A step adds to a counter what it adds to the books.** -/
theorem Fits.move_books (hc : c.isBooked = true) (h : Fits told said phase)
    (hm : phase.move P s n choice = some m) :
    c.tally (phase.decides (Audit.localsOf told) choice) + (c.stands m.next).toNat =
      (c.stands phase).toNat + c.hits m.counter := by
  revert hm
  fun_cases Phase.move P s n phase choice <;> intro hm <;> cases hm
  all_goals first
    | exact h.books_admitted hc
    | (rw [stands_afterReserve]; cases c <;> rfl)
    | (rw [stands_afterLeave]; cases c <;> rfl)
    | (cases c <;> first | rfl | (cases hc; done))
    | skip
  · -- the request could not be prepared
    rw [stands_done (isCounted_of_prepare ‹_›)]
    cases c <;> rfl
  · -- a throttled response has a counter of its own
    rename_i throttled
    cases throttled <;> cases c <;> first | rfl | cases hc
  · obtain ⟨⟨o, rfl, -⟩, hended⟩ := h
    rw [stands_done (isCounted_of_said hended)]
    cases c <;> rfl

omit [Arith F] in
/-- A delivery changes no standing. -/
theorem receive_stands {phase' : Phase F} {leases : AdmissionLeases F}
    (h : phase.receive leases = some phase') :
    c.stands phase' = c.stands phase ∧ phase'.isActive = phase.isActive := by
  revert h
  fun_cases Phase.receive leases phase <;> intro h <;> cases h
  · exact ⟨by cases c <;> rfl, rfl⟩
  · exact ⟨by cases c <;> rfl, rfl⟩

/-! ## The gauge -/

/-- One for `active.fetch_add(1)`. -/
def Effect.activates : Effect F σ → ℕ
  | activate => 1
  | _ => 0

/-- One for `active.fetch_sub(1)`. -/
def Effect.deactivates : Effect F σ → ℕ
  | deactivate => 1
  | _ => 0

/-- **What an effect does to the gauge.** -/
theorem Effect.apply_active {k k' : ℕ} (h : s.metrics.active = k % 2 ^ 64)
    (hk : k' + e.deactivates = k + e.activates) :
    (e.apply P s).metrics.active = k' % 2 ^ 64 := by
  cases e with
  | activate =>
    obtain rfl : k' = k + 1 := hk
    change wrappingAdd s.metrics.active 1 = _
    rw [h, wrappingAdd, Nat.mod_add_mod]
  | deactivate =>
    obtain rfl : k' + 1 = k := hk
    change wrappingSub s.metrics.active 1 = _
    rw [h, wrappingSub]
    split <;> omega
  | _ =>
    obtain rfl : k' = k := hk
    exact h

omit [Arith F] in
theorem afterReserve_isActive {job : Job F} {charged : F} (at_ : ReservePhase F) :
    (Phase.afterReserve job charged at_).isActive = false := by
  unfold Phase.afterReserve
  split <;> rfl

/-- **The gauge moves with the guard.** -/
theorem Phase.move_active (hm : phase.move P s n choice = some m) :
    m.next.isActive.toNat + m.effect.deactivates = phase.isActive.toNat + m.effect.activates := by
  revert hm
  fun_cases Phase.move P s n phase choice <;> intro hm <;> cases hm
  all_goals try rfl
  · rw [afterReserve_isActive]
    rfl
  · rename_i error
    cases error <;> rfl

/-- **The dispatcher counts its rejections** and nothing else. -/
theorem DispatchPhase.move_hits {d : DispatchPhase F} {m : Move F σ (DispatchPhase F)}
    (hm : d.move P s = some m) :
    c.hits m.counter = if c = .rejected then (d.givesUp s.now).toNat else 0 := by
  have hcounter : m.counter = none ∨ m.counter = some .rejected := by
    revert hm
    fun_cases DispatchPhase.move P s d <;> intro hm <;> cases hm
    all_goals first | exact Or.inl rfl | exact Or.inr rfl
  rw [← DispatchPhase.move_rejection hm]
  rcases hcounter with hnone | hsome
  · rw [hnone]
    cases c <;> rfl
  · rw [hsome]
    cases c <;> rfl

/-- The dispatcher has no guard. -/
theorem DispatchPhase.move_active {d : DispatchPhase F} {m : Move F σ (DispatchPhase F)}
    (hm : d.move P s = some m) : m.effect.deactivates = 0 ∧ m.effect.activates = 0 := by
  revert hm
  fun_cases DispatchPhase.move P s d <;> intro hm <;> cases hm
  all_goals exact ⟨rfl, rfl⟩

end Moves

/-! ## Runs -/

/-- **The counters agree with the books**, `k` rejections of the dispatcher
aside. -/
structure Counted (uuidText : Uuid → String) (k : ℕ) (a : Audit F σ) : Prop where
  logged : Logged uuidText a
  booked : ∀ c, c.isBooked = true →
    a.system.metrics.get c = (a.book c + if c = .rejected then k else 0) % 2 ^ 64
  active : a.system.metrics.active = a.system.standing Phase.isActive % 2 ^ 64

section Runs

variable [Arith F] {P : Params F σ} {uuidText : Uuid → String} {k : ℕ} {a b : Audit F σ}

theorem counted_build (config : Config F) (coordinator : σ) :
    Counted uuidText 0 (Audit.build config coordinator : Audit F σ) where
  logged := logged_build config coordinator
  booked c hc := by
    rw [ite_self]
    cases c <;> rfl
  active := rfl

namespace Counted

omit [Arith F] in
/-- **One step**: the counter it adds to, and the rejections of the
dispatcher in it. -/
theorem next (h : Counted uuidText k a) (counter : Option Counter) (j : ℕ)
    (hlogged : Logged uuidText b)
    (hget : ∀ c, b.system.metrics.get c = (a.system.bump counter).metrics.get c)
    (hbook : ∀ c, c.isBooked = true →
      b.book c + (if c = .rejected then j else 0) = a.book c + c.hits counter)
    (hactive : b.system.metrics.active = b.system.standing Phase.isActive % 2 ^ 64) :
    Counted uuidText (k + j) b where
  logged := hlogged
  booked c hc := by
    rw [hget, System.bump_get counter (h.booked c hc)]
    have hb := hbook c hc
    congr 1
    split_ifs at hb ⊢ <;> omega
  active := hactive

/-- **A step of a handler.** -/
theorem handler {n : ℕ} {choice : Choice F} {phase : Phase F} {m : Move F σ (Phase F)}
    (h : Counted uuidText k a) (hphase : a.system.handlers.get? n = some phase)
    (hm : phase.move P a.system n choice = some m)
    (hlogged : Logged uuidText b)
    (hsystem : b.system = (m.effect.apply P (a.system.bump m.counter)).goto n m.next)
    (hmade : b.made = a.made ++ (a.decides (.handler n choice)).toList) :
    Counted uuidText k b := by
  have hstanding : ∀ p : Phase F → Bool, b.system.standing p + (p phase).toNat =
      a.system.standing p + (p m.next).toNat := by
    intro p
    rw [System.standing_eq, System.standing_eq, hsystem]
    exact sumOver_handler (fun phase => (p phase).toNat) (fun _ => 0) hphase hm
  refine h.next m.counter 0 hlogged (fun c => ?_) (fun c hc => ?_) ?_
  · rw [hsystem]
    exact Effect.apply_get
  · have hmove := (h.logged.fits n phase hphase).move_books hc hm
    have hstands := hstanding c.stands
    have htally : (a.decides (.handler n choice)).toList.countP (fun d => c.marks d.outcome) =
        c.tally (phase.decides (Audit.localsOf (a.locals.get? n)) choice) := by
      rw [Audit.decides_handler hphase, Counter.tally]
      cases phase.decides (Audit.localsOf (a.locals.get? n)) choice with
      | none => rfl
      | some d =>
        simp only [Option.map_some, Option.toList_some, List.countP_singleton, Option.any_some]
        cases c.marks d.2.1 <;> rfl
    rw [ite_self, Audit.book, Audit.book, hmade, List.countP_append, htally]
    omega
  · have hgauge := Phase.move_active hm
    have hstands := hstanding Phase.isActive
    rw [hsystem]
    refine Effect.apply_active (k := a.system.standing Phase.isActive)
      ((System.bump_active _).trans h.active) ?_
    rw [← hsystem]
    omega

/-- **A step of the dispatcher** adds one to its rejections exactly where it
gives up. -/
theorem dispatch {m : Move F σ (DispatchPhase F)} (h : Counted uuidText k a)
    (hm : a.system.dispatcher.move P a.system = some m) (hlogged : Logged uuidText b)
    (hsystem : b.system =
      { m.effect.apply P (a.system.bump m.counter) with dispatcher := m.next })
    (hmade : b.made = a.made) :
    Counted uuidText (k + (a.system.dispatcher.givesUp a.system.now).toNat) b := by
  -- a send moves its receiver to a position that counts like the one before
  have hstanding : ∀ p : Phase F → Bool,
      (∀ old new leases, Phase.receive leases old = some new → p new = p old) →
      b.system.standing p = a.system.standing p := by
    intro p hp
    rw [System.standing_eq, System.standing_eq, hsystem]
    rcases sumOver_dispatch (fun phase => (p phase).toNat) (fun _ => 0) hm with
      ⟨_, _, leases, old, new, -, -, -, -, hr, hsum⟩ | ⟨-, hsum⟩
    · rw [hp old new leases hr] at hsum
      omega
    · omega
  refine h.next m.counter _ hlogged (fun c => ?_) (fun c hc => ?_) ?_
  · rw [hsystem]
    exact Effect.apply_get
  · rw [Audit.book, Audit.book, hmade,
      hstanding c.stands fun old new leases hr => (receive_stands hr).1]
    rw [DispatchPhase.move_hits hm]
  · obtain ⟨hdeactivates, hactivates⟩ := DispatchPhase.move_active hm
    rw [hstanding Phase.isActive fun old new leases hr =>
      (receive_stands (c := Counter.requests) hr).2, hsystem]
    refine Effect.apply_active (k := a.system.standing Phase.isActive)
      ((System.bump_active _).trans h.active) ?_
    rw [hdeactivates, hactivates]

omit [Arith F] in
/-- A step that neither moves a handler nor counts. -/
theorem of_same (h : Counted uuidText k a) (hlogged : Logged uuidText b)
    (hhandlers : b.system.handlers = a.system.handlers)
    (hmetrics : b.system.metrics = a.system.metrics) (hmade : b.made = a.made) :
    Counted uuidText k b := by
  have hstanding : ∀ p : Phase F → Bool, b.system.standing p = a.system.standing p := by
    intro p
    rw [System.standing, hhandlers, System.standing]
  refine h.next none 0 hlogged (fun c => ?_) (fun c hc => ?_) ?_
  · rw [hmetrics]
    rfl
  · rw [ite_self, Audit.book, Audit.book, hmade, hstanding]
    rfl
  · rw [hmetrics, hstanding]
    exact h.active

omit [Arith F] in
/-- A new handler counts if it is not turned away. -/
theorem arrive (h : Counted uuidText k a) (hlogged : Logged uuidText b)
    (hsystem : b.system =
      { (a.system.bump (firstCounter a.system.draining)).goto a.system.nextTask
          (.first a.system.draining) with
        nextTask := a.system.nextTask + 1 })
    (hmade : b.made = a.made) : Counted uuidText k b := by
  have hstanding : ∀ p : Phase F → Bool, b.system.standing p =
      (p (.first a.system.draining)).toNat + a.system.standing p := by
    intro p
    rw [System.standing_eq, System.standing_eq, hsystem]
    exact congrArg (· + 0)
      (h.logged.linked.sumOn_arrive (fun phase => (p phase).toNat) (.first a.system.draining))
  refine h.next (firstCounter a.system.draining) 0 hlogged (fun c => ?_) (fun c hc => ?_) ?_
  · rw [hsystem]
    rfl
  · have hhits : c.hits (firstCounter a.system.draining) =
        (c.stands (.first a.system.draining : Phase F)).toNat := by
      cases a.system.draining <;> cases c <;> rfl
    rw [ite_self, Audit.book, Audit.book, hmade, hstanding, hhits]
    omega
  · have hzero : (Phase.first a.system.draining : Phase F).isActive = false := by
      cases a.system.draining <;> rfl
    rw [hstanding, hzero, Bool.toNat_false, zero_add, hsystem]
    exact (System.bump_active _).trans h.active

/-- **Every step keeps the counters in agreement.** -/
theorem step {action : Action F} (h : Counted uuidText k a)
    (hs : a.step uuidText P action = some b) :
    Counted uuidText (k + (givesUp a.system action).toNat) b := by
  have hlogged := h.logged.step hs
  unfold Audit.step at hs
  split at hs
  · cases hs
  rename_i t ht
  cases hs
  cases stepped ht with
  | arrive => exact h.arrive hlogged rfl (List.append_nil _)
  | handler hphase hm => exact h.handler hphase hm hlogged rfl rfl
  | dispatch hm => exact h.dispatch hm hlogged rfl (List.append_nil _)
  | release hk => exact h.of_same hlogged rfl rfl (List.append_nil _)
  | advance d => exact h.of_same hlogged rfl rfl (List.append_nil _)
  | reload config => exact h.of_same hlogged rfl rfl (List.append_nil _)
  | drain => exact h.of_same hlogged rfl rfl (List.append_nil _)

end Counted

omit [Arith F] in
/-- Who has made a decision was not turned away. -/
theorem Phase.Follows.isCounted {phase : Phase F} {o : Outcome} (h : phase.Follows o) :
    phase.isCounted = true := by
  cases phase with
  | done response =>
    cases response with
    | draining => cases h
    | _ => rfl
  | _ => rfl

omit [Arith F] in
/-- **Every request counted has made one decision, or none.** -/
theorem Logged.standing_isCounted (h : Logged uuidText a) :
    a.system.standing Phase.isCounted = a.made.length + a.undecided := by
  -- those who have decided are the handlers of the decisions, each once
  have hdecided : ((a.system.handlers.entries.filter fun e =>
      e.2.isCounted && e.1 ∈ a.made.map (·.handler)).map (·.1)).Perm (a.made.map (·.handler)) := by
    refine (List.perm_ext_iff_of_nodup ?_ h.nodup).mpr fun n => ?_
    · exact a.system.handlers.keys_nodup.sublist (List.filter_sublist.map _)
    · rw [List.mem_map]
      constructor
      · rintro ⟨e, he, rfl⟩
        have hboth := (List.mem_filter.mp he).2
        exact of_decide_eq_true (Bool.and_eq_true_iff.mp hboth).2
      · intro hn
        obtain ⟨d, hd, rfl⟩ := List.mem_map.mp hn
        obtain ⟨phase, hphase, -⟩ := h.served d hd
        have hfits := h.fits d.handler phase hphase
        rw [saidOf_of_mem h.nodup hd] at hfits
        refine ⟨(d.handler, phase), List.mem_filter.mpr ⟨OrdMap.get?_eq_some.mp hphase, ?_⟩, rfl⟩
        exact Bool.and_eq_true_iff.mpr ⟨hfits.follows.isCounted, decide_eq_true hn⟩
  have hlength := hdecided.length_eq
  rw [List.length_map, List.length_map, ← List.countP_eq_length_filter] at hlength
  rw [System.standing, OrdMap.values, List.countP_map, ← hlength, Audit.undecided,
    List.countP_eq_countP_filter_add _ _ fun e => decide (e.1 ∈ a.made.map (·.handler)),
    List.countP_filter, List.countP_filter]
  congr 1
  refine List.countP_congr fun e _ => ?_
  simp

/-- How often the dispatcher gives up along a run. -/
def gaveUp (uuidText : Uuid → String) (P : Params F σ) : Audit F σ → List (Action F) → ℕ :=
  countAlong (Audit.step uuidText P) fun a action => givesUp a.system action

/-- **The counters add up**, after every run. `requests` are the handlers
that were not turned away, `admitted` and `rejected` the decisions made,
with one more rejection for each time the dispatcher gave up;
`shadow_would_queue` the decisions and those about to be made, and `active`
the handlers with a guard. Requests are admitted, rejected or undecided. -/
theorem counters_add_up (uuidText : Uuid → String) (P : Params F σ) (config : Config F)
    (coordinator : σ) {es : List (Action F)} {a : Audit F σ}
    (hrun : Trace (StepOf (Audit.step uuidText P)) (Audit.build config coordinator) es a) :
    a.system.metrics.requests = a.system.standing Phase.isCounted % 2 ^ 64 ∧
    a.system.metrics.admitted = a.made.countP (·.outcome.isAdmission) % 2 ^ 64 ∧
    a.system.metrics.rejected = (a.made.countP (!·.outcome.isAdmission) +
      gaveUp uuidText P (Audit.build config coordinator) es) % 2 ^ 64 ∧
    a.system.metrics.shadowWouldQueue = (a.made.countP (·.outcome = .shadowWouldQueue) +
      a.system.standing Phase.isForced) % 2 ^ 64 ∧
    a.system.metrics.active = a.system.standing Phase.isActive % 2 ^ 64 ∧
    (a.system.metrics.requests + gaveUp uuidText P (Audit.build config coordinator) es) % 2 ^ 64 =
      (a.system.metrics.admitted + a.system.metrics.rejected + a.undecided) % 2 ^ 64 := by
  have h : Counted uuidText (gaveUp uuidText P (Audit.build config coordinator) es) a :=
    hrun.counted (P := Counted uuidText) (counted_build config coordinator) Counted.step
  have hnone : a.made.countP (fun _ => false) = 0 := by simp
  have hnobody : a.system.standing (fun _ => false) = 0 := by simp [System.standing]
  have hrequests : a.system.metrics.requests = a.system.standing Phase.isCounted % 2 ^ 64 := by
    refine (h.booked .requests rfl).trans ?_
    change (a.made.countP (fun _ => false) + a.system.standing Phase.isCounted + 0) % 2 ^ 64 = _
    rw [hnone, zero_add, add_zero]
  have hadmitted : a.system.metrics.admitted =
      a.made.countP (·.outcome.isAdmission) % 2 ^ 64 := by
    refine (h.booked .admitted rfl).trans ?_
    change (a.made.countP (·.outcome.isAdmission) + a.system.standing (fun _ => false) + 0) %
      2 ^ 64 = _
    rw [hnobody, add_zero, add_zero]
  have hrejected : a.system.metrics.rejected = (a.made.countP (!·.outcome.isAdmission) +
      gaveUp uuidText P (Audit.build config coordinator) es) % 2 ^ 64 := by
    refine (h.booked .rejected rfl).trans ?_
    change (a.made.countP (!·.outcome.isAdmission) + a.system.standing (fun _ => false) +
      gaveUp uuidText P (Audit.build config coordinator) es) % 2 ^ 64 = _
    rw [hnobody, add_zero]
  have hshadow : a.system.metrics.shadowWouldQueue =
      (a.made.countP (·.outcome = .shadowWouldQueue) + a.system.standing Phase.isForced) %
        2 ^ 64 := h.booked .shadowWouldQueue rfl
  refine ⟨hrequests, hadmitted, hrejected, hshadow, h.active, ?_⟩
  -- every decision is an admission or a rejection
  have hmade : a.made.length = a.made.countP (·.outcome.isAdmission) +
      a.made.countP (!·.outcome.isAdmission) := by
    rw [List.length_eq_countP_add_countP (·.outcome.isAdmission)]
    simp
  have hsplit := h.logged.standing_isCounted
  rw [hrequests, hadmitted, hrejected]
  omega

end Runs

/-- **Two requests and three decisions counted**: of the two rejections one
is the dispatcher's, which has given up on the same request. -/
theorem counters_add_up_noticed_twice :
    ∃ a, Trace (StepOf (Audit.step toString (Params.inMemory (Config.minimal .enforce []))))
        (Audit.build (Config.minimal .enforce []) ∅) noticedTwice a ∧
      a.system.metrics.requests = 2 ∧ a.system.metrics.admitted = 1 ∧
      a.system.metrics.rejected = 2 ∧ a.undecided = 0 ∧
      (2 + gaveUp toString (Params.inMemory (Config.minimal .enforce []))
        (Audit.build (Config.minimal .enforce []) ∅) noticedTwice) % 2 ^ 64 = 3 := by
  have hrun : (noticedTwice.foldlM
      (Audit.step toString (Params.inMemory (Config.minimal .enforce [])))
      (Audit.build (Config.minimal .enforce []) ∅)).any
      (fun a => a.system.metrics.requests = 2 && (a.system.metrics.admitted = 1 &&
        (a.system.metrics.rejected = 2 && a.undecided = 0))) = true := by
    decide +kernel
  obtain ⟨a, htrace, hend⟩ := Trace.exists_of_any hrun
  simp only [Bool.and_eq_true, decide_eq_true_eq] at hend
  obtain ⟨hrequests, hadmitted, hrejected, hundecided⟩ := hend
  have hbalance := (counters_add_up _ _ _ _ htrace).2.2.2.2.2
  rw [hrequests, hadmitted, hrejected, hundecided] at hbalance
  exact ⟨a, htrace, hrequests, hadmitted, hrejected, hundecided, hbalance⟩

end Proxy

end InferQos
