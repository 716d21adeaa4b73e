import InferQos.Common.Trace
import InferQos.Common.Window
import InferQos.Proxy.Linking
/-!
# The decision history

`record` and its callers, over the runs of the system: a handler records
its decision where it answers `qos_rejected`, or where it is admitted. The
outcome it reports is a local that the way to the admission has set. What
`explain` and the management plane read is the bounded queue `decisions`;
`made` remembers every decision, with the handler that made it.

`decision_history_exact` says that the history is to be believed: a handler
decides once, what it did afterwards is what it recorded, and the queue
holds the latest decisions.
-/

namespace InferQos

namespace Proxy

variable {F σ : Type}

/-! ## Records -/

/-- `DecisionRecord`. -/
structure DecisionRecord (F : Type) where
  requestId : Uuid
  effectiveClass : String
  tenant : String
  application : String
  pool : String
  estimatedWorkUnits : F
  outcome : String
  queueAgeMs : ℕ

/-- What is recorded of a request. -/
inductive Outcome
  | admitted
  | shadowWouldQueue
  | queuedThenAdmitted
  | rejected (reason : Reason)
  deriving DecidableEq

/-- The text of a rejection, `uuidText` being `Uuid::to_string`. -/
def Reason.text (uuidText : Uuid → String) : Reason → String
  | notQueueable => "capacity unavailable and request is not queueable"
  | scheduler .depthLimit => "queue depth limit reached"
  | scheduler .byteLimit => "queue byte limit reached"
  | scheduler (.duplicate id) => "request " ++ uuidText id ++ " is already queued"
  | deadline => "queue deadline expired"

/-- The text of an outcome. -/
def Outcome.text (uuidText : Uuid → String) : Outcome → String
  | admitted => "admitted"
  | shadowWouldQueue => "shadow_would_queue"
  | queuedThenAdmitted => "queued_then_admitted"
  | rejected reason => "rejected: " ++ reason.text uuidText

def Outcome.isAdmission : Outcome → Bool
  | rejected _ => false
  | _ => true

/-- **A decision**, and the handler that made it. -/
structure Decision (F : Type) where
  handler : ℕ
  job : Job F
  outcome : Outcome
  queueAge : ℕ

/-- The record of a decision. -/
def Decision.record (uuidText : Uuid → String) (d : Decision F) : DecisionRecord F where
  requestId := d.job.request.id
  effectiveClass := d.job.request.effectiveClass.toString
  tenant := d.job.request.identity.tenant
  application := d.job.request.identity.application
  pool := d.job.request.pool
  estimatedWorkUnits := d.job.request.estimate.normalizedUnits
  outcome := d.outcome.text uuidText
  queueAgeMs := d.queueAge

/-- The bound it comes with, of the configuration the handler cloned. -/
def Decision.max (d : Decision F) : ℕ := d.job.config.limits.decisionHistory

namespace Phase

/-- What a step assigns to the locals `outcome` and `queue_age`. -/
def tells (now : ℕ) : Phase F → Choice F → Option (Outcome × ℕ)
  | waiting _ since (some _), .next => some (.queuedThenAdmitted, (now - since) / 1000000)
  | refused job, .next => if job.config.mode = .shadow then some (.shadowWouldQueue, 0) else none
  | _, _ => none

/-- The decision a step records, for the locals as they are. -/
def decides (locals : Outcome × ℕ) : Phase F → Choice F → Option (Job F × Outcome × ℕ)
  | admitted job _, .next => some (job, locals)
  | rejecting job reason, .next => some (job, .rejected reason, 0)
  | _, _ => none

end Phase

/-! ## Runs with their decisions -/

/-- **The system with its decision history.** -/
structure Audit (F σ : Type) where
  system : System F σ
  decisions : List (DecisionRecord F)
  /-- The locals that were assigned. -/
  locals : OrdMap ℕ (Outcome × ℕ)
  /-- Every decision made, the latest last. -/
  made : List (Decision F)

namespace Audit

/-- The locals of a handler: `admitted` and no age, until they are assigned. -/
def localsOf (locals : Option (Outcome × ℕ)) : Outcome × ℕ := locals.getD (.admitted, 0)

variable (a : Audit F σ)

/-- The decision of a step. -/
def decides : Action F → Option (Decision F)
  | .handler n choice =>
    match a.system.handlers.get? n with
    | none => none
    | some phase =>
      (phase.decides (localsOf (a.locals.get? n)) choice).map fun d => ⟨n, d.1, d.2.1, d.2.2⟩
  | _ => none

/-- The locals after a step. -/
def tells : Action F → OrdMap ℕ (Outcome × ℕ)
  | .handler n choice =>
    match a.system.handlers.get? n with
    | none => a.locals
    | some phase =>
      match phase.tells a.system.now choice with
      | none => a.locals
      | some v => a.locals.insert n v
  | _ => a.locals

/-- `record`, where a decision is made. -/
def recorded (uuidText : Uuid → String) (decision : Option (Decision F)) :
    List (DecisionRecord F) :=
  match decision with
  | none => a.decisions
  | some d => Window.push d.max a.decisions (d.record uuidText)

/-- Nothing was decided yet. -/
def build (config : Config F) (coordinator : σ) [Arith F] : Audit F σ :=
  ⟨System.build config coordinator, [], ∅, []⟩

/-- **One step.** -/
def step [Arith F] (uuidText : Uuid → String) (P : Params F σ) (a : Audit F σ)
    (action : Action F) : Option (Audit F σ) :=
  match Proxy.step P a.system action with
  | none => none
  | some t =>
    some
      { system := t
        decisions := a.recorded uuidText (a.decides action)
        locals := a.tells action
        made := a.made ++ (a.decides action).toList }

end Audit

/-! ## One handler -/

/-- A handler that was admitted, with leases or without. -/
def Passed (said : Option Outcome) (leased : Bool) : Prop :=
  ∃ o, said = some o ∧ o.isAdmission = true ∧ (o = .shadowWouldQueue ↔ leased = false)

/-- **What an answer says of the decision before it.** -/
def Ended (said : Option Outcome) : Response → Prop
  | .qosRejected reason => said = some (.rejected reason)
  | .forwarded => ∃ o, said = some o ∧ o.isAdmission = true
  | .spoolReadFailed => ∃ o, said = some o ∧ o.isAdmission = true
  | .upstreamError => ∃ o, said = some o ∧ o.isAdmission = true
  | .dropped => ∀ o, said = some o → o.isAdmission = true
  | _ => said = none

/-- **Where a handler can stand** with these locals, having recorded this. -/
def Fits (told : Option (Outcome × ℕ)) (said : Option Outcome) : Phase F → Prop
  | .admitted job none =>
    told = some (.shadowWouldQueue, 0) ∧ job.config.mode = .shadow ∧ said = none
  | .admitted _ (some _) =>
    (told = none ∨ ∃ age, told = some (.queuedThenAdmitted, age)) ∧ said = none
  | .loading _ leases => Passed said leases.isSome
  | .dispatching _ leases => Passed said leases.isSome
  | .opening _ leases _ => Passed said leases.isSome
  | .streaming _ leases _ _ _ => Passed said leases.isSome
  | .completing _ _ _ _ _ => Passed said true
  | .closing _ leases response => Passed said leases.isSome ∧ Ended said response
  | .spawning _ _ response => Passed said true ∧ Ended said response
  | .departing _ response => (∃ o, said = some o ∧ o.isAdmission = true) ∧ Ended said response
  | .uncounting response => (∃ o, said = some o ∧ o.isAdmission = true) ∧ Ended said response
  | .done response => Ended said response
  | _ => told = none ∧ said = none

namespace Phase

/-- **What a handler does once it has recorded an outcome.** -/
def Follows (o : Outcome) : Phase F → Prop
  | loading _ leases => o.isAdmission = true ∧ (o = .shadowWouldQueue ↔ leases = none)
  | dispatching _ leases => o.isAdmission = true ∧ (o = .shadowWouldQueue ↔ leases = none)
  | opening _ leases _ => o.isAdmission = true ∧ (o = .shadowWouldQueue ↔ leases = none)
  | streaming _ leases _ _ _ => o.isAdmission = true ∧ (o = .shadowWouldQueue ↔ leases = none)
  | closing _ leases _ => o.isAdmission = true ∧ (o = .shadowWouldQueue ↔ leases = none)
  | completing _ _ _ _ _ => o.isAdmission = true ∧ o ≠ .shadowWouldQueue
  | spawning _ _ _ => o.isAdmission = true ∧ o ≠ .shadowWouldQueue
  | departing _ _ => o.isAdmission = true
  | uncounting _ => o.isAdmission = true
  | done (.qosRejected reason) => o = .rejected reason
  | done .forwarded => o.isAdmission = true
  | done .spoolReadFailed => o.isAdmission = true
  | done .upstreamError => o.isAdmission = true
  | done .dropped => o.isAdmission = true
  | _ => False

/-- A handler that was admitted or rejected. One that was dropped may have
been dropped before. -/
def isDecided : Phase F → Bool
  | loading _ _ => true
  | dispatching _ _ => true
  | opening _ _ _ => true
  | streaming _ _ _ _ _ => true
  | completing _ _ _ _ _ => true
  | closing _ _ _ => true
  | spawning _ _ _ => true
  | departing _ _ => true
  | uncounting _ => true
  | done (.qosRejected _) => true
  | done .forwarded => true
  | done .spoolReadFailed => true
  | done .upstreamError => true
  | _ => false

end Phase

section Moves

variable [Arith F] {P : Params F σ} {s : System F σ} {n : ℕ} {phase : Phase F} {choice : Choice F}
variable {m : Move F σ (Phase F)} {told : Option (Outcome × ℕ)} {said : Option Outcome}

omit [Arith F] in
theorem fits_afterReserve {job : Job F} {charged : F} (at_ : ReservePhase F)
    (h : told = none ∧ said = none) : Fits told said (Phase.afterReserve job charged at_) := by
  unfold Phase.afterReserve
  split <;> exact h

omit [Arith F] in
theorem fits_afterLeave {job : Job F} (error : Option CoordinatorError)
    (h : told = none ∧ said = none) : Fits told said (Phase.afterLeave job error) := by
  cases error with
  | none => exact h
  | some e => exact h.2

omit [Arith F] in
theorem Passed.admission {leased : Bool} (h : Passed said leased) :
    ∃ o, said = some o ∧ o.isAdmission = true := by
  obtain ⟨o, ho, hadmission, -⟩ := h
  exact ⟨o, ho, hadmission⟩

omit [Arith F] in
theorem ended_dropped (h : ∃ o, said = some o ∧ o.isAdmission = true) : Ended said .dropped := by
  obtain ⟨o, ho, hadmission⟩ := h
  intro o' ho'
  rw [ho] at ho'
  cases ho'
  exact hadmission

omit [Arith F] in
theorem ended_of_open (h : told = none ∧ said = none) : Ended said .dropped := by
  intro o ho
  rw [h.2] at ho
  cases ho

omit [Arith F] in
/-- What a request that cannot be prepared is answered with. -/
theorem response_of_prepare {config : Config F} {pools : List String} {arrival : Arrival F}
    {response : Response} (h : prepare config pools arrival = .error response) :
    response = .panicked ∨ response = .poolUnavailable := by
  unfold prepare at h
  simp only at h
  split at h
  · cases h
    exact Or.inl rfl
  · split at h
    · split at h
      · cases h
        exact Or.inl rfl
      · cases h
    · cases h
      exact Or.inr rfl

omit [Arith F] in
/-- A request that cannot be prepared is not decided on. -/
theorem ended_of_prepare {config : Config F} {pools : List String} {arrival : Arrival F}
    {response : Response} (h : prepare config pools arrival = .error response)
    (hsaid : said = none) : Ended said response := by
  rcases response_of_prepare h with rfl | rfl
  · exact hsaid
  · exact hsaid

omit [Arith F] in
/-- The first word on a request that is admitted. -/
theorem passed_of_admitted {job : Job F} {leases : Option (AdmissionLeases F)}
    (h : Fits told said (.admitted job leases)) :
    Passed ((some (Audit.localsOf told).1).or said) leases.isSome := by
  refine ⟨(Audit.localsOf told).1, rfl, ?_⟩
  cases leases with
  | none =>
    rw [h.1]
    exact ⟨rfl, iff_of_true rfl rfl⟩
  | some leases =>
    rcases h.1 with htold | ⟨age, htold⟩
    · rw [htold]
      exact ⟨rfl, iff_of_false (by rintro ⟨⟩) (by rintro ⟨⟩)⟩
    · rw [htold]
      exact ⟨rfl, iff_of_false (by rintro ⟨⟩) (by rintro ⟨⟩)⟩

/-- **A step of a handler keeps to it.** -/
theorem Fits.move (h : Fits told said phase) (hm : phase.move P s n choice = some m) :
    Fits ((phase.tells s.now choice).or told)
      (((phase.decides (Audit.localsOf told) choice).map (·.2.1)).or said) m.next := by
  revert hm
  fun_cases Phase.move P s n phase choice <;> intro hm <;> cases hm
  all_goals simp only [Phase.tells, Phase.decides, Option.map_none, Option.none_or]
  all_goals first
    | exact h
    | exact h.2
    | exact fits_afterReserve _ h
    | exact fits_afterLeave _ h
    | exact ended_of_open h
    | exact ended_of_prepare ‹_› h.2
    | exact ⟨h, h.admission⟩
    | exact ⟨h, ended_dropped h.admission⟩
    | exact ⟨h.admission, h.admission⟩
    | exact ⟨h.1.admission, h.2⟩
    | exact passed_of_admitted h
    | exact ⟨Or.inl h.1, h.2⟩
    | exact ⟨Or.inr ⟨_, rfl⟩, h.2⟩
    | skip
  -- a busy pool in shadow mode, and the three outcomes it has otherwise
  · rw [if_pos ‹_›]
    exact ⟨rfl, ‹_›, h.2⟩
  · rw [if_neg ‹_›]
    exact h
  · rw [if_neg ‹_›]
    exact h
  · rw [if_neg ‹_›]
    exact h
  · rfl

omit [Arith F] in
/-- A delivery sets no local and records nothing. -/
theorem Fits.receive {phase' : Phase F} {leases : AdmissionLeases F} (h : Fits told said phase)
    (hr : phase.receive leases = some phase') : Fits told said phase' := by
  revert hr
  fun_cases Phase.receive leases phase <;> intro hr <;> cases hr
  · exact h
  · exact h

/-- A step of the dispatcher leaves a handler with the request it served. -/
theorem DispatchPhase.move_keeps {d : DispatchPhase F} {m : Move F σ (DispatchPhase F)}
    (hm : d.move P s = some m) (hn : s.handlers.get? n = some phase) :
    ∃ phase', (m.effect.apply P (s.bump m.counter)).handlers.get? n = some phase' ∧
      ∀ r, phase.Serves r → phase'.Serves r := by
  by_cases hd : ∃ w phase', m.effect = .deliver w phase'
  · obtain ⟨w, phase', he⟩ := hd
    obtain ⟨_, _, leases, old, -, -, -, hw, hr⟩ := DispatchPhase.move_deliver hm he
    rw [he]
    by_cases hne : n = w
    · subst hne
      rw [hn] at hw
      cases hw
      exact ⟨phase', OrdMap.get?_insert_self, fun r hs => hs.receive hr⟩
    · exact ⟨phase, (OrdMap.get?_insert_of_ne hne).trans hn, fun r hs => hs⟩
  · rw [Effect.apply_handlers fun w phase' he => hd ⟨w, phase', he⟩]
    exact ⟨phase, hn, fun r hs => hs⟩

omit [Arith F] in
/-- **Who decides has not decided before**, and decides on its own
request. -/
theorem Fits.open_of_decides {locals : Outcome × ℕ} {d : Job F × Outcome × ℕ}
    (h : Fits told said phase) (hd : phase.decides locals choice = some d) :
    said = none ∧ phase.Serves d.1.request := by
  revert hd
  fun_cases Phase.decides locals phase choice <;> intro hd <;> cases hd
  · rename_i job leases
    cases leases with
    | none => exact ⟨h.2.2, rfl⟩
    | some leases => exact ⟨h.2, rfl⟩
  · exact ⟨h.2, rfl⟩

omit [Arith F] in
/-- A handler that was admitted or rejected has said so. -/
theorem Fits.exists_said (h : Fits told said phase) (hd : phase.isDecided = true) :
    ∃ o, said = some o := by
  have hpassed : ∀ b, Passed said b → ∃ o, said = some o := by
    rintro b ⟨o, ho, -⟩
    exact ⟨o, ho⟩
  have hadmitted : (∃ o, said = some o ∧ o.isAdmission = true) → ∃ o, said = some o := by
    rintro ⟨o, ho, -⟩
    exact ⟨o, ho⟩
  revert hd
  fun_cases Phase.isDecided phase <;> intro hd
  all_goals first
    | exact hpassed _ h
    | exact hpassed _ h.1
    | exact hadmitted h.1
    | exact hadmitted h
    | exact ⟨_, h⟩
    | cases hd

omit [Arith F] in
theorem Passed.leased {o : Outcome} {leases : Option (AdmissionLeases F)}
    (h : Passed (some o) leases.isSome) :
    o.isAdmission = true ∧ (o = .shadowWouldQueue ↔ leases = none) := by
  obtain ⟨_, ho, hadmission, hshadow⟩ := h
  cases ho
  rw [Option.isSome_eq_false_iff, Option.isNone_iff_eq_none] at hshadow
  exact ⟨hadmission, hshadow⟩

omit [Arith F] in
theorem Passed.not_shadow {o : Outcome} (h : Passed (some o) true) :
    o.isAdmission = true ∧ o ≠ .shadowWouldQueue := by
  obtain ⟨_, ho, hadmission, hshadow⟩ := h
  cases ho
  exact ⟨hadmission, fun heq => by cases hshadow.mp heq⟩

omit [Arith F] in
theorem isAdmission_of_exists {o : Outcome}
    (h : ∃ o', some o = some o' ∧ o'.isAdmission = true) : o.isAdmission = true := by
  obtain ⟨_, ho, hadmission⟩ := h
  cases ho
  exact hadmission

omit [Arith F] in
/-- And it does what it said. -/
theorem Fits.follows {o : Outcome} (h : Fits told (some o) phase) : phase.Follows o := by
  cases phase with
  | loading | dispatching | opening | streaming => exact Passed.leased h
  | closing => exact Passed.leased h.1
  | completing => exact Passed.not_shadow h
  | spawning => exact Passed.not_shadow h.1
  | departing | uncounting => exact isAdmission_of_exists h.1
  | done response =>
    cases response with
    | qosRejected reason => exact Option.some.inj h
    | forwarded | spoolReadFailed | upstreamError => exact isAdmission_of_exists h
    | dropped => exact h o rfl
    | _ => cases h
  | admitted job leases =>
    cases leases with
    | none => cases h.2.2
    | some leases => cases h.2
  | _ => cases h.2

end Moves

/-! ## Every state of a run -/

/-- The outcome a handler has recorded. -/
def Audit.saidOf (made : List (Decision F)) (n : ℕ) : Option Outcome :=
  (made.find? (·.handler = n)).map (·.outcome)

section Said

variable {made : List (Decision F)} {n : ℕ}

theorem saidOf_eq_none : Audit.saidOf made n = none ↔ n ∉ made.map (·.handler) := by
  rw [Audit.saidOf, Option.map_eq_none_iff, List.find?_eq_none, List.mem_map]
  constructor
  · rintro h ⟨d, hd, rfl⟩
    exact h d hd (decide_eq_true rfl)
  · intro h d hd heq
    exact h ⟨d, hd, of_decide_eq_true heq⟩

theorem saidOf_append_of_ne {d : Decision F} (h : d.handler ≠ n) :
    Audit.saidOf (made ++ [d]) n = Audit.saidOf made n := by
  have hother : [d].find? (·.handler = n) = none :=
    List.find?_eq_none.mpr fun d' hd' heq => by
      rw [List.mem_singleton.mp hd'] at heq
      exact h (of_decide_eq_true heq)
  rw [Audit.saidOf, List.find?_append, hother, Option.or_none, Audit.saidOf]

theorem saidOf_append_self {d : Decision F} (h : Audit.saidOf made d.handler = none) :
    Audit.saidOf (made ++ [d]) d.handler = some d.outcome := by
  have hnone : made.find? (·.handler = d.handler) = none := Option.map_eq_none_iff.mp h
  have hself : [d].find? (·.handler = d.handler) = some d := by
    rw [List.find?_cons_of_pos]
    exact decide_eq_true rfl
  rw [Audit.saidOf, List.find?_append, hnone, Option.none_or, hself]
  rfl

theorem saidOf_of_mem {d : Decision F} (h : (made.map (·.handler)).Nodup) (hd : d ∈ made) :
    Audit.saidOf made d.handler = some d.outcome := by
  cases hfind : made.find? (·.handler = d.handler) with
  | none => exact absurd (decide_eq_true rfl) (List.find?_eq_none.mp hfind d hd)
  | some d' =>
    have hhandler := List.find?_some hfind
    have hsame : d' = d :=
      List.inj_on_of_nodup_map h (List.mem_of_find?_eq_some hfind) hd (of_decide_eq_true hhandler)
    rw [Audit.saidOf, hfind, hsame]
    rfl

end Said

namespace Audit

variable {a : Audit F σ} {n n' : ℕ} {choice : Choice F} {phase : Phase F}

theorem decides_handler (h : a.system.handlers.get? n = some phase) :
    a.decides (.handler n choice) =
      (phase.decides (localsOf (a.locals.get? n)) choice).map fun d => ⟨n, d.1, d.2.1, d.2.2⟩ := by
  rw [decides, h]

theorem get?_tells_self (h : a.system.handlers.get? n = some phase) :
    (a.tells (.handler n choice)).get? n =
      (phase.tells a.system.now choice).or (a.locals.get? n) := by
  simp only [tells, h]
  cases phase.tells a.system.now choice with
  | none => rfl
  | some v => exact OrdMap.get?_insert_self

theorem get?_tells_of_ne (h : a.system.handlers.get? n = some phase) (hne : n' ≠ n) :
    (a.tells (.handler n choice)).get? n' = a.locals.get? n' := by
  simp only [tells, h]
  cases phase.tells a.system.now choice with
  | none => rfl
  | some v => exact OrdMap.get?_insert_of_ne hne

end Audit

/-- **The history agrees with the handlers.** -/
structure Logged (uuidText : Uuid → String) (a : Audit F σ) : Prop where
  linked : Linked a.system
  fits : ∀ n phase, a.system.handlers.get? n = some phase →
    Fits (a.locals.get? n) (Audit.saidOf a.made n) phase
  /-- Who has set a local or has decided is a handler. -/
  told : ∀ n v, a.locals.get? n = some v → ∃ phase, a.system.handlers.get? n = some phase
  served : ∀ d ∈ a.made, ∃ phase, a.system.handlers.get? d.handler = some phase ∧
    phase.Serves d.job.request
  nodup : (a.made.map (·.handler)).Nodup
  window : a.decisions = Window.window (a.made.map fun d => (d.record uuidText, d.max))

section Runs

variable [Arith F] {P : Params F σ} {uuidText : Uuid → String} {a b : Audit F σ}

theorem logged_build (config : Config F) (coordinator : σ) :
    Logged uuidText (Audit.build config coordinator : Audit F σ) where
  linked := linked_build config coordinator
  fits n phase h := by cases h
  told n v h := by cases h
  served d hd := absurd hd List.not_mem_nil
  nodup := List.nodup_nil
  window := rfl

namespace Logged

omit [Arith F] in
/-- **A step of anything but a handler** decides nothing. -/
theorem of_system {t : System F σ} (h : Logged uuidText a) (hl : Linked t)
    (hfits : ∀ n phase, t.handlers.get? n = some phase →
      Fits (a.locals.get? n) (Audit.saidOf a.made n) phase)
    (hserves : ∀ n phase, a.system.handlers.get? n = some phase →
      ∃ phase', t.handlers.get? n = some phase' ∧ ∀ r, phase.Serves r → phase'.Serves r) :
    Logged uuidText
      { system := t
        decisions := a.recorded uuidText none
        locals := a.locals
        made := a.made ++ (none : Option (Decision F)).toList } := by
  rw [Option.toList_none, List.append_nil]
  refine ⟨hl, hfits, fun n v hv => ?_, fun d hd => ?_, h.nodup, h.window⟩
  · obtain ⟨phase, hphase⟩ := h.told n v hv
    obtain ⟨phase', hphase', -⟩ := hserves n phase hphase
    exact ⟨phase', hphase'⟩
  · obtain ⟨phase, hphase, hr⟩ := h.served d hd
    obtain ⟨phase', hphase', hkeeps⟩ := hserves d.handler phase hphase
    exact ⟨phase', hphase', hkeeps _ hr⟩

omit [Arith F] in
/-- A new handler has set nothing and has decided nothing. -/
theorem fits_first (h : Logged uuidText a) (draining : Bool) :
    Fits (a.locals.get? a.system.nextTask) (Audit.saidOf a.made a.system.nextTask)
      (Phase.first draining : Phase F) := by
  have hunused : ∀ phase, a.system.handlers.get? a.system.nextTask ≠ some phase :=
    fun phase hphase => lt_irrefl _ (h.linked.fresh _ phase hphase)
  have htold : a.locals.get? a.system.nextTask = none := by
    refine Option.eq_none_iff_forall_ne_some.mpr fun v hv => ?_
    obtain ⟨phase, hphase⟩ := h.told _ v hv
    exact hunused phase hphase
  have hsaid : Audit.saidOf a.made a.system.nextTask = none := by
    refine saidOf_eq_none.mpr fun hmem => ?_
    obtain ⟨d, hd, hn⟩ := List.mem_map.mp hmem
    obtain ⟨phase, hphase, -⟩ := h.served d hd
    exact hunused phase (hn ▸ hphase)
  cases draining with
  | false => exact ⟨htold, hsaid⟩
  | true => exact hsaid

/-- **A step of a handler**, for what it adds to the decisions. -/
theorem handler_made {n : ℕ} {choice : Choice F} {phase : Phase F} {m : Move F σ (Phase F)}
    {made : List (Decision F)} {decisions : List (DecisionRecord F)} (h : Logged uuidText a)
    (hphase : a.system.handlers.get? n = some phase)
    (hm : phase.move P a.system n choice = some m)
    (hl : Linked ((m.effect.apply P (a.system.bump m.counter)).goto n m.next))
    (hmoved : Fits ((a.tells (.handler n choice)).get? n) (Audit.saidOf made n) m.next)
    (hothers : ∀ n', n' ≠ n → Audit.saidOf made n' = Audit.saidOf a.made n')
    (hserved : ∀ d ∈ made, d ∈ a.made ∨ d.handler = n ∧ phase.Serves d.job.request)
    (hnodup : (made.map (·.handler)).Nodup)
    (hwindow : decisions = Window.window (made.map fun d => (d.record uuidText, d.max))) :
    Logged uuidText
      { system := (m.effect.apply P (a.system.bump m.counter)).goto n m.next
        decisions := decisions
        locals := a.tells (.handler n choice)
        made := made } := by
  have hhandlers : (m.effect.apply P (a.system.bump m.counter)).handlers = a.system.handlers :=
    Effect.apply_handlers (Phase.move_not_deliver hm)
  -- where a handler stands now, and what it has served it serves
  have hstands : ∀ n' old, a.system.handlers.get? n' = some old →
      ∃ new, ((m.effect.apply P (a.system.bump m.counter)).goto n m.next).handlers.get? n' =
        some new ∧ ∀ r, old.Serves r → new.Serves r := by
    intro n' old hold
    by_cases hn : n' = n
    · subst hn
      rw [hphase] at hold
      cases hold
      exact ⟨m.next, OrdMap.get?_insert_self, fun r hr => hr.move hm⟩
    · rw [← hhandlers] at hold
      exact ⟨old, (OrdMap.get?_insert_of_ne hn).trans hold, fun r hr => hr⟩
  refine ⟨hl, fun n' phase' hn => ?_, fun n' v hv => ?_, fun d hd => ?_, hnodup, hwindow⟩
  · rcases System.goto_get? hn with ⟨rfl, rfl⟩ | ⟨hne, hn⟩
    · exact hmoved
    · rw [Audit.get?_tells_of_ne hphase hne, hothers n' hne]
      exact h.fits n' phase' (hhandlers ▸ hn)
  · by_cases hn : n' = n
    · subst hn
      obtain ⟨new, hnew, -⟩ := hstands n' phase hphase
      exact ⟨new, hnew⟩
    · rw [Audit.get?_tells_of_ne hphase hn] at hv
      obtain ⟨old, hold⟩ := h.told n' v hv
      obtain ⟨new, hnew, -⟩ := hstands n' old hold
      exact ⟨new, hnew⟩
  · rcases hserved d hd with hd | ⟨rfl, hr⟩
    · obtain ⟨old, hold, hr⟩ := h.served d hd
      obtain ⟨new, hnew, hkeeps⟩ := hstands d.handler old hold
      exact ⟨new, hnew, hkeeps _ hr⟩
    · obtain ⟨new, hnew, hkeeps⟩ := hstands d.handler phase hphase
      exact ⟨new, hnew, hkeeps _ hr⟩

/-- **A step of a handler**, with the decision it makes if it makes one. -/
theorem handler {n : ℕ} {choice : Choice F} {phase : Phase F} {m : Move F σ (Phase F)}
    (h : Logged uuidText a) (hphase : a.system.handlers.get? n = some phase)
    (hm : phase.move P a.system n choice = some m)
    (hl : Linked ((m.effect.apply P (a.system.bump m.counter)).goto n m.next)) :
    Logged uuidText
      { system := (m.effect.apply P (a.system.bump m.counter)).goto n m.next
        decisions := a.recorded uuidText (a.decides (.handler n choice))
        locals := a.tells (.handler n choice)
        made := a.made ++ (a.decides (.handler n choice)).toList } := by
  have hfits := h.fits n phase hphase
  have hmoved := hfits.move hm
  rw [← Audit.get?_tells_self hphase] at hmoved
  rw [Audit.decides_handler hphase]
  cases hd : phase.decides (Audit.localsOf (a.locals.get? n)) choice with
  | none =>
    rw [hd] at hmoved
    rw [Option.map_none, Option.toList_none, List.append_nil]
    exact h.handler_made hphase hm hl hmoved (fun _ _ => rfl) (fun d hd => Or.inl hd) h.nodup
      h.window
  | some d =>
    obtain ⟨hopen, hserves⟩ := hfits.open_of_decides hd
    rw [hd, Option.map_some, Option.some_or] at hmoved
    rw [Option.map_some, Option.toList_some]
    have hnew : n ∉ a.made.map (·.handler) := saidOf_eq_none.mp hopen
    refine h.handler_made hphase hm hl ?_ (fun n' hne => saidOf_append_of_ne hne.symm) ?_ ?_ ?_
    · rw [saidOf_append_self (d := ⟨n, d.1, d.2.1, d.2.2⟩) hopen]
      exact hmoved
    · intro d' hd'
      rcases List.mem_append.mp hd' with hd' | hd'
      · exact Or.inl hd'
      · rw [List.mem_singleton.mp hd']
        exact Or.inr ⟨rfl, hserves⟩
    · rw [List.map_append, List.map_singleton]
      exact List.nodup_append_comm.mp (List.nodup_cons.mpr ⟨hnew, h.nodup⟩)
    · rw [List.map_append, List.map_singleton, Window.window_snoc, ← h.window]
      rfl

/-- **Every step keeps the history.** -/
theorem step {action : Action F} (h : Logged uuidText a)
    (hs : a.step uuidText P action = some b) : Logged uuidText b := by
  unfold Audit.step at hs
  split at hs
  · cases hs
  rename_i t ht
  cases hs
  have hl := h.linked.step ht
  have hsame : ∀ n phase, a.system.handlers.get? n = some phase →
      ∃ phase', a.system.handlers.get? n = some phase' ∧ ∀ r, phase.Serves r → phase'.Serves r :=
    fun n phase hn => ⟨phase, hn, fun r hr => hr⟩
  cases stepped ht with
  | arrive =>
    refine h.of_system hl (fun n phase hn => ?_) fun n phase hn => ?_
    · rcases System.goto_get? hn with ⟨rfl, rfl⟩ | ⟨-, hn⟩
      · exact h.fits_first _
      · exact h.fits n phase hn
    · have hne : n ≠ a.system.nextTask := ne_of_lt (h.linked.fresh n phase hn)
      exact ⟨phase, (OrdMap.get?_insert_of_ne hne).trans hn, fun r hr => hr⟩
  | handler hphase hm => exact h.handler hphase hm hl
  | @dispatch m hm =>
    refine h.of_system hl (fun n phase hn => ?_) fun n phase hn => DispatchPhase.move_keeps hm hn
    rw [Effect.apply_bump] at hn
    rcases DispatchPhase.move_get? hm hn with hn | ⟨_, _, leases, old, -, -, hn, hr⟩
    · exact h.fits n phase hn
    · exact (h.fits n old hn).receive hr
  | release hk => exact h.of_system hl h.fits hsame
  | advance d => exact h.of_system hl h.fits hsame
  | reload config => exact h.of_system hl h.fits hsame
  | drain => exact h.of_system hl h.fits hsame

end Logged

/-- **The decision history is exact**, after every run. A handler decides at
most once; it served the request of the record and does what the record says;
a handler that was admitted or rejected has a record. What is kept are the
latest records, as many as the bound allows. -/
theorem decision_history_exact (uuidText : Uuid → String) (P : Params F σ) (config : Config F)
    (coordinator : σ) {es : List (Action F)} {a : Audit F σ}
    (hrun : Trace (StepOf (Audit.step uuidText P)) (Audit.build config coordinator) es a) :
    (a.made.map (·.handler)).Nodup ∧
    (∀ d ∈ a.made, ∃ phase, a.system.handlers.get? d.handler = some phase ∧
      phase.Serves d.job.request ∧ phase.Follows d.outcome) ∧
    (∀ n phase, a.system.handlers.get? n = some phase → phase.isDecided = true →
      ∃ d ∈ a.made, d.handler = n) ∧
    (∀ bound, (∀ d ∈ a.made, d.max = bound) →
      a.decisions = (a.made.map (·.record uuidText)).drop (a.made.length - bound)) ∧
    a.decisions <:+ (a.made.filter (0 < ·.max)).map (·.record uuidText) := by
  have h : Logged uuidText a := hrun.invariant (logged_build config coordinator) Logged.step
  refine ⟨h.nodup, fun d hd => ?_, fun n phase hn hdecided => ?_, fun bound hbound => ?_, ?_⟩
  · obtain ⟨phase, hphase, hserves⟩ := h.served d hd
    have hfits := h.fits d.handler phase hphase
    rw [saidOf_of_mem h.nodup hd] at hfits
    exact ⟨phase, hphase, hserves, hfits.follows⟩
  · obtain ⟨o, ho⟩ := (h.fits n phase hn).exists_said hdecided
    by_contra hnone
    have hopen : Audit.saidOf a.made n = none := by
      refine saidOf_eq_none.mpr fun hmem => hnone ?_
      exact List.mem_map.mp hmem
    rw [hopen] at ho
    cases ho
  · have hmax : ∀ e ∈ a.made.map fun d => (d.record uuidText, d.max), e.2 = bound := by
      intro e he
      obtain ⟨d, hd, rfl⟩ := List.mem_map.mp he
      exact hbound d hd
    rw [h.window, Window.window_eq_drop hmax, List.map_map, List.length_map]
    rfl
  · have hsuffix := Window.window_suffix (a.made.map fun d => (d.record uuidText, d.max))
    rw [← h.window, List.filter_map, List.map_map] at hsuffix
    exact hsuffix

end Runs

/-- A tenant that may have one request in flight makes two, and the second
may not queue. -/
def twoDecisions : List (Action ℚ) :=
  admits 0 (sampleArrival 1 2) ++ begins 1 { sampleArrival 2 2 with queueable := some false } ++
    goOn 1 2

/-- **The first is admitted and the second rejected.** -/
theorem decision_history_exact_two :
    ∃ a, Trace (StepOf (Audit.step toString (Params.inMemory (Config.minimal .enforce []))))
        (Audit.build (Config.minimal .enforce []) ∅) twoDecisions a ∧
      a.made.map (fun d => (d.handler, d.outcome)) =
        [(0, .admitted), (1, .rejected .notQueueable)] ∧
      a.decisions.map (·.requestId) = [1, 2] ∧
      ∀ d ∈ a.made, ∃ phase, a.system.handlers.get? d.handler = some phase ∧
        phase.Serves d.job.request ∧ phase.Follows d.outcome := by
  have hrun : (twoDecisions.foldlM
      (Audit.step toString (Params.inMemory (Config.minimal .enforce [])))
      (Audit.build (Config.minimal .enforce []) ∅)).any
      (fun a => a.made.map (fun d => (d.handler, d.outcome)) =
          [(0, .admitted), (1, .rejected .notQueueable)] &&
        a.decisions.map (·.requestId) = [1, 2]) = true := by
    decide +kernel
  obtain ⟨a, htrace, hend⟩ := Trace.exists_of_any hrun
  obtain ⟨hmade, hkept⟩ := Bool.and_eq_true_iff.mp hend
  exact ⟨a, htrace, of_decide_eq_true hmade, of_decide_eq_true hkept,
    (decision_history_exact _ _ _ _ htrace).2.1⟩

end Proxy

end InferQos
