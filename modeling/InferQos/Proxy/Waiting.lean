import InferQos.Common.Trace
import InferQos.Proxy.Linking
import InferQos.Scheduler.PutBack
/-!
# Waiters and their requests

A handler that queues takes two lock sections, `enqueue` and the insertion
into `pending`, and then waits on its channel. The dispatcher works in the
other direction: it pops, removes the entry, and puts both back when the
admission fails. `Attended` says that the scheduler holds the request of
every handler that relies on it, and `no_stranded_waiter` that this lasts
along every run without one of three steps: a lookup between the two
sections of a handler, a refused re-enqueue, and a cancel that hits the
request of another handler.
-/

namespace InferQos

namespace Proxy

variable {F σ : Type}

/-! ## The condition -/

/-- The request of a handler between its `enqueue` and its entry. -/
def Phase.unlisted : Phase F → Option (AdmissionRequest F)
  | enqueued job => some job.request
  | _ => none

/-- The request of a handler that waits with nothing in its channel. -/
def Phase.unanswered : Phase F → Option (AdmissionRequest F)
  | waiting job _ none => some job.request
  | _ => none

theorem Phase.eq_waiting {phase : Phase F} (h : phase.unanswered.isSome = true) :
    ∃ job since, phase = waiting job since none := by
  cases phase with
  | waiting job since value =>
    cases value with
    | none => exact ⟨job, since, rfl⟩
    | some leases => cases h
  | _ => cases h

/-- The dispatcher is between two iterations. -/
def DispatchPhase.isIdle : DispatchPhase F → Bool
  | idle => true
  | _ => false

theorem DispatchPhase.eq_idle {d : DispatchPhase F} (h : d.isIdle = true) : d = idle := by
  cases d with
  | idle => rfl
  | _ => cases h

/-- Handler `n` needs a request with this id in the scheduler: its entry is
still to come, or it waits and its sender is alive. -/
def System.needs (s : System F σ) (n : ℕ) (id : Uuid) : Bool :=
  (s.handlers.get? n).any fun phase => phase.unlisted.any (·.id = id) ||
    (s.senderAlive n && phase.unanswered.any (·.id = id))

/-- **No step strands a waiter.** A handler's `cancel` hits no id that
another handler needs; the dispatcher looks up a popped request after its
handler has listed its entry; and a re-enqueue for a handler that still
waits finds room and its id free. -/
def noStranding (P : Params F σ) (s : System F σ) : Action F → Bool
  | .handler n .next =>
    match s.handlers.get? n with
    | some (.cancelling job) => s.handlers.keys.all fun w => !s.needs w job.request.id
    | _ => true
  | .dispatch =>
    match s.dispatcher with
    | .popped req => s.handlers.values.all fun phase => phase.unlisted.all (·.id ≠ req.id)
    | .requeueing _ p =>
      ((s.handlers.get? p.waiter).bind Phase.unanswered).isNone ||
        (s.scheduler.depth < P.scheduler.maxDepth &&
          (saturatingAdd s.scheduler.bytes p.bodyBytes ≤ P.scheduler.maxBytes &&
            (s.scheduler.index.get? p.request.id).isNone))
    | _ => true
  | _ => true

/-! ## Handlers that rely on the scheduler -/

/-- **A handler relies on the scheduler for its request.** -/
inductive System.Relies (s : System F σ) : ℕ → AdmissionRequest F → Prop
  /-- Its entry is still to come. -/
  | enqueued {n : ℕ} {job : Job F} : s.handlers.get? n = some (.enqueued job) →
      s.Relies n job.request
  /-- It waits, and its entry is listed. -/
  | listed {id : Uuid} {p : Pending F} {job : Job F} {since : ℕ} :
      s.pending.get? id = some p → s.handlers.get? p.waiter = some (.waiting job since none) →
      s.Relies p.waiter p.request
  /-- It waits, and its entry is about to be listed again. -/
  | returning {req : AdmissionRequest F} {p : Pending F} {job : Job F} {since : ℕ} :
      s.dispatcher = .reinserting req p →
      s.handlers.get? p.waiter = some (.waiting job since none) → s.Relies p.waiter p.request

/-- The scheduler holds a request, or the dispatcher has just popped it. -/
def System.Seen (s : System F σ) (r : AdmissionRequest F) : Prop :=
  Scheduler.Holds s.scheduler r ∨ s.dispatcher = .popped r

/-- **No request relied on is out of sight.** -/
structure Attended (s : System F σ) : Prop where
  linked : Linked s
  keyed : Scheduler.Keyed s.scheduler
  seen : ∀ n r, s.Relies n r → s.Seen r

section Moves

variable [Arith F] {P : Params F σ} {s t : System F σ} {n : ℕ} {r req : AdmissionRequest F}
variable {p : Pending F} {e : Effect F σ} {job : Job F} {since : ℕ}

theorem Effect.apply_keyed (h : Scheduler.Keyed s.scheduler) :
    Scheduler.Keyed (e.apply P s).scheduler := by
  cases e with
  | schedule op => exact Scheduler.apply_keyed _ _ h
  | _ => exact h

omit [Arith F] in
/-- A handler that waits serves the request of its entry. -/
theorem System.Backs.request_eq (h : s.Backs p)
    (hw : s.handlers.get? p.waiter = some (.waiting job since none)) : job.request = p.request := by
  obtain ⟨phase, hphase, hserves⟩ := h
  rw [hw] at hphase
  cases hphase
  exact hserves

namespace Phase

variable {phase : Phase F} {choice : Choice F} {m : Move F σ (Phase F)}

omit [Arith F] in
theorem unlisted_afterReserve (charged : F) (at_ : ReservePhase F) :
    (afterReserve job charged at_).unlisted = none := by
  unfold afterReserve
  split <;> rfl

omit [Arith F] in
theorem unlisted_afterLeave (error : Option CoordinatorError) :
    (afterLeave job error).unlisted = none := by
  cases error <;> rfl

omit [Arith F] in
theorem unanswered_afterReserve (charged : F) (at_ : ReservePhase F) :
    (afterReserve job charged at_).unanswered = none := by
  unfold afterReserve
  split <;> rfl

omit [Arith F] in
theorem unanswered_afterLeave (error : Option CoordinatorError) :
    (afterLeave job error).unanswered = none := by
  cases error <;> rfl

/-- **A handler comes to be enqueued with its request in the scheduler.** -/
theorem move_unlisted (h : phase.move P s n choice = some m) (hnext : m.next.unlisted = some r) :
    Scheduler.Holds (m.effect.apply P s).scheduler r := by
  revert h
  fun_cases Phase.move P s n phase choice <;> intro h <;> cases h
  all_goals first
    | cases (unlisted_afterReserve _ _).symm.trans hnext
    | cases (unlisted_afterLeave _).symm.trans hnext
    | cases hnext
  rename_i hok
  exact Scheduler.holds_of_enqueue_ok hok

/-- **A handler comes to wait by listing its entry.** -/
theorem move_unanswered (h : phase.move P s n choice = some m)
    (hnext : m.next.unanswered = some r) : phase.unlisted = some r := by
  revert h
  fun_cases Phase.move P s n phase choice <;> intro h <;> cases h
  all_goals first
    | exact hnext
    | cases (unanswered_afterReserve _ _).symm.trans hnext
    | cases (unanswered_afterLeave _).symm.trans hnext

/-- **Only a `cancel` takes a request out of the scheduler**, the one of its
id. -/
theorem move_holds (h : phase.move P s n choice = some m) (hk : Scheduler.Keyed s.scheduler)
    (hr : Scheduler.Holds s.scheduler r)
    (hne : ∀ job, phase = cancelling job → choice = .next → r.id ≠ job.request.id) :
    Scheduler.Holds (m.effect.apply P s).scheduler r := by
  revert h
  fun_cases Phase.move P s n phase choice <;> intro h <;> cases h
  all_goals first
    | exact hr
    | exact hr.enqueue _ _ _ _ _
    | exact hr.cancel hk (hne _ rfl rfl)

end Phase

namespace DispatchPhase

variable {d : DispatchPhase F} {m : Move F σ (DispatchPhase F)}

/-- **What the scheduler loses to the dispatcher, the dispatcher has.** -/
theorem move_holds (h : d.move P s = some m) (hk : Scheduler.Keyed s.scheduler)
    (hr : Scheduler.Holds s.scheduler r) :
    Scheduler.Holds (m.effect.apply P s).scheduler r ∨ m.next = popped r := by
  revert h
  fun_cases DispatchPhase.move P s d <;> intro h <;> cases h
  all_goals first
    | exact Or.inl hr
    | exact Or.inl (hr.enqueue _ _ _ _ _)
    | exact (hr.popNext hk).imp id (congrArg afterPop)

omit [Arith F] in
theorem reinserting_ne_afterReserve {r : AdmissionRequest F} {q : Pending F} (config : Config F)
    (charged : F) (at_ : ReservePhase F) :
    afterReserve r q config charged at_ ≠ reinserting req p := by
  unfold afterReserve
  split <;> exact nofun

omit [Arith F] in
theorem reinserting_ne_afterPop (result : Except String (Option (AdmissionRequest F))) :
    afterPop result ≠ reinserting req p := by
  unfold afterPop
  split <;> exact nofun

omit [Arith F] in
theorem reinserting_ne_afterLeave {r : AdmissionRequest F} (q : Option (Pending F)) :
    afterLeave r q ≠ reinserting req p := by
  cases q <;> exact nofun

/-- An entry about to be listed again is the one just enqueued again. -/
theorem move_reinserting (h : d.move P s = some m) (hnext : m.next = reinserting req p) :
    d = requeueing req p ∧ m.effect = .schedule (.enqueue p.request p.bodyBytes p.classWeight
      p.tenantWeight p.appWeight) := by
  revert h
  fun_cases DispatchPhase.move P s d <;> intro h <;> cases h
  all_goals first
    | exact absurd hnext (reinserting_ne_afterReserve _ _ _)
    | exact absurd hnext (reinserting_ne_afterPop _)
    | exact absurd hnext (reinserting_ne_afterLeave _)
    | cases hnext
  exact ⟨rfl, rfl⟩

/-- Once a popped request has been looked up, no entry is listed under its
id. -/
theorem move_popped (h : (popped req).move P s = some m) {id : Uuid}
    (hp : (m.effect.apply P s).pending.get? id = some p) : id ≠ req.id := by
  rintro rfl
  simp only [DispatchPhase.move] at h
  split at h
  · rename_i hnone
    cases h
    exact nomatch hnone.symm.trans hp
  · cases h
    simp [Effect.apply] at hp

/-- The dispatcher brings no handler to wait, or to be enqueued. -/
theorem move_handlers (h : d.move P s = some m) {phase : Phase F}
    (hn : (m.effect.apply P s).handlers.get? n = some phase)
    (hphase : phase.unlisted.isSome ∨ phase.unanswered.isSome) :
    s.handlers.get? n = some phase := by
  rcases move_get? h hn with hn | ⟨_, _, leases, old, -, -, -, hr⟩
  · exact hn
  · revert hr
    fun_cases Phase.receive leases old <;> intro hr <;> cases hr
    all_goals rcases hphase with hphase | hphase <;> cases hphase

end DispatchPhase

end Moves

/-! ## Steps -/

section Steps

variable [Arith F] {P : Params F σ} {s t : System F σ} {n w : ℕ} {r : AdmissionRequest F}

omit [Arith F] in
/-- A handler that relies on its request needs its id. -/
theorem System.Relies.needs (hl : Linked s) (h : s.Relies w r) : s.needs w r.id = true := by
  cases h with
  | enqueued hw => simp [System.needs, hw, Phase.unlisted]
  | @listed id p job since hp hw =>
    have halive : s.senderAlive p.waiter = true := by
      refine Bool.or_eq_true_iff.mpr (Or.inl (List.any_eq_true.mpr ⟨p, ?_, by simp⟩))
      exact OrdMap.mem_values.mpr ⟨id, hp⟩
    have hreq := (hl.listed id p hp).2.request_eq hw
    simp [System.needs, hw, Phase.unanswered, halive, hreq]
  | @returning req p job since hd hw =>
    have hpair : s.dispatcher.pair? = some (req, p) := by
      rw [hd]
      rfl
    have halive : s.senderAlive p.waiter = true := by
      simp [System.senderAlive, hpair]
    have hreq := (hl.carried req p hpair).2.request_eq hw
    simp [System.needs, hw, Phase.unanswered, halive, hreq]

/-- **A handler's move takes no request away that another relies on.** -/
theorem Attended.handler_holds (h : Attended s) {choice : Choice F} {phase : Phase F}
    {m : Move F σ (Phase F)} (hok : noStranding P s (.handler n choice) = true)
    (hphase : s.handlers.get? n = some phase) (hm : phase.move P s n choice = some m)
    (hrel : s.Relies w r) :
    Scheduler.Holds (m.effect.apply P s).scheduler r ∨ s.dispatcher = .popped r := by
  refine (h.seen w r hrel).imp (fun hr => Phase.move_holds hm h.keyed hr ?_) id
  -- a cancel of the id would hit a handler that needs it
  rintro job rfl rfl hid
  have hneeds := hrel.needs h.linked
  have hall : ∀ w ∈ s.handlers.keys, s.needs w job.request.id = false := by
    simpa [noStranding, hphase] using hok
  have hw : w ∈ s.handlers.keys := by
    obtain ⟨phase, hw, -⟩ := (Option.any_eq_true _ _).mp hneeds
    exact List.mem_map.mpr ⟨(w, phase), OrdMap.get?_eq_some.mp hw, rfl⟩
  rw [hid, hall w hw] at hneeds
  cases hneeds

/-- **The dispatcher keeps sight of a request it has not looked up.** -/
theorem Attended.dispatch_seen (h : Attended s) {m : Move F σ (DispatchPhase F)}
    (hm : s.dispatcher.move P s = some m) (hrel : s.Relies w r)
    (hne : s.dispatcher ≠ .popped r) :
    Scheduler.Holds (m.effect.apply P s).scheduler r ∨ m.next = .popped r := by
  rcases h.seen w r hrel with hr | hd
  · exact DispatchPhase.move_holds hm h.keyed hr
  · exact absurd hd hne

/-- **What a handler relies on after a handler's move** is in the scheduler
now, or was relied on before. -/
theorem System.Relies.before_handler {choice : Choice F} {phase : Phase F}
    {m : Move F σ (Phase F)} (hphase : s.handlers.get? n = some phase)
    (hm : phase.move P s n choice = some m)
    (hl : Linked (((m.effect.apply P s).bump m.counter).goto n m.next))
    (hrel : (((m.effect.apply P s).bump m.counter).goto n m.next).Relies w r) :
    Scheduler.Holds (m.effect.apply P s).scheduler r ∨ ∃ w', s.Relies w' r := by
  have hhandlers : ((m.effect.apply P s).bump m.counter).handlers = s.handlers :=
    Effect.apply_handlers (Phase.move_not_deliver hm)
  -- a handler that has just come to wait was enqueued, and its entry names its request
  have hself : ∀ {p : Pending F} {job : Job F} {since : ℕ},
      m.next = .waiting job since none →
        (((m.effect.apply P s).bump m.counter).goto n m.next).Backs p →
        (((m.effect.apply P s).bump m.counter).goto n m.next).handlers.get? p.waiter =
          some (.waiting job since none) → ∃ w', s.Relies w' p.request := by
    intro p job since hnext hbacks hw
    have hun : phase.unlisted = some job.request :=
      Phase.move_unanswered hm (by rw [hnext]; rfl)
    cases phase with
    | enqueued job' =>
      rw [← hbacks.request_eq hw, ← Option.some.inj hun]
      exact ⟨n, .enqueued hphase⟩
    | _ => cases hun
  cases hrel with
  | @enqueued w job hw =>
    rcases System.goto_get? hw with ⟨-, hnext⟩ | ⟨-, hw⟩
    · exact Or.inl (Phase.move_unlisted hm (by rw [hnext]; rfl))
    · rw [hhandlers] at hw
      exact Or.inr ⟨w, .enqueued hw⟩
  | @listed id p job since hp hw =>
    rcases System.goto_get? hw with ⟨-, hnext⟩ | ⟨hne, hw'⟩
    · exact Or.inr (hself hnext (hl.listed id p hp).2 hw)
    · rw [hhandlers] at hw'
      rcases Effect.listed_of_apply hp with hp | he
      · exact Or.inr ⟨p.waiter, .listed hp hw'⟩
      · exact absurd (Phase.move_list hm he).1 hne
  | @returning req p job since hd hw =>
    rcases System.goto_get? hw with ⟨-, hnext⟩ | ⟨-, hw'⟩
    · exact Or.inr (hself hnext (hl.carried req p (by rw [hd]; rfl)).2 hw)
    · rw [hhandlers] at hw'
      exact Or.inr ⟨p.waiter, .returning (Effect.apply_dispatcher.symm.trans hd) hw'⟩

/-- **What a handler relies on after a move of the dispatcher** is in the
scheduler now, or was relied on before and is not the request looked up. -/
theorem System.Relies.before_dispatch {m : Move F σ (DispatchPhase F)}
    (hok : noStranding P s .dispatch = true) (hm : s.dispatcher.move P s = some m)
    (hl : Linked { (m.effect.apply P s).bump m.counter with dispatcher := m.next })
    (hrel : System.Relies { (m.effect.apply P s).bump m.counter with dispatcher := m.next } w r) :
    Scheduler.Holds (m.effect.apply P s).scheduler r ∨
      s.Relies w r ∧ s.dispatcher ≠ .popped r := by
  cases hrel with
  | @enqueued w job hw =>
    have hw' : s.handlers.get? w = some (.enqueued job) :=
      DispatchPhase.move_handlers hm hw (Or.inl rfl)
    refine Or.inr ⟨.enqueued hw', fun hd => ?_⟩
    simp only [noStranding, hd, List.all_eq_true] at hok
    have := hok _ (OrdMap.mem_values.mpr ⟨w, hw'⟩)
    simp [Phase.unlisted] at this
  | @listed id p job since hp hw =>
    have hw' : s.handlers.get? p.waiter = some (.waiting job since none) :=
      DispatchPhase.move_handlers hm hw (Or.inr rfl)
    refine Or.inr ⟨?_, fun hd => ?_⟩
    · -- an entry that is new in the table was about to be listed again
      rcases Effect.listed_of_apply hp with hp | he
      · exact .listed hp hw'
      · obtain ⟨req, hd, -⟩ := DispatchPhase.move_list hm he
        exact .returning hd hw'
    · rw [hd] at hm
      exact DispatchPhase.move_popped hm hp (hl.listed id p hp).1.symm
  | @returning req p job since hd hw =>
    have hw' : s.handlers.get? p.waiter = some (.waiting job since none) :=
      DispatchPhase.move_handlers hm hw (Or.inr rfl)
    -- the re-enqueue has just been made, and the condition says it was accepted
    obtain ⟨hd', he⟩ := DispatchPhase.move_reinserting hm hd
    simp only [noStranding, hd', hw', Option.bind_some, Phase.unanswered, Option.isNone_some,
      Bool.false_or, Bool.and_eq_true, decide_eq_true_eq, Option.isNone_iff_eq_none] at hok
    rw [he]
    exact Or.inl (Scheduler.holds_enqueue _ _ _ _ hok.1 hok.2.1 hok.2.2)

omit [Arith F] in
/-- Only the handlers, the entries and the dispatcher matter. -/
theorem Attended.of_eq (h : Attended s) (hl : Linked t) (hsched : t.scheduler = s.scheduler)
    (hhandlers : t.handlers = s.handlers) (hpending : t.pending = s.pending)
    (hdisp : t.dispatcher = s.dispatcher) : Attended t where
  linked := hl
  keyed := hsched ▸ h.keyed
  seen w r hrel := by
    rw [System.Seen, hsched, hdisp]
    refine h.seen w r ?_
    cases hrel with
    | enqueued hw => exact .enqueued (hhandlers ▸ hw)
    | listed hp hw => exact .listed (hpending ▸ hp) (hhandlers ▸ hw)
    | returning hd hw => exact .returning (hdisp ▸ hd) (hhandlers ▸ hw)

/-- A new proxy has no handlers. -/
theorem attended_build (config : Config F) (coordinator : σ) :
    Attended (System.build config coordinator) where
  linked := linked_build config coordinator
  keyed := Scheduler.init_keyed
  seen w r hrel := by
    cases hrel with
    | enqueued hw => cases hw
    | listed hp hw => cases hw
    | returning hd hw => cases hw

/-- **Every step that strands nobody keeps all waiters attended.** -/
theorem Attended.step {a : Action F} (h : Attended s) (hok : noStranding P s a = true)
    (hs : step P s a = some t) : Attended t := by
  have hl := h.linked.step hs
  cases stepped hs with
  | arrive =>
    refine ⟨hl, h.keyed, fun w r hrel => ?_⟩
    have hfirst : ∀ b, (Phase.first b : Phase F).unlisted = none ∧
        (Phase.first b : Phase F).unanswered = none := by
      intro b
      cases b <;> exact ⟨rfl, rfl⟩
    refine h.seen w r ?_
    cases hrel with
    | enqueued hw =>
      rcases System.goto_get? hw with ⟨-, hnext⟩ | ⟨-, hw⟩
      · exact nomatch (hfirst s.draining).1.symm.trans (congrArg Phase.unlisted hnext)
      · exact .enqueued hw
    | listed hp hw =>
      rcases System.goto_get? hw with ⟨-, hnext⟩ | ⟨-, hw⟩
      · exact nomatch (hfirst s.draining).2.symm.trans (congrArg Phase.unanswered hnext)
      · exact .listed hp hw
    | returning hd hw =>
      rcases System.goto_get? hw with ⟨-, hnext⟩ | ⟨-, hw⟩
      · exact nomatch (hfirst s.draining).2.symm.trans (congrArg Phase.unanswered hnext)
      · exact .returning hd hw
  | @handler n choice phase m hphase hm =>
    rw [Effect.apply_bump] at hl ⊢
    refine ⟨hl, Effect.apply_keyed h.keyed, fun w r hrel => ?_⟩
    rcases hrel.before_handler hphase hm hl with hr | ⟨w', hrel⟩
    · exact Or.inl hr
    · exact (h.handler_holds hok hphase hm hrel).imp id Effect.apply_dispatcher.trans
  | @dispatch m hm =>
    rw [Effect.apply_bump] at hl ⊢
    refine ⟨hl, Effect.apply_keyed h.keyed, fun w r hrel => ?_⟩
    rcases hrel.before_dispatch hok hm hl with hr | ⟨hrel, hne⟩
    · exact Or.inl hr
    · exact h.dispatch_seen hm hrel hne
  | release hk => exact h.of_eq hl rfl rfl rfl rfl
  | advance d => exact h.of_eq hl rfl rfl rfl rfl
  | reload config => exact h.of_eq hl rfl rfl rfl rfl
  | drain => exact h.of_eq hl rfl rfl rfl rfl

/-- The dispatcher's current iteration has the request of handler `n`: it
has popped it, or it carries the handler's entry. -/
def System.InHand (s : System F σ) (n : ℕ) (r : AdmissionRequest F) : Prop :=
  s.dispatcher = .popped r ∨
    ∃ req p, s.dispatcher.pair? = some (req, p) ∧ p.waiter = n ∧ p.request = r

/-- **No stranded waiter.** Along every run none of whose steps strands a
waiter, a handler that waits on its channel with nothing sent and its
sender alive has its request queued, or in the dispatcher's hands. -/
theorem no_stranded_waiter (config : Config F) (coordinator : σ) {es : List (Action F)}
    (hrun : Trace (Guarded (fun s a => noStranding P s a = true) (StepOf (step P)))
      (System.build config coordinator) es s)
    {job : Job F} {since : ℕ} (hn : s.handlers.get? n = some (.waiting job since none))
    (halive : s.senderAlive n = true) :
    (∃ item ∈ Scheduler.queued s.scheduler, item.request = job.request) ∨
      s.InHand n job.request := by
  have h : Attended s := hrun.invariant (attended_build config coordinator)
    fun h hs => h.step hs.1 hs.2
  rcases Bool.or_eq_true_iff.mp halive with hlisted | hcarried
  · obtain ⟨p, hp, hw⟩ := List.any_eq_true.mp hlisted
    obtain ⟨id, hp⟩ := OrdMap.mem_values.mp hp
    have hw : p.waiter = n := of_decide_eq_true hw
    rw [← hw] at hn
    rw [(h.linked.listed id p hp).2.request_eq hn]
    exact (h.seen _ _ (.listed hp hn)).imp_right Or.inl
  · obtain ⟨⟨req, p⟩, hp, hw⟩ := (Option.any_eq_true _ _).mp hcarried
    have hw : p.waiter = n := of_decide_eq_true hw
    refine Or.inr (Or.inr ⟨req, p, hp, hw, ?_⟩)
    rw [← hw] at hn
    exact ((h.linked.carried req p hp).2.request_eq hn).symm

end Steps

/-- A second request of a tenant that may have one in flight: it is refused
and queues. -/
def queuesBehind : List (Action ℚ) :=
  admits 0 (sampleArrival 1 2) ++ begins 1 (sampleArrival 2 2) ++ goOn 1 1

/-- It waits, and the dispatcher puts it back after a first try. -/
def putBack : List (Action ℚ) := queuesBehind ++ goOn 1 1 ++ List.replicate 8 .dispatch

/-- The waiter of that run is attended. -/
theorem no_stranded_waiter_put_back :
    ∃ s job since, Trace (Guarded
        (fun s a => noStranding (Params.inMemory (Config.minimal .enforce [])) s a = true)
        (StepOf (step (Params.inMemory (Config.minimal .enforce [])))))
        (System.build (Config.minimal .enforce []) ∅) putBack s ∧
      s.handlers.get? 1 = some (.waiting job since none) ∧ s.senderAlive 1 = true ∧
      ((∃ item ∈ Scheduler.queued s.scheduler, item.request = job.request) ∨
        s.InHand 1 job.request) := by
  have hrun : (putBack.foldlM
      (fun s a => if noStranding (Params.inMemory (Config.minimal .enforce [])) s a
        then step (Params.inMemory (Config.minimal .enforce [])) s a else none)
      (System.build (Config.minimal .enforce []) ∅)).any
      (fun s => (s.handlers.get? 1).any (·.unanswered.isSome) && s.senderAlive 1) = true := by
    decide +kernel
  obtain ⟨s, htrace, hend⟩ := Trace.exists_guarded_of_any hrun
  obtain ⟨hwaits, halive⟩ := Bool.and_eq_true_iff.mp hend
  obtain ⟨phase, hphase, hsome⟩ := (Option.any_eq_true _ _).mp hwaits
  obtain ⟨job, since, rfl⟩ := Phase.eq_waiting hsome
  exact ⟨s, job, since, htrace, hphase, halive, no_stranded_waiter _ _ htrace hphase halive⟩

/-- The dispatcher pops the request before its handler has listed the entry,
finds none and drops it. -/
def poppedEarly : List (Action ℚ) := queuesBehind ++ List.replicate 3 .dispatch ++ goOn 1 1

/-- **A request popped too early is lost.** Its handler waits with its
sender alive, no request is queued, and the dispatcher is idle. -/
theorem popped_early_strands :
    ∃ s job since, Trace (StepOf (step (Params.inMemory (Config.minimal .enforce []))))
        (System.build (Config.minimal .enforce []) ∅) poppedEarly s ∧
      s.handlers.get? 1 = some (.waiting job since none) ∧ s.senderAlive 1 = true ∧
      Scheduler.queued s.scheduler = [] ∧ s.dispatcher = .idle := by
  have hrun : (poppedEarly.foldlM (step (Params.inMemory (Config.minimal .enforce [])))
      (System.build (Config.minimal .enforce []) ∅)).any
      (fun s => ((s.handlers.get? 1).any (·.unanswered.isSome) && s.senderAlive 1) &&
        ((Scheduler.queued s.scheduler).isEmpty && s.dispatcher.isIdle)) = true := by
    decide +kernel
  obtain ⟨s, htrace, hend⟩ := Trace.exists_of_any hrun
  obtain ⟨hhandler, hlost⟩ := Bool.and_eq_true_iff.mp hend
  obtain ⟨hwaits, halive⟩ := Bool.and_eq_true_iff.mp hhandler
  obtain ⟨hempty, hidle⟩ := Bool.and_eq_true_iff.mp hlost
  obtain ⟨phase, hphase, hsome⟩ := (Option.any_eq_true _ _).mp hwaits
  obtain ⟨job, since, rfl⟩ := Phase.eq_waiting hsome
  exact ⟨s, job, since, htrace, hphase, halive, List.isEmpty_iff.mp hempty,
    DispatchPhase.eq_idle hidle⟩

end Proxy

end InferQos
