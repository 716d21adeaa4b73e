import InferQos.Proxy.Waiting
import InferQos.Scheduler.Selection
import InferQos.Scheduler.Turns
/-!
# An iteration of the dispatcher that admits nothing

The dispatcher pops a request, tries to admit it and, where there is no
room, enqueues it again. Between the pop and the put-back the other tasks
enqueue and cancel as they like. `put_back_unharmed_iff` says when the
request is left as it was. With the other tasks at rest, an iteration is a
round in the sense of `Scheduler.Retried`, and `dispatcher_tries_all_iff`
reads off the state they start from whether as many iterations as there are
requests try every one of them.
-/

namespace InferQos

namespace Proxy

variable {F σ : Type}

section Iterations

variable [Arith F] {P : Params F σ} {s t u : System F σ} {e : Effect F σ}
variable {req r : AdmissionRequest F} {p : Pending F}

/-! ## The scheduler along a run -/

theorem Effect.apply_scheduler : (e.apply P s).scheduler = s.scheduler ∨
    ∃ op, (e.apply P s).scheduler = (Scheduler.apply P.scheduler s.scheduler ⟨s.now, op⟩).2 := by
  cases e with
  | schedule op => exact Or.inr ⟨op, rfl⟩
  | _ => exact Or.inl rfl

/-- **A step calls the scheduler once or not at all.** -/
theorem scheduler_step {a : Action F} (h : step P s a = some t) : t.scheduler = s.scheduler ∨
    ∃ op, t.scheduler = (Scheduler.apply P.scheduler s.scheduler ⟨s.now, op⟩).2 := by
  cases stepped h with
  | @handler n choice phase m hphase hm => exact Effect.apply_scheduler (s := s.bump m.counter)
  | @dispatch m hm => exact Effect.apply_scheduler (s := s.bump m.counter)
  | _ => exact Or.inl rfl

/-- The scheduler stands where a sequence of calls has taken it. -/
def Scheduled (P : Params F σ) (s : System F σ) : Prop :=
  ∃ calls, s.scheduler = Scheduler.exec P.scheduler calls

theorem scheduled_build (config : Config F) (coordinator : σ) :
    Scheduled P (System.build config coordinator) := ⟨[], rfl⟩

theorem Scheduled.step {a : Action F} (h : Scheduled P s) (hs : step P s a = some t) :
    Scheduled P t := by
  obtain ⟨calls, hcalls⟩ := h
  rcases scheduler_step hs with hsame | ⟨op, hop⟩
  · exact ⟨calls, hsame.trans hcalls⟩
  · exact ⟨calls ++ [⟨s.now, op⟩], by rw [hop, hcalls, Scheduler.exec_snoc]⟩

/-- **It stands so in every state of a run.** -/
theorem scheduled_of_run {config : Config F} {coordinator : σ} {es : List (Action F)}
    (h : Trace (StepOf (step P)) (System.build config coordinator) es t) : Scheduled P t :=
  h.invariant (scheduled_build config coordinator) fun h hs => h.step hs

theorem Scheduled.keyed (h : Scheduled P s) : Scheduler.Keyed s.scheduler := by
  obtain ⟨calls, hcalls⟩ := h
  rw [hcalls]
  exact Scheduler.exec_keyed P.scheduler calls

theorem Scheduled.stamped (h : Scheduled P s) : Scheduler.Stamped s.scheduler := by
  obtain ⟨calls, hcalls⟩ := h
  rw [hcalls]
  exact Scheduler.exec_stamped P.scheduler calls

/-- **The scheduler has accepted no more requests than the run has steps.** -/
theorem numbered_of_run {config : Config F} {coordinator : σ} {es : List (Action F)}
    (h : Trace (StepOf (step P)) (System.build config coordinator) es t)
    (hroom : es.length < 2 ^ 64) :
    ∃ n ≤ es.length, Scheduler.Numbered n t.scheduler := by
  have hcalls : ∃ calls, calls.length ≤ es.length ∧
      t.scheduler = Scheduler.exec P.scheduler calls := by
    refine h.history (P := fun es t => ∃ calls, calls.length ≤ es.length ∧
      t.scheduler = Scheduler.exec P.scheduler calls) ⟨[], le_rfl, rfl⟩ ?_
    rintro es t a u ⟨calls, hlen, hsched⟩ hs
    rw [List.length_append, List.length_singleton]
    rcases scheduler_step hs with hsame | ⟨op, hop⟩
    · exact ⟨calls, by omega, hsame.trans hsched⟩
    · refine ⟨calls ++ [⟨t.now, op⟩], ?_, by rw [hop, hsched, Scheduler.exec_snoc]⟩
      rw [List.length_append, List.length_singleton]
      omega
  obtain ⟨calls, hlen, hsched⟩ := hcalls
  have hle := Scheduler.acceptances_history_le P.scheduler calls
  rw [hsched]
  exact ⟨_, hle.trans hlen, Scheduler.exec_numbered P.scheduler (by omega)⟩

/-! ## The steps of an iteration -/

/-- The request of an attempt under way: popped, and neither admitted nor
turned away yet. -/
def DispatchPhase.attempting : DispatchPhase F → Option (AdmissionRequest F)
  | popped req => some req
  | holding req _ => some req
  | entering req _ _ => some req
  | charging req _ _ => some req
  | reserving req _ _ _ _ => some req
  | leaving req (some _) => some req
  | retry req _ => some req
  | _ => none

/-- The only step of the dispatcher is its move. -/
theorem step_dispatch {d : DispatchPhase F} {m : Move F σ (DispatchPhase F)}
    (hd : s.dispatcher = d) (hm : d.move P s = some m) (h : step P s .dispatch = some t) :
    t = { m.effect.apply P (s.bump m.counter) with dispatcher := m.next } := by
  cases stepped h with
  | dispatch hm' =>
    rw [hd, hm] at hm'
    cases hm'
    rfl

/-- `pop_next` and what it returns. -/
theorem step_ticked (hd : s.dispatcher = .ticked) (h : step P s .dispatch = some t) :
    t = { s with
      scheduler := (Scheduler.popNext P.scheduler s.now s.scheduler).2
      dispatcher := .afterPop (Scheduler.popNext P.scheduler s.now s.scheduler).1 } :=
  step_dispatch hd rfl h

omit [Arith F] in
theorem DispatchPhase.popped_of_afterPop {result : Except String (Option (AdmissionRequest F))}
    (h : afterPop result = popped req) : result = .ok (some req) := by
  unfold afterPop at h
  split at h
  · cases h
    rfl
  · cases h
  · cases h

/-- The put-back. -/
theorem step_requeueing (hd : s.dispatcher = .requeueing req p) (h : step P s .dispatch = some t) :
    t = { s with
      scheduler := (Scheduler.enqueue P.scheduler s.now s.scheduler p.request p.bodyBytes
        p.classWeight p.tenantWeight p.appWeight).2
      dispatcher := .reinserting req p } :=
  step_dispatch hd rfl h

/-! ## What a failed attempt costs -/

/-- **An iteration that puts its request back.** It pops `req` in `start`
and enqueues the request of its entry again in `back`; in between any task
moves. -/
structure PutBack (P : Params F σ) where
  req : AdmissionRequest F
  entry : Pending F
  start : System F σ
  held : System F σ
  back : System F σ
  after : System F σ
  mid : List (Action F)
  ticked : start.dispatcher = .ticked
  pop : step P start .dispatch = some held
  popped : held.dispatcher = .popped req
  attempt : Trace (Guarded (fun w _ => w.dispatcher.attempting = some req) (StepOf (step P)))
    held mid back
  refused : back.dispatcher = .requeueing req entry
  accepted : (Scheduler.enqueue P.scheduler back.now back.scheduler entry.request entry.bodyBytes
    entry.classWeight entry.tenantWeight entry.appWeight).1.isOk = true
  put : step P back .dispatch = some after

namespace PutBack

variable (it : PutBack P)

theorem popNext_eq :
    (Scheduler.popNext P.scheduler it.start.now it.start.scheduler).1 = .ok (some it.req) := by
  have h := it.popped
  rw [step_ticked it.ticked it.pop] at h
  exact DispatchPhase.popped_of_afterPop h

theorem after_eq : it.after =
    { it.back with
      scheduler := (Scheduler.enqueue P.scheduler it.back.now it.back.scheduler it.entry.request
        it.entry.bodyBytes it.entry.classWeight it.entry.tenantWeight it.entry.appWeight).2
      dispatcher := .reinserting it.req it.entry } :=
  step_requeueing it.refused it.put

end PutBack

/-- **A put-back leaves the request as it was in one case only**: when it
puts back the very request, at the clock reading of its enqueue, into a
queue that has gone since the pop and had never been charged. -/
theorem put_back_unharmed_iff (config : Config F) (coordinator : σ) {es : List (Action F)}
    (it : PutBack P)
    (hreach : Trace (StepOf (step P)) (System.build config coordinator) es it.start) :
    Scheduler.Unharmed it.start.scheduler it.after.scheduler it.req ↔
      it.entry.request = it.req ∧
        (Scheduler.itemsIn it.start.scheduler.queues (Scheduler.queueKey it.req)).head?.map
          (·.enqueuedNs) = some it.back.now ∧
        Scheduler.itemsIn it.back.scheduler.queues (Scheduler.queueKey it.req) = [] ∧
        Scheduler.charge it.start.scheduler (Scheduler.queueKey it.req) = some (Arith.lit 0) := by
  have hlinked : Linked it.back := by
    have hs : Linked it.start :=
      hreach.invariant (linked_build config coordinator) fun h hs => h.step hs
    exact it.attempt.invariant (hs.step it.pop) fun h hs => h.step hs.2
  have hsched : Scheduled P it.start := scheduled_of_run hreach
  have hsched' : Scheduled P it.back :=
    it.attempt.invariant (hsched.step it.pop) fun h hs => h.step hs.2
  have hid : it.entry.request.id = it.req.id :=
    (hlinked.carried it.req it.entry (by rw [it.refused]; rfl)).1
  obtain ⟨depth, hok⟩ := Scheduler.exists_of_isOk it.accepted
  rw [it.after_eq]
  exact Scheduler.unharmed_iff hsched.keyed hsched.stamped hsched'.keyed it.popNext_eq hid hok

/-! ### Runs of it -/

namespace DispatchPhase

/-- The dispatcher is about to pop. -/
def isTicked : DispatchPhase F → Bool
  | ticked => true
  | _ => false

/-- The request and the entry of a put-back about to happen. -/
def returning : DispatchPhase F → Option (AdmissionRequest F × Pending F)
  | requeueing req p => some (req, p)
  | _ => none

/-- The request just popped. -/
def justPopped : DispatchPhase F → Option (AdmissionRequest F)
  | popped req => some req
  | _ => none

end DispatchPhase

/-- An iteration that goes this way, read off its run: the entry, and the
states before and after its put-back. -/
def putBackRun [DecidableEq F] (P : Params F σ) (req : AdmissionRequest F) (mid : List (Action F))
    (s : System F σ) : Option (Pending F × System F σ × System F σ) := do
  guard (s.dispatcher.isTicked = true)
  let held ← step P s .dispatch
  guard (held.dispatcher.justPopped = some req)
  let back ← mid.foldlM
    (fun w a => if w.dispatcher.attempting = some req then step P w a else none) held
  let (req', p) ← back.dispatcher.returning
  guard (req' = req ∧ (Scheduler.enqueue P.scheduler back.now back.scheduler p.request p.bodyBytes
    p.classWeight p.tenantWeight p.appWeight).1.isOk = true)
  let after ← step P back .dispatch
  some (p, back, after)

theorem exists_putBack [DecidableEq F] {mid : List (Action F)}
    (h : putBackRun P req mid s = some (p, u, t)) :
    ∃ it : PutBack P, it.start = s ∧ it.req = req ∧ it.entry = p ∧ it.mid = mid ∧ it.back = u ∧
      it.after = t := by
  simp only [putBackRun, Option.bind_eq_bind, Option.bind_eq_some_iff, Option.guard_eq_some',
    Option.some.injEq, Prod.mk.injEq] at h
  obtain ⟨-, hticked, held, hpop, -, hpopped, back, hmid, ⟨req', p'⟩, hback, -, ⟨rfl, hok⟩, after,
    hput, rfl, rfl, rfl⟩ := h
  have hattempt : Trace (Guarded (fun w _ => w.dispatcher.attempting = some req')
      (StepOf (step P))) held mid back := by
    refine Trace.of_foldlM (fun {t a u} hs => ?_) hmid
    split at hs
    · exact ⟨‹_›, hs⟩
    · cases hs
  refine ⟨⟨req', p', s, held, back, after, mid, ?_, hpop, ?_, hattempt, ?_, hok, hput⟩, rfl, rfl, rfl,
    rfl, rfl, rfl⟩
  · cases hd : s.dispatcher with
    | ticked => rfl
    | _ => simp [hd, DispatchPhase.isTicked] at hticked
  · cases hd : held.dispatcher with
    | popped req => simpa [hd, DispatchPhase.justPopped] using hpopped
    | _ => simp [hd, DispatchPhase.justPopped] at hpopped
  · cases hd : back.dispatcher with
    | requeueing req p => simpa [hd, DispatchPhase.returning] using hback
    | _ => simp [hd, DispatchPhase.returning] at hback

/-- The request of the sample runs that waits behind another. -/
def waitingRequest (id : Uuid) : AdmissionRequest ℚ := { (sampleJob .enforce).request with id := id }

/-- One request waits, and the dispatcher is about to pop. -/
def oneWaits : List (Action ℚ) := queuesBehind ++ goOn 1 1 ++ [.dispatch]

/-- Put back at the clock reading of its enqueue, with its queue to itself,
the request is left as it was. -/
theorem put_back_unharmed_at_once :
    ∃ it : PutBack (Params.inMemory (Config.minimal .enforce [])),
      Trace (StepOf (step (Params.inMemory (Config.minimal .enforce []))))
        (System.build (Config.minimal .enforce []) ∅) oneWaits it.start ∧
      Scheduler.Unharmed it.start.scheduler it.after.scheduler it.req := by
  have hrun : (oneWaits.foldlM (step (Params.inMemory (Config.minimal .enforce [])))
      (System.build (Config.minimal .enforce []) ∅)).any
      (fun s => (putBackRun (Params.inMemory (Config.minimal .enforce [])) (waitingRequest 2)
          (List.replicate 4 .dispatch) s).any fun (p, back, _) =>
        p.request = waitingRequest 2 ∧
          (Scheduler.itemsIn s.scheduler.queues (Scheduler.queueKey (waitingRequest 2))).head?.map
            (·.enqueuedNs) = some back.now ∧
          (Scheduler.itemsIn back.scheduler.queues
            (Scheduler.queueKey (waitingRequest 2))).isEmpty ∧
          Scheduler.charge s.scheduler (Scheduler.queueKey (waitingRequest 2)) = some 0) = true := by
    decide +kernel
  obtain ⟨s, htrace, hend⟩ := Trace.exists_of_any hrun
  obtain ⟨⟨p, back, after⟩, hput, hend⟩ := (Option.any_eq_true _ _).mp hend
  obtain ⟨hsame, hnow, hempty, hcharge⟩ := of_decide_eq_true hend
  obtain ⟨it, rfl, hreq, rfl, -, rfl, -⟩ := exists_putBack hput
  refine ⟨it, htrace, (put_back_unharmed_iff _ _ it htrace).mpr ?_⟩
  rw [hreq]
  exact ⟨hsame, hnow, List.isEmpty_iff.mp hempty, hcharge⟩

/-- Two requests wait in one queue, and the dispatcher is about to pop. -/
def bothWait : List (Action ℚ) :=
  queuesBehind ++ goOn 1 1 ++ begins 2 (sampleArrival 3 2) ++ goOn 2 2 ++ [.dispatch]

/-- **Five nanoseconds later it is put back as a new request.** Its enqueue
time and its deadline have moved, the request enqueued after it is ahead of
it, and its queue is charged for work that was not admitted. -/
theorem put_back_loses_its_place :
    ∃ it : PutBack (Params.inMemory (Config.minimal .enforce [])),
      Trace (StepOf (step (Params.inMemory (Config.minimal .enforce []))))
        (System.build (Config.minimal .enforce []) ∅) bothWait it.start ∧
      it.entry.request = it.req ∧
      (Scheduler.itemsIn it.start.scheduler.queues (Scheduler.queueKey it.req)).map
        (fun q => (q.request.id, q.enqueuedNs, q.deadlineNs)) =
          [(2, 0, 30000000000), (3, 0, 30000000000)] ∧
      (Scheduler.itemsIn it.after.scheduler.queues (Scheduler.queueKey it.req)).map
        (fun q => (q.request.id, q.enqueuedNs, q.deadlineNs)) =
          [(3, 0, 30000000000), (2, 5, 30000000005)] ∧
      Scheduler.charge it.start.scheduler (Scheduler.queueKey it.req) = some 0 ∧
      Scheduler.charge it.after.scheduler (Scheduler.queueKey it.req) = some 2 ∧
      ¬ Scheduler.Unharmed it.start.scheduler it.after.scheduler it.req := by
  have hrun : (bothWait.foldlM (step (Params.inMemory (Config.minimal .enforce [])))
      (System.build (Config.minimal .enforce []) ∅)).any
      (fun s => (putBackRun (Params.inMemory (Config.minimal .enforce [])) (waitingRequest 2)
          (.advance 5 :: List.replicate 4 .dispatch) s).any fun (p, _, after) =>
        p.request = waitingRequest 2 ∧
          (Scheduler.itemsIn s.scheduler.queues (Scheduler.queueKey (waitingRequest 2))).map
            (fun q => (q.request.id, q.enqueuedNs, q.deadlineNs)) =
              [(2, 0, 30000000000), (3, 0, 30000000000)] ∧
          (Scheduler.itemsIn after.scheduler.queues (Scheduler.queueKey (waitingRequest 2))).map
            (fun q => (q.request.id, q.enqueuedNs, q.deadlineNs)) =
              [(3, 0, 30000000000), (2, 5, 30000000005)] ∧
          Scheduler.charge s.scheduler (Scheduler.queueKey (waitingRequest 2)) = some 0 ∧
          Scheduler.charge after.scheduler (Scheduler.queueKey (waitingRequest 2)) = some 2) =
      true := by
    decide +kernel
  obtain ⟨s, htrace, hend⟩ := Trace.exists_of_any hrun
  obtain ⟨⟨p, back, after⟩, hput, hend⟩ := (Option.any_eq_true _ _).mp hend
  obtain ⟨hsame, hbefore, hafter, hcharge, hcharge'⟩ := of_decide_eq_true hend
  obtain ⟨it, rfl, hreq, rfl, -, -, rfl⟩ := exists_putBack hput
  rw [← hreq] at hsame hbefore hafter hcharge hcharge'
  refine ⟨it, htrace, hsame, hbefore, hafter, hcharge, hcharge', ?_⟩
  rintro ⟨old, new, rest, rest', -, -, -, -, -, -, hsame⟩
  rw [hcharge, hcharge'] at hsame
  exact absurd (Option.some.inj hsame) (by decide)

/-! ## Iterations with the other tasks at rest -/

theorem step_idle (hd : s.dispatcher = .idle) (h : step P s .dispatch = some t) :
    t = { s with dispatcher := .ticked } ∨ t = { s with dispatcher := .exited } := by
  cases stepped h with
  | dispatch hm =>
    rw [hd] at hm
    simp only [DispatchPhase.move] at hm
    split at hm
    · cases hm
      exact Or.inr rfl
    · cases hm
      exact Or.inl rfl

theorem step_reinserting (hd : s.dispatcher = .reinserting req p)
    (h : step P s .dispatch = some t) :
    t = { s with pending := s.pending.insert req.id p, dispatcher := .idle } :=
  step_dispatch hd rfl h

omit [Arith F] in
theorem DispatchPhase.afterReserve_ne_popped (config : Config F) (charged : F)
    (at_ : ReservePhase F) : afterReserve req p config charged at_ ≠ popped r := by
  unfold afterReserve
  split <;> exact nofun

omit [Arith F] in
theorem DispatchPhase.afterLeave_ne_popped (q : Option (Pending F)) :
    afterLeave req q ≠ popped r := by
  cases q <;> exact nofun

/-- **An attempt leaves the scheduler and the clock alone**, and takes one
entry from `pending`: its own, at its first step. -/
theorem DispatchPhase.move_attempting {d : DispatchPhase F} {m : Move F σ (DispatchPhase F)}
    (h : d.move P s = some m) (hd : d.attempting = some req) :
    (∀ t : System F σ, (m.effect.apply P t).scheduler = t.scheduler ∧
        (m.effect.apply P t).now = t.now) ∧
      (∀ r, m.next ≠ popped r) ∧
      ((d = popped req ∧ m.effect = .unlist req.id) ∨
        (∀ r, d = popped r → m.next = idle) ∧
          ∀ t : System F σ, (m.effect.apply P t).pending = t.pending) := by
  revert h hd
  fun_cases DispatchPhase.move P s d <;> intro h hd <;> cases h
  all_goals first
    | simp [attempting] at hd; done
    | refine ⟨fun t => ⟨rfl, rfl⟩, fun r => ?_, ?_⟩
  all_goals first
    | exact afterReserve_ne_popped _ _ _
    | exact afterLeave_ne_popped _
    | exact Or.inr ⟨fun _ _ => rfl, fun t => rfl⟩
    | refine Or.inr ⟨fun r hr => ?_, fun t => rfl⟩
      cases hr
    | cases hd
      exact Or.inl ⟨rfl, rfl⟩
    | simp

/-- **One iteration of the dispatcher, nothing else moving**, in which `r`
is popped, refused and enqueued again as it was. -/
def Refuses (P : Params F σ) (s : System F σ) (r : AdmissionRequest F) (t : System F σ) : Prop :=
  ∃ it : PutBack P, s.dispatcher = .idle ∧ step P s .dispatch = some it.start ∧
    (∀ a ∈ it.mid, a = .dispatch) ∧ it.req = r ∧ it.entry.request = r ∧
    step P it.after .dispatch = some t

/-- The arguments of the entries of `pending`. -/
def System.enqueueArgs (s : System F σ) (id : Uuid) : Scheduler.EnqueueArgs :=
  (s.pending.get? id).elim ⟨0, 1, 1, 1⟩ fun p =>
    ⟨p.bodyBytes, p.classWeight, p.tenantWeight, p.appWeight⟩

/-- What an attempt that took its entry from `pending` keeps. -/
structure Attempting (u w : System F σ) (r : AdmissionRequest F) : Prop where
  scheduler : w.scheduler = u.scheduler
  now : w.now = u.now
  popped : ∀ req, w.dispatcher = .popped req → w.pending = u.pending
  carried : ∀ req p, w.dispatcher.pair? = some (req, p) →
    req = r ∧ u.pending.get? r.id = some p ∧ w.pending = u.pending.erase r.id

theorem Attempting.step {w w' : System F σ} (h : Attempting u w r)
    (hr : w.dispatcher.attempting = some r) (hs : step P w .dispatch = some w') :
    Attempting u w' r := by
  cases stepped hs with
  | @dispatch m hm =>
    obtain ⟨hsame, hnext, hpending⟩ := DispatchPhase.move_attempting hm hr
    obtain ⟨hsched, hnow⟩ := hsame (w.bump m.counter)
    refine ⟨hsched.trans h.scheduler, hnow.trans h.now, fun req hreq => absurd hreq (hnext req),
      fun req p hp => ?_⟩
    rcases DispatchPhase.move_pair hm hp with hp' | ⟨hd, hget⟩
    · -- carried before
      obtain ⟨rfl, hget, hw⟩ := h.carried req p hp'
      rcases hpending with ⟨hd, -⟩ | ⟨-, hkeep⟩
      · rw [hd] at hp'
        cases hp'
      · exact ⟨rfl, hget, (hkeep _).trans hw⟩
    · -- just taken from the table
      rcases hpending with ⟨hd', he⟩ | ⟨hidle, -⟩
      · rw [hd] at hd'
        cases hd'
        have hw := h.popped r hd
        refine ⟨rfl, hw ▸ hget, ?_⟩
        simp only [he, Effect.apply, System.bump, hw]
      · change m.next.pair? = some (req, p) at hp
        rw [hidle req hd] at hp
        cases hp

/-- Nothing else moves during the attempt. -/
theorem PutBack.attempting (it : PutBack P) (h : ∀ a ∈ it.mid, a = .dispatch) :
    Attempting it.held it.back it.req := by
  refine it.attempt.history (P := fun mid w => (∀ a ∈ mid, a = .dispatch) →
    Attempting it.held w it.req) ?_ ?_ h
  · refine fun _ => ⟨rfl, rfl, fun _ _ => rfl, fun req p hp => ?_⟩
    rw [it.popped] at hp
    cases hp
  · rintro mid w a w' ih ⟨hreq, hs⟩ hall
    obtain rfl := hall a (List.mem_append_right _ (List.mem_singleton_self a))
    exact (ih fun b hb => hall b (List.mem_append_left _ hb)).step hreq hs

/-- **An iteration with the other tasks at rest is a round of the
scheduler**, with the arguments of the entry, and leaves the clock and the
entries as they were. -/
theorem Refuses.retried (h : Refuses P s r t) :
    Scheduler.Retried P.scheduler s.now s.enqueueArgs s.scheduler r t.scheduler ∧
      t.now = s.now ∧ ∀ id, t.pending.get? id = s.pending.get? id := by
  obtain ⟨it, hidle, htick, hmid, rfl, hsame, hlist⟩ := h
  have hstart : it.start = { s with dispatcher := .ticked } := by
    rcases step_idle hidle htick with hs | hs
    · exact hs
    · have hticked := it.ticked
      rw [hs] at hticked
      cases hticked
  have hheld := step_ticked it.ticked it.pop
  have hback : Attempting it.held it.back it.req := it.attempting hmid
  obtain ⟨-, hentry, hpending⟩ := hback.carried it.req it.entry (by rw [it.refused]; rfl)
  have hnow : it.back.now = s.now := by rw [hback.now, hheld, hstart]
  have hsched : it.back.scheduler = (Scheduler.popNext P.scheduler s.now s.scheduler).2 := by
    rw [hback.scheduler, hheld, hstart]
  have hheld' : it.held.pending = s.pending := by rw [hheld, hstart]
  have hargs : s.enqueueArgs it.req.id = ⟨it.entry.bodyBytes, it.entry.classWeight,
      it.entry.tenantWeight, it.entry.appWeight⟩ := by
    rw [System.enqueueArgs, ← hheld', hentry]
    rfl
  have hpop := it.popNext_eq
  have hok := it.accepted
  have ht := step_reinserting (by rw [it.after_eq]) hlist
  rw [hnow, hsched, hsame] at hok
  rw [hstart] at hpop
  refine ⟨⟨hpop, by rw [hargs]; exact hok, ?_⟩, ?_, fun id => ?_⟩
  · rw [ht, it.after_eq, hargs]
    change (Scheduler.enqueue P.scheduler it.back.now it.back.scheduler _ _ _ _ _).2 = _
    rw [hnow, hsched, hsame]
  · rw [ht, it.after_eq]
    exact hnow
  · rw [ht, it.after_eq]
    change (it.back.pending.insert it.req.id it.entry).get? id = _
    rw [hpending, OrdMap.get?_insert, OrdMap.get?_erase, ← hheld']
    split
    · rename_i hid
      rw [hid, hentry]
    · rfl

/-- Iterations are rounds. -/
theorem retried_of_refuses {rs : List (AdmissionRequest F)} (h : Trace (Refuses P) s rs t) :
    Trace (Scheduler.Retried P.scheduler s.now s.enqueueArgs) s.scheduler rs t.scheduler ∧
      t.now = s.now ∧ ∀ id, t.pending.get? id = s.pending.get? id := by
  refine h.history (P := fun rs t =>
    Trace (Scheduler.Retried P.scheduler s.now s.enqueueArgs) s.scheduler rs t.scheduler ∧
      t.now = s.now ∧ ∀ id, t.pending.get? id = s.pending.get? id)
    ⟨Trace.nil, rfl, fun _ => rfl⟩ ?_
  rintro rs t r u ⟨htrace, hnow, hpending⟩ hstep
  obtain ⟨hround, hnow', hpending'⟩ := hstep.retried
  have hargs : t.enqueueArgs = s.enqueueArgs := by
    funext id
    rw [System.enqueueArgs, System.enqueueArgs, hpending]
  rw [hnow, hargs] at hround
  exact ⟨htrace.snoc hround, hnow'.trans hnow, fun id => (hpending' id).trans (hpending id)⟩

/-- An iteration that refuses `r` in `k` steps between the pop and the
put-back, read off its run. -/
def refuseRun [DecidableEq F] (P : Params F σ) (k : ℕ) (s : System F σ) (r : AdmissionRequest F) :
    Option (System F σ) := do
  guard (s.dispatcher.isIdle = true)
  let start ← step P s .dispatch
  let (p, _, after) ← putBackRun P r (List.replicate k .dispatch) start
  guard (p.request = r)
  step P after .dispatch

theorem refuses_of_run [DecidableEq F] {k : ℕ} (h : refuseRun P k s r = some t) :
    Refuses P s r t := by
  simp only [refuseRun, Option.bind_eq_bind, Option.bind_eq_some_iff, Option.guard_eq_some'] at h
  obtain ⟨-, hidle, start, htick, ⟨p, back, after⟩, hput, -, hsame, hlist⟩ := h
  obtain ⟨it, rfl, rfl, rfl, hmid, -, rfl⟩ := exists_putBack hput
  refine ⟨it, DispatchPhase.eq_idle hidle, htick, fun a ha => ?_, rfl, hsame, hlist⟩
  rw [hmid] at ha
  exact List.eq_of_mem_replicate ha

end Iterations

section Standstill

variable [OrderedArith F] [Std.TransCmp (Arith.totalCmp : F → F → Ordering)]
variable {P : Params F σ} {s t : System F σ}

/-- **When the dispatcher tries every request.** From a reachable state with
no renormalisation near, with nothing but the dispatcher moving, as many
iterations as there are queued requests, each of which refuses its request
and enqueues it again, try every one of them exactly when in that state the
turn ranked last is ahead of every other queue that comes again. -/
theorem dispatcher_tries_all_iff (config : Config F) (coordinator : σ) {es : List (Action F)}
    {rs : List (AdmissionRequest F)}
    (hreach : Trace (StepOf (step P)) (System.build config coordinator) es s)
    (hlow : Scheduler.NoneLowered P.scheduler s.scheduler) (hrun : Trace (Refuses P) s rs t)
    (hlen : rs.length = (Scheduler.queued s.scheduler).length)
    (hroom : es.length + rs.length < 2 ^ 64) :
    (∀ item ∈ Scheduler.queued s.scheduler, item.request ∈ rs) ↔
      Scheduler.LastTurnAhead P.scheduler s.now s.enqueueArgs s.scheduler := by
  have hsched : Scheduled P s := scheduled_of_run hreach
  obtain ⟨n, hn, hnum⟩ := numbered_of_run hreach (by omega)
  have hseq := hnum.sequence
  exact Scheduler.tries_all_iff hsched.keyed hlow (fun it hit => hseq ▸ hnum.le it hit)
    (retried_of_refuses hrun).1 hlen (by omega)

end Standstill

/-! ### Runs of it -/

/-- A request of a tenant. -/
def requestOf (id : Uuid) (tenant : String) : AdmissionRequest ℚ :=
  { waitingRequest id with identity := ⟨"principal", tenant, "app", true⟩ }

/-- It arrives at handler `n` while its application is busy, and waits. -/
def waitsFor (n : ℕ) (id : Uuid) (tenant : String) : List (Action ℚ) :=
  begins n { sampleArrival id 2 with identity := ⟨"principal", tenant, "app", true⟩ } ++ goOn n 2

/-- Requests of two tenants wait behind one in flight. -/
def tenantsWait : List (Action ℚ) :=
  admits 0 (sampleArrival 1 2) ++ waitsFor 1 2 "light" ++ waitsFor 2 3 "heavy"

/-- With equal weights, both requests are tried, and the one tried last is
ahead of the other, which comes again. -/
theorem dispatcher_tries_both :
    ∃ s t, Trace (StepOf (step (Params.inMemory (Config.minimal .enforce []))))
        (System.build (Config.minimal .enforce []) ∅) tenantsWait s ∧
      Trace (Refuses (Params.inMemory (Config.minimal .enforce []))) s
        [requestOf 2 "light", requestOf 3 "heavy"] t ∧
      (Scheduler.queued s.scheduler).map (·.request) =
        [requestOf 3 "heavy", requestOf 2 "light"] ∧
      Scheduler.NoneLowered (Params.inMemory (Config.minimal .enforce [])).scheduler s.scheduler ∧
      Scheduler.LastTurnAhead (Params.inMemory (Config.minimal .enforce [])).scheduler s.now
        s.enqueueArgs s.scheduler := by
  have hrun : (tenantsWait.foldlM (step (Params.inMemory (Config.minimal .enforce [])))
      (System.build (Config.minimal .enforce []) ∅)).any
      (fun s => (Scheduler.queued s.scheduler).map (·.request) =
          [requestOf 3 "heavy", requestOf 2 "light"] &&
        ((s.scheduler.queues.get? (Scheduler.queueKey (requestOf 2 "light"))).any fun q =>
          decide (∀ j ≤ q.items.length, Scheduler.Low (F := ℚ)
            (Params.inMemory (Config.minimal .enforce [])).scheduler (Scheduler.chargeAfter q j))) &&
        ([requestOf 2 "light", requestOf 3 "heavy"].foldlM
          (refuseRun (Params.inMemory (Config.minimal .enforce [])) 4) s).isSome) = true := by
    decide +kernel
  obtain ⟨s, htrace, hend⟩ := Trace.exists_of_any hrun
  obtain ⟨hend, hrounds⟩ := Bool.and_eq_true_iff.mp hend
  obtain ⟨hqueued, hany⟩ := Bool.and_eq_true_iff.mp hend
  have hqueued := of_decide_eq_true hqueued
  obtain ⟨q, hq, hcharges⟩ := (Option.any_eq_true _ _).mp hany
  obtain ⟨t, hrounds⟩ := Option.isSome_iff_exists.mp hrounds
  have hrefuses : Trace (Refuses (Params.inMemory (Config.minimal .enforce []))) s
      [requestOf 2 "light", requestOf 3 "heavy"] t := Trace.of_foldlM refuses_of_run hrounds
  have hlow : Scheduler.NoneLowered (Params.inMemory (Config.minimal .enforce [])).scheduler
      s.scheduler := ⟨by decide +kernel, _, q, hq, of_decide_eq_true hcharges⟩
  have hlen := congrArg List.length hqueued
  rw [List.length_map] at hlen
  refine ⟨s, t, htrace, hrefuses, hqueued, hlow,
    (dispatcher_tries_all_iff _ _ htrace hlow hrefuses hlen.symm (by decide +kernel)).mp
      fun item hitem => ?_⟩
  have hmem := List.mem_map_of_mem (f := (·.request)) hitem
  rw [hqueued] at hmem
  simpa [or_comm] using hmem

/-- **A heavy tenant is tried again and again.** Its weight is a hundred
times the other's; its request is popped, refused and put back into a new
queue that owes nothing, so that two iterations try it twice and the other
request, which came first, not at all. -/
theorem heavy_tenant_is_tried_twice :
    ∃ s t item, Trace (StepOf (step (Params.inMemory
          (Config.minimal .enforce [("heavy", ⟨100, 0, 1, 1⟩)]))))
        (System.build (Config.minimal .enforce [("heavy", ⟨100, 0, 1, 1⟩)]) ∅) tenantsWait s ∧
      Trace (Refuses (Params.inMemory (Config.minimal .enforce [("heavy", ⟨100, 0, 1, 1⟩)]))) s
        [requestOf 3 "heavy", requestOf 3 "heavy"] t ∧
      (Scheduler.queued s.scheduler).length = 2 ∧ item ∈ Scheduler.queued s.scheduler ∧
      item.request ∉ [requestOf 3 "heavy", requestOf 3 "heavy"] := by
  have hrun : (tenantsWait.foldlM (step (Params.inMemory
        (Config.minimal .enforce [("heavy", ⟨100, 0, 1, 1⟩)])))
      (System.build (Config.minimal .enforce [("heavy", ⟨100, 0, 1, 1⟩)]) ∅)).any
      (fun s => (Scheduler.queued s.scheduler).map (·.request) =
          [requestOf 3 "heavy", requestOf 2 "light"] &&
        ([requestOf 3 "heavy", requestOf 3 "heavy"].foldlM (refuseRun (Params.inMemory
          (Config.minimal .enforce [("heavy", ⟨100, 0, 1, 1⟩)])) 4) s).isSome) = true := by
    decide +kernel
  obtain ⟨s, htrace, hend⟩ := Trace.exists_of_any hrun
  obtain ⟨hqueued, hrounds⟩ := Bool.and_eq_true_iff.mp hend
  have hqueued := of_decide_eq_true hqueued
  obtain ⟨t, hrounds⟩ := Option.isSome_iff_exists.mp hrounds
  have hlen := congrArg List.length hqueued
  rw [List.length_map] at hlen
  have hmem : requestOf 2 "light" ∈ (Scheduler.queued s.scheduler).map (·.request) := by
    rw [hqueued]
    simp
  obtain ⟨item, hitem, hreq⟩ := List.mem_map.mp hmem
  refine ⟨s, t, item, htrace, Trace.of_foldlM refuses_of_run hrounds, hlen, hitem, ?_⟩
  rw [hreq]
  decide +kernel

end Proxy

end InferQos
