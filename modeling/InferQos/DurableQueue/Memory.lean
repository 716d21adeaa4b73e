import InferQos.Common.OrdMap
import InferQos.Common.Trace
import InferQos.DurableQueue.Model
/-!
# The queue in memory

`InMemoryDurableQueue` has its jobs under one lock and those in flight
under another, so a `receive` is two steps: it takes a job off the queue,
and then notes it in flight. Any number of clients take such steps in any
order (`Clients.step`). The jobs in flight are kept by an id the producer
chose, and noting one replaces what was noted under its id: an accepted job
is then neither queued nor in flight nor acknowledged.
`memory_queue_conserves_iff` says that this is the only loss.
-/

namespace InferQos

namespace DurableQueue

/-- `InMemoryDurableQueue`. -/
structure InMemoryDurableQueue where
  jobs : List DurableJob
  inFlight : OrdMap JobId DurableJob

namespace InMemoryDurableQueue

/-- `InMemoryDurableQueue::default`. -/
def default : InMemoryDurableQueue := ⟨[], ∅⟩

/-- **`InMemoryDurableQueue::publish`.** -/
def publish (q : InMemoryDurableQueue) (job : DurableJob) :
    Except QueueError Unit × InMemoryDurableQueue :=
  match ensureSize job defaultMaxJobBytes with
  | .error e => (.error e, q)
  | .ok () => (.ok (), { q with jobs := q.jobs ++ [job] })

/-- The first step of `InMemoryDurableQueue::receive`: `pop_front`. -/
def popFront (q : InMemoryDurableQueue) : Option DurableJob × InMemoryDurableQueue :=
  match q.jobs with
  | [] => (none, q)
  | job :: jobs => (some job, { q with jobs := jobs })

/-- Its second step: `in_flight.lock().insert`. -/
def track (q : InMemoryDurableQueue) (job : DurableJob) : InMemoryDurableQueue :=
  { q with inFlight := q.inFlight.insert job.id job }

/-- **`InMemoryDurableQueue::acknowledge`.** -/
def acknowledge (q : InMemoryDurableQueue) (id : JobId) :
    Except QueueError Unit × InMemoryDurableQueue :=
  match q.inFlight.get? id with
  | none => (.error (.unknownDelivery id), q)
  | some _ => (.ok (), { q with inFlight := q.inFlight.erase id })

end InMemoryDurableQueue

/-! ## Clients -/

/-- A step of some client. A `receive` is a `pop`, and a `track` where a
job was popped. -/
inductive Action
  | publish (job : DurableJob)
  | pop (client : ℕ)
  | track (client : ℕ)
  | acknowledge (id : JobId)

/-- **The queue and its clients.** -/
structure Clients where
  queue : InMemoryDurableQueue
  /-- The jobs in the hands of a `receive`. -/
  hands : OrdMap ℕ DurableJob
  /-- The publishes that were accepted. -/
  accepted : ℕ
  /-- The acknowledgements that succeeded. -/
  acknowledged : ℕ

namespace Clients

/-- An empty queue. -/
def start : Clients := ⟨.default, ∅, 0, 0⟩

/-- One step, where it can be taken. -/
def step (s : Clients) : Action → Option Clients
  | .publish job =>
    match s.queue.publish job with
    | (.error _, q) => some { s with queue := q }
    | (.ok (), q) => some { s with queue := q, accepted := s.accepted + 1 }
  | .pop client =>
    -- a client that holds a job is in the middle of its `receive`
    if (s.hands.get? client).isSome then none
    else
      match s.queue.popFront with
      | (none, q) => some { s with queue := q }
      | (some job, q) => some { s with queue := q, hands := s.hands.insert client job }
  | .track client =>
    match s.hands.get? client with
    | none => none
    | some job => some { s with queue := s.queue.track job, hands := s.hands.erase client }
  | .acknowledge id =>
    match s.queue.acknowledge id with
    | (.error _, q) => some { s with queue := q }
    | (.ok (), q) => some { s with queue := q, acknowledged := s.acknowledged + 1 }

/-- The jobs queued, in the hands of a `receive`, in flight, and
acknowledged. -/
def accounted (s : Clients) : ℕ :=
  s.queue.jobs.length + s.hands.entries.length + s.queue.inFlight.entries.length + s.acknowledged

/-- **Nothing is lost.** -/
def Conserved (s : Clients) : Prop := s.accepted = s.accounted

/-- Whether a step notes a job in flight where one of its id is. -/
def overwrites (s : Clients) : Action → Bool
  | .track client => (s.hands.get? client).any fun job => (s.queue.inFlight.get? job.id).isSome
  | _ => false

/-! ## One step -/

variable {s t : Clients} {a : Action}

theorem publish_balance {job : DurableJob} (h : s.step (.publish job) = some t) :
    t.accounted + s.accepted = s.accounted + t.accepted := by
  simp only [step, InMemoryDurableQueue.publish] at h
  cases hsize : ensureSize job defaultMaxJobBytes with
  | error e =>
    rw [hsize] at h
    rw [← Option.some.inj h]
  | ok _ =>
    rw [hsize] at h
    rw [← Option.some.inj h]
    simp only [accounted, List.length_append, List.length_singleton]
    omega

theorem pop_balance {client : ℕ} (h : s.step (.pop client) = some t) :
    t.accounted + s.accepted = s.accounted + t.accepted := by
  simp only [step, InMemoryDurableQueue.popFront] at h
  split at h
  · exact nomatch h
  rename_i hfree
  rw [Bool.not_eq_true, Option.isSome_eq_false_iff, Option.isNone_iff_eq_none] at hfree
  cases hjobs : s.queue.jobs with
  | nil =>
    rw [hjobs] at h
    rw [← Option.some.inj h]
  | cons job jobs =>
    rw [hjobs] at h
    rw [← Option.some.inj h]
    have hhands := (OrdMap.entries_perm_insert s.hands client job).length_eq
    rw [OrdMap.erase_of_get?_eq_none hfree, List.length_cons] at hhands
    simp only [accounted, hhands, hjobs, List.length_cons]
    omega

/-- Noting a job in flight loses one exactly if its id is in flight. -/
theorem track_balance {client : ℕ} (h : s.step (.track client) = some t) :
    t.accounted + s.accepted + (if s.overwrites (.track client) then 1 else 0) =
      s.accounted + t.accepted := by
  simp only [step] at h
  cases hhand : s.hands.get? client with
  | none =>
    rw [hhand] at h
    exact nomatch h
  | some job =>
    rw [hhand] at h
    rw [← Option.some.inj h]
    have hhands := (OrdMap.entries_perm_erase hhand).length_eq
    have hflight := (OrdMap.entries_perm_insert s.queue.inFlight job.id job).length_eq
    rw [List.length_cons] at hhands hflight
    simp only [accounted, overwrites, hhand, Option.any_some, InMemoryDurableQueue.track, hflight]
    cases hid : s.queue.inFlight.get? job.id with
    | none =>
      rw [OrdMap.erase_of_get?_eq_none hid]
      simp only [Option.isSome_none, Bool.false_eq_true, if_false]
      omega
    | some old =>
      have hold := (OrdMap.entries_perm_erase hid).length_eq
      rw [List.length_cons] at hold
      simp only [Option.isSome_some, if_true]
      omega

theorem acknowledge_balance {id : JobId} (h : s.step (.acknowledge id) = some t) :
    t.accounted + s.accepted = s.accounted + t.accepted := by
  simp only [step, InMemoryDurableQueue.acknowledge] at h
  cases hid : s.queue.inFlight.get? id with
  | none =>
    rw [hid] at h
    rw [← Option.some.inj h]
  | some job =>
    rw [hid] at h
    rw [← Option.some.inj h]
    have hflight := (OrdMap.entries_perm_erase hid).length_eq
    rw [List.length_cons] at hflight
    simp only [accounted, hflight]
    omega

/-- **What one step does to the balance.** -/
theorem step_balance (h : s.step a = some t) :
    t.accounted + s.accepted + (if s.overwrites a then 1 else 0) = s.accounted + t.accepted := by
  cases a with
  | publish job => exact publish_balance h
  | pop client => exact pop_balance h
  | track client => exact track_balance h
  | acknowledge id => exact acknowledge_balance h

/-! ## Runs -/

/-- No step of a run notes a job in flight where one of its id is. -/
def NoOverwrite (es : List Action) : Prop :=
  ∀ pre a t, pre ++ [a] <+: es → Trace (StepOf step) start pre t → t.overwrites a = false

theorem noOverwrite_snoc {es : List Action} (h : Trace (StepOf step) start es s) :
    NoOverwrite (es ++ [a]) ↔ NoOverwrite es ∧ s.overwrites a = false := by
  constructor
  · intro hnone
    refine ⟨fun pre b u hpre hu => ?_, hnone es a s List.prefix_rfl h⟩
    exact hnone pre b u (hpre.trans (List.prefix_append es [a])) hu
  · rintro ⟨hnone, hlast⟩ pre b u hpre hu
    rcases List.prefix_concat_iff.mp hpre with heq | hpre
    · obtain ⟨rfl, hab⟩ := List.append_inj' heq rfl
      rw [List.singleton_inj.mp hab,
        hu.unique (fun h h' => Option.some.inj (h.symm.trans h')) h]
      exact hlast
    · exact hnone pre b u hpre hu

/-- **The jobs lost along a run**: none exactly if no step overwrites. -/
theorem lost_along {es : List Action} (h : Trace (StepOf step) start es s) :
    ∃ lost, s.accounted + lost = s.accepted ∧ (lost = 0 ↔ NoOverwrite es) := by
  induction h with
  | nil =>
    refine ⟨0, rfl, fun _ pre a t hpre _ => ?_, fun _ => rfl⟩
    exact absurd (List.prefix_nil.mp hpre)
      (List.append_ne_nil_of_right_ne_nil _ (List.cons_ne_nil a []))
  | @snoc es t u a h hstep ih =>
    -- a step that overwrites adds one to what is lost, and no other step does
    obtain ⟨lost, hlost, hzero⟩ := ih
    have hbalance := step_balance hstep
    refine ⟨lost + if t.overwrites a then 1 else 0, by omega, ?_⟩
    rw [noOverwrite_snoc h, ← hzero]
    cases t.overwrites a with
    | false => simp
    | true => simp

/-- **When the queue in memory loses nothing**: exactly as long as no job is
noted in flight while another of its id is. -/
theorem memory_queue_conserves_iff {es : List Action} {s : Clients}
    (h : Trace (StepOf step) start es s) : s.Conserved ↔ NoOverwrite es := by
  obtain ⟨lost, hlost, hzero⟩ := lost_along h
  rw [← hzero]
  unfold Conserved
  omega

/-- A job with this payload, under the id `7`. -/
def sampleJob (payload : UInt8) : DurableJob := ⟨7, [], [payload]⟩

/-- A job that is published, received and acknowledged is accounted for. -/
theorem roundtrip_conserved :
    ∃ s, Trace (StepOf step) start
        [.publish (sampleJob 1), .pop 0, .track 0, .acknowledge 7] s ∧ s.acknowledged = 1 ∧
      (s.Conserved ↔ NoOverwrite [.publish (sampleJob 1), .pop 0, .track 0, .acknowledge 7]) := by
  have hrun : Trace (StepOf step) start
      [.publish (sampleJob 1), .pop 0, .track 0, .acknowledge 7] ⟨.default, ∅, 1, 1⟩ :=
    Trace.of_foldlM id rfl
  exact ⟨_, hrun, rfl, memory_queue_conserves_iff hrun⟩

/-- **A job published again under its id replaces the first one in
flight**: two were accepted, and one is accounted for. -/
theorem republished_job_lost :
    ∃ s, Trace (StepOf step) start
        [.publish (sampleJob 1), .publish (sampleJob 2), .pop 0, .track 0, .pop 1, .track 1] s ∧
      s.accepted = 2 ∧ s.accounted = 1 ∧
      s.queue.inFlight.entries = [(7, sampleJob 2)] :=
  ⟨_, Trace.of_foldlM id rfl, rfl, rfl, rfl⟩

end Clients

end DurableQueue

end InferQos
