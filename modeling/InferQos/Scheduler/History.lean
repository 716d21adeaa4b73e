import InferQos.Common.Service
import InferQos.Scheduler.Invariant
/-!
# Exactly-once, in-order service

The history of a run, read from the outputs of its calls, is an orderly
history in the sense of `Service.Orderly`: the scheduler's queues hold, key
by key, the requests the history leaves waiting. This holds of every run,
the ones that wrap the byte counter included.
-/

namespace InferQos

namespace Scheduler

open Service (waiting Orderly Departs)

variable {F : Type}
/-- An event of the scheduler's history. -/
abbrev Event (F : Type) := Service.Event (AdmissionRequest F) Uuid

variable {s s' : Inner F} {k : QueueKey} {item : Queued F} {h : List (Event F)}

/-- What a call adds to the history: an accepted enqueue, a pop that
returned a request, a cancel that returned true, and nothing otherwise. -/
def event (op : Op F) (out : Output F) : List (Event F) :=
  match op, out with
  | .enqueue request .., .enqueued (.ok _) => [.accepted request]
  | .cancel id, .cancelled true => [.cancelled id]
  | .popNext, .popped (.ok (some request)) => [.popped request]
  | _, _ => []

/-- **The queues hold what the history leaves waiting**, each request once
and in order under its key. -/
structure Tracks (h : List (Event F)) (s : Inner F) : Prop where
  orderly : Orderly (·.id) queueKey h
  items : ∀ k, (itemsIn s.queues k).map (·.request) =
    ((waiting (·.id) h).filter fun a => queueKey a.2 = k).map (·.2)

/-- A request of the waiting list is queued under its key. -/
theorem Tracks.mem_iff (ht : Tracks h s) (request : AdmissionRequest F) :
    (∃ i, (i, request) ∈ waiting (·.id) h) ↔
      ∃ it ∈ itemsIn s.queues (queueKey request), it.request = request := by
  have hiff : request ∈ (itemsIn s.queues (queueKey request)).map (·.request) ↔
      ∃ i, (i, request) ∈ waiting (·.id) h := by
    rw [ht.items]
    simp
  rw [← hiff, List.mem_map]

/-- **An id waits in the history as long as it is queued.** -/
theorem Tracks.waiting_iff (ht : Tracks h s) (hk : Keyed s) (id : Uuid) :
    (∃ a ∈ waiting (·.id) h, a.2.id = id) ↔ id ∈ (queued s).map (·.request.id) := by
  rw [List.mem_map]
  constructor
  · rintro ⟨⟨i, request⟩, ha, rfl⟩
    obtain ⟨it, hit, rfl⟩ := (ht.mem_iff request).mp ⟨i, ha⟩
    exact ⟨it, mem_queued.mpr ⟨_, hit⟩, rfl⟩
  · rintro ⟨it, hit, rfl⟩
    obtain ⟨k, hit⟩ := mem_queued.mp hit
    rw [← hk.keyed k it hit] at hit
    obtain ⟨i, hi⟩ := (ht.mem_iff it.request).mpr ⟨it, hit, rfl⟩
    exact ⟨(i, it.request), hi, rfl⟩

theorem Tracks.pushed (ht : Tracks h s) (hk : Keyed s) (hp : Pushed s s' item) :
    Tracks (h ++ [.accepted item.request]) s' where
  orderly := by
    refine ht.orderly.snoc fun a ha hid => ?_
    -- a waiting id is indexed, and the pushed one was not
    obtain ⟨it, hit, hitid⟩ := List.mem_map.mp ((ht.waiting_iff hk _).mp ⟨a, ha, hid⟩)
    obtain ⟨k, hit⟩ := mem_queued.mp hit
    have hidx := (hk.index item.request.id k).mpr ⟨it, hit, hitid⟩
    rw [hp.fresh] at hidx
    cases hidx
  items k := by
    rw [hp.items, Service.waiting_accepted, List.filter_append, List.map_append, ← ht.items]
    by_cases hkey : k = queueKey item.request
    · simp [hkey]
    · simp [hkey, Ne.symm hkey]

/-- Where a label is carried once, erasing it and filtering it out agree. -/
theorem eraseP_eq_filter {α β : Type*} [DecidableEq β] (f : α → β) (b : β) {l : List α}
    (hnd : (l.map f).Nodup) : l.eraseP (fun a => f a = b) = l.filter fun a => f a ≠ b := by
  induction l with
  | nil => rfl
  | cons a l ih =>
    rw [List.map_cons, List.nodup_cons] at hnd
    by_cases hab : f a = b
    · rw [List.eraseP_cons_of_pos (by simpa using hab),
        List.filter_cons_of_neg (by simpa using hab), List.filter_eq_self.mpr]
      intro a' ha'
      simpa using fun hcon => hnd.1 (List.mem_map.mpr ⟨a', ha', hcon.trans hab.symm⟩)
    · rw [List.eraseP_cons_of_neg (by simpa using hab),
        List.filter_cons_of_pos (by simpa using hab), ih hnd.2]

/-- A removal takes the id out of every queue: the queue that held it held
it once, and no other did. -/
theorem Removed.items_filter (hk : Keyed s) (hr : Removed s s' k item) (k' : QueueKey) :
    itemsIn s'.queues k' =
      (itemsIn s.queues k').filter fun it => it.request.id ≠ item.request.id := by
  rw [hr.items]
  split
  · rename_i hkk
    subst hkk
    exact eraseP_eq_filter (fun it : Queued F => it.request.id) _ (hk.nodup k')
  · rename_i hkk
    rw [List.filter_eq_self.mpr]
    intro it hit
    rw [decide_eq_true_iff]
    intro hcon
    have h1 := (hk.index item.request.id k').mpr ⟨it, hit, hcon⟩
    have h2 := (hk.index item.request.id k).mpr ⟨item, hr.mem, rfl⟩
    rw [h1] at h2
    exact hkk (Option.some.inj h2)

theorem Tracks.removed (ht : Tracks h s) (hk : Keyed s) (hr : Removed s s' k item) {e : Event F}
    (hadm : Service.Admissible (·.id) queueKey (waiting (·.id) h) e)
    (hf : e.freed (·.id) = some item.request.id) : Tracks (h ++ [e]) s' where
  orderly := ht.orderly.snoc hadm
  items k' := by
    have hmap : ∀ l : List (Queued F),
        (l.filter fun it => it.request.id ≠ item.request.id).map (·.request) =
          (l.map (·.request)).filter fun r => r.id ≠ item.request.id :=
      fun l => by rw [List.filter_map]; rfl
    rw [hr.items_filter hk, hmap, ht.items, Service.waiting_freed _ hf, List.filter_comm,
      List.filter_map]
    rfl

variable [Arith F]

/-- The events of the calls, in order. -/
def history (cfg : Config F) (calls : List (Call F)) : List (Event F) :=
  (calls.foldl (fun (a : List (Event F) × Inner F) c =>
    let (out, s) := apply cfg a.2 c
    (a.1 ++ event c.op out, s)) ([], init)).1

/-- What a run records beside the state does not change the state. -/
theorem foldl_apply_snd {β : Type*} (g : β → Call F → Output F → β) (cfg : Config F)
    (calls : List (Call F)) (a : β × Inner F) :
    (calls.foldl (fun a c => (g a.1 c (apply cfg a.2 c).1, (apply cfg a.2 c).2)) a).2 =
      calls.foldl (fun s c => (apply cfg s c).2) a.2 := by
  induction calls generalizing a with
  | nil => rfl
  | cons c calls ih => rw [List.foldl_cons, List.foldl_cons, ih]

theorem history_snoc (cfg : Config F) (calls : List (Call F)) (c : Call F) :
    history cfg (calls ++ [c]) =
      history cfg calls ++ event c.op (apply cfg (exec cfg calls) c).1 := by
  have hsnd := foldl_apply_snd (fun h c out => h ++ event c.op out) cfg calls ([], init)
  unfold history exec
  rw [List.foldl_append, ← hsnd]
  rfl

/-- **A call keeps the history and the queues in step.** -/
theorem Tracks.apply (ht : Tracks h s) (hk : Keyed s) (cfg : Config F) (c : Call F) :
    Tracks (h ++ event c.op (apply cfg s c).1) (apply cfg s c).2 := by
  obtain ⟨now, op⟩ := c
  cases op with
  | enqueue request b cw tw aw =>
    rcases enqueue_spec cfg now s request b cw tw aw with ⟨e, hres, hs, -⟩ | ⟨hres, -, -, hp⟩
    · have happ : Scheduler.apply cfg s ⟨now, .enqueue request b cw tw aw⟩ =
          (.enqueued (.error e), s) := Prod.ext (congrArg Output.enqueued hres) hs
      rw [happ]
      simpa [event] using ht
    · have hout : (Scheduler.apply cfg s ⟨now, .enqueue request b cw tw aw⟩).1 =
          .enqueued (.ok (wrappingAdd s.depth 1)) := congrArg Output.enqueued hres
      rw [hout]
      exact ht.pushed hk hp
  | cancel id =>
    rcases cancel_spec hk id with ⟨-, hs⟩ | ⟨k, item, rfl, hres, hr⟩
    · have happ : Scheduler.apply cfg s ⟨now, .cancel id⟩ = (.cancelled false, s) := by
        simp only [Scheduler.apply, hs]
      rw [happ]
      simpa [event] using ht
    · have hout : (Scheduler.apply cfg s ⟨now, .cancel item.request.id⟩).1 = .cancelled true :=
        congrArg Output.cancelled hres
      rw [hout]
      refine ht.removed hk hr ?_ rfl
      exact (ht.waiting_iff hk _).mpr
        (List.mem_map.mpr ⟨item, mem_queued.mpr ⟨k, hr.mem⟩, rfl⟩)
  | popNext =>
    rcases popNext_spec cfg now hk.noEmpty with ⟨-, hs⟩ | ⟨k, item, rest, hitems, hres, hr⟩
    · have happ : Scheduler.apply cfg s ⟨now, .popNext⟩ = (.popped (.ok none), s) := by
        simp only [Scheduler.apply, hs]
      rw [happ]
      simpa [event] using ht
    · have hout : (Scheduler.apply cfg s ⟨now, .popNext⟩).1 = .popped (.ok (some item.request)) :=
        congrArg Output.popped hres
      rw [hout]
      refine ht.removed hk hr ?_ rfl
      -- the popped item heads its queue, so its request is the first waiting under its key
      have hkey := hk.keyed k item hr.mem
      have hw := ht.items k
      rw [hitems, List.map_cons, ← hkey] at hw
      obtain ⟨a, rest', hwait, ha, -⟩ := List.map_eq_cons_iff.mp hw.symm
      exact ⟨a.1, rest', by rw [hwait, ← ha]⟩

/-- **The queues track the history of every run.** -/
theorem exec_tracks (cfg : Config F) (calls : List (Call F)) :
    Tracks (history cfg calls) (exec cfg calls) := by
  induction calls using List.reverseRecOn with
  | nil => exact ⟨.nil, fun _ => rfl⟩
  | append_singleton calls c ih =>
    rw [history_snoc, exec_snoc]
    exact ih.apply (exec_keyed cfg calls) cfg c

omit [Arith F] in
/-- A departure is a service or a cancellation. -/
theorem countP_freed (h : List (Event F)) (id : Uuid) :
    h.countP (fun e => e.freed (·.id) = some id) =
      h.countP (fun e => match e with | .popped request => request.id = id | _ => false) +
        h.countP (fun e => match e with | .cancelled id' => id' = id | _ => false) := by
  induction h with
  | nil => rfl
  | cons e h ih =>
    rw [List.countP_cons, List.countP_cons, List.countP_cons, ih]
    cases e with
    | accepted request => simp [Service.Event.freed]
    | popped request =>
      simp only [Service.Event.freed, Option.some.injEq, Bool.false_eq_true, if_false]
      omega
    | cancelled id' =>
      simp only [Service.Event.freed, Option.some.injEq, Bool.false_eq_true, if_false]
      omega

/-- **Exactly-once, in-order service.** In every run from an empty
scheduler: each id is accepted as often as it is popped or cancelled, and
once more while it is queued; each pop and each cancel that found something
ends exactly one accepted enqueue, no accepted enqueue ends twice, and a
pop returns the very request accepted; under one key the pops happen in the
order of the enqueues. -/
theorem exactly_once_in_order (cfg : Config F) (calls : List (Call F)) :
    (∀ id, (history cfg calls).countP
          (fun e => match e with | .accepted request => request.id = id | _ => false) =
        (history cfg calls).countP
            (fun e => match e with | .popped request => request.id = id | _ => false) +
          (history cfg calls).countP
            (fun e => match e with | .cancelled id' => id' = id | _ => false) +
          if id ∈ (queued (exec cfg calls)).map (·.request.id) then 1 else 0) ∧
      (∀ (n : ℕ) e, (history cfg calls)[n]? = some e → e.freed (·.id) ≠ none →
        ∃! i, ∃ request, Departs (·.id) (history cfg calls) i n request e) ∧
      (∀ i n m request request' e e', Departs (·.id) (history cfg calls) i n request e →
        Departs (·.id) (history cfg calls) i m request' e' → n = m) ∧
      (∀ i n accepted popped, Departs (·.id) (history cfg calls) i n accepted (.popped popped) →
        popped = accepted) ∧
      (∀ i n j m first second,
        Departs (·.id) (history cfg calls) i n first (.popped first) →
        Departs (·.id) (history cfg calls) j m second (.popped second) →
        queueKey first = queueKey second → i < j → n < m) := by
  have ht := exec_tracks cfg calls
  refine ⟨fun id => ?_, fun n e he hf => ht.orderly.departure_unique he hf,
    fun i n m request request' e e' => Service.departs_once,
    fun i n accepted popped hd => ht.orderly.served_eq hd,
    fun i n j m first second hd hd' => ht.orderly.served_in_order hd hd'⟩
  have htaken : (fun e : Event F => decide (e.taken (·.id) = some id)) =
      fun e => match e with | .accepted request => decide (request.id = id) | _ => false := by
    funext e
    cases e with
    | accepted request => simp [Service.Event.taken]
    | popped request => rfl
    | cancelled id' => rfl
  rw [← countP_freed, ← htaken, ht.orderly.count id]
  simp only [ht.waiting_iff (exec_keyed cfg calls) id]

/-- An id enqueued again after its pop is a new acceptance. -/
example : (history unboundedBytes
      [⟨0, .enqueue (sampleRequest 1) 1 1 1 1⟩, ⟨1, .enqueue (sampleRequest 1) 1 1 1 1⟩,
        ⟨2, .enqueue (sampleRequest 2) 1 1 1 1⟩, ⟨3, .popNext⟩,
        ⟨4, .enqueue (sampleRequest 1) 1 1 1 1⟩, ⟨5, .cancel 2⟩, ⟨6, .popNext⟩]).map
      (fun e => (e.taken (·.id), e.freed (·.id))) =
    [(some 1, none), (some 2, none), (none, some 1), (some 1, none), (none, some 2),
      (none, some 1)] := by
  decide +kernel

end Scheduler

end InferQos
