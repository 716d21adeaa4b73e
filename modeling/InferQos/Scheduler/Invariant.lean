import InferQos.Common.Trace
import InferQos.Scheduler.Accounting
import Mathlib.Data.List.Induction
/-!
# The representation invariant

Five structures describe one set of waiting requests: the queues, the
index, the two counters and the sequence number. `Keyed` ties the index to
the queues and holds along every run. The counters need one thing more:
`enqueue` compares a saturated sum with `max_bytes`, and at
`max_bytes = usize::MAX` no saturated sum exceeds it, so a call that takes
the queued bytes past `usize::MAX` is accepted and the counter wraps.
`representation_invariant_iff` is the exact boundary.
-/

namespace InferQos

namespace Scheduler

variable {F : Type}
variable {s s' : Inner F} {k k' : QueueKey} {item : Queued F}

/-! ## The index and the queues -/

theorem Pushed.keyed (h : Keyed s) (hp : Pushed s s' item) : Keyed s' where
  noEmpty := hp.noEmpty h.noEmpty
  keyed k it hit := by
    rw [hp.items] at hit
    split at hit
    · rename_i hk
      rcases List.mem_append.mp hit with hit | hit
      · exact h.keyed k it hit
      · rw [List.mem_singleton.mp hit, hk]
    · exact h.keyed k it hit
  nodup k := by
    rw [hp.items]
    split
    · rename_i hk
      rw [List.map_append, List.nodup_append']
      refine ⟨h.nodup k, by simp, fun id hid hin => ?_⟩
      obtain ⟨it, hit, hitid⟩ := List.mem_map.mp hid
      rw [List.map_singleton, List.mem_singleton] at hin
      -- a waiting id is indexed, and the pushed one was not
      have hidx := (h.index id k).mpr ⟨it, hit, hitid⟩
      rw [hin, hp.fresh] at hidx
      cases hidx
    · exact h.nodup k
  index id k := by
    rw [hp.index, OrdMap.get?_insert, hp.items]
    by_cases hid : id = item.request.id
    · rw [if_pos hid]
      constructor
      · intro hk
        rw [if_pos (Option.some.inj hk).symm]
        exact ⟨item, by simp, hid.symm⟩
      · rintro ⟨it, hit, hitid⟩
        split at hit
        · rename_i hk
          rw [hk]
        · have hidx := (h.index id k).mpr ⟨it, hit, hitid⟩
          rw [hid, hp.fresh] at hidx
          cases hidx
    · rw [if_neg hid, h.index]
      split
      · simp only [List.mem_append, List.mem_singleton]
        constructor
        · rintro ⟨it, hit, hitid⟩
          exact ⟨it, Or.inl hit, hitid⟩
        · rintro ⟨it, hit | rfl, hitid⟩
          · exact ⟨it, hit, hitid⟩
          · exact absurd hitid.symm hid
      · rfl

/-- The removed item waits under its key. -/
theorem Removed.mem (hr : Removed s s' k item) : item ∈ itemsIn s.queues k :=
  List.mem_of_find?_eq_some hr.found

theorem Removed.keyed (h : Keyed s) (hr : Removed s s' k item) : Keyed s' where
  noEmpty := hr.noEmpty h.noEmpty
  keyed k' it hit := by
    rw [hr.items] at hit
    split at hit
    · rename_i hk
      rw [hk]
      exact h.keyed k it (List.mem_of_mem_eraseP hit)
    · exact h.keyed k' it hit
  nodup k' := by
    rw [hr.items]
    split
    · exact (h.nodup k).sublist ((List.eraseP_sublist).map _)
    · exact h.nodup k'
  index id k' := by
    rw [hr.index, OrdMap.get?_erase, hr.items]
    by_cases hid : id = item.request.id
    · rw [if_pos hid]
      constructor
      · intro hn
        cases hn
      · rintro ⟨it, hit, hitid⟩
        split at hit
        · -- the queue held the id once, and that one is gone
          have hperm := (perm_eraseP_of_find? hr.found).map (·.request.id)
          have hnd := hperm.nodup_iff.mp (h.nodup k)
          rw [List.map_cons, List.nodup_cons] at hnd
          exact absurd (List.mem_map.mpr ⟨it, hit, hitid.trans hid⟩) hnd.1
        · rename_i hk
          have h1 := (h.index id k').mpr ⟨it, hit, hitid⟩
          have h2 := (h.index id k).mpr ⟨item, hr.mem, hid.symm⟩
          rw [h1] at h2
          exact absurd (Option.some.inj h2) hk
    · rw [if_neg hid, h.index]
      split
      · rename_i hk
        rw [hk]
        constructor
        · rintro ⟨it, hit, hitid⟩
          refine ⟨it, (List.mem_eraseP_of_neg ?_).mpr hit, hitid⟩
          simpa using fun hcon => hid (hitid.symm.trans hcon)
        · rintro ⟨it, hit, hitid⟩
          exact ⟨it, List.mem_of_mem_eraseP hit, hitid⟩
      · rfl

theorem init_keyed : Keyed (init : Inner F) where
  noEmpty := fun _ _ h => by cases h
  keyed := fun _ _ h => by cases h
  nodup := fun _ => List.nodup_nil
  index := fun id k => by simp [init, itemsIn]

variable [Arith F]

/-- **A call keeps the index and the queues in step.** -/
theorem apply_keyed (cfg : Config F) (c : Call F) (h : Keyed s) : Keyed (apply cfg s c).2 := by
  unfold apply
  split
  · rename_i request b cw tw aw hop
    rcases enqueue_spec cfg c.now s request b cw tw aw with ⟨_, -, hs, -⟩ | ⟨-, -, -, hp⟩
    · change Keyed (enqueue cfg c.now s request b cw tw aw).2
      rw [hs]; exact h
    · exact hp.keyed h
  · rename_i id hop
    rcases cancel_spec h id with ⟨-, hs⟩ | ⟨k, item, -, -, hr⟩
    · rw [hs]; exact h
    · exact hr.keyed h
  · rcases popNext_spec cfg c.now h.noEmpty with ⟨-, hs⟩ | ⟨k, item, rest, -, -, hr⟩
    · rw [hs]; exact h
    · exact hr.keyed h

theorem exec_keyed (cfg : Config F) (calls : List (Call F)) : Keyed (exec cfg calls) := by
  induction calls using List.reverseRecOn with
  | nil => exact init_keyed
  | append_singleton calls c ih => rw [exec_snoc]; exact apply_keyed cfg c ih

/-! ## The counters -/

/-- Every waiting item, queue by queue. -/
def queued (s : Inner F) : List (Queued F) := s.queues.entries.flatMap fun e => e.2.items

/-- **The representation invariant.** -/
structure RepInv (cfg : Config F) (s : Inner F) : Prop where
  depth_eq : s.depth = (queued s).length
  depth_le : s.depth ≤ cfg.maxDepth
  bytes_eq : s.bytes = ((queued s).map (·.bodyBytes)).sum
  bytes_le : s.bytes ≤ cfg.maxBytes
  ids_nodup : ((queued s).map (·.request.id)).Nodup
  index_iff : ∀ id k, s.index.get? id = some k ↔
    ∃ q, s.queues.get? k = some q ∧ ∃ it ∈ q.items, it.request.id = id ∧ queueKey it.request = k
  noEmpty : NoEmpty s.queues

/-- **What the invariant buys a call**: a refusal changes nothing, neither
counter goes below zero, neither `expect` fires, and `popNext` answers
`None` at depth zero and nowhere else. -/
def StepOk (s : Inner F) (c : Call F) (r : Output F × Inner F) : Prop :=
  match c.op, r.1 with
  | .enqueue .., .enqueued (.error _) => r.2 = s
  | .enqueue .., .enqueued (.ok depth) => depth = r.2.depth ∧ r.2.depth = s.depth + 1
  | .cancel _, .cancelled false => r.2 = s
  | .cancel id, .cancelled true => ∃ item ∈ queued s, item.request.id = id ∧
      r.2.depth + 1 = s.depth ∧ r.2.bytes + item.bodyBytes = s.bytes
  | .popNext, .popped (.ok none) => s.depth = 0 ∧ r.2 = s
  | .popNext, .popped (.ok (some request)) => ∃ item ∈ queued s, item.request = request ∧
      r.2.depth + 1 = s.depth ∧ r.2.bytes + item.bodyBytes = s.bytes
  | _, _ => False

/-- **The call that wraps the byte counter**: an `enqueue` nothing else
refuses, past `usize::MAX` queued bytes, under a `max_bytes` no `usize`
exceeds. -/
def Overflows (cfg : Config F) (s : Inner F) (c : Call F) : Prop :=
  match c.op with
  | .enqueue request bodyBytes .. =>
    cfg.maxBytes = u64Max ∧ s.depth < cfg.maxDepth ∧ s.index.get? request.id = none ∧
      u64Max < s.bytes + bodyBytes
  | _ => False

omit [Arith F] in
theorem sum_queued (f : Queued F → ℕ) : ((queued s).map f).sum = total f s.queues := by
  unfold queued total OrdMap.sumOn
  induction s.queues.entries with
  | nil => rfl
  | cons e es ih => simp [ih]

omit [Arith F] in
theorem length_queued : (queued s).length = total (fun _ => 1) s.queues := by
  rw [← sum_queued]
  simp

omit [Arith F] in
theorem mem_queued : item ∈ queued s ↔ ∃ k, item ∈ itemsIn s.queues k := by
  unfold queued
  rw [List.mem_flatMap]
  constructor
  · rintro ⟨e, he, hit⟩
    exact ⟨e.1, by rw [itemsIn_of_get? (OrdMap.get?_eq_some.mpr he)]; exact hit⟩
  · rintro ⟨k, hit⟩
    cases hq : s.queues.get? k with
    | none => simp [itemsIn, hq] at hit
    | some q =>
      rw [itemsIn_of_get? hq] at hit
      exact ⟨(k, q), OrdMap.get?_eq_some.mp hq, hit⟩

omit [Arith F] in
/-- An id waits once: twice in one queue, or in two, it would be indexed
twice. -/
theorem Keyed.ids_nodup (h : Keyed s) : ((queued s).map (·.request.id)).Nodup := by
  unfold queued
  rw [List.map_flatMap, List.nodup_flatMap]
  constructor
  · intro e he
    have := h.nodup e.1
    rwa [itemsIn_of_get? (OrdMap.get?_eq_some.mpr he)] at this
  · refine List.Pairwise.imp_of_mem ?_ s.queues.sorted
    intro e e' he he' hlt
    simp only [Function.onFun]
    intro id hid hid'
    obtain ⟨it, hit, hitid⟩ := List.mem_map.mp hid
    obtain ⟨it', hit', hitid'⟩ := List.mem_map.mp hid'
    have h1 := (h.index id e.1).mpr
      ⟨it, by rw [itemsIn_of_get? (OrdMap.get?_eq_some.mpr he)]; exact hit, hitid⟩
    have h2 := (h.index id e'.1).mpr
      ⟨it', by rw [itemsIn_of_get? (OrdMap.get?_eq_some.mpr he')]; exact hit', hitid'⟩
    rw [h1] at h2
    exact absurd (Option.some.inj h2) (ne_of_lt hlt)

omit [Arith F] in
theorem Keyed.index_iff (h : Keyed s) (id : Uuid) (k : QueueKey) : s.index.get? id = some k ↔
    ∃ q, s.queues.get? k = some q ∧
      ∃ it ∈ q.items, it.request.id = id ∧ queueKey it.request = k := by
  rw [h.index]
  constructor
  · rintro ⟨it, hit, hid⟩
    cases hq : s.queues.get? k with
    | none => simp [itemsIn, hq] at hit
    | some q =>
      have hkey := h.keyed k it hit
      rw [itemsIn_of_get? hq] at hit
      exact ⟨q, rfl, it, hit, hid, hkey⟩
  · rintro ⟨q, hq, it, hit, hid, -⟩
    exact ⟨it, by rw [itemsIn_of_get? hq]; exact hit, hid⟩

/-- The counters agree with the queues. -/
structure Counted (cfg : Config F) (s : Inner F) : Prop where
  depth_eq : s.depth = total (fun _ => 1) s.queues
  depth_le : s.depth ≤ cfg.maxDepth
  bytes_eq : s.bytes = total (·.bodyBytes) s.queues
  bytes_le : s.bytes ≤ cfg.maxBytes

omit [Arith F] in
theorem RepInv.counted {cfg : Config F} (h : RepInv cfg s) : Counted cfg s :=
  ⟨h.depth_eq.trans length_queued, h.depth_le, h.bytes_eq.trans (sum_queued _), h.bytes_le⟩

omit [Arith F] in
theorem Counted.repInv {cfg : Config F} (h : Counted cfg s) (hk : Keyed s) : RepInv cfg s where
  depth_eq := h.depth_eq.trans length_queued.symm
  depth_le := h.depth_le
  bytes_eq := h.bytes_eq.trans (sum_queued _).symm
  bytes_le := h.bytes_le
  ids_nodup := hk.ids_nodup
  index_iff := hk.index_iff
  noEmpty := hk.noEmpty

/-! ## One call -/

omit [Arith F] in
/-- **A push counts**, as long as the bytes do not wrap. -/
theorem Pushed.counted {cfg : Config F} (h : Counted cfg s) (hp : Pushed s s' item)
    (hdepth : s.depth < cfg.maxDepth) (hbytes : s.bytes + item.bodyBytes ≤ cfg.maxBytes) :
    Counted cfg s' ∧ s'.depth = s.depth + 1 := by
  have hd := cfg.maxDepth_le
  have hb := cfg.maxBytes_le
  have hmax : u64Max < 2 ^ 64 := by decide
  have hdep : s'.depth = s.depth + 1 := hp.depth.trans (wrappingAdd_of_lt (by omega))
  have hbyt : s'.bytes = s.bytes + item.bodyBytes := hp.bytes.trans (wrappingAdd_of_lt (by omega))
  have h1 := hp.total fun _ => 1
  have h2 := hp.total (·.bodyBytes)
  have h3 := h.depth_eq
  have h4 := h.bytes_eq
  exact ⟨⟨by omega, by omega, by omega, by omega⟩, hdep⟩

omit [Arith F] in
/-- **A removal is covered by both counters.** -/
theorem Removed.counted {cfg : Config F} (h : Counted cfg s) (hr : Removed s s' k item) :
    Counted cfg s' ∧ s'.depth + 1 = s.depth ∧ s'.bytes + item.bodyBytes = s.bytes := by
  have hd := cfg.maxDepth_le
  have hb := cfg.maxBytes_le
  have hmax : u64Max < 2 ^ 64 := by decide
  have h1 := hr.total fun _ => 1
  have h2 := hr.total (·.bodyBytes)
  have h3 := h.depth_eq
  have h4 := h.bytes_eq
  have h5 := h.depth_le
  have h6 := h.bytes_le
  have hdep : s'.depth = s.depth - 1 := hr.depth.trans (wrappingSub_of_le (by omega))
  have hbyt : s'.bytes = s.bytes - item.bodyBytes :=
    hr.bytes.trans (wrappingSub_of_le (by omega))
  exact ⟨⟨by omega, by omega, by omega, by omega⟩, by omega, by omega⟩

/-- **A call that does not overflow keeps the counters and behaves.** -/
theorem apply_counted {cfg : Config F} {c : Call F} (hk : Keyed s) (h : Counted cfg s)
    (hno : ¬ Overflows cfg s c) :
    Counted cfg (apply cfg s c).2 ∧ StepOk s c (apply cfg s c) := by
  obtain ⟨now, op⟩ := c
  cases op with
  | enqueue request b cw tw aw =>
    rcases enqueue_spec cfg now s request b cw tw aw with ⟨e, hres, hs, -⟩ | ⟨hres, hd, hb, hp⟩
    · have happ : apply cfg s ⟨now, .enqueue request b cw tw aw⟩ = (.enqueued (.error e), s) :=
        Prod.ext (congrArg Output.enqueued hres) hs
      rw [happ]
      exact ⟨h, rfl⟩
    · -- the saturated sum is within the bound, and so is the sum unless it saturated
      have hle : s.bytes + b ≤ cfg.maxBytes := by
        by_contra hcon
        have hmax := cfg.maxBytes_le
        simp only [saturatingAdd] at hb
        exact hno ⟨by omega, hd, hp.fresh, by omega⟩
      obtain ⟨hc, hdep⟩ := hp.counted h hd hle
      refine ⟨hc, ?_⟩
      have happ : (apply cfg s ⟨now, .enqueue request b cw tw aw⟩).1 =
          .enqueued (.ok (wrappingAdd s.depth 1)) := congrArg Output.enqueued hres
      simp only [StepOk, happ]
      exact ⟨hp.depth.symm, hdep⟩
  | cancel id =>
    rcases cancel_spec hk id with ⟨-, hs⟩ | ⟨k, item, hid, hres, hr⟩
    · have happ : apply cfg s ⟨now, .cancel id⟩ = (.cancelled false, s) := by
        simp only [apply, hs]
      rw [happ]
      exact ⟨h, rfl⟩
    · obtain ⟨hc, hdep, hbyt⟩ := hr.counted h
      refine ⟨hc, ?_⟩
      have happ : (apply cfg s ⟨now, .cancel id⟩).1 = .cancelled true :=
        congrArg Output.cancelled hres
      simp only [StepOk, happ]
      exact ⟨item, mem_queued.mpr ⟨k, hr.mem⟩, hid, hdep, hbyt⟩
  | popNext =>
    rcases popNext_spec cfg now hk.noEmpty with ⟨hnil, hs⟩ | ⟨k, item, rest, -, hres, hr⟩
    · have happ : apply cfg s ⟨now, .popNext⟩ = (.popped (.ok none), s) := by
        simp only [apply, hs]
      rw [happ]
      refine ⟨h, ?_, rfl⟩
      rw [h.depth_eq, ← length_queued]
      simp [queued, hnil]
    · obtain ⟨hc, hdep, hbyt⟩ := hr.counted h
      refine ⟨hc, ?_⟩
      have happ : (apply cfg s ⟨now, .popNext⟩).1 = .popped (.ok (some item.request)) :=
        congrArg Output.popped hres
      simp only [StepOk, happ]
      exact ⟨item, mem_queued.mpr ⟨k, hr.mem⟩, rfl, hdep, hbyt⟩

/-- **An overflowing call breaks the invariant**: the bytes it accepts are
more than a `usize` holds. -/
theorem not_repInv_of_overflows {cfg : Config F} {c : Call F} (h : RepInv cfg s)
    (hov : Overflows cfg s c) : ¬ RepInv cfg (apply cfg s c).2 := by
  obtain ⟨now, op⟩ := c
  cases op with
  | cancel id => exact hov.elim
  | popNext => exact hov.elim
  | enqueue request b cw tw aw =>
    obtain ⟨hmax, hd, hfresh, hlt⟩ := hov
    intro h'
    rcases enqueue_spec cfg now s request b cw tw aw with ⟨e, -, -, hd' | hb | hi⟩ | ⟨-, -, -, hp⟩
    · omega
    · simp only [saturatingAdd] at hb
      omega
    · rw [hfresh] at hi
      cases hi
    · have h1 := hp.total (·.bodyBytes)
      have h2 := h.counted.bytes_eq
      have h3 := h'.counted.bytes_eq
      have h4 := h'.bytes_le
      have h5 := cfg.maxBytes_le
      change (enqueue cfg now s request b cw tw aw).2.bytes ≤ _ at h4
      change (enqueue cfg now s request b cw tw aw).2.bytes = _ at h3
      change total _ (enqueue cfg now s request b cw tw aw).2.queues = _ + b at h1
      change _ = total _ (enqueue cfg now s request b cw tw aw).2.queues at h3
      omega

/-! ## Whole runs -/

/-- Every state a sequence of calls goes through meets the invariant, and
every call of it behaves. -/
def Represents (cfg : Config F) (calls : List (Call F)) : Prop :=
  (∀ pre, pre <+: calls → RepInv cfg (exec cfg pre)) ∧
    ∀ pre c, pre ++ [c] <+: calls → StepOk (exec cfg pre) c (apply cfg (exec cfg pre) c)

/-- The counters along a run none of whose calls overflows. -/
theorem exec_counted (cfg : Config F) (calls : List (Call F))
    (hno : ∀ pre c, pre ++ [c] <+: calls → ¬ Overflows cfg (exec cfg pre) c) :
    Counted cfg (exec cfg calls) := by
  refine prefix_induction (P := fun pre => Counted cfg (exec cfg pre)) hno
    ⟨rfl, Nat.zero_le _, rfl, Nat.zero_le _⟩ fun pre c hpre hc => ?_
  rw [exec_snoc]
  exact (apply_counted (exec_keyed cfg pre) hpre hc).1

/-- **The representation invariant holds along a run exactly when no call
of the run overflows the byte counter.** -/
theorem representation_invariant_iff (cfg : Config F) (calls : List (Call F)) :
    Represents cfg calls ↔
      ∀ pre c, pre ++ [c] <+: calls → ¬ Overflows cfg (exec cfg pre) c := by
  constructor
  · rintro ⟨hinv, -⟩ pre c hpre hov
    refine not_repInv_of_overflows (hinv pre ((List.prefix_append pre [c]).trans hpre)) hov ?_
    rw [← exec_snoc]
    exact hinv _ hpre
  · intro hno
    have hcounted : ∀ pre, pre <+: calls → Counted cfg (exec cfg pre) := fun pre hpre =>
      exec_counted cfg pre fun pre' c h => hno pre' c (h.trans hpre)
    refine ⟨fun pre hpre => (hcounted pre hpre).repInv (exec_keyed cfg pre), fun pre c hpre => ?_⟩
    have hpre' := (List.prefix_append pre [c]).trans hpre
    exact (apply_counted (exec_keyed cfg pre) (hcounted pre hpre') (hno pre c hpre)).2

/-- A scheduler bounded by the largest `usize`. -/
def unboundedBytes : Config ℚ := ⟨10, u64Max, 2000000000, 1000000000, 1000, by decide, le_rfl⟩

/-- A request of one tenant. -/
def sampleRequest (id : Uuid) : AdmissionRequest ℚ where
  id := id
  identity := ⟨"principal", "tenant", "app", true⟩
  requestedClass := .standard
  effectiveClass := .standard
  pool := "primary"
  estimate := ⟨1, 1, 0, 1, 2, 1, .approximation⟩
  deadline := 1000
  queueable := true

/-- **One byte and then `usize::MAX` bytes**: the second call is accepted
and the counter reads zero. -/
theorem wrapped_bytes_break_representation :
    ¬ Represents unboundedBytes
      [⟨0, .enqueue (sampleRequest 1) 1 1 1 1⟩, ⟨0, .enqueue (sampleRequest 2) u64Max 1 1 1⟩] := by
  rintro ⟨hinv, -⟩
  have hfirst := hinv [⟨0, .enqueue (sampleRequest 1) 1 1 1 1⟩] (List.prefix_append _ [_])
  refine not_repInv_of_overflows (c := ⟨0, .enqueue (sampleRequest 2) u64Max 1 1 1⟩) hfirst
    ⟨rfl, ?_, ?_, ?_⟩ (hinv _ List.prefix_rfl)
  · decide +kernel
  · decide +kernel
  · decide +kernel

end Scheduler

end InferQos
