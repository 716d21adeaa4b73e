import InferQos.Scheduler.Fairness
/-!
# The weight of a queue

A weight is passed with every request and stored with the queue. Only the
`enqueue` that creates a queue stores its weight; one that finds the queue
there appends its item and drops the weight it was given. So the stored
weight is the one passed last, in every state of a run, exactly when no
accepted `enqueue` of the run passes another than it finds.
-/

namespace InferQos

namespace Scheduler

variable {F : Type} [Arith F] {cfg : Config F} {s : Inner F} {k : QueueKey} {q : QueueState F}
variable {calls : List (Call F)} {c : Call F}

/-! ## The weight in force -/

/-- The weight an accepted `enqueue` for the key passes. -/
def passed (k : QueueKey) (op : Op F) (out : Output F) : Option F :=
  match op, out with
  | .enqueue request _ classWeight tenantWeight appWeight, .enqueued (.ok _) =>
    if queueKey request = k then some (hierarchyWeight classWeight tenantWeight appWeight) else none
  | _, _ => none

/-- The weight the most recent accepted `enqueue` for the key passed. -/
def latestWeight (cfg : Config F) (k : QueueKey) (calls : List (Call F)) : Option F :=
  (calls.foldl (fun (a : Option F × Inner F) c =>
    let (out, s) := apply cfg a.2 c
    ((passed k c.op out).or a.1, s)) (none, init)).1

theorem latestWeight_snoc (cfg : Config F) (k : QueueKey) (calls : List (Call F)) (c : Call F) :
    latestWeight cfg k (calls ++ [c]) =
      (passed k c.op (apply cfg (exec cfg calls) c).1).or (latestWeight cfg k calls) := by
  have hsnd := foldl_apply_snd (fun w c out => (passed k c.op out).or w) cfg calls (none, init)
  unfold latestWeight exec
  rw [List.foldl_append, ← hsnd]
  rfl

/-- **Every queue has the weight passed last.** -/
def WeightsFollow (cfg : Config F) (calls : List (Call F)) : Prop :=
  ∀ k q, (exec cfg calls).queues.get? k = some q → latestWeight cfg k calls = some q.weight

/-- **The `enqueue` whose weight is dropped**: nothing refuses it, and the
queue of its key is there with another weight. -/
def Reweighs (cfg : Config F) (s : Inner F) (c : Call F) : Prop :=
  match c.op with
  | .enqueue request bodyBytes classWeight tenantWeight appWeight =>
    s.depth < cfg.maxDepth ∧ saturatingAdd s.bytes bodyBytes ≤ cfg.maxBytes ∧
      s.index.get? request.id = none ∧ ∃ q, s.queues.get? (queueKey request) = some q ∧
        q.weight ≠ hierarchyWeight classWeight tenantWeight appWeight
  | _ => False

/-! ## One call -/

/-- An `enqueue` nothing refuses keeps every weight there is, and gives a
queue it creates the weight it passes. -/
theorem weight_of_enqueue {now b cw tw aw depth : ℕ} {request : AdmissionRequest F}
    (h : (enqueue cfg now s request b cw tw aw).1 = .ok depth)
    (hq : (enqueue cfg now s request b cw tw aw).2.queues.get? k = some q) :
    (k ≠ queueKey request ∧ s.queues.get? k = some q) ∨ k = queueKey request ∧ q.weight =
      ((s.queues.get? k).map (·.weight)).getD (hierarchyWeight cw tw aw) := by
  unfold enqueue at h hq
  split_ifs at h hq
  rcases OrdMap.get?_insert_eq_some.mp hq with ⟨rfl, rfl⟩ | ⟨hne, hq⟩
  · refine Or.inr ⟨rfl, ?_⟩
    cases s.queues.get? (queueKey request) <;> rfl
  · exact Or.inl ⟨hne, hq⟩

/-- **A call that does not reweigh keeps the weights in force.** -/
theorem WeightsFollow.snoc (h : WeightsFollow cfg calls) (hno : ¬ Reweighs cfg (exec cfg calls) c) :
    WeightsFollow cfg (calls ++ [c]) := by
  intro k q hq
  rw [latestWeight_snoc]
  rw [exec_snoc] at hq
  obtain ⟨now, op⟩ := c
  cases op with
  | enqueue request b cw tw aw =>
    simp only [apply] at hq ⊢
    rcases enqueue_spec cfg now (exec cfg calls) request b cw tw aw with
      ⟨e, hres, hs, -⟩ | ⟨hres, hdepth, hbytes, hp⟩
    · rw [hs] at hq
      rw [hres]
      exact h k q hq
    · rw [hres]
      rcases weight_of_enqueue hres hq with ⟨hne, hq⟩ | ⟨rfl, hweight⟩
      · have hpass : passed k (.enqueue request b cw tw aw)
            (.enqueued (.ok (wrappingAdd (exec cfg calls).depth 1))) = (none : Option F) :=
          if_neg (Ne.symm hne)
        rw [hpass]
        exact h k q hq
      · have hpass : passed (queueKey request) (.enqueue request b cw tw aw)
            (.enqueued (.ok (wrappingAdd (exec cfg calls).depth 1))) =
              some (hierarchyWeight cw tw aw : F) := if_pos rfl
        rw [hpass, Option.some_or, hweight]
        cases hq₀ : (exec cfg calls).queues.get? (queueKey request) with
        | none => rfl
        | some q₀ =>
          by_contra hne
          refine hno ⟨hdepth, hbytes, hp.fresh, q₀, hq₀, fun heq => hne ?_⟩
          rw [Option.map_some, Option.getD_some, heq]
  | cancel id =>
    obtain ⟨q₀, hq₀, -, hweight⟩ := kept_of_cancel hq
    rw [hweight]
    exact h k q₀ hq₀
  | popNext =>
    obtain ⟨q₀, hq₀, hweight⟩ := weight_of_popNext cfg now hq
    rw [hweight]
    exact h k q₀ hq₀

/-- **A call that reweighs leaves the old weight.** -/
theorem not_weightsFollow_snoc (h : Reweighs cfg (exec cfg calls) c) :
    ¬ WeightsFollow cfg (calls ++ [c]) := by
  intro hfollow
  obtain ⟨now, op⟩ := c
  cases op with
  | enqueue request b cw tw aw =>
    obtain ⟨hdepth, hbytes, hid, q, hq, hne⟩ := h
    rcases enqueue_spec cfg now (exec cfg calls) request b cw tw aw with
      ⟨e, -, -, hwhy⟩ | ⟨hres, -, -, hp⟩
    · rcases hwhy with hwhy | hwhy | hwhy
      · omega
      · omega
      · rw [hid] at hwhy
        cases hwhy
    · have hback : itemsIn (enqueue cfg now (exec cfg calls) request b cw tw aw).2.queues
          (queueKey request) ≠ [] := by
        rw [(hp.items (queueKey request)).trans (if_pos rfl)]
        simp
      obtain ⟨q', hq'⟩ := get?_of_backlog hback
      have hlatest := hfollow (queueKey request) q' (by rw [exec_snoc]; exact hq')
      rw [latestWeight_snoc] at hlatest
      simp only [apply, hres, passed, if_true, Option.some_or, Option.some.injEq] at hlatest
      rcases weight_of_enqueue hres hq' with ⟨hcon, -⟩ | ⟨-, hweight⟩
      · exact hcon rfl
      · rw [hq] at hweight
        exact hne (hweight.symm.trans hlatest.symm)
  | cancel id => exact h
  | popNext => exact h

/-! ## Any run -/

/-- **The weight passed last is the weight in force**, in every state a run
goes through, exactly when no call of the run reweighs a queue. -/
theorem weights_follow_policy_iff (cfg : Config F) (calls : List (Call F)) :
    (∀ pre, pre <+: calls → WeightsFollow cfg pre) ↔
      ∀ pre c, pre ++ [c] <+: calls → ¬ Reweighs cfg (exec cfg pre) c := by
  constructor
  · intro hfollow pre c hpre hre
    exact not_weightsFollow_snoc hre (hfollow _ hpre)
  · intro hno pre hpre
    exact prefix_induction (fun pre' c hc => hno pre' c (hc.trans hpre))
      (fun k q hq => by cases hq) fun _ _ hfollow hc => hfollow.snoc hc

/-- **A weight raised while the queue is backlogged is not seen.** One
tenant's request is enqueued with weight one and its next, after a reload,
with weight six: the queue keeps weight one. -/
theorem raised_weight_dropped :
    ∃ q, (exec backlogConfig [⟨0, .enqueue (backlogRequest 0 "tenant") 1 1 1 1⟩,
        ⟨1, .enqueue (backlogRequest 1 "tenant") 1 1 6 1⟩]).queues.get? (backlogKey "tenant") =
          some q ∧ q.items.length = 2 ∧ q.weight = 1 ∧
      latestWeight backlogConfig (backlogKey "tenant")
        [⟨0, .enqueue (backlogRequest 0 "tenant") 1 1 1 1⟩,
          ⟨1, .enqueue (backlogRequest 1 "tenant") 1 1 6 1⟩] = some 6 := by
  have hrun : ((exec backlogConfig [⟨0, .enqueue (backlogRequest 0 "tenant") 1 1 1 1⟩,
      ⟨1, .enqueue (backlogRequest 1 "tenant") 1 1 6 1⟩]).queues.get? (backlogKey "tenant")).any
        (fun q => q.items.length = 2 ∧ q.weight = 1) = true := by
    decide +kernel
  obtain ⟨q, hq, hrun⟩ := (Option.any_eq_true _ _).mp hrun
  obtain ⟨hlength, hweight⟩ := of_decide_eq_true hrun
  exact ⟨q, hq, hlength, hweight, by decide +kernel⟩

end Scheduler

end InferQos
