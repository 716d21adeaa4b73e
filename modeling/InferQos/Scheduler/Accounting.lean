import InferQos.Scheduler.Model
/-!
# What a call does to the queues

Every accepted call either appends one item to the queue of its key or
takes one item out of its queue. `Pushed` and `Removed` say what that is,
index and counters included, and `enqueue_spec`, `cancel_spec` and
`popNext_spec` read the three operations into them; the invariants are
derived from these two relations and never from the code again.
-/

namespace InferQos

namespace Scheduler

variable {F : Type}
variable {m : OrdMap QueueKey (QueueState F)} {s s' : Inner F} {k k' : QueueKey}
variable {q : QueueState F} {item : Queued F}

/-! ## Reading a queue map -/

/-- The items waiting under a key. -/
def itemsIn (m : OrdMap QueueKey (QueueState F)) (k : QueueKey) : List (Queued F) :=
  ((m.get? k).map (·.items)).getD []

/-- No queue of the map is empty. -/
def NoEmpty (m : OrdMap QueueKey (QueueState F)) : Prop :=
  ∀ k q, m.get? k = some q → q.items ≠ []

/-- The sum of a weight over every item of the map. -/
def total (f : Queued F → ℕ) (m : OrdMap QueueKey (QueueState F)) : ℕ :=
  m.sumOn fun _ q => (q.items.map f).sum

theorem itemsIn_of_get? (h : m.get? k = some q) : itemsIn m k = q.items := by
  simp [itemsIn, h]

theorem get?_of_backlog (h : itemsIn m k ≠ []) : ∃ q, m.get? k = some q := by
  cases hq : m.get? k with
  | none => exact absurd (by simp [itemsIn, hq]) h
  | some q => exact ⟨q, rfl⟩

theorem itemsIn_insert :
    itemsIn (m.insert k q) k' = if k' = k then q.items else itemsIn m k' := by
  unfold itemsIn
  rw [OrdMap.get?_insert]
  split
  · rfl
  · rfl

theorem get?_of_dropEmpty (h : (dropEmpty m k).get? k' = some q) : m.get? k' = some q := by
  unfold dropEmpty at h
  split at h
  · exact (OrdMap.get?_erase_eq_some.mp h).2
  · exact h

/-- Removing an empty queue removes no item. -/
theorem itemsIn_dropEmpty : itemsIn (dropEmpty m k) k' = itemsIn m k' := by
  unfold dropEmpty
  split
  · rename_i h
    unfold itemsIn
    rw [OrdMap.get?_erase]
    split
    · rename_i hk
      subst hk
      cases hg : m.get? k' with
      | none => rfl
      | some q' =>
        simp only [hg, Option.any_some, List.isEmpty_iff] at h
        simp [h]
    · rfl
  · rfl

/-- Only an emptied queue is dropped, so dropping it leaves none empty. -/
theorem noEmpty_dropEmpty (h : ∀ k' q, k' ≠ k → m.get? k' = some q → q.items ≠ []) :
    NoEmpty (dropEmpty m k) := by
  intro k' q hq
  unfold dropEmpty at hq
  split at hq
  · obtain ⟨hne, hq⟩ := OrdMap.get?_erase_eq_some.mp hq
    exact h k' q hne hq
  · rename_i hany
    by_cases hk : k' = k
    · subst hk
      rw [hq] at hany
      simpa using hany
    · exact h k' q hk hq

/-! ## Totals -/

theorem total_insert (f : Queued F → ℕ) :
    total f (m.insert k q) + ((itemsIn m k).map f).sum =
      total f m + (q.items.map f).sum := by
  unfold total
  cases h : m.get? k with
  | none =>
    rw [OrdMap.sumOn_insert_of_none h]
    simp [itemsIn, h, add_comm]
  | some q' =>
    rw [itemsIn_of_get? h]
    exact OrdMap.sumOn_insert_add h fun _ q => (q.items.map f).sum

theorem total_dropEmpty (f : Queued F → ℕ) : total f (dropEmpty m k) = total f m := by
  unfold dropEmpty
  split
  · rename_i h
    cases hg : m.get? k with
    | none => rw [OrdMap.erase_of_get?_eq_none hg]
    | some q =>
      simp only [hg, Option.any_some, List.isEmpty_iff] at h
      unfold total
      rw [OrdMap.sumOn_eq_add_erase hg]
      simp [h]
  · rfl

/-- Taking out the first match takes out one item. -/
theorem perm_eraseP_of_find? {α : Type*} {p : α → Bool} {l : List α} {a : α}
    (h : l.find? p = some a) : l.Perm (a :: l.eraseP p) := by
  induction l with
  | nil => cases h
  | cons b l ih =>
    by_cases hb : p b = true
    · rw [List.find?_cons_of_pos hb] at h
      rw [List.eraseP_cons_of_pos hb, Option.some.inj h]
    · rw [List.find?_cons_of_neg hb] at h
      rw [List.eraseP_cons_of_neg hb]
      exact ((ih h).cons b).trans (List.Perm.swap a b _)

/-! ## The two effects -/

/-- **One item more**, at the back of the queue of its key. -/
structure Pushed (s s' : Inner F) (item : Queued F) : Prop where
  items : ∀ k, itemsIn s'.queues k =
    if k = queueKey item.request then itemsIn s.queues k ++ [item] else itemsIn s.queues k
  fresh : s.index.get? item.request.id = none
  index : s'.index = s.index.insert item.request.id (queueKey item.request)
  total : ∀ f, total f s'.queues = total f s.queues + f item
  noEmpty : NoEmpty s.queues → NoEmpty s'.queues
  depth : s'.depth = wrappingAdd s.depth 1
  bytes : s'.bytes = wrappingAdd s.bytes item.bodyBytes

/-- **One item less**: the first under key `k` that carries its id. -/
structure Removed (s s' : Inner F) (k : QueueKey) (item : Queued F) : Prop where
  found : (itemsIn s.queues k).find? (·.request.id = item.request.id) = some item
  items : ∀ k', itemsIn s'.queues k' =
    if k' = k then (itemsIn s.queues k).eraseP (·.request.id = item.request.id)
    else itemsIn s.queues k'
  index : s'.index = s.index.erase item.request.id
  total : ∀ f, total f s.queues = total f s'.queues + f item
  noEmpty : NoEmpty s.queues → NoEmpty s'.queues
  depth : s'.depth = wrappingSub s.depth 1
  bytes : s'.bytes = wrappingSub s.bytes item.bodyBytes

/-! ## Renormalising moves no item -/

variable [Arith F]

theorem get?_renormalise (cfg : Config F) :
    ((renormalise cfg m).get? k).map (·.items) = (m.get? k).map (·.items) := by
  unfold renormalise
  split
  · rfl
  · split
    · rw [OrdMap.get?_mapVal, Option.map_map]
      rfl
    · rfl

theorem total_renormalise (cfg : Config F) (f : Queued F → ℕ) :
    total f (renormalise cfg m) = total f m := by
  unfold renormalise
  split
  · rfl
  · split
    · simp only [total, OrdMap.sumOn, OrdMap.mapVal, List.map_map, Function.comp_def]
    · rfl

/-! ## The three operations -/

variable (cfg : Config F) (now : ℕ)

/-- **`enqueue` refuses and changes nothing, or appends one item.** -/
theorem enqueue_spec (s : Inner F) (request : AdmissionRequest F)
    (bodyBytes classWeight tenantWeight appWeight : ℕ) :
    let r := enqueue cfg now s request bodyBytes classWeight tenantWeight appWeight
    (∃ e, r.1 = .error e ∧ r.2 = s ∧
        (cfg.maxDepth ≤ s.depth ∨ cfg.maxBytes < saturatingAdd s.bytes bodyBytes ∨
          (s.index.get? request.id).isSome)) ∨
      (r.1 = .ok (wrappingAdd s.depth 1) ∧ s.depth < cfg.maxDepth ∧
        saturatingAdd s.bytes bodyBytes ≤ cfg.maxBytes ∧
        Pushed s r.2 (newItem now s request bodyBytes)) := by
  intro r
  by_cases hd : cfg.maxDepth ≤ s.depth
  · have hr : r = (.error .depthLimit, s) := if_pos hd
    exact Or.inl ⟨.depthLimit, by rw [hr], by rw [hr], Or.inl hd⟩
  by_cases hb : cfg.maxBytes < saturatingAdd s.bytes bodyBytes
  · have hr : r = (.error .byteLimit, s) := (if_neg hd).trans (if_pos hb)
    exact Or.inl ⟨.byteLimit, by rw [hr], by rw [hr], Or.inr (Or.inl hb)⟩
  by_cases hi : (s.index.get? request.id).isSome
  · have hr : r = (.error (.duplicate request.id), s) :=
      (if_neg hd).trans ((if_neg hb).trans (if_pos hi))
    exact Or.inl ⟨.duplicate request.id, by rw [hr], by rw [hr], Or.inr (Or.inr hi)⟩
  right
  have hr : r = _ := (if_neg hd).trans ((if_neg hb).trans (if_neg hi))
  rw [hr]
  refine ⟨rfl, by omega, by omega, ?_⟩
  -- a queue that does not exist yet starts empty, so both cases append to the same items
  have hq : ((s.queues.get? (queueKey request)).getD
      ⟨[], Arith.lit 0, hierarchyWeight classWeight tenantWeight appWeight⟩).items =
        itemsIn s.queues (queueKey request) := by
    unfold itemsIn
    cases s.queues.get? (queueKey request) <;> rfl
  constructor
  · intro k
    change itemsIn _ k = if k = queueKey request then _ else _
    rw [itemsIn_insert]
    split
    · rename_i hk
      rw [hk, ← hq]
    · rfl
  · exact Option.not_isSome_iff_eq_none.mp hi
  · rfl
  · intro f
    have h := total_insert (m := s.queues) (k := queueKey request)
      (q := { (s.queues.get? (queueKey request)).getD
        ⟨[], Arith.lit 0, hierarchyWeight classWeight tenantWeight appWeight⟩ with
          items := itemsIn s.queues (queueKey request) ++
            [newItem now s request bodyBytes] }) f
    simp only [List.map_append, List.sum_append, List.map_cons, List.map_nil, List.sum_cons,
      List.sum_nil] at h
    simp only [hq]
    omega
  · intro hne k q hget
    rcases OrdMap.get?_insert_eq_some.mp hget with ⟨-, rfl⟩ | ⟨-, hget⟩
    · simp
    · exact hne k q hget
  · rfl
  · rfl

/-! ## Taking an item out -/

/-- **What the index and the queues agree on.** The ids waiting are
pairwise distinct, each is indexed under the key of the queue that holds
it, and no queue is empty. -/
structure Keyed (s : Inner F) : Prop where
  noEmpty : NoEmpty s.queues
  keyed : ∀ k, ∀ it ∈ itemsIn s.queues k, queueKey it.request = k
  nodup : ∀ k, ((itemsIn s.queues k).map (·.request.id)).Nodup
  index : ∀ id k, s.index.get? id = some k ↔ ∃ it ∈ itemsIn s.queues k, it.request.id = id

omit [Arith F] in
/-- The queue a removal shortens, put back and dropped if it is empty now.
`m` is that map, up to a change that moves no item. -/
theorem removed_of_insert (item : Queued F) {q' : QueueState F} (hget : s.queues.get? k = some q)
    (hfind : q.items.find? (·.request.id = item.request.id) = some item)
    (hq' : q'.items = q.items.eraseP (·.request.id = item.request.id))
    (hqueues : ∀ k', (m.get? k').map (·.items) =
      ((s.queues.insert k q').get? k').map (·.items))
    (htotal : ∀ f, total f m = total f (s.queues.insert k q')) :
    Removed s
      { s with
        queues := dropEmpty m k
        index := s.index.erase item.request.id
        depth := wrappingSub s.depth 1
        bytes := wrappingSub s.bytes item.bodyBytes } k item := by
  have hitems := itemsIn_of_get? hget
  have hread : ∀ k', itemsIn m k' = if k' = k then q'.items else itemsIn s.queues k' := by
    intro k'
    rw [← itemsIn_insert]
    unfold itemsIn
    rw [hqueues]
  refine ⟨by rw [hitems]; exact hfind, fun k' => ?_, rfl, fun f => ?_, fun hne => ?_, rfl, rfl⟩
  · change itemsIn (dropEmpty m k) k' = _
    rw [itemsIn_dropEmpty, hread, hitems, hq']
  · change _ = total f (dropEmpty m k) + f item
    have hperm := ((perm_eraseP_of_find? hfind).map f).sum_eq
    have hins := total_insert (m := s.queues) (k := k) (q := q') f
    rw [List.map_cons, List.sum_cons, ← hq'] at hperm
    rw [hitems] at hins
    rw [total_dropEmpty, htotal]
    omega
  · refine noEmpty_dropEmpty fun k' q₁ hk' hq₁ => ?_
    have h1 := hqueues k'
    rw [hq₁, OrdMap.get?_insert_of_ne hk'] at h1
    obtain ⟨q₂, hq₂, heq⟩ := Option.map_eq_some_iff.mp h1.symm
    exact fun hnil => hne k' q₂ hq₂ (heq.trans hnil)

omit [Arith F] in
/-- **`cancel` removes the item of an indexed id, and does nothing for any
other id.** -/
theorem cancel_spec (h : Keyed s) (id : Uuid) :
    (s.index.get? id = none ∧ cancel s id = (false, s)) ∨
      ∃ k item, item.request.id = id ∧ (cancel s id).1 = true ∧
        Removed s (cancel s id).2 k item := by
  cases hi : s.index.get? id with
  | none =>
    left
    exact ⟨rfl, by unfold cancel; rw [hi]⟩
  | some k =>
    right
    obtain ⟨it, hit, hid⟩ := (h.index id k).mp hi
    cases hq : s.queues.get? k with
    | none => simp [itemsIn, hq] at hit
    | some q =>
      rw [itemsIn_of_get? hq] at hit
      have hsome : (q.items.find? (·.request.id = id)).isSome := by
        rw [List.find?_isSome]
        exact ⟨it, hit, by simpa using hid⟩
      obtain ⟨item, hitem⟩ := Option.isSome_iff_exists.mp hsome
      have hiid : item.request.id = id := by simpa using List.find?_some hitem
      refine ⟨k, item, hiid, ?_, ?_⟩
      · simp [cancel, hi, hq, hitem]
      · have hr := removed_of_insert item (m := s.queues.insert k
          { q with items := q.items.eraseP (·.request.id = id) }) hq (by rw [hiid]; exact hitem)
          (by rw [hiid]) (fun _ => rfl) (fun _ => rfl)
        rw [hiid] at hr
        simpa [cancel, hi, hq, hitem] using hr

/-- A selected key names a queue with a front. -/
theorem select_spec (h : select cfg now s = some k) :
    ∃ q item rest, s.queues.get? k = some q ∧ q.items = item :: rest := by
  obtain ⟨c, hc, rfl⟩ := Option.map_eq_some_iff.mp h
  obtain ⟨e, he, hf⟩ := List.mem_filterMap.mp (maxBy_mem hc)
  obtain ⟨front, hfront, rfl⟩ := Option.map_eq_some_iff.mp hf
  obtain ⟨rest, hrest⟩ := List.head?_eq_some_iff.mp hfront
  exact ⟨e.2, front, rest, OrdMap.get?_eq_some.mpr he, hrest⟩

/-- Nothing is selected where no queue has a front. -/
theorem select_eq_none (hne : NoEmpty s.queues) :
    select cfg now s = none ↔ s.queues.entries = [] := by
  unfold select candidates
  rw [Option.map_eq_none_iff, maxBy_eq_none, List.filterMap_eq_nil_iff]
  constructor
  · intro hnone
    by_contra hcon
    obtain ⟨e, he⟩ := List.exists_mem_of_ne_nil _ hcon
    have hq := hne e.1 e.2 (OrdMap.get?_eq_some.mpr he)
    have := hnone e he
    rw [Option.map_eq_none_iff, List.head?_eq_none_iff] at this
    exact hq this
  · intro hnil e he
    rw [hnil] at he
    cases he

/-- **`popNext` takes the front of a queue, and finds none only where
nothing waits.** Neither `expect` is reached. -/
theorem popNext_spec (hne : NoEmpty s.queues) :
    (s.queues.entries = [] ∧ popNext cfg now s = (.ok none, s)) ∨
      ∃ k item rest, itemsIn s.queues k = item :: rest ∧
        (popNext cfg now s).1 = .ok (some item.request) ∧
        Removed s (popNext cfg now s).2 k item := by
  cases hsel : select cfg now s with
  | none =>
    left
    exact ⟨(select_eq_none cfg now hne).mp hsel, by unfold popNext; rw [hsel]⟩
  | some k =>
    right
    obtain ⟨q, item, rest, hq, hitems⟩ := select_spec cfg now hsel
    refine ⟨k, item, rest, by rw [itemsIn_of_get? hq, hitems], ?_, ?_⟩
    · simp [popNext, hsel, hq, hitems]
    · have hr := removed_of_insert item
        (m := renormalise cfg (s.queues.insert k
          { q with
            items := rest
            served := q.served +
              max item.request.estimate.normalizedUnits (Arith.lit 1) /
                max q.weight (Arith.lit 1) })) hq (by simp [hitems]) (by simp [hitems])
        (fun _ => get?_renormalise cfg) (fun f => total_renormalise cfg f)
      simpa [popNext, hsel, hq, hitems] using hr

/-! ## Charges and weights -/

omit [Arith F] in
/-- **A `cancel` keeps the charge and the weight** of every queue it
leaves. -/
theorem kept_of_cancel {id : Uuid} {q' : QueueState F}
    (h : (cancel s id).2.queues.get? k = some q') :
    ∃ q, s.queues.get? k = some q ∧ q'.served = q.served ∧ q'.weight = q.weight := by
  unfold cancel at h
  split at h
  · exact ⟨q', h, rfl, rfl⟩
  · have h := get?_of_dropEmpty h
    split at h
    · exact ⟨q', h, rfl, rfl⟩
    · rename_i q₀ hq₀
      rcases OrdMap.get?_insert_eq_some.mp h with ⟨rfl, rfl⟩ | ⟨-, h⟩
      · exact ⟨q₀, hq₀, rfl, rfl⟩
      · exact ⟨q', h, rfl, rfl⟩

theorem weight_of_renormalise {q' : QueueState F} (h : (renormalise cfg m).get? k = some q') :
    ∃ q, m.get? k = some q ∧ q'.weight = q.weight := by
  unfold renormalise at h
  split at h
  · exact ⟨q', h, rfl⟩
  · split at h
    · rw [OrdMap.get?_mapVal] at h
      obtain ⟨q, hq, rfl⟩ := Option.map_eq_some_iff.mp h
      exact ⟨q, hq, rfl⟩
    · exact ⟨q', h, rfl⟩

/-- **A pop keeps the weight** of every queue it leaves. -/
theorem weight_of_popNext {q' : QueueState F}
    (h : (popNext cfg now s).2.queues.get? k = some q') :
    ∃ q, s.queues.get? k = some q ∧ q'.weight = q.weight := by
  unfold popNext at h
  split at h
  · exact ⟨q', h, rfl⟩
  · split at h
    · exact ⟨q', h, rfl⟩
    · rename_i selected _ q₀ hq₀
      split at h
      · exact ⟨q', h, rfl⟩
      · obtain ⟨q₁, hq₁, hw⟩ := weight_of_renormalise cfg (get?_of_dropEmpty h)
        rcases OrdMap.get?_insert_eq_some.mp hq₁ with ⟨rfl, rfl⟩ | ⟨-, hq₁⟩
        · exact ⟨q₀, hq₀, hw⟩
        · exact ⟨q₁, hq₁, hw⟩

end Scheduler

end InferQos
