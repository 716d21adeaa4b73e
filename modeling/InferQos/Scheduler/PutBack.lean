import InferQos.Scheduler.History
/-!
# A pop and its put-back

What a call takes away and what it leaves, by request; and what becomes of
a request that is popped, found to have no room, and enqueued again. The
put-back is a plain `enqueue`: it stamps the request with the clock, sends
it behind everything its queue holds by then, and gives nothing of the
charge back. `unharmed_iff` says when none of this shows.
-/

namespace InferQos

/-! ## What the scheduler holds -/

namespace Scheduler

variable {F : Type} {s s' : Inner F} {k : QueueKey} {item : Queued F} {r : AdmissionRequest F}

/-- A request waits in some queue. -/
def Holds (s : Inner F) (r : AdmissionRequest F) : Prop := ∃ item ∈ queued s, item.request = r

theorem Pushed.mem_queued (h : Pushed s s' item) {it : Queued F} :
    it ∈ queued s' ↔ it ∈ queued s ∨ it = item := by
  simp only [Scheduler.mem_queued, h.items]
  constructor
  · rintro ⟨k, hk⟩
    split at hk
    · rcases List.mem_append.mp hk with hk | hk
      · exact Or.inl ⟨k, hk⟩
      · exact Or.inr (List.mem_singleton.mp hk)
    · exact Or.inl ⟨k, hk⟩
  · rintro (⟨k, hk⟩ | rfl)
    · refine ⟨k, ?_⟩
      split
      · exact List.mem_append_left _ hk
      · exact hk
    · exact ⟨_, by rw [if_pos rfl]; exact List.mem_append_right _ (List.mem_singleton_self _)⟩

theorem Removed.mem_queued (hk : Keyed s) (h : Removed s s' k item) {it : Queued F} :
    it ∈ queued s' ↔ it ∈ queued s ∧ it.request.id ≠ item.request.id := by
  simp [Scheduler.mem_queued, h.items_filter hk]

/-- The id of a waiting request names it. -/
theorem Keyed.eq_of_id (hk : Keyed s) (h : Holds s r) (hitem : item ∈ queued s)
    (hid : r.id = item.request.id) : r = item.request := by
  obtain ⟨it, hit, rfl⟩ := h
  rw [List.inj_on_of_nodup_map hk.ids_nodup hit hitem hid]

variable [Arith F] {cfg : Config F} {now : ℕ}

/-- **An `enqueue` takes nothing away.** -/
theorem Holds.enqueue (h : Holds s r) (request : AdmissionRequest F) (b cw tw aw : ℕ) :
    Holds (enqueue cfg now s request b cw tw aw).2 r := by
  obtain ⟨it, hit, rfl⟩ := h
  rcases enqueue_spec cfg now s request b cw tw aw with ⟨e, -, hs, -⟩ | ⟨-, -, -, hp⟩
  · exact ⟨it, hs.symm ▸ hit, rfl⟩
  · exact ⟨it, hp.mem_queued.mpr (Or.inl hit), rfl⟩

/-- **An `enqueue` with room for a new id adds its request.** -/
theorem holds_enqueue (request : AdmissionRequest F) {b : ℕ} (cw tw aw : ℕ)
    (hdepth : s.depth < cfg.maxDepth) (hbytes : saturatingAdd s.bytes b ≤ cfg.maxBytes)
    (hid : s.index.get? request.id = none) :
    Holds (Scheduler.enqueue cfg now s request b cw tw aw).2 request := by
  rcases enqueue_spec cfg now s request b cw tw aw with ⟨e, -, -, hwhy⟩ | ⟨-, -, -, hp⟩
  · rcases hwhy with hwhy | hwhy | hwhy
    · omega
    · omega
    · rw [hid] at hwhy
      cases hwhy
  · exact ⟨_, hp.mem_queued.mpr (Or.inr rfl), rfl⟩

/-- An accepted `enqueue` adds its request. -/
theorem holds_of_enqueue_ok {request : AdmissionRequest F} {b cw tw aw depth : ℕ}
    (h : (Scheduler.enqueue cfg now s request b cw tw aw).1 = .ok depth) :
    Holds (Scheduler.enqueue cfg now s request b cw tw aw).2 request := by
  rcases enqueue_spec cfg now s request b cw tw aw with ⟨e, hres, -⟩ | ⟨-, -, -, hp⟩
  · rw [h] at hres
    cases hres
  · exact ⟨_, hp.mem_queued.mpr (Or.inr rfl), rfl⟩

omit [Arith F] in
/-- **A `cancel` takes away the request of its id only.** -/
theorem Holds.cancel (hk : Keyed s) (h : Holds s r) {id : Uuid} (hne : r.id ≠ id) :
    Holds (cancel s id).2 r := by
  obtain ⟨it, hit, rfl⟩ := h
  rcases cancel_spec hk id with ⟨-, hs⟩ | ⟨k, item, rfl, -, hr⟩
  · exact ⟨it, hs.symm ▸ hit, rfl⟩
  · exact ⟨it, (hr.mem_queued hk).mpr ⟨hit, hne⟩, rfl⟩

/-- **`popNext` takes away the request it returns**, and no other. -/
theorem Holds.popNext (hk : Keyed s) (h : Holds s r) :
    Holds (popNext cfg now s).2 r ∨ (popNext cfg now s).1 = .ok (some r) := by
  rcases popNext_spec cfg now hk.noEmpty with ⟨-, hs⟩ | ⟨k, item, rest, -, hres, hr⟩
  · rw [hs]
    exact Or.inl h
  · by_cases hid : r.id = item.request.id
    · rw [hk.eq_of_id h (Scheduler.mem_queued.mpr ⟨k, hr.mem⟩) hid]
      exact Or.inr hres
    · obtain ⟨it, hit, rfl⟩ := h
      exact Or.inl ⟨it, (hr.mem_queued hk).mpr ⟨hit, hid⟩, rfl⟩

omit [Arith F] in
/-- A `cancel` adds nothing. -/
theorem mem_queued_of_cancel (hk : Keyed s) {id : Uuid} {it : Queued F}
    (h : it ∈ queued (Scheduler.cancel s id).2) : it ∈ queued s := by
  rcases cancel_spec hk id with ⟨-, hs⟩ | ⟨k, item, -, -, hr⟩
  · rw [hs] at h
    exact h
  · exact ((hr.mem_queued hk).mp h).1

/-- A pop adds nothing. -/
theorem mem_queued_of_popNext (hk : Keyed s) {it : Queued F}
    (h : it ∈ queued (Scheduler.popNext cfg now s).2) : it ∈ queued s := by
  rcases popNext_spec cfg now hk.noEmpty with ⟨-, hs⟩ | ⟨k, item, rest, -, -, hr⟩
  · rw [hs] at h
    exact h
  · exact ((hr.mem_queued hk).mp h).1

/-- **A call leaves what waited, less what it takes**, and adds only the
item of an `enqueue` at its clock reading. -/
theorem mem_queued_of_apply (hk : Keyed s) (cfg : Config F) (c : Call F) {it : Queued F}
    (h : it ∈ queued (apply cfg s c).2) :
    it ∈ queued s ∨ ∃ request b, it = newItem c.now s request b := by
  obtain ⟨now, op⟩ := c
  cases op with
  | enqueue request b cw tw aw =>
    change it ∈ queued (Scheduler.enqueue cfg now s request b cw tw aw).2 at h
    rcases enqueue_spec cfg now s request b cw tw aw with ⟨e, -, hs, -⟩ | ⟨-, -, -, hp⟩
    · rw [hs] at h
      exact Or.inl h
    · exact (hp.mem_queued.mp h).imp_right fun h => ⟨request, b, h⟩
  | cancel id => exact Or.inl (mem_queued_of_cancel hk h)
  | popNext => exact Or.inl (mem_queued_of_popNext hk h)

/-! ## Deadlines -/

omit [Arith F] in
/-- **A deadline is set by the enqueue**: the clock reading then, and the
time the request allows. -/
def Stamped (s : Inner F) : Prop :=
  ∀ it ∈ queued s, it.deadlineNs = saturatingAdd it.enqueuedNs (min it.request.deadline u64Max)

theorem Stamped.apply (hk : Keyed s) (h : Stamped s) (cfg : Config F) (c : Call F) :
    Stamped (apply cfg s c).2 := by
  intro it hit
  rcases mem_queued_of_apply hk cfg c hit with hit | ⟨request, b, rfl⟩
  · exact h it hit
  · rfl

theorem exec_stamped (cfg : Config F) (calls : List (Call F)) : Stamped (exec cfg calls) := by
  induction calls using List.reverseRecOn with
  | nil => exact fun it hit => (List.not_mem_nil hit).elim
  | append_singleton calls c ih =>
    rw [exec_snoc]
    exact ih.apply (exec_keyed cfg calls) cfg c

/-! ## The put-back -/

omit [Arith F] in
/-- The service a queue has been charged, if it exists. -/
def charge (s : Inner F) (k : QueueKey) : Option F := (s.queues.get? k).map (·.served)

omit [Arith F] in
theorem exists_of_isOk {ε α : Type*} {x : Except ε α} (h : x.isOk = true) : ∃ a, x = .ok a := by
  cases x with
  | error e => cases h
  | ok a => exact ⟨a, rfl⟩

/-- An accepted `enqueue` appends its item. -/
theorem pushed_of_enqueue_ok {request : AdmissionRequest F} {b cw tw aw depth : ℕ}
    (h : (Scheduler.enqueue cfg now s request b cw tw aw).1 = .ok depth) :
    Pushed s (Scheduler.enqueue cfg now s request b cw tw aw).2 (newItem now s request b) := by
  rcases enqueue_spec cfg now s request b cw tw aw with ⟨e, hres, -⟩ | ⟨-, -, -, hp⟩
  · rw [h] at hres
    cases hres
  · exact hp

/-- **A queue that does not exist is created uncharged**, and one that does
keeps its charge. -/
theorem charge_of_enqueue_ok {request : AdmissionRequest F} {b cw tw aw depth : ℕ}
    (h : (Scheduler.enqueue cfg now s request b cw tw aw).1 = .ok depth) :
    charge (Scheduler.enqueue cfg now s request b cw tw aw).2 (queueKey request) =
      some ((charge s (queueKey request)).getD (Arith.lit 0)) := by
  unfold Scheduler.enqueue at h ⊢
  split_ifs at h ⊢
  simp only [charge, OrdMap.get?_insert_self, Option.map_some]
  cases s.queues.get? (queueKey request) <;> rfl

omit [Arith F] in
/-- An empty queue does not exist. -/
theorem Keyed.charge_eq_none (hk : Keyed s) (h : itemsIn s.queues k = []) : charge s k = none := by
  unfold charge
  cases hq : s.queues.get? k with
  | none => rfl
  | some q =>
    rw [itemsIn_of_get? hq] at h
    exact absurd h (hk.noEmpty k q hq)

/-- A popped request was the front of its queue. -/
theorem front_of_popNext (hk : Keyed s) (h : (Scheduler.popNext cfg now s).1 = .ok (some r)) :
    ∃ old rest, itemsIn s.queues (queueKey r) = old :: rest ∧ old.request = r := by
  rcases popNext_spec cfg now hk.noEmpty with ⟨-, hs⟩ | ⟨k, item, rest, hitems, hres, hr⟩
  · rw [hs] at h
    cases h
  · rw [h] at hres
    cases hres
    rw [hk.keyed k item hr.mem]
    exact ⟨item, rest, hitems, rfl⟩

omit [Arith F] in
/-- **A failed attempt has cost the request nothing.** It waits with the
times it had, at the front of its queue as before the pop, and so ahead of
every request enqueued after it; and the charge of its queue is what it
was. -/
def Unharmed (before after : Inner F) (r : AdmissionRequest F) : Prop :=
  ∃ old new rest rest',
    itemsIn before.queues (queueKey r) = old :: rest ∧ old.request = r ∧
      itemsIn after.queues (queueKey r) = new :: rest' ∧ new.request = r ∧
      new.enqueuedNs = old.enqueuedNs ∧ new.deadlineNs = old.deadlineNs ∧
      charge after (queueKey r) = charge before (queueKey r)

/-- **When a put-back costs nothing**: it puts back the very request, at
the clock reading at which it was enqueued, into a queue that has gone and
that had never been charged. `s` is the state before the pop and `s'` the
one before the put-back. -/
theorem unharmed_iff {later b cw tw aw depth : ℕ} {r' : AdmissionRequest F} (hk : Keyed s)
    (hst : Stamped s) (hk' : Keyed s') (hpop : (Scheduler.popNext cfg now s).1 = .ok (some r))
    (hid : r'.id = r.id)
    (hput : (Scheduler.enqueue cfg later s' r' b cw tw aw).1 = .ok depth) :
    Unharmed s (Scheduler.enqueue cfg later s' r' b cw tw aw).2 r ↔
      r' = r ∧ (itemsIn s.queues (queueKey r)).head?.map (·.enqueuedNs) = some later ∧
        itemsIn s'.queues (queueKey r) = [] ∧ charge s (queueKey r) = some (Arith.lit 0) := by
  obtain ⟨old, rest, hold, rfl⟩ := front_of_popNext hk hpop
  have hp := pushed_of_enqueue_ok hput
  have hcharge := charge_of_enqueue_ok hput
  -- nothing the put-back finds carries the id it puts back
  have hfresh : ∀ it ∈ itemsIn s'.queues (queueKey old.request), it.request ≠ old.request := by
    intro it hit heq
    have hidx := (hk'.index _ _).mpr ⟨it, hit, rfl⟩
    rw [heq, ← hid, show s'.index.get? r'.id = none from hp.fresh] at hidx
    cases hidx
  have hitems := hp.items (queueKey old.request)
  constructor
  · rintro ⟨old', new, rest₀, rest', hold', -, hnew, hreq, htime, -, hsame⟩
    obtain ⟨rfl, rfl⟩ := List.cons.inj (hold.symm.trans hold')
    rw [hnew] at hitems
    have hempty : itemsIn s'.queues (queueKey old.request) = [] := by
      cases hs : itemsIn s'.queues (queueKey old.request) with
      | nil => rfl
      | cons it its =>
        have hmem : it ∈ itemsIn s'.queues (queueKey old.request) := by simp [hs]
        rw [hs] at hitems
        have hhead : new = it := by
          split at hitems
          · exact (List.cons.inj hitems).1
          · exact (List.cons.inj hitems).1
        exact absurd (hhead ▸ hreq) (hfresh it hmem)
    rw [hempty] at hitems
    split at hitems
    · rename_i hkey
      obtain ⟨rfl, -⟩ := List.cons.inj hitems
      have hr' : r' = old.request := hreq
      subst hr'
      refine ⟨rfl, ?_, hempty, ?_⟩
      · rw [hold, List.head?_cons, Option.map_some, ← htime]
        rfl
      · rw [← hsame, hcharge, hk'.charge_eq_none hempty]
        rfl
    · cases hitems
  · rintro ⟨rfl, hnow, hempty, hzero⟩
    have hnow : old.enqueuedNs = later := by simpa [hold] using hnow
    have hdeadline := hst old (mem_queued.mpr ⟨_, by rw [hold]; exact List.mem_cons_self⟩)
    have hkey : queueKey old.request = queueKey (newItem later s' old.request b).request := rfl
    rw [hempty, if_pos hkey] at hitems
    refine ⟨old, newItem later s' old.request b, rest, [], hold, rfl, hitems, rfl, hnow.symm, ?_, ?_⟩
    · rw [hdeadline, hnow]
      rfl
    · rw [hcharge, hk'.charge_eq_none hempty, hzero]
      rfl

end Scheduler

end InferQos
