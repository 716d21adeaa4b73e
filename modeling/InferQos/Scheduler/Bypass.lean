import InferQos.Scheduler.Fairness
/-!
# Overtaking an overdue request

The three terms of a score are of different kinds: the service credit is
positive and at most the weight of its queue, because no charge is
negative; the age is unbounded; and the deadline pressure of an overdue
front is the greatest there is. A front past its deadline therefore loses
to another front by credit and age alone, and only to one that was
enqueued less than a weight's worth of half-lives after it.
-/

namespace InferQos

namespace Scheduler

variable {cfg : Config ℚ} {now now' : ℕ} {s : Inner ℚ} {c : Call ℚ} {calls : List (Call ℚ)}
variable {q : QueueState ℚ} {front : Queued ℚ} {r : AdmissionRequest ℚ}

/-! ## The terms of a score -/

theorem fair_pos (hquantum : 0 < cfg.quantum) (hs : 0 ≤ q.served) (hw : 1 ≤ q.weight) :
    0 < fair cfg q :=
  div_pos (mul_pos (by linarith) hquantum) (by linarith)

/-- **The credit of a queue is at most its weight**, which it is while the
queue is uncharged. -/
theorem fair_le_weight (hquantum : 0 < cfg.quantum) (hs : 0 ≤ q.served) (hw : 1 ≤ q.weight) :
    fair cfg q ≤ q.weight := by
  have hpos : 0 < q.served + cfg.quantum := by linarith
  have hcharge : 0 ≤ q.weight * q.served := mul_nonneg (by linarith) hs
  unfold fair
  rw [div_le_iff₀ hpos]
  linarith

/-- **Nothing presses harder than a deadline that has passed.** -/
theorem deadlineBoost_le (cfg : Config ℚ) (now : ℕ) (front : Queued ℚ) :
    deadlineBoost cfg now front ≤ 1000000 := by
  unfold deadlineBoost
  split
  · exact le_rfl
  · exact (min_le_right _ _).trans (by change (100000 : ℚ) ≤ 1000000; norm_num)

theorem deadlineBoost_overdue (h : front.deadlineNs ≤ now) :
    deadlineBoost cfg now front = 1000000 := by
  unfold deadlineBoost
  rw [if_pos h]
  rfl

/-- The age of a front that the clock has reached. -/
theorem ageBoost_eq (h : front.enqueuedNs ≤ now) :
    ageBoost cfg now front = ((now : ℚ) - front.enqueuedNs) / (max cfg.agingHalfLife 1 : ℕ) := by
  rw [← Nat.cast_sub h]
  rfl

/-! ## Enqueue times along a run -/

/-- **No request was enqueued after `now`.** -/
def EnqueuedBy (now : ℕ) (s : Inner ℚ) : Prop := ∀ it ∈ queued s, it.enqueuedNs ≤ now

/-- A call at a later reading. -/
theorem EnqueuedBy.apply (hk : Keyed s) (h : EnqueuedBy now s) (hle : now ≤ c.now) :
    EnqueuedBy c.now (apply cfg s c).2 := by
  intro it hit
  rcases mem_queued_of_apply hk cfg c hit with hit | ⟨request, b, rfl⟩
  · exact (h it hit).trans hle
  · exact le_rfl

/-- **Along a run whose clock does not go back**, no request was enqueued
after the last reading. -/
theorem exec_enqueuedBy (cfg : Config ℚ) (hclock : calls.Pairwise (·.now ≤ ·.now))
    (hnow : ∀ c ∈ calls, c.now ≤ now) : EnqueuedBy now (exec cfg calls) := by
  induction calls using List.reverseRecOn generalizing now with
  | nil => exact fun it hit => (List.not_mem_nil hit).elim
  | append_singleton calls c ih =>
    obtain ⟨hclock, -, hlast⟩ := List.pairwise_append.mp hclock
    have hbefore : ∀ d ∈ calls, d.now ≤ c.now := fun d hd => hlast d hd c (List.mem_singleton_self c)
    have hc : c.now ≤ now := hnow c (List.mem_append_right _ (List.mem_singleton_self c))
    rw [exec_snoc]
    intro it hit
    exact ((ih hclock hbefore).apply (exec_keyed cfg calls) le_rfl it hit).trans hc

/-! ## The window -/

/-- The request served was the front of its queue, and no front had a
greater score. -/
theorem served_front_of_popNext {k : QueueKey} {qh : QueueState ℚ} {h : Queued ℚ} (hk : Keyed s)
    (hpop : (popNext cfg now s).1 = .ok (some r)) (hqh : s.queues.get? k = some qh)
    (hh : qh.items.head? = some h) :
    ∃ q front, s.queues.get? (queueKey r) = some q ∧ q.items.head? = some front ∧
      front.request = r ∧ score cfg now qh h ≤ score cfg now q front := by
  obtain ⟨q, front, hq, hfront, hle⟩ := score_le_of_popNext hpop hk hqh hh
  obtain ⟨old, rest, hitems, rfl⟩ := front_of_popNext hk hpop
  rw [itemsIn_of_get? hq] at hitems
  rw [hitems, List.head?_cons, Option.some.injEq] at hfront
  exact ⟨q, front, hq, by rw [hitems, hfront, List.head?_cons], by rw [hfront], hle⟩

/-- **An overdue front is overtaken within a window.** -/
theorem enqueued_lt_of_score_le {qh : QueueState ℚ} {h : Queued ℚ} (hquantum : 0 < cfg.quantum)
    (hs : 0 ≤ q.served) (hw : 1 ≤ q.weight) (hsh : 0 ≤ qh.served) (hwh : 1 ≤ qh.weight)
    (hfront : front.enqueuedNs ≤ now) (hh : h.enqueuedNs ≤ now) (hdue : h.deadlineNs ≤ now)
    (hle : score cfg now qh h ≤ score cfg now q front) :
    (front.enqueuedNs : ℚ) < h.enqueuedNs + q.weight * (max cfg.agingHalfLife 1 : ℕ) := by
  have hhalf : (0 : ℚ) < (max cfg.agingHalfLife 1 : ℕ) := by
    exact_mod_cast Nat.lt_of_lt_of_le Nat.one_pos (le_max_right cfg.agingHalfLife 1)
  have hcredit := fair_le_weight hquantum hs hw
  have hcredit' := fair_pos hquantum hsh hwh
  have hpressure := deadlineBoost_le cfg now front
  unfold score at hle
  rw [deadlineBoost_overdue hdue, ageBoost_eq hfront, ageBoost_eq hh] at hle
  have hages : ((now : ℚ) - h.enqueuedNs) / (max cfg.agingHalfLife 1 : ℕ) -
      ((now : ℚ) - front.enqueuedNs) / (max cfg.agingHalfLife 1 : ℕ) < q.weight := by
    linarith
  rw [← sub_div, div_lt_iff₀ hhalf] at hages
  linarith

/-- **No starvation past the deadline.** Along every run whose clock does
not go back, no charge is negative; and when a pop at a later reading
returns a request while the front of a queue is overdue, the request was
enqueued less than its queue's weight in half-lives after that front. -/
theorem overdue_front_overtaken_within (cfg : Config ℚ) (hquantum : 0 < cfg.quantum)
    (calls : List (Call ℚ)) (hclock : calls.Pairwise (·.now ≤ ·.now)) :
    (∀ k q, (exec cfg calls).queues.get? k = some q → 0 ≤ q.served) ∧
      ∀ now, (∀ c ∈ calls, c.now ≤ now) →
        ∀ r, (popNext cfg now (exec cfg calls)).1 = .ok (some r) →
          ∀ k qh h, (exec cfg calls).queues.get? k = some qh → qh.items.head? = some h →
            h.deadlineNs ≤ now →
              ∃ q front, (exec cfg calls).queues.get? (queueKey r) = some q ∧
                q.items.head? = some front ∧ front.request = r ∧
                (front.enqueuedNs : ℚ) < h.enqueuedNs + q.weight * (max cfg.agingHalfLife 1 : ℕ) := by
  have hk := exec_keyed cfg calls
  have hcharged := exec_charged cfg calls
  refine ⟨fun k q hq => (hcharged k q hq).1, ?_⟩
  intro now hnow r hpop k qh h hqh hh hdue
  obtain ⟨q, front, hq, hfront, hreq, hle⟩ := served_front_of_popNext hk hpop hqh hh
  have hby := exec_enqueuedBy cfg hclock hnow
  have hbyFront : front.enqueuedNs ≤ now := by
    refine hby front (mem_queued.mpr ⟨queueKey r, ?_⟩)
    rw [itemsIn_of_get? hq]
    exact List.mem_of_mem_head? hfront
  have hbyH : h.enqueuedNs ≤ now := by
    refine hby h (mem_queued.mpr ⟨k, ?_⟩)
    rw [itemsIn_of_get? hqh]
    exact List.mem_of_mem_head? hh
  obtain ⟨hs, hw⟩ := hcharged _ q hq
  obtain ⟨hsh, hwh⟩ := hcharged k qh hqh
  exact ⟨q, front, hq, hfront, hreq,
    enqueued_lt_of_score_le hquantum hs hw hsh hwh hbyFront hbyH hdue hle⟩

/-- A batch request waits from reading zero, past its deadline; one of a
queue of weight six comes a half-life later, and is served first. -/
def bypassCalls : List (Call ℚ) :=
  [⟨0, .enqueue (backlogRequest 0 "light") 1 1 1 1⟩,
    ⟨2000000000, .enqueue (backlogRequest 1 "heavy") 1 1 6 1⟩]

/-- The later request is within its six half-lives. -/
theorem overdue_front_overtaken_by_heavy :
    ∃ q front, (exec backlogConfig bypassCalls).queues.get? (backlogKey "heavy") = some q ∧
      q.items.head? = some front ∧ front.request = backlogRequest 1 "heavy" ∧
      (front.enqueuedNs : ℚ) < 0 + q.weight * (max backlogConfig.agingHalfLife 1 : ℕ) := by
  have hpop : (popNext backlogConfig 2000001000 (exec backlogConfig bypassCalls)).1 =
      .ok (some (backlogRequest 1 "heavy")) := by
    decide +kernel
  have hfront : ((exec backlogConfig bypassCalls).queues.get? (backlogKey "light")).any
      (fun q => q.items.head?.any fun h => h.deadlineNs ≤ 2000001000 ∧ h.enqueuedNs = 0) = true := by
    decide +kernel
  obtain ⟨qh, hqh, hfront⟩ := (Option.any_eq_true _ _).mp hfront
  obtain ⟨h, hh, hfront⟩ := (Option.any_eq_true _ _).mp hfront
  obtain ⟨hdue, hzero⟩ := of_decide_eq_true hfront
  have hbypass := (overdue_front_overtaken_within backlogConfig (by decide +kernel) bypassCalls
    (by decide)).2 2000001000 (by decide) _ hpop _ qh h hqh hh hdue
  rw [hzero, Nat.cast_zero] at hbypass
  exact hbypass

end Scheduler

end InferQos
