import InferQos.Scheduler.Bypass
/-!
# Who is selected

Every item carries a sequence number of its own as long as the counter has
not wrapped (`Numbered`), so no two fronts tie: the pop returns the one
front that outranks all others, by score and then by the earlier number,
whatever the order in which the queues are visited. Each term of a score
only falls as a front was enqueued later or is due later, so a front that
is behind in all of them and in its queue's credit is never returned.
-/

namespace InferQos

namespace Scheduler

/-! ## Sequence numbers along a run -/

section Sequence

variable {F : Type} [Arith F] {cfg : Config F} {s s' : Inner F} {item a b : Queued F} {n : ℕ}

omit [Arith F] in
/-- The acceptances among some events. -/
def acceptances (h : List (Event F)) : ℕ := h.countP fun e => (e.taken (·.id)).isSome

omit [Arith F] in
/-- **After `n` acceptances**: the counter reads `n`, no waiting number is
beyond it, and a number names its item. -/
structure Numbered (n : ℕ) (s : Inner F) : Prop where
  sequence : s.sequence = n
  le : ∀ it ∈ queued s, it.sequence ≤ n
  inj : ∀ it ∈ queued s, ∀ it' ∈ queued s, it.sequence = it'.sequence → it = it'

omit [Arith F] in
theorem Numbered.pushed (h : Numbered n s) (hp : Pushed s s' item) (hitem : item.sequence = n + 1)
    (hs' : s'.sequence = n + 1) : Numbered (n + 1) s' where
  sequence := hs'
  le it hit := by
    rcases hp.mem_queued.mp hit with hit | rfl
    · exact (h.le it hit).trans (Nat.le_succ n)
    · exact hitem.le
  inj it hit it' hit' heq := by
    rcases hp.mem_queued.mp hit with hit | rfl
    · rcases hp.mem_queued.mp hit' with hit' | rfl
      · exact h.inj it hit it' hit' heq
      · have := h.le it hit
        omega
    · rcases hp.mem_queued.mp hit' with hit' | rfl
      · have := h.le it' hit'
        omega
      · rfl

omit [Arith F] in
theorem Numbered.of_subset (h : Numbered n s) (hsub : ∀ it ∈ queued s', it ∈ queued s)
    (hs' : s'.sequence = s.sequence) : Numbered n s' where
  sequence := hs'.trans h.sequence
  le it hit := h.le it (hsub it hit)
  inj it hit it' hit' := h.inj it (hsub it hit) it' (hsub it' hit')

omit [Arith F] in
theorem sequence_cancel (s : Inner F) (id : Uuid) : (cancel s id).2.sequence = s.sequence := by
  unfold cancel
  split
  · rfl
  · rfl

theorem sequence_popNext (cfg : Config F) (now : ℕ) (s : Inner F) :
    (popNext cfg now s).2.sequence = s.sequence := by
  unfold popNext
  split
  · rfl
  · split
    · rfl
    · split
      · rfl
      · rfl

/-- An accepted `enqueue` moves the counter to its item's number. -/
theorem sequence_enqueue_ok {now b cw tw aw depth : ℕ} {request : AdmissionRequest F}
    (h : (enqueue cfg now s request b cw tw aw).1 = .ok depth) :
    (enqueue cfg now s request b cw tw aw).2.sequence = wrappingAdd s.sequence 1 := by
  unfold enqueue at h ⊢
  split_ifs at h ⊢
  rfl

/-- **One call**, which is an acceptance or is none. -/
theorem Numbered.apply {c : Call F} (hk : Keyed s) (h : Numbered n s)
    (hn : n + acceptances (event c.op (apply cfg s c).1) < 2 ^ 64) :
    Numbered (n + acceptances (event c.op (apply cfg s c).1)) (apply cfg s c).2 := by
  obtain ⟨now, op⟩ := c
  cases op with
  | enqueue request b cw tw aw =>
    simp only [Scheduler.apply] at hn ⊢
    rcases enqueue_spec cfg now s request b cw tw aw with ⟨e, hres, hs, -⟩ | ⟨hres, -, -, hp⟩
    · rw [hres, hs]
      exact h
    · rw [hres] at hn ⊢
      have hnext : wrappingAdd s.sequence 1 = n + 1 := by
        rw [h.sequence]
        exact Nat.mod_eq_of_lt hn
      exact h.pushed hp hnext ((sequence_enqueue_ok hres).trans hnext)
  | cancel id =>
    have hnone : acceptances
        (event (.cancel id) (.cancelled (Scheduler.cancel s id).1) : List (Event F)) = 0 := by
      cases (Scheduler.cancel s id).1 <;> rfl
    simp only [Scheduler.apply]
    rw [hnone]
    exact h.of_subset (fun it hit => mem_queued_of_cancel hk hit) (sequence_cancel s id)
  | popNext =>
    have hnone : acceptances (event .popNext (.popped (Scheduler.popNext cfg now s).1)) = 0 := by
      rcases (Scheduler.popNext cfg now s).1 with e | r
      · rfl
      · cases r <;> rfl
    simp only [Scheduler.apply]
    rw [hnone]
    exact h.of_subset (fun it hit => mem_queued_of_popNext hk hit) (sequence_popNext cfg now s)

/-- **Any run of fewer than `2 ^ 64` acceptances.** -/
theorem exec_numbered (cfg : Config F) {calls : List (Call F)}
    (h : acceptances (history cfg calls) < 2 ^ 64) :
    Numbered (acceptances (history cfg calls)) (exec cfg calls) := by
  induction calls using List.reverseRecOn with
  | nil =>
    exact ⟨rfl, fun it hit => (List.not_mem_nil hit).elim, fun it hit =>
      (List.not_mem_nil hit).elim⟩
  | append_singleton calls c ih =>
    have hcount : acceptances (history cfg (calls ++ [c])) = acceptances (history cfg calls) +
        acceptances (event c.op (apply cfg (exec cfg calls) c).1) := by
      rw [history_snoc]
      exact List.countP_append
    rw [hcount] at h ⊢
    rw [exec_snoc]
    exact (ih (by omega)).apply (exec_keyed cfg calls) h

/-- A call accepts one request at most. -/
theorem acceptances_history_le (cfg : Config F) (calls : List (Call F)) :
    acceptances (history cfg calls) ≤ calls.length := by
  induction calls using List.reverseRecOn with
  | nil => exact le_rfl
  | append_singleton calls c ih =>
    have hone : (event c.op (apply cfg (exec cfg calls) c).1).length ≤ 1 := by
      unfold event
      split <;> simp
    have hcount : acceptances (event c.op (apply cfg (exec cfg calls) c).1) ≤ 1 :=
      List.countP_le_length.trans hone
    rw [history_snoc, List.length_append, List.length_singleton]
    unfold acceptances at ih hcount ⊢
    rw [List.countP_append]
    omega

omit [Arith F] in
/-- **The fronts of two queues carry different numbers.** -/
theorem Numbered.key_eq {k k' : QueueKey} (hk : Keyed s) (h : Numbered n s)
    (ha : a ∈ itemsIn s.queues k) (hb : b ∈ itemsIn s.queues k') (heq : a.sequence = b.sequence) :
    k = k' := by
  rw [← hk.keyed k a ha, ← hk.keyed k' b hb,
    h.inj a (mem_queued.mpr ⟨k, ha⟩) b (mem_queued.mpr ⟨k', hb⟩) heq]

end Sequence

variable {cfg : Config ℚ} {now n : ℕ} {s : Inner ℚ} {k k' : QueueKey} {q q' : QueueState ℚ}
variable {front front' : Queued ℚ}

/-! ## The terms of a score, once more -/

/-- **A later deadline presses no harder**, before, at and after it
passes. -/
theorem deadlineBoost_anti (cfg : Config ℚ) (now : ℕ) (h : front.deadlineNs ≤ front'.deadlineNs) :
    deadlineBoost cfg now front' ≤ deadlineBoost cfg now front := by
  by_cases hdue : front.deadlineNs ≤ now
  · rw [deadlineBoost_overdue hdue]
    exact deadlineBoost_le cfg now front'
  · have hremaining : max ((front.deadlineNs - now : ℕ) : ℚ) 1 ≤
        max ((front'.deadlineNs - now : ℕ) : ℚ) 1 :=
      max_le_max (Nat.cast_le.mpr (Nat.sub_le_sub_right h now)) le_rfl
    unfold deadlineBoost
    rw [if_neg hdue, if_neg (by omega)]
    exact min_le_min (div_le_div_of_nonneg_left (Nat.cast_nonneg _)
      (lt_of_lt_of_le one_pos (le_max_right _ _)) hremaining) le_rfl

/-- A later enqueue has aged no more. -/
theorem ageBoost_anti (cfg : Config ℚ) (now : ℕ) (h : front.enqueuedNs ≤ front'.enqueuedNs) :
    ageBoost cfg now front' ≤ ageBoost cfg now front :=
  div_le_div_of_nonneg_right (Nat.cast_le.mpr (Nat.sub_le_sub_left h now)) (Nat.cast_nonneg _)

/-! ## The front that is returned -/

/-- **A front outranks another**: it scores higher, or as high with the
earlier number. -/
def Outranks (cfg : Config ℚ) (now : ℕ) (q : QueueState ℚ) (front : Queued ℚ) (q' : QueueState ℚ)
    (front' : Queued ℚ) : Prop :=
  score cfg now q' front' < score cfg now q front ∨
    score cfg now q' front' = score cfg now q front ∧ front.sequence < front'.sequence

theorem Outranks.asymm (h : Outranks cfg now q front q' front') :
    ¬ Outranks cfg now q' front' q front := by
  rintro (h' | ⟨h', hlt'⟩)
  · rcases h with h | ⟨h, -⟩
    · exact lt_asymm h h'
    · exact absurd h h'.ne'
  · rcases h with h | ⟨-, hlt⟩
    · exact absurd h' h.ne'
    · exact Nat.lt_asymm hlt hlt'

/-- The candidates of some queues, visited in this order. -/
def candidatesOf (cfg : Config ℚ) (now : ℕ) (es : List (QueueKey × QueueState ℚ)) :
    List (QueueKey × ℚ × ℕ) :=
  es.filterMap fun e => e.2.items.head?.map fun front => (e.1, score cfg now e.2 front, front.sequence)

theorem mem_of_front (hq : s.queues.get? k = some q) (hfront : q.items.head? = some front) :
    front ∈ itemsIn s.queues k := by
  rw [itemsIn_of_get? hq]
  exact List.mem_of_mem_head? hfront

/-- **No two candidates tie.** -/
theorem candidates_separated (hk : Keyed s) (h : Numbered n s) :
    ∀ a ∈ candidates cfg now s, ∀ b ∈ candidates cfg now s, compareCandidates a b = .eq → a = b := by
  intro a ha b hb heq
  obtain ⟨q, front, hq, hfront, hca⟩ := exists_of_mem_candidates ha
  obtain ⟨q', front', hq', hfront', hcb⟩ := exists_of_mem_candidates hb
  rw [hca, hcb] at heq
  have hseq : front'.sequence = front.sequence :=
    Nat.compare_eq_eq.mp (Ordering.then_eq_eq.mp heq).2
  have hkey := h.key_eq hk (mem_of_front hq hfront) (mem_of_front hq' hfront') hseq.symm
  rw [hca, hcb, hkey]
  rw [hkey, hq'] at hq
  cases hq
  rw [hfront'] at hfront
  cases hfront
  rfl

/-- A greater candidate outranks. -/
theorem outranks_of_lt
    (h : compareCandidates (k', score cfg now q' front', front'.sequence)
      (k, score cfg now q front, front.sequence) = .lt) : Outranks cfg now q front q' front' := by
  rcases Ordering.then_eq_lt.mp h with hlt | ⟨heq, hlt⟩
  · exact Or.inl (compare_lt_iff_lt.mp hlt)
  · exact Or.inr ⟨compare_eq_iff_eq.mp heq, Nat.compare_eq_lt.mp hlt⟩

/-- The front returned outranks the front of every other queue. -/
theorem outranks_of_popNext (hk : Keyed s) (h : Numbered n s) (hq : s.queues.get? k = some q)
    (hfront : q.items.head? = some front)
    (hpop : (popNext cfg now s).1 = .ok (some front.request)) (hne : k' ≠ k)
    (hq' : s.queues.get? k' = some q') (hfront' : q'.items.head? = some front') :
    Outranks cfg now q front q' front' := by
  obtain ⟨c, item, hmax, hitem, hreq⟩ := maxBy_of_popNext hpop
  have hkey : c.1 = k := by
    rw [← hk.keyed c.1 item (List.mem_of_mem_head? hitem), hreq,
      hk.keyed k front (mem_of_front hq hfront)]
  obtain ⟨q₀, front₀, hq₀, hfront₀, hc⟩ := exists_of_mem_candidates (maxBy_mem hmax)
  rw [hkey] at hq₀ hc
  rw [hq] at hq₀
  cases hq₀
  rw [hfront] at hfront₀
  cases hfront₀
  rw [hc] at hmax
  exact outranks_of_lt (lt_of_maxBy (candidates_separated hk h) hmax
    (mem_candidates cfg now hq' hfront') fun heq => hne (congrArg Prod.fst heq))

/-- **The pop returns the front that outranks every other.** -/
theorem popNext_iff_outranks (hk : Keyed s) (h : Numbered n s) (hq : s.queues.get? k = some q)
    (hfront : q.items.head? = some front) :
    (popNext cfg now s).1 = .ok (some front.request) ↔
      ∀ k' q' front', k' ≠ k → s.queues.get? k' = some q' → q'.items.head? = some front' →
        Outranks cfg now q front q' front' := by
  constructor
  · intro hpop k' q' front' hne hq' hfront'
    exact outranks_of_popNext hk h hq hfront hpop hne hq' hfront'
  · intro hall
    rcases popNext_spec cfg now hk.noEmpty with ⟨hnil, -⟩ | ⟨k₀, item, rest, hitems, hres, -⟩
    · have hmem := OrdMap.get?_eq_some.mp hq
      rw [hnil] at hmem
      cases hmem
    · obtain ⟨q₀, hq₀⟩ := get?_of_backlog (m := s.queues) (k := k₀) (by rw [hitems]; exact nofun)
      rw [itemsIn_of_get? hq₀] at hitems
      have hfront₀ : q₀.items.head? = some item := by rw [hitems, List.head?_cons]
      by_cases hkey : k₀ = k
      · subst hkey
        rw [hq] at hq₀
        cases hq₀
        rw [hfront] at hfront₀
        cases hfront₀
        exact hres
      · -- both would outrank the other
        have hother := outranks_of_popNext hk h hq₀ hfront₀ hres (Ne.symm hkey) hq hfront
        exact absurd hother (hall k₀ q₀ item hkey hq₀ hfront₀).asymm

/-- **Selection respects dominance.** In every state of a run of fewer than
`2 ^ 64` accepted enqueues and at every clock reading: a front that was
enqueued no earlier, is due no earlier and carries a later number than the
front of a queue with at least its credit is not returned; a front is
returned exactly when it outranks the front of every other queue, and one
is as long as there is any; and visiting the queues in another order
selects the same one. -/
theorem dominated_front_not_returned (cfg : Config ℚ) (calls : List (Call ℚ))
    (hcount : acceptances (history cfg calls) < 2 ^ 64) (now : ℕ) :
    (∀ k₁ k₂ q₁ q₂ h r, (exec cfg calls).queues.get? k₁ = some q₁ → q₁.items.head? = some h →
      (exec cfg calls).queues.get? k₂ = some q₂ → q₂.items.head? = some r →
      h.enqueuedNs ≤ r.enqueuedNs → h.deadlineNs ≤ r.deadlineNs → h.sequence < r.sequence →
      fair cfg q₂ ≤ fair cfg q₁ → (popNext cfg now (exec cfg calls)).1 ≠ .ok (some r.request)) ∧
    (∀ k q front, (exec cfg calls).queues.get? k = some q → q.items.head? = some front →
      ((popNext cfg now (exec cfg calls)).1 = .ok (some front.request) ↔
        ∀ k' q' front', k' ≠ k → (exec cfg calls).queues.get? k' = some q' →
          q'.items.head? = some front' → Outranks cfg now q front q' front')) ∧
    ((exec cfg calls).queues.entries ≠ [] → ∃ k q front, (exec cfg calls).queues.get? k = some q ∧
      q.items.head? = some front ∧ (popNext cfg now (exec cfg calls)).1 = .ok (some front.request)) ∧
    ∀ es, es.Perm (exec cfg calls).queues.entries →
      (maxBy compareCandidates (candidatesOf cfg now es)).map (·.1) =
        select cfg now (exec cfg calls) := by
  have hk := exec_keyed cfg calls
  have hn := exec_numbered cfg hcount
  refine ⟨?_, fun k q front hq hfront => popNext_iff_outranks hk hn hq hfront, ?_, ?_⟩
  · intro k₁ k₂ q₁ q₂ h r hq₁ hh hq₂ hr henqueued hdeadline hseq hcredit hpop
    have hscore : score cfg now q₂ r ≤ score cfg now q₁ h :=
      add_le_add (add_le_add hcredit (ageBoost_anti cfg now henqueued))
        (deadlineBoost_anti cfg now hdeadline)
    have hne : k₁ ≠ k₂ := by
      rintro rfl
      rw [hq₁] at hq₂
      cases hq₂
      rw [hh] at hr
      cases hr
      exact lt_irrefl _ hseq
    rcases outranks_of_popNext hk hn hq₂ hr hpop hne hq₁ hh with hlt | ⟨-, hlt⟩
    · exact absurd hscore (not_le.mpr hlt)
    · omega
  · intro hsome
    rcases popNext_spec cfg now hk.noEmpty with ⟨hnil, -⟩ | ⟨k, item, rest, hitems, hres, -⟩
    · exact absurd hnil hsome
    · obtain ⟨q, hq⟩ := get?_of_backlog (m := (exec cfg calls).queues) (k := k)
        (by rw [hitems]; exact nofun)
      rw [itemsIn_of_get? hq] at hitems
      exact ⟨k, q, item, hq, by rw [hitems, List.head?_cons], hres⟩
  · intro es hperm
    exact congrArg (Option.map (·.1)) (maxBy_perm (candidates_separated hk hn) (hperm.filterMap _))

/-- Two tenants of one weight, the second five nanoseconds after the
first. -/
def dominanceCalls : List (Call ℚ) :=
  [⟨0, .enqueue (backlogRequest 0 "first") 1 1 1 1⟩,
    ⟨5, .enqueue (backlogRequest 1 "second") 1 1 1 1⟩]

/-- The second is not returned while the first waits. -/
theorem dominated_front_waits :
    (popNext backlogConfig 7 (exec backlogConfig dominanceCalls)).1 ≠
      .ok (some (backlogRequest 1 "second")) := by
  have hfirst : ((exec backlogConfig dominanceCalls).queues.get? (backlogKey "first")).any (fun q =>
      q.items.head?.any fun h => h.enqueuedNs = 0 ∧ h.deadlineNs = 1000 ∧ h.sequence = 1 ∧
        fair backlogConfig q = 1) = true := by
    decide +kernel
  have hsecond : ((exec backlogConfig dominanceCalls).queues.get? (backlogKey "second")).any
      (fun q => q.items.head?.any fun r => r.enqueuedNs = 5 ∧ r.deadlineNs = 1005 ∧
        r.sequence = 2 ∧ fair backlogConfig q = 1 ∧ r.request = backlogRequest 1 "second") = true := by
    decide +kernel
  obtain ⟨q₁, hq₁, hfirst⟩ := (Option.any_eq_true _ _).mp hfirst
  obtain ⟨h, hh, hfirst⟩ := (Option.any_eq_true _ _).mp hfirst
  obtain ⟨he₁, hd₁, hs₁, hf₁⟩ := of_decide_eq_true hfirst
  obtain ⟨q₂, hq₂, hsecond⟩ := (Option.any_eq_true _ _).mp hsecond
  obtain ⟨r, hr, hsecond⟩ := (Option.any_eq_true _ _).mp hsecond
  obtain ⟨he₂, hd₂, hs₂, hf₂, hreq⟩ := of_decide_eq_true hsecond
  rw [← hreq]
  exact (dominated_front_not_returned backlogConfig dominanceCalls (by decide +kernel) 7).1
    _ _ q₁ q₂ h r hq₁ hh hq₂ hr (by omega) (by omega) (by omega) (by rw [hf₁, hf₂])

end Scheduler

end InferQos
