import InferQos.Common.Trace
import InferQos.Scheduler.PutBack
/-!
# Retrying at a standstill

While nothing else changes, the dispatcher pops a request, finds no room
for it and enqueues it again, over and over. `Retried` is one such round:
it serves the queue that leads all others, and moves no request in or out.
So as many rounds as there are requests try all of them only if they repeat
none.
-/

namespace InferQos

namespace Scheduler

variable {F : Type} [Arith F]

/-! ## Who is popped -/

instance [Std.TransCmp (Arith.totalCmp : F → F → Ordering)] :
    Std.TransCmp (compareCandidates : QueueKey × F × ℕ → QueueKey × F × ℕ → Ordering) :=
  have : Std.TransCmp fun a b : QueueKey × F × ℕ => Arith.totalCmp a.2.1 b.2.1 :=
    { eq_swap := Std.OrientedCmp.eq_swap
      isLE_trans := Std.TransCmp.isLE_trans }
  have : Std.TransCmp fun a b : QueueKey × F × ℕ => compare b.2.2 a.2.2 :=
    { eq_swap := Std.OrientedCmp.eq_swap
      isLE_trans := fun hab hbc => Std.TransCmp.isLE_trans hbc hab }
  inferInstanceAs (Std.TransCmp (compareLex
    (fun a b : QueueKey × F × ℕ => Arith.totalCmp a.2.1 b.2.1)
    fun a b => compare b.2.2 a.2.2))

/-- **A candidate comes before another**: it scores higher, or as high with
an earlier sequence number; where both agree, its key is the later one. -/
def Leads (c c' : QueueKey × F × ℕ) : Prop :=
  compareCandidates c' c = .lt ∨ compareCandidates c' c = .eq ∧ c'.1 < c.1

variable {cfg : Config F} {now : ℕ} {s s' t : Inner F} {k : QueueKey} {r : AdmissionRequest F}
variable {c c' : QueueKey × F × ℕ}

/-- The keys of the candidates increase. -/
theorem candidates_sorted (cfg : Config F) (now : ℕ) (s : Inner F) :
    (candidates cfg now s).Pairwise fun a b => a.1 < b.1 := by
  unfold candidates
  rw [List.pairwise_filterMap]
  refine s.queues.sorted.imp fun {a b} hlt c hc c' hc' => ?_
  obtain ⟨front, -, rfl⟩ := Option.map_eq_some_iff.mp hc
  obtain ⟨front', -, rfl⟩ := Option.map_eq_some_iff.mp hc'
  exact hlt

/-- The front of a queue is a candidate. -/
theorem mem_candidates (cfg : Config F) (now : ℕ) {q : QueueState F} {front : Queued F}
    (hq : s.queues.get? k = some q) (hfront : q.items.head? = some front) :
    (k, score cfg now q front, front.sequence) ∈ candidates cfg now s := by
  refine List.mem_filterMap.mpr ⟨(k, q), OrdMap.get?_eq_some.mp hq, ?_⟩
  rw [hfront, Option.map_some]

/-- A candidate is the front of its queue. -/
theorem exists_of_mem_candidates (h : c ∈ candidates cfg now s) :
    ∃ q front, s.queues.get? c.1 = some q ∧ q.items.head? = some front ∧
      c = (c.1, score cfg now q front, front.sequence) := by
  obtain ⟨e, he, hce⟩ := List.mem_filterMap.mp h
  obtain ⟨front, hfront, rfl⟩ := Option.map_eq_some_iff.mp hce
  exact ⟨e.2, front, OrdMap.get?_eq_some.mpr he, hfront, rfl⟩

/-- **The queue served leads every other.** -/
theorem leads_of_select [Std.TransCmp (Arith.totalCmp : F → F → Ordering)]
    (h : maxBy compareCandidates (candidates cfg now s) = some c)
    (hc' : c' ∈ candidates cfg now s) (hne : c' ≠ c) : Leads c c' := by
  obtain ⟨pre, post, hsplit, hpre, hpost⟩ := maxBy_split h
  have hsorted := candidates_sorted cfg now s
  rw [hsplit] at hc' hsorted
  rcases List.mem_append.mp hc' with hc' | hc'
  · -- nothing before it is greater, and those keys are smaller
    have hlt : c'.1 < c.1 := (List.pairwise_append.mp hsorted).2.2 c' hc' c List.mem_cons_self
    cases hcmp : compareCandidates c' c with
    | lt => exact Or.inl hcmp
    | eq => exact Or.inr ⟨hcmp, hlt⟩
    | gt => exact absurd hcmp (hpre c' hc')
  · rcases List.mem_cons.mp hc' with rfl | hc'
    · exact absurd rfl hne
    · exact Or.inl (Std.OrientedCmp.lt_of_gt (hpost c' hc'))

/-- Two candidates do not lead each other. -/
theorem Leads.asymm [Std.TransCmp (Arith.totalCmp : F → F → Ordering)] (h : Leads c c') :
    ¬ Leads c' c := by
  rintro (h' | ⟨h', hlt'⟩)
  · rcases h with h | ⟨h, -⟩
    · exact absurd h (by rw [Std.OrientedCmp.gt_of_lt h']; exact nofun)
    · exact absurd h (by rw [Std.OrientedCmp.gt_of_lt h']; exact nofun)
  · rcases h with h | ⟨-, hlt⟩
    · exact absurd h (by rw [Std.OrientedCmp.eq_symm h']; exact nofun)
    · exact lt_asymm hlt hlt'

theorem Leads.trans [Std.TransCmp (Arith.totalCmp : F → F → Ordering)] {c'' : QueueKey × F × ℕ}
    (h : Leads c c') (h' : Leads c' c'') : Leads c c'' := by
  rcases h with h | ⟨h, hlt⟩
  · rcases h' with h' | ⟨h', -⟩
    · exact Or.inl (Std.TransCmp.lt_trans h' h)
    · exact Or.inl (Std.TransCmp.lt_of_eq_of_lt h' h)
  · rcases h' with h' | ⟨h', hlt'⟩
    · exact Or.inl (Std.TransCmp.lt_of_lt_of_eq h' h)
    · exact Or.inr ⟨Std.TransCmp.eq_trans h' h, hlt'.trans hlt⟩

/-- What is led does not score higher. -/
theorem Leads.score_le (h : Leads c c') : Arith.totalCmp c'.2.1 c.2.1 ≠ .gt := by
  intro hgt
  have hcmp : compareCandidates c' c = .gt := by
    unfold compareCandidates
    rw [hgt]
    rfl
  rcases h with h | ⟨h, -⟩
  · rw [hcmp] at h
    cases h
  · rw [hcmp] at h
    cases h

/-- What does not score higher than one candidate does not score higher than
one that it does not lead. -/
theorem totalCmp_ne_gt_of_not_leads [Std.TransCmp (Arith.totalCmp : F → F → Ordering)] {a : F}
    (h : Arith.totalCmp a c.2.1 ≠ .gt) (hnot : ¬ Leads c c') : Arith.totalCmp a c'.2.1 ≠ .gt := by
  have hge : Arith.totalCmp c.2.1 c'.2.1 ≠ .gt := by
    intro hgt
    refine hnot (Or.inl ?_)
    unfold compareCandidates
    rw [Std.OrientedCmp.lt_of_gt hgt]
    rfl
  exact Ordering.isLE_iff_ne_gt.mp
    (Std.TransCmp.isLE_trans (Ordering.isLE_iff_ne_gt.mpr h) (Ordering.isLE_iff_ne_gt.mpr hge))

/-- A candidate is known by its key. -/
theorem candidate_unique (hc : c ∈ candidates cfg now s) (hc' : c' ∈ candidates cfg now s)
    (hkey : c.1 = c'.1) : c = c' := by
  obtain ⟨q, front, hq, hfront, heq⟩ := exists_of_mem_candidates hc
  obtain ⟨q', front', hq', hfront', heq'⟩ := exists_of_mem_candidates hc'
  rw [hkey, hq'] at hq
  cases hq
  rw [hfront'] at hfront
  cases hfront
  rw [heq, heq', hkey]

/-! ## Rounds -/

/-- What `enqueue` is given besides the request. -/
structure EnqueueArgs where
  bodyBytes : ℕ
  classWeight : ℕ
  tenantWeight : ℕ
  appWeight : ℕ

/-- **One round**: a pop, and the request popped enqueued again with its
arguments. -/
def Retried (cfg : Config F) (now : ℕ) (args : Uuid → EnqueueArgs) (s : Inner F)
    (r : AdmissionRequest F) (s' : Inner F) : Prop :=
  (popNext cfg now s).1 = .ok (some r) ∧
    (enqueue cfg now (popNext cfg now s).2 r (args r.id).bodyBytes (args r.id).classWeight
      (args r.id).tenantWeight (args r.id).appWeight).1.isOk = true ∧
    s' = (enqueue cfg now (popNext cfg now s).2 r (args r.id).bodyBytes (args r.id).classWeight
      (args r.id).tenantWeight (args r.id).appWeight).2

variable {args : Uuid → EnqueueArgs} {rs : List (AdmissionRequest F)}

/-- The request popped is the front of the greatest candidate. -/
theorem maxBy_of_popNext (h : (popNext cfg now s).1 = .ok (some r)) :
    ∃ c item, maxBy compareCandidates (candidates cfg now s) = some c ∧
      (itemsIn s.queues c.1).head? = some item ∧ item.request = r := by
  cases hsel : select cfg now s with
  | none =>
    simp [popNext, hsel] at h
  | some k =>
    obtain ⟨q, item, rest, hq, hitems⟩ := select_spec cfg now hsel
    obtain ⟨c, hc, rfl⟩ := Option.map_eq_some_iff.mp hsel
    refine ⟨c, item, hc, by rw [itemsIn_of_get? hq, hitems]; rfl, ?_⟩
    simpa [popNext, hsel, hq, hitems] using h

/-- **A round moves no request in or out.** -/
theorem Retried.keeps (hk : Keyed s) (h : Retried cfg now args s r s') :
    Keyed s' ∧ Holds s r ∧ ∀ r', Holds s' r' ↔ Holds s r' := by
  obtain ⟨hpop, hok, rfl⟩ := h
  obtain ⟨depth, hok⟩ := exists_of_isOk hok
  have hp := pushed_of_enqueue_ok hok
  rcases popNext_spec cfg now hk.noEmpty with ⟨-, hs⟩ | ⟨k, item, rest, -, hres, hr⟩
  · rw [hs] at hpop
    cases hpop
  · obtain rfl : item.request = r := by
      rw [hres] at hpop
      cases hpop
      rfl
    have hmem : item ∈ queued s := mem_queued.mpr ⟨k, hr.mem⟩
    refine ⟨hp.keyed (hr.keyed hk), ⟨item, hmem, rfl⟩, fun r' => ⟨?_, fun h => ?_⟩⟩
    · rintro ⟨it, hit, rfl⟩
      rcases hp.mem_queued.mp hit with hit | rfl
      · exact ⟨it, ((hr.mem_queued hk).mp hit).1, rfl⟩
      · exact ⟨item, hmem, rfl⟩
    · by_cases hid : r'.id = item.request.id
      · rw [hk.eq_of_id h hmem hid]
        exact holds_of_enqueue_ok hok
      · obtain ⟨it, hit, rfl⟩ := h
        exact ⟨it, hp.mem_queued.mpr (Or.inl ((hr.mem_queued hk).mpr ⟨hit, hid⟩)), rfl⟩

/-! ## Runs of rounds -/

/-- Rounds keep the requests that wait, and pop no others. -/
theorem retried_keeps (hk : Keyed s) (h : Trace (Retried cfg now args) s rs t) :
    Keyed t ∧ (∀ r, Holds t r ↔ Holds s r) ∧ ∀ r ∈ rs, Holds s r := by
  refine h.history (P := fun rs t => Keyed t ∧ (∀ r, Holds t r ↔ Holds s r) ∧ ∀ r ∈ rs, Holds s r)
    ⟨hk, fun _ => Iff.rfl, fun r hr => (List.not_mem_nil hr).elim⟩ ?_
  rintro rs t r u ⟨hkt, hholds, hrs⟩ hstep
  obtain ⟨hku, hr, hkeeps⟩ := hstep.keeps hkt
  refine ⟨hku, fun r' => (hkeeps r').trans (hholds r'), fun r' hr' => ?_⟩
  rcases List.mem_append.mp hr' with hr' | hr'
  · exact hrs r' hr'
  · rw [List.mem_singleton.mp hr']
    exact (hholds r).mp hr

/-- The rounds before a round of a run. -/
theorem exists_round (h : Trace (Retried cfg now args) s rs t) {pre : List QueueKey}
    (hpre : pre ++ [k] <+: rs.map queueKey) :
    ∃ rs' r u v, rs'.map queueKey = pre ∧ queueKey r = k ∧ rs'.length < rs.length ∧
      Trace (Retried cfg now args) s rs' u ∧ Retried cfg now args u r v := by
  obtain ⟨post, hpost⟩ := hpre
  obtain ⟨l, l', rfl, hl, -⟩ := List.map_eq_append_iff.mp hpost.symm
  obtain ⟨rs', l'', rfl, hrs', hlast⟩ := List.map_eq_append_iff.mp hl
  obtain ⟨r, rest, rfl, hr, hrest⟩ := List.map_eq_cons_iff.mp hlast
  obtain rfl := List.map_eq_nil_iff.mp hrest
  obtain ⟨v, hv⟩ := h.of_prefix (List.prefix_append (rs' ++ [r]) l')
  obtain ⟨u, hu, hround⟩ := hv.last
  exact ⟨rs', r, u, v, hrs', hr, by simp, hu, hround⟩

omit [Arith F] in
/-- The requests that wait are as many as the items, and distinct. -/
theorem Keyed.requests_nodup (hk : Keyed s) : ((queued s).map (·.request)).Nodup := by
  refine List.Nodup.of_map (·.id) ?_
  rw [List.map_map]
  exact hk.ids_nodup

omit [Arith F] in
/-- As many requests as wait, all of them among those, repeat none. -/
theorem Keyed.nodup_of_tries_all (hk : Keyed s) (hlen : rs.length = (queued s).length)
    (hall : ∀ item ∈ queued s, item.request ∈ rs) : rs.Nodup := by
  have hnd := hk.requests_nodup
  have hlen' : rs.length ≤ ((queued s).map (·.request)).length := by rw [hlen, List.length_map]
  have hsub : (queued s).map (·.request) ⊆ rs := by
    intro r hr
    obtain ⟨item, hitem, rfl⟩ := List.mem_map.mp hr
    exact hall item hitem
  exact ((List.subperm_of_subset hnd hsub).perm_of_length_le hlen').nodup_iff.mp hnd

end Scheduler

end InferQos
