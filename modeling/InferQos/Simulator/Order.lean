import InferQos.Simulator.Model
import Mathlib.Algebra.BigOperators.Ring.Finset
import Mathlib.Algebra.Order.BigOperators.Group.List
/-!
# Replay and the order of a trace

Replay sorts a trace before it looks at it, so the report should not
depend on the order the trace came in. In exact arithmetic every part of
it but one is a function of the sorted trace that sees no order among
equal timestamps. The exception is the work of the tenants, and with it
the index of fairness: `replay_order_iff` says for which traces it is
harmless.
-/

namespace InferQos

namespace Simulator

open Arith

/-! ## What does not depend on the order -/

section Ordered

variable {ordered ordered' : List TraceEvent} {capacity : ℚ}

theorem durationS_congr
    (hts : ordered.map TraceEvent.timestampMs = ordered'.map TraceEvent.timestampMs) :
    (durationS ordered : ℚ) = durationS ordered' := by
  unfold durationS finish start
  rw [hts]

theorem zip_work (ordered : List TraceEvent) :
    ordered.zip (work ordered : List ℚ) = ordered.map fun e => (e, (e.work : ℚ)) := by
  have h := List.zip_map' (f := id) (g := fun e : TraceEvent => (e.work : ℚ)) (l := ordered)
  rwa [List.map_id] at h

theorem sum_work_perm (h : ordered.Perm ordered') :
    Arith.sum (work ordered : List ℚ) = Arith.sum (work ordered') := by
  rw [sum_rat, sum_rat]
  exact (h.map _).sum_eq

theorem demand_congr (h : ordered.Perm ordered')
    (hts : ordered.map TraceEvent.timestampMs = ordered'.map TraceEvent.timestampMs) :
    (demand ordered : List ℚ) = demand ordered' := by
  have hstart : start ordered = start ordered' := by rw [start, hts, start]
  have hbuckets : (buckets ordered : OrdMap ℕ ℚ) = buckets ordered' := by
    unfold buckets
    rw [zip_work, zip_work, hstart]
    exact OrdMap.gather_perm ((h.map _).map _)
  rw [demand, hbuckets, demand]

theorem rate_perm (h : ordered.Perm ordered') (p : TraceEvent → Bool) :
    (rate p ordered : ℚ) = rate p ordered' := by
  rw [rate, h.countP_eq, h.length_eq, rate]

theorem classReport_perm {waits waits' : List ℕ} (h : waits.Perm waits') (name : String) :
    classReport ℚ name waits = classReport ℚ name waits' := by
  have hsorted : sortByKey id waits = sortByKey id waits' := by
    simpa using map_sortByKey id h
  rw [classReport, hsorted, classReport]

theorem classes_perm (h : ordered.Perm ordered') :
    classes capacity ordered = classes capacity ordered' := by
  unfold classes byClass
  rw [zip_work, zip_work]
  refine OrdMap.gather_mapWithKey_perm ((h.map _).map _) fun name waits waits' hw => ?_
  simpa [← List.flatMap_def] using classReport_perm hw name

/-- The report depends on the order of the trace through the work of the
tenants only. -/
theorem replay_congr {events events' : List TraceEvent} (h : events'.Perm events)
    (htenant : (tenant (sortByKey TraceEvent.timestampMs events') events' : OrdMap String ℚ) =
      tenant (sortByKey TraceEvent.timestampMs events) events)
    (capacity : ℚ) (costPerUnit capacityIncrement : Option ℚ) :
    replay events' capacity costPerUnit capacityIncrement =
      replay events capacity costPerUnit capacityIncrement := by
  have hempty : events'.isEmpty = events.isEmpty := by
    rw [Bool.eq_iff_iff, List.isEmpty_iff_length_eq_zero, List.isEmpty_iff_length_eq_zero,
      h.length_eq]
  have hperm : (sortByKey TraceEvent.timestampMs events').Perm
      (sortByKey TraceEvent.timestampMs events) :=
    ((sortByKey_perm _ _).trans h).trans (sortByKey_perm _ _).symm
  have hts := map_sortByKey TraceEvent.timestampMs h
  simp only [replay, hempty, htenant, demand_congr hperm hts, durationS_congr hts,
    sum_work_perm hperm, rate_perm hperm, classes_perm hperm, hperm.length_eq]

end Ordered

/-! ## The work of the tenants -/

/-- Input and output, as they add up. -/
def TraceEvent.used (e : TraceEvent) : ℕ := e.inputTokens + e.actualOutput

/-- **What a tenant's own events add up to.** -/
def ownSum (f : TraceEvent → ℕ) (name : String) (events : List TraceEvent) : ℕ :=
  ((events.filter fun e => e.tenant = name).map f).sum

/-- What a tenant is credited with when the tenant is read off one event
and the tokens off the other. -/
def credited (name : String) (pairs : List (TraceEvent × TraceEvent)) : ℕ :=
  ((pairs.filter fun p => p.1.tenant = name).map fun p => p.2.tokens).sum

/-- The work replay gives a tenant of a trace. -/
def allocation (name : String) (events : List TraceEvent) : ℚ :=
  ((tenant (sortByKey TraceEvent.timestampMs events) events).get? name).getD 0

/-- A field that does not tell events apart. -/
def Alike {α : Type} (f : TraceEvent → α) (events : List TraceEvent) : Prop :=
  ∀ e ∈ events, ∀ e' ∈ events, f e = f e'

variable {events events' ordered : List TraceEvent} {x y z : TraceEvent}

theorem credited_append (name : String) (ps qs : List (TraceEvent × TraceEvent)) :
    credited name (ps ++ qs) = credited name ps + credited name qs := by
  simp [credited]

theorem getD_tenant (name : String) (ordered events : List TraceEvent) :
    ((tenant ordered events).get? name).getD (0 : ℚ) = credited name (ordered.zip events) := by
  have hvalues : OrdMap.valuesAt name ((ordered.zip (events.map fun e => (e.tokens : ℚ))).map
      fun p => (p.1.tenant, p.2)) =
      ((ordered.zip events).filter fun p => p.1.tenant = name).map fun p => (p.2.tokens : ℚ) := by
    simp [OrdMap.valuesAt, List.zip_map_right, List.filter_map, Function.comp_def]
  calc ((tenant ordered events).get? name).getD (0 : ℚ)
      = (OrdMap.valuesAt name ((ordered.zip (events.map fun e => (e.tokens : ℚ))).map
          fun p => (p.1.tenant, p.2))).foldl (· + ·) 0 := OrdMap.getD_gather _ _ _ _
    _ = (((ordered.zip events).filter fun p => p.1.tenant = name).map
          fun p => (p.2.tokens : ℚ)).sum := by rw [hvalues, foldl_add_rat, zero_add]
    _ = credited name (ordered.zip events) := by
      rw [credited, Nat.cast_list_sum, List.map_map]
      rfl

theorem allocation_eq (name : String) (events : List TraceEvent) :
    allocation name events =
      credited name ((sortByKey TraceEvent.timestampMs events).zip events) :=
  getD_tenant _ _ _

theorem ownSum_perm {f : TraceEvent → ℕ} (h : events'.Perm events) (name : String) :
    ownSum f name events' = ownSum f name events :=
  ((h.filter _).map f).sum_eq

theorem ownSum_append (f : TraceEvent → ℕ) (name : String) (es es' : List TraceEvent) :
    ownSum f name (es ++ es') = ownSum f name es + ownSum f name es' := by
  simp [ownSum]

theorem ownSum_congr {f g : TraceEvent → ℕ} (h : ∀ e ∈ events, f e = g e) (name : String) :
    ownSum f name events = ownSum g name events :=
  congrArg List.sum (List.map_congr_left fun e he => h e (List.mem_of_mem_filter he))

/-- Paired with events of its own, a tenant is credited with these. -/
theorem credited_of_tenants (hlen : ordered.length = events.length)
    (h : ∀ p ∈ ordered.zip events, p.1.tenant = p.2.tenant) (name : String) :
    credited name (ordered.zip events) = ownSum TraceEvent.tokens name events := by
  have hsnd : (ordered.zip events).map Prod.snd = events := List.map_snd_zip hlen.ge
  have hfilter : ((ordered.zip events).filter fun p => p.1.tenant = name) =
      (ordered.zip events).filter fun p => p.2.tenant = name :=
    List.filter_congr fun p hp => by rw [h p hp]
  calc credited name (ordered.zip events)
      = ownSum TraceEvent.tokens name ((ordered.zip events).map Prod.snd) := by
        rw [credited, hfilter, ownSum, List.filter_map, List.map_map]
        rfl
    _ = ownSum TraceEvent.tokens name events := by rw [hsnd]

/-- Paired with events of the same use, with its own. -/
theorem credited_of_tokens (hlen : ordered.length = events.length)
    (h : ∀ p ∈ ordered.zip events, p.1.tokens = p.2.tokens) (name : String) :
    credited name (ordered.zip events) = ownSum TraceEvent.tokens name ordered := by
  have hfst : (ordered.zip events).map Prod.fst = ordered := List.map_fst_zip hlen.le
  have hmap : ((ordered.zip events).filter fun p => p.1.tenant = name).map (fun p => p.2.tokens) =
      ((ordered.zip events).filter fun p => p.1.tenant = name).map fun p => p.1.tokens :=
    List.map_congr_left fun p hp => (h p (List.mem_of_mem_filter hp)).symm
  calc credited name (ordered.zip events)
      = ownSum TraceEvent.tokens name ((ordered.zip events).map Prod.fst) := by
        rw [credited, hmap, ownSum, List.filter_map, List.map_map]
        rfl
    _ = ownSum TraceEvent.tokens name ordered := by rw [hfst]

theorem credited_self (name : String) (events : List TraceEvent) :
    credited name (events.zip events) = ownSum TraceEvent.tokens name events := by
  refine credited_of_tenants rfl (fun p hp => ?_) name
  obtain ⟨i, hi, rfl⟩ := List.getElem_of_mem hp
  rw [List.getElem_zip]

theorem TraceEvent.tokens_le (e : TraceEvent) : e.tokens ≤ e.used := Nat.mod_le _ _

theorem TraceEvent.tokens_of_fits {e : TraceEvent} (h : e.used < 2 ^ 64) : e.tokens = e.used :=
  wrappingAdd_of_lt h

theorem ownSum_tokens (hfits : ∀ e ∈ events, e.used < 2 ^ 64) (hperm : events'.Perm events)
    (name : String) :
    ownSum TraceEvent.tokens name events' = ownSum TraceEvent.used name events :=
  (ownSum_perm hperm name).trans
    (ownSum_congr (fun e he => TraceEvent.tokens_of_fits (hfits e he)) name)

/-- The tenants of a replayed trace, whatever their work. -/
theorem tenant_congr (h : events'.Perm events)
    (hwork : ∀ name, allocation name events' = allocation name events) :
    (tenant (sortByKey TraceEvent.timestampMs events') events' : OrdMap String ℚ) =
      tenant (sortByKey TraceEvent.timestampMs events) events := by
  have hkeys : ∀ es : List TraceEvent, ((((sortByKey TraceEvent.timestampMs es).zip
      (es.map fun e => (lit (e.tokens : ℚ) : ℚ))).map fun p => (p.1.tenant, p.2)).map Prod.fst) =
      (sortByKey TraceEvent.timestampMs es).map TraceEvent.tenant := by
    intro es
    have hlen : (sortByKey TraceEvent.timestampMs es).length ≤
        (es.map fun e => (lit (e.tokens : ℚ) : ℚ)).length := by
      rw [List.length_map, (sortByKey_perm _ es).length_eq]
    nth_rewrite 2 [← List.map_fst_zip hlen]
    rw [List.map_map, List.map_map]
    rfl
  refine OrdMap.gather_congr (fun name => ?_) fun name => ?_
  · rw [hkeys, hkeys]
    exact ((((sortByKey_perm _ events').trans h).trans (sortByKey_perm _ events).symm).map _).mem_iff
  · have h := hwork name
    unfold allocation tenant at h
    rwa [← OrdMap.getD_gather, ← OrdMap.getD_gather]

/-! ## When the order does not matter -/

/-- Events that agree in when they came, in whose they are or in what they
used: side by side with its sorted copy, the trace gives every tenant its
own. -/
theorem allocation_of_alike (hfits : ∀ e ∈ events, e.used < 2 ^ 64)
    (h : Alike TraceEvent.timestampMs events ∨ Alike TraceEvent.tenant events ∨
      Alike TraceEvent.used events) (hperm : events'.Perm events) (name : String) :
    allocation name events' = ownSum TraceEvent.used name events := by
  have hsorted := sortByKey_perm TraceEvent.timestampMs events'
  have hmem : ∀ p ∈ (sortByKey TraceEvent.timestampMs events').zip events',
      p.1 ∈ events ∧ p.2 ∈ events := fun p hp =>
    ⟨(hsorted.trans hperm).mem_iff.mp (List.of_mem_zip hp).1,
      hperm.mem_iff.mp (List.of_mem_zip hp).2⟩
  rw [allocation_eq, ← ownSum_tokens hfits hperm]
  refine congrArg Nat.cast ?_
  rcases h with h | h | h
  · have hsame : SortedBy TraceEvent.timestampMs events' :=
      List.pairwise_of_forall_mem_list fun e he e' he' =>
        (h e (hperm.mem_iff.mp he) e' (hperm.mem_iff.mp he')).le
    rw [sortByKey_of_sorted hsame, credited_self]
  · exact credited_of_tenants hsorted.length_eq
      (fun p hp => h p.1 (hmem p hp).1 p.2 (hmem p hp).2) name
  · rw [← ownSum_perm hsorted name]
    refine credited_of_tokens hsorted.length_eq (fun p hp => ?_) name
    rw [TraceEvent.tokens_of_fits (hfits p.1 (hmem p hp).1),
      TraceEvent.tokens_of_fits (hfits p.2 (hmem p hp).2)]
    exact h p.1 (hmem p hp).1 p.2 (hmem p hp).2

/-! ## When it does -/

/-- In every order, every tenant is given its own. -/
def Allocated (events : List TraceEvent) : Prop :=
  ∀ events', events'.Perm events → ∀ name,
    allocation name events' = ownSum TraceEvent.used name events

/-- A sum that wraps is too small in any order. -/
theorem fits_of_allocated (h : Allocated events) : ∀ e ∈ events, e.used < 2 ^ 64 := by
  intro e he
  by_contra hwraps
  have hsorted := sortByKey_perm TraceEvent.timestampMs events
  have hself := h _ hsorted e.tenant
  rw [allocation_eq, sortByKey_of_sorted (sortedBy_sortByKey _ _), credited_self,
    ownSum_perm hsorted, Nat.cast_inj] at hself
  refine hself.not_lt (List.sum_lt_sum _ _ (fun e _ => e.tokens_le) ⟨e, ?_, ?_⟩)
  · exact List.mem_filter.mpr ⟨he, decide_eq_true rfl⟩
  · have htokens : e.tokens < 2 ^ 64 := Nat.mod_lt _ (Nat.two_pow_pos 64)
    omega

/-- **Two groups of events in each other's place.** The sort puts the
events back and not the tokens; what the groups are credited with together
is their own all the same. -/
theorem credited_exchange (h : Allocated events) (low high low' high' : List TraceEvent)
    {lo hi : ℕ} (hlt : lo < hi) (hlow : ∀ e ∈ low, e.timestampMs = lo)
    (hhigh : ∀ e ∈ high, e.timestampMs = hi) (hmoved : low' ++ high' = high ++ low)
    (hlen : low.length = low'.length) (hnodup : (low ++ high).Nodup)
    (hmem : ∀ e ∈ low ++ high, e ∈ events) (name : String) :
    credited name (low.zip low') + credited name (high.zip high') =
      ownSum TraceEvent.tokens name low + ownSum TraceEvent.tokens name high := by
  obtain ⟨rest, hrest⟩ := exists_rest hnodup hmem
  obtain ⟨p, m, r, hpmr, hsort⟩ := exists_exchange hlt hlow hhigh hmoved rest
  have hlen' : high.length = high'.length := by
    have h := congrArg List.length hmoved
    simp only [List.length_append] at h
    omega
  have hperm : (low' ++ high').Perm (low ++ high) := hmoved ▸ List.perm_append_comm
  have hsorted : (p ++ low ++ m ++ high ++ r).Perm events :=
    ((interleave_perm p low m high r).trans (hpmr.append_left _)).trans hrest
  have htrace : (p ++ low' ++ m ++ high' ++ r).Perm events :=
    ((interleave_perm p low' m high' r).trans (hperm.append hpmr)).trans hrest
  have hown := h _ htrace name
  rw [allocation_eq, hsort, ← ownSum_tokens (fits_of_allocated h) hsorted, Nat.cast_inj,
    List.zip_append (by simp [hlen, hlen']), List.zip_append (by simp [hlen]),
    List.zip_append (by simp [hlen]), List.zip_append rfl] at hown
  simp only [credited_append, ownSum_append, credited_self] at hown
  omega

/-- Two events at different times agree in tenant or use: otherwise, in
each other's place, the tenant of the one is given the use of the other. -/
theorem tokens_eq_of_lt (h : Allocated events) (hx : x ∈ events) (hz : z ∈ events)
    (hlt : x.timestampMs < z.timestampMs) (htenant : x.tenant ≠ z.tenant) :
    x.tokens = z.tokens := by
  have hxz : x ≠ z := fun heq => htenant (congrArg _ heq)
  have hexchange := credited_exchange h [x] [z] [z] [x] hlt (by simp) (by simp) rfl rfl
    (by simp [hxz]) (by simp [hx, hz]) x.tenant
  have htokens : z.tokens = x.tokens := by
    simpa [credited, ownSum, htenant.symm] using hexchange
  exact htokens.symm

/-- Two events of one time, of different tenants, agree in use if there is
an event at another time that is not of the second one's tenant: with that
event's help they change places. -/
theorem tokens_eq_of_third (h : Allocated events) (hx : x ∈ events) (hy : y ∈ events)
    (hz : z ∈ events) (hxy : x.timestampMs = y.timestampMs)
    (hother : z.timestampMs ≠ x.timestampMs) (htenant : x.tenant ≠ y.tenant)
    (hthird : z.tenant ≠ y.tenant) : x.tokens = y.tokens := by
  have hne : x ≠ y := fun heq => htenant (congrArg _ heq)
  have hzx : z ≠ x := fun heq => hother (congrArg _ heq)
  have hzy : z ≠ y := fun heq => hthird (congrArg _ heq)
  rcases hother.lt_or_gt with hlt | hlt
  · have hexchange := credited_exchange h [z] [y, x] [y] [x, z] hlt (by simp) (by simp [hxy]) rfl
      rfl (by simp [hzx, hzy, hne.symm]) (by simp [hx, hy, hz]) y.tenant
    simpa [credited, ownSum, htenant, hthird] using hexchange
  · have hexchange := credited_exchange h [x, y] [z] [z, x] [y] hlt (by simp [hxy]) (by simp) rfl
      rfl (by simp [hzx.symm, hzy.symm, hne]) (by simp [hx, hy, hz]) y.tenant
    simpa [credited, ownSum, htenant, hthird] using hexchange

/-- Two fields that tell events apart tell two events apart together. -/
theorem exists_apart {α β : Type} {f : TraceEvent → α} {g : TraceEvent → β}
    (hf : ¬ Alike f events) (hg : ¬ Alike g events) :
    ∃ x ∈ events, ∃ y ∈ events, f x ≠ f y ∧ g x ≠ g y := by
  simp only [Alike, not_forall] at hf hg
  obtain ⟨a, ha, b, hb, hab⟩ := hf
  obtain ⟨c, hc, d, hd, hcd⟩ := hg
  by_cases hgab : g a = g b
  · have hthird : ∃ e ∈ events, g e ≠ g a := by
      by_cases hca : g c = g a
      · exact ⟨d, hd, fun hda => hcd (hca.trans hda.symm)⟩
      · exact ⟨c, hc, hca⟩
    obtain ⟨e, he, hea⟩ := hthird
    by_cases hfe : f e = f a
    · exact ⟨e, he, b, hb, fun heb => hab (hfe.symm.trans heb), fun heb => hea (heb.trans hgab.symm)⟩
    · exact ⟨e, he, a, ha, hfe, hea⟩
  · exact ⟨a, ha, b, hb, hab, hgab⟩

/-- **Every order gives every tenant its own only if** no two events tell
the orders apart. -/
theorem alike_of_allocated (h : Allocated events) :
    Alike TraceEvent.timestampMs events ∨ Alike TraceEvent.tenant events ∨
      Alike TraceEvent.used events := by
  have hfits := fits_of_allocated h
  by_contra hne
  simp only [not_or] at hne
  obtain ⟨htime, htenant, hused⟩ := hne
  obtain ⟨x, hx, y, hy, hxy, hxy'⟩ := exists_apart htenant hused
  have htokens : x.tokens ≠ y.tokens := by
    rwa [TraceEvent.tokens_of_fits (hfits x hx), TraceEvent.tokens_of_fits (hfits y hy)]
  have hsame : x.timestampMs = y.timestampMs := by
    by_contra hlt
    rcases lt_or_gt_of_ne hlt with hlt | hlt
    · exact htokens (tokens_eq_of_lt h hx hy hlt hxy)
    · exact htokens (tokens_eq_of_lt h hy hx hlt hxy.symm).symm
  have hthird : ∃ z ∈ events, z.timestampMs ≠ x.timestampMs := by
    by_contra hall
    simp only [not_exists, not_and, not_not] at hall
    exact htime fun e he e' he' => (hall e he).trans (hall e' he').symm
  obtain ⟨z, hz, hother⟩ := hthird
  by_cases hzy : z.tenant = y.tenant
  · have hzx : z.tenant ≠ x.tenant := fun heq => hxy (heq.symm.trans hzy)
    exact htokens (tokens_eq_of_third h hy hx hz hsame.symm (hsame ▸ hother) hxy.symm hzx).symm
  · exact htokens (tokens_eq_of_third h hx hy hz hsame hother hxy hzy)

/-- **Replay does not depend on the order of a trace**, and gives every
tenant what its own events used, exactly for the traces whose sums fit and
whose events all agree in their time, in their tenant or in their use. -/
theorem replay_order_iff (events : List TraceEvent) :
    (∀ events', events'.Perm events →
      (∀ (capacity : ℚ) (costPerUnit capacityIncrement : Option ℚ),
        replay events' capacity costPerUnit capacityIncrement =
          replay events capacity costPerUnit capacityIncrement) ∧
      ∀ name, allocation name events' = ownSum TraceEvent.used name events) ↔
      (∀ e ∈ events, e.used < 2 ^ 64) ∧
        (Alike TraceEvent.timestampMs events ∨ Alike TraceEvent.tenant events ∨
          Alike TraceEvent.used events) := by
  constructor
  · intro h
    have hallocated : Allocated events := fun events' hperm => (h events' hperm).2
    exact ⟨fits_of_allocated hallocated, alike_of_allocated hallocated⟩
  · rintro ⟨hfits, halike⟩ events' hperm
    have hown := fun {es : List TraceEvent} (hes : es.Perm events) =>
      allocation_of_alike hfits halike hes
    refine ⟨replay_congr hperm (tenant_congr hperm fun name => ?_), hown hperm⟩
    exact (hown hperm name).trans (hown (.refl events) name).symm

/-- Three requests of two tenants, as they began. -/
def sampleTrace : List TraceEvent :=
  [{ timestampMs := 0, tenant := "a", inputTokens := 1 },
    { timestampMs := 1, tenant := "b", inputTokens := 3 },
    { timestampMs := 2, tenant := "b", inputTokens := 5 }]

/-- **The same requests in two orders are reported differently.** Tenant
`a` used 1 and is given 5 if the trace is reversed, and the index of
fairness goes from 81/130 to 81/82. -/
theorem replay_depends_on_order :
    sampleTrace.reverse.Perm sampleTrace ∧
      ((replay sampleTrace (100 : ℚ) none none).toOption.map (·.fairnessJainIndex) =
          some (81 / 130) ∧
        (replay sampleTrace.reverse (100 : ℚ) none none).toOption.map (·.fairnessJainIndex) =
          some (81 / 82)) ∧
      ownSum TraceEvent.used "a" sampleTrace = 1 ∧ allocation "a" sampleTrace.reverse = 5 :=
  ⟨List.reverse_perm _, by decide +kernel⟩

end Simulator

end InferQos
