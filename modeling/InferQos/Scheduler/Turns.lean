import InferQos.Common.Lanes
import InferQos.Scheduler.Rotation
/-!
# The turns of a standstill

Each request that waits when a standstill begins has a turn: it stands at
the front of its queue once those before it were tried, with the charge
their pops have left. A queue whose requests were all tried comes again,
with its first request stamped anew; a queue of one request is emptied by
the pop, so it comes again with no charge and the weight of its arguments.
All this is known at the start, as long as no renormalisation is near
(`NoneLowered`). The rounds serve the queues as lanes by rank, so that they
try every request exactly when the turn ranked last is ahead of every other
queue that comes again (`tries_all_iff`).
-/

namespace InferQos

namespace Scheduler

open Arith

variable {F : Type}

section Turns

variable [Arith F]

/-! ## Turns -/

/-- What serving an item charges a queue of this weight. -/
def cost (weight : F) (it : Queued F) : F :=
  max it.request.estimate.normalizedUnits (lit 1) / max weight (lit 1)

/-- The charge of a queue once its first `j` requests were popped. -/
def chargeAfter (q : QueueState F) (j : ℕ) : F :=
  (q.items.take j).foldl (fun c it => c + cost q.weight it) q.served

/-- The weight a request brings to a new queue. -/
def freshWeight (args : Uuid → EnqueueArgs) (r : AdmissionRequest F) : F :=
  hierarchyWeight (args r.id).classWeight (args r.id).tenantWeight (args r.id).appWeight

/-- **A queue whose first `j` requests were tried**, in charge and weight. -/
def turned (args : Uuid → EnqueueArgs) (q : QueueState F) (j : ℕ) : QueueState F :=
  match q.items with
  -- emptied by the pop, and made anew by the put-back
  | [it] =>
    if j = 0 then q else { q with served := lit 0, weight := freshWeight args it.request }
  | _ => { q with served := chargeAfter q j }

/-- An item with the times a put-back gives it. -/
def restamp (now : ℕ) (it : Queued F) : Queued F :=
  { it with
    enqueuedNs := now
    deadlineNs := saturatingAdd now (min it.request.deadline u64Max) }

/-- **The turns of a queue**, as the candidates they will be. -/
def turns (cfg : Config F) (now : ℕ) (args : Uuid → EnqueueArgs) (k : QueueKey)
    (q : QueueState F) : List (QueueKey × F × ℕ) :=
  q.items.mapIdx fun j it => (k, score cfg now (turned args q j) it, it.sequence)

/-- **The score with which a queue comes again**, all its requests tried. -/
def again (cfg : Config F) (now : ℕ) (args : Uuid → EnqueueArgs) (q : QueueState F) : Option F :=
  q.items.head?.map fun it => score cfg now (turned args q q.items.length) (restamp now it)

variable {cfg : Config F} {now : ℕ} {args : Uuid → EnqueueArgs} {s u u' : Inner F} {k : QueueKey}
variable {q p : QueueState F} {item it new : Queued F} {rest : List (Queued F)} {j : ℕ}
variable {r : AdmissionRequest F}

/-- Before its last request is tried a queue keeps its weight and adds up
its charge. -/
theorem turned_of_lt (hj : j < q.items.length) :
    turned args q j = { q with served := chargeAfter q j } := by
  unfold turned
  split
  · rename_i hitems
    rw [hitems, List.length_singleton, Nat.lt_one_iff] at hj
    subst hj
    rfl
  · rfl

theorem turned_of_ne (h : q.items.length ≠ 1) :
    turned args q j = { q with served := chargeAfter q j } := by
  unfold turned
  split
  · rename_i hitems
    rw [hitems] at h
    exact absurd rfl h
  · rfl

theorem chargeAfter_succ (hj : j < q.items.length) :
    chargeAfter q (j + 1) = chargeAfter q j + cost q.weight q.items[j] := by
  unfold chargeAfter
  rw [List.take_succ_eq_append_getElem hj, List.foldl_append]
  rfl

theorem score_congr (hserved : p.served = q.served) (hweight : p.weight = q.weight)
    (henqueued : it.enqueuedNs = item.enqueuedNs) (hdeadline : it.deadlineNs = item.deadlineNs) :
    score cfg now p it = score cfg now q item := by
  unfold score fair ageBoost deadlineBoost
  rw [hserved, hweight, henqueued, hdeadline]

theorem length_turns : (turns cfg now args k q).length = q.items.length := List.length_mapIdx

theorem getElem?_turns : (turns cfg now args k q)[j]? =
    q.items[j]?.map fun it => (k, score cfg now (turned args q j) it, it.sequence) :=
  List.getElem?_mapIdx

/-- A queue whose first `j` requests were tried and are back at its end. -/
def rotatedQueue (args : Uuid → EnqueueArgs) (q : QueueState F) (j : ℕ) (back : List (Queued F)) :
    QueueState F :=
  { turned args q j with items := q.items.drop j ++ back }

theorem rotatedQueue_zero : rotatedQueue args q 0 [] = q := by
  unfold rotatedQueue turned
  rw [List.append_nil, List.drop_zero]
  split
  · rfl
  · rfl

/-! ## One round -/

/-- A queue after its front was popped and put back. -/
def returned (args : Uuid → EnqueueArgs) (q : QueueState F) (item new : Queued F)
    (rest : List (Queued F)) : QueueState F :=
  match rest with
  | [] => ⟨[new], lit 0, freshWeight args item.request⟩
  | _ => ⟨rest ++ [new], q.served + cost q.weight item, q.weight⟩

theorem returned_of_ne_nil (h : rest ≠ []) : returned args q item new rest =
    ⟨rest ++ [new], q.served + cost q.weight item, q.weight⟩ := by
  unfold returned
  split
  · exact absurd rfl h
  · rfl

/-- **The front of a rotated queue, put back, is its next turn gone.** -/
theorem returned_rotatedQueue {back : List (Queued F)} (hj : j < q.items.length)
    (hback : back.length = j) :
    returned args (rotatedQueue args q j back) q.items[j] new (q.items.drop (j + 1) ++ back) =
      rotatedQueue args q (j + 1) (back ++ [new]) := by
  by_cases hone : q.items.length = 1
  · obtain ⟨it, hitems⟩ := List.length_eq_one_iff.mp hone
    obtain rfl : j = 0 := by omega
    obtain rfl : back = [] := List.length_eq_zero_iff.mp hback
    simp [returned, rotatedQueue, turned, hitems]
  · have hrest : q.items.drop (j + 1) ++ back ≠ [] := by
      intro hnil
      have hlen := congrArg List.length hnil
      rw [List.length_append, List.length_drop, List.length_nil] at hlen
      omega
    rw [returned_of_ne_nil hrest]
    unfold rotatedQueue
    rw [turned_of_ne hone, turned_of_ne hone, chargeAfter_succ hj, List.append_assoc]

theorem queues_of_enqueue_ok {b cw tw aw : ℕ}
    (h : (enqueue cfg now s r b cw tw aw).1.isOk = true) :
    (enqueue cfg now s r b cw tw aw).2.queues = s.queues.insert (queueKey r)
        { (s.queues.get? (queueKey r)).getD ⟨[], lit 0, hierarchyWeight cw tw aw⟩ with
          items := ((s.queues.get? (queueKey r)).getD
            ⟨[], lit 0, hierarchyWeight cw tw aw⟩).items ++ [newItem now s r b] } ∧
      (enqueue cfg now s r b cw tw aw).2.sequence = wrappingAdd s.sequence 1 := by
  unfold enqueue at h ⊢
  split_ifs at h ⊢
  · cases h
  · cases h
  · cases h
  · exact ⟨rfl, rfl⟩

/-- What a pop charges, before it renormalises. -/
def chargedQueue (q : QueueState F) (item : Queued F) (rest : List (Queued F)) : QueueState F :=
  { q with items := rest, served := q.served + cost q.weight item }

/-- **One round**, as long as it does not renormalise: the front of one queue
goes to its end, stamped anew, and all other queues stay. -/
theorem Retried.queues (hk : Keyed u) (h : Retried cfg now args u r u') :
    ∃ q item rest new, u.queues.get? (queueKey r) = some q ∧ q.items = item :: rest ∧
      item.request = r ∧ new.request = r ∧ new.enqueuedNs = now ∧
      new.deadlineNs = saturatingAdd now (min r.deadline u64Max) ∧
      new.sequence = wrappingAdd u.sequence 1 ∧ u'.sequence = wrappingAdd u.sequence 1 ∧
      (renormalise cfg (u.queues.insert (queueKey r) (chargedQueue q item rest)) =
          u.queues.insert (queueKey r) (chargedQueue q item rest) →
        ∀ k, u'.queues.get? k =
          if k = queueKey r then some (returned args q item new rest) else u.queues.get? k) := by
  obtain ⟨hpop, hok, rfl⟩ := h
  cases hsel : select cfg now u with
  | none => simp [popNext, hsel] at hpop
  | some k₀ =>
    obtain ⟨q, item, rest, hq, hitems⟩ := select_spec cfg now hsel
    have hafter : popNext cfg now u = (.ok (some item.request),
        { u with
          queues := dropEmpty (renormalise cfg (u.queues.insert k₀ (chargedQueue q item rest))) k₀
          index := u.index.erase item.request.id
          depth := wrappingSub u.depth 1
          bytes := wrappingSub u.bytes item.bodyBytes }) := by
      simp only [popNext, hsel, hq, hitems]
      rfl
    obtain rfl : item.request = r := by
      rw [hafter] at hpop
      cases hpop
      rfl
    obtain rfl : queueKey item.request = k₀ :=
      hk.keyed k₀ item (by rw [itemsIn_of_get? hq, hitems]; exact List.mem_cons_self)
    obtain ⟨hqueues, hseq⟩ := queues_of_enqueue_ok hok
    have hsequence : (popNext cfg now u).2.sequence = u.sequence := by rw [hafter]
    refine ⟨q, item, rest, newItem now (popNext cfg now u).2 item.request
      (args item.request.id).bodyBytes, hq, hitems, rfl, rfl, rfl, rfl, ?_, ?_, fun hnorm k => ?_⟩
    · exact congrArg (wrappingAdd · 1) hsequence
    · rw [hseq, hsequence]
    rw [hqueues, OrdMap.get?_insert]
    have hdropped : (popNext cfg now u).2.queues = dropEmpty (u.queues.insert
        (queueKey item.request) (chargedQueue q item rest)) (queueKey item.request) := by
      rw [hafter]
      exact congrArg (dropEmpty · _) hnorm
    rw [hdropped]
    split
    · -- the queue of the request: gone if it was emptied
      unfold dropEmpty returned
      rw [OrdMap.get?_insert_self]
      cases rest with
      | nil => simp [chargedQueue, freshWeight]
      | cons x rest => simp [chargedQueue]
    · rename_i hne
      unfold dropEmpty
      split
      · rw [OrdMap.get?_erase_of_ne hne, OrdMap.get?_insert_of_ne hne]
      · rw [OrdMap.get?_insert_of_ne hne]

end Turns

/-! ## The rounds before a queue comes again -/

section Rounds

variable [OrderedArith F] {cfg : Config F} {now : ℕ} {args : Uuid → EnqueueArgs}
variable {s u u' t : Inner F}
variable {k : QueueKey} {q p : QueueState F} {item it : Queued F} {j : ℕ} {r : AdmissionRequest F}
variable {rs : List (AdmissionRequest F)} {m : OrdMap QueueKey (QueueState F)}

/-- A charge that is a number and not beyond a thousand quanta. -/
def Low (cfg : Config F) (c : F) : Prop := c ≤ c ∧ ¬ cfg.quantum * lit 1000 < c

instance decidableLow (cfg : Config F) (c : F) : Decidable (Low cfg c) :=
  inferInstanceAs (Decidable (_ ∧ _))

/-- **No renormalisation is near**: one queue is low, and stays so through
all its turns and when it is made anew. -/
def NoneLowered (cfg : Config F) (s : Inner F) : Prop :=
  Low cfg (lit 0) ∧
    ∃ k q, s.queues.get? k = some q ∧ ∀ j ≤ q.items.length, Low cfg (chargeAfter q j)

theorem renormalise_of_low (hq : m.get? k = some q) (h : Low cfg q.served) :
    renormalise cfg m = m := by
  unfold renormalise
  split
  · rfl
  · rename_i least hleast
    refine if_neg fun hlt => h.2 ?_
    exact OrderedArith.lt_of_lt_finiteMin hleast
      (List.mem_map_of_mem (OrdMap.mem_values.mpr ⟨k, hq⟩)) h.1 hlt

theorem low_turned (hzero : Low cfg (lit 0))
    (hlow : ∀ j ≤ q.items.length, Low cfg (chargeAfter q j)) (hj : j ≤ q.items.length) :
    Low cfg (turned args q j).served := by
  by_cases hone : q.items.length = 1
  · obtain ⟨it, hitems⟩ := List.length_eq_one_iff.mp hone
    unfold turned
    rw [hitems]
    dsimp only
    split
    · exact hlow 0 (Nat.zero_le _)
    · exact hzero
  · rw [turned_of_ne hone]
    exact hlow j hj

/-- An item and what a put-back has made of it since the number `n`. -/
structure Stamps (now n : ℕ) (it it' : Queued F) : Prop where
  request : it'.request = it.request
  enqueued : it'.enqueuedNs = now
  deadline : it'.deadlineNs = saturatingAdd now (min it.request.deadline u64Max)
  later : n < it'.sequence

/-- How often a queue was served. -/
def servedTimes (rs : List (AdmissionRequest F)) (k : QueueKey) : ℕ := (rs.map queueKey).count k

/-- **Where the rounds `rs` have taken the queues of `s`**, none of which has
come again: each has its first requests at its end, stamped anew. -/
structure Rotated (now : ℕ) (args : Uuid → EnqueueArgs) (s : Inner F)
    (rs : List (AdmissionRequest F)) (u : Inner F) : Prop where
  keyed : Keyed u
  sequence : u.sequence = s.sequence + rs.length
  absent : ∀ k, s.queues.get? k = none → u.queues.get? k = none
  present : ∀ k q, s.queues.get? k = some q → ∃ back,
    u.queues.get? k = some (rotatedQueue args q (servedTimes rs k) back) ∧
    List.Forall₂ (Stamps now s.sequence) (q.items.take (servedTimes rs k)) back ∧
    ∀ it ∈ q.items.take (servedTimes rs k), it.request ∈ rs

theorem rotated_nil (hk : Keyed s) : Rotated now args s [] s where
  keyed := hk
  sequence := rfl
  absent _ h := h
  present _ q hq := by
    refine ⟨[], ?_, List.Forall₂.nil, fun it hit => (List.not_mem_nil hit).elim⟩
    rw [hq]
    exact congrArg some rotatedQueue_zero.symm

omit [OrderedArith F] in
theorem servedTimes_snoc (rs : List (AdmissionRequest F)) (r : AdmissionRequest F) (k : QueueKey) :
    servedTimes (rs ++ [r]) k = servedTimes rs k + if k = queueKey r then 1 else 0 := by
  unfold servedTimes
  rw [List.map_append, List.count_append]
  simp only [List.map_cons, List.map_nil, List.count_singleton, beq_iff_eq]
  congr 1
  simp only [eq_comm]

omit [OrderedArith F] in
theorem servedTimes_le_snoc (rs : List (AdmissionRequest F)) (r : AdmissionRequest F)
    (k : QueueKey) : servedTimes rs k ≤ servedTimes (rs ++ [r]) k := by
  rw [servedTimes_snoc]
  exact Nat.le_add_right _ _

/-- Rotated queues are not renormalised. -/
theorem renormalise_rotated {back rest : List (Queued F)} (h : Rotated now args s rs u)
    (hlow : NoneLowered cfg s) (hq : s.queues.get? k = some q)
    (hj : servedTimes rs k < q.items.length)
    (hwithin : ∀ k q, s.queues.get? k = some q → servedTimes rs k ≤ q.items.length) :
    renormalise cfg (u.queues.insert k (chargedQueue
        (rotatedQueue args q (servedTimes rs k) back) q.items[servedTimes rs k] rest)) =
      u.queues.insert k (chargedQueue
        (rotatedQueue args q (servedTimes rs k) back) q.items[servedTimes rs k] rest) := by
  obtain ⟨hzero, k₁, q₁, hq₁, hlow⟩ := hlow
  by_cases hk : k₁ = k
  · subst hk
    rw [hq] at hq₁
    cases hq₁
    refine renormalise_of_low OrdMap.get?_insert_self ?_
    have hserved : (chargedQueue (rotatedQueue args q (servedTimes rs k₁) back)
        q.items[servedTimes rs k₁] rest).served = chargeAfter q (servedTimes rs k₁ + 1) := by
      rw [chargeAfter_succ hj]
      unfold chargedQueue rotatedQueue
      rw [turned_of_lt hj]
    rw [hserved]
    exact hlow _ hj
  · obtain ⟨back', hback', -⟩ := h.present k₁ q₁ hq₁
    refine renormalise_of_low (k := k₁) (by rw [OrdMap.get?_insert_of_ne hk]; exact hback') ?_
    exact low_turned hzero hlow (hwithin k₁ q₁ hq₁)

/-- **A round keeps the queues rotated**, if the queue it serves has not come
again. -/
theorem Rotated.round (h : Rotated now args s rs u) (hround : Retried cfg now args u r u')
    (hlow : NoneLowered cfg s) (hroom : s.sequence + rs.length + 1 < 2 ^ 64)
    (hwithin : ∀ k q, s.queues.get? k = some q → servedTimes (rs ++ [r]) k ≤ q.items.length) :
    Rotated now args s (rs ++ [r]) u' := by
  obtain ⟨p, item, rest, new, hp, hpitems, hreq, hnew, htime, hdeadline, hnewseq, hseq, hqueues⟩ :=
    hround.queues h.keyed
  have hnext : wrappingAdd u.sequence 1 = s.sequence + rs.length + 1 := by
    rw [h.sequence]
    exact wrappingAdd_of_lt hroom
  -- the queue served, as it was at the start
  obtain ⟨q, hq⟩ : ∃ q, s.queues.get? (queueKey r) = some q := by
    cases hget : s.queues.get? (queueKey r) with
    | none =>
      rw [h.absent _ hget] at hp
      cases hp
    | some q => exact ⟨q, rfl⟩
  obtain ⟨back, hback, hstamps, htried⟩ := h.present _ q hq
  have hj : servedTimes rs (queueKey r) < q.items.length := by
    have hle := hwithin _ q hq
    rw [servedTimes_snoc, if_pos rfl] at hle
    omega
  have hlen : back.length = servedTimes rs (queueKey r) := by
    rw [← hstamps.length_eq, List.length_take, Nat.min_eq_left hj.le]
  obtain rfl := Option.some.inj (hp.symm.trans hback)
  obtain ⟨rfl, rfl⟩ : q.items[servedTimes rs (queueKey r)] = item ∧
      q.items.drop (servedTimes rs (queueKey r) + 1) ++ back = rest := by
    unfold rotatedQueue at hpitems
    rw [List.drop_eq_getElem_cons hj, List.cons_append] at hpitems
    exact List.cons.inj hpitems
  have hqueues := hqueues (renormalise_rotated h hlow hq hj fun k q hq =>
    (servedTimes_le_snoc rs r k).trans (hwithin k q hq))
  refine ⟨(hround.keeps h.keyed).1, ?_, fun k hk => ?_, fun k q' hq' => ?_⟩
  · rw [hseq, hnext, List.length_append, List.length_singleton, add_assoc]
  · rw [hqueues]
    split
    · rename_i hkr
      rw [hkr, hq] at hk
      cases hk
    · exact h.absent k hk
  · rw [hqueues, servedTimes_snoc]
    split
    · rename_i hkr
      subst hkr
      rw [hq] at hq'
      cases hq'
      refine ⟨back ++ [new], congrArg some (returned_rotatedQueue hj hlen), ?_, ?_⟩
      · rw [List.take_succ_eq_append_getElem hj]
        refine List.rel_append hstamps (List.Forall₂.cons ⟨?_, htime, ?_, ?_⟩ List.Forall₂.nil)
        · rw [hnew, hreq]
        · rw [hdeadline, hreq]
        · rw [hnewseq, hnext]
          omega
      · intro it hit
        rw [List.take_succ_eq_append_getElem hj] at hit
        rcases List.mem_append.mp hit with hit | hit
        · exact List.mem_append_left _ (htried it hit)
        · rw [List.mem_singleton.mp hit, hreq]
          exact List.mem_append_right _ (List.mem_singleton_self r)
    · obtain ⟨back', hback', hstamps', htried'⟩ := h.present k q' hq'
      exact ⟨back', hback', hstamps', fun it hit => List.mem_append_left _ (htried' it hit)⟩

/-- **Rounds that serve no queue that comes again rotate the queues.** -/
theorem rotated_of_run (hk : Keyed s) (hlow : NoneLowered cfg s)
    (h : Trace (Retried cfg now args) s rs u) (hroom : s.sequence + rs.length < 2 ^ 64)
    (hwithin : ∀ k q, s.queues.get? k = some q → servedTimes rs k ≤ q.items.length) :
    Rotated now args s rs u := by
  induction h with
  | nil => exact rotated_nil hk
  | @snoc rs t u r _ hround ih =>
    rw [List.length_append, List.length_singleton] at hroom
    refine (ih (by omega) fun k q hq => ?_).round hround hlow (by omega) hwithin
    exact (servedTimes_le_snoc rs r k).trans (hwithin k q hq)

/-- A queue with a turn left stands with it. -/
theorem Rotated.front_of_turn (h : Rotated now args s rs u) (hq : s.queues.get? k = some q)
    {t : QueueKey × F × ℕ} (ht : (turns cfg now args k q)[servedTimes rs k]? = some t) :
    t ∈ candidates cfg now u ∧ t.1 = k ∧ ∃ it ∈ q.items, t.2.2 = it.sequence := by
  rw [getElem?_turns] at ht
  obtain ⟨it, hit, rfl⟩ := Option.map_eq_some_iff.mp ht
  obtain ⟨hj, hit⟩ := List.getElem?_eq_some_iff.mp hit
  obtain ⟨back, hback, -⟩ := h.present k q hq
  refine ⟨?_, rfl, it, hit ▸ List.getElem_mem hj, rfl⟩
  have hfront : (rotatedQueue args q (servedTimes rs k) back).items.head? = some it := by
    unfold rotatedQueue
    rw [List.drop_eq_getElem_cons hj, hit]
    rfl
  have hmem := mem_candidates cfg now hback hfront
  exact score_congr (p := rotatedQueue args q (servedTimes rs k) back) rfl rfl rfl rfl ▸ hmem

/-- A queue without one stands with its first request, stamped anew. -/
theorem Rotated.front_of_again (h : Rotated now args s rs u) (hq : s.queues.get? k = some q)
    (hj : servedTimes rs k = q.items.length) {a : F} (ha : again cfg now args q = some a) :
    ∃ seq, (k, a, seq) ∈ candidates cfg now u ∧ s.sequence < seq := by
  obtain ⟨first, hfirst, rfl⟩ := Option.map_eq_some_iff.mp ha
  obtain ⟨rest, hitems⟩ := List.head?_eq_some_iff.mp hfirst
  obtain ⟨back, hback, hstamps, -⟩ := h.present k q hq
  rw [hj] at hback hstamps
  rw [List.take_length, hitems] at hstamps
  cases hstamps with
  | @cons _ new _ back hnew _ =>
    have hfront : (rotatedQueue args q q.items.length (new :: back)).items.head? = some new := by
      unfold rotatedQueue
      rw [List.drop_length]
      rfl
    have hmem := mem_candidates cfg now hback hfront
    have hscore : score cfg now (rotatedQueue args q q.items.length (new :: back)) new =
        score cfg now (turned args q q.items.length) (restamp now first) :=
      score_congr rfl rfl hnew.enqueued hnew.deadline
    exact ⟨new.sequence, hscore ▸ hmem, hnew.later⟩

end Rounds

/-! ## Who is tried -/

section Lanes

variable [OrderedArith F] [Std.TransCmp (Arith.totalCmp : F → F → Ordering)] {cfg : Config F}
variable {now : ℕ} {args : Uuid → EnqueueArgs} {s u t : Inner F} {rs : List (AdmissionRequest F)}
variable {c c' : QueueKey × F × ℕ} {a : F} {k : QueueKey} {q : QueueState F}

/-- **The queues as lanes.** What comes again is below a turn if it does not
score higher: its number is the later one. -/
def lanes (cfg : Config F) (now : ℕ) (args : Uuid → EnqueueArgs) (s : Inner F) :
    Lanes QueueKey (QueueKey × F × ℕ) where
  keys := s.queues.keys.toFinset
  turns k := (s.queues.get? k).elim [] (turns cfg now args k)
  leads := Leads
  below k c := ∀ q a, s.queues.get? k = some q → again cfg now args q = some a →
    totalCmp a c.2.1 ≠ .gt
  turns_eq_nil {k} hk := by
    cases hget : s.queues.get? k with
    | none => rfl
    | some q => exact absurd (List.mem_toFinset.mpr (OrdMap.mem_keys.mpr ⟨q, hget⟩)) hk
  irrefl _ h := h.asymm h
  trans := Leads.trans
  below_of_not_leads h hnot q a hq ha := totalCmp_ne_gt_of_not_leads (h q a hq ha) hnot

theorem mem_keys_lanes : k ∈ (lanes cfg now args s).keys ↔ ∃ q, s.queues.get? k = some q := by
  unfold lanes
  rw [List.mem_toFinset, OrdMap.mem_keys]

theorem turns_lanes (hq : s.queues.get? k = some q) :
    (lanes cfg now args s).turns k = turns cfg now args k q := by
  change (s.queues.get? k).elim [] (turns cfg now args k) = _
  rw [hq, Option.elim_some]

/-- Every waiting request has one turn. -/
theorem total_lanes : (lanes cfg now args s).total = (queued s).length := by
  unfold Lanes.total queued
  rw [List.length_flatMap]
  change ∑ k ∈ s.queues.keys.toFinset, _ = _
  rw [List.sum_toFinset _ s.queues.keys_nodup]
  unfold OrdMap.keys
  rw [List.map_map]
  refine congrArg List.sum (List.map_congr_left fun e he => ?_)
  rw [Function.comp_apply, turns_lanes (OrdMap.get?_eq_some.mpr he), length_turns]

/-- The next turn of a lane is one of its queue. -/
theorem exists_turn_of_next (h : (lanes cfg now args s).next (rs.map queueKey) k = some c) :
    ∃ q, s.queues.get? k = some q ∧ (turns cfg now args k q)[servedTimes rs k]? = some c := by
  cases hget : s.queues.get? k with
  | none => simp [Lanes.next, lanes, hget] at h
  | some q => exact ⟨q, rfl, by rwa [Lanes.next, turns_lanes hget] at h⟩

/-- Without one, all requests of the queue were tried. -/
theorem servedTimes_of_next (hq : s.queues.get? k = some q)
    (hwithin : (lanes cfg now args s).Within (rs.map queueKey))
    (h : (lanes cfg now args s).next (rs.map queueKey) k = none) :
    servedTimes rs k = q.items.length := by
  have hle := hwithin k
  rw [Lanes.next, List.getElem?_eq_none_iff] at h
  rw [turns_lanes hq, length_turns] at h hle
  exact le_antisymm hle h

/-- A round that serves a queue leaves it with what leads all others. -/
theorem exists_best (hk : Keyed s) (hlow : NoneLowered cfg s)
    (h : Trace (Retried cfg now args) s rs t) (hroom : s.sequence + rs.length < 2 ^ 64)
    {pre : List QueueKey} (hpre : pre ++ [k] <+: rs.map queueKey)
    (hwithin : (lanes cfg now args s).Within pre) :
    ∃ rs' u c, rs'.map queueKey = pre ∧ Rotated now args s rs' u ∧
      maxBy compareCandidates (candidates cfg now u) = some c ∧ c.1 = k := by
  obtain ⟨rs', r, u, v, rfl, rfl, hlt, hrun, hround⟩ := exists_round h hpre
  have hrot : Rotated now args s rs' u := by
    refine rotated_of_run hk hlow hrun (by omega) fun k q hq => ?_
    have hle := hwithin k
    rwa [turns_lanes hq, length_turns] at hle
  obtain ⟨c, item, hmax, hitem, rfl⟩ := maxBy_of_popNext hround.1
  exact ⟨rs', u, c, rfl, hrot, hmax, (hrot.keyed.keyed c.1 item (List.mem_of_mem_head? hitem)).symm⟩

/-- A later number with no higher score does not lead. -/
theorem not_leads_of_later {seq : ℕ} (hscore : totalCmp a c.2.1 ≠ .gt) (hlater : c.2.2 < seq) :
    ¬ Leads (k, a, seq) c := by
  have hgt : compareCandidates c (k, a, seq) = .gt := by
    unfold compareCandidates
    cases hcmp : totalCmp c.2.1 a with
    | lt => exact absurd (Std.OrientedCmp.gt_of_lt hcmp) hscore
    | eq => exact compare_gt_iff_gt.mpr hlater
    | gt => rfl
  rintro (h | ⟨h, -⟩)
  · rw [hgt] at h
    cases h
  · rw [hgt] at h
    cases h

/-- **The rounds serve the lanes by rank.** -/
theorem greedy (hk : Keyed s) (hlow : NoneLowered cfg s)
    (hseq : ∀ it ∈ queued s, it.sequence ≤ s.sequence)
    (h : Trace (Retried cfg now args) s rs t) (hroom : s.sequence + rs.length < 2 ^ 64) :
    (lanes cfg now args s).Greedy (rs.map queueKey) := by
  have hkeys : ∀ k ∈ rs.map queueKey, k ∈ (lanes cfg now args s).keys := by
    intro k hkey
    obtain ⟨r, hr, rfl⟩ := List.mem_map.mp hkey
    obtain ⟨item, hitem, rfl⟩ := (retried_keeps hk h).2.2 r hr
    obtain ⟨k, hitem⟩ := mem_queued.mp hitem
    rw [hk.keyed k item hitem, mem_keys_lanes]
    exact get?_of_backlog (List.ne_nil_of_mem hitem)
  refine ⟨hkeys, ?_, ?_⟩
  · intro pre k c hpre hwithin hnext k' hk' hne
    obtain ⟨rs', u, best, rfl, hrot, hmax, rfl⟩ := exists_best hk hlow h hroom hpre hwithin
    obtain ⟨q, hq, hc⟩ := exists_turn_of_next hnext
    obtain ⟨hmem, hkey, -⟩ := hrot.front_of_turn hq hc
    obtain rfl := candidate_unique hmem (maxBy_mem hmax) hkey
    refine ⟨fun c' hnext' => ?_, fun hnone q' a hq' ha => ?_⟩
    · obtain ⟨q', hq', hc'⟩ := exists_turn_of_next hnext'
      obtain ⟨hmem', hkey', -⟩ := hrot.front_of_turn hq' hc'
      exact leads_of_select hmax hmem' fun heq => hne (by rw [← hkey', heq])
    · obtain ⟨seq, hmem', -⟩ := hrot.front_of_again hq' (servedTimes_of_next hq' hwithin hnone) ha
      have hlead := leads_of_select hmax hmem' fun heq => hne (by rw [← heq])
      exact hlead.score_le
  · intro pre k hpre hwithin hnone k' c' hnext' hbelow
    obtain ⟨q, hq⟩ := mem_keys_lanes.mp (hkeys k (hpre.subset (by simp)))
    obtain ⟨rs', u, best, rfl, hrot, hmax, hkey⟩ := exists_best hk hlow h hroom hpre hwithin
    obtain ⟨first, rest, hitems⟩ := List.exists_cons_of_ne_nil (hk.noEmpty k q hq)
    have hagain : again cfg now args q = some (score cfg now (turned args q q.items.length)
        (restamp now first)) := by
      unfold again
      rw [hitems]
      rfl
    obtain ⟨seq, hmem, hlater⟩ :=
      hrot.front_of_again hq (servedTimes_of_next hq hwithin hnone) hagain
    obtain rfl := candidate_unique hmem (maxBy_mem hmax) hkey.symm
    obtain ⟨q', hq', hc'⟩ := exists_turn_of_next hnext'
    obtain ⟨hmem', hkey', it, hit, hnumber⟩ := hrot.front_of_turn hq' hc'
    have hnum : c'.2.2 < seq := by
      have hle := hseq it (mem_queued.mpr ⟨k', by rw [itemsIn_of_get? hq']; exact hit⟩)
      omega
    refine not_leads_of_later (hbelow q _ hq hagain) hnum (leads_of_select hmax hmem' fun heq => ?_)
    rw [heq] at hkey'
    rw [← hkey', hnone] at hnext'
    cases hnext'

/-! ## All of them -/

/-- **The turn ranked last is ahead of every other queue that comes again.** -/
def LastTurnAhead (cfg : Config F) (now : ℕ) (args : Uuid → EnqueueArgs) (s : Inner F) : Prop :=
  ∀ k₀ q₀ c₀, s.queues.get? k₀ = some q₀ → c₀ ∈ turns cfg now args k₀ q₀ →
    (∀ k q, s.queues.get? k = some q → ∀ c ∈ turns cfg now args k q, ¬ Leads c₀ c) →
    ∀ k q a, s.queues.get? k = some q → k ≠ k₀ → again cfg now args q = some a →
      totalCmp a c₀.2.1 ≠ .gt

theorem lastTurnAhead_iff : LastTurnAhead cfg now args s ↔
    ∀ k₀ ∈ (lanes cfg now args s).keys, ∀ c₀ ∈ (lanes cfg now args s).turns k₀,
      (lanes cfg now args s).Last c₀ → ∀ k ∈ (lanes cfg now args s).keys, k ≠ k₀ →
        (lanes cfg now args s).below k c₀ := by
  constructor
  · intro h k₀ hk₀ c₀ hc₀ hlast k hk hne q a hq ha
    obtain ⟨q₀, hq₀⟩ := mem_keys_lanes.mp hk₀
    rw [turns_lanes hq₀] at hc₀
    refine h k₀ q₀ c₀ hq₀ hc₀ (fun k q hq c hc => ?_) k q a hq hne ha
    exact hlast k (mem_keys_lanes.mpr ⟨q, hq⟩) c (by rwa [turns_lanes hq])
  · intro h k₀ q₀ c₀ hq₀ hc₀ hlast k q a hq hne ha
    refine h k₀ (mem_keys_lanes.mpr ⟨q₀, hq₀⟩) c₀ (by rwa [turns_lanes hq₀]) (fun k hk c hc => ?_)
      k (mem_keys_lanes.mpr ⟨q, hq⟩) hne q a hq ha
    obtain ⟨q, hq⟩ := mem_keys_lanes.mp hk
    rw [turns_lanes hq] at hc
    exact hlast k q hq c hc

omit [Std.TransCmp (Arith.totalCmp : F → F → Ordering)] in
/-- Rounds that repeat no request serve no queue more often than it has
requests. -/
theorem servedTimes_le (hk : Keyed s) (h : Trace (Retried cfg now args) s rs t) (hnd : rs.Nodup)
    (hq : s.queues.get? k = some q) : servedTimes rs k ≤ q.items.length := by
  have hsub : rs.filter (queueKey · == k) ⊆ q.items.map (·.request) := by
    intro r hr
    obtain ⟨hr, hkey⟩ := List.mem_filter.mp hr
    obtain ⟨item, hitem, rfl⟩ := (retried_keeps hk h).2.2 r hr
    obtain ⟨k', hitem⟩ := mem_queued.mp hitem
    obtain rfl : k' = k := (hk.keyed k' item hitem).symm.trans (beq_iff_eq.mp hkey)
    rw [itemsIn_of_get? hq] at hitem
    exact List.mem_map_of_mem hitem
  calc servedTimes rs k = (rs.filter (queueKey · == k)).length := by
        unfold servedTimes
        rw [List.count, List.countP_map, List.countP_eq_length_filter]
        rfl
    _ ≤ (q.items.map (·.request)).length :=
        (List.subperm_of_subset (hnd.filter _) hsub).length_le
    _ = q.items.length := List.length_map _

/-- **As many rounds as requests try every request exactly when the turn
ranked last is ahead of every other queue that comes again.** -/
theorem tries_all_iff (hk : Keyed s) (hlow : NoneLowered cfg s)
    (hseq : ∀ it ∈ queued s, it.sequence ≤ s.sequence)
    (h : Trace (Retried cfg now args) s rs t) (hlen : rs.length = (queued s).length)
    (hroom : s.sequence + rs.length < 2 ^ 64) :
    (∀ item ∈ queued s, item.request ∈ rs) ↔ LastTurnAhead cfg now args s := by
  have hgreedy := greedy hk hlow hseq h hroom
  have htotal : (rs.map queueKey).length = (lanes cfg now args s).total := by
    rw [List.length_map, hlen, total_lanes]
  rw [lastTurnAhead_iff, ← hgreedy.exhausts_iff htotal]
  constructor
  · -- no queue was served more often than it has requests, and all of them together as often
    intro hall
    refine Lanes.count_eq_of_within hgreedy.mem htotal fun k hkey => ?_
    obtain ⟨q, hq⟩ := mem_keys_lanes.mp hkey
    rw [turns_lanes hq, length_turns]
    exact servedTimes_le hk h (hk.nodup_of_tries_all hlen hall) hq
  · intro hall item hitem
    have hserved : ∀ k q, s.queues.get? k = some q → servedTimes rs k = q.items.length := by
      intro k q hq
      have hcount := hall k
      rwa [turns_lanes hq, length_turns] at hcount
    have hrot := rotated_of_run hk hlow h hroom fun k q hq => (hserved k q hq).le
    obtain ⟨k, hitem⟩ := mem_queued.mp hitem
    obtain ⟨q, hq⟩ := get?_of_backlog (List.ne_nil_of_mem hitem)
    obtain ⟨-, -, -, htried⟩ := hrot.present k q hq
    rw [hserved k q hq, List.take_length] at htried
    exact htried item (by rwa [itemsIn_of_get? hq] at hitem)

end Lanes

end Scheduler

end InferQos
