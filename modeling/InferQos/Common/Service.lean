import Mathlib.Data.List.Induction
import Mathlib.Data.List.Nodup
import Mathlib.Order.Nat
/-!
# Histories of keyed first-come-first-served service

A service accepts requests and lets each go once, served or cancelled; a
request has an identifier, which may be used again once the request is
gone, and a key, under which service is in order of acceptance. `Orderly`
says this event by event against the list of requests still waiting, which
is the form an implementation's invariant can carry; the theorems below it
read an orderly history as a whole.
-/

namespace InferQos

namespace Service

/-- One event of a history. -/
inductive Event (R I : Type*)
  /-- A request was taken in. -/
  | accepted (r : R)
  /-- A request was served. -/
  | popped (r : R)
  /-- The waiting request with this identifier was withdrawn. -/
  | cancelled (i : I)

variable {R I K : Type*} (ident : R → I) (key : R → K)
variable {h : List (Event R I)} {e e' : Event R I} {r r' : R} {i j m n : ℕ}

/-- The identifier an acceptance takes. -/
def Event.taken : Event R I → Option I
  | accepted r => some (ident r)
  | _ => none

/-- The identifier a departure frees. -/
def Event.freed : Event R I → Option I
  | accepted _ => none
  | popped r => some (ident r)
  | cancelled i => some i

/-- **The acceptance at `i` departs at `n`**: the event there frees its
identifier, and none between does. -/
structure Departs (h : List (Event R I)) (i n : ℕ) (r : R) (e : Event R I) : Prop where
  accepted : h[i]? = some (.accepted r)
  lt : i < n
  departure : h[n]? = some e
  freed : e.freed ident = some (ident r)
  still : ∀ (j : ℕ) (e' : Event R I), i < j → j < n → h[j]? = some e' →
    e'.freed ident ≠ some (ident r)

/-- The events of a history and of the same history one event later. -/
theorem getElem?_snoc :
    (h ++ [e])[j]? = some e' ↔ h[j]? = some e' ∨ j = h.length ∧ e = e' := by
  rcases Nat.lt_trichotomy j h.length with hj | rfl | hj
  · rw [List.getElem?_append_left hj]
    exact ⟨Or.inl, fun hor => hor.resolve_right fun hcon => by omega⟩
  · simp
  · rw [List.getElem?_append_right hj.le, List.getElem?_eq_none (l := h) hj.le,
      List.getElem?_eq_none (by rw [List.length_singleton]; omega)]
    simp only [reduceCtorEq, false_or, false_iff, not_and]
    omega

/-- **Every acceptance departs at most once**, by service or by
cancellation. -/
theorem departs_once {ident : R → I} (hd : Departs ident h i n r e)
    (hd' : Departs ident h i m r' e') : n = m := by
  have hr : r = r' := by
    have := hd.accepted.symm.trans hd'.accepted
    cases this
    rfl
  subst hr
  rcases Nat.lt_trichotomy n m with hlt | heq | hlt
  · exact absurd hd.freed (hd'.still n e hd.lt hlt hd.departure)
  · exact heq
  · exact absurd hd'.freed (hd.still m e' hd'.lt hlt hd'.departure)

/-! ## The waiting list -/

variable [DecidableEq I]

/-- One event, with the position it stands at. -/
def waitStep (w : ℕ × List (ℕ × R)) (e : Event R I) : ℕ × List (ℕ × R) :=
  (w.1 + 1,
    match e with
    | .accepted r => w.2 ++ [(w.1, r)]
    | .popped r => w.2.filter fun a => ident a.2 ≠ ident r
    | .cancelled i => w.2.filter fun a => ident a.2 ≠ i)

/-- **The requests still waiting after a history**, in order of
acceptance, each with the position of its acceptance. -/
def waiting (h : List (Event R I)) : List (ℕ × R) := (h.foldl (waitStep ident) (0, [])).2

theorem foldl_waitStep_fst (h : List (Event R I)) (w : ℕ × List (ℕ × R)) :
    (h.foldl (waitStep ident) w).1 = w.1 + h.length := by
  induction h generalizing w with
  | nil => rfl
  | cons e h ih =>
    rw [List.foldl_cons, ih, List.length_cons]
    simp only [waitStep]
    omega

@[simp] theorem waiting_nil : waiting ident ([] : List (Event R I)) = [] := rfl

@[simp] theorem waiting_accepted :
    waiting ident (h ++ [.accepted r]) = waiting ident h ++ [(h.length, r)] := by
  have hlen := foldl_waitStep_fst ident h (0, [])
  simp only [Nat.zero_add] at hlen
  simp [waiting, waitStep, hlen]

/-- **A departure frees its identifier**, whichever kind it is. -/
theorem waiting_freed {x : I} (hx : e.freed ident = some x) :
    waiting ident (h ++ [e]) = (waiting ident h).filter fun a => ident a.2 ≠ x := by
  cases e with
  | accepted r => cases hx
  | popped r => cases hx; simp [waiting, waitStep]
  | cancelled i => cases hx; simp [waiting, waitStep]

/-- Positions increase along the waiting list and stay below the present. -/
theorem waiting_sorted (h : List (Event R I)) :
    (waiting ident h).Pairwise (fun a b => a.1 < b.1) ∧ ∀ a ∈ waiting ident h, a.1 < h.length := by
  induction h using List.reverseRecOn with
  | nil => simp
  | append_singleton h e ih =>
    obtain ⟨hs, hb⟩ := ih
    cases hf : e.freed ident with
    | none =>
      cases e with
      | popped r => cases hf
      | cancelled x => cases hf
      | accepted r =>
        rw [waiting_accepted, List.length_append, List.length_singleton]
        refine ⟨List.pairwise_append.mpr ⟨hs, List.pairwise_singleton _ _, ?_⟩, fun a ha => ?_⟩
        · intro a ha b hb'
          rw [List.mem_singleton.mp hb']
          exact hb a ha
        · rcases List.mem_append.mp ha with ha | ha
          · have := hb a ha
            omega
          · rw [List.mem_singleton.mp ha]
            exact Nat.lt_succ_self _
    | some x =>
      rw [waiting_freed ident hf, List.length_append, List.length_singleton]
      refine ⟨hs.filter _, fun a ha => ?_⟩
      have := hb a (List.mem_filter.mp ha).1
      omega

/-- **Who is waiting**: an acceptance whose identifier nothing has freed
since. -/
theorem mem_waiting (h : List (Event R I)) (i : ℕ) (r : R) :
    (i, r) ∈ waiting ident h ↔
      h[i]? = some (.accepted r) ∧
        ∀ (j : ℕ) (e : Event R I), i < j → h[j]? = some e → e.freed ident ≠ some (ident r) := by
  induction h using List.reverseRecOn with
  | nil => simp
  | append_singleton h e ih =>
    simp only [getElem?_snoc]
    have hlt : ∀ {j : ℕ} {e' : Event R I}, h[j]? = some e' → j < h.length :=
      fun hj => (List.getElem?_eq_some_iff.mp hj).1
    cases hf : e.freed ident with
    | none =>
      cases e with
      | popped r => cases hf
      | cancelled x => cases hf
      | accepted r' =>
        rw [waiting_accepted, List.mem_append, List.mem_singleton, ih]
        constructor
        · rintro (⟨hi, hno⟩ | heq)
          · refine ⟨Or.inl hi, ?_⟩
            rintro j e' hij (hj | ⟨-, rfl⟩)
            · exact hno j e' hij hj
            · simp [Event.freed]
          · obtain ⟨rfl, rfl⟩ := Prod.mk.inj heq
            refine ⟨Or.inr ⟨rfl, rfl⟩, ?_⟩
            rintro j e' hij (hj | ⟨rfl, -⟩)
            · exact absurd (hlt hj) (by omega)
            · omega
        · rintro ⟨hi | ⟨rfl, heq⟩, hno⟩
          · exact Or.inl ⟨hi, fun j e' hij hj => hno j e' hij (Or.inl hj)⟩
          · cases heq
            exact Or.inr rfl
    | some x =>
      rw [waiting_freed ident hf, List.mem_filter, ih, decide_eq_true_iff]
      constructor
      · rintro ⟨⟨hi, hno⟩, hx⟩
        refine ⟨Or.inl hi, ?_⟩
        rintro j e' hij (hj | ⟨-, rfl⟩)
        · exact hno j e' hij hj
        · rw [hf]
          exact fun hcon => hx (Option.some.inj hcon).symm
      · rintro ⟨hi | ⟨-, rfl⟩, hno⟩
        · refine ⟨⟨hi, fun j e' hij hj => hno j e' hij (Or.inl hj)⟩, fun hx => ?_⟩
          exact hno h.length e (hlt hi) (Or.inr ⟨rfl, rfl⟩) (by rw [hf, hx])
        · cases hf

/-! ## Orderly histories -/

variable [DecidableEq K]

/-- **What an event may be**, after the requests `w` were left waiting. -/
def Admissible (w : List (ℕ × R)) : Event R I → Prop
  | .accepted r => ∀ a ∈ w, ident a.2 ≠ ident r
  | .popped r => ∃ i rest, (w.filter fun a => key a.2 = key r) = (i, r) :: rest
  | .cancelled x => ∃ a ∈ w, ident a.2 = x

/-- **An orderly history**: no identifier waits twice, a served request is
the first that waits under its key, a cancelled one waits. -/
inductive Orderly : List (Event R I) → Prop
  /-- Nothing happened yet. -/
  | nil : Orderly []
  /-- One admissible event more. -/
  | snoc {h : List (Event R I)} {e : Event R I} :
      Orderly h → Admissible ident key (waiting ident h) e → Orderly (h ++ [e])

variable {ident key}

/-- The acceptance that departs at `n` is waiting until then. -/
theorem Departs.mem_waiting (hd : Departs ident h i n r e) (hm : i < m) (hmn : m ≤ n) :
    (i, r) ∈ waiting ident (h.take m) := by
  rw [Service.mem_waiting]
  refine ⟨by rw [List.getElem?_take_of_lt hm]; exact hd.accepted, fun j e' hij hj => ?_⟩
  rw [List.getElem?_take] at hj
  split at hj
  · exact hd.still j e' hij (by omega) hj
  · cases hj

/-- An acceptance that waits departs at the next event that frees it. -/
theorem departs_of_mem_waiting (hw : (i, r) ∈ waiting ident (h.take n)) (he : h[n]? = some e)
    (hf : e.freed ident = some (ident r)) : Departs ident h i n r e := by
  have hlt := (waiting_sorted ident (h.take n)).2 _ hw
  rw [Service.mem_waiting] at hw
  rw [List.length_take] at hlt
  have hin : i < n := by omega
  refine ⟨?_, hin, he, hf, fun j e' hij hjn hj => hw.2 j e' hij ?_⟩
  · rw [← hw.1, List.getElem?_take_of_lt hin]
  · rw [List.getElem?_take_of_lt hjn]
    exact hj

/-- Each event of an orderly history was admissible where it stands, and
the history up to it is orderly. -/
theorem Orderly.at (ho : Orderly ident key h) (he : h[n]? = some e) :
    Orderly ident key (h.take n) ∧ Admissible ident key (waiting ident (h.take n)) e := by
  induction ho with
  | nil => cases he
  | @snoc h e' ho hadm ih =>
    rcases getElem?_snoc.mp he with hn | ⟨rfl, rfl⟩
    · have hlt := (List.getElem?_eq_some_iff.mp hn).1
      rw [List.take_append_of_le_length (Nat.le_of_lt hlt)]
      exact ih hn
    · rw [List.take_left]
      exact ⟨ho, hadm⟩

/-- **No identifier waits twice.** -/
theorem Orderly.waiting_unique (ho : Orderly ident key h) {a b : ℕ × R}
    (ha : a ∈ waiting ident h) (hb : b ∈ waiting ident h) (hab : ident a.2 = ident b.2) :
    a = b := by
  induction ho with
  | nil => cases ha
  | @snoc h e ho hadm ih =>
    cases hf : e.freed ident with
    | some x =>
      rw [waiting_freed ident hf] at ha hb
      exact ih (List.mem_filter.mp ha).1 (List.mem_filter.mp hb).1
    | none =>
      cases e with
      | popped r => cases hf
      | cancelled x => cases hf
      | accepted r =>
        rw [waiting_accepted, List.mem_append, List.mem_singleton] at ha hb
        rcases ha with ha | rfl
        · rcases hb with hb | rfl
          · exact ih ha hb
          · exact absurd hab (hadm a ha)
        · rcases hb with hb | rfl
          · exact absurd hab.symm (hadm b hb)
          · rfl

/-- What departs was waiting. -/
theorem Orderly.exists_waiting (ho : Orderly ident key h) (he : h[n]? = some e) {x : I}
    (hf : e.freed ident = some x) : ∃ a ∈ waiting ident (h.take n), ident a.2 = x := by
  have hadm := (ho.at he).2
  cases e with
  | accepted r => cases hf
  | popped r =>
    obtain ⟨i, rest, hw⟩ := hadm
    have hmem : (i, r) ∈ (waiting ident (h.take n)).filter fun a => key a.2 = key r := by
      rw [hw]
      exact List.mem_cons_self
    exact ⟨(i, r), (List.mem_filter.mp hmem).1, Option.some.inj hf⟩
  | cancelled x' =>
    obtain ⟨a, ha, hax⟩ := hadm
    exact ⟨a, ha, hax.trans (Option.some.inj hf)⟩

/-- **Every departure is the departure of one acceptance.** -/
theorem Orderly.departure_unique (ho : Orderly ident key h) (he : h[n]? = some e)
    (hf : e.freed ident ≠ none) : ∃! i, ∃ r, Departs ident h i n r e := by
  obtain ⟨x, hx⟩ := Option.ne_none_iff_exists'.mp hf
  obtain ⟨⟨i, r⟩, ha, hax⟩ := ho.exists_waiting he hx
  refine ⟨i, ⟨r, departs_of_mem_waiting ha he (by rw [hx, ← hax])⟩, ?_⟩
  rintro i' ⟨r', hd⟩
  have hw := hd.mem_waiting hd.lt le_rfl
  have hid : ident r' = ident r := by
    have := hd.freed
    rw [hx] at this
    exact (Option.some.inj this).symm.trans hax.symm
  exact congrArg Prod.fst ((ho.at he).1.waiting_unique hw ha hid)

/-- **What is served is what was accepted.** -/
theorem Orderly.served_eq (ho : Orderly ident key h) (hd : Departs ident h i n r (.popped r')) :
    r' = r := by
  obtain ⟨i', rest, hw⟩ := (ho.at hd.departure).2
  have hmem : (i', r') ∈ (waiting ident (h.take n)).filter fun a => key a.2 = key r' := by
    rw [hw]
    exact List.mem_cons_self
  have hw := hd.mem_waiting hd.lt le_rfl
  exact congrArg Prod.snd ((ho.at hd.departure).1.waiting_unique (List.mem_filter.mp hmem).1 hw
    (Option.some.inj hd.freed))

/-- **Service under one key is in order of acceptance.** -/
theorem Orderly.served_in_order (ho : Orderly ident key h)
    (hd : Departs ident h i n r (.popped r)) (hd' : Departs ident h j m r' (.popped r'))
    (hkey : key r = key r') (hij : i < j) : n < m := by
  by_contra hcon
  -- at `m` both are waiting, so the one served there is not the first of its key
  obtain ⟨i', rest, hw⟩ := (ho.at hd'.departure).2
  have hsorted := (waiting_sorted ident (h.take m)).1.filter fun a => key a.2 = key r'
  have hmem : ∀ a ∈ waiting ident (h.take m), key a.2 = key r' → a ∈ (i', r') :: rest := by
    intro a ha hak
    rw [← hw]
    exact List.mem_filter.mpr ⟨ha, by simpa using hak⟩
  have hjm := hd'.mem_waiting hd'.lt le_rfl
  have him := hd.mem_waiting (hij.trans hd'.lt) (Nat.le_of_not_lt hcon)
  have hhead : (i', r') ∈ waiting ident (h.take m) :=
    (List.mem_filter.mp (hw ▸ List.mem_cons_self)).1
  have hj : i' = j := congrArg Prod.fst ((ho.at hd'.departure).1.waiting_unique hhead hjm rfl)
  rw [hw, List.pairwise_cons] at hsorted
  rcases List.mem_cons.mp (hmem _ him hkey) with heq | hrest
  · have := congrArg Prod.fst heq
    simp only at this
    omega
  · have := hsorted.1 _ hrest
    simp only at this
    omega

/-- **Every acceptance is accounted for**: as many as departures, and one
more while the identifier waits. -/
theorem Orderly.count (ho : Orderly ident key h) (x : I) :
    h.countP (fun e => e.taken ident = some x) =
      h.countP (fun e => e.freed ident = some x) +
        if ∃ a ∈ waiting ident h, ident a.2 = x then 1 else 0 := by
  induction ho with
  | nil => simp
  | @snoc h e ho hadm ih =>
    rw [List.countP_append, List.countP_append, ih, List.countP_singleton, List.countP_singleton]
    cases hf : e.freed ident with
    | none =>
      cases e with
      | popped r => cases hf
      | cancelled x => cases hf
      | accepted r =>
        rw [waiting_accepted]
        by_cases hx : ident r = x
        · have hno : ¬ ∃ a ∈ waiting ident h, ident a.2 = x := by
            rintro ⟨a, ha, hax⟩
            exact hadm a ha (hax.trans hx.symm)
          simp [hx, hno, Event.taken]
        · have hiff : (∃ a ∈ waiting ident h ++ [(h.length, r)], ident a.2 = x) ↔
              ∃ a ∈ waiting ident h, ident a.2 = x := by
            simp [or_and_right, exists_or, hx]
          simp only [hiff]
          simp [Event.taken, hx]
    | some y =>
      have hno : e.taken ident = none := by
        cases e with
        | accepted r => cases hf
        | popped r => rfl
        | cancelled z => rfl
      rw [waiting_freed ident hf, hno]
      by_cases hx : y = x
      · have hin : ∃ a ∈ waiting ident h, ident a.2 = x := by
          have := (Orderly.snoc ho hadm).exists_waiting (n := h.length) (e := e) (by simp) hf
          rwa [List.take_left, hx] at this
        have hout : ¬ ∃ a ∈ (waiting ident h).filter (fun a => ident a.2 ≠ y), ident a.2 = x := by
          rintro ⟨a, ha, hax⟩
          exact of_decide_eq_true (List.mem_filter.mp ha).2 (hax.trans hx.symm)
        simp [if_pos hin, if_neg hout, hx]
      · have hiff : (∃ a ∈ (waiting ident h).filter (fun a => ident a.2 ≠ y), ident a.2 = x) ↔
            ∃ a ∈ waiting ident h, ident a.2 = x := by
          constructor
          · rintro ⟨a, ha, hax⟩
            exact ⟨a, (List.mem_filter.mp ha).1, hax⟩
          · rintro ⟨a, ha, hax⟩
            refine ⟨a, List.mem_filter.mpr ⟨ha, ?_⟩, hax⟩
            simpa using fun hay => hx (hay.symm.trans hax)
        simp only [hiff]
        simp [hx]

end Service

end InferQos
