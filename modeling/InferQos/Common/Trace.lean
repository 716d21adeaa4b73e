import Mathlib.Data.List.Basic
import Mathlib.Data.List.Induction
/-!
# Runs of a step relation

A run is a list of labels with a step for each; a guarded run is one all
of whose steps also meet a condition on the state they start from. The
two rules are the induction a safety proof makes once: what holds at the
start and survives a step holds along the run, with or without the
history of labels in the statement. `countAlong` counts the steps of a run
that have a property, and `Trace.counted` is the same rule with that count.
-/

namespace InferQos

variable {σ ε : Type*}

/-- **Induction over a list of calls, each known by those before it.** -/
theorem prefix_induction {P : List ε → Prop} {ok : List ε → ε → Prop} {es : List ε}
    (h : ∀ pre e, pre ++ [e] <+: es → ok pre e) (h0 : P [])
    (hstep : ∀ pre e, P pre → ok pre e → P (pre ++ [e])) : P es := by
  induction es using List.reverseRecOn with
  | nil => exact h0
  | append_singleton es e ih =>
    refine hstep es e (ih fun pre e' hpre => ?_) (h es e List.prefix_rfl)
    exact h pre e' (hpre.trans (List.prefix_append es [e]))

/-- **A run** of `R` from `s`: the labels taken, and the state reached. -/
inductive Trace (R : σ → ε → σ → Prop) (s : σ) : List ε → σ → Prop
  /-- No step. -/
  | nil : Trace R s [] s
  /-- One step more. -/
  | snoc {es : List ε} {t u : σ} {e : ε} : Trace R s es t → R t e u → Trace R s (es ++ [e]) u

/-- The steps of `R` that meet `ok` in the state they start from. -/
def Guarded (ok : σ → ε → Prop) (R : σ → ε → σ → Prop) (s : σ) (e : ε) (t : σ) : Prop :=
  ok s e ∧ R s e t

/-- The step relation of a partial step function. -/
def StepOf (step : σ → ε → Option σ) (s : σ) (e : ε) (t : σ) : Prop := step s e = some t

namespace Trace

variable {R : σ → ε → σ → Prop} {s t u : σ} {es fs : List ε} {e : ε}

/-- **The invariant rule.** -/
theorem invariant {P : σ → Prop} (h : Trace R s es t) (h0 : P s)
    (hstep : ∀ {t e u}, P t → R t e u → P u) : P t := by
  induction h with
  | nil => exact h0
  | snoc _ hs ih => exact hstep ih hs

/-- **The invariant rule with the history in the statement.** -/
theorem history {P : List ε → σ → Prop} (h : Trace R s es t) (h0 : P [] s)
    (hstep : ∀ {es t e u}, P es t → R t e u → P (es ++ [e]) u) : P es t := by
  induction h with
  | nil => exact h0
  | snoc _ hs ih => exact hstep ih hs

/-- **The invariant rule along one run**, whose steps are known by what was
done before them. -/
theorem along {P : σ → Prop} (h : Trace R s es t) (h0 : P s)
    (hstep : ∀ {pre e t u}, pre ++ [e] <+: es → Trace R s pre t → P t → R t e u → P u) : P t := by
  induction h with
  | nil => exact h0
  | @snoc es t u e h hs ih =>
    refine hstep List.prefix_rfl h (ih fun hpre => ?_) hs
    exact hstep (hpre.trans (List.prefix_append es [e]))

/-- A run of a relation is one of a wider relation. -/
theorem mono {R' : σ → ε → σ → Prop} (h : Trace R s es t) (hR : ∀ {t e u}, R t e u → R' t e u) :
    Trace R' s es t := by
  induction h with
  | nil => exact Trace.nil
  | snoc _ hs ih => exact ih.snoc (hR hs)

/-- The last step of a run. -/
theorem last (h : Trace R s (es ++ [e]) u) : ∃ t, Trace R s es t ∧ R t e u := by
  generalize hfs : es ++ [e] = fs at h
  cases h with
  | nil => exact absurd hfs (List.append_ne_nil_of_right_ne_nil _ (List.cons_ne_nil _ _))
  | snoc h hs =>
    obtain ⟨rfl, heq⟩ := List.append_inj' hfs rfl
    obtain rfl := List.singleton_inj.mp heq
    exact ⟨_, h, hs⟩

/-- **Runs of a deterministic relation** with the same labels end in the
same state. -/
theorem unique (hdet : ∀ {s e t u}, R s e t → R s e u → t = u) (h : Trace R s es t)
    (h' : Trace R s es u) : t = u := by
  induction h generalizing u with
  | nil =>
    generalize hes : ([] : List ε) = fs at h'
    cases h' with
    | nil => rfl
    | snoc => exact absurd hes.symm (List.append_ne_nil_of_right_ne_nil _ (List.cons_ne_nil _ _))
  | snoc _ hs ih =>
    obtain ⟨v, hv, hvu⟩ := h'.last
    rw [← ih hv] at hvu
    exact hdet hs hvu

/-- A run passes through a state after every prefix of its labels. -/
theorem of_prefix (h : Trace R s es t) (hfs : fs <+: es) : ∃ u, Trace R s fs u := by
  induction h with
  | nil =>
    rw [List.prefix_nil.mp hfs]
    exact ⟨s, Trace.nil⟩
  | snoc h hs ih =>
    rcases List.prefix_concat_iff.mp hfs with rfl | hfs
    · exact ⟨_, h.snoc hs⟩
    · exact ih hfs

/-- A run with one step before it. -/
theorem cons (h : R s e t) (hrest : Trace R t es u) : Trace R s (e :: es) u := by
  induction hrest with
  | nil => exact Trace.snoc Trace.nil h
  | snoc _ hs ih => exact Trace.snoc ih hs

/-- A run goes on with labels that evaluate, each from the state the one
before it reached. -/
theorem append_foldlM {step : σ → ε → Option σ} :
    ∀ {es : List ε} {s t u : σ} {fs : List ε}, Trace (StepOf step) s fs t →
      es.foldlM step t = some u → Trace (StepOf step) s (fs ++ es) u := by
  intro es
  induction es with
  | nil =>
    intro s t u fs h he
    simp only [List.foldlM_nil, Option.pure_def, Option.some.injEq] at he
    rw [← he, List.append_nil]
    exact h
  | cons e es ih =>
    intro s t u fs h he
    rw [List.foldlM_cons] at he
    obtain ⟨v, hv, hu⟩ := Option.bind_eq_some_iff.mp he
    have := ih (h.snoc hv) hu
    rwa [List.append_assoc, List.singleton_append] at this

/-- **A run evaluated by a function that takes steps of the relation** is a
run of the relation. -/
theorem of_foldlM {step : σ → ε → Option σ} (hstep : ∀ {s e t}, step s e = some t → R s e t)
    (h : es.foldlM step s = some t) : Trace R s es t :=
  (append_foldlM Trace.nil h).mono hstep

/-- **A run that evaluates is a run**, to a state with the property found. -/
theorem exists_of_any {step : σ → ε → Option σ} {es : List ε} {s : σ} {p : σ → Bool}
    (h : (es.foldlM step s).any p = true) : ∃ t, Trace (StepOf step) s es t ∧ p t = true := by
  obtain ⟨t, ht, hp⟩ := (Option.any_eq_true _ _).mp h
  exact ⟨t, append_foldlM Trace.nil ht, hp⟩

/-- **A run that evaluates with a guard at every step is a guarded run.** -/
theorem exists_guarded_of_any {ok : σ → ε → Bool} {step : σ → ε → Option σ} {es : List ε} {s : σ}
    {p : σ → Bool}
    (h : (es.foldlM (fun s e => if ok s e then step s e else none) s).any p = true) :
    ∃ t, Trace (Guarded (fun s e => ok s e = true) (StepOf step)) s es t ∧ p t = true := by
  obtain ⟨t, ht, hp⟩ := exists_of_any h
  refine ⟨t, ht.mono fun {t e u} hstep => ?_, hp⟩
  change (if ok t e then step t e else none) = some u at hstep
  split at hstep
  · exact ⟨‹_›, hstep⟩
  · cases hstep

/-- A run of a step function evaluates. -/
theorem foldlM_eq {step : σ → ε → Option σ} (h : Trace (StepOf step) s es t) :
    es.foldlM step s = some t := by
  induction h with
  | nil => rfl
  | snoc _ hs ih =>
    rw [List.foldlM_append, ih]
    exact Option.bind_eq_some_iff.mpr ⟨_, rfl, Option.bind_eq_some_iff.mpr ⟨_, hs, rfl⟩⟩

end Trace

/-! ## Counting steps -/

/-- **How many steps of a run have a property.** -/
def countAlong (step : σ → ε → Option σ) (p : σ → ε → Bool) : σ → List ε → ℕ
  | _, [] => 0
  | s, e :: es =>
    (p s e).toNat + match step s e with
      | none => 0
      | some t => countAlong step p t es

section CountAlong

variable {step : σ → ε → Option σ} {p : σ → ε → Bool}

/-- One step more is one more to count, or none. -/
theorem countAlong_snoc {e : ε} : ∀ {es : List ε} {s t : σ}, es.foldlM step s = some t →
    countAlong step p s (es ++ [e]) = countAlong step p s es + (p t e).toNat := by
  intro es
  induction es with
  | nil =>
    intro s t h
    obtain rfl : s = t := Option.some.inj h
    rw [List.nil_append, countAlong, countAlong, Nat.zero_add]
    cases step s e with
    | none => rfl
    | some u => rfl
  | cons e' es ih =>
    intro s t h
    rw [List.foldlM_cons] at h
    obtain ⟨v, hv, ht⟩ := Option.bind_eq_some_iff.mp h
    simp only [List.cons_append, countAlong, hv]
    rw [ih ht, Nat.add_assoc]

/-- **The invariant rule with a count in the statement.** -/
theorem Trace.counted {P : ℕ → σ → Prop} {s t : σ} {es : List ε} (h : Trace (StepOf step) s es t)
    (h0 : P 0 s) (hstep : ∀ {k t e u}, P k t → step t e = some u → P (k + (p t e).toNat) u) :
    P (countAlong step p s es) t := by
  induction h with
  | nil => exact h0
  | snoc htrace hs ih =>
    rw [countAlong_snoc htrace.foldlM_eq]
    exact hstep ih hs

end CountAlong

end InferQos
