import InferQos.Common.Trace
/-!
# Ranks

A rank that no step raises and some steps lower bounds how often those
are taken (`Trace.countP_add_le`); a rank that some step can always lower
brings a run to its goal (`exists_trace_of_rank`).
-/

namespace InferQos

variable {σ ε : Type*} {R : σ → ε → σ → Prop}

/-- The steps of `R`, each labelled with what a test finds in the state it
starts from. -/
def Observed (p : σ → ε → Bool) (R : σ → ε → σ → Prop) (s : σ) (e : ε × Bool) (t : σ) : Prop :=
  R s e.1 t ∧ e.2 = p s e.1

/-- A run that evaluates with its labels checked is a labelled run. -/
theorem Trace.exists_observed_of_any {p : σ → ε → Bool} {step : σ → ε → Option σ}
    {es : List (ε × Bool)} {s : σ} {q : σ → Bool}
    (h : (es.foldlM (fun s e => if e.2 = p s e.1 then step s e.1 else none) s).any q = true) :
    ∃ t, Trace (Observed p (StepOf step)) s es t ∧ q t = true := by
  obtain ⟨t, ht, hq⟩ := Trace.exists_of_any h
  refine ⟨t, ht.mono fun {t e u} hstep => ?_, hq⟩
  change (if e.2 = p t e.1 then step t e.1 else none) = some u at hstep
  split at hstep
  · exact ⟨hstep, ‹_›⟩
  · cases hstep

/-- **The steps a rank counts are at most as many as it has to lose.** -/
theorem Trace.countP_add_le {p : σ → ε → Bool} {Inv : σ → Prop} {rank : σ → ℕ} {s t : σ}
    {es : List (ε × Bool)} (h : Trace (Observed p R) s es t) (h0 : Inv s)
    (hinv : ∀ {s e t}, Inv s → R s e t → Inv t)
    (hle : ∀ {s e t}, Inv s → R s e t → rank t ≤ rank s)
    (hlt : ∀ {s e t}, Inv s → R s e t → p s e = true → rank t < rank s) :
    es.countP (·.2) + rank t ≤ rank s := by
  have hrun : Inv t ∧ es.countP (·.2) + rank t ≤ rank s := by
    refine h.history (P := fun es t => Inv t ∧ es.countP (·.2) + rank t ≤ rank s)
      ⟨h0, by simp⟩ fun {es t e u} ih hstep => ?_
    obtain ⟨hI, hsum⟩ := ih
    refine ⟨hinv hI hstep.1, ?_⟩
    rw [List.countP_append, List.countP_singleton, hstep.2]
    have hdown := hle hI hstep.1
    cases hp : p t e.1 with
    | false =>
      simp only [Bool.false_eq_true, if_false]
      omega
    | true =>
      have := hlt hI hstep.1 hp
      simp only [if_true]
      omega
  exact hrun.2

/-- **A rank that can always be lowered reaches its goal**, in as many steps
as it has to lose. -/
theorem exists_trace_of_rank {Inv goal : σ → Prop} {ok : ε → Prop} {rank : σ → ℕ}
    (h : ∀ s, Inv s → goal s ∨ ∃ e t, R s e t ∧ ok e ∧ Inv t ∧ rank t < rank s) (s : σ)
    (hs : Inv s) :
    ∃ es t, Trace R s es t ∧ (∀ e ∈ es, ok e) ∧ es.length ≤ rank s ∧ goal t := by
  induction hn : rank s using Nat.strongRecOn generalizing s with
  | ind n ih =>
    rcases h s hs with hgoal | ⟨e, t, hstep, hok, hinv, hlt⟩
    · exact ⟨[], s, Trace.nil, fun _ he => absurd he List.not_mem_nil, Nat.zero_le _, hgoal⟩
    · obtain ⟨es, u, hrest, hoks, hlen, hgoal⟩ := ih (rank t) (hn ▸ hlt) t hinv rfl
      refine ⟨e :: es, u, hrest.cons hstep, ?_, ?_, hgoal⟩
      · intro e' he'
        rcases List.mem_cons.mp he' with rfl | he'
        · exact hok
        · exact hoks e' he'
      · rw [List.length_cons]
        omega

end InferQos
