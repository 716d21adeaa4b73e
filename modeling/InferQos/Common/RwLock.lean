import Mathlib.Data.List.Basic
/-!
# A fair read-write lock

The lock of an asynchronous runtime. Requests are served in the order they
were made; readers share the lock and a writer has it alone. Nothing stops
a task from asking for a guard while it holds one: `Wedged` says what
becomes of the lock when a reader asks to write. Its request is never
served, and neither is any request behind it, until the task itself gives
its guard back or is dropped.
-/

namespace InferQos

/-- What a guard allows. -/
inductive Access
  | read
  | write
  deriving DecidableEq

/-- **The lock**: the guards that are out, and the requests that wait. -/
structure RwLock (τ : Type) where
  guards : List (τ × Access)
  queue : List (τ × Access)

namespace RwLock

variable {τ : Type}

/-- Nobody holds the lock or waits for it. -/
def free : RwLock τ := ⟨[], []⟩

/-- Whether the guards that are out leave room for another. -/
def admits (l : RwLock τ) : Access → Bool
  | .read => l.guards.all (·.2 = .read)
  | .write => l.guards.isEmpty

/-- A task asks for a guard. -/
def request (l : RwLock τ) (t : τ) (a : Access) : RwLock τ := { l with queue := l.queue ++ [(t, a)] }

/-- **The first request is served**, if the guards leave room for it. -/
def grant (l : RwLock τ) : Option ((τ × Access) × RwLock τ) :=
  match l.queue with
  | [] => none
  | r :: rest => if l.admits r.2 then some (r, ⟨r :: l.guards, rest⟩) else none

variable [DecidableEq τ]

/-- A task gives back its guards of a kind. -/
def release (l : RwLock τ) (t : τ) (a : Access) : RwLock τ :=
  { l with guards := l.guards.filter (· ≠ (t, a)) }

/-- A task is dropped, with its guards and its requests. -/
def abandon (l : RwLock τ) (t : τ) : RwLock τ :=
  ⟨l.guards.filter (·.1 ≠ t), l.queue.filter (·.1 ≠ t)⟩

variable {l l' : RwLock τ} {t u : τ} {a : Access} {r : τ × Access}

omit [DecidableEq τ] in
theorem grant_eq_some (h : l.grant = some (r, l')) :
    ∃ rest, l.queue = r :: rest ∧ l.admits r.2 = true ∧ l' = ⟨r :: l.guards, rest⟩ := by
  unfold grant at h
  split at h
  · cases h
  · rename_i r' rest hqueue
    split at h
    · cases h
      exact ⟨rest, hqueue, ‹_›, rfl⟩
    · cases h

@[simp] theorem mem_guards_release {e : τ × Access} :
    e ∈ (l.release t a).guards ↔ e ∈ l.guards ∧ e ≠ (t, a) := by
  simp [release]

@[simp] theorem mem_guards_abandon {e : τ × Access} :
    e ∈ (l.abandon t).guards ↔ e ∈ l.guards ∧ e.1 ≠ t := by
  simp [abandon]

@[simp] theorem mem_queue_abandon {e : τ × Access} :
    e ∈ (l.abandon t).queue ↔ e ∈ l.queue ∧ e.1 ≠ t := by
  simp [abandon]

omit [DecidableEq τ] in
@[simp] theorem mem_queue_request {e : τ × Access} :
    e ∈ (l.request t a).queue ↔ e ∈ l.queue ∨ e = (t, a) := by
  simp [request]

/-! ## A reader that asks to write -/

/-- **The lock is wedged by `t`**: it holds a guard and waits to write, and
no task in `late` holds a guard or stands before it. -/
structure Wedged (l : RwLock τ) (t : τ) (late : τ → Prop) : Prop where
  holds : ∃ a, (t, a) ∈ l.guards
  waits : ∃ ahead behind, l.queue = ahead ++ (t, .write) :: behind ∧ ∀ e ∈ ahead, ¬ late e.1
  outside : ∀ e ∈ l.guards, ¬ late e.1

namespace Wedged

variable {late : τ → Prop}

omit [DecidableEq τ] in
theorem request (h : l.Wedged t late) : (l.request u a).Wedged t late := by
  obtain ⟨ahead, behind, hqueue, hahead⟩ := h.waits
  refine ⟨h.holds, ⟨ahead, behind ++ [(u, a)], ?_, hahead⟩, h.outside⟩
  rw [RwLock.request, hqueue, List.append_assoc, List.cons_append]

theorem release (h : l.Wedged t late) (hu : u ≠ t) : (l.release u a).Wedged t late := by
  obtain ⟨b, hb⟩ := h.holds
  refine ⟨⟨b, ?_⟩, h.waits, fun e he => h.outside e (mem_guards_release.mp he).1⟩
  refine mem_guards_release.mpr ⟨hb, fun heq => hu ?_⟩
  exact (congrArg Prod.fst heq).symm

theorem abandon (h : l.Wedged t late) (hu : u ≠ t) : (l.abandon u).Wedged t late := by
  obtain ⟨b, hb⟩ := h.holds
  obtain ⟨ahead, behind, hqueue, hahead⟩ := h.waits
  refine ⟨⟨b, mem_guards_abandon.mpr ⟨hb, hu.symm⟩⟩,
    ⟨ahead.filter (·.1 ≠ u), behind.filter (·.1 ≠ u), ?_, ?_⟩,
    fun e he => h.outside e (mem_guards_abandon.mp he).1⟩
  · rw [RwLock.abandon, hqueue, List.filter_append, List.filter_cons_of_pos]
    exact decide_eq_true hu.symm
  · exact fun e he => hahead e (List.mem_filter.mp he).1

omit [DecidableEq τ] in
/-- **What is served stood before it**, and the lock stays wedged. -/
theorem grant (h : l.Wedged t late) (hg : l.grant = some (r, l')) :
    r ≠ (t, .write) ∧ ¬ late r.1 ∧ l'.Wedged t late := by
  obtain ⟨rest, hqueue, hadmits, rfl⟩ := grant_eq_some hg
  obtain ⟨b, hb⟩ := h.holds
  obtain ⟨ahead, behind, hsplit, hahead⟩ := h.waits
  rw [hqueue] at hsplit
  -- its own guard leaves no room for its request
  have hne : r ≠ (t, .write) := by
    rintro rfl
    rw [admits, List.isEmpty_iff] at hadmits
    rw [hadmits] at hb
    cases hb
  cases ahead with
  | nil =>
    cases hsplit
    exact absurd rfl hne
  | cons e ahead =>
    cases hsplit
    have hearly : ¬ late r.1 := hahead r List.mem_cons_self
    refine ⟨hne, hearly, ⟨b, List.mem_cons_of_mem _ hb⟩,
      ⟨ahead, behind, rfl, fun e he => hahead e (List.mem_cons_of_mem _ he)⟩, ?_⟩
    intro e he
    rcases List.mem_cons.mp he with rfl | he
    · exact hearly
    · exact h.outside e he

end Wedged

end RwLock

end InferQos
