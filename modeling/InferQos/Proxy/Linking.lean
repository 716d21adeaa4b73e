import InferQos.Proxy.System
import Mathlib.Algebra.Order.Group.Multiset
/-!
# What a step can do

`Stepped` lists the ways a step of the system goes, and the lemmas on
`Effect.apply` say which fields an effect leaves alone. The first invariant
read off them is `Linked`: an entry of `pending`, or one the dispatcher
carries, belongs to the handler it names, and it is found under the id of
its request.
-/

namespace InferQos

namespace Proxy

variable {F σ : Type} [Arith F]
variable {P : Params F σ} {s t : System F σ} {n : ℕ} {e : Effect F σ} {id : Uuid} {p : Pending F}
variable {req r : AdmissionRequest F}

/-! ## Steps -/

/-- **What one step does.** -/
inductive Stepped (P : Params F σ) (s : System F σ) : Action F → System F σ → Prop
  /-- A new handler. -/
  | arrive : Stepped P s .arrive
      { (s.bump (firstCounter s.draining)).goto s.nextTask (.first s.draining) with
        nextTask := s.nextTask + 1 }
  /-- A handler moves. -/
  | handler {n : ℕ} {choice : Choice F} {phase : Phase F} {m : Move F σ (Phase F)} :
      s.handlers.get? n = some phase → phase.move P s n choice = some m →
      Stepped P s (.handler n choice) ((m.effect.apply P (s.bump m.counter)).goto n m.next)
  /-- The dispatcher moves. -/
  | dispatch {m : Move F σ (DispatchPhase F)} : s.dispatcher.move P s = some m →
      Stepped P s .dispatch { m.effect.apply P (s.bump m.counter) with dispatcher := m.next }
  /-- A release task makes its next call. -/
  | release {k : ℕ} {lease : Lease F} {rest : List (Lease F)} :
      s.releases.get? k = some (lease :: rest) →
      Stepped P s (.release k)
        { (Effect.call (P.coordinator.release s.ambient s.coordinator lease).2).apply P s with
          releases := s.releases.insert k rest }
  | advance (d : ℕ) : Stepped P s (.advance d) { s with now := s.now + d }
  | reload (config : Config F) : Stepped P s (.reload config) { s with config := config }
  | drain : Stepped P s .drain { s with draining := true }

/-- **Every step is one of these.** -/
theorem stepped {a : Action F} (h : step P s a = some t) : Stepped P s a t := by
  cases a with
  | arrive =>
    cases h
    exact .arrive
  | handler n choice =>
    simp only [step, Option.bind_eq_bind, Option.bind_eq_some_iff] at h
    obtain ⟨phase, hphase, m, hm, ht⟩ := h
    cases ht
    exact .handler hphase hm
  | dispatch =>
    simp only [step, Option.bind_eq_bind, Option.bind_eq_some_iff] at h
    obtain ⟨m, hm, ht⟩ := h
    cases ht
    exact .dispatch hm
  | release k =>
    simp only [step] at h
    split at h
    · rename_i lease rest hk
      cases h
      exact .release hk
    · cases h
  | advance d =>
    cases h
    exact .advance d
  | reload config =>
    cases h
    exact .reload config
  | drain =>
    cases h
    exact .drain

/-! ## Effects -/

omit [Arith F] in
@[simp] theorem System.bump_active (c : Option Counter) :
    (s.bump c).metrics.active = s.metrics.active := by
  cases c with
  | none => rfl
  | some c => cases c <;> rfl

namespace Effect

/-- The counters are apart from everything an effect changes. -/
theorem apply_bump (c : Option Counter) : e.apply P (s.bump c) = (e.apply P s).bump c := by
  cases e with
  | activate =>
    cases c with
    | none => rfl
    | some c => cases c <;> rfl
  | deactivate =>
    cases c with
    | none => rfl
    | some c => cases c <;> rfl
  | _ => rfl

@[simp] theorem apply_dispatcher : (e.apply P s).dispatcher = s.dispatcher := by cases e <;> rfl

/-- Only a delivery moves another handler. -/
theorem apply_handlers (h : ∀ w phase, e ≠ deliver w phase) :
    (e.apply P s).handlers = s.handlers := by
  cases e with
  | deliver w phase => exact absurd rfl (h w phase)
  | _ => rfl

theorem nextTask_le_apply (P : Params F σ) (s : System F σ) (e : Effect F σ) :
    s.nextTask ≤ (e.apply P s).nextTask := by
  cases e with
  | spawn leases => exact Nat.le_succ _
  | _ => exact Nat.le_refl _

/-- An entry of `pending` was there before, or is the one just listed. -/
theorem listed_of_apply (h : (e.apply P s).pending.get? id = some p) :
    s.pending.get? id = some p ∨ e = list id p := by
  cases e with
  | list id' p' =>
    rcases OrdMap.get?_insert_eq_some.mp h with ⟨rfl, rfl⟩ | ⟨-, h⟩
    · exact Or.inr rfl
    · exact Or.inl h
  | unlist id' => exact Or.inl (OrdMap.get?_erase_eq_some.mp h).2
  | _ => exact Or.inl h

end Effect

omit [Arith F] in
/-- A handler of an updated table is the one that moved, or as it was. -/
theorem System.goto_get? {w : ℕ} {phase phase' : Phase F}
    (h : (s.goto n phase).handlers.get? w = some phase') :
    w = n ∧ phase = phase' ∨ w ≠ n ∧ s.handlers.get? w = some phase' :=
  OrdMap.get?_insert_eq_some.mp h

/-! ## Fresh ids -/

/-- **Distinct ids, all given out.** -/
structure Issued (ids : Multiset Uuid) (next : Uuid) : Prop where
  nodup : ids.Nodup
  lt : ∀ i ∈ ids, i < next

/-- The ids an effect may give out. -/
def Effect.grants (next : Uuid) : Effect F σ → Multiset Uuid
  | call _ => {next}
  | _ => 0

namespace Issued

variable {ids ids' : Multiset Uuid} {next : Uuid}

theorem mono (h : Issued ids next) (hle : ids' ≤ ids) : Issued ids' next :=
  ⟨Multiset.nodup_of_le hle h.nodup, fun i hi => h.lt i (Multiset.mem_of_le hle hi)⟩

theorem issue (h : Issued ids next) : Issued (ids + {next}) (next + 1) where
  nodup := by
    rw [add_comm, Multiset.singleton_add, Multiset.nodup_cons]
    exact ⟨fun hmem => absurd (h.lt next hmem) (lt_irrefl next), h.nodup⟩
  lt i hi := by
    rcases Multiset.mem_add.mp hi with hi | hi
    · exact Nat.lt_succ_of_lt (h.lt i hi)
    · rw [Multiset.mem_singleton.mp hi]
      exact Nat.lt_succ_self next

/-- **Ids stay distinct if only a call adds one**, the next. -/
theorem apply (h : Issued ids s.nextId) (hle : ids' ≤ ids + e.grants s.nextId) :
    Issued ids' (e.apply P s).nextId := by
  cases e with
  | call coordinator => exact h.issue.mono hle
  | _ => exact h.mono ((add_zero ids) ▸ hle)

end Issued

/-! ## Requests and their handlers -/

namespace Phase

/-- **A handler past its preparation serves one request.** Once it is over
it serves any. -/
def Serves (r : AdmissionRequest F) : Phase F → Prop
  | starting => False
  | loaded _ => False
  | charging job => job.request = r
  | entering job _ => job.request = r
  | reserving job _ _ => job.request = r
  | tracking job _ _ => job.request = r
  | leaving job _ => job.request = r
  | refused job => job.request = r
  | enqueued job => job.request = r
  | waiting job _ _ => job.request = r
  | expired job _ => job.request = r
  | cancelling job => job.request = r
  | unlisting job => job.request = r
  | rejecting job _ => job.request = r
  | admitted job _ => job.request = r
  | loading job _ => job.request = r
  | dispatching job _ => job.request = r
  | opening job _ _ => job.request = r
  | streaming job _ _ _ _ => job.request = r
  | completing job _ _ _ _ => job.request = r
  | closing job _ _ => job.request = r
  | spawning job _ _ => job.request = r
  | departing job _ => job.request = r
  | uncounting _ => True
  | done _ => True

variable {phase : Phase F} {choice : Choice F} {m : Move F σ (Phase F)}

omit [Arith F] in
theorem serves_afterReserve {job : Job F} (charged : F) (at_ : ReservePhase F)
    (h : job.request = r) : (afterReserve job charged at_).Serves r := by
  unfold afterReserve
  split <;> exact h

omit [Arith F] in
theorem serves_afterLeave {job : Job F} (error : Option CoordinatorError) (h : job.request = r) :
    (afterLeave job error).Serves r := by
  cases error with
  | none => exact h
  | some e => trivial

/-- **A handler keeps its request.** -/
theorem Serves.move (hs : phase.Serves r) (h : phase.move P s n choice = some m) :
    m.next.Serves r := by
  revert h
  fun_cases Phase.move P s n phase choice <;> intro h <;> cases h
  all_goals first
    | exact hs
    | trivial
    | exact hs.elim
    | exact serves_afterReserve _ _ hs
    | exact serves_afterLeave _ hs

omit [Arith F] in
theorem Serves.receive {phase' : Phase F} {leases : AdmissionLeases F} (hs : phase.Serves r)
    (h : phase.receive leases = some phase') : phase'.Serves r := by
  revert h
  fun_cases Phase.receive leases phase <;> intro h <;> cases h
  · exact hs
  · exact hs

/-- **What a handler lists** is its own entry, under the id of its request. -/
theorem move_list (h : phase.move P s n choice = some m) (he : m.effect = .list id p) :
    p.waiter = n ∧ p.request.id = id ∧ m.next.Serves p.request := by
  revert h
  fun_cases Phase.move P s n phase choice <;> intro h <;> cases h <;> cases he
  exact ⟨rfl, rfl, rfl⟩

/-- Handlers do not send. -/
theorem move_not_deliver (h : phase.move P s n choice = some m) (w : ℕ) (phase' : Phase F) :
    m.effect ≠ .deliver w phase' := by
  intro he
  revert h
  fun_cases Phase.move P s n phase choice <;> intro h <;> cases h <;> cases he

end Phase

namespace DispatchPhase

variable {d : DispatchPhase F} {m : Move F σ (DispatchPhase F)}

omit [Arith F] in
theorem pair?_afterReserve (config : Config F) (charged : F) (at_ : ReservePhase F) :
    (afterReserve req p config charged at_).pair? = some (req, p) := by
  unfold afterReserve
  split <;> rfl

omit [Arith F] in
theorem pair?_afterLeave (q : Option (Pending F)) :
    (afterLeave req q).pair? = q.map (req, ·) := by
  cases q <;> rfl

omit [Arith F] in
theorem pair?_afterPop (result : Except String (Option (AdmissionRequest F))) :
    (afterPop result).pair? = none := by
  unfold afterPop
  split <;> rfl

/-- **What the dispatcher carries** it carried before, or has just removed
from `pending`. -/
theorem move_pair (h : d.move P s = some m) (hp : m.next.pair? = some (req, p)) :
    d.pair? = some (req, p) ∨ d = popped req ∧ s.pending.get? req.id = some p := by
  revert h
  fun_cases DispatchPhase.move P s d <;> intro h <;> cases h
  all_goals first
    | exact Or.inl hp
    | exact Or.inl ((pair?_afterReserve _ _ _).symm.trans hp)
    | exact Or.inl ((pair?_afterLeave _).symm.trans hp)
    | cases (pair?_afterPop _).symm.trans hp
    | cases hp
  -- left is the removal from the table
  rename_i hget
  exact Or.inr ⟨rfl, hget⟩

/-- What the dispatcher lists it carries. -/
theorem move_list (h : d.move P s = some m) (he : m.effect = .list id p) :
    ∃ req, d = reinserting req p ∧ id = req.id := by
  revert h
  fun_cases DispatchPhase.move P s d <;> intro h <;> cases h <;> cases he
  exact ⟨_, rfl, rfl⟩

/-- A delivery reaches a receiver that exists. -/
theorem move_deliver {w : ℕ} {phase' : Phase F} (h : d.move P s = some m)
    (he : m.effect = .deliver w phase') :
    ∃ req p leases phase, d = sending req p leases ∧ m.next = idle ∧ w = p.waiter ∧
      s.handlers.get? w = some phase ∧ phase.receive leases = some phase' := by
  revert h
  fun_cases DispatchPhase.move P s d <;> intro h <;> cases h <;> cases he
  rename_i hr
  obtain ⟨phase, hphase, hreceive⟩ := Option.bind_eq_some_iff.mp hr
  exact ⟨_, _, _, phase, rfl, rfl, rfl, hphase, hreceive⟩

/-- **Where a handler stands after a step of the dispatcher**: where it
stood, or its channel has just received leases. -/
theorem move_get? {phase : Phase F} (h : d.move P s = some m)
    (hn : (m.effect.apply P s).handlers.get? n = some phase) :
    s.handlers.get? n = some phase ∨
      ∃ req p leases old, d = sending req p leases ∧ m.effect = .deliver n phase ∧
        s.handlers.get? n = some old ∧ old.receive leases = some phase := by
  by_cases hd : ∃ w phase', m.effect = .deliver w phase'
  · obtain ⟨w, phase', he⟩ := hd
    obtain ⟨req, p, leases, old, hsend, -, -, hw, hr⟩ := move_deliver h he
    rw [he] at hn
    rcases System.goto_get? hn with ⟨rfl, rfl⟩ | ⟨-, hn⟩
    · exact Or.inr ⟨req, p, leases, old, hsend, he, hw, hr⟩
    · exact Or.inl hn
  · rw [Effect.apply_handlers fun w phase' he => hd ⟨w, phase', he⟩] at hn
    exact Or.inl hn

end DispatchPhase

/-- **The waiter of an entry serves its request.** -/
def System.Backs (s : System F σ) (p : Pending F) : Prop :=
  ∃ phase, s.handlers.get? p.waiter = some phase ∧ phase.Serves p.request

/-- **Entries belong to their handlers.** -/
structure Linked (s : System F σ) : Prop where
  /-- Handlers are numbered below the next number. -/
  fresh : ∀ n phase, s.handlers.get? n = some phase → n < s.nextTask
  /-- Entries are listed under the id of their request. -/
  listed : ∀ id p, s.pending.get? id = some p → p.request.id = id ∧ s.Backs p
  /-- And carried with a request of that id. -/
  carried : ∀ req p, s.dispatcher.pair? = some (req, p) → p.request.id = req.id ∧ s.Backs p

theorem linked_build (config : Config F) (coordinator : σ) :
    Linked (System.build config coordinator) where
  fresh n phase h := by cases h
  listed id p h := by cases h
  carried req p h := by cases h

omit [Arith F] in
/-- **A new handler adds its own weight** to a sum over the handlers. -/
theorem Linked.sumOn_arrive {M : Type*} [AddCommMonoid M] (h : Linked s) (w : Phase F → M)
    (phase : Phase F) :
    (s.handlers.insert s.nextTask phase).sumOn (fun _ => w) =
      w phase + s.handlers.sumOn fun _ => w := by
  refine OrdMap.sumOn_insert_of_none (Option.eq_none_iff_forall_ne_some.mpr ?_) _
  intro old hold
  exact lt_irrefl _ (h.fresh _ old hold)

omit [Arith F] in
/-- A handler that goes on serving what it served keeps its entries. -/
theorem System.Backs.goto {phase phase' : Phase F} (h : s.Backs p)
    (hn : s.handlers.get? n = some phase) (hserves : ∀ r, phase.Serves r → phase'.Serves r) :
    (s.goto n phase').Backs p := by
  obtain ⟨old, hold, hs⟩ := h
  by_cases hw : p.waiter = n
  · rw [hw, hn] at hold
    refine ⟨phase', ?_, hserves _ ?_⟩
    · rw [hw]
      exact OrdMap.get?_insert_self
    · rw [Option.some.inj hold]
      exact hs
  · exact ⟨old, (OrdMap.get?_insert_of_ne hw).trans hold, hs⟩

/-- A delivery leaves the waiter with the request it served. -/
theorem System.Backs.dispatch {m : Move F σ (DispatchPhase F)} (h : s.Backs p)
    (hm : s.dispatcher.move P s = some m) : (m.effect.apply P (s.bump m.counter)).Backs p := by
  by_cases hd : ∃ w phase, m.effect = .deliver w phase
  · obtain ⟨w, phase', he⟩ := hd
    obtain ⟨_, _, leases, phase, -, -, -, hw, hr⟩ := DispatchPhase.move_deliver hm he
    rw [he]
    exact Backs.goto (s := s.bump m.counter) h hw fun r hs => hs.receive hr
  · obtain ⟨phase, hphase, hs⟩ := h
    refine ⟨phase, ?_, hs⟩
    rw [Effect.apply_handlers fun w phase he => hd ⟨w, phase, he⟩]
    exact hphase

/-- **Every step keeps the entries with their handlers.** -/
theorem Linked.step {a : Action F} (h : Linked s) (hs : step P s a = some t) : Linked t := by
  cases stepped hs with
  | arrive =>
    have hbacks : ∀ p, s.Backs p → ∀ first, (s.goto s.nextTask first).Backs p := by
      intro p hp first
      obtain ⟨phase, hphase, hserves⟩ := hp
      have hne : p.waiter ≠ s.nextTask := ne_of_lt (h.fresh _ _ hphase)
      exact ⟨phase, (OrdMap.get?_insert_of_ne hne).trans hphase, hserves⟩
    refine ⟨fun n phase hn => ?_, fun id p hp => ?_, fun req p hp => ?_⟩
    · rcases System.goto_get? hn with ⟨rfl, -⟩ | ⟨-, hn⟩
      · exact Nat.lt_succ_self _
      · exact Nat.lt_succ_of_lt (h.fresh n phase hn)
    · exact ⟨(h.listed id p hp).1, hbacks p (h.listed id p hp).2 _⟩
    · exact ⟨(h.carried req p hp).1, hbacks p (h.carried req p hp).2 _⟩
  | @handler n choice phase m hphase hm =>
    have hhandlers : (m.effect.apply P (s.bump m.counter)).handlers = s.handlers :=
      Effect.apply_handlers (Phase.move_not_deliver hm)
    have hbacks : ∀ p, s.Backs p →
        ((m.effect.apply P (s.bump m.counter)).goto n m.next).Backs p := by
      intro p hp
      obtain ⟨old, hold, hserves⟩ := hp
      rw [← hhandlers] at hold hphase
      exact System.Backs.goto ⟨old, hold, hserves⟩ hphase fun r hserves => hserves.move hm
    refine ⟨fun n' phase' hn => ?_, fun id p hp => ?_, fun req p hp => ?_⟩
    · have hle : s.nextTask ≤ (m.effect.apply P (s.bump m.counter)).nextTask :=
        Effect.nextTask_le_apply P (s.bump m.counter) m.effect
      refine lt_of_lt_of_le ?_ hle
      rcases System.goto_get? hn with ⟨rfl, -⟩ | ⟨-, hn⟩
      · exact h.fresh _ phase hphase
      · exact h.fresh n' phase' (hhandlers ▸ hn)
    · rcases Effect.listed_of_apply hp with hp | he
      · exact ⟨(h.listed id p hp).1, hbacks p (h.listed id p hp).2⟩
      · obtain ⟨hw, hid, hserves⟩ := Phase.move_list hm he
        exact ⟨hid, m.next, hw ▸ OrdMap.get?_insert_self, hserves⟩
    · have hp' : s.dispatcher.pair? = some (req, p) := by
        rwa [System.goto, Effect.apply_dispatcher] at hp
      exact ⟨(h.carried req p hp').1, hbacks p (h.carried req p hp').2⟩
  | @dispatch m hm =>
    refine ⟨fun n phase hn => ?_, fun id p hp => ?_, fun req p hp => ?_⟩
    · have hle : s.nextTask ≤ (m.effect.apply P (s.bump m.counter)).nextTask :=
        Effect.nextTask_le_apply P (s.bump m.counter) m.effect
      refine lt_of_lt_of_le ?_ hle
      rw [Effect.apply_bump] at hn
      rcases DispatchPhase.move_get? hm hn with hn | ⟨_, _, _, old, -, -, hn, -⟩
      · exact h.fresh n phase hn
      · exact h.fresh n old hn
    · -- listed before, or put back by the dispatcher
      rcases Effect.listed_of_apply hp with hp | he
      · exact ⟨(h.listed id p hp).1, (h.listed id p hp).2.dispatch hm⟩
      · obtain ⟨req, hd, hid⟩ := DispatchPhase.move_list hm he
        have hcarried := h.carried req p (by rw [hd]; rfl)
        exact ⟨hcarried.1.trans hid.symm, hcarried.2.dispatch hm⟩
    · -- carried before, or just taken from the table
      rcases DispatchPhase.move_pair hm hp with hp | ⟨-, hp⟩
      · exact ⟨(h.carried req p hp).1, (h.carried req p hp).2.dispatch hm⟩
      · exact ⟨(h.listed req.id p hp).1, (h.listed req.id p hp).2.dispatch hm⟩
  | release hk => exact ⟨h.fresh, h.listed, h.carried⟩
  | advance d => exact ⟨h.fresh, h.listed, h.carried⟩
  | reload config => exact ⟨h.fresh, h.listed, h.carried⟩
  | drain => exact ⟨h.fresh, h.listed, h.carried⟩

/-! ## What all tasks hold -/

section Sums

variable {M : Type*} [AddCommMonoid M] (w : Phase F → M) (v : DispatchPhase F → M)

/-- **The sum over all tasks** of a weight of their positions. -/
def System.sumOver (s : System F σ) : M := s.handlers.sumOn (fun _ => w) + v s.dispatcher

/-- **A handler's move changes the sum by its own weight.** -/
theorem sumOver_handler {phase : Phase F} {choice : Choice F} {m : Move F σ (Phase F)}
    (hn : s.handlers.get? n = some phase) (hm : phase.move P s n choice = some m) :
    ((m.effect.apply P (s.bump m.counter)).goto n m.next).sumOver w v + w phase =
      s.sumOver w v + w m.next := by
  have hhandlers : (m.effect.apply P (s.bump m.counter)).handlers = s.handlers :=
    Effect.apply_handlers (Phase.move_not_deliver hm)
  have hsum := OrdMap.sumOn_insert_add (v := m.next) hn fun _ => w
  simp only [System.sumOver, System.goto, hhandlers, Effect.apply_dispatcher]
  rw [add_right_comm, hsum, add_right_comm]
  rfl

/-- **So does the dispatcher's**, and a send changes the weight of the
receiver too. -/
theorem sumOver_dispatch {m : Move F σ (DispatchPhase F)} (hm : s.dispatcher.move P s = some m) :
    (∃ req p leases old new, s.dispatcher = .sending req p leases ∧ m.next = .idle ∧
        m.effect = .deliver p.waiter new ∧ s.handlers.get? p.waiter = some old ∧
        old.receive leases = some new ∧
        System.sumOver w v { m.effect.apply P (s.bump m.counter) with dispatcher := m.next } +
          (w old + v s.dispatcher) = s.sumOver w v + (w new + v .idle)) ∨
      (∀ n phase, m.effect ≠ .deliver n phase) ∧
        System.sumOver w v { m.effect.apply P (s.bump m.counter) with dispatcher := m.next } +
          v s.dispatcher = s.sumOver w v + v m.next := by
  by_cases hd : ∃ n phase, m.effect = .deliver n phase
  · obtain ⟨_, new, he⟩ := hd
    obtain ⟨req, p, leases, old, hsend, hnext, rfl, hw, hr⟩ := DispatchPhase.move_deliver hm he
    have hsum := OrdMap.sumOn_insert_add (v := new) hw fun _ => w
    refine Or.inl ⟨req, p, leases, old, new, hsend, hnext, he, hw, hr, ?_⟩
    simp only [System.sumOver, he, hnext, Effect.apply, System.goto, System.bump]
    rw [add_add_add_comm, hsum, add_comm (v .idle), add_add_add_comm]
  · have hd' : ∀ n phase, m.effect ≠ .deliver n phase := fun n phase he => hd ⟨n, phase, he⟩
    refine Or.inr ⟨hd', ?_⟩
    simp only [System.sumOver, Effect.apply_handlers hd', System.bump]
    exact add_right_comm _ _ _

end Sums

end Proxy

end InferQos
