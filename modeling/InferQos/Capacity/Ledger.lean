import InferQos.Capacity.Model
import Mathlib.Data.List.Induction
import Mathlib.Tactic.Linarith
/-!
# The capacity ledger

A charge is fixed when it is recorded and given back as it was recorded,
so the safety factor, which moves at every release, has no part in the
account. What can lose track of it is the settling: the counter stops at
zero and is cleared where it is below the rounding residue. It never
exceeds the outstanding charges, and equals them as long as no charge is
itself below the residue.
-/

namespace InferQos

namespace CapacityModel

variable {m : CapacityModel ℚ} {id : Uuid} {charged : ℚ} {op : Op ℚ} {ops : List (Op ℚ)}

/-- The sum of the charges in `reservations`. -/
def outstanding (m : CapacityModel ℚ) : ℚ := m.reservations.sumOn fun _ charged => charged

/-- What `settle` takes for rounding residue. -/
def residue (m : CapacityModel ℚ) : ℚ := 1 / 2 ^ 52 * max m.configured 1 * 16

/-! ## The conditions of a run -/

/-- What the callers promise of a call: the identifier is not in use, and a
tracked charge is not negative. -/
def Promised (m : CapacityModel ℚ) : Op ℚ → Prop
  | .reserve id _ => m.reservations.get? id = none
  | .trackDistributed id charged => m.reservations.get? id = none ∧ 0 ≤ charged
  | .release .. => True

/-- The charge a call records. -/
def recorded (m : CapacityModel ℚ) : Op ℚ → Option ℚ
  | .reserve id predicted => (m.reserve id predicted).1.map fun _ => m.chargedUnits predicted
  | .trackDistributed _ charged => some charged
  | .release .. => none

/-- A charge the call records is zero or at least the residue. -/
def Lasting (m : CapacityModel ℚ) (op : Op ℚ) : Prop :=
  ∀ charged ∈ recorded m op, charged ≠ 0 → residue m ≤ charged

/-- The call is no `track_distributed`. -/
def ReserveOnly (_ : CapacityModel ℚ) : Op ℚ → Prop
  | .trackDistributed .. => False
  | _ => True

/-- Every call of a sequence meets a condition in the model it finds. -/
def Along (P : CapacityModel ℚ → Op ℚ → Prop) (m : CapacityModel ℚ) : List (Op ℚ) → Prop
  | [] => True
  | op :: ops => P m op ∧ Along P (m.apply op) ops

instance (m : CapacityModel ℚ) (op : Op ℚ) : Decidable (Promised m op) := by
  cases op <;> unfold Promised <;> infer_instance

instance (m : CapacityModel ℚ) (op : Op ℚ) : Decidable (Lasting m op) :=
  inferInstanceAs (Decidable (∀ charged ∈ recorded m op, charged ≠ 0 → residue m ≤ charged))

instance (m : CapacityModel ℚ) (op : Op ℚ) : Decidable (ReserveOnly m op) := by
  cases op <;> unfold ReserveOnly <;> infer_instance

instance decidableAlong {P : CapacityModel ℚ → Op ℚ → Prop} [∀ m op, Decidable (P m op)] :
    ∀ (m : CapacityModel ℚ) (ops : List (Op ℚ)), Decidable (Along P m ops)
  | _, [] => inferInstanceAs (Decidable True)
  | m, op :: ops =>
    have := decidableAlong (P := P) (m.apply op) ops
    inferInstanceAs (Decidable (P m op ∧ Along P (m.apply op) ops))

section

variable {P Q : CapacityModel ℚ → Op ℚ → Prop} {I : CapacityModel ℚ → Prop}

theorem Along.and (hP : Along P m ops) (hQ : Along Q m ops) :
    Along (fun m op => P m op ∧ Q m op) m ops := by
  induction ops generalizing m with
  | nil => trivial
  | cons op ops ih => exact ⟨⟨hP.1, hQ.1⟩, ih hP.2 hQ.2⟩

/-- **What every call keeps holds after any calls.** -/
theorem Along.invariant (hstep : ∀ m op, I m → P m op → I (m.apply op)) (hI : I m)
    (h : Along P m ops) : I (m.exec ops) := by
  induction ops generalizing m with
  | nil => exact hI
  | cons op ops ih => exact ih (hstep m op hI h.1) h.2

end

/-! ## One call -/

/-- A call records a charge under a fresh identifier, gives one back, or
leaves the ledger. -/
inductive Moves (m : CapacityModel ℚ) (op : Op ℚ) (m' : CapacityModel ℚ) : Prop
  | records (id : Uuid) (charged : ℚ) (fresh : m.reservations.get? id = none) (nonneg : 0 ≤ charged)
    (reservations : m'.reservations = m.reservations.insert id charged)
    (reserved : m'.reserved = m.reserved + charged)
    (fits : ReserveOnly m op → m.reserved + charged ≤ m.configured)
    (lasting : Lasting m op → charged ≠ 0 → residue m ≤ charged)
  | frees (id : Uuid) (charged : ℚ) (live : m.reservations.get? id = some charged)
    (reservations : m'.reservations = m.reservations.erase id)
    (reserved : m'.reserved = settle m charged)
  | keeps (reservations : m'.reservations = m.reservations) (reserved : m'.reserved = m.reserved)

/-- **What a call does to the ledger.** -/
theorem moves_apply (h : Promised m op) : Moves m op (m.apply op) := by
  cases op with
  | reserve id predicted =>
    simp only [apply]
    by_cases hroom : predicted * m.safety < 0 ∨ m.configured < m.reserved + predicted * m.safety
    · have hres : m.reserve id predicted = (none, m) := if_pos (Or.inr hroom)
      rw [hres]
      exact .keeps rfl rfl
    · have hres : m.reserve id predicted = (some id,
          { m with
            reservations := m.reservations.insert id (predicted * m.safety)
            reserved := m.reserved + predicted * m.safety }) :=
        if_neg (not_or.mpr ⟨Bool.noConfusion, hroom⟩)
      rw [not_or, not_lt, not_lt] at hroom
      rw [hres]
      refine .records id (predicted * m.safety) h hroom.1 rfl rfl (fun _ => hroom.2) fun hlast => ?_
      exact hlast _ (by simp only [recorded, hres]; rfl)
  | trackDistributed id charged =>
    refine .records id charged h.1 h.2 rfl ?_ False.elim fun hlast => hlast charged rfl
    simp only [apply, trackDistributed, h.1, Option.isNone_none, if_true]
  | release id predicted actual throttled =>
    simp only [apply, release]
    split
    · exact .keeps rfl rfl
    · rename_i charged hlive
      exact .frees id charged hlive rfl rfl

theorem configured_exec (m : CapacityModel ℚ) (ops : List (Op ℚ)) :
    (m.exec ops).configured = m.configured := by
  induction ops using List.reverseRecOn with
  | nil => rfl
  | append_singleton ops op ih => rw [exec_snoc, (apply_parameters _ op).1, ih]

/-! ## The account -/

/-- **The account of a ledger**: no charge is negative, nor is the counter,
which is at most their sum. -/
structure Accounted (m : CapacityModel ℚ) : Prop where
  charges : ∀ e ∈ m.reservations.entries, 0 ≤ e.2
  nonneg : 0 ≤ m.reserved
  le : m.reserved ≤ outstanding m

theorem outstanding_erase (h : m.reservations.get? id = some charged) :
    (m.reservations.erase id).sumOn (fun _ c => c) = outstanding m - charged := by
  have := OrdMap.sumOn_eq_add_erase h fun _ c => c
  unfold outstanding
  linarith

/-- What settling leaves: what the charge leaves, or nothing where that is
below the residue. -/
theorem settle_cases (m : CapacityModel ℚ) (charged : ℚ) :
    settle m charged = 0 ∧ m.reserved - charged < residue m ∨
      settle m charged = max (m.reserved - charged) 0 ∧ residue m ≤ max (m.reserved - charged) 0 := by
  unfold settle
  simp only [Arith.lit_rat]
  split
  · rename_i hlt
    exact Or.inl ⟨rfl, (le_max_left _ _).trans_lt hlt⟩
  · rename_i hge
    exact Or.inr ⟨rfl, not_lt.mp hge⟩

theorem Accounted.moves {m' : CapacityModel ℚ} (h : Accounted m) (hm : Moves m op m') :
    Accounted m' := by
  cases hm with
  | records id charged fresh nonneg reservations reserved =>
    refine ⟨fun e he => ?_, ?_, ?_⟩
    · rw [reservations] at he
      rcases OrdMap.mem_insert.mp he with rfl | ⟨he, -⟩
      · exact nonneg
      · exact h.charges e he
    · rw [reserved]
      exact add_nonneg h.nonneg nonneg
    · have hle := h.le
      unfold outstanding at hle ⊢
      rw [reservations, reserved, OrdMap.sumOn_insert_of_none fresh]
      linarith
  | frees id charged live reservations reserved =>
    have hcharges : ∀ e ∈ (m.reservations.erase id).entries, 0 ≤ e.2 := fun e he =>
      h.charges e (OrdMap.mem_erase.mp he).1
    have hsum : outstanding m' = outstanding m - charged := by
      rw [← outstanding_erase live, ← reservations]
      rfl
    have hrest : 0 ≤ outstanding m' := by
      unfold outstanding
      rw [reservations]
      exact OrdMap.sumOn_nonneg hcharges
    have hle : m.reserved - charged ≤ outstanding m' := by
      have := h.le
      linarith
    refine ⟨reservations ▸ hcharges, ?_, ?_⟩
    · rw [reserved]
      rcases settle_cases m charged with ⟨hz, -⟩ | ⟨hmax, -⟩
      · exact hz.ge
      · rw [hmax]
        exact le_max_right _ _
    · rw [reserved]
      rcases settle_cases m charged with ⟨hz, -⟩ | ⟨hmax, -⟩
      · rw [hz]
        exact hrest
      · rw [hmax]
        exact max_le hle hrest
  | keeps reservations reserved =>
    refine ⟨reservations ▸ h.charges, reserved ▸ h.nonneg, ?_⟩
    have hle := h.le
    unfold outstanding at hle ⊢
    rw [reservations, reserved]
    exact hle

/-- **The counter is the sum**, and no charge is below the residue. -/
structure Settled (m : CapacityModel ℚ) : Prop extends Accounted m where
  eq : m.reserved = outstanding m
  lasting : ∀ e ∈ m.reservations.entries, e.2 ≠ 0 → residue m ≤ e.2

/-- Charges that are zero or last sum to zero or to what lasts. -/
theorem sumOn_zero_or_le {r : OrdMap Uuid ℚ} {x : ℚ} (hnonneg : ∀ e ∈ r.entries, 0 ≤ e.2)
    (hlast : ∀ e ∈ r.entries, e.2 ≠ 0 → x ≤ e.2) :
    r.sumOn (fun _ c => c) = 0 ∨ x ≤ r.sumOn fun _ c => c := by
  by_cases hz : ∀ e ∈ r.entries, e.2 = 0
  · left
    refine List.sum_eq_zero fun c hc => ?_
    obtain ⟨e, he, rfl⟩ := List.mem_map.mp hc
    exact hz e he
  · right
    push Not at hz
    obtain ⟨e, he, hne⟩ := hz
    refine (hlast e he hne).trans (List.single_le_sum (fun c hc => ?_) e.2
      (List.mem_map.mpr ⟨e, he, rfl⟩))
    obtain ⟨e', he', rfl⟩ := List.mem_map.mp hc
    exact hnonneg e' he'

theorem Settled.moves {m' : CapacityModel ℚ} (h : Settled m) (hm : Moves m op m')
    (hlasting : Lasting m op) (hconf : m'.configured = m.configured) : Settled m' := by
  have hacc := h.toAccounted.moves hm
  have hresidue : residue m' = residue m := by
    unfold residue
    rw [hconf]
  cases hm with
  | records id charged fresh nonneg reservations reserved _ lasting =>
    refine ⟨hacc, ?_, fun e he hne => ?_⟩
    · unfold outstanding
      rw [reserved, reservations, OrdMap.sumOn_insert_of_none fresh, h.eq]
      exact add_comm _ _
    · rw [hresidue]
      rw [reservations] at he
      rcases OrdMap.mem_insert.mp he with rfl | ⟨he, -⟩
      · exact lasting hlasting hne
      · exact h.lasting e he hne
  | frees id charged live reservations reserved =>
    have hlast : ∀ e ∈ m'.reservations.entries, e.2 ≠ 0 → residue m ≤ e.2 := by
      intro e he hne
      rw [reservations] at he
      exact h.lasting e (OrdMap.mem_erase.mp he).1 hne
    have hsum : outstanding m' = m.reserved - charged := by
      rw [h.eq, ← outstanding_erase live, ← reservations]
      rfl
    refine ⟨hacc, ?_, hresidue ▸ hlast⟩
    rcases settle_cases m charged with ⟨hz, hlt⟩ | ⟨hmax, -⟩
    · -- what is left is below the residue, so it is nothing
      rw [reserved, hz]
      rcases sumOn_zero_or_le hacc.charges hlast with hzero | hle
      · exact hzero.symm
      · exact absurd hlt (not_lt.mpr (hsum ▸ hle))
    · rw [reserved, hmax, hsum]
      exact max_eq_left (hsum ▸ OrdMap.sumOn_nonneg hacc.charges)
  | keeps reservations reserved =>
    refine ⟨hacc, ?_, ?_⟩
    · unfold outstanding
      rw [reserved, reservations]
      exact h.eq
    · rw [hresidue, reservations]
      exact h.lasting

/-- **Where every charge was reserved, they fit**, as long as there is
any. -/
theorem outstanding_le_moves {m' : CapacityModel ℚ} (h : Settled m) (h' : Settled m')
    (hfit : m.reservations.entries ≠ [] → outstanding m ≤ m.configured) (hm : Moves m op m')
    (honly : ReserveOnly m op) (hconf : m'.configured = m.configured)
    (hne : m'.reservations.entries ≠ []) : outstanding m' ≤ m'.configured := by
  rw [hconf]
  cases hm with
  | records id charged fresh nonneg reservations reserved fits =>
    rw [← h'.eq, reserved]
    exact fits honly
  | frees id charged live reservations reserved =>
    have hmem := OrdMap.get?_eq_some.mp live
    have hle := hfit (List.ne_nil_of_mem hmem)
    have hnonneg := h.charges _ hmem
    unfold outstanding
    rw [reservations, outstanding_erase live]
    linarith
  | keeps reservations reserved =>
    unfold outstanding
    rw [reservations] at hne ⊢
    exact hfit hne

/-! ## Identifiers -/

/-- The call may record this identifier. -/
def Op.Records (id : Uuid) : Op ℚ → Prop
  | .reserve id' _ => id' = id
  | .trackDistributed id' _ => id' = id
  | .release .. => False

theorem release_unknown (h : m.reservations.get? id = none) (predicted : ℚ) (actual : Option ℚ)
    (throttled : Bool) : m.release id predicted actual throttled = (false, m) := by
  unfold release
  rw [h]

/-- An identifier stays unknown until a call records it. -/
theorem unknown_apply (h : m.reservations.get? id = none) (hno : ¬ op.Records id) :
    (m.apply op).reservations.get? id = none := by
  cases op with
  | reserve id' predicted =>
    simp only [apply, reserve]
    split
    · exact h
    · exact (OrdMap.get?_insert_of_ne (Ne.symm hno)).trans h
  | trackDistributed id' charged => exact (OrdMap.get?_insert_of_ne (Ne.symm hno)).trans h
  | release id' predicted actual throttled =>
    simp only [apply, (release_spec m id' predicted actual throttled).2, OrdMap.get?_erase, h,
      ite_self]

theorem unknown_exec (h : m.reservations.get? id = none) (hno : ∀ op ∈ ops, ¬ op.Records id) :
    (m.exec ops).reservations.get? id = none := by
  induction ops generalizing m with
  | nil => exact h
  | cons op ops ih =>
    exact ih (unknown_apply h (hno op List.mem_cons_self)) fun op' hop' =>
      hno op' (List.mem_cons_of_mem op hop')

/-! ## Any run -/

variable {configured initialSafety : ℚ}

theorem new_settled (configured initialSafety : ℚ) : Settled (new configured initialSafety) where
  charges := fun _ he => (List.not_mem_nil he).elim
  nonneg := le_rfl
  le := le_rfl
  eq := rfl
  lasting := fun _ he => (List.not_mem_nil he).elim

theorem exec_accounted (h : Along Promised (new configured initialSafety) ops) :
    Accounted ((new configured initialSafety).exec ops) :=
  h.invariant (fun _ _ hm hop => hm.moves (moves_apply hop))
    (new_settled configured initialSafety).toAccounted

theorem exec_settled (h : Along Promised (new configured initialSafety) ops)
    (hl : Along Lasting (new configured initialSafety) ops) :
    Settled ((new configured initialSafety).exec ops) :=
  (h.and hl).invariant
    (fun m op hm hop => hm.moves (moves_apply hop.1) hop.2 (apply_parameters m op).1)
    (new_settled configured initialSafety)

theorem exec_fits (h : Along Promised (new configured initialSafety) ops)
    (hl : Along Lasting (new configured initialSafety) ops)
    (hr : Along ReserveOnly (new configured initialSafety) ops)
    (hne : ((new configured initialSafety).exec ops).reservations.entries ≠ []) :
    outstanding ((new configured initialSafety).exec ops) ≤ configured := by
  have hfits : Settled ((new configured initialSafety).exec ops) ∧
      (((new configured initialSafety).exec ops).reservations.entries ≠ [] →
        outstanding ((new configured initialSafety).exec ops) ≤
          ((new configured initialSafety).exec ops).configured) := by
    refine ((h.and hl).and hr).invariant (fun m op hm hop => ?_)
      (I := fun m => Settled m ∧ (m.reservations.entries ≠ [] → outstanding m ≤ m.configured))
      ⟨new_settled configured initialSafety, absurd rfl⟩
    have hmoves := moves_apply hop.1.1
    have hconf := (apply_parameters m op).1
    have hsettled := hm.1.moves hmoves hop.1.2 hconf
    exact ⟨hsettled, outstanding_le_moves hm.1 hsettled hm.2 hmoves hop.2 hconf⟩
  exact (hfits.2 hne).trans (configured_exec _ ops).le

/-- **The ledger accounts for every charge.** After any calls on a new
model that keep the callers' promises: the counter is between zero and the
sum of the charges in `reservations`; it is that sum where every charge
recorded was zero or at least the residue; where moreover each was made by
`reserve`, they sum to at most the configured capacity, which for no charge
at all asks that it be not negative; and a release of an identifier that is
unknown, because it was never recorded or has been released and not
recorded again, returns `false` and changes nothing. -/
theorem capacity_ledger_accounts (configured initialSafety : ℚ) (ops : List (Op ℚ))
    (h : Along Promised (new configured initialSafety) ops) :
    (0 ≤ ((new configured initialSafety).exec ops).reserved ∧
      ((new configured initialSafety).exec ops).reserved ≤
        outstanding ((new configured initialSafety).exec ops)) ∧
    (Along Lasting (new configured initialSafety) ops →
      ((new configured initialSafety).exec ops).reserved =
        outstanding ((new configured initialSafety).exec ops)) ∧
    (Along Lasting (new configured initialSafety) ops →
      Along ReserveOnly (new configured initialSafety) ops →
      0 ≤ configured ∨ ((new configured initialSafety).exec ops).reservations.entries ≠ [] →
        outstanding ((new configured initialSafety).exec ops) ≤ configured) ∧
    (∀ id, ((new configured initialSafety).exec ops).reservations.get? id = none →
      ∀ predicted actual throttled,
        ((new configured initialSafety).exec ops).release id predicted actual throttled =
          (false, (new configured initialSafety).exec ops)) ∧
    ∀ id pre post, ops = pre ++ post →
      (pre = [] ∨ ∃ pre' p a t, pre = pre' ++ [.release id p a t]) →
      (∀ op ∈ post, ¬ op.Records id) →
        ((new configured initialSafety).exec ops).reservations.get? id = none := by
  have hacc := exec_accounted h
  refine ⟨⟨hacc.nonneg, hacc.le⟩, fun hl => (exec_settled h hl).eq, ?_, ?_, ?_⟩
  · intro hl hr hor
    by_cases hne : ((new configured initialSafety).exec ops).reservations.entries = []
    · rcases hor with hnonneg | hor
      · unfold outstanding OrdMap.sumOn
        rw [hne]
        exact hnonneg
      · exact absurd hne hor
    · exact exec_fits h hl hr hne
  · exact fun id hid predicted actual throttled => release_unknown hid predicted actual throttled
  · rintro id pre post rfl hpre hpost
    have happend : (new configured initialSafety).exec (pre ++ post) =
        ((new configured initialSafety).exec pre).exec post := List.foldl_append
    rw [happend]
    refine unknown_exec ?_ hpost
    rcases hpre with rfl | ⟨pre', p, a, t, rfl⟩
    · rfl
    · rw [exec_snoc]
      simp only [apply, (release_spec _ id p a t).2, OrdMap.get?_erase_self]

/-- Three reservations, two of them released, one twice: the charges left
are within the capacity of a hundred. -/
theorem capacity_ledger_accounts_for_three :
    outstanding ((new 100 1 : CapacityModel ℚ).exec [.reserve 1 40, .reserve 2 30,
      .release 1 40 (some 4) false, .reserve 3 20, .release 2 30 (some 30) true,
      .release 1 40 none false]) ≤ 100 := by
  exact (capacity_ledger_accounts 100 1 _ (by decide +kernel)).2.2.1 (by decide +kernel)
    (by decide +kernel) (Or.inl (by norm_num))

end CapacityModel

end InferQos
