import InferQos.Common.OrdMap
import InferQos.Core
/-!
# The local capacity model

`CapacityModel`: the reservations of one pool, and the safety factor its
estimates are multiplied with, calibrated at every release. One lock
section is one function here.
-/

namespace InferQos

/-- The model of one pool with the state under its lock. -/
structure CapacityModel (F : Type) where
  configured : F
  alpha : F
  reservations : OrdMap Uuid F
  reserved : F
  safety : F
  error : F
  throttle : F
  observations : ℕ

namespace CapacityModel

variable {F : Type} [Arith F]

/-- `CapacityModel::new`. -/
def new (configured initialSafety : F) : CapacityModel F where
  configured := configured
  alpha := Arith.lit (8 / 100)
  reservations := ∅
  reserved := Arith.lit 0
  safety := Arith.clamp initialSafety (Arith.lit 1) (Arith.lit 4)
  error := Arith.lit 0
  throttle := Arith.lit 0
  observations := 0

/-- `CapacityModel::reserve`, where `id` is the identifier it draws: the
charge is fixed here, and refused where it does not fit. -/
def reserve (m : CapacityModel F) (id : Uuid) (predicted : F) : Option Uuid × CapacityModel F :=
  let charged := predicted * m.safety
  if Arith.isFinite charged = false ∨ charged < Arith.lit 0 ∨
      m.configured < m.reserved + charged then (none, m)
  else (some id,
    { m with
      reservations := m.reservations.insert id charged
      reserved := m.reserved + charged })

/-- `charged_units`. -/
def chargedUnits (m : CapacityModel F) (predicted : F) : F := predicted * m.safety

/-- `track_distributed`. -/
def trackDistributed (m : CapacityModel F) (id : Uuid) (chargedUnits : F) : CapacityModel F :=
  { m with
    reservations := m.reservations.insert id chargedUnits
    reserved := if (m.reservations.get? id).isNone then m.reserved + chargedUnits else m.reserved }

/-- The reserved units once a charge is given back: not below zero, and
zero when what is left is rounding residue. -/
def settle (m : CapacityModel F) (charged : F) : F :=
  let reserved := max (m.reserved - charged) (Arith.lit 0)
  if reserved < Arith.lit (1 / 2 ^ 52) * max m.configured (Arith.lit 1) * Arith.lit 16 then
    Arith.lit 0
  else reserved

/-- The moving averages and the safety factor after one observation. -/
def observe (m : CapacityModel F) (predicted : F) (actual : Option F) (throttled : Bool) :
    CapacityModel F :=
  let ratio := Arith.clamp (actual.elim (Arith.lit 1) fun a => a / max predicted (Arith.lit 1))
    (Arith.lit 0) (Arith.lit 10)
  let error := (Arith.lit 1 - m.alpha) * m.error + m.alpha * Arith.abs (ratio - Arith.lit 1)
  let throttle := (Arith.lit 1 - m.alpha) * m.throttle +
    m.alpha * Arith.lit (if throttled then 1 else 0)
  let target := Arith.clamp (Arith.lit 1 + error * Arith.lit (3 / 2) + throttle * Arith.lit 2)
    (Arith.lit 1) (Arith.lit 4)
  { m with
    error := error
    throttle := throttle
    safety := Arith.clamp (m.safety * Arith.lit (9 / 10) + target * Arith.lit (1 / 10))
      (Arith.lit 1) (Arith.lit 4)
    observations := m.observations + 1 }

/-- `CapacityModel::release`: `false` and nothing done for an id that is
not reserved. -/
def release (m : CapacityModel F) (id : Uuid) (predicted : F) (actual : Option F)
    (throttled : Bool) : Bool × CapacityModel F :=
  match m.reservations.get? id with
  | none => (false, m)
  | some charged =>
    (true, observe { m with
      reservations := m.reservations.erase id
      reserved := settle m charged } predicted actual throttled)

/-- One call of the model. -/
inductive Op (F : Type)
  | reserve (id : Uuid) (predicted : F)
  | trackDistributed (id : Uuid) (chargedUnits : F)
  | release (id : Uuid) (predicted : F) (actual : Option F) (throttled : Bool)

/-- The model a call leaves. -/
def apply (m : CapacityModel F) : Op F → CapacityModel F
  | .reserve id predicted => (m.reserve id predicted).2
  | .trackDistributed id chargedUnits => m.trackDistributed id chargedUnits
  | .release id predicted actual throttled => (m.release id predicted actual throttled).2

/-- The model a sequence of calls leaves. -/
def exec (m : CapacityModel F) (ops : List (Op F)) : CapacityModel F := ops.foldl apply m

theorem exec_snoc (m : CapacityModel F) (ops : List (Op F)) (op : Op F) :
    m.exec (ops ++ [op]) = (m.exec ops).apply op := by
  simp [exec]

/-- No call changes the parameters of the model. -/
theorem apply_parameters (m : CapacityModel F) (op : Op F) :
    (m.apply op).configured = m.configured ∧ (m.apply op).alpha = m.alpha := by
  cases op with
  | reserve id predicted =>
    simp only [apply, reserve]
    split
    · exact ⟨rfl, rfl⟩
    · exact ⟨rfl, rfl⟩
  | trackDistributed id charged => exact ⟨rfl, rfl⟩
  | release id predicted actual throttled =>
    simp only [apply, release]
    split
    · exact ⟨rfl, rfl⟩
    · exact ⟨rfl, rfl⟩

variable (m : CapacityModel F) (id id' : Uuid)

@[simp] theorem trackDistributed_reservations (units : F) :
    (m.trackDistributed id units).reservations = m.reservations.insert id units := rfl

/-- **A release succeeds for what is reserved, and frees it.** -/
theorem release_spec (predicted : F) (actual : Option F) (throttled : Bool) :
    (m.release id predicted actual throttled).1 = (m.reservations.get? id).isSome ∧
      (m.release id predicted actual throttled).2.reservations = m.reservations.erase id := by
  unfold release
  cases h : m.reservations.get? id with
  | none => exact ⟨rfl, (OrdMap.erase_of_get?_eq_none h).symm⟩
  | some charged => exact ⟨rfl, rfl⟩

end CapacityModel

end InferQos
