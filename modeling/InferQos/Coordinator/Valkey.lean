import InferQos.Common.Redis
import InferQos.Coordinator.Model
/-!
# The Valkey coordinator

Leases in a hash of the server, one hash for each pool: a field for each
lease, with its units, its expiry and its scope in one text, joined by
colons. Two clocks bound a lease. Its own expiry is in the text and is
looked at by the reservation script, which purges; the hash as a whole has
a time to live, which whichever script ran last has set.

A call reads the client's clock, runs a script at some later time of the
server, and reads the client's clock again when the answer is there. The
numbers a script is given are those the client has; the texts it stores are
kept, with what the scripts do to take them apart.
-/

namespace InferQos

namespace ValkeyCoordinator

open Redis

variable {F : Type}

/-! ## What a field holds -/

/-- **How numbers and ids are written and read**, without colons. `units`
and `time` are `tostring` in the scripts, which keeps 14 digits, so that
`tonumber` need not get back what was written; `argument` is a time as the
client passes it. -/
structure Format (F : Type) where
  units : F → String
  readUnits : String → Option F
  time : ℕ → String
  argument : ℕ → String
  readTime : String → Option ℕ
  id : Uuid → String
  units_colon : ∀ x, ':' ∉ (units x).toList
  time_colon : ∀ n, ':' ∉ (time n).toList
  id_injective : Function.Injective id

/-- **An exact format**: `tonumber` gets back whatever was written, and a
script writes a time as the client does. -/
structure Rendering (F : Type) extends Format F where
  readUnits_units : ∀ x, readUnits (units x) = some x
  readTime_time : ∀ n, readTime (time n) = some n
  argument_eq : ∀ n, argument n = time n

instance Rendering.coeFormat : CoeOut (Rendering F) (Format F) := ⟨Rendering.toFormat⟩

/-- What a field says about its lease. -/
structure Stored (F : Type) where
  amount : F
  expires : ℕ
  scope : String
  deriving DecidableEq

/-- A text before and after its first colon, by `string.find` and
`string.sub`. -/
def splitColon (text : List Char) : Option (List Char × List Char) :=
  match text.dropWhile (· != ':') with
  | [] => none
  | _ :: rest => some (text.takeWhile (· != ':'), rest)

/-- The three parts of a value. A scope may contain colons. -/
def splitValue (value : String) : Option (String × String × String) := do
  let (amount, rest) ← splitColon value.toList
  let (expires, scope) ← splitColon rest
  some (String.ofList amount, String.ofList expires, String.ofList scope)

/-- `amount..':'..expiry..':'..scope`. -/
def joined (amount expires scope : String) : String := amount ++ ":" ++ expires ++ ":" ++ scope

namespace Format

variable (R : Format F)

/-- The text of a value. -/
def value (e : Stored F) : String := joined (R.units e.amount) (R.time e.expires) e.scope

/-- What the reservation script reads in a value. -/
def read (value : String) : Option (Stored F) := do
  let (amount, expires, scope) ← splitValue value
  let amount ← R.readUnits amount
  let expires ← R.readTime expires
  some ⟨amount, expires, scope⟩

/-- **The numbers of a value are read as they were written.** -/
def Legible (e : Stored F) : Prop :=
  R.readUnits (R.units e.amount) = some e.amount ∧ R.readTime (R.time e.expires) = some e.expires

end Format

/-! ## The scripts -/

section

variable [Arith F] (R : Format F)

/-- The variables of the loop of the reservation script. -/
structure Scan (F : Type) where
  store : Store
  used : F
  scopeUsed : F

/-- One pass of the loop: an expired field is deleted, another counted. -/
def scanEntry (server now : ℕ) (key scope : String) (acc : Scan F) (entry : String × String) :
    Option (Scan F) :=
  (R.read entry.2).map fun e =>
    if e.expires ≤ now then { acc with store := hdel server acc.store key entry.1 }
    else
      { acc with
        used := acc.used + e.amount
        scopeUsed := if e.scope = scope then acc.scopeUsed + e.amount else acc.scopeUsed }

/-- **`RESERVE_SCRIPT`**, run at the server's time `server`: whether the
lease is accepted. A value that no script has written stops it. -/
def reserveScript (server : ℕ) (store : Store) (key : String) (now : ℕ) (limit units : F)
    (lease : String) (expiry : ℕ) (scope : String) (scopeLimit : F) : Option (Bool × Store) := do
  let scan ← (hgetall server store key).entries.foldlM (scanEntry R server now key scope)
    ⟨store, Arith.lit 0, Arith.lit 0⟩
  if limit < scan.used + units ∨ scopeLimit < scan.scopeUsed + units then
    some (false, scan.store)
  else
    let store := hset server scan.store key lease (R.value ⟨units, expiry, scope⟩)
    some (true, pexpire server store key (max 1000 (expiry - now + 1000)))

omit [Arith F] in
/-- The script of `renew`. The amount and the scope stay as they are
written, and the expiry is written as it is passed. -/
def renewScript (server : ℕ) (store : Store) (key lease : String) (expiry ms : ℕ) :
    Option (Bool × Store) :=
  match hget server store key lease with
  | none => some (false, store)
  | some value =>
    (splitValue value).map fun (amount, _, scope) =>
      let store := hset server store key lease (joined amount (R.argument expiry) scope)
      (true, pexpire server store key ms)

/-! ## The calls -/

/-- The readings of a call, in nanoseconds: the client's clock, the
server's when the script runs, and the client's when the answer is there. -/
structure Readings where
  read : ℕ
  server : ℕ
  answered : ℕ

/-- `Duration::as_millis`. -/
def millis (ns : ℕ) : ℕ := ns / 10 ^ 6

/-- `as_millis() as u64` of the time since the epoch. -/
def nowMs (ns : ℕ) : ℕ := millis ns % 2 ^ 64

/-- `ttl.as_millis().min(u64::MAX as u128) as u64`. -/
def ttlMs (ttl : ℕ) : ℕ := min (millis ttl) u64Max

/-- `ValkeyCoordinator::key`. -/
def keyOf (space pool : String) : String := space ++ ":leases:" ++ pool

/-- A script that stopped; the text is the server's. -/
def scriptError : CoordinatorError := .redis "error running script"

/-- **`ValkeyCoordinator::reserve_scoped`.** -/
def reserveScoped (space : String) (c : Readings) (id : Uuid) (store : Store) (pool scope : String)
    (limit scopeLimit units : F) (ttl : ℕ) :
    Except CoordinatorError (Option (Lease F)) × Store :=
  match InMemoryCoordinator.validateLimits limit scopeLimit units with
  | .error e => (.error e, store)
  | .ok () =>
    match reserveScript R (millis c.server) store (keyOf space pool) (nowMs c.read) limit units
        (R.id id) (saturatingAdd (nowMs c.read) (ttlMs ttl)) scope scopeLimit with
    | none => (.error scriptError, store)
    | some (accepted, store) =>
      (.ok (if accepted then
          some ⟨id, pool, units, c.answered + ttl, if scope.isEmpty then none else some scope⟩
        else none), store)

/-- **`ValkeyCoordinator::reserve`**: a reservation in the empty scope. -/
def reserve (space : String) (c : Readings) (id : Uuid) (store : Store) (pool : String)
    (limit units : F) (ttl : ℕ) : Except CoordinatorError (Option (Lease F)) × Store :=
  if !Arith.isFinite units || decide (units < Arith.lit 0) then (.error .invalidUnits, store)
  else reserveScoped R space c id store pool "" limit limit units ttl

omit [Arith F] in
/-- **`ValkeyCoordinator::release`.** -/
def release (space : String) (c : Readings) (store : Store) (lease : Lease F) : Store :=
  hdel (millis c.server) store (keyOf space lease.pool) (R.id lease.id)

omit [Arith F] in
/-- **`ValkeyCoordinator::renew`.** -/
def renew (space : String) (c : Readings) (store : Store) (lease : Lease F) (ttl : ℕ) :
    Except CoordinatorError Bool × Store :=
  match renewScript R (millis c.server) store (keyOf space lease.pool) (R.id lease.id)
      (saturatingAdd (nowMs c.read) (ttlMs ttl)) (saturatingAdd (ttlMs ttl) 1000) with
  | none => (.error scriptError, store)
  | some (renewed, store) => (.ok renewed, store)

/-- **The Valkey coordinator**, where a call takes no time. -/
def coordinator (space : String) : Coordinator F Store where
  reserve a store pool limit units ttl :=
    reserve R space ⟨a.now, a.now, a.now⟩ a.id store pool limit units ttl
  reserveScoped a store pool scope limit scopeLimit units ttl :=
    reserveScoped R space ⟨a.now, a.now, a.now⟩ a.id store pool scope limit scopeLimit units ttl
  release a store lease := (.ok (), release R space ⟨a.now, a.now, a.now⟩ store lease)
  renew a store lease ttl := renew R space ⟨a.now, a.now, a.now⟩ store lease ttl

end

/-! ## Values are read back -/

theorem splitColon_append {before : List Char} (h : ':' ∉ before) (rest : List Char) :
    splitColon (before ++ ':' :: rest) = some (before, rest) := by
  have hbefore : ∀ c ∈ before, (c != ':') = true := by
    intro c hc
    rw [bne_iff_ne]
    rintro rfl
    exact h hc
  unfold splitColon
  rw [List.dropWhile_append_of_pos hbefore, List.takeWhile_append_of_pos hbefore]
  simp

theorem splitValue_joined {amount expires : String} (hamount : ':' ∉ amount.toList)
    (hexpires : ':' ∉ expires.toList) (scope : String) :
    splitValue (joined amount expires scope) = some (amount, expires, scope) := by
  have hlist : (joined amount expires scope).toList =
      amount.toList ++ ':' :: (expires.toList ++ ':' :: scope.toList) := by
    simp [joined]
  unfold splitValue
  rw [hlist, splitColon_append hamount]
  simp only [Option.bind_eq_bind, Option.bind_some, splitColon_append hexpires,
    String.ofList_toList]

section

variable (R : Format F)

theorem splitValue_value (e : Stored F) :
    splitValue (R.value e) = some (R.units e.amount, R.time e.expires, e.scope) :=
  splitValue_joined (R.units_colon _) (R.time_colon _) _

variable {R}

/-- **A legible value is read back.** -/
theorem Format.Legible.read_value {e : Stored F} (h : R.Legible e) :
    R.read (R.value e) = some e := by
  unfold read
  rw [splitValue_value]
  simp [h.1, h.2]

theorem Format.Legible.eq_of_value {e e' : Stored F} (h : R.Legible e) (h' : R.Legible e')
    (heq : R.value e = R.value e') : e = e' := by
  have hread := h.read_value
  rw [heq, h'.read_value] at hread
  exact (Option.some.inj hread).symm

theorem Rendering.legible (R : Rendering F) (e : Stored F) : R.Legible e :=
  ⟨R.readUnits_units _, R.readTime_time _⟩

/-- **A written value is read back.** -/
@[simp] theorem Rendering.read_value (R : Rendering F) (e : Stored F) :
    R.read (R.value e) = some e :=
  (R.legible e).read_value

theorem keyOf_injective (space : String) : Function.Injective (keyOf space) := by
  intro pool pool' h
  exact String.append_right_inj _ |>.mp h

end

end ValkeyCoordinator

end InferQos
