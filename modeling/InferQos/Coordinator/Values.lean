import InferQos.Common.Lua
import InferQos.Common.Str
import InferQos.Coordinator.Valkey
import Mathlib.Data.List.Induction
import Mathlib.Data.List.TakeWhile
import Mathlib.Logic.Relation
/-!
# The text of a lease

The reservation script and the renewal script take the value of a field
apart each for itself, by `string.find` and `string.sub` on its bytes. Both
look for the first two colons, and the scope is all that follows: so it may
contain colons of its own. What the scripts do by places in a string is
what the model does by splitting it (`reserveReads_bytes`,
`renewWrites_bytes`), for every text, written by a script or not.

A value that a reservation has written is read back as it was meant, after
any number of renewals, and whatever else runs on the store in between
(`lease_values_round_trip`).
-/

namespace InferQos

namespace ValkeyCoordinator

open Redis

variable {F : Type}

/-! ## The scripts on bytes -/

/-- The byte of a colon. -/
def colon : UInt8 := 58

/-- The bytes of a text, which is what a script sees of it. -/
def bytes (text : String) : List UInt8 := utf8 text.toList

/-- The text of some bytes, if they are one. -/
def textOf (bs : List UInt8) : Option String := String.fromUTF8? ⟨bs.toArray⟩

/-- **The loop of `RESERVE_SCRIPT` takes a value apart.** A colon that is
not found stops the script. -/
def reserveParts (value : List UInt8) : Option (List UInt8 × List UInt8 × List UInt8) := do
  let sep ← Lua.find value colon 1
  let amount := Lua.sub value 1 (sep - 1)
  let sep2 ← Lua.find value colon (sep + 1)
  let expires := Lua.sub value (sep + 1) (sep2 - 1)
  let entryScope := Lua.subFrom value (sep2 + 1)
  some (amount, expires, entryScope)

/-- **The script of `renew` takes a value apart**: its amount and its
scope. -/
def renewParts (value : List UInt8) : Option (List UInt8 × List UInt8) := do
  let sep ← Lua.find value colon 1
  let sep2 ← Lua.find value colon (sep + 1)
  let amount := Lua.sub value 1 (sep - 1)
  let scope := Lua.subFrom value (sep2 + 1)
  some (amount, scope)

/-- What the reservation script reads in a value. -/
def reserveReads (R : Format F) (value : List UInt8) : Option (Stored F) := do
  let (amount, expires, scope) ← reserveParts value
  let amount ← (textOf amount).bind R.readUnits
  let expires ← (textOf expires).bind R.readTime
  let scope ← textOf scope
  some ⟨amount, expires, scope⟩

/-- `amount..':'..ARGV[2]..':'..scope`. -/
def renewWrites (value argument : List UInt8) : Option (List UInt8) := do
  let (amount, scope) ← renewParts value
  some (amount ++ colon :: (argument ++ colon :: scope))

/-! ## Two colons -/

section Parts

variable {amount expires : List UInt8}

/-- The places of the first two colons. -/
theorem find_colons (hamount : colon ∉ amount) (hexpires : colon ∉ expires) (scope : List UInt8) :
    Lua.find (amount ++ colon :: (expires ++ colon :: scope)) colon 1 = some (amount.length + 1) ∧
      Lua.find (amount ++ colon :: (expires ++ colon :: scope)) colon (amount.length + 1 + 1) =
        some (amount.length + 1 + expires.length + 1) := by
  have hfirst := Lua.find_append [] hamount (expires ++ colon :: scope)
  have hsecond := Lua.find_append (amount ++ [colon]) hexpires scope
  simp only [List.nil_append, List.length_nil, zero_add] at hfirst
  simp only [List.append_assoc, List.singleton_append, List.length_append,
    List.length_singleton] at hsecond
  exact ⟨hfirst, hsecond⟩

/-- What is before, between and behind them. -/
theorem sub_colons (amount expires scope : List UInt8) :
    Lua.sub (amount ++ colon :: (expires ++ colon :: scope)) 1 amount.length = amount ∧
      Lua.sub (amount ++ colon :: (expires ++ colon :: scope)) (amount.length + 1 + 1)
        (amount.length + 1 + expires.length) = expires ∧
      Lua.subFrom (amount ++ colon :: (expires ++ colon :: scope))
        (amount.length + 1 + expires.length + 1 + 1) = scope := by
  have hamount := Lua.sub_append [] amount (colon :: (expires ++ colon :: scope))
  have hexpires := Lua.sub_append (amount ++ [colon]) expires (colon :: scope)
  have hscope := Lua.subFrom_append (amount ++ (colon :: (expires ++ [colon]))) scope
  simp only [List.nil_append, List.length_nil, zero_add] at hamount
  simp only [List.append_assoc, List.singleton_append, List.length_append,
    List.length_singleton] at hexpires
  have hplace : (amount ++ (colon :: (expires ++ [colon]))).length + 1 =
      amount.length + 1 + expires.length + 1 + 1 := by
    simp only [List.length_append, List.length_cons, List.length_nil]
    omega
  simp only [List.append_assoc, List.cons_append, List.nil_append, hplace] at hscope
  exact ⟨hamount, hexpires, hscope⟩

theorem reserveParts_join (hamount : colon ∉ amount) (hexpires : colon ∉ expires)
    (scope : List UInt8) :
    reserveParts (amount ++ colon :: (expires ++ colon :: scope)) =
      some (amount, expires, scope) := by
  obtain ⟨hfirst, hsecond⟩ := find_colons hamount hexpires scope
  obtain ⟨ha, he, hs⟩ := sub_colons amount expires scope
  simp only [reserveParts, Option.bind_eq_bind, hfirst, Option.bind_some, hsecond,
    Nat.add_sub_cancel, ha, he, hs]

theorem renewParts_join (hamount : colon ∉ amount) (hexpires : colon ∉ expires)
    (scope : List UInt8) :
    renewParts (amount ++ colon :: (expires ++ colon :: scope)) = some (amount, scope) := by
  obtain ⟨hfirst, hsecond⟩ := find_colons hamount hexpires scope
  obtain ⟨ha, -, hs⟩ := sub_colons amount expires scope
  simp only [renewParts, Option.bind_eq_bind, hfirst, Option.bind_some, hsecond,
    Nat.add_sub_cancel, ha, hs]

/-- Without a colon, or with one only, both scripts stop. -/
theorem parts_eq_none {value : List UInt8} (h : colon ∉ value ∨
      ∃ amount rest, value = amount ++ colon :: rest ∧ colon ∉ amount ∧ colon ∉ rest) :
    reserveParts value = none ∧ renewParts value = none := by
  rcases h with h | ⟨amount, rest, rfl, hamount, hrest⟩
  · have hnone := Lua.find_eq_none [] h
    simp only [List.nil_append, List.length_nil, zero_add] at hnone
    simp only [reserveParts, renewParts, Option.bind_eq_bind, hnone, Option.bind_none, and_self]
  · have hfirst := Lua.find_append [] hamount rest
    have hsecond := Lua.find_eq_none (amount ++ [colon]) hrest
    simp only [List.nil_append, List.length_nil, zero_add] at hfirst
    simp only [List.append_assoc, List.singleton_append, List.length_append,
      List.length_singleton] at hsecond
    simp only [reserveParts, renewParts, Option.bind_eq_bind, hfirst, Option.bind_some, hsecond,
      Option.bind_none, and_self]

end Parts

/-! ## Bytes and characters -/

theorem bytes_append (a b : String) : bytes (a ++ b) = bytes a ++ bytes b := by
  unfold bytes
  rw [String.toList_append, utf8_append]

theorem bytes_joined (amount expires scope : String) :
    bytes (joined amount expires scope) =
      bytes amount ++ colon :: (bytes expires ++ colon :: bytes scope) := by
  have hcolon : bytes ":" = [colon] := rfl
  unfold joined
  simp only [bytes_append, hcolon, List.append_assoc, List.cons_append, List.nil_append]

@[simp] theorem textOf_bytes (text : String) : textOf (bytes text) = some text := by
  unfold textOf bytes
  rw [fromUTF8?_utf8, String.ofList_toList]

/-- The byte of a colon is a colon. -/
theorem colon_notMem_bytes {text : String} (h : ':' ∉ text.toList) : colon ∉ bytes text := by
  intro hmem
  obtain ⟨c, hc, hbyte⟩ := List.mem_flatMap.mp hmem
  have hnat : c.toNat = 58 := (utf8EncodeChar_of_lt hbyte (by decide)).2
  have hcolon : c = ':' := Char.toNat_inj.mp hnat
  exact h (hcolon ▸ hc)

theorem splitColon_eq_none {cs : List Char} (h : splitColon cs = none) : ':' ∉ cs := by
  unfold splitColon at h
  split at h
  · rename_i hdrop
    intro hmem
    have hall := List.dropWhile_eq_nil_iff.mp hdrop ':' hmem
    cases hall
  · cases h

theorem splitColon_eq_some {cs before rest : List Char} (h : splitColon cs = some (before, rest)) :
    cs = before ++ ':' :: rest ∧ ':' ∉ before := by
  unfold splitColon at h
  split at h
  · cases h
  · rename_i c tail hdrop
    cases h
    have hhead : c = ':' := by
      have hne : cs.dropWhile (· != ':') ≠ [] := by
        rw [hdrop]
        exact List.cons_ne_nil c rest
      have hfalse := List.head_dropWhile_not (· != ':') hne
      simpa [hdrop] using hfalse
    have hsplit := List.takeWhile_append_dropWhile (p := (· != ':')) (l := cs)
    rw [hdrop, hhead] at hsplit
    refine ⟨hsplit.symm, fun hmem => ?_⟩
    cases List.mem_takeWhile_imp hmem

/-- **How a text splits**: at two colons, or not. -/
theorem splitValue_cases (value : String) :
    (∃ amount expires scope, ':' ∉ amount.toList ∧ ':' ∉ expires.toList ∧
      value = joined amount expires scope) ∨
    splitValue value = none ∧ reserveParts (bytes value) = none ∧
      renewParts (bytes value) = none := by
  cases hfirst : splitColon value.toList with
  | none =>
    right
    have hcolon := colon_notMem_bytes (splitColon_eq_none hfirst)
    refine ⟨?_, parts_eq_none (Or.inl hcolon)⟩
    simp only [splitValue, hfirst, Option.bind_eq_bind, Option.bind_none]
  | some parts =>
    obtain ⟨before, rest⟩ := parts
    obtain ⟨hvalue, hbefore⟩ := splitColon_eq_some hfirst
    cases hsecond : splitColon rest with
    | none =>
      right
      have hbytes : bytes value =
          bytes (String.ofList before) ++ colon :: bytes (String.ofList rest) := by
        unfold bytes
        rw [hvalue, utf8_append, utf8_cons, String.toList_ofList, String.toList_ofList]
        rfl
      refine ⟨?_, parts_eq_none
        (Or.inr ⟨_, _, hbytes, colon_notMem_bytes ?_, colon_notMem_bytes ?_⟩)⟩
      · simp only [splitValue, hfirst, hsecond, Option.bind_eq_bind, Option.bind_some,
          Option.bind_none]
      · rwa [String.toList_ofList]
      · rw [String.toList_ofList]
        exact splitColon_eq_none hsecond
    | some parts =>
      left
      obtain ⟨between, scope⟩ := parts
      obtain ⟨hrest, hbetween⟩ := splitColon_eq_some hsecond
      refine ⟨String.ofList before, String.ofList between, String.ofList scope, ?_, ?_, ?_⟩
      · rwa [String.toList_ofList]
      · rwa [String.toList_ofList]
      · refine String.toList_inj.mp ?_
        rw [hvalue, hrest]
        simp [joined]

/-- **The model reads what the reservation script reads.** -/
theorem reserveReads_bytes (R : Format F) (value : String) :
    reserveReads R (bytes value) = R.read value := by
  unfold reserveReads Format.read
  rcases splitValue_cases value with ⟨amount, expires, scope, ha, he, rfl⟩ | ⟨hsplit, hparts, -⟩
  · rw [splitValue_joined ha he, bytes_joined,
      reserveParts_join (colon_notMem_bytes ha) (colon_notMem_bytes he)]
    simp only [Option.bind_eq_bind, Option.bind_some, textOf_bytes]
  · rw [hsplit, hparts]
    rfl

/-- **The model writes what the script of `renew` writes.** -/
theorem renewWrites_bytes (value argument : String) :
    renewWrites (bytes value) (bytes argument) =
      (splitValue value).map fun (amount, _, scope) => bytes (joined amount argument scope) := by
  unfold renewWrites
  rcases splitValue_cases value with ⟨amount, expires, scope, ha, he, rfl⟩ | ⟨hsplit, -, hparts⟩
  · rw [splitValue_joined ha he, bytes_joined,
      renewParts_join (colon_notMem_bytes ha) (colon_notMem_bytes he)]
    simp only [Option.bind_eq_bind, Option.bind_some, Option.map_some, bytes_joined]
  · rw [hsplit, hparts]
    rfl

/-! ## Renewals of a value -/

/-- One renewal rewrites what is between the colons. -/
theorem renewWrites_join {amount expires scope : String} (ha : ':' ∉ amount.toList)
    (he : ':' ∉ expires.toList) (argument : String) :
    renewWrites (bytes (joined amount expires scope)) (bytes argument) =
      some (bytes (joined amount argument scope)) := by
  rw [renewWrites_bytes, splitValue_joined ha he, Option.map_some]

/-- **Any number of renewals**: the amount and the scope are as written,
between them the last argument. -/
theorem foldlM_renewWrites {amount scope : String} (ha : ':' ∉ amount.toList)
    (arguments : List String) (harguments : ∀ a ∈ arguments, ':' ∉ a.toList) {expires : String}
    (he : ':' ∉ expires.toList) :
    arguments.foldlM (fun value argument => renewWrites value (bytes argument))
        (bytes (joined amount expires scope)) =
      some (bytes (joined amount (arguments.getLastD expires) scope)) := by
  induction arguments generalizing expires with
  | nil => rfl
  | cons argument arguments ih =>
    have hargument := harguments argument List.mem_cons_self
    rw [List.foldlM_cons, renewWrites_join ha he, Option.bind_eq_bind, Option.bind_some,
      ih (fun a h => harguments a (List.mem_cons_of_mem _ h)) hargument, List.getLastD_cons]

/-- The argument of the last renewal, or the expiry of the reservation, is
read as such. -/
theorem last_argument {R : Rendering F} {renewals : List (ℕ × String)}
    (h : ∀ r ∈ renewals, ':' ∉ r.2.toList ∧ R.readTime r.2 = some r.1) (expiry : ℕ) :
    ':' ∉ ((renewals.map Prod.snd).getLastD (R.time expiry)).toList ∧
      R.readTime ((renewals.map Prod.snd).getLastD (R.time expiry)) =
        some ((renewals.map Prod.fst).getLastD expiry) := by
  cases renewals using List.reverseRecOn with
  | nil => exact ⟨R.time_colon expiry, R.readTime_time expiry⟩
  | append_singleton renewals r =>
    simpa using h r (List.mem_append_right _ (List.mem_singleton_self r))

/-! ## The value of a field over time -/

section

variable [Arith F] (R : Format F) {key lease scope : String} {units : F}

/-- **What runs on a store**, with the expiry last written into one field:
reservations under other names, renewals of the field and of others,
releases. -/
inductive FieldStep (key lease : String) : Store × ℕ → Store × ℕ → Prop
  /-- A reservation, unless it is granted under the same name. -/
  | reserved {server now expiry : ℕ} {store store' : Store} {key' lease' scope : String}
      {limit units scopeLimit : F} {accepted : Bool} (written : ℕ) :
      reserveScript R server store key' now limit units lease' expiry scope scopeLimit =
        some (accepted, store') →
      ¬ (accepted = true ∧ key' = key ∧ lease' = lease) →
      FieldStep key lease (store, written) (store', written)
  /-- The field is renewed. -/
  | renewed {server expiry ms : ℕ} {store store' : Store} (written : ℕ) :
      renewScript R server store key lease expiry ms = some (true, store') →
      FieldStep key lease (store, written) (store', expiry)
  /-- There is no such field to renew. -/
  | notRenewed {server expiry ms : ℕ} {store store' : Store} (written : ℕ) :
      renewScript R server store key lease expiry ms = some (false, store') →
      FieldStep key lease (store, written) (store', written)
  /-- Another field is renewed, or not. -/
  | renewedOther {server expiry ms : ℕ} {store store' : Store} {key' lease' : String}
      {accepted : Bool} (written : ℕ) :
      renewScript R server store key' lease' expiry ms = some (accepted, store') →
      ¬ (key' = key ∧ lease' = lease) →
      FieldStep key lease (store, written) (store', written)
  /-- A field is deleted, this one or another. -/
  | released {server : ℕ} {store : Store} {key' lease' : String} (written : ℕ) :
      FieldStep key lease (store, written) (hdel server store key' lease', written)

/-- **What a field holds is what was meant**, if it holds anything. -/
def Means (key lease : String) (units : F) (scope : String) (s : Store × ℕ) : Prop :=
  ∀ value, held s.1 key lease = some value → value = R.value ⟨units, s.2, scope⟩

variable {R}

/-- The loop of a reservation only deletes. -/
theorem held_of_scan {server now : ℕ} {key' scope : String} (es : List (String × String))
    {acc acc' : Scan F} (h : es.foldlM (scanEntry R server now key' scope) acc = some acc')
    {value : String} (hheld : held acc'.store key lease = some value) :
    held acc.store key lease = some value := by
  induction es generalizing acc with
  | nil =>
    cases h
    exact hheld
  | cons e es ih =>
    rw [List.foldlM_cons, Option.bind_eq_bind, Option.bind_eq_some_iff] at h
    obtain ⟨next, hnext, h⟩ := h
    have hstep := ih h
    obtain ⟨x, -, rfl⟩ := Option.map_eq_some_iff.mp hnext
    split at hstep
    · exact held_of_hdel hstep
    · exact hstep

/-- A reservation writes its own field, if it is granted. -/
theorem held_of_reserveScript {server now expiry : ℕ} {store store' : Store}
    {key' lease' scope : String} {limit units scopeLimit : F} {accepted : Bool}
    (h : reserveScript R server store key' now limit units lease' expiry scope scopeLimit =
      some (accepted, store')) {value : String} (hheld : held store' key lease = some value) :
    (accepted = true ∧ key' = key ∧ lease' = lease ∧ value = R.value ⟨units, expiry, scope⟩) ∨
      held store key lease = some value := by
  unfold reserveScript at h
  rw [Option.bind_eq_bind, Option.bind_eq_some_iff] at h
  obtain ⟨scan, hfold, h⟩ := h
  split at h
  · cases h
    exact Or.inr (held_of_scan _ hfold hheld)
  · cases h
    rw [held_pexpire] at hheld
    rcases held_of_hset hheld with ⟨hkey, hfield, hvalue⟩ | hold
    · exact Or.inl ⟨rfl, hkey.symm, hfield.symm, hvalue⟩
    · exact Or.inr (held_of_scan _ hfold hold)

/-- A granted reservation has written its field. -/
theorem hget_of_reserveScript {server now expiry : ℕ} {store store' : Store}
    {limit scopeLimit : F}
    (h : reserveScript R server store key now limit units lease expiry scope scopeLimit =
      some (true, store')) :
    hget server store' key lease = some (R.value ⟨units, expiry, scope⟩) := by
  unfold reserveScript at h
  rw [Option.bind_eq_bind, Option.bind_eq_some_iff] at h
  obtain ⟨scan, -, h⟩ := h
  split at h
  · cases h
  · cases h
    unfold hget
    rw [hgetall_hset_pexpire, if_pos (by omega), OrdMap.get?_insert_self]

omit [Arith F] in
/-- A renewal writes its own field only, if it is there. -/
theorem held_of_renewScript {server expiry ms : ℕ} {store store' : Store} {key' lease' : String}
    {accepted : Bool}
    (h : renewScript R server store key' lease' expiry ms = some (accepted, store'))
    {value : String} (hheld : held store' key lease = some value) :
    (accepted = true ∧ key' = key ∧ lease' = lease) ∨ held store key lease = some value := by
  unfold renewScript at h
  split at h
  · cases h
    exact Or.inr hheld
  · obtain ⟨⟨amount, expires, scope⟩, -, hwritten⟩ := Option.map_eq_some_iff.mp h
    cases hwritten
    rw [held_pexpire] at hheld
    rcases held_of_hset hheld with ⟨hkey, hfield, -⟩ | hheld
    · exact Or.inl ⟨rfl, hkey.symm, hfield.symm⟩
    · exact Or.inr hheld

omit [Arith F] in
/-- And what it writes is what was there, with another expiry. -/
theorem held_of_renewed {server expiry ms : ℕ} {store store' : Store}
    (h : renewScript R server store key lease expiry ms = some (true, store')) :
    ∃ old amount expires scope, held store key lease = some old ∧
      splitValue old = some (amount, expires, scope) ∧
      held store' key lease = some (joined amount (R.argument expiry) scope) := by
  unfold renewScript at h
  split at h
  · cases h
  · rename_i old hold
    obtain ⟨⟨amount, expires, scope⟩, hsplit, hwritten⟩ := Option.map_eq_some_iff.mp h
    cases hwritten
    refine ⟨old, amount, expires, scope, held_of_hget hold, hsplit, ?_⟩
    rw [held_pexpire, held_hset_self]

/-- **One step keeps the meaning of a field.** -/
theorem FieldStep.means {R : Rendering F} {s s' : Store × ℕ}
    (h : FieldStep R.toFormat key lease s s') (hmeans : Means R key lease units scope s) :
    Means R key lease units scope s' := by
  intro value hheld
  cases h with
  | reserved written hscript hother =>
    rcases held_of_reserveScript hscript hheld with ⟨ha, hk, hl, -⟩ | hold
    · exact absurd ⟨ha, hk, hl⟩ hother
    · exact hmeans value hold
  | renewed written hscript =>
    -- the field was there, with the meaning it had
    obtain ⟨old, amount, expires, scope', hold, hsplit, hnew⟩ := held_of_renewed hscript
    rw [hmeans old hold, splitValue_value] at hsplit
    cases hsplit
    rw [hnew, R.argument_eq] at hheld
    exact (Option.some.inj hheld).symm
  | notRenewed written hscript =>
    rcases held_of_renewScript hscript hheld with ⟨ha, -⟩ | hold
    · cases ha
    · exact hmeans value hold
  | renewedOther written hscript hother =>
    rcases held_of_renewScript hscript hheld with ⟨-, hk, hl⟩ | hold
    · exact absurd ⟨hk, hl⟩ hother
    · exact hmeans value hold
  | released written => exact hmeans value (held_of_hdel hheld)

/-- **And so does a run.** -/
theorem means_of_run {R : Rendering F} {s s' : Store × ℕ}
    (hrun : Relation.ReflTransGen (FieldStep R.toFormat key lease) s s')
    (hmeans : Means R key lease units scope s) : Means R key lease units scope s' := by
  induction hrun with
  | refl => exact hmeans
  | tail _ hstep ih => exact hstep.means ih

end

/-- **The values of leases are read back.** However numbers are written
without colons such that `tonumber` reads them back, and for all units,
expiries and scopes: the bytes that a reservation writes are taken apart by
both scripts into the amount and the scope that were written; after any
number of renewals, with arguments written likewise, the reservation script
reads the amount, the scope and the last expiry in them. And so on a store:
a reservation that is granted has written its field, and after any run of
scripts, by any clients and on any keys, whatever is seen in the field is
read as the amount and the scope that were reserved and the expiry last
written. -/
theorem lease_values_round_trip [Arith F] (R : Rendering F) (units : F) (expiry : ℕ)
    (scope : String) :
    reserveReads R (bytes (R.value ⟨units, expiry, scope⟩)) = some ⟨units, expiry, scope⟩ ∧
    renewParts (bytes (R.value ⟨units, expiry, scope⟩)) =
      some (bytes (R.units units), bytes scope) ∧
    (∀ renewals : List (ℕ × String),
      (∀ r ∈ renewals, ':' ∉ r.2.toList ∧ R.readTime r.2 = some r.1) →
      ∃ value, (renewals.map Prod.snd).foldlM
          (fun value argument => renewWrites value (bytes argument))
          (bytes (R.value ⟨units, expiry, scope⟩)) = some value ∧
        reserveReads R value = some ⟨units, (renewals.map Prod.fst).getLastD expiry, scope⟩ ∧
        renewParts value = some (bytes (R.units units), bytes scope)) ∧
    ∀ (server : ℕ) (store : Store) (key : String) (now : ℕ) (limit : F) (lease : String)
      (scopeLimit : F) (granted : Store),
      reserveScript R server store key now limit units lease expiry scope scopeLimit =
        some (true, granted) →
      hget server granted key lease = some (R.value ⟨units, expiry, scope⟩) ∧
      ∀ store' written,
        Relation.ReflTransGen (FieldStep R.toFormat key lease) (granted, expiry) (store', written) →
        ∀ t value, hget t store' key lease = some value →
          reserveReads R (bytes value) = some ⟨units, written, scope⟩ := by
  have hunits := R.units_colon units
  have hparts : ∀ {expires : String}, ':' ∉ expires.toList →
      renewParts (bytes (joined (R.units units) expires scope)) =
        some (bytes (R.units units), bytes scope) := by
    intro expires hexpires
    rw [bytes_joined]
    exact renewParts_join (colon_notMem_bytes hunits) (colon_notMem_bytes hexpires) _
  refine ⟨?_, hparts (R.time_colon expiry), fun renewals hrenewals => ?_,
    fun server store key now limit lease scopeLimit granted hgranted => ⟨?_, ?_⟩⟩
  · rw [reserveReads_bytes, R.read_value]
  · have harguments : ∀ a ∈ renewals.map Prod.snd, ':' ∉ a.toList := by
      intro a ha
      obtain ⟨r, hr, rfl⟩ := List.mem_map.mp ha
      exact (hrenewals r hr).1
    have hlast := last_argument hrenewals expiry
    refine ⟨_, foldlM_renewWrites hunits _ harguments (R.time_colon expiry), ?_, hparts hlast.1⟩
    rw [reserveReads_bytes]
    unfold Format.read
    rw [splitValue_joined hunits hlast.1]
    simp only [Option.bind_eq_bind, Option.bind_some, R.readUnits_units, hlast.2]
  · exact hget_of_reserveScript hgranted
  · intro store' written hrun t value hvalue
    have hstart : Means R key lease units scope (granted, expiry) := by
      intro value hheld
      have hwritten := held_of_hget (hget_of_reserveScript hgranted)
      rw [hwritten] at hheld
      exact (Option.some.inj hheld).symm
    rw [means_of_run hrun hstart value (held_of_hget hvalue), reserveReads_bytes, R.read_value]

end ValkeyCoordinator

end InferQos
