import Mathlib.Algebra.GroupWithZero.Nat
import Mathlib.Algebra.Order.BigOperators.Group.List
import Mathlib.Algebra.Order.Group.Nat
import Mathlib.Data.List.Nodup
import Mathlib.Data.String.Basic
import Mathlib.Order.Nat
/-!
# JSON documents and their readers

A document is the tree a parser makes of a text: numbers are kept as the
integers they are, or as the bits of a float, and an object is a list of
members with distinct keys. A `JsonReader` stands for the parser. It may
refuse what it likes; the three laws are what a JSON parser that decodes
its strings gives its callers.
-/

namespace InferQos

/-- A number: not negative, negative, or neither an `i64` nor a `u64`. -/
inductive JsonNumber
  | posInt (n : UInt64)
  | negInt (n : Int64)
  | float (bits : UInt64)
  deriving DecidableEq

/-- **A document.** -/
inductive Json
  | null
  | bool (value : Bool)
  | number (value : JsonNumber)
  | string (text : String)
  | array (items : List Json)
  | object (members : List (String × Json))

namespace Json

/-- The member of an object under a key. -/
def get (v : Json) (key : String) : Option Json :=
  match v with
  | object members => (members.find? fun m => m.1 = key).map (·.2)
  | _ => none

/-- The number, if it is a `u64`. -/
def asU64 : Json → Option ℕ
  | number (.posInt n) => some n.toNat
  | _ => none

mutual

/-- The bytes of all texts in a document; keys are not counted. -/
def textBytes : Json → ℕ
  | string text => text.utf8ByteSize
  | array items => textBytesOf items
  | object members => textBytesIn members
  | _ => 0

/-- The bytes of the texts in some documents. -/
def textBytesOf : List Json → ℕ
  | [] => 0
  | v :: vs => textBytes v + textBytesOf vs

/-- The bytes of the texts in the values of some members. -/
def textBytesIn : List (String × Json) → ℕ
  | [] => 0
  | (_, v) :: ms => textBytes v + textBytesIn ms

end

theorem textBytes_object (members : List (String × Json)) :
    textBytes (object members) = (members.map fun m => textBytes m.2).sum := by
  rw [textBytes]
  induction members with
  | nil => rfl
  | cons m ms ih => rw [textBytesIn, ih, List.map_cons, List.sum_cons]

theorem asU64_lt {v : Json} {n : ℕ} (h : v.asU64 = some n) : n < 2 ^ 64 := by
  unfold asU64 at h
  split at h
  · rename_i k
    rw [← Option.some.inj h]
    exact k.toNat_lt
  · cases h

variable {members members' : List (String × Json)} {key : String} {v : Json}

/-- **A member is found under its key.** -/
theorem get_eq_some (hnd : (members.map (·.1)).Nodup) :
    (object members).get key = some v ↔ (key, v) ∈ members := by
  unfold get
  constructor
  · intro h
    obtain ⟨m, hm, rfl⟩ := Option.map_eq_some_iff.mp h
    have hkey : m.1 = key := by simpa using List.find?_some hm
    rw [← hkey]
    exact List.mem_of_find?_eq_some hm
  · intro h
    have hsome : (members.find? fun m => m.1 = key).isSome := by
      rw [List.find?_isSome]
      exact ⟨(key, v), h, by simp⟩
    obtain ⟨m, hm⟩ := Option.isSome_iff_exists.mp hsome
    have hkey : m.1 = key := by simpa using List.find?_some hm
    have heq : m = (key, v) :=
      List.inj_on_of_nodup_map hnd (List.mem_of_find?_eq_some hm) h hkey
    simp only [hm, heq, Option.map_some]

/-- A member has no more text than the object. -/
theorem textBytes_get_le {doc : Json} (h : doc.get key = some v) : v.textBytes ≤ doc.textBytes := by
  unfold get at h
  split at h
  · obtain ⟨m, hm, rfl⟩ := Option.map_eq_some_iff.mp h
    rw [textBytes_object]
    exact List.single_le_sum (fun _ _ => Nat.zero_le _) _
      (List.mem_map_of_mem (List.mem_of_find?_eq_some hm))
  · cases h

/-- Objects with the same members read alike. -/
theorem get_perm (hnd : (members.map (·.1)).Nodup) (hperm : members'.Perm members) :
    (object members').get key = (object members).get key := by
  have hnd' : (members'.map (·.1)).Nodup := (hperm.map _).nodup_iff.mpr hnd
  ext v
  rw [get_eq_some hnd', get_eq_some hnd, hperm.mem_iff]

/-- A new member in front. -/
theorem get_cons (members : List (String × Json)) (k key : String) (v : Json) :
    (object ((k, v) :: members)).get key = if k = key then some v else (object members).get key := by
  unfold get
  by_cases h : k = key
  · simp [h]
  · simp [h]

end Json

/-! ## Readers -/

/-- **A parser of JSON texts.** -/
structure JsonReader where
  /-- The document of a text, if it is one. -/
  reads : List UInt8 → Option Json
  /-- Strings are no longer decoded than they are written. -/
  textBytes_le : ∀ {text v}, reads text = some v → v.textBytes ≤ text.length
  /-- Of two members with one key, one is kept. -/
  keys_nodup : ∀ {text members}, reads text = some (.object members) → (members.map (·.1)).Nodup
  /-- What is read is UTF-8, in which no byte is `0xFF`. -/
  utf8 : ∀ {text v}, reads text = some v → (255 : UInt8) ∉ text

/-- The laws of a reader, of one text and its document. -/
def Json.ReadFrom (text : List UInt8) (v : Json) : Prop :=
  v.textBytes ≤ text.length ∧ (match v with
    | .object members => (members.map (·.1)).Nodup
    | _ => True) ∧ (255 : UInt8) ∉ text

/-- The reader of some texts that refuses all others. -/
def JsonReader.ofTable (table : List (List UInt8 × Json))
    (h : ∀ e ∈ table, Json.ReadFrom e.1 e.2) : JsonReader where
  reads text := (table.find? fun e => e.1 = text).map (·.2)
  textBytes_le := by
    intro text v hv
    obtain ⟨e, he, rfl⟩ := Option.map_eq_some_iff.mp hv
    have hkey : e.1 = text := by simpa using List.find?_some he
    rw [← hkey]
    exact (h e (List.mem_of_find?_eq_some he)).1
  keys_nodup := by
    intro text members hv
    obtain ⟨e, he, hobject⟩ := Option.map_eq_some_iff.mp hv
    have hlaw := (h e (List.mem_of_find?_eq_some he)).2.1
    rw [hobject] at hlaw
    exact hlaw
  utf8 := by
    intro text v hv
    obtain ⟨e, he, -⟩ := Option.map_eq_some_iff.mp hv
    have hkey : e.1 = text := by simpa using List.find?_some he
    rw [← hkey]
    exact (h e (List.mem_of_find?_eq_some he)).2.2

end InferQos
