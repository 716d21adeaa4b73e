import InferQos.Common.Occurrence
import Mathlib.Data.String.Basic
/-!
# The text of a JSON document

A writer of compact JSON. In a string it escapes the quote, the backslash
and the control characters, and nothing else. So a pattern that has none of
these and none of the syntax around values occurs in a document exactly if
it occurs in one of the texts that went into it (`within_jsonString_iff`,
`within_jsonArray_iff`, `within_jsonObject_iff`): escaping neither hides it nor
makes it. Occurrences are counted without regard to case.
-/

namespace InferQos

/-! ## The writer -/

/-- What has to be escaped in a string. -/
def isSpecial (c : Char) : Bool := c == '\x22' || c == '\\' || decide (c.toNat < 32)

/-- The escape of a control character. -/
def escapeControl (n : ℕ) : List Char :=
  match n with
  | 8 => ['\\', 'b']
  | 9 => ['\\', 't']
  | 10 => ['\\', 'n']
  | 12 => ['\\', 'f']
  | 13 => ['\\', 'r']
  | n => ['\\', 'u', '0', '0', Nat.digitChar (n / 16), Nat.digitChar (n % 16)]

/-- A character of a string. -/
def escapeChar (c : Char) : List Char :=
  if isSpecial c then
    if c == '\x22' || c == '\\' then ['\\', c] else escapeControl c.toNat
  else [c]

def escape (cs : List Char) : List Char := cs.flatMap escapeChar

/-- A string, between its quotes. -/
def jsonString (text : String) : List Char := '\x22' :: (escape text.toList ++ ['\x22'])

/-- Texts with commas between them. -/
def commas : List (List Char) → List Char
  | [] => []
  | [item] => item
  | item :: next :: items => item ++ ',' :: commas (next :: items)

def jsonArray (items : List (List Char)) : List Char := '[' :: (commas items ++ [']'])

def jsonMember (m : String × List Char) : List Char := jsonString m.1 ++ ':' :: m.2

def jsonObject (members : List (String × List Char)) : List Char :=
  '\x7b' :: (commas (members.map jsonMember) ++ ['\x7d'])

/-! ## Patterns -/

/-- The characters around values. -/
def structural : List Char := ['\x7b', '\x7d', '[', ']', ',', ':']

def isStructural (c : Char) : Bool := structural.contains c

/-- The characters that escapes are made of. -/
def escapeAlphabet : List Char := '\\' :: '\x22' :: "bfnrtu0123456789acde".toList

/-- **A pattern that is foreign to JSON**: a character of its own to start
with, and none that is escaped or belongs to the syntax. -/
structure ForeignToJson (h : Char) (w : List Char) : Prop where
  head : escapeAlphabet.contains h = false
  plain : (h :: w).all (fun c => !isSpecial c && !isStructural c) = true

/-- **The pattern occurs in a text**, in whatever case. -/
def Within (pat text : List Char) : Prop := pat <:+: text.map Char.toLower

variable {h : Char} {w : List Char}

theorem within_cons_iff {c : Char} {text : List Char} :
    Within (h :: w) (c :: text) ↔
      (h = c.toLower ∧ w <+: text.map Char.toLower) ∨ Within (h :: w) text := by
  unfold Within
  rw [List.map_cons, List.infix_cons_iff, List.cons_prefix_cons]

theorem not_within_nil : ¬ Within (h :: w) [] := fun hpat => by
  have := List.infix_nil.mp hpat
  cases this

/-- Only an upper case letter has another lower case, and that is a
letter. -/
theorem eq_of_toLower_eq {c d : Char} (hd : d.toNat < 97) (heq : c.toLower = d) : c = d := by
  unfold Char.toLower at heq
  split at heq
  · rename_i hupper
    obtain ⟨hle, hge⟩ := hupper
    have hle' : 65 ≤ c.val.toNat := UInt32.le_iff_toNat_le.mp hle
    have hge' : c.val.toNat ≤ 90 := UInt32.le_iff_toNat_le.mp hge
    have hnat : (c.val + ('a'.val - 'A'.val)).toNat = d.toNat := congrArg Char.toNat heq
    have hdiff : ('a'.val - 'A'.val).toNat = 32 := rfl
    rw [UInt32.toNat_add, hdiff] at hnat
    omega
  · exact heq

/-- A search for a pattern that starts with this character, which is no
letter: the case of what follows it is all that is left to look at. -/
def searchFor (h : Char) (w : List Char) : List Char → Bool
  | [] => false
  | c :: cs => (c == h && w.isPrefixOf (cs.map Char.toLower)) || searchFor h w cs

/-- **The search finds what is there.** -/
theorem within_iff_searchFor (hd : h.toNat < 97) (hlower : h.toLower = h) (text : List Char) :
    Within (h :: w) text ↔ searchFor h w text = true := by
  induction text with
  | nil => exact iff_of_false not_within_nil (by simp [searchFor])
  | cons c text ih =>
    have hhead : h = c.toLower ↔ c = h := by
      constructor
      · exact fun heq => eq_of_toLower_eq hd heq.symm
      · rintro rfl
        exact hlower.symm
    rw [within_cons_iff, ih, searchFor, Bool.or_eq_true, Bool.and_eq_true, beq_iff_eq,
      List.isPrefixOf_iff_prefix, hhead]

/-- A text without the first character of the pattern, which is no
letter. -/
theorem not_within_of_notMem {text : List Char} (hd : h.toNat < 97) (hh : h ∉ text) :
    ¬ Within (h :: w) text := by
  refine not_infix_of_notMem fun hmem => ?_
  obtain ⟨c, hc, heq⟩ := List.mem_map.mp hmem
  exact hh (eq_of_toLower_eq hd heq ▸ hc)

namespace ForeignToJson

variable (hp : ForeignToJson h w)
include hp

theorem not_special {c : Char} (hc : c ∈ h :: w) : isSpecial c = false := by
  have := List.all_eq_true.mp hp.plain c hc
  simp only [Bool.and_eq_true, Bool.not_eq_true'] at this
  exact this.1

theorem notMem_of_isStructural {c : Char} (hc : isStructural c = true) : c ∉ h :: w := by
  intro hmem
  have := List.all_eq_true.mp hp.plain c hmem
  simp only [Bool.and_eq_true, Bool.not_eq_true'] at this
  rw [this.2] at hc
  cases hc

theorem notMem_of_isSpecial {c : Char} (hc : isSpecial c = true) : c ∉ h :: w := by
  intro hmem
  rw [hp.not_special hmem] at hc
  cases hc

end ForeignToJson

/-! ## Escapes -/

theorem toLower_of_lt {c : Char} (hc : c.toNat < 65) : c.toLower = c := by
  refine dif_neg fun hupper => ?_
  have hle : 65 ≤ c.toNat := UInt32.le_iff_toNat_le.mp hupper.1
  omega

/-- What is escaped has no case. -/
theorem toLower_of_isSpecial {c : Char} (hc : isSpecial c = true) : c.toLower = c := by
  unfold isSpecial at hc
  simp only [Bool.or_eq_true, beq_iff_eq, decide_eq_true_eq] at hc
  rcases hc with (rfl | rfl) | hlt
  · rfl
  · rfl
  · exact toLower_of_lt (by omega)

theorem toLower_of_isStructural {c : Char} (hc : isStructural c = true) : c.toLower = c := by
  have hall : structural.all (fun c => c.toLower == c) = true := by decide
  exact beq_iff_eq.mp (List.all_eq_true.mp hall c (List.contains_iff_mem.mp hc))

theorem escapeChar_of_not_special {c : Char} (hc : isSpecial c = false) : escapeChar c = [c] := by
  unfold escapeChar
  rw [hc]
  rfl

theorem digitChar_mem {n : ℕ} (hn : n < 16) : Nat.digitChar n ∈ escapeAlphabet := by
  have hall : ∀ n : Fin 16, Nat.digitChar n ∈ escapeAlphabet := by decide
  exact hall ⟨n, hn⟩

/-- **The characters of an escape**: a backslash, and others of the
alphabet. -/
theorem escapeChar_of_special {c : Char} (hc : isSpecial c = true) :
    ∃ rest, escapeChar c = '\\' :: rest ∧ ∀ d ∈ rest, d ∈ escapeAlphabet := by
  have hlist : ∀ l : List Char, l.all escapeAlphabet.contains = true →
      ∀ d ∈ l, d ∈ escapeAlphabet :=
    fun l hl d hd => List.contains_iff_mem.mp (List.all_eq_true.mp hl d hd)
  unfold escapeChar
  rw [hc, if_pos rfl]
  unfold isSpecial at hc
  simp only [Bool.or_eq_true, beq_iff_eq, decide_eq_true_eq] at hc
  split
  · rename_i hquote
    simp only [Bool.or_eq_true, beq_iff_eq] at hquote
    rcases hquote with rfl | rfl
    · exact ⟨_, rfl, hlist _ (by decide)⟩
    · exact ⟨_, rfl, hlist _ (by decide)⟩
  · rename_i hquote
    simp only [Bool.or_eq_true, beq_iff_eq] at hquote
    have hlt : c.toNat < 32 := hc.resolve_left hquote
    unfold escapeControl
    split
    · exact ⟨_, rfl, hlist _ (by decide)⟩
    · exact ⟨_, rfl, hlist _ (by decide)⟩
    · exact ⟨_, rfl, hlist _ (by decide)⟩
    · exact ⟨_, rfl, hlist _ (by decide)⟩
    · exact ⟨_, rfl, hlist _ (by decide)⟩
    · refine ⟨_, rfl, fun d hd => ?_⟩
      simp only [List.mem_cons, List.not_mem_nil, or_false] at hd
      rcases hd with rfl | rfl | rfl | rfl | rfl
      · decide
      · decide
      · decide
      · exact digitChar_mem (by omega)
      · exact digitChar_mem (by omega)

/-- The alphabet of escapes has no case. -/
theorem toLower_of_mem_escapeAlphabet {d : Char} (hd : d ∈ escapeAlphabet) : d.toLower = d := by
  have hall : escapeAlphabet.all (fun d => d.toLower == d) = true := by decide
  exact beq_iff_eq.mp (List.all_eq_true.mp hall d hd)

/-- A pattern without what is escaped starts an escaped text if it starts
the text. -/
theorem prefix_escape_iff {x : List Char} (hx : ∀ c ∈ x, isSpecial c = false) (cs : List Char) :
    x <+: (escape cs).map Char.toLower ↔ x <+: cs.map Char.toLower := by
  induction x generalizing cs with
  | nil => exact ⟨fun _ => List.nil_prefix, fun _ => List.nil_prefix⟩
  | cons a x ih =>
    have ha : isSpecial a = false := hx a List.mem_cons_self
    cases cs with
    | nil => rfl
    | cons c cs =>
      have hcons : escape (c :: cs) = escapeChar c ++ escape cs := List.flatMap_cons
      rw [hcons]
      cases hc : isSpecial c with
      | true =>
        -- neither a backslash nor what it stands for can start the pattern
        obtain ⟨rest, hrest, -⟩ := escapeChar_of_special hc
        rw [hrest, List.cons_append, List.map_cons, List.map_cons, List.cons_prefix_cons,
          List.cons_prefix_cons, toLower_of_isSpecial hc]
        constructor
        · rintro ⟨rfl, -⟩
          cases ha
        · rintro ⟨rfl, -⟩
          rw [ha] at hc
          cases hc
      | false =>
        rw [escapeChar_of_not_special hc, List.singleton_append, List.map_cons, List.map_cons,
          List.cons_prefix_cons, List.cons_prefix_cons,
          ih fun b hb => hx b (List.mem_cons_of_mem a hb)]

section

variable (hp : ForeignToJson h w)
include hp

/-- What is escaped adds no occurrence, before or after. -/
theorem within_special_iff {c : Char} (hc : isSpecial c = true) (cs text : List Char) :
    (Within (h :: w) (c :: cs) ↔ Within (h :: w) cs) ∧
      (Within (h :: w) (escapeChar c ++ text) ↔ Within (h :: w) text) := by
  have hlower := toLower_of_isSpecial hc
  have hhead : h ∉ escapeAlphabet := fun hmem => by
    have := hp.head
    rw [List.contains_iff_mem.mpr hmem] at this
    cases this
  unfold Within
  constructor
  · have hfront : h ∉ [c] := fun hmem =>
      hp.notMem_of_isSpecial hc (List.mem_singleton.mp hmem ▸ List.mem_cons_self)
    rw [List.map_cons, hlower]
    exact infix_append_iff_of_notMem hfront
  · rw [List.map_append]
    refine infix_append_iff_of_notMem fun hmem => ?_
    obtain ⟨d, hd, rfl⟩ := List.mem_map.mp hmem
    obtain ⟨rest, hrest, hmem⟩ := escapeChar_of_special hc
    rw [hrest] at hd
    have halphabet : d ∈ escapeAlphabet := by
      rcases List.mem_cons.mp hd with rfl | hd
      · decide
      · exact hmem d hd
    rw [toLower_of_mem_escapeAlphabet halphabet] at hhead
    exact hhead halphabet

/-- **Escaping neither hides a pattern nor makes one.** -/
theorem within_escape_iff (cs : List Char) : Within (h :: w) (escape cs) ↔ Within (h :: w) cs := by
  induction cs with
  | nil => rfl
  | cons c cs ih =>
    have hcons : escape (c :: cs) = escapeChar c ++ escape cs := List.flatMap_cons
    rw [hcons]
    cases hc : isSpecial c with
    | true =>
      obtain ⟨hplain, hescaped⟩ := within_special_iff hp hc cs (escape cs)
      rw [hescaped, hplain, ih]
    | false =>
      rw [escapeChar_of_not_special hc, List.singleton_append, within_cons_iff, within_cons_iff, ih,
        prefix_escape_iff (fun c hc => hp.not_special (List.mem_cons_of_mem h hc))]

/-! ## Documents -/

/-- A quote or a piece of syntax parts a text. -/
theorem within_append_cons_iff {c : Char} (hc : isSpecial c = true ∨ isStructural c = true)
    (a b : List Char) :
    Within (h :: w) (a ++ c :: b) ↔ Within (h :: w) a ∨ Within (h :: w) b := by
  have hlower : c.toLower = c := by
    rcases hc with hc | hc
    · exact toLower_of_isSpecial hc
    · exact toLower_of_isStructural hc
  have hnot : c ∉ h :: w := by
    rcases hc with hc | hc
    · exact hp.notMem_of_isSpecial hc
    · exact hp.notMem_of_isStructural hc
  unfold Within
  rw [List.map_append, List.map_cons, hlower]
  exact infix_append_cons_iff (List.cons_ne_nil h w) hnot

/-- What stands between two characters that part a text. -/
theorem within_between_iff {c d : Char} (hc : isSpecial c = true ∨ isStructural c = true)
    (hd : isSpecial d = true ∨ isStructural d = true) (a : List Char) :
    Within (h :: w) (c :: (a ++ [d])) ↔ Within (h :: w) a := by
  have hfirst := within_append_cons_iff hp hc [] (a ++ [d])
  rw [List.nil_append] at hfirst
  rw [hfirst, within_append_cons_iff hp hd a []]
  simp only [not_within_nil, false_or, or_false]

theorem within_jsonString_iff (text : String) :
    Within (h :: w) (jsonString text) ↔ Within (h :: w) text.toList := by
  unfold jsonString
  rw [within_between_iff hp (Or.inl rfl) (Or.inl rfl), within_escape_iff hp]

theorem within_commas_iff (items : List (List Char)) :
    Within (h :: w) (commas items) ↔ ∃ item ∈ items, Within (h :: w) item := by
  induction items with
  | nil => simp [commas, not_within_nil]
  | cons item items ih =>
    cases items with
    | nil => simp [commas]
    | cons next items =>
      rw [commas, within_append_cons_iff hp (Or.inr rfl), ih, List.exists_mem_cons_iff _ item]

theorem within_jsonArray_iff (items : List (List Char)) :
    Within (h :: w) (jsonArray items) ↔ ∃ item ∈ items, Within (h :: w) item := by
  unfold jsonArray
  rw [within_between_iff hp (Or.inr rfl) (Or.inr rfl), within_commas_iff hp]

/-- **A pattern occurs in an object** if it does in a key or in a value. -/
theorem within_jsonObject_iff (members : List (String × List Char)) :
    Within (h :: w) (jsonObject members) ↔
      ∃ m ∈ members, Within (h :: w) m.1.toList ∨ Within (h :: w) m.2 := by
  unfold jsonObject
  rw [within_between_iff hp (Or.inr rfl) (Or.inr rfl), within_commas_iff hp]
  simp only [List.mem_map, exists_exists_and_eq_and]
  refine exists_congr fun m => and_congr_right fun _ => ?_
  unfold jsonMember
  rw [within_append_cons_iff hp (Or.inr rfl), within_jsonString_iff hp]

/-- Nor does an object take part in an occurrence of what stands around
it. -/
theorem within_around_jsonObject_iff (a b : List Char) (members : List (String × List Char)) :
    Within (h :: w) (a ++ (jsonObject members ++ b)) ↔
      Within (h :: w) a ∨ Within (h :: w) (jsonObject members) ∨ Within (h :: w) b := by
  have hinner : Within (h :: w) (jsonObject members) ↔
      Within (h :: w) (commas (members.map jsonMember)) := by
    unfold jsonObject
    rw [within_between_iff hp (Or.inr rfl) (Or.inr rfl)]
  rw [hinner]
  unfold jsonObject
  rw [List.cons_append, within_append_cons_iff hp (Or.inr rfl), List.append_assoc,
    List.singleton_append, within_append_cons_iff hp (Or.inr rfl)]

end

end InferQos
