import InferQos.Common.Utf8
import Mathlib.Data.Nat.Find
/-!
# Texts by byte offset

Rust's `str` is its bytes, and its methods count in bytes. `find` gives the
offset of the first occurrence of a pattern. A slice at an offset that is
not the start of a character panics, which is `none` here. **A pattern of
ASCII is found at the start of a character** (`utf8_eq_append`), so what a
scanner reads by byte offsets is what it would read character by character:
`find_utf8` gives the offset, `sliceTo_utf8` and `sliceFrom_utf8` the two
sides of it.
-/

namespace InferQos

/-! ## The first occurrence of a pattern -/

section Infix

variable {α : Type*} [BEq α] [LawfulBEq α] {l i p s : List α}

theorem dropInfix?_some_iff :
    l.dropInfix? i = some (p, s) ↔
      l = p ++ i ++ s ∧ ∀ p' s', l = p' ++ i ++ s' → p.length ≤ p'.length := by
  rw [List.dropInfix?_eq_some_iff]
  constructor
  · rintro ⟨⟨i', hl, hi⟩, hmin⟩
    rw [beq_iff_eq] at hi
    subst hi
    exact ⟨hl, fun p' s' hl' => hmin p' _ s' hl' (beq_self_eq_true _)⟩
  · rintro ⟨hl, hmin⟩
    refine ⟨⟨i, hl, beq_self_eq_true _⟩, fun p' i' s' hl' hi => ?_⟩
    rw [beq_iff_eq] at hi
    subst hi
    exact hmin p' s' hl'

/-- A pattern is not found exactly if it does not occur. -/
theorem dropInfix?_none_iff : l.dropInfix? i = none ↔ ¬ i <:+: l := by
  classical
  constructor
  · rintro hnone ⟨p, s, hl⟩
    -- the shortest text before an occurrence is what is found
    have hex : ∃ n, ∃ p s, l = p ++ i ++ s ∧ p.length = n := ⟨_, p, s, hl.symm, rfl⟩
    obtain ⟨p₀, s₀, hl₀, hlen⟩ := Nat.find_spec hex
    have hfound : l.dropInfix? i = some (p₀, s₀) := by
      refine dropInfix?_some_iff.mpr ⟨hl₀, fun p' s' hl' => ?_⟩
      rw [hlen]
      exact Nat.find_min' hex ⟨p', s', hl', rfl⟩
    rw [hnone] at hfound
    exact Option.some_ne_none _ hfound.symm
  · intro hnot
    rw [Option.eq_none_iff_forall_ne_some]
    rintro ⟨p, s⟩ hfound
    exact hnot ⟨p, s, (dropInfix?_some_iff.mp hfound).1.symm⟩

theorem eq_of_dropInfix? (h : l.dropInfix? i = some (p, s)) : l = p ++ (i ++ s) := by
  rw [(dropInfix?_some_iff.mp h).1, List.append_assoc]

/-- What stands before the first occurrence has none. -/
theorem not_infix_of_dropInfix? (hi : i ≠ []) (h : l.dropInfix? i = some (p, s)) : ¬ i <:+: p := by
  obtain ⟨hl, hmin⟩ := dropInfix?_some_iff.mp h
  rintro ⟨a, b, rfl⟩
  have hle := hmin a (b ++ i ++ s) (by rw [hl]; simp only [List.append_assoc])
  have hpos := List.length_pos_iff.mpr hi
  simp only [List.length_append] at hle
  omega

end Infix

/-! ## `str::find` and slices -/

/-- `text.find(pattern)`, the offset in bytes. -/
def find (pattern text : List UInt8) : Option ℕ :=
  (text.dropInfix? pattern).map (·.1.length)

theorem length_le_of_find {pattern text : List UInt8} {index : ℕ}
    (h : find pattern text = some index) : index + pattern.length ≤ text.length := by
  obtain ⟨parts, hparts, rfl⟩ := Option.map_eq_some_iff.mp h
  rw [(dropInfix?_some_iff.mp hparts).1, List.length_append, List.length_append]
  omega

/-- `u8::is_utf8_char_boundary`: not a byte within a character. -/
def isBoundaryByte (b : UInt8) : Bool := b.toNat < 128 || 192 ≤ b.toNat

/-- `str::is_char_boundary`. -/
def isCharBoundary (text : List UInt8) (index : ℕ) : Bool :=
  if index = 0 then true
  else
    match text[index]? with
    | none => index == text.length
    | some b => isBoundaryByte b

/-- `&text[..index]`. -/
def sliceTo (text : List UInt8) (index : ℕ) : Option (List UInt8) :=
  if isCharBoundary text index then some (text.take index) else none

/-- `&text[index..]`. -/
def sliceFrom (text : List UInt8) (index : ℕ) : Option (List UInt8) :=
  if isCharBoundary text index then some (text.drop index) else none

theorem length_sliceFrom {text rest : List UInt8} {index : ℕ}
    (h : sliceFrom text index = some rest) : rest.length = text.length - index := by
  unfold sliceFrom at h
  split_ifs at h
  rw [← Option.some.inj h, List.length_drop]

/-! ## Patterns of ASCII -/

/-- **A byte of ASCII in a text is one of its characters.** -/
theorem utf8_eq_append_cons {b : UInt8} (hb : b.toNat < 128) {cs : List Char}
    {before after : List UInt8} (h : utf8 cs = before ++ b :: after) :
    ∃ pre c post, cs = pre ++ c :: post ∧ utf8 pre = before ∧ utf8 post = after ∧
      c.toNat = b.toNat := by
  induction cs generalizing before with
  | nil =>
    rw [utf8_nil] at h
    exact absurd h.symm (List.append_ne_nil_of_right_ne_nil _ (List.cons_ne_nil b after))
  | cons d ds ih =>
    rw [utf8_cons, List.append_eq_append_iff] at h
    rcases h with ⟨before', rfl, hds⟩ | ⟨t, hd, ht⟩
    · obtain ⟨pre, c, post, rfl, hpre, hpost, hc⟩ := ih hds
      exact ⟨d :: pre, c, post, rfl, by rw [utf8_cons, hpre], hpost, hc⟩
    · cases t with
      | nil =>
        -- the byte comes right after the character `d`
        have hds : utf8 ds = [] ++ b :: after := ht.symm
        obtain ⟨pre, c, post, rfl, hpre, hpost, hc⟩ := ih hds
        rw [List.append_nil] at hd
        exact ⟨d :: pre, c, post, rfl, by rw [utf8_cons, hpre, List.append_nil, hd], hpost, hc⟩
      | cons a t' =>
        -- the byte is one of the bytes of `d`, so it is the only one
        rw [List.cons_append] at ht
        obtain ⟨rfl, hafter⟩ := List.cons.inj ht
        have hmem : b ∈ String.utf8EncodeChar d := by
          rw [hd]
          exact List.mem_append_right _ List.mem_cons_self
        obtain ⟨hone, hd'⟩ := utf8EncodeChar_of_lt hmem hb
        rw [hone] at hd
        have hbefore : before = [] ∧ t' = [] := by
          have hlen := congrArg List.length hd
          simp only [List.length_append, List.length_cons, List.length_nil] at hlen
          exact ⟨List.length_eq_zero_iff.mp (by omega), List.length_eq_zero_iff.mp (by omega)⟩
        rw [hbefore.2, List.nil_append] at hafter
        exact ⟨[], d, ds, rfl, hbefore.1.symm, hafter.symm, hd'⟩

theorem utf8_eq_nil_iff {cs : List Char} : utf8 cs = [] ↔ cs = [] := by
  constructor
  · intro h
    cases cs with
    | nil => rfl
    | cons c cs =>
      rw [utf8_cons, List.append_eq_nil_iff] at h
      exact absurd h.1 String.utf8EncodeChar_ne_nil
  · rintro rfl
    rfl

/-- The same for a character of ASCII that is given. -/
theorem utf8_eq_append_char {a : Char} (ha : a.toNat < 128) {cs : List Char}
    {before after : List UInt8} (h : utf8 cs = before ++ (String.utf8EncodeChar a ++ after)) :
    ∃ pre post, cs = pre ++ a :: post ∧ utf8 pre = before ∧ utf8 post = after := by
  have hbyte : (UInt8.ofNat a.toNat).toNat = a.toNat := toNat_ofNat_of_lt (by omega)
  rw [utf8EncodeChar_ascii ha] at h
  obtain ⟨pre, c, post, hcs, hpre, hpost, hc⟩ := utf8_eq_append_cons (by omega) h
  obtain rfl : c = a := Char.toNat_inj.mp (hc.trans hbyte)
  exact ⟨pre, post, hcs, hpre, hpost⟩

/-- A text that starts with the bytes of ASCII text starts with that text. -/
theorem utf8_eq_append_left {pattern cs : List Char} {after : List UInt8}
    (hpattern : ∀ c ∈ pattern, c.toNat < 128) (h : utf8 cs = utf8 pattern ++ after) :
    ∃ post, cs = pattern ++ post ∧ utf8 post = after := by
  induction pattern generalizing cs with
  | nil => exact ⟨cs, rfl, h⟩
  | cons a pattern ih =>
    rw [utf8_cons, List.append_assoc] at h
    have hstart : utf8 cs = [] ++ (String.utf8EncodeChar a ++ (utf8 pattern ++ after)) := h
    obtain ⟨pre, tail, rfl, hpre, htail⟩ :=
      utf8_eq_append_char (hpattern a List.mem_cons_self) hstart
    obtain ⟨post, rfl, hpost⟩ := ih (fun d hd => hpattern d (List.mem_cons_of_mem _ hd)) htail
    rw [utf8_eq_nil_iff.mp hpre]
    exact ⟨post, rfl, hpost⟩

/-- **ASCII text among the bytes of a text stands between two parts of the
text.** -/
theorem utf8_eq_append {pattern cs : List Char} {before after : List UInt8}
    (hpattern : ∀ c ∈ pattern, c.toNat < 128) (hne : pattern ≠ [])
    (h : utf8 cs = before ++ utf8 pattern ++ after) :
    ∃ pre post, cs = pre ++ pattern ++ post ∧ utf8 pre = before ∧ utf8 post = after := by
  obtain ⟨a, rest, rfl⟩ := List.exists_cons_of_ne_nil hne
  rw [utf8_cons, List.append_assoc, List.append_assoc] at h
  obtain ⟨pre, tail, rfl, hpre, htail⟩ := utf8_eq_append_char (hpattern a List.mem_cons_self) h
  obtain ⟨post, rfl, hpost⟩ :=
    utf8_eq_append_left (fun d hd => hpattern d (List.mem_cons_of_mem _ hd)) htail
  exact ⟨pre, post, by rw [List.append_assoc]; rfl, hpre, hpost⟩

/-- **A pattern of ASCII is found where it is among the characters.** -/
theorem find_utf8 {pattern : List Char} (hpattern : ∀ c ∈ pattern, c.toNat < 128)
    (hne : pattern ≠ []) (cs : List Char) :
    find (utf8 pattern) (utf8 cs) =
      (cs.dropInfix? pattern).map (fun parts => (utf8 parts.1).length) := by
  unfold find
  cases hfound : cs.dropInfix? pattern with
  | none =>
    have hnot : ¬ utf8 pattern <:+: utf8 cs := by
      rintro ⟨before, after, h⟩
      obtain ⟨pre, post, hcs, -, -⟩ := utf8_eq_append hpattern hne h.symm
      exact dropInfix?_none_iff.mp hfound ⟨pre, post, hcs.symm⟩
    rw [dropInfix?_none_iff.mpr hnot]
    rfl
  | some parts =>
    obtain ⟨pre, post⟩ := parts
    obtain ⟨hcs, hmin⟩ := dropInfix?_some_iff.mp hfound
    have hbytes : (utf8 cs).dropInfix? (utf8 pattern) = some (utf8 pre, utf8 post) := by
      refine dropInfix?_some_iff.mpr ⟨by rw [hcs, utf8_append, utf8_append], ?_⟩
      intro before after h
      obtain ⟨pre', post', hcs', rfl, -⟩ := utf8_eq_append hpattern hne h
      -- the shorter of two starts of one text is a start of the longer
      have hle := hmin pre' post' hcs'
      have hpre : pre <+: cs := ⟨pattern ++ post, by rw [hcs, List.append_assoc]⟩
      have hpre' : pre' <+: cs := ⟨pattern ++ post', by rw [hcs', List.append_assoc]⟩
      obtain ⟨more, rfl⟩ := List.prefix_of_prefix_length_le hpre hpre' hle
      rw [utf8_append, List.length_append]
      omega
    rw [hbytes]
    rfl

/-! ## Slices between characters -/

/-- The first byte of a character is a boundary. -/
theorem isBoundaryByte_head (c : Char) :
    ∃ b bytes, String.utf8EncodeChar c = b :: bytes ∧ isBoundaryByte b = true := by
  have hbyte : ∀ n, n < 128 ∨ 192 ≤ n → n < 256 → isBoundaryByte (UInt8.ofNat n) = true := by
    intro n hn hlt
    unfold isBoundaryByte
    rw [toNat_ofNat_of_lt hlt, Bool.or_eq_true, decide_eq_true_eq, decide_eq_true_eq]
    exact hn
  unfold String.utf8EncodeChar
  simp only
  split_ifs with h₁ h₂ h₃
  · exact ⟨_, _, rfl, hbyte _ (by omega) (by omega)⟩
  · exact ⟨_, _, rfl, hbyte _ (by omega) (by omega)⟩
  · exact ⟨_, _, rfl, hbyte _ (by omega) (by omega)⟩
  · exact ⟨_, _, rfl, hbyte _ (by omega) (by omega)⟩

theorem isCharBoundary_utf8 (pre post : List Char) :
    isCharBoundary (utf8 pre ++ utf8 post) (utf8 pre).length = true := by
  unfold isCharBoundary
  split_ifs with h₀
  · rfl
  · rw [List.getElem?_append_right le_rfl, Nat.sub_self]
    cases post with
    | nil => simp
    | cons c post =>
      obtain ⟨b, bytes, hc, hb⟩ := isBoundaryByte_head c
      rw [utf8_cons, hc]
      exact hb

theorem sliceTo_utf8 (pre post : List Char) :
    sliceTo (utf8 pre ++ utf8 post) (utf8 pre).length = some (utf8 pre) := by
  unfold sliceTo
  rw [if_pos (isCharBoundary_utf8 pre post), List.take_left]

theorem sliceFrom_utf8 (pre post : List Char) :
    sliceFrom (utf8 pre ++ utf8 post) (utf8 pre).length = some (utf8 post) := by
  unfold sliceFrom
  rw [if_pos (isCharBoundary_utf8 pre post), List.drop_left]

/-- **The two slices at the first occurrence of a pattern.** -/
theorem slices_of_dropInfix? {cs pattern pre post : List Char}
    (h : cs.dropInfix? pattern = some (pre, post)) :
    sliceTo (utf8 cs) (utf8 pre).length = some (utf8 pre) ∧
      sliceFrom (utf8 cs) ((utf8 pre).length + (utf8 pattern).length) = some (utf8 post) := by
  have hcs := eq_of_dropInfix? h
  constructor
  · rw [hcs, utf8_append]
    exact sliceTo_utf8 pre (pattern ++ post)
  · rw [← List.length_append, ← utf8_append, hcs, ← List.append_assoc, utf8_append]
    exact sliceFrom_utf8 (pre ++ pattern) post

/-- The bytes of a text read back. -/
theorem fromUTF8?_utf8 (cs : List Char) :
    String.fromUTF8? ⟨(utf8 cs).toArray⟩ = some (String.ofList cs) := by
  have hbytes : (⟨(utf8 cs).toArray⟩ : ByteArray) = cs.utf8Encode := by
    apply ByteArray.ext
    simp [List.utf8Encode, utf8]
  unfold String.fromUTF8?
  rw [dif_pos (by rw [hbytes]; exact ByteArray.IsValidUTF8.intro cs rfl)]
  congr 1
  apply String.toByteArray_inj.mp
  rw [String.toByteArray_ofList]
  exact hbytes

end InferQos
