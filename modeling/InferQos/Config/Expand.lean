import InferQos.Config.File
import InferQos.Common.Str
import Mathlib.Data.Bool.AllAny
import Mathlib.Data.List.Infix
/-!
# Environment expansion

`expand_env` scans its input by byte offsets: find `$` and a brace, cut the
literal off, find the closing brace, look the name up, go on behind it.
`expandTurn` is one turn of that loop and `expandLoop` the loop; a slice at
an offset within a character would panic. **The loop never panics and
returns what `expandEnv` reads character by character** (`expandLoop_utf8`).

`Reads` says what an input that expands looks like: literal texts without an
opening, and references to names that are set. A value goes to the output
as it is, and the reading goes on behind the reference, so nothing of a
value is read again.
-/

namespace InferQos

namespace Expansion

/-- The opening of a reference. -/
def opening : List Char := ['$', '\x7b']

/-- The end of a reference. -/
def closing : List Char := ['\x7d']

theorem opening_ascii : ∀ c ∈ opening, c.toNat < 128 := List.all_iff_forall_prop.mp (by decide)

theorem closing_ascii : ∀ c ∈ closing, c.toNat < 128 := List.all_iff_forall_prop.mp (by decide)

theorem opening_ne_nil : opening ≠ [] := List.cons_ne_nil _ _

theorem closing_ne_nil : closing ≠ [] := List.cons_ne_nil _ _

/-- The value of a name between the braces. -/
def lookUp (debug : String → String) (env : String → Option String) (key : String) :
    Except ConfigError String :=
  if key.toList.isEmpty || !key.toList.all isNameChar then
    .error (.environment ("invalid environment variable name " ++ debug key))
  else
    match env key with
    | none => .error (.environment ("required environment variable " ++ key ++ " is not set"))
    | some value => .ok value

/-! ## The loop of the source -/

/-- How one turn of the loop of `expand_env` ends. -/
inductive Turn
  /-- A slice at an offset that is not between two characters. -/
  | panicked
  | failed (e : ConfigError)
  | finished (out : List UInt8)
  | again (out rest : List UInt8)

variable (debug : String → String) (env : String → Option String)

/-- One turn of the loop of `expand_env`. -/
def expandTurn (out rest : List UInt8) : Turn :=
  match find (utf8 opening) rest with
  | none => .finished (out ++ rest)
  | some start =>
    match sliceTo rest start, sliceFrom rest (start + 2) with
    | some literal, some after =>
      match find (utf8 closing) after with
      | none => .failed (.environment "unclosed environment substitution")
      | some stop =>
        match (sliceTo after stop).bind (fun key => String.fromUTF8? ⟨key.toArray⟩) with
        | none => .panicked
        | some key =>
          match lookUp debug env key with
          | .error e => .failed e
          | .ok value =>
            match sliceFrom after (stop + 1) with
            | none => .panicked
            | some behind => .again (out ++ literal ++ utf8 value.toList) behind
    | _, _ => .panicked

variable {debug env}

/-- **Every turn makes the rest shorter.** -/
theorem length_lt_of_again {out rest out' rest' : List UInt8}
    (h : expandTurn debug env out rest = .again out' rest') : rest'.length < rest.length := by
  -- one branch goes on, with what is behind an opening and a closing brace
  unfold expandTurn at h
  split at h
  · exact Turn.noConfusion h
  rename_i start hstart
  have hopen := length_le_of_find hstart
  have htwo : (utf8 opening).length = 2 := by decide
  split at h
  · rename_i literal after _ hafter
    have hlen := length_sliceFrom hafter
    split at h
    · exact Turn.noConfusion h
    split at h
    · exact Turn.noConfusion h
    split at h
    · exact Turn.noConfusion h
    split at h
    · exact Turn.noConfusion h
    rename_i hbehind
    obtain ⟨-, rfl⟩ := Turn.again.inj h
    have hlen' := length_sliceFrom hbehind
    omega
  · exact Turn.noConfusion h

variable (debug env)

/-- The loop of `expand_env` from an output and a rest on. -/
def expandLoop (out rest : List UInt8) : Option (Except ConfigError (List UInt8)) :=
  match _h : expandTurn debug env out rest with
  | .panicked => none
  | .failed e => some (.error e)
  | .finished out => some (.ok out)
  | .again out rest => expandLoop out rest
termination_by rest.length
decreasing_by exact length_lt_of_again _h

theorem expandLoop_eq (out rest : List UInt8) :
    expandLoop debug env out rest =
      match expandTurn debug env out rest with
      | .panicked => none
      | .failed e => some (.error e)
      | .finished out => some (.ok out)
      | .again out rest => expandLoop debug env out rest := by
  rw [expandLoop]
  split <;> rename_i h <;> rw [h]

/-! ## How an input is cut -/

/-- **Every input is cut in one way**: at its first opening, and at the
first closing brace behind that. -/
inductive Scan : List Char → Prop
  | literal {cs : List Char} : cs.dropInfix? opening = none → Scan cs
  | unclosed {cs lit after : List Char} :
      cs.dropInfix? opening = some (lit, after) → after.dropInfix? closing = none → Scan cs
  | reference {cs lit after key rest : List Char} :
      cs.dropInfix? opening = some (lit, after) → after.dropInfix? closing = some (key, rest) →
      Scan rest → Scan cs

theorem scan (cs : List Char) : Scan cs := by
  cases hopen : cs.dropInfix? opening with
  | none => exact .literal hopen
  | some parts =>
    obtain ⟨lit, after⟩ := parts
    cases hclose : after.dropInfix? closing with
    | none => exact .unclosed hopen hclose
    | some parts =>
      obtain ⟨key, rest⟩ := parts
      have hshorter : rest.length < cs.length := by
        rw [eq_of_dropInfix? hopen, eq_of_dropInfix? hclose]
        simp only [List.length_append]
        have : opening.length = 2 := rfl
        omega
      exact .reference hopen hclose (scan rest)
termination_by cs.length

/-! ## A turn on the bytes of a text -/

theorem expandTurn_literal {cs : List Char} (hopen : cs.dropInfix? opening = none)
    (out : List UInt8) : expandTurn debug env out (utf8 cs) = .finished (out ++ utf8 cs) := by
  unfold expandTurn
  rw [find_utf8 opening_ascii opening_ne_nil, hopen]
  rfl

/-- The two slices at the first opening. -/
theorem slices_opening {cs lit after : List Char}
    (hopen : cs.dropInfix? opening = some (lit, after)) :
    sliceTo (utf8 cs) (utf8 lit).length = some (utf8 lit) ∧
      sliceFrom (utf8 cs) ((utf8 lit).length + 2) = some (utf8 after) := slices_of_dropInfix? hopen

/-- The two slices at the first closing brace. -/
theorem slices_closing {after key rest : List Char}
    (hclose : after.dropInfix? closing = some (key, rest)) :
    sliceTo (utf8 after) (utf8 key).length = some (utf8 key) ∧
      sliceFrom (utf8 after) ((utf8 key).length + 1) = some (utf8 rest) :=
  slices_of_dropInfix? hclose

theorem expandTurn_unclosed {cs lit after : List Char}
    (hopen : cs.dropInfix? opening = some (lit, after)) (hclose : after.dropInfix? closing = none)
    (out : List UInt8) :
    expandTurn debug env out (utf8 cs) =
      .failed (.environment "unclosed environment substitution") := by
  unfold expandTurn
  rw [find_utf8 opening_ascii opening_ne_nil, hopen]
  simp only [Option.map_some, (slices_opening hopen).1, (slices_opening hopen).2]
  rw [find_utf8 closing_ascii closing_ne_nil, hclose]
  rfl

theorem expandTurn_reference {cs lit after key rest : List Char}
    (hopen : cs.dropInfix? opening = some (lit, after))
    (hclose : after.dropInfix? closing = some (key, rest)) (out : List UInt8) :
    expandTurn debug env out (utf8 cs) =
      match lookUp debug env (String.ofList key) with
      | .error e => .failed e
      | .ok value => .again (out ++ utf8 lit ++ utf8 value.toList) (utf8 rest) := by
  unfold expandTurn
  rw [find_utf8 opening_ascii opening_ne_nil, hopen]
  simp only [Option.map_some, (slices_opening hopen).1, (slices_opening hopen).2]
  rw [find_utf8 closing_ascii closing_ne_nil, hclose]
  simp only [Option.map_some, (slices_closing hclose).1, (slices_closing hclose).2,
    Option.bind_some, fromUTF8?_utf8]

/-! ## The same by characters -/

/-- A character that does not open a reference is copied. -/
theorem expandFrom_cons {c : Char} {cs : List Char} (h : ¬ opening <+: c :: cs) :
    expandFrom debug env none (c :: cs) = (expandFrom debug env none cs).map (c :: ·) := by
  rw [expandFrom]
  rintro rest rfl rfl
  exact h ⟨rest, rfl⟩

/-- **A literal is copied** up to where it ends. -/
theorem expandFrom_append {lit tail : List Char} (hlit : ¬ opening <:+: lit)
    (htail : tail.head? ≠ some '\x7b') :
    expandFrom debug env none (lit ++ tail) =
      (expandFrom debug env none tail).map (lit ++ ·) := by
  induction lit with
  | nil =>
    rw [List.nil_append]
    cases expandFrom debug env none tail with
    | error e => rfl
    | ok out => rfl
  | cons c lit ih =>
    have hstart : ¬ opening <+: c :: (lit ++ tail) := by
      intro hprefix
      obtain ⟨rfl, hnext⟩ := List.cons_prefix_cons.mp hprefix
      cases lit with
      | nil =>
        obtain ⟨more, hmore⟩ := hnext
        rw [List.nil_append] at hmore
        rw [← hmore] at htail
        exact htail rfl
      | cons d lit =>
        obtain ⟨rfl, -⟩ := List.cons_prefix_cons.mp hnext
        exact hlit ⟨[], lit, rfl⟩
    rw [List.cons_append, expandFrom_cons debug env hstart,
      ih fun hin => hlit (hin.trans (List.suffix_cons c lit).isInfix)]
    cases expandFrom debug env none tail with
    | error e => rfl
    | ok out => rfl

theorem expandFrom_literal {lit : List Char} (hlit : ¬ opening <:+: lit) :
    expandFrom debug env none lit = .ok lit := by
  have hend : ([] : List Char).head? ≠ some '\x7b' := nofun
  have h := expandFrom_append debug env hlit hend
  rw [List.append_nil] at h
  rw [h, expandFrom]
  exact congrArg Except.ok (List.append_nil lit)

theorem expandFrom_opening {lit after : List Char} (hlit : ¬ opening <:+: lit) :
    expandFrom debug env none (lit ++ (opening ++ after)) =
      (expandFrom debug env (some []) after).map (lit ++ ·) := by
  rw [expandFrom_append debug env hlit (by simp [opening])]
  rfl

theorem expandFrom_unclosed {after : List Char} (hclose : '\x7d' ∉ after) (key : List Char) :
    expandFrom debug env (some key) after =
      .error (.environment "unclosed environment substitution") := by
  induction after generalizing key with
  | nil => rw [expandFrom]
  | cons c after ih =>
    have hc : c ≠ '\x7d' := fun h => hclose (h ▸ List.mem_cons_self)
    rw [expandFrom, if_neg hc]
    exact ih (fun h => hclose (List.mem_cons_of_mem _ h)) _

/-- **A name is looked up**, and its value stands before what follows. -/
theorem expandFrom_name {name : List Char} (hname : '\x7d' ∉ name) (key rest : List Char) :
    expandFrom debug env (some key) (name ++ (closing ++ rest)) =
      (lookUp debug env (String.ofList (key ++ name))).bind fun value =>
        (expandFrom debug env none rest).map (value.toList ++ ·) := by
  induction name generalizing key with
  | nil =>
    rw [List.append_nil, List.nil_append]
    change expandFrom debug env (some key) ('\x7d' :: rest) = _
    rw [expandFrom, if_pos rfl]
    simp only [lookUp, String.toList_ofList]
    split_ifs
    · rfl
    · cases env (String.ofList key) with
      | none => rfl
      | some value => rfl
  | cons c name ih =>
    have hc : c ≠ '\x7d' := fun h => hname (h ▸ List.mem_cons_self)
    rw [List.cons_append, expandFrom, if_neg hc,
      ih (fun h => hname (List.mem_cons_of_mem _ h)), List.append_assoc]
    rfl

theorem closing_infix_iff {cs : List Char} : closing <:+: cs ↔ '\x7d' ∈ cs :=
  List.singleton_infix_iff _ _

/-- What is read where a reference is not closed. -/
theorem expandFrom_of_unclosed {cs lit after : List Char}
    (hopen : cs.dropInfix? opening = some (lit, after))
    (hclose : after.dropInfix? closing = none) :
    expandFrom debug env none cs = .error (.environment "unclosed environment substitution") := by
  have hnot : '\x7d' ∉ after := fun hmem =>
    dropInfix?_none_iff.mp hclose (closing_infix_iff.mpr hmem)
  rw [eq_of_dropInfix? hopen,
    expandFrom_opening debug env (not_infix_of_dropInfix? opening_ne_nil hopen),
    expandFrom_unclosed debug env hnot]
  rfl

/-- What is read at a reference. -/
theorem expandFrom_of_reference {cs lit after key rest : List Char}
    (hopen : cs.dropInfix? opening = some (lit, after))
    (hclose : after.dropInfix? closing = some (key, rest)) :
    expandFrom debug env none cs =
      ((lookUp debug env (String.ofList key)).bind fun value =>
        (expandFrom debug env none rest).map (value.toList ++ ·)).map (lit ++ ·) := by
  have hkey : '\x7d' ∉ key := fun hmem =>
    not_infix_of_dropInfix? closing_ne_nil hclose (closing_infix_iff.mpr hmem)
  rw [eq_of_dropInfix? hopen, eq_of_dropInfix? hclose,
    expandFrom_opening debug env (not_infix_of_dropInfix? opening_ne_nil hopen),
    expandFrom_name debug env hkey]
  rfl

/-- **The loop never panics**, and returns the bytes of what is read
character by character. -/
theorem expandLoop_utf8 (cs : List Char) (out : List UInt8) :
    expandLoop debug env out (utf8 cs) =
      some ((expandFrom debug env none cs).map fun read => out ++ utf8 read) := by
  -- a turn cuts the bytes where `Scan` cuts the characters
  induction scan cs generalizing out with
  | literal hopen =>
    rw [expandLoop_eq, expandTurn_literal debug env hopen,
      expandFrom_literal debug env (dropInfix?_none_iff.mp hopen)]
    rfl
  | unclosed hopen hclose =>
    rw [expandLoop_eq, expandTurn_unclosed debug env hopen hclose,
      expandFrom_of_unclosed debug env hopen hclose]
    rfl
  | @reference cs lit after key rest hopen hclose _ ih =>
    rw [expandLoop_eq, expandTurn_reference debug env hopen hclose,
      expandFrom_of_reference debug env hopen hclose]
    cases lookUp debug env (String.ofList key) with
    | error e => rfl
    | ok value =>
      simp only [ih]
      cases expandFrom debug env none rest with
      | error e => rfl
      | ok read => simp [Except.bind, Except.map]

/-! ## What expands -/

/-- **An input and what it expands to**: literal texts without an opening,
between references to names that are set. -/
inductive Reads : List Char → List Char → Prop
  | literal {lit : List Char} : ¬ opening <:+: lit → Reads lit lit
  | reference {lit name rest out : List Char} {value : String} :
      ¬ opening <:+: lit → name ≠ [] → (∀ c ∈ name, isNameChar c = true) →
      env (String.ofList name) = some value → Reads rest out →
      Reads (lit ++ (opening ++ (name ++ (closing ++ rest)))) (lit ++ (value.toList ++ out))

theorem lookUp_ok_iff {name : List Char} {value : String} :
    lookUp debug env (String.ofList name) = .ok value ↔
      name ≠ [] ∧ (∀ c ∈ name, isNameChar c = true) ∧ env (String.ofList name) = some value := by
  unfold lookUp
  rw [String.toList_ofList]
  split_ifs with hbad
  · rw [Bool.or_eq_true, List.isEmpty_iff, Bool.not_eq_true', ← Bool.not_eq_true,
      List.all_eq_true] at hbad
    refine ⟨nofun, ?_⟩
    rintro ⟨hne, hall, -⟩
    rcases hbad with hnil | hnot
    · exact absurd hnil hne
    · exact absurd hall hnot
  · rw [Bool.or_eq_true, List.isEmpty_iff, Bool.not_eq_true', ← Bool.not_eq_true,
      List.all_eq_true, not_or, not_not] at hbad
    cases env (String.ofList name) with
    | none => simp
    | some v =>
      constructor
      · intro h
        rw [Except.ok.inj h]
        exact ⟨hbad.1, hbad.2, rfl⟩
      · rintro ⟨-, -, h⟩
        rw [Option.some.inj h]

theorem not_mem_of_isNameChar {name : List Char} (h : ∀ c ∈ name, isNameChar c = true) :
    '\x7d' ∉ name := by
  intro hmem
  exact absurd (h _ hmem) (by decide)

/-- **The scanner accepts what reads, and returns what it reads as.** -/
theorem expandFrom_ok_iff {cs out : List Char} :
    expandFrom debug env none cs = .ok out ↔ Reads env cs out := by
  constructor
  · intro h
    induction scan cs generalizing out with
    | @literal cs hopen =>
      have hlit := dropInfix?_none_iff.mp hopen
      rw [expandFrom_literal debug env hlit] at h
      rw [← Except.ok.inj h]
      exact .literal hlit
    | @unclosed cs lit after hopen hclose =>
      rw [expandFrom_of_unclosed debug env hopen hclose] at h
      exact nomatch h
    | @reference cs lit after key rest hopen hclose _ ih =>
      have hlit := not_infix_of_dropInfix? opening_ne_nil hopen
      rw [expandFrom_of_reference debug env hopen hclose] at h
      cases hkey : lookUp debug env (String.ofList key) with
      | error e =>
        rw [hkey] at h
        exact nomatch h
      | ok value =>
        obtain ⟨hne, hall, henv⟩ := (lookUp_ok_iff debug env).mp hkey
        rw [hkey] at h
        cases hrest : expandFrom debug env none rest with
        | error e =>
          rw [hrest] at h
          exact nomatch h
        | ok read =>
          rw [hrest] at h
          rw [eq_of_dropInfix? hopen, eq_of_dropInfix? hclose, ← Except.ok.inj h]
          exact .reference hlit hne hall henv (ih hrest)
  · intro h
    induction h with
    | literal hlit => exact expandFrom_literal debug env hlit
    | reference hlit hne hall henv _ ih =>
      rw [expandFrom_opening debug env hlit,
        expandFrom_name debug env (not_mem_of_isNameChar hall), List.nil_append,
        (lookUp_ok_iff debug env).mpr ⟨hne, hall, henv⟩]
      simp only [Except.bind, ih]
      rfl

/-- **Environment expansion is exact**: the loop of the source ends without
a panic and returns what `expandEnv` does; that succeeds exactly for the
inputs that read as literals and references, with what they read as; and
an input without an opening is returned unchanged. -/
theorem expandEnv_exact (input : String) :
    expandLoop debug env [] (utf8 input.toList) =
        some ((expandEnv debug env input).map fun out => utf8 out.toList) ∧
      (∀ out, expandEnv debug env input = .ok out ↔ Reads env input.toList out.toList) ∧
      (¬ opening <:+: input.toList → expandEnv debug env input = .ok input) := by
  refine ⟨?_, fun out => ?_, fun hlit => ?_⟩
  · rw [expandLoop_utf8]
    unfold expandEnv
    cases expandFrom debug env none input.toList with
    | error e => rfl
    | ok out => simp [Except.map]
  · rw [← expandFrom_ok_iff debug]
    unfold expandEnv
    cases expandFrom debug env none input.toList with
    | error e => exact ⟨nofun, nofun⟩
    | ok read =>
      simp only [Except.map, Except.ok.injEq]
      constructor
      · rintro rfl
        exact String.toList_ofList.symm
      · rintro rfl
        exact String.ofList_toList
  · unfold expandEnv
    rw [expandFrom_literal debug env hlit]
    exact congrArg Except.ok String.ofList_toList

end Expansion

end InferQos
