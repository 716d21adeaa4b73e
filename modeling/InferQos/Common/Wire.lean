import Mathlib.Algebra.BigOperators.Group.List.Basic
import Mathlib.Algebra.Order.Ring.Nat
import Mathlib.Data.List.TakeDrop
import Mathlib.Tactic.Ring
/-!
# Writing and reading bytes

Texts as they go over a wire: literals, decimal numbers, hexadecimal numbers
of a fixed width, and arrays between brackets. A `Reader` takes what it
reads off the front of its input. For each writer there is a reader, and a
lemma that the reader takes off exactly what was written, whatever follows
that cannot be taken for more of it.
-/

namespace InferQos

namespace Wire

/-- A reader takes what it reads off the front of its input. -/
abbrev Reader (α : Type) := StateT (List UInt8) Option α

variable {α β : Type}

theorem bind_of_eq_some {read : Reader α} {next : α → Reader β} {input rest : List UInt8} {a : α}
    (h : read input = some (a, rest)) : (read >>= next) input = next a rest := by
  show (read input).bind (fun p => next p.1 p.2) = next a rest
  rw [h]
  rfl

/-! ## Literals -/

/-- The bytes of a text of ASCII characters. -/
def ascii (text : String) : List UInt8 := text.toList.map fun c => UInt8.ofNat c.toNat

/-- A literal is read by comparing. -/
def literal (text : List UInt8) : Reader Unit := fun input =>
  if text.isPrefixOf input then some ((), input.drop text.length) else none

theorem literal_append (text rest : List UInt8) : literal text (text ++ rest) = some ((), rest) := by
  have hprefix : text.isPrefixOf (text ++ rest) = true :=
    List.isPrefixOf_iff_prefix.mpr (List.prefix_append text rest)
  simp [literal, hprefix]

/-! ## Hexadecimal numbers -/

/-- A digit, in lower case. -/
def hexDigit (d : ℕ) : UInt8 := if d < 10 then UInt8.ofNat (48 + d) else UInt8.ofNat (87 + d)

/-- What a digit stands for. -/
def hexValue (b : UInt8) : Option ℕ :=
  if 48 ≤ b ∧ b ≤ 57 then some (b.toNat - 48)
  else if 97 ≤ b ∧ b ≤ 102 then some (b.toNat - 87) else none

theorem hexValue_hexDigit {d : ℕ} (h : d < 16) : hexValue (hexDigit d) = some d := by
  have hall : ∀ d : Fin 16, hexValue (hexDigit d) = some d.val := by decide
  exact hall ⟨d, h⟩

/-- The last `width` digits of a number. -/
def hex : ℕ → ℕ → List UInt8
  | 0, _ => []
  | width + 1, n => hexDigit (n / 16 ^ width % 16) :: hex width n

@[simp] theorem length_hex (width n : ℕ) : (hex width n).length = width := by
  induction width with
  | zero => rfl
  | succ width ih => simp [hex, ih]

/-- `width` digits, after those that stand for `acc`. -/
def readHex : ℕ → ℕ → Reader ℕ
  | 0, acc, input => some (acc, input)
  | _ + 1, _, [] => none
  | width + 1, acc, b :: input => (hexValue b).bind fun d => readHex width (acc * 16 + d) input

theorem readHex_append (width acc n : ℕ) (rest : List UInt8) :
    readHex width acc (hex width n ++ rest) = some (acc * 16 ^ width + n % 16 ^ width, rest) := by
  induction width generalizing acc with
  | zero => simp [readHex, hex, Nat.mod_one]
  | succ width ih =>
    have hdigit : hexValue (hexDigit (n / 16 ^ width % 16)) = some (n / 16 ^ width % 16) :=
      hexValue_hexDigit (by omega)
    have hvalue : (acc * 16 + n / 16 ^ width % 16) * 16 ^ width + n % 16 ^ width =
        acc * 16 ^ (width + 1) + n % 16 ^ (width + 1) := by
      rw [Nat.mod_pow_succ]
      ring
    rw [hex, List.cons_append, readHex, hdigit, Option.bind_some, ih, hvalue]

/-! ## Decimal numbers -/

def isDigit (b : UInt8) : Bool := decide (48 ≤ b ∧ b ≤ 57)

/-- A number without leading zeros. -/
def decimal (n : ℕ) : List UInt8 := (Nat.toDigits 10 n).map fun c => UInt8.ofNat c.toNat

/-- What digits stand for. -/
def value (digits : List UInt8) : ℕ := digits.foldl (fun n b => n * 10 + (b.toNat - 48)) 0

/-- All digits there are; a leading zero stands alone. -/
def readDecimal : Reader ℕ := fun input =>
  let digits := input.takeWhile isDigit
  if digits = [] ∨ (digits.head? = some 48 ∧ 1 < digits.length) then none
  else some (value digits, input.dropWhile isDigit)

theorem digit_of_lt {d : ℕ} (h : d < 10) :
    UInt8.ofNat (Nat.digitChar d).toNat = UInt8.ofNat (48 + d) := by
  have hall : ∀ d : Fin 10, UInt8.ofNat (Nat.digitChar d).toNat = UInt8.ofNat (48 + d) := by decide
  exact hall ⟨d, h⟩

/-- The last digit comes off the end. -/
theorem decimal_eq (n : ℕ) :
    decimal n = (if n < 10 then [] else decimal (n / 10)) ++ [UInt8.ofNat (48 + n % 10)] := by
  unfold decimal
  rw [Nat.toDigits_eq_if (by omega)]
  split
  · rename_i hn
    simp [digit_of_lt hn, Nat.mod_eq_of_lt hn]
  · simp [digit_of_lt (Nat.mod_lt n (by omega : 0 < 10))]

theorem toNat_digit {d : ℕ} (h : d < 10) : (UInt8.ofNat (48 + d)).toNat = 48 + d := by
  simp only [UInt8.toNat_ofNat']
  omega

theorem isDigit_digit {d : ℕ} (h : d < 10) : isDigit (UInt8.ofNat (48 + d)) = true := by
  have hall : ∀ d : Fin 10, isDigit (UInt8.ofNat (48 + d)) = true := by decide
  exact hall ⟨d, h⟩

theorem isDigit_of_mem_decimal {n : ℕ} {b : UInt8} (h : b ∈ decimal n) : isDigit b = true := by
  induction n using Nat.strong_induction_on with
  | _ n ih =>
    rw [decimal_eq, List.mem_append, List.mem_singleton] at h
    rcases h with h | rfl
    · split at h
      · cases h
      · exact ih (n / 10) (by omega) h
    · exact isDigit_digit (by omega)

@[simp] theorem value_decimal (n : ℕ) : value (decimal n) = n := by
  induction n using Nat.strong_induction_on with
  | _ n ih =>
    have hlast := toNat_digit (show n % 10 < 10 by omega)
    rw [decimal_eq]
    split
    · simp only [value, List.nil_append, List.foldl_cons, List.foldl_nil, hlast]
      omega
    · have hih : (decimal (n / 10)).foldl (fun n b => n * 10 + (b.toNat - 48)) 0 = n / 10 :=
        ih (n / 10) (by omega)
      simp only [value, List.foldl_append, List.foldl_cons, List.foldl_nil, hlast, hih]
      omega

theorem decimal_ne_nil (n : ℕ) : decimal n ≠ [] := by
  rw [decimal_eq]
  simp

/-- A number above zero starts with another digit than zero. -/
theorem head_decimal_ne {n : ℕ} (h : 0 < n) : (decimal n).head? ≠ some 48 := by
  induction n using Nat.strong_induction_on with
  | _ n ih =>
    rw [decimal_eq]
    split
    · have hall : ∀ d : Fin 10, 0 < d.val → UInt8.ofNat (48 + d) ≠ 48 := by decide
      have hn : n % 10 = n := by omega
      rw [hn]
      simpa using hall ⟨n, by omega⟩ h
    · rw [List.head?_append_of_ne_nil _ (decimal_ne_nil _)]
      exact ih (n / 10) (by omega) (by omega)

theorem length_decimal_of_lt {n : ℕ} (h : n < 10) : (decimal n).length = 1 := by
  rw [decimal_eq, if_pos h]
  rfl

theorem length_decimal_of_ge {n : ℕ} (h : 10 ≤ n) :
    (decimal n).length = (decimal (n / 10)).length + 1 := by
  rw [decimal_eq, if_neg (by omega), List.length_append, List.length_singleton]

/-- A number is read up to the first byte that is no digit. -/
theorem readDecimal_append {n : ℕ} {rest : List UInt8} (h : ∀ b ∈ rest.head?, isDigit b = false) :
    readDecimal (decimal n ++ rest) = some (n, rest) := by
  have hdigits : ∀ b ∈ decimal n, isDigit b = true := fun b => isDigit_of_mem_decimal
  have hrest : rest.takeWhile isDigit = [] ∧ rest.dropWhile isDigit = rest := by
    cases rest with
    | nil => exact ⟨rfl, rfl⟩
    | cons b rest =>
      have hb := h b rfl
      simp [hb]
  have htake : (decimal n ++ rest).takeWhile isDigit = decimal n := by
    rw [List.takeWhile_append_of_pos hdigits, hrest.1, List.append_nil]
  have hdrop : (decimal n ++ rest).dropWhile isDigit = rest := by
    rw [List.dropWhile_append_of_pos hdigits, hrest.2]
  have hhead : ¬ ((decimal n).head? = some 48 ∧ 1 < (decimal n).length) := by
    rintro ⟨hzero, hlong⟩
    have hn : n = 0 := by
      by_contra hn
      exact head_decimal_ne (by omega) hzero
    rw [hn, length_decimal_of_lt (by omega)] at hlong
    omega
  simp only [readDecimal, htake, hdrop, decimal_ne_nil, hhead, or_self, if_false, value_decimal]

/-! ## Arrays -/

/-- Items, each after a comma. -/
def items (write : α → List UInt8) (as : List α) : List UInt8 :=
  as.flatMap fun a => ascii "," ++ write a

/-- Items between brackets, with commas. -/
def array (write : α → List UInt8) : List α → List UInt8
  | [] => ascii "[]"
  | a :: as => ascii "[" ++ write a ++ items write as ++ ascii "]"

/-- What follows the first item. -/
def readItems (item : Reader α) : ℕ → Reader (List α)
  | 0 => fun _ => none
  | fuel + 1 => fun input =>
    match literal (ascii "]") input with
    | some ((), rest) => some ([], rest)
    | none => (do
        literal (ascii ",")
        let a ← item
        let as ← readItems item fuel
        pure (a :: as)) input

/-- An array, empty if no item follows the bracket. -/
def readArray (item : Reader α) : Reader (List α) := do
  literal (ascii "[")
  fun input =>
    match item input with
    | none => (literal (ascii "]") input).map fun p => ([], p.2)
    | some (a, rest) => (readItems item rest.length rest).map fun p => (a :: p.1, p.2)

theorem length_items (write : α → List UInt8) (as : List α) :
    (items write as).length = as.length + (as.map fun a => (write a).length).sum := by
  induction as with
  | nil => rfl
  | cons a as ih =>
    have hcomma : (ascii ",").length = 1 := rfl
    unfold items at ih ⊢
    simp only [List.flatMap_cons, List.length_append, List.length_cons, List.map_cons,
      List.sum_cons, ih, hcomma]
    omega

theorem length_array (write : α → List UInt8) (as : List α) :
    (array write as).length = 2 + (as.map fun a => (write a).length).sum + (as.length - 1) := by
  cases as with
  | nil => rfl
  | cons a as =>
    have hopen : (ascii "[").length = 1 := rfl
    have hclose : (ascii "]").length = 1 := rfl
    simp only [array, List.length_append, length_items, hopen, hclose, List.map_cons, List.sum_cons,
      List.length_cons]
    omega

section

variable {item : Reader α} {write : α → List UInt8}

/-- What may follow an item: a comma or the closing bracket. -/
def EndsItem (rest : List UInt8) : Prop := rest.head? = some 44 ∨ rest.head? = some 93

theorem endsItem_items (as : List α) (rest : List UInt8) :
    EndsItem (items write as ++ (ascii "]" ++ rest)) := by
  cases as with
  | nil => exact Or.inr rfl
  | cons a as => exact Or.inl rfl

theorem readItems_append (h : ∀ a rest, EndsItem rest → item (write a ++ rest) = some (a, rest))
    (as : List α) (rest : List UInt8) {fuel : ℕ} (hfuel : as.length < fuel) :
    readItems item fuel (items write as ++ (ascii "]" ++ rest)) = some (as, rest) := by
  induction as generalizing fuel with
  | nil =>
    obtain ⟨fuel, rfl⟩ : ∃ k, fuel = k + 1 := ⟨fuel - 1, by omega⟩
    simp only [readItems, items, List.flatMap_nil, List.nil_append, literal_append]
  | cons a as ih =>
    obtain ⟨fuel, rfl⟩ : ∃ k, fuel = k + 1 := ⟨fuel - 1, by omega⟩
    have hcons : items write (a :: as) ++ (ascii "]" ++ rest) =
        ascii "," ++ (write a ++ (items write as ++ (ascii "]" ++ rest))) := by
      simp only [items, List.flatMap_cons, List.append_assoc]
    -- the item starts with a comma, so this is not the end
    have hno : literal (ascii "]")
        (ascii "," ++ (write a ++ (items write as ++ (ascii "]" ++ rest)))) = none := rfl
    simp only [List.length_cons] at hfuel
    rw [hcons]
    simp only [readItems, hno]
    rw [bind_of_eq_some (literal_append _ _), bind_of_eq_some (h a _ (endsItem_items as rest)),
      bind_of_eq_some (ih (by omega))]
    rfl

/-- **An array is read back**, if its items are wherever a comma or a
bracket follows and no item starts with the closing bracket. -/
theorem readArray_append (h : ∀ a rest, EndsItem rest → item (write a ++ rest) = some (a, rest))
    (hclose : ∀ rest, item (ascii "]" ++ rest) = none) (as : List α) (rest : List UInt8) :
    readArray item (array write as ++ rest) = some (as, rest) := by
  unfold readArray
  cases as with
  | nil =>
    show (literal (ascii "[") >>= _) (ascii "[" ++ (ascii "]" ++ rest)) = some ([], rest)
    rw [bind_of_eq_some (literal_append _ _)]
    simp only [hclose, literal_append, Option.map_some]
  | cons a as =>
    have hfuel : as.length < (items write as ++ (ascii "]" ++ rest)).length := by
      have hbracket : (ascii "]").length = 1 := rfl
      rw [List.length_append, List.length_append, length_items]
      omega
    simp only [array, List.append_assoc]
    rw [bind_of_eq_some (literal_append _ _)]
    simp only [h a _ (endsItem_items as rest), readItems_append h as rest hfuel, Option.map_some]

end

end Wire

end InferQos
