import Mathlib.Data.String.Basic
import Mathlib.Tactic.SplitIfs
/-!
# UTF-8

The bytes of a text, character by character. A byte below 128 is a
character of its own, and all bytes of any other character are above
(`utf8EncodeChar_of_lt`): so a text of ASCII is found among the bytes of
another exactly where it is found among its characters.
-/

namespace InferQos

/-- The bytes of a text. -/
def utf8 (cs : List Char) : List UInt8 := cs.flatMap String.utf8EncodeChar

@[simp] theorem utf8_nil : utf8 [] = [] := rfl

@[simp] theorem utf8_cons (c : Char) (cs : List Char) :
    utf8 (c :: cs) = String.utf8EncodeChar c ++ utf8 cs := List.flatMap_cons

@[simp] theorem utf8_append (cs ds : List Char) : utf8 (cs ++ ds) = utf8 cs ++ utf8 ds :=
  List.flatMap_append

/-- **The bytes of a string are those of its characters.** -/
theorem toUTF8_eq (s : String) : s.toUTF8.data.toList = utf8 s.toList := by
  have h : (String.ofList s.toList).toByteArray = s.toList.utf8Encode := String.toByteArray_ofList
  rw [String.ofList_toList] at h
  have hbytes : s.toUTF8 = s.toList.utf8Encode := h
  rw [hbytes]
  simp [List.utf8Encode, utf8]

theorem toNat_ofNat_of_lt {n : ℕ} (h : n < 256) : (UInt8.ofNat n).toNat = n := by
  rw [UInt8.toNat_ofNat']
  exact Nat.mod_eq_of_lt h

/-- **A byte below 128 is a character of its own.** -/
theorem utf8EncodeChar_of_lt {c : Char} {b : UInt8} (h : b ∈ String.utf8EncodeChar c)
    (hb : b.toNat < 128) : String.utf8EncodeChar c = [b] ∧ c.toNat = b.toNat := by
  have habove : ∀ n, 128 ≤ n → n < 256 → b ≠ UInt8.ofNat n := by
    intro n hn hlt heq
    have := congrArg UInt8.toNat heq
    rw [toNat_ofNat_of_lt hlt] at this
    omega
  unfold String.utf8EncodeChar at h ⊢
  simp only at h ⊢
  split_ifs at h ⊢ with h₁ h₂ h₃
  · rw [List.mem_singleton.mp h]
    have hlt : c.val.toNat < 256 := by omega
    exact ⟨rfl, (toNat_ofNat_of_lt hlt).symm⟩
  all_goals
    -- every byte of a longer encoding has its first bit set
    simp only [List.mem_cons, List.not_mem_nil, or_false] at h
  · rcases h with h | h
    · exact absurd h (habove _ (by omega) (by omega))
    · exact absurd h (habove _ (by omega) (by omega))
  · rcases h with h | h | h
    · exact absurd h (habove _ (by omega) (by omega))
    · exact absurd h (habove _ (by omega) (by omega))
    · exact absurd h (habove _ (by omega) (by omega))
  · rcases h with h | h | h | h
    · exact absurd h (habove _ (by omega) (by omega))
    · exact absurd h (habove _ (by omega) (by omega))
    · exact absurd h (habove _ (by omega) (by omega))
    · exact absurd h (habove _ (by omega) (by omega))

/-- The byte of a character of ASCII. -/
theorem utf8EncodeChar_ascii {c : Char} (h : c.toNat < 128) :
    String.utf8EncodeChar c = [UInt8.ofNat c.toNat] := by
  unfold String.utf8EncodeChar
  exact if_pos (by change c.toNat ≤ 127; omega)

theorem ne_ff_of_mem_utf8EncodeChar (c : Char) : ∀ b ∈ String.utf8EncodeChar c, b ≠ 255 := by
  have hbyte : ∀ n, n < 255 → UInt8.ofNat n ≠ 255 := by
    intro n hn heq
    have := congrArg UInt8.toNat heq
    rw [toNat_ofNat_of_lt (by omega)] at this
    simp only [UInt8.reduceToNat] at this
    omega
  have hend : ∀ b ∈ ([] : List UInt8), b ≠ 255 := fun b hb => (List.not_mem_nil hb).elim
  unfold String.utf8EncodeChar
  simp only
  -- the lead byte is at most 247, and those after it at most 191
  split_ifs
  · exact List.forall_mem_cons.mpr ⟨hbyte _ (by omega), hend⟩
  · simp only [List.forall_mem_cons]
    exact ⟨hbyte _ (by omega), hbyte _ (by omega), hend⟩
  · simp only [List.forall_mem_cons]
    exact ⟨hbyte _ (by omega), hbyte _ (by omega), hbyte _ (by omega), hend⟩
  · simp only [List.forall_mem_cons]
    exact ⟨hbyte _ (by omega), hbyte _ (by omega), hbyte _ (by omega), hbyte _ (by omega), hend⟩

/-- **No text of UTF-8 has a byte `0xFF`.** -/
theorem fromUTF8?_of_ff {bytes : List UInt8} (h : (255 : UInt8) ∈ bytes) :
    String.fromUTF8? ⟨bytes.toArray⟩ = none := by
  unfold String.fromUTF8?
  refine dif_neg fun hvalid => ?_
  obtain ⟨cs, hcs⟩ := hvalid
  have hbytes : bytes = utf8 cs := by
    have := congrArg (fun b => b.data.toList) hcs
    simpa [List.utf8Encode, utf8] using this
  rw [hbytes] at h
  obtain ⟨c, -, hc⟩ := List.mem_flatMap.mp h
  exact ne_ff_of_mem_utf8EncodeChar c 255 hc rfl

end InferQos
