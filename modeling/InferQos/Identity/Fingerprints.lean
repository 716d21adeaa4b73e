import InferQos.Common.Utf8
import InferQos.Identity.Certificate
import Mathlib.Data.Bool.AllAny
/-!
# Fingerprints that can be matched

Three crates have to agree on the text of a fingerprint: the configuration
checks the keys of the mappings, the acceptor renders digests, and the
resolver looks a rendered digest up. The check takes hexadecimal digits of
either case and the acceptor renders lower case, so a key with a capital is
accepted and never found.
-/

namespace InferQos

namespace Identity

/-- The digits a digest is rendered in. -/
def lowerDigits : List Char := "0123456789abcdef".toList

/-- The digits the check takes besides. -/
def capitalDigits : List Char := "ABCDEF".toList

/-! ## What is rendered -/

theorem hexDigit_mem {n : ℕ} (h : n < 16) : hexDigit n ∈ lowerDigits := by
  have hall : ∀ n : Fin 16, hexDigit n ∈ lowerDigits := by decide
  exact hall ⟨n, h⟩

theorem exists_hexDigit {c : Char} (h : c ∈ lowerDigits) : ∃ n < 16, hexDigit n = c := by
  have hall : ∀ c ∈ lowerDigits, ∃ n < 16, hexDigit n = c :=
    List.all_iff_forall_prop.mp (by decide)
  exact hall c h

/-- The two digits of a byte. -/
def pair (b : UInt8) : List Char := [hexDigit (b.toNat / 16), hexDigit (b.toNat % 16)]

theorem hex_toList (digest : List UInt8) : (hex digest).toList = digest.flatMap pair :=
  String.toList_ofList

theorem mem_lowerDigits_of_hex {digest : List UInt8} {c : Char} (h : c ∈ (hex digest).toList) :
    c ∈ lowerDigits := by
  rw [hex_toList] at h
  obtain ⟨b, -, hb⟩ := List.mem_flatMap.mp h
  have hlt := b.toNat_lt
  rcases List.mem_cons.mp hb with rfl | hb
  · exact hexDigit_mem (by omega)
  · rw [List.mem_singleton.mp hb]
    exact hexDigit_mem (by omega)

/-- Two digits are those of a byte. -/
theorem exists_pair {c d : Char} (hc : c ∈ lowerDigits) (hd : d ∈ lowerDigits) :
    ∃ b, pair b = [c, d] := by
  obtain ⟨m, hm, rfl⟩ := exists_hexDigit hc
  obtain ⟨n, hn, rfl⟩ := exists_hexDigit hd
  have hbyte : (UInt8.ofNat (16 * m + n)).toNat = 16 * m + n := toNat_ofNat_of_lt (by omega)
  refine ⟨UInt8.ofNat (16 * m + n), ?_⟩
  unfold pair
  rw [hbyte, show (16 * m + n) / 16 = m by omega, show (16 * m + n) % 16 = n by omega]

/-- An even number of digits are those of some bytes. -/
theorem exists_flatMap_pair (n : ℕ) {cs : List Char} (hlen : cs.length = 2 * n)
    (h : ∀ c ∈ cs, c ∈ lowerDigits) :
    ∃ digest : List UInt8, digest.length = n ∧ digest.flatMap pair = cs := by
  induction n generalizing cs with
  | zero => exact ⟨[], rfl, (List.eq_nil_of_length_eq_zero hlen).symm⟩
  | succ n ih =>
    match cs, hlen, h with
    | c :: d :: cs, hlen, h =>
      have hrest : ∀ e ∈ cs, e ∈ lowerDigits := fun e he =>
        h e (List.mem_cons_of_mem _ (List.mem_cons_of_mem _ he))
      obtain ⟨digest, hdigest, rfl⟩ := ih (by simp at hlen; omega) hrest
      obtain ⟨b, hb⟩ := exists_pair (h c List.mem_cons_self)
        (h d (List.mem_cons_of_mem _ List.mem_cons_self))
      exact ⟨b :: digest, by rw [List.length_cons, hdigest], by rw [List.flatMap_cons, hb]; rfl⟩

/-- **The texts of digests**: 64 digits in lower case. -/
theorem exists_digest_iff (key : String) :
    (∃ digest : List UInt8, digest.length = 32 ∧ hex digest = key) ↔
      key.toList.length = 64 ∧ ∀ c ∈ key.toList, c ∈ lowerDigits := by
  constructor
  · rintro ⟨digest, hlen, rfl⟩
    refine ⟨?_, fun c hc => mem_lowerDigits_of_hex hc⟩
    rw [hex_toList]
    simp [pair, hlen]
  · rintro ⟨hlen, hall⟩
    obtain ⟨digest, hdigest, heq⟩ := exists_flatMap_pair 32 hlen hall
    refine ⟨digest, hdigest, ?_⟩
    rw [← String.toList_inj, hex_toList, heq]

/-! ## What is accepted -/

/-- The digits the check takes. -/
def digits : List Char := lowerDigits ++ capitalDigits

theorem toNat_lt_of_digit {c : Char} (h : c ∈ digits) : c.toNat < 128 := by
  have hall : ∀ c ∈ digits, c.toNat < 128 := List.all_iff_forall_prop.mp (by decide)
  exact hall c h

theorem isAsciiHexdigit_iff {b : UInt8} :
    Config.isAsciiHexdigit b = true ↔ ∃ c ∈ digits, b = UInt8.ofNat c.toNat := by
  have hall : ∀ n : Fin 256, Config.isAsciiHexdigit (UInt8.ofNat n) =
      digits.any fun c => decide (UInt8.ofNat n = UInt8.ofNat c.toNat) := by
    decide +kernel
  have hb := hall ⟨b.toNat, b.toNat_lt⟩
  rw [UInt8.ofNat_toNat] at hb
  rw [hb]
  exact List.any_iff_exists_prop

/-- A character all of whose bytes are digits is a digit, of one byte. -/
theorem digit_iff (c : Char) :
    (∀ b ∈ String.utf8EncodeChar c, Config.isAsciiHexdigit b = true) ↔ c ∈ digits := by
  constructor
  · intro hall
    obtain ⟨b, hb⟩ := List.exists_mem_of_ne_nil _ (String.utf8EncodeChar_ne_nil (c := c))
    obtain ⟨d, hd, rfl⟩ := isAsciiHexdigit_iff.mp (hall b hb)
    have hlt := toNat_lt_of_digit hd
    have hbyte : (UInt8.ofNat d.toNat).toNat = d.toNat := toNat_ofNat_of_lt (by omega)
    have hc := (utf8EncodeChar_of_lt hb (by omega)).2
    rw [hbyte] at hc
    rwa [Char.toNat_inj.mp hc]
  · intro hc b hb
    rw [utf8EncodeChar_ascii (toNat_lt_of_digit hc), List.mem_singleton] at hb
    exact isAsciiHexdigit_iff.mpr ⟨c, hc, hb⟩

/-- **The keys the configuration accepts**: 64 digits of either case. -/
theorem checkFingerprint_iff (ext : External) (key : String) :
    Config.checkFingerprint ext key = .ok () ↔
      key.toList.length = 64 ∧ ∀ c ∈ key.toList, c ∈ digits := by
  have hbytes : (∀ b ∈ utf8 key.toList, Config.isAsciiHexdigit b = true) ↔
      ∀ c ∈ key.toList, c ∈ digits := by
    simp only [utf8, List.mem_flatMap, forall_exists_index, and_imp, ← digit_iff]
    exact ⟨fun h c hc b hb => h b c hc hb, fun h b c hc hb => h c hc b hb⟩
  have hlen : (∀ c ∈ key.toList, c ∈ digits) → (utf8 key.toList).length = key.toList.length := by
    intro hall
    unfold utf8
    rw [List.length_flatMap, List.map_congr_left (g := fun _ => 1)]
    · simp
    · intro c hc
      rw [utf8EncodeChar_ascii (toNat_lt_of_digit (hall c hc)), List.length_singleton]
  have hsize : key.utf8ByteSize = (utf8 key.toList).length := by
    rw [← toUTF8_eq]
    rfl
  unfold Config.checkFingerprint
  rw [Config.refuse_ok, Bool.or_eq_false_iff, bne_eq_false_iff_eq, Bool.not_eq_false',
    List.all_eq_true, toUTF8_eq, hbytes, hsize]
  constructor
  · rintro ⟨h64, hall⟩
    exact ⟨(hlen hall).symm.trans h64, hall⟩
  · rintro ⟨h64, hall⟩
    exact ⟨(hlen hall).trans h64, hall⟩

/-! ## The three together -/

variable {F : Type}

/-- A configuration with one mapping more. -/
def withFingerprint (cfg : Config F) (key : String) (mapping : IdentityMapping) : Config F :=
  { cfg with
    identity :=
      { cfg.identity with
        mtlsCertificateSha256Mappings :=
          cfg.identity.mtlsCertificateSha256Mappings.insert key mapping } }

/-- The keys of a validated configuration are accepted. -/
theorem checkFingerprint_of_validate [Arith F] {ext : External} {cfg : Config F} {key : String}
    (h : Config.validate ext cfg = .ok ())
    (hkey : key ∈ cfg.identity.mtlsCertificateSha256Mappings.keys) :
    Config.checkFingerprint ext key = .ok () := by
  unfold Config.validate at h
  simp only [Config.bind_ok, Config.forEach_ok] at h
  obtain ⟨-, -, -, -, -, -, -, -, -, -, -, hkeys, -⟩ := h
  exact hkeys key hkey

/-- A mapping more is accepted where its key is. -/
theorem validate_withFingerprint [Arith F] {ext : External} {cfg : Config F} {key : String}
    (mapping : IdentityMapping) (h : Config.validate ext cfg = .ok ())
    (hkey : Config.checkFingerprint ext key = .ok ()) :
    Config.validate ext (withFingerprint cfg key mapping) = .ok () := by
  unfold Config.validate at h ⊢
  simp only [Config.bind_ok, Config.forEach_ok] at h ⊢
  obtain ⟨h₁, h₂, h₃, h₄, h₅, h₆, h₇, h₈, h₉, h₁₀, h₁₁, hkeys, h₁₃⟩ := h
  refine ⟨h₁, h₂, h₃, h₄, h₅, h₆, h₇, h₈, h₉, h₁₀, h₁₁, fun k hk => ?_, h₁₃⟩
  rcases OrdMap.mem_keys_insert.mp hk with rfl | hk
  · exact hkey
  · exact hkeys k hk

/-- A rendered fingerprint that is mapped is the answer. -/
theorem resolve_of_mapped (r : Resolver F) (env : String → Option String) (headers : Headers)
    (remoteIp : Option IpAddr) {key : String} {mapping : IdentityMapping}
    (h : r.config.identity.mtlsCertificateSha256Mappings.get? key = some mapping) :
    resolve r env headers remoteIp [key] = .ok (mapped mapping) := by
  have hcert : fromCertificate r [key] = some (mapped mapping) := by
    simp [fromCertificate, h]
  unfold resolve
  rw [resolveFrom_certificate.mpr hcert]
  rfl

/-- **Which configured fingerprints can be matched.** For every validated
configuration and every key of its mappings: some digest of 32 bytes is
rendered as the key, and the resolver answers it with the mapping, exactly
when the key has no capital letter; and every digest is rendered as a key
that every validated configuration may have besides. -/
theorem fingerprints_matchable_iff [Arith F] :
    (∀ ext (cfg : Config F) key mapping, Config.validate ext cfg = .ok () →
      cfg.identity.mtlsCertificateSha256Mappings.get? key = some mapping →
      ((∃ digest : List UInt8, digest.length = 32 ∧ hex digest = key ∧
          ∀ r : Resolver F, r.config = cfg → ∀ env headers remoteIp,
            resolve r env headers remoteIp [hex digest] = .ok (mapped mapping)) ↔
        ∀ c ∈ key.toList, c ∉ capitalDigits)) ∧
    ∀ ext (cfg : Config F) mapping (digest : List UInt8), Config.validate ext cfg = .ok () →
      digest.length = 32 →
        Config.validate ext (withFingerprint cfg (hex digest) mapping) = .ok () := by
  constructor
  · intro ext cfg key mapping hvalid hget
    have hmem : key ∈ cfg.identity.mtlsCertificateSha256Mappings.keys :=
      List.mem_map.mpr ⟨(key, mapping), OrdMap.get?_eq_some.mp hget, rfl⟩
    obtain ⟨h64, hdigits⟩ :=
      (checkFingerprint_iff ext key).mp (checkFingerprint_of_validate hvalid hmem)
    constructor
    · rintro ⟨digest, hlen, heq, -⟩ c hc hcapital
      have hlower := ((exists_digest_iff key).mp ⟨digest, hlen, heq⟩).2 c hc
      have happart : ∀ c ∈ lowerDigits, c ∉ capitalDigits :=
        List.all_iff_forall_prop.mp (by decide)
      exact happart c hlower hcapital
    · intro hall
      obtain ⟨digest, hlen, heq⟩ := (exists_digest_iff key).mpr ⟨h64, fun c hc =>
        (List.mem_append.mp (hdigits c hc)).resolve_right (hall c hc)⟩
      refine ⟨digest, hlen, heq, ?_⟩
      rintro r rfl env headers remoteIp
      rw [heq]
      exact resolve_of_mapped r env headers remoteIp hget
  · intro ext cfg mapping digest hvalid hlen
    obtain ⟨h64, hlower⟩ := (exists_digest_iff (hex digest)).mp ⟨digest, hlen, rfl⟩
    refine validate_withFingerprint mapping hvalid ((checkFingerprint_iff ext _).mpr ⟨h64, ?_⟩)
    exact fun c hc => List.mem_append_left _ (hlower c hc)

/-- A configuration that maps a fingerprint in capitals. -/
def capitalConfig : Config ℚ :=
  withFingerprint (Config.minimal .enforce []) (String.ofList (List.replicate 64 'A'))
    ⟨"payments", "finance", "ledger"⟩

/-- **A fingerprint in capitals is accepted and never found.** The digest it
spells is rendered in lower case, and the client stays anonymous. -/
theorem capital_fingerprint_unmatched :
    Config.validate Config.noParsers capitalConfig = .ok () ∧
      (∀ digest : List UInt8, hex digest ≠ String.ofList (List.replicate 64 'A')) ∧
      resolve ⟨capitalConfig, [], none⟩ (fun _ => none) (fun _ => none) none
          (acceptedFingerprints (fun _ => List.replicate 32 0xAA) (some [[1]])) =
        .ok ⟨"anonymous", "default", "default", false⟩ := by
  refine ⟨by decide +kernel, fun digest heq => ?_, by decide +kernel⟩
  have hmem : 'A' ∈ (hex digest).toList := by
    rw [heq, String.toList_ofList]
    exact List.mem_cons_self
  have hnot : 'A' ∉ lowerDigits := by decide
  exact hnot (mem_lowerDigits_of_hex hmem)

end Identity

end InferQos
