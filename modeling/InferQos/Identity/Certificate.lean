import InferQos.Config.Validate
import InferQos.Identity.Model
/-!
# Whose certificate an identity belongs to

A completed handshake proves possession of the key of the first
certificate of the list and of no other. The acceptor hashes the whole
list, and the resolver takes the first fingerprint it finds mapped: a
client whose own certificate is not mapped can append one that is.
-/

namespace InferQos

namespace Identity

variable {F : Type}

/-- **The identity is the proven one**: an answer out of the certificate
mappings is the mapping of the end-entity certificate. -/
def ProvenIdentity (r : Resolver F) (digest : List UInt8 → List UInt8)
    (env : String → Option String) (headers : Headers) (remoteIp : Option IpAddr)
    (peerCertificates : Option (List (List UInt8))) : Prop :=
  ∀ identity,
    resolveFrom r env headers remoteIp (acceptedFingerprints digest peerCertificates) =
        .ok (.certificate, identity) →
      ∃ leaf rest mapping, peerCertificates = some (leaf :: rest) ∧
        r.config.identity.mtlsCertificateSha256Mappings.get? (fingerprint digest leaf) =
          some mapping ∧
        identity = mapped mapping

/-- No source behind the certificates answers in their name. -/
theorem fromToken_source {r : Resolver F} {env : String → Option String} {headers : Headers}
    {identity : IdentityContext} : fromToken r env headers ≠ .ok (.certificate, identity) := by
  have hun : unresolved r ≠ .ok (.certificate, identity) := by
    unfold unresolved
    split
    · simp
    · simp
  unfold fromToken
  split
  · exact hun
  · rename_i token htoken
    split
    · rename_i verify hverify
      cases verify token with
      | error e => simp [Except.map]
      | ok identity' => simp [Except.map]
    · split
      · simp
      · exact hun

/-- **The certificates answer exactly through the first mapped
fingerprint.** -/
theorem resolveFrom_certificate {r : Resolver F} {env : String → Option String}
    {headers : Headers} {remoteIp : Option IpAddr} {fingerprints : List String}
    {identity : IdentityContext} :
    resolveFrom r env headers remoteIp fingerprints = .ok (.certificate, identity) ↔
      fromCertificate r fingerprints = some identity := by
  unfold resolveFrom
  split
  · rename_i identity' hcert
    simp [hcert]
  · rename_i hcert
    rw [hcert]
    simp only [reduceCtorEq, iff_false]
    split
    · split
      · simp
      · split
        · simp
        · exact fromToken_source
    · exact fromToken_source

/-- **The proven identity is kept exactly when the end-entity certificate
is mapped, or none of the list is.** -/
theorem proven_identity_iff (r : Resolver F) (digest : List UInt8 → List UInt8)
    (env : String → Option String) (headers : Headers) (remoteIp : Option IpAddr)
    (peerCertificates : Option (List (List UInt8))) :
    ProvenIdentity r digest env headers remoteIp peerCertificates ↔
      (∃ leaf, (peerCertificates.getD []).head? = some leaf ∧
          (r.config.identity.mtlsCertificateSha256Mappings.get?
            (fingerprint digest leaf)).isSome) ∨
        ∀ certificate ∈ peerCertificates.getD [],
          r.config.identity.mtlsCertificateSha256Mappings.get?
            (fingerprint digest certificate) = none := by
  unfold ProvenIdentity
  simp only [resolveFrom_certificate, fromCertificate, acceptedFingerprints]
  rw [List.findSome?_map]
  generalize r.config.identity.mtlsCertificateSha256Mappings = table
  rcases peerCertificates with _ | (_ | ⟨leaf, rest⟩)
  · simp
  · simp
  simp only [Option.getD_some, List.head?_cons, Option.some.injEq, exists_eq_left',
    List.mem_cons, forall_eq_or_imp]
  cases hleaf : table.get? (fingerprint digest leaf) with
  | some mapping =>
    -- the loop stops at the first certificate
    simp only [Option.isSome_some, true_or, iff_true]
    intro identity hid
    rw [List.findSome?_cons] at hid
    simp only [Function.comp_apply, hleaf, Option.map_some, Option.some.injEq] at hid
    exact ⟨leaf, rest, mapping, rfl, hleaf, hid.symm⟩
  | none =>
    simp only [Option.isSome_none, Bool.false_eq_true, true_and, false_or]
    rw [List.findSome?_cons]
    simp only [Function.comp_apply, hleaf]
    constructor
    · intro hproven certificate hmem
      by_contra hcon
      -- a later certificate is mapped: the loop returns some mapping, and the leaf has none
      have hsome : (rest.findSome? (table.get? ∘ fingerprint digest)).isSome := by
        rw [List.findSome?_isSome_iff]
        exact ⟨certificate, hmem, Option.isSome_iff_ne_none.mpr hcon⟩
      obtain ⟨mapping, hmapping⟩ := Option.isSome_iff_exists.mp hsome
      obtain ⟨leaf', rest', mapping', heq, hget, -⟩ :=
        hproven (mapped mapping) (by rw [hmapping]; rfl)
      obtain ⟨rfl, -⟩ := List.cons.inj heq
      rw [hleaf] at hget
      cases hget
    · intro hnone identity hid
      have hfind : rest.findSome? (table.get? ∘ fingerprint digest) = none :=
        List.findSome?_eq_none_iff.mpr hnone
      rw [hfind] at hid
      cases hid

/-! ## An appended certificate -/

/-- A digest of 32 bytes that tells the certificates below apart. -/
def sampleDigest (certificate : List UInt8) : List UInt8 :=
  (certificate ++ List.replicate 32 0).take 32

/-- A table with one mapped certificate. -/
def sampleResolver : Resolver ℚ where
  config :=
    { Config.minimal .enforce [] with
      identity :=
        { IdentityConfig.default with
          mtlsCertificateSha256Mappings :=
            OrdMap.ofList [(fingerprint sampleDigest [2], ⟨"payments", "finance", "ledger"⟩)] } }
  trustedProxies := []
  oidc := none

/-- **A client takes the identity of a certificate it appends**: its own
certificate is not mapped, the second of the list is, and its key was never
asked for. The configuration is a valid one. -/
theorem appended_certificate_is_adopted :
    Config.validate Config.noParsers sampleResolver.config = .ok () ∧
      ¬ ProvenIdentity sampleResolver sampleDigest (fun _ => none) (fun _ => none) none
        (some [[1], [2]]) := by
  refine ⟨by decide +kernel, fun h => ?_⟩
  obtain ⟨leaf, rest, mapping, heq, hget, -⟩ :=
    h ⟨"payments", "finance", "ledger", true⟩ (by decide +kernel)
  obtain ⟨rfl, -⟩ := List.cons.inj (Option.some.inj heq)
  have hnone : sampleResolver.config.identity.mtlsCertificateSha256Mappings.get?
      (fingerprint sampleDigest [1]) = none := by decide +kernel
  rw [hnone] at hget
  cases hget

end Identity

end InferQos
