import InferQos.Config.Model
/-!
# Identity resolution

The TLS acceptor's fingerprints and `IdentityResolver::resolve`. Hashing,
the verification of a token and the environment are parameters. The answer
carries the source it was found in, which the program does not keep.
-/

namespace InferQos

namespace Identity

/-- `IdentityError`; the payloads are texts. -/
inductive IdentityError
  | configuration (detail : String)
  | jwks (detail : String)
  | required
  | invalidToken
  | missingClaim (claim : String)
  deriving DecidableEq

/-- `Display for IdentityError`. -/
def IdentityError.toString : IdentityError → String
  | configuration detail => "identity configuration error: " ++ detail
  | jwks detail => "cannot load OIDC keys: " ++ detail
  | required => "authentication is required"
  | invalidToken => "invalid bearer token"
  | missingClaim claim => "verified token is missing required claim " ++ claim

/-- `IpAddr`. -/
inductive IpAddr
  | v4 (bits : BitVec 32)
  | v6 (bits : BitVec 128)
  deriving DecidableEq

/-- `IpNet`: an address and the length of its prefix. -/
inductive IpNet
  | v4 (bits : BitVec 32) (len : ℕ)
  | v6 (bits : BitVec 128) (len : ℕ)
  deriving DecidableEq

/-- `IpNet::contains`: one family, and one prefix. -/
def IpNet.contains : IpNet → IpAddr → Bool
  | v4 net len, .v4 ip => net >>> (32 - len) == ip >>> (32 - len)
  | v6 net len, .v6 ip => net >>> (128 - len) == ip >>> (128 - len)
  | _, _ => false

/-- The first value of each header, where it is text: `headers.get(name)`
followed by `to_str().ok()`. -/
abbrev Headers := String → Option String

/-- `header`: the value of a header, unless it is empty. -/
def header (headers : Headers) (name : String) : Option String :=
  (headers name).filter fun value => !value.isEmpty

/-- Where an identity came from. -/
inductive Source
  | certificate
  | san
  | forwardedHeaders
  | oidc
  | apiKey
  | anonymous
  deriving DecidableEq

/-- `IdentityResolver`, with the configuration and the networks its locks
guard. -/
structure Resolver (F : Type) where
  config : Config F
  trustedProxies : List IpNet
  /-- `OidcVerifier::verify`, where an issuer is configured. -/
  oidc : Option (String → Except IdentityError IdentityContext)

/-- `mapped`. -/
def mapped (mapping : IdentityMapping) : IdentityContext :=
  ⟨mapping.principal, mapping.tenant, mapping.application, true⟩

variable {F : Type} (r : Resolver F)

/-- The loop over the verified fingerprints: the first one that is mapped. -/
def fromCertificate (fingerprints : List String) : Option IdentityContext :=
  (fingerprints.findSome? fun fingerprint =>
    r.config.identity.mtlsCertificateSha256Mappings.get? fingerprint).map mapped

/-- `from_proxy`. -/
def fromProxy (remoteIp : Option IpAddr) : Bool :=
  remoteIp.any fun ip => r.trustedProxies.any (·.contains ip)

/-- The identity of a mapped SAN header. -/
def fromSan (headers : Headers) : Option IdentityContext :=
  ((header headers r.config.identity.trustedHeaders.clientCertSan).bind fun san =>
    r.config.identity.mtlsSanMappings.get? san).map mapped

/-- The identity of three forwarded headers. -/
def fromForwarded (headers : Headers) : Option IdentityContext :=
  let names := r.config.identity.trustedHeaders
  match header headers names.principal, header headers names.tenant,
      header headers names.application with
  | some principal, some tenant, some application => some ⟨principal, tenant, application, true⟩
  | _, _, _ => none

/-- The token of an `authorization` header. -/
def bearer (headers : Headers) : Option String :=
  (headers "authorization").bind fun value =>
    if value.startsWith "Bearer " then some (value.drop "Bearer ".length).toString else none

/-- The first API key the token equals. -/
def fromApiKey (env : String → Option String) (token : String) : Option IdentityContext :=
  (r.config.policies.apiKeys.entries.findSome? fun e =>
    if env e.1 = some token then some e.2 else none).map mapped

/-- No source answered: an error where OIDC is required. -/
def unresolved : Except IdentityError (Source × IdentityContext) :=
  if r.config.identity.oidc.any (·.required) then .error .required
  else .ok (.anonymous, ⟨"anonymous", "default", "default", false⟩)

/-- The sources behind a token, and what is left without one. -/
def fromToken (env : String → Option String) (headers : Headers) :
    Except IdentityError (Source × IdentityContext) :=
  match bearer headers with
  | none => unresolved r
  | some token =>
    match if token.toList.count '.' = 2 then r.oidc else none with
    | some verify => (verify token).map (Source.oidc, ·)
    | none =>
      match fromApiKey r env token with
      | some identity => .ok (.apiKey, identity)
      | none => unresolved r

/-- **`IdentityResolver::resolve`**, with the source of its answer. -/
def resolveFrom (env : String → Option String) (headers : Headers) (remoteIp : Option IpAddr)
    (fingerprints : List String) : Except IdentityError (Source × IdentityContext) :=
  match fromCertificate r fingerprints with
  | some identity => .ok (.certificate, identity)
  | none =>
    if fromProxy r remoteIp then
      match fromSan r headers with
      | some identity => .ok (.san, identity)
      | none =>
        match fromForwarded r headers with
        | some identity => .ok (.forwardedHeaders, identity)
        | none => fromToken r env headers
    else fromToken r env headers

/-- `IdentityResolver::resolve`. -/
def resolve (env : String → Option String) (headers : Headers) (remoteIp : Option IpAddr)
    (fingerprints : List String) : Except IdentityError IdentityContext :=
  (resolveFrom r env headers remoteIp fingerprints).map (·.2)

/-! ## The TLS acceptor -/

/-- A lowercase hexadecimal digit. -/
def hexDigit (n : ℕ) : Char := "0123456789abcdef".toList.getD n '0'

/-- `format!("{byte:02x}")` of every byte. -/
def hex (bytes : List UInt8) : String :=
  String.ofList (bytes.flatMap fun b => [hexDigit (b.toNat / 16), hexDigit (b.toNat % 16)])

/-- The fingerprint of a certificate, `digest` being SHA-256. -/
def fingerprint (digest : List UInt8 → List UInt8) (certificate : List UInt8) : String :=
  hex (digest certificate)

/-- `MtlsAcceptor::accept`: the fingerprints of the whole list the peer
sent, in its order. Without a list there are none. -/
def acceptedFingerprints (digest : List UInt8 → List UInt8)
    (peerCertificates : Option (List (List UInt8))) : List String :=
  (peerCertificates.getD []).map (fingerprint digest)

end Identity

end InferQos
