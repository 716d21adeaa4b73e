import InferQos.Common.OrdMap
import InferQos.Core
/-!
# The configuration

The record a configuration file deserialises to, with every field some
modelled function reads. A `BTreeSet` is a map to `Unit`. Paths, socket
addresses and other third-party values the program only compares or passes
on are kept as their text.
-/

namespace InferQos

/-- `Mode`. -/
inductive Mode
  | shadow
  | enforce
  deriving DecidableEq, Repr

/-- A `BTreeSet<String>`. -/
abbrev StringSet := OrdMap String Unit

namespace StringSet

/-- `BTreeSet::contains`. -/
def contains (s : StringSet) (x : String) : Bool := (s.get? x).isSome

/-- `BTreeSet::first`, which is `iter().next()`. -/
def first? (s : StringSet) : Option String := s.keys.head?

/-- A set from its elements. -/
def ofList (xs : List String) : StringSet := OrdMap.ofList (xs.map (·, ()))

theorem mem_ofList {xs : List String} {x : String} : x ∈ (ofList xs).keys ↔ x ∈ xs := by
  unfold ofList
  rw [OrdMap.mem_keys_ofList, List.map_map]
  simp [Function.comp_def]

end StringSet

/-- `ServerTlsConfig`. -/
structure ServerTlsConfig where
  certFile : String
  keyFile : String
  clientCaFile : String
  deriving DecidableEq

/-- `ServerConfig`. -/
structure ServerConfig where
  listen : String
  tls : Option ServerTlsConfig
  maxBodyBytes : ℕ
  spoolThresholdBytes : ℕ

/-- `CoordinatorConfig`. -/
inductive CoordinatorConfig
  | memory
  | valkey (urlEnv : String) (leaseTtl : ℕ)
  deriving DecidableEq

/-- `ServiceClassConfig`. -/
structure ServiceClassConfig where
  weight : ℕ
  defaultDeadline : ℕ
  maxQueue : ℕ
  maxQueued : ℕ

/-- `ProviderKind`. -/
inductive ProviderKind
  | azureOpenai
  | awsBedrock
  | gcpVertex
  | openaiCompatible
  | fake
  | externalGrpc
  deriving DecidableEq

/-- `ExternalAdapterConfig`. -/
inductive ExternalAdapterConfig
  | unix (path : String)
  | loopback (uri : String)
  | tls (uri domain caFile : String) (clientCertFile clientKeyFile : Option String)
  deriving DecidableEq

/-- `AuthConfig`. -/
inductive AuthConfig
  | none
  | apiKey (env header : String)
  | bearer (env : String)
  | ambient
  deriving DecidableEq

/-- `PoolConfig`, without what only its provider reads. -/
structure PoolConfig (F : Type) where
  provider : ProviderKind
  endpoint : String
  externalAdapter : Option ExternalAdapterConfig
  capacityUnits : F
  initialSafetyFactor : F

/-- `PoolConfig`, with what its provider reads. -/
structure UpstreamConfig (F : Type) extends PoolConfig F where
  region : Option String
  auth : AuthConfig
  allowedHosts : StringSet

/-- `TenantPolicy`. -/
structure TenantPolicy (F : Type) where
  weight : ℕ
  guaranteedShare : F
  maxShare : F
  maxConcurrency : ℕ

/-- `ApplicationPolicy`. -/
structure ApplicationPolicy where
  tenant : String
  allowedClasses : StringSet
  weight : ℕ
  maxConcurrency : ℕ
  permittedPools : StringSet

/-- `IdentityMapping`. -/
structure IdentityMapping where
  principal : String
  tenant : String
  application : String
  deriving DecidableEq

/-- `Policies`. -/
structure Policies (F : Type) where
  tenants : OrdMap String (TenantPolicy F)
  applications : OrdMap String ApplicationPolicy
  apiKeys : OrdMap String IdentityMapping

/-- `OidcConfig`, without the claim names only token verification reads. -/
structure OidcConfig where
  issuer : String
  audience : String
  required : Bool
  deriving DecidableEq

/-- `TrustedIdentityHeaders`. -/
structure TrustedIdentityHeaders where
  principal : String
  tenant : String
  application : String
  clientCertSan : String

/-- `TrustedIdentityHeaders::default`. -/
def TrustedIdentityHeaders.default : TrustedIdentityHeaders where
  principal := "x-inferqos-principal"
  tenant := "x-inferqos-tenant"
  application := "x-inferqos-application"
  clientCertSan := "x-forwarded-client-cert-san"

/-- `IdentityConfig`. -/
structure IdentityConfig where
  oidc : Option OidcConfig
  trustedProxyCidrs : List String
  trustedHeaders : TrustedIdentityHeaders
  mtlsSanMappings : OrdMap String IdentityMapping
  mtlsCertificateSha256Mappings : OrdMap String IdentityMapping

/-- `IdentityConfig::default`. -/
def IdentityConfig.default : IdentityConfig := ⟨none, [], .default, ∅, ∅⟩

/-- `Limits`. The two bounds of the queue are `usize`s. -/
structure Limits where
  totalQueueDepth : ℕ
  totalQueueBytes : ℕ
  decisionHistory : ℕ
  expectedReplicas : ℕ
  allowUnsafeUncoordinatedHa : Bool
  totalQueueDepth_le : totalQueueDepth ≤ u64Max
  totalQueueBytes_le : totalQueueBytes ≤ u64Max

/-- `Limits::default`. -/
def Limits.default : Limits where
  totalQueueDepth := 10000
  totalQueueBytes := 256 * 1024 * 1024
  decisionHistory := 2048
  expectedReplicas := 1
  allowUnsafeUncoordinatedHa := false
  totalQueueDepth_le := by decide
  totalQueueBytes_le := by decide

/-- **`Config`.** -/
structure Config (F : Type) where
  apiVersion : String
  kind : String
  mode : Mode
  server : ServerConfig
  coordinator : CoordinatorConfig
  serviceClasses : OrdMap String ServiceClassConfig
  pools : OrdMap String (PoolConfig F)
  policies : Policies F
  identity : IdentityConfig
  limits : Limits

namespace Config

variable {F : Type} (cfg : Config F)

/-- `policies.tenants.get(tenant).map_or(1, |policy| policy.max_concurrency)`. -/
def tenantConcurrency (tenant : String) : ℕ :=
  (cfg.policies.tenants.get? tenant).elim 1 (·.maxConcurrency)

/-- `policies.applications.get(application).map_or(1, |policy| policy.max_concurrency)`. -/
def applicationConcurrency (application : String) : ℕ :=
  (cfg.policies.applications.get? application).elim 1 (·.maxConcurrency)

variable [Arith F]

/-- `policy.map_or(0.0, |value| value.guaranteed_share)`. -/
def guaranteedShare (tenant : String) : F :=
  (cfg.policies.tenants.get? tenant).elim (Arith.lit 0) (·.guaranteedShare)

/-- `policy.map_or(1.0, |value| value.max_share)`. -/
def maxShare (tenant : String) : F :=
  (cfg.policies.tenants.get? tenant).elim (Arith.lit 1) (·.maxShare)

end Config

end InferQos
