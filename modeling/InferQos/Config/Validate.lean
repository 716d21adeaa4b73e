import InferQos.Config.Model
/-!
# Semantic validation

`Config::validate`, check by check in the order of the source, with the
texts of its errors. Parsing a CIDR or a URL and formatting a string with
`{:?}` belong to other crates and are parameters.
-/

namespace InferQos

variable {F : Type}

/-- `ConfigError`; the payloads are texts. -/
inductive ConfigError
  | read (detail : String)
  | parse (detail : String)
  | semantic (text : String)
  | environment (text : String)
  deriving DecidableEq

/-- What `validate` reads of a parsed URL. -/
structure Url where
  scheme : String
  host : Option String
  deriving DecidableEq

/-- The third-party functions `validate` calls. An error is its text. -/
structure External where
  /-- Whether a text parses as an `IpNet`. -/
  parseIpNet : String → Except String Unit
  /-- `url::Url::parse`. -/
  parseUrl : String → Except String Url
  /-- `format!("{:?}", text)`. -/
  debug : String → String

namespace Config

/-- `if bad { return Err(ConfigError::Semantic(text)) }`. -/
def refuse (bad : Bool) (text : String) : Except ConfigError Unit :=
  if bad then .error (.semantic text) else .ok ()

/-- A `for` loop whose body returns the first error, or an `if let` over an
option. -/
def forEach {α : Type} (xs : List α) (check : α → Except ConfigError Unit) :
    Except ConfigError Unit :=
  xs.foldlM (fun _ x => check x) ()

/-- The three TLS paths. -/
def checkTls (tls : ServerTlsConfig) : Except ConfigError Unit :=
  forEach [("server TLS certificate", tls.certFile), ("server TLS private key", tls.keyFile),
      ("mTLS client CA", tls.clientCaFile)] fun (label, path) =>
    refuse path.isEmpty (label ++ " path cannot be empty")

/-- Every built-in class is configured. -/
def checkBuiltIn (classes : OrdMap String ServiceClassConfig) : Except ConfigError Unit :=
  forEach [ServiceClass.realtime, .interactive, .standard, .workflow, .batch] fun required =>
    refuse (classes.get? required.toString).isNone
      ("missing built-in service class " ++ required.toString)

/-- No class has a zero weight or a zero bound. -/
def checkClass (name : String) (c : ServiceClassConfig) : Except ConfigError Unit :=
  refuse (c.weight == 0 || c.maxQueued == 0)
    ("service class " ++ name ++ " must have non-zero weight and max_queued")

/-- An application's tenant and classes are configured. Its pools are not
looked at. -/
def checkApplication (cfg : Config F) (name : String) (app : ApplicationPolicy) :
    Except ConfigError Unit := do
  refuse (cfg.policies.tenants.get? app.tenant).isNone
    ("application " ++ name ++ " references unknown tenant " ++ app.tenant)
  forEach app.allowedClasses.keys fun c =>
    refuse (cfg.serviceClasses.get? c).isNone
      ("application " ++ name ++ " references unknown class " ++ c)

/-- A pool has an external adapter exactly when its provider needs one. -/
def checkAdapter (name : String) (pool : PoolConfig F) : Except ConfigError Unit := do
  refuse ((pool.provider == .externalGrpc) != pool.externalAdapter.isSome)
    ("pool " ++ name ++
      " must configure external_adapter exactly when provider is external-grpc")
  match pool.externalAdapter with
  | some (.tls _ _ _ clientCertFile clientKeyFile) =>
    refuse (clientCertFile.isSome != clientKeyFile.isSome)
      ("pool " ++ name ++
        " external adapter mTLS requires both client_cert_file and client_key_file")
  | _ => .ok ()

/-- A trusted proxy network parses. -/
def checkCidr (ext : External) (cidr : String) : Except ConfigError Unit :=
  match ext.parseIpNet cidr with
  | .error e =>
    .error (.semantic ("trusted proxy CIDR " ++ ext.debug cidr ++ " is invalid: " ++ e))
  | .ok () => .ok ()

/-- `u8::is_ascii_hexdigit`. -/
def isAsciiHexdigit (b : UInt8) : Bool :=
  (48 ≤ b && b ≤ 57) || (65 ≤ b && b ≤ 70) || (97 ≤ b && b ≤ 102)

/-- A fingerprint is 64 hexadecimal digits. -/
def checkFingerprint (ext : External) (fingerprint : String) : Except ConfigError Unit :=
  refuse (fingerprint.utf8ByteSize != 64 ||
      !fingerprint.toUTF8.data.toList.all isAsciiHexdigit)
    ("mTLS certificate fingerprint " ++ ext.debug fingerprint ++
      " must contain exactly 64 hexadecimal characters")

/-- The OIDC issuer is an HTTPS URL or on localhost, the audience is not
empty. -/
def checkOidc (ext : External) (oidc : OidcConfig) : Except ConfigError Unit :=
  match ext.parseUrl oidc.issuer with
  | .error e => .error (.semantic ("OIDC issuer is invalid: " ++ e))
  | .ok issuer => do
    refuse (issuer.scheme != "https" && issuer.host != some "localhost")
      "OIDC issuer must use HTTPS except for localhost tests"
    refuse oidc.audience.isEmpty "OIDC audience cannot be empty"

variable [Arith F]

/-- A pool's capacity is positive and its first safety factor in `[1, 4]`. -/
def checkPool (name : String) (pool : PoolConfig F) : Except ConfigError Unit := do
  refuse (!Arith.isFinite pool.capacityUnits || decide (pool.capacityUnits ≤ Arith.lit 0))
    ("pool " ++ name ++ " capacity_units must be positive")
  refuse (!Arith.contains (Arith.lit 1) (Arith.lit 4) pool.initialSafetyFactor)
    ("pool " ++ name ++ " initial_safety_factor must be in [1,4]")

/-- A tenant's shares are ordered within `[0, 1]`. Their sum over the
tenants is not looked at. -/
def checkTenant (name : String) (tenant : TenantPolicy F) : Except ConfigError Unit :=
  refuse (!Arith.contains (Arith.lit 0) (Arith.lit 1) tenant.guaranteedShare ||
      !Arith.contains tenant.guaranteedShare (Arith.lit 1) tenant.maxShare)
    ("tenant " ++ name ++ " shares must satisfy 0 <= guaranteed <= max <= 1")

/-- **`Config::validate`.** -/
def validate (ext : External) (cfg : Config F) : Except ConfigError Unit := do
  refuse (cfg.apiVersion != "inferqos.io/v1alpha1" || cfg.kind != "InferQoSConfig")
    "apiVersion must be inferqos.io/v1alpha1 and kind must be InferQoSConfig"
  refuse cfg.pools.entries.isEmpty "at least one capacity pool is required"
  refuse (cfg.server.maxBodyBytes == 0 ||
      decide (cfg.server.maxBodyBytes < cfg.server.spoolThresholdBytes))
    "body limits must be positive and spool threshold cannot exceed max body bytes"
  forEach cfg.server.tls.toList checkTls
  checkBuiltIn cfg.serviceClasses
  forEach cfg.serviceClasses.entries fun (name, c) => checkClass name c
  forEach cfg.pools.entries fun (name, pool) => checkPool name pool
  forEach cfg.policies.tenants.entries fun (name, tenant) => checkTenant name tenant
  forEach cfg.policies.applications.entries fun (name, app) => checkApplication cfg name app
  forEach cfg.pools.entries fun (name, pool) => checkAdapter name pool
  forEach cfg.identity.trustedProxyCidrs (checkCidr ext)
  forEach cfg.identity.mtlsCertificateSha256Mappings.keys (checkFingerprint ext)
  forEach cfg.identity.oidc.toList (checkOidc ext)
  refuse (decide (1 < cfg.limits.expectedReplicas) && (cfg.coordinator == .memory) &&
      !cfg.limits.allowUnsafeUncoordinatedHa)
    ("multiple replicas sharing capacity require the Valkey coordinator; set " ++
      "allow_unsafe_uncoordinated_ha only for isolated pools")

/-! ## What validation establishes -/

omit [Arith F] in
theorem refuse_ok {bad : Bool} {text : String} : refuse bad text = .ok () ↔ bad = false := by
  unfold refuse
  cases bad with
  | true => simp
  | false => simp

theorem forEach_ok {α : Type} {xs : List α} {check : α → Except ConfigError Unit} :
    forEach xs check = .ok () ↔ ∀ x ∈ xs, check x = .ok () := by
  unfold forEach
  induction xs with
  | nil => simp [pure, Except.pure]
  | cons x xs ih =>
    rw [List.foldlM_cons, List.forall_mem_cons]
    cases hx : check x with
    | error e => simp [bind, Except.bind]
    | ok u =>
      simp only [true_and]
      exact ih

theorem bind_ok {α : Type} {x : Except ConfigError Unit} {f : Unit → Except ConfigError α} {a : α} :
    (x >>= f) = .ok a ↔ x = .ok () ∧ f () = .ok a :=
  bind_eq_ok.trans Unique.exists_iff

/-- **What a validated configuration guarantees** about pools and shares. -/
structure Checked (cfg : Config F) : Prop where
  pools : ∀ e ∈ cfg.pools.entries, Arith.isFinite e.2.capacityUnits = true ∧
    ¬ e.2.capacityUnits ≤ Arith.lit 0 ∧
    Arith.contains (Arith.lit 1) (Arith.lit 4) e.2.initialSafetyFactor = true
  tenants : ∀ e ∈ cfg.policies.tenants.entries,
    Arith.contains (Arith.lit 0) (Arith.lit 1) e.2.guaranteedShare = true ∧
      Arith.contains e.2.guaranteedShare (Arith.lit 1) e.2.maxShare = true

theorem checked_of_validate {ext : External} {cfg : Config F} (h : validate ext cfg = .ok ()) :
    Checked cfg := by
  unfold validate at h
  simp only [bind_ok] at h
  obtain ⟨-, -, -, -, -, -, hpools, htenants, -⟩ := h
  rw [forEach_ok] at hpools htenants
  constructor
  · intro e he
    have hp := hpools e he
    simp only [checkPool, bind_ok, refuse_ok] at hp
    simpa [and_assoc] using hp
  · intro e he
    have ht := htenants e he
    simp only [checkTenant, refuse_ok] at ht
    simpa using ht

/-- **A validated configuration has a pool.** -/
theorem pools_of_validate {ext : External} {cfg : Config F} (h : validate ext cfg = .ok ()) :
    cfg.pools.keys ≠ [] := by
  unfold validate at h
  simp only [bind_ok, refuse_ok] at h
  obtain ⟨-, hpools, -⟩ := h
  rw [List.isEmpty_eq_false_iff] at hpools
  exact fun hkeys => hpools (List.map_eq_nil_iff.mp hkeys)

/-- **And every class.** -/
theorem classes_of_validate {ext : External} {cfg : Config F} (h : validate ext cfg = .ok ())
    (c : ServiceClass) : (cfg.serviceClasses.get? c.toString).isSome = true := by
  unfold validate at h
  simp only [bind_ok] at h
  obtain ⟨-, -, -, -, hclasses, -⟩ := h
  unfold checkBuiltIn at hclasses
  rw [forEach_ok] at hclasses
  have hmem : c ∈ [ServiceClass.realtime, .interactive, .standard, .workflow, .batch] := by
    cases c <;> decide
  have hc := hclasses c hmem
  rw [refuse_ok, Option.isNone_eq_false_iff] at hc
  exact hc

/-! ## A small configuration -/

/-- The parsers of a configuration that gives them nothing to parse. -/
def noParsers : External := ⟨fun _ => .ok (), fun _ => .ok ⟨"https", none⟩, id⟩

/-- One pool of ten units, the built-in classes, and the tenants given. -/
def minimal (mode : Mode) (tenants : List (String × TenantPolicy ℚ)) : Config ℚ where
  apiVersion := "inferqos.io/v1alpha1"
  kind := "InferQoSConfig"
  mode := mode
  server := ⟨"127.0.0.1:8080", none, 16 * 1024 * 1024, 256 * 1024⟩
  coordinator := .memory
  serviceClasses := OrdMap.ofList ([ServiceClass.realtime, .interactive, .standard, .workflow,
    .batch].map fun c => (c.toString, ⟨1, 30000000000, 60000000000, 100⟩))
  pools := OrdMap.ofList [("primary", ⟨.fake, "http://127.0.0.1:9000", none, 10, 1⟩)]
  policies := ⟨OrdMap.ofList tenants, ∅, ∅⟩
  identity := .default
  limits := .default

example : validate noParsers (minimal .enforce [("tenant", ⟨1, 1 / 2, 1, 100⟩)]) = .ok () := by
  decide +kernel

end Config

end InferQos
