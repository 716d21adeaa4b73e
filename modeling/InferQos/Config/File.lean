import InferQos.Config.Validate
/-!
# The configuration file

`Config::from_path`: read, expand the environment, parse, validate. A
`ConfigFile` is the whole record of the file, with the sections other
modules read in part; its fields say that the parts agree. The parser of
the file format is a parameter.
-/

namespace InferQos

variable {F : Type}

deriving instance DecidableEq for PoolConfig

deriving instance DecidableEq for UpstreamConfig

/-- `OidcConfig`, with what the verification of a token reads. -/
structure OidcSection extends OidcConfig where
  jwksUrl : Option String
  principalClaim : String
  tenantClaim : String
  applicationClaim : String
  deriving DecidableEq

/-- `PoolConfig`, with the names its upstream knows it by. -/
structure PoolSection (F : Type) extends UpstreamConfig F where
  model : Option String
  deployment : Option String
  deriving DecidableEq

/-- **`Config` as the file has it.** -/
structure ConfigFile (F : Type) extends Config F where
  adminListen : String
  poolSections : OrdMap String (PoolSection F)
  oidcSection : Option OidcSection
  pools_eq : pools = poolSections.mapVal (·.toPoolConfig)
  oidc_eq : identity.oidc = oidcSection.map (·.toOidcConfig)

/-- What stands at the path of the configuration. -/
inductive StoredFile
  | missing
  | unreadable (detail : String)
  | bytes (raw : List UInt8)
  deriving DecidableEq

/-- `tokio::fs::read(&path).await.ok()`. -/
def StoredFile.read : StoredFile → Option (List UInt8)
  | bytes raw => some raw
  | _ => none

/-- A character of an environment variable's name. -/
def isNameChar (c : Char) : Bool := c.isAlphanum || c == '_'

/-- `expand_env` from one position on, either between substitutions or
within the name of one. -/
def expandFrom (debug : String → String) (env : String → Option String) :
    Option (List Char) → List Char → Except ConfigError (List Char)
  | none, [] => .ok []
  | none, '$' :: '\x7b' :: rest => expandFrom debug env (some []) rest
  | none, c :: rest => (expandFrom debug env none rest).map (c :: ·)
  | some _, [] => .error (.environment "unclosed environment substitution")
  | some key, c :: rest =>
    if c = '\x7d' then
      let name := String.ofList key
      if key.isEmpty || !key.all isNameChar then
        .error (.environment ("invalid environment variable name " ++ debug name))
      else
        match env name with
        | none =>
          .error (.environment ("required environment variable " ++ name ++ " is not set"))
        | some value => (expandFrom debug env none rest).map (value.toList ++ ·)
    else expandFrom debug env (some (key ++ [c])) rest

/-- `expand_env`. -/
def expandEnv (debug : String → String) (env : String → Option String) (input : String) :
    Except ConfigError String :=
  (expandFrom debug env none input.toList).map String.ofList

/-- What the reading of a configuration depends on besides the file. -/
structure Loader (F : Type) where
  env : String → Option String
  /-- `serde_yaml::from_str`. An error is its text. -/
  yaml : String → Except String (ConfigFile F)
  ext : External

namespace Loader

/-- `std::fs::read_to_string(path)`, with the fallback for a file that does
not exist. -/
def readToString (L : Loader F) : StoredFile → Except ConfigError String
  | .bytes raw =>
    match String.fromUTF8? ⟨raw.toArray⟩ with
    | some text => .ok text
    | none => .error (.read "stream did not contain valid UTF-8")
  | .missing =>
    match L.env "INFERQOS_CONFIG_YAML" with
    | some text => .ok text
    | none => .error (.read "No such file or directory (os error 2)")
  | .unreadable detail => .error (.read detail)

variable [Arith F]

/-- **`Config::from_path`**, given what stands at the path. -/
def fromPath (L : Loader F) (stored : StoredFile) : Except ConfigError (ConfigFile F) := do
  let raw ← L.readToString stored
  let expanded ← expandEnv L.ext.debug L.env raw
  let config ← (L.yaml expanded).mapError .parse
  Config.validate L.ext config.toConfig
  .ok config

end Loader

/-! ## Small files -/

/-- A configuration of one pool and no issuer as a file. -/
def ConfigFile.ofMinimal (config : Config ℚ)
    (hpools : config.pools = (Config.minimal .enforce []).pools)
    (hoidc : config.identity.oidc = none) : ConfigFile ℚ where
  toConfig := config
  adminListen := "127.0.0.1:9090"
  poolSections := OrdMap.ofList [("primary",
    { provider := .fake
      endpoint := "http://127.0.0.1:9000"
      externalAdapter := none
      capacityUnits := 10
      initialSafetyFactor := 1
      region := none
      auth := .none
      allowedHosts := ∅
      model := none
      deployment := none })]
  oidcSection := none
  pools_eq := by rw [hpools]; rfl
  oidc_eq := by rw [hoidc]; rfl

example : (expandEnv id (fun name => if name = "A_1" then some "x" else none)
    "a$\x7bA_1\x7db$").toOption = some "axb$" := by decide +kernel

end InferQos
