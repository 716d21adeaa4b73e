import InferQos.Common.WebUrl
import InferQos.Config.Model
/-!
# The HTTP provider and its origin

`HttpProvider::from_config` checks the endpoint of a pool once, and
`target` resolves the path of each request against it. The path comes from
the client and is read as a URL reference after its leading slashes are
gone, so it can spell out a URL of its own. `target` compares the host of
the result with the endpoint's, and neither the scheme nor the port:
`upstream_confined_iff` is the exact boundary.
-/

namespace InferQos

namespace Providers

/-! ## The provider -/

/-- A `HeaderMap`: values under names in lower case. -/
abbrev HeaderMap := List (String × String)

/-- `HeaderMap::insert`, which replaces. -/
def HeaderMap.insert (headers : HeaderMap) (name value : String) : HeaderMap :=
  headers.filter (·.1 != name) ++ [(name, value)]

/-- A request about to be sent. -/
structure Outbound where
  method : String
  url : WebUrl
  headers : HeaderMap
  body : List UInt8

/-- `ResolvedAuth`. The credentials of a cloud are asked for each request:
they produce headers, and the path with the query parameters a signature
adds to it. -/
inductive ResolvedAuth
  | none
  | header (name value : String)
  | bearer (value : String)
  | ambient (sign : Outbound → Except String (HeaderMap × List Char))

/-- What the provider takes from other crates and from its environment. An
error is its text. -/
structure Environment where
  /-- The host parser of `url`, told whether the scheme is special. -/
  parseHost : Bool → String → Except String String
  /-- `std::env::var`. -/
  var : String → Option String
  /-- `HeaderName::from_bytes`. -/
  headerName : String → Option String
  /-- Whether `HeaderValue::from_str` accepts a text. -/
  isHeaderValue : String → Bool
  /-- `ambient_auth`. -/
  ambientAuth : ProviderKind → Option String → Except String ResolvedAuth
  /-- `Client::builder().build()`. -/
  client : Except String Unit

/-- `HttpProvider`, without its client and its cost coefficient. -/
structure HttpProvider where
  name : String
  endpoint : WebUrl
  auth : ResolvedAuth
  allowedHosts : StringSet

/-- The closure `from_header` of `resolve_auth`. -/
def fromHeader (env : Environment) (header var : String) (bearer : Bool) :
    Except String ResolvedAuth :=
  match env.var var with
  | none => .error ("authentication environment variable " ++ var ++ " is not set")
  | some value =>
    if bearer then
      if env.isHeaderValue ("Bearer " ++ value) then .ok (.bearer ("Bearer " ++ value))
      else .error (var ++ " contains invalid header bytes")
    else
      match env.headerName header with
      | none => .error "invalid auth header name"
      | some name =>
        if env.isHeaderValue value then .ok (.header name value)
        else .error (var ++ " contains invalid header bytes")

/-- `resolve_auth`. -/
def resolveAuth (env : Environment) (auth : AuthConfig) (provider : ProviderKind)
    (region : Option String) : Except String ResolvedAuth :=
  match auth with
  | .none => .ok .none
  | .apiKey var header => fromHeader env header var false
  | .bearer var => fromHeader env "authorization" var true
  | .ambient => env.ambientAuth provider region

/-- The names of the providers. -/
def providerName : ProviderKind → String
  | .azureOpenai => "azure-openai"
  | .awsBedrock => "aws-bedrock"
  | .gcpVertex => "gcp-vertex"
  | .openaiCompatible => "openai-compatible"
  | .fake => "fake"
  -- refused before it is named
  | .externalGrpc => ""

variable {F : Type}

/-- **`HttpProvider::from_config`.** -/
def fromConfig (env : Environment) (config : UpstreamConfig F) : Except String HttpProvider :=
  if config.provider = .externalGrpc then
    .error "external-grpc pools must be constructed by the provider protocol runtime"
  else
    match WebUrl.parse env.parseHost config.endpoint with
    | .error e => .error ("invalid upstream endpoint: " ++ e.toString)
    | .ok endpoint =>
      if endpoint.scheme ≠ "https" ∧ config.provider ≠ .fake ∧
          endpoint.host ≠ some "127.0.0.1" ∧ endpoint.host ≠ some "localhost" then
        .error "upstream must use HTTPS except for loopback development endpoints"
      else if config.allowedHosts.keys ≠ [] ∧ ¬ endpoint.host.any config.allowedHosts.contains then
        .error ("upstream host " ++ endpoint.host.getD "<none>" ++ " is not in allowed_hosts")
      else
        match resolveAuth env config.auth config.provider config.region with
        | .error e => .error e
        | .ok auth =>
          match env.client with
          | .error e => .error e
          | .ok () => .ok ⟨providerName config.provider, endpoint, auth, config.allowedHosts⟩

/-- `path.trim_start_matches('/')`. -/
def reference (path : String) : String := String.ofList (path.toList.dropWhile (· == '/'))

/-- **`HttpProvider::target`.** -/
def HttpProvider.target (env : Environment) (p : HttpProvider) (path : String) :
    Except String WebUrl :=
  match WebUrl.join env.parseHost p.endpoint (reference path) with
  | .error e => .error ("cannot join upstream URL: " ++ e.toString)
  | .ok url =>
    if url.host ≠ p.endpoint.host then .error "dynamic upstream host changes are forbidden"
    else if p.allowedHosts.keys ≠ [] ∧ ¬ url.host.any p.allowedHosts.contains then
      .error "resolved upstream is outside allowed_hosts"
    else .ok url

/-- `is_forwardable`. -/
def isForwardable (name : String) : Bool :=
  !(["connection", "keep-alive", "proxy-authenticate", "proxy-authorization", "te", "trailer",
    "transfer-encoding", "upgrade", "host", "authorization", "api-key", "x-inferqos-class",
    "x-inferqos-deadline-ms", "x-inferqos-tenant", "x-inferqos-application",
    "x-inferqos-queueable"].contains name)

/-- `apply_auth`. -/
def applyAuth (request : Outbound) : ResolvedAuth → Except String Outbound
  | .none => .ok request
  | .header name value => .ok { request with headers := request.headers.insert name value }
  | .bearer value => .ok { request with headers := request.headers.insert "authorization" value }
  | .ambient sign =>
    match sign request with
    | .error e => .error e
    | .ok (headers, tail) =>
      .ok { request with
        url := { request.url with tail := tail }
        headers := headers.foldl (fun h (name, value) => h.insert name value) request.headers }

/-- `ProxyRequest`, as far as `dispatch` reads it. -/
structure ProxyRequest where
  method : String
  pathAndQuery : Option String
  headers : HeaderMap
  body : List UInt8

/-- **`HttpProvider::dispatch`**, up to the request it sends. What the
client makes of a user name in the URL is left out. -/
def HttpProvider.outbound (env : Environment) (p : HttpProvider) (request : ProxyRequest) :
    Except String Outbound :=
  match p.target env (request.pathAndQuery.getD "/") with
  | .error e => .error e
  | .ok url =>
    applyAuth ⟨request.method, url, request.headers.filter (isForwardable ·.1), request.body⟩ p.auth

/-! ## Where requests go -/

variable {env : Environment} {config : UpstreamConfig F} {p : HttpProvider} {path : String}
variable {url : WebUrl}

/-- What an accepted configuration guarantees: the endpoint's host is among
the allowed ones, if any are given. -/
theorem allowed_of_fromConfig (h : fromConfig env config = .ok p) :
    p.allowedHosts.keys = [] ∨ p.endpoint.host.any p.allowedHosts.contains = true := by
  unfold fromConfig at h
  split_ifs at h
  split at h
  · cases h
  · split_ifs at h with hscheme hhosts
    split at h
    · cases h
    · split at h
      · cases h
      · cases h
        by_contra hcon
        rw [not_or] at hcon
        exact hhosts hcon

/-- **`target` accepts what resolves to the endpoint's host**, and nothing
else: the second check never refuses what passed the first. -/
theorem target_ok_iff (h : fromConfig env config = .ok p) :
    p.target env path = .ok url ↔
      WebUrl.join env.parseHost p.endpoint (reference path) = .ok url ∧
        url.host = p.endpoint.host := by
  have hallowed := allowed_of_fromConfig h
  unfold HttpProvider.target
  cases hjoin : WebUrl.join env.parseHost p.endpoint (reference path) with
  | error e => simp
  | ok joined =>
    simp only [Except.ok.injEq]
    split_ifs with hhost hhosts
    · simp only [false_iff]
      rintro ⟨rfl, heq⟩
      exact hhost heq
    · rw [not_not] at hhost
      rw [hhost] at hhosts
      rcases hallowed with hnil | hany
      · exact absurd hnil hhosts.1
      · exact absurd hany hhosts.2
    · rw [not_not] at hhost
      simp only [Except.ok.injEq]
      constructor
      · rintro rfl
        exact ⟨rfl, hhost⟩
      · exact And.left

/-- Authentication leaves the origin of a request as it is. -/
theorem origin_of_applyAuth {request out : Outbound} {auth : ResolvedAuth}
    (h : applyAuth request auth = .ok out) : out.url.toOrigin = request.url.toOrigin := by
  unfold applyAuth at h
  split at h
  · cases h
    rfl
  · cases h
    rfl
  · cases h
    rfl
  · split at h
    · cases h
    · cases h
      rfl

/-- **A request goes to the origin `target` says.** -/
theorem target_of_outbound {request : ProxyRequest} {out : Outbound}
    (h : p.outbound env request = .ok out) :
    ∃ url, p.target env (request.pathAndQuery.getD "/") = .ok url ∧
      out.url.toOrigin = url.toOrigin := by
  unfold HttpProvider.outbound at h
  split at h
  · cases h
  · rename_i url htarget
    exact ⟨url, htarget, origin_of_applyAuth h⟩

/-- **Requests stay with the configured origin exactly when the path spells
out no other URL of its host.** For every accepted configuration and every
path: whatever `target` accepts has the scheme, the host and the port of the
endpoint, and so has every request sent with credentials, if and only if no
URL the path spells out once its leading slashes are gone has the endpoint's
host and another scheme or port. -/
theorem upstream_confined_iff (env : Environment) (config : UpstreamConfig F) (p : HttpProvider)
    (h : fromConfig env config = .ok p) (path : String) :
    ((∀ url, p.target env path = .ok url →
        url.scheme = p.endpoint.scheme ∧ url.host = p.endpoint.host ∧
          url.port = p.endpoint.port) ∧
      ∀ request out, request.pathAndQuery.getD "/" = path → p.outbound env request = .ok out →
        out.url.toOrigin = p.endpoint.toOrigin) ↔
      ∀ scheme rest url,
        WebUrl.spelled p.endpoint (WebUrl.clean (path.toList.dropWhile (· == '/'))) =
          some (scheme, rest) →
        WebUrl.absolute env.parseHost scheme rest = .ok url → url.host = p.endpoint.host →
        url.scheme = p.endpoint.scheme ∧ url.port = p.endpoint.port := by
  have hreference : (reference path).toList = path.toList.dropWhile (· == '/') :=
    String.toList_ofList
  rw [← hreference]
  constructor
  · rintro ⟨hall, -⟩ scheme rest url hspelled habs hhost
    have hjoin : WebUrl.join env.parseHost p.endpoint (reference path) = .ok url :=
      (WebUrl.join_spelled hspelled).trans habs
    obtain ⟨hscheme, -, hport⟩ := hall url ((target_ok_iff h).mpr ⟨hjoin, hhost⟩)
    exact ⟨hscheme, hport⟩
  · intro hall
    have horigin : ∀ url, p.target env path = .ok url → url.toOrigin = p.endpoint.toOrigin := by
      intro url hurl
      obtain ⟨hjoin, hhost⟩ := (target_ok_iff h).mp hurl
      rcases WebUrl.join_origin hjoin with ⟨scheme, rest, hspelled, habs⟩ | ⟨-, horigin⟩
      · obtain ⟨hscheme, hport⟩ := hall scheme rest url hspelled habs hhost
        exact Origin.ext hscheme hhost hport
      · exact horigin
    refine ⟨fun url hurl => ?_, fun request out hpath hout => ?_⟩
    · rw [horigin url hurl]
      exact ⟨rfl, rfl, rfl⟩
    · obtain ⟨url, hurl, heq⟩ := target_of_outbound hout
      rw [hpath] at hurl
      exact heq.trans (horigin url hurl)

/-! ### Requests of it -/

/-- Hosts are read as they are written, and one secret is set. -/
def sampleEnvironment : Environment where
  parseHost := fun _ host => .ok host
  var := fun name => if name = "UPSTREAM_KEY" then some "secret" else none
  headerName := some
  isHeaderValue := fun _ => true
  ambientAuth := fun _ _ => .error "unavailable"
  client := .ok ()

/-- A pool with a key, on one allowed host. -/
def sampleUpstream : UpstreamConfig ℚ where
  provider := .openaiCompatible
  endpoint := "https://api.example.com/v1/"
  externalAdapter := none
  capacityUnits := 10
  initialSafetyFactor := 1
  region := none
  auth := .bearer "UPSTREAM_KEY"
  allowedHosts := StringSet.ofList ["api.example.com"]

/-- The provider it is built to. -/
def sampleProvider : HttpProvider where
  name := "openai-compatible"
  endpoint := ⟨⟨"https", some "api.example.com", none⟩, false, "/v1/".toList⟩
  auth := .bearer "Bearer secret"
  allowedHosts := StringSet.ofList ["api.example.com"]

/-- The endpoint is read as it is written. -/
theorem parse_sample :
    WebUrl.parse sampleEnvironment.parseHost sampleUpstream.endpoint =
      .ok sampleProvider.endpoint := by
  decide +kernel

/-- The pool is accepted. -/
theorem fromConfig_sample : fromConfig sampleEnvironment sampleUpstream = .ok sampleProvider := by
  have hhost : sampleProvider.endpoint.host.any sampleUpstream.allowedHosts.contains = true := by
    decide +kernel
  have hauth : resolveAuth sampleEnvironment sampleUpstream.auth sampleUpstream.provider
      sampleUpstream.region = .ok (.bearer "Bearer secret") := by
    rfl
  unfold fromConfig
  rw [if_neg (by decide), parse_sample]
  dsimp only
  rw [if_neg (fun hbad => hbad.1 rfl), if_neg (fun hbad => hbad.2 hhost), hauth]
  rfl

/-- An ordinary path spells out nothing, and stays. -/
theorem upstream_confined_ordinary :
    fromConfig sampleEnvironment sampleUpstream = .ok sampleProvider ∧
      ∀ url, sampleProvider.target sampleEnvironment "/chat/completions?stream=true" = .ok url →
        url.scheme = "https" ∧ url.host = some "api.example.com" ∧ url.port = none := by
  refine ⟨fromConfig_sample, ((upstream_confined_iff _ _ _ fromConfig_sample _).mpr
    fun scheme rest url hspelled => ?_).1⟩
  have hnone : WebUrl.spelled sampleProvider.endpoint (WebUrl.clean
      ("/chat/completions?stream=true".toList.dropWhile (· == '/'))) = none := by
    decide +kernel
  rw [hnone] at hspelled
  cases hspelled

/-- The same host in clear text, on another port. -/
def strayed : WebUrl := ⟨⟨"http", some "api.example.com", some 8080⟩, false, "/x".toList⟩

/-- **A path that repeats the host leaves the origin.** The request goes to
port 8080 in clear text, and carries the key. -/
theorem path_leaves_the_origin :
    fromConfig sampleEnvironment sampleUpstream = .ok sampleProvider ∧
      sampleProvider.target sampleEnvironment "/http://api.example.com:8080/x" = .ok strayed ∧
      sampleProvider.outbound sampleEnvironment
        ⟨"POST", some "/http://api.example.com:8080/x", [], []⟩ =
          .ok ⟨"POST", strayed, [("authorization", "Bearer secret")], []⟩ ∧
      ¬ (strayed.scheme = sampleProvider.endpoint.scheme ∧
        strayed.host = sampleProvider.endpoint.host ∧
        strayed.port = sampleProvider.endpoint.port) := by
  have hjoin : WebUrl.join sampleEnvironment.parseHost sampleProvider.endpoint
      (reference "/http://api.example.com:8080/x") = .ok strayed := by
    decide +kernel
  have htarget : sampleProvider.target sampleEnvironment "/http://api.example.com:8080/x" =
      .ok strayed :=
    (target_ok_iff fromConfig_sample).mpr ⟨hjoin, rfl⟩
  refine ⟨fromConfig_sample, htarget, ?_, by decide⟩
  unfold HttpProvider.outbound
  rw [Option.getD_some, htarget]
  rfl

end Providers

end InferQos
