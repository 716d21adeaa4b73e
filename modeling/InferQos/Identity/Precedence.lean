import InferQos.Config.Validate
import InferQos.Identity.Model
/-!
# The order of the sources

The documentation lists the sources of an identity in the order they are
asked, and an answer of none leads to the next. `documented` is that list.
`resolve` departs from it at the token: where an issuer is configured, a
token with two dots goes to the verifier and to nobody else, and any other
token never reaches it. `resolve_documented_iff` says for which requests
this shows.
-/

namespace InferQos

namespace Identity

variable {F : Type} {r : Resolver F} {env : String → Option String} {headers : Headers}
variable {remoteIp : Option IpAddr} {fingerprints : List String} {token : String}
variable {verify : String → Except IdentityError IdentityContext}

/-! ## The sources in a row -/

/-- The identity a trusted proxy asserts: a mapped SAN, or three complete
headers. -/
def fromHeaders (r : Resolver F) (headers : Headers) : Option IdentityContext :=
  (fromSan r headers).or (fromForwarded r headers)

/-- What the connection asserts before any token is read. -/
def asserted (r : Resolver F) (headers : Headers) (remoteIp : Option IpAddr)
    (fingerprints : List String) : Option IdentityContext :=
  (fromCertificate r fingerprints).or (if fromProxy r remoteIp then fromHeaders r headers else none)

/-- The answer of the token stage, without its source. -/
def tokenAnswer (r : Resolver F) (env : String → Option String) (headers : Headers) :
    Except IdentityError IdentityContext :=
  (fromToken r env headers).map (·.2)

/-- **`resolve` in two stages**: what the connection asserts, and the token
where it asserts nothing. -/
theorem resolve_eq (r : Resolver F) (env : String → Option String) (headers : Headers)
    (remoteIp : Option IpAddr) (fingerprints : List String) :
    resolve r env headers remoteIp fingerprints =
      (asserted r headers remoteIp fingerprints).elim (tokenAnswer r env headers) .ok := by
  unfold resolve resolveFrom asserted fromHeaders
  cases fromCertificate r fingerprints with
  | some identity => rfl
  | none =>
    cases fromProxy r remoteIp with
    | false => rfl
    | true =>
      cases fromSan r headers with
      | some identity => rfl
      | none => cases fromForwarded r headers <;> rfl

/-! ## The documented order -/

/-- The identity of a token that verifies. -/
def fromOidc (r : Resolver F) (headers : Headers) : Option IdentityContext :=
  (bearer headers).bind fun token => r.oidc.bind fun verify => (verify token).toOption

/-- Who a request without a source comes from. -/
def anonymous : IdentityContext := ⟨"anonymous", "default", "default", false⟩

/-- OIDC is configured as required. -/
def oidcRequired (r : Resolver F) : Bool := r.config.identity.oidc.any (·.required)

/-- **The documented answer**: the first source that has one, in the order
of the documentation, and without any an error where OIDC is required. -/
def documented (r : Resolver F) (env : String → Option String) (headers : Headers)
    (remoteIp : Option IpAddr) (fingerprints : List String) :
    Except IdentityError IdentityContext :=
  let sources :=
    [fromCertificate r fingerprints,
      if fromProxy r remoteIp then fromSan r headers else none,
      if fromProxy r remoteIp then fromForwarded r headers else none,
      fromOidc r headers,
      (bearer headers).bind (fromApiKey r env)]
  match sources.findSome? id with
  | some identity => .ok identity
  | none => if oidcRequired r then .error .required else .ok anonymous

/-- The documented order from the token on. -/
def documentedToken (r : Resolver F) (env : String → Option String) (headers : Headers) :
    Except IdentityError IdentityContext :=
  ((fromOidc r headers).or ((bearer headers).bind (fromApiKey r env))).elim
    (if oidcRequired r then .error .required else .ok anonymous) .ok

/-- Up to the token the two agree. -/
theorem documented_eq (r : Resolver F) (env : String → Option String) (headers : Headers)
    (remoteIp : Option IpAddr) (fingerprints : List String) :
    documented r env headers remoteIp fingerprints =
      (asserted r headers remoteIp fingerprints).elim (documentedToken r env headers) .ok := by
  unfold documented documentedToken asserted fromHeaders
  generalize (bearer headers).bind (fromApiKey r env) = key
  cases fromCertificate r fingerprints with
  | some identity => rfl
  | none =>
    cases fromProxy r remoteIp with
    | false => cases fromOidc r headers <;> cases key <;> rfl
    | true =>
      cases fromSan r headers with
      | some identity => rfl
      | none =>
        cases fromForwarded r headers with
        | some identity => rfl
        | none => cases fromOidc r headers <;> cases key <;> rfl

/-! ## Where they part -/

/-- **The verifier is asked as documented.** A token with two dots, which
goes to the verifier alone, is accepted there, or no key equals it and its
error is the one of a missing authentication. Any other token is not one
that verifies, unless the verifier would give the answer found without it. -/
def AskedInOrder (r : Resolver F) (env : String → Option String)
    (verify : String → Except IdentityError IdentityContext) (token : String) : Prop :=
  if token.toList.count '.' = 2 then
    (∃ identity, verify token = .ok identity) ∨
      fromApiKey r env token = none ∧ oidcRequired r = true ∧ verify token = .error .required
  else
    ∀ identity, verify token = .ok identity → fromApiKey r env token = some identity ∨
      fromApiKey r env token = none ∧ oidcRequired r = false ∧ identity = anonymous

/-- What is left without a source. -/
theorem unresolved_answer (r : Resolver F) :
    (unresolved r).map (·.2) = if oidcRequired r then .error .required else .ok anonymous := by
  unfold unresolved oidcRequired
  split <;> rfl

theorem tokenAnswer_two_dots (hbearer : bearer headers = some token) (hoidc : r.oidc = some verify)
    (hdots : token.toList.count '.' = 2) : tokenAnswer r env headers = verify token := by
  unfold tokenAnswer fromToken
  rw [hbearer]
  simp only [if_pos hdots, hoidc]
  cases verify token <;> rfl

/-- Past the verifier: the API keys. -/
theorem tokenAnswer_api_key (hbearer : bearer headers = some token)
    (hskip : r.oidc = none ∨ token.toList.count '.' ≠ 2) :
    tokenAnswer r env headers = (fromApiKey r env token).elim
      (if oidcRequired r then .error .required else .ok anonymous) .ok := by
  have hnone : (if token.toList.count '.' = 2 then r.oidc else none) = none := by
    rcases hskip with hoidc | hdots
    · rw [hoidc, ite_self]
    · exact if_neg hdots
  unfold tokenAnswer fromToken
  rw [hbearer]
  simp only [hnone]
  cases fromApiKey r env token with
  | some identity => rfl
  | none => exact unresolved_answer r

theorem documentedToken_bearer (hbearer : bearer headers = some token) :
    documentedToken r env headers =
      ((r.oidc.bind fun verify => (verify token).toOption).or (fromApiKey r env token)).elim
        (if oidcRequired r then .error .required else .ok anonymous) .ok := by
  unfold documentedToken fromOidc
  rw [hbearer]
  rfl

/-- **A token with an issuer configured.** -/
theorem token_documented_iff (hbearer : bearer headers = some token) (hoidc : r.oidc = some verify) :
    tokenAnswer r env headers = documentedToken r env headers ↔
      AskedInOrder r env verify token := by
  rw [documentedToken_bearer hbearer, hoidc, Option.bind_some]
  unfold AskedInOrder
  by_cases hdots : token.toList.count '.' = 2
  · rw [if_pos hdots, tokenAnswer_two_dots hbearer hoidc hdots]
    cases verify token with
    | ok identity => simp [Except.toOption]
    | error e =>
      cases fromApiKey r env token with
      | some identity => simp [Except.toOption]
      | none => cases oidcRequired r <;> simp [Except.toOption]
  · rw [if_neg hdots, tokenAnswer_api_key hbearer (Or.inr hdots)]
    cases verify token with
    | error e => simp [Except.toOption]
    | ok identity =>
      cases fromApiKey r env token with
      | some other => simp [Except.toOption]
      | none => cases oidcRequired r <;> simp [Except.toOption, eq_comm]

/-- **`resolve` answers as documented exactly when** the connection asserts
an identity, or its token, if it has one and an issuer is configured, is
asked in order. -/
theorem resolve_documented_iff (r : Resolver F) (env : String → Option String) (headers : Headers)
    (remoteIp : Option IpAddr) (fingerprints : List String) :
    resolve r env headers remoteIp fingerprints =
        documented r env headers remoteIp fingerprints ↔
      (fromCertificate r fingerprints).isSome = true ∨
        (fromProxy r remoteIp = true ∧
          ((fromSan r headers).isSome = true ∨ (fromForwarded r headers).isSome = true)) ∨
        ∀ token, bearer headers = some token → ∀ verify, r.oidc = some verify →
          AskedInOrder r env verify token := by
  have hasserted : (asserted r headers remoteIp fingerprints).isSome = true ↔
      (fromCertificate r fingerprints).isSome = true ∨ (fromProxy r remoteIp = true ∧
        ((fromSan r headers).isSome = true ∨ (fromForwarded r headers).isSome = true)) := by
    unfold asserted fromHeaders
    cases fromProxy r remoteIp <;> simp
  rw [resolve_eq, documented_eq, ← or_assoc, ← hasserted]
  cases asserted r headers remoteIp fingerprints with
  | some identity => simp
  | none =>
    simp only [Option.elim_none, Option.isSome_none, Bool.false_eq_true, false_or]
    cases hbearer : bearer headers with
    | none =>
      refine iff_of_true ?_ fun token h => by cases h
      unfold tokenAnswer fromToken documentedToken fromOidc
      rw [hbearer]
      exact unresolved_answer r
    | some token =>
      cases hoidc : r.oidc with
      | none =>
        refine iff_of_true ?_ fun _ _ verify h => by cases h
        rw [tokenAnswer_api_key hbearer (Or.inl hoidc), documentedToken_bearer hbearer, hoidc]
        rfl
      | some verify =>
        rw [token_documented_iff hbearer hoidc]
        constructor
        · intro h token' htoken verify' hverify
          cases htoken
          cases hverify
          exact h
        · exact fun h => h token rfl verify rfl

/-- An issuer beside one API key. The verifier knows no token. -/
def keyedResolver : Resolver ℚ where
  config :=
    { Config.minimal .enforce [] with
      policies := ⟨∅, ∅, OrdMap.ofList [("LEDGER_KEY", ⟨"ledger", "finance", "ledger"⟩)]⟩
      identity :=
        { IdentityConfig.default with oidc := some ⟨"https://issuer.example/", "inferqos", false⟩ } }
  trustedProxies := []
  oidc := some fun _ => .error .invalidToken

/-- **An API key with two dots does not authenticate.** The key is the value
of the environment variable, the configuration is a valid one, and the
answer is that of an invalid token. -/
theorem dotted_api_key_refused :
    Config.validate Config.noParsers keyedResolver.config = .ok () ∧
      resolve keyedResolver (fun name => if name = "LEDGER_KEY" then some "k1.live.7f3a" else none)
        (fun name => if name = "authorization" then some "Bearer k1.live.7f3a" else none) none [] =
          .error .invalidToken ∧
      documented keyedResolver
        (fun name => if name = "LEDGER_KEY" then some "k1.live.7f3a" else none)
        (fun name => if name = "authorization" then some "Bearer k1.live.7f3a" else none) none [] =
          .ok ⟨"ledger", "finance", "ledger", true⟩ := by
  refine ⟨by decide +kernel, by decide +kernel, by decide +kernel⟩

end Identity

end InferQos
