import InferQos.Common.Json
import InferQos.Common.RwLock
import InferQos.Common.WebUrl
import InferQos.Identity.Model
/-!
# Tokens and their keys

`OidcVerifier`: the choice of the key set's URL, `refresh` and `verify`,
with any number of `verify` calls at once. The token library and the
network are parameters.

The key of a token is looked up in the scrutinee of a `match`, so the read
guard lives until the `match` ends. The arm for a key that is not there
calls `refresh` with that guard still out.
-/

namespace InferQos

namespace Identity

/-! ## The token library -/

/-- `Algorithm`. -/
inductive Algorithm
  | hs256
  | hs384
  | hs512
  | es256
  | es384
  | rs256
  | rs384
  | rs512
  | ps256
  | ps384
  | ps512
  | edDsa
  deriving DecidableEq

/-- What `decode_header` reads. -/
structure TokenHeader where
  alg : Algorithm
  kid : Option String

/-- `Validation`, as far as `verify` sets it. -/
structure Validation where
  algorithms : List Algorithm
  audience : Option (List String)
  issuer : Option (List String)
  validateExp : Bool
  validateNbf : Bool

/-- `Validation::new`. -/
def Validation.new (alg : Algorithm) : Validation := ⟨[alg], none, none, true, false⟩

/-- What the verifier calls: reading the header of a token, reading a key,
and `decode` at a reading of the clock. -/
structure TokenLibrary (Jwk Key : Type) where
  decodeHeader : String → Option TokenHeader
  keyId : Jwk → Option String
  fromJwk : Jwk → Except String Key
  decode : ℕ → String → Key → Validation → Option Json

/-- `OidcConfig`, with the fields only the verifier reads. -/
structure OidcSettings extends OidcConfig where
  jwksUrl : Option String
  principalClaim : String
  tenantClaim : String
  applicationClaim : String

variable {Jwk Key : Type} (lib : TokenLibrary Jwk Key) (cfg : OidcSettings)

/-! ## Key sets -/

/-- The answer to a request for a key set, after `send`. -/
structure JwksResponse (Jwk : Type) where
  contentLength : Option ℕ
  /-- `error_for_status`. -/
  statusError : Option String
  json : Except String (List Jwk)

/-- What `send` returns. -/
abbrev Fetched (Jwk : Type) := Except String (JwksResponse Jwk)

/-- One turn of the loop over the keys of a set. -/
def addKey (keys : OrdMap String Key) (jwk : Jwk) : Except IdentityError (OrdMap String Key) :=
  match lib.keyId jwk with
  | none => .ok keys
  | some kid =>
    match lib.fromJwk jwk with
    | .error e => .error (.jwks e)
    | .ok key => .ok (keys.insert kid key)

/-- **The table of a set**: of two keys under one id the later one counts. -/
def keyTable (set : List Jwk) : Except IdentityError (OrdMap String Key) :=
  match set.foldlM (addKey lib) ∅ with
  | .error e => .error e
  | .ok keys =>
    if keys.entries.isEmpty then .error (.jwks "JWKS has no keyed signing keys") else .ok keys

/-- **`refresh`**, up to its last line: the table it is going to write. -/
def readKeys (fetched : Fetched Jwk) : Except IdentityError (OrdMap String Key) :=
  match fetched with
  | .error e => .error (.jwks e)
  | .ok response =>
    if response.contentLength.any (· > 1024 * 1024) then
      .error (.jwks "JWKS document exceeds 1 MiB")
    else
      match response.statusError with
      | some e => .error (.jwks e)
      | none =>
        match response.json with
        | .error e => .error (.jwks e)
        | .ok set => keyTable lib set

/-! ## Tokens -/

/-- The algorithms `verify` accepts. -/
def signingAlgorithms : List Algorithm := [.rs256, .rs384, .rs512, .es256, .es384]

/-- A token whose header names a key. -/
structure Presented where
  token : String
  alg : Algorithm
  kid : String

/-- `verify`, up to its first lock. -/
def present (token : String) : Except IdentityError Presented :=
  match lib.decodeHeader token with
  | none => .error .invalidToken
  | some header =>
    if header.alg ∈ signingAlgorithms then
      match header.kid with
      | none => .error .invalidToken
      | some kid => .ok ⟨token, header.alg, kid⟩
    else .error .invalidToken

/-- The validation of a token. -/
def validation (alg : Algorithm) : Validation :=
  { Validation.new alg with
    algorithms := signingAlgorithms
    audience := some [cfg.audience]
    issuer := some [cfg.issuer]
    validateExp := true
    validateNbf := true }

/-- `claim`: a member that is a text and not empty. -/
def claim (claims : Json) (name : String) : Option String :=
  match claims.get name with
  | some (.string text) => if text.isEmpty then none else some text
  | _ => none

/-- The identity of some claims. -/
def identityOf (claims : Json) : Except IdentityError IdentityContext :=
  match claim claims cfg.principalClaim with
  | none => .error (.missingClaim cfg.principalClaim)
  | some principal =>
    match claim claims cfg.tenantClaim with
    | none => .error (.missingClaim cfg.tenantClaim)
    | some tenant =>
      match claim claims cfg.applicationClaim with
      | none => .error (.missingClaim cfg.applicationClaim)
      | some application => .ok ⟨principal, tenant, application, true⟩

/-- `verify`, from the key on. -/
def accept (now : ℕ) (p : Presented) (key : Key) : Except IdentityError IdentityContext :=
  match lib.decode now p.token key (validation cfg p.alg) with
  | none => .error .invalidToken
  | some claims => identityOf cfg claims

/-! ## The tasks -/

/-- **Where a call of `verify` stands.** The lock or the network named is
what it waits for. -/
inductive VerifyPhase (Key : Type)
  /-- `keys.read().await`, in the scrutinee. -/
  | reading (p : Presented)
  /-- `refresh`: the response, with the guard of the scrutinee held. -/
  | refreshing (p : Presented)
  /-- `refresh`: `keys.write().await`, with the guard of the scrutinee held. -/
  | writing (p : Presented) (keys : OrdMap String Key)
  /-- `keys.read().await` in the arm, with the guard of the scrutinee held. -/
  | rereading (p : Presented)
  | answered (token : String) (result : Except IdentityError IdentityContext)
  /-- The request is gone, and its future with it. -/
  | dropped

/-- The guards a call holds. -/
def VerifyPhase.holds : VerifyPhase Key → List Access
  | refreshing _ => [.read]
  | writing _ _ => [.read]
  | rereading _ => [.read]
  | _ => []

/-- The guard a call waits for. -/
def VerifyPhase.awaits : VerifyPhase Key → Option Access
  | reading _ => some .read
  | writing _ _ => some .write
  | rereading _ => some .read
  | _ => none

/-- The future is still there. -/
def VerifyPhase.isPending : VerifyPhase Key → Bool
  | answered _ _ => false
  | dropped => false
  | _ => true

/-- **`OidcVerifier`**, with the calls of `verify` made so far. -/
structure Verifier (Key : Type) where
  jwksUrl : WebUrl
  keys : OrdMap String Key
  lock : RwLock ℕ
  tasks : OrdMap ℕ (VerifyPhase Key)
  next : ℕ

/-- What happens to the verifier. -/
inductive VerifyEvent (Jwk : Type)
  /-- A request calls `verify`. -/
  | verify (token : String)
  /-- The lock serves its first request, and the call goes on. -/
  | grant (now : ℕ)
  /-- The response to the fetch of a call. -/
  | respond (n : ℕ) (fetched : Fetched Jwk)
  /-- The client of a call is gone. -/
  | drop (n : ℕ)

namespace Verifier

/-- A call's new position. -/
def goto (v : Verifier Key) (n : ℕ) (phase : VerifyPhase Key) : Verifier Key :=
  { v with tasks := v.tasks.insert n phase }

/-- A call answers; its guards go with the `match`. -/
def answer (v : Verifier Key) (n : ℕ) (token : String)
    (result : Except IdentityError IdentityContext) : Verifier Key :=
  { v.goto n (.answered token result) with lock := v.lock.release n .read }

/-- What a call does with the guard it is given. -/
def granted (now : ℕ) (v : Verifier Key) (n : ℕ) :
    VerifyPhase Key → Access → Option (Verifier Key)
  | .reading p, .read =>
    match v.keys.get? p.kid with
    | some key => some (v.answer n p.token (accept lib cfg now p key))
    | none => some (v.goto n (.refreshing p))
  | .writing p keys, .write =>
    some { v.goto n (.rereading p) with
      keys := keys
      lock := (v.lock.release n .write).request n .read }
  | .rereading p, .read =>
    match v.keys.get? p.kid with
    | some key => some (v.answer n p.token (accept lib cfg now p key))
    | none => some (v.answer n p.token (.error .invalidToken))
  | _, _ => none

/-- **One step.** -/
def step (v : Verifier Key) : VerifyEvent Jwk → Option (Verifier Key)
  | .verify token =>
    match present lib token with
    | .error e => some { v.goto v.next (.answered token (.error e)) with next := v.next + 1 }
    | .ok p =>
      some { v.goto v.next (.reading p) with
        lock := v.lock.request v.next .read
        next := v.next + 1 }
  | .grant now =>
    match v.lock.grant with
    | none => none
    | some (r, lock) =>
      match v.tasks.get? r.1 with
      | none => none
      | some phase => granted lib cfg now { v with lock := lock } r.1 phase r.2
  | .respond n fetched =>
    match v.tasks.get? n with
    | some (.refreshing p) =>
      match readKeys lib fetched with
      | .error e => some (v.answer n p.token (.error e))
      | .ok keys => some { v.goto n (.writing p keys) with lock := v.lock.request n .write }
    | _ => none
  | .drop n =>
    match v.tasks.get? n with
    | none => none
    | some phase =>
      if phase.isPending then some { v.goto n .dropped with lock := v.lock.abandon n } else none

end Verifier

/-! ## Start-up -/

/-- `secure_url`. -/
def secureUrl (parseHost : Bool → String → Except String String) (value label : String) :
    Except IdentityError WebUrl :=
  match WebUrl.parse parseHost value with
  | .error e => .error (.configuration ("invalid " ++ label ++ " URL: " ++ e.toString))
  | .ok url =>
    if url.scheme ≠ "https" ∧ url.host ≠ some "localhost" then
      .error (.configuration (label ++ " URL must use HTTPS except localhost tests"))
    else .ok url

/-- What the network answers at start-up: the `jwks_uri` of a discovery
document, and a key set. -/
structure Network (Jwk : Type) where
  discovery : WebUrl → Except String String
  jwks : WebUrl → Fetched Jwk

variable (parseHost : Bool → String → Except String String) (net : Network Jwk)

/-- The URL of the key set: the one configured, or the one discovered. -/
def findJwksUrl : Except IdentityError WebUrl :=
  match cfg.jwksUrl with
  | some explicit => secureUrl parseHost explicit "JWKS"
  | none =>
    match secureUrl parseHost cfg.issuer "OIDC issuer" with
    | .error e => .error e
    | .ok issuer =>
      match WebUrl.join parseHost issuer ".well-known/openid-configuration" with
      | .error e => .error (.configuration e.toString)
      | .ok url =>
        match net.discovery url with
        | .error e => .error (.jwks e)
        | .ok jwksUri => secureUrl parseHost jwksUri "discovered JWKS"

/-- **`OidcVerifier::new`**; nobody holds the lock yet, and its `refresh`
goes through. -/
def Verifier.new : Except IdentityError (Verifier Key) :=
  match findJwksUrl cfg parseHost net with
  | .error e => .error e
  | .ok url =>
    match readKeys lib (net.jwks url) with
    | .error e => .error e
    | .ok keys => .ok ⟨url, keys, RwLock.free, ∅, 0⟩

/-! ## Key sets and URLs, read back -/

variable {lib cfg parseHost net}

/-- A key of the table is the key of a member of the set. -/
theorem addKey_get? {keys keys' : OrdMap String Key} {jwk : Jwk} {kid : String} {key : Key}
    (h : addKey lib keys jwk = .ok keys') (hkey : keys'.get? kid = some key) :
    keys.get? kid = some key ∨ lib.keyId jwk = some kid ∧ lib.fromJwk jwk = .ok key := by
  unfold addKey at h
  split at h
  · cases h
    exact Or.inl hkey
  · rename_i kid' hkid
    split at h
    · cases h
    · rename_i key' hfrom
      cases h
      rcases OrdMap.get?_insert_eq_some.mp hkey with ⟨rfl, rfl⟩ | ⟨-, hold⟩
      · exact Or.inr ⟨hkid, hfrom⟩
      · exact Or.inl hold

theorem foldlM_addKey_get? {set : List Jwk} {keys keys' : OrdMap String Key} {kid : String}
    {key : Key} (h : set.foldlM (addKey lib) keys = .ok keys') (hkey : keys'.get? kid = some key) :
    keys.get? kid = some key ∨
      ∃ jwk ∈ set, lib.keyId jwk = some kid ∧ lib.fromJwk jwk = .ok key := by
  induction set generalizing keys with
  | nil =>
    cases h
    exact Or.inl hkey
  | cons jwk set ih =>
    rw [List.foldlM_cons] at h
    cases hadd : addKey lib keys jwk with
    | error e =>
      rw [hadd] at h
      cases h
    | ok added =>
      rw [hadd] at h
      rcases ih h with hadded | ⟨jwk', hmem, hjwk⟩
      · rcases addKey_get? hadd hadded with hold | hnew
        · exact Or.inl hold
        · exact Or.inr ⟨jwk, List.mem_cons_self, hnew⟩
      · exact Or.inr ⟨jwk', List.mem_cons_of_mem _ hmem, hjwk⟩

/-- **A table comes from a set**, and its keys from the members of it. -/
theorem readKeys_get? {fetched : Fetched Jwk} {keys : OrdMap String Key} {kid : String} {key : Key}
    (h : readKeys lib fetched = .ok keys) (hkey : keys.get? kid = some key) :
    ∃ response set, fetched = .ok response ∧ response.json = .ok set ∧
      ∃ jwk ∈ set, lib.keyId jwk = some kid ∧ lib.fromJwk jwk = .ok key := by
  unfold readKeys at h
  split at h
  · cases h
  · rename_i response
    split at h
    · cases h
    · split at h
      · cases h
      · split at h
        · cases h
        · rename_i set hjson
          unfold keyTable at h
          split at h
          · cases h
          · rename_i table htable
            split at h
            · cases h
            · cases h
              rcases foldlM_addKey_get? htable hkey with hnone | hjwk
              · cases hnone
              · exact ⟨response, set, rfl, hjson, hjwk⟩

theorem foldlM_addKey_error {set : List Jwk} {keys : OrdMap String Key} {e : IdentityError}
    (h : set.foldlM (addKey lib) keys = .error e) : ∃ detail, e = .jwks detail := by
  induction set generalizing keys with
  | nil => cases h
  | cons jwk set ih =>
    rw [List.foldlM_cons] at h
    cases hadd : addKey lib keys jwk with
    | ok added =>
      rw [hadd] at h
      exact ih h
    | error e' =>
      rw [hadd] at h
      cases h
      unfold addKey at hadd
      split at hadd
      · cases hadd
      · split at hadd
        · cases hadd
          exact ⟨_, rfl⟩
        · cases hadd

/-- What a failed `refresh` reports. -/
theorem readKeys_error {fetched : Fetched Jwk} {e : IdentityError}
    (h : readKeys lib fetched = .error e) : ∃ detail, e = .jwks detail := by
  unfold readKeys at h
  split at h
  · cases h
    exact ⟨_, rfl⟩
  · split at h
    · cases h
      exact ⟨_, rfl⟩
    · split at h
      · cases h
        exact ⟨_, rfl⟩
      · split at h
        · cases h
          exact ⟨_, rfl⟩
        · unfold keyTable at h
          split at h
          · rename_i hfold
            cases h
            exact foldlM_addKey_error hfold
          · split at h
            · cases h
              exact ⟨_, rfl⟩
            · cases h

theorem present_token {token : String} {p : Presented} (h : present lib token = .ok p) :
    p.token = token := by
  unfold present at h
  split at h
  · cases h
  · split at h
    · split at h
      · cases h
      · cases h
        rfl
    · cases h

/-- What a token that names no key is answered. -/
theorem present_error {token : String} {e : IdentityError} (h : present lib token = .error e) :
    e = .invalidToken := by
  unfold present at h
  split at h
  · cases h
    rfl
  · split at h
    · split at h
      · cases h
        rfl
      · cases h
    · cases h
      rfl

/-- What a token that names a key says. -/
theorem present_header {token : String} {p : Presented} (h : present lib token = .ok p) :
    p.alg ∈ signingAlgorithms ∧ lib.decodeHeader token = some ⟨p.alg, some p.kid⟩ := by
  unfold present at h
  split at h
  · cases h
  · rename_i header hheader
    split at h
    · rename_i halg
      split at h
      · cases h
      · rename_i kid hkid
        cases h
        exact ⟨halg, by rw [hheader, ← hkid]⟩
    · cases h

theorem claim_ne_empty {claims : Json} {name text : String} (h : claim claims name = some text) :
    text.isEmpty = false := by
  unfold claim at h
  split at h
  · split at h
    · cases h
    · cases h
      exact Bool.eq_false_iff.mpr ‹_›
  · cases h

/-- **The claims an identity was read from.** -/
structure ReadFrom (cfg : OidcSettings) (claims : Json) (identity : IdentityContext) : Prop where
  principal : claim claims cfg.principalClaim = some identity.principal
  tenant : claim claims cfg.tenantClaim = some identity.tenant
  application : claim claims cfg.applicationClaim = some identity.application
  named : ¬ (identity.principal.isEmpty || identity.tenant.isEmpty || identity.application.isEmpty)
  trusted : identity.trusted = true

theorem identityOf_ok {claims : Json} {identity : IdentityContext}
    (h : identityOf cfg claims = .ok identity) : ReadFrom cfg claims identity := by
  unfold identityOf at h
  split at h
  · cases h
  · rename_i principal hprincipal
    split at h
    · cases h
    · rename_i tenant htenant
      split at h
      · cases h
      · rename_i application happlication
        cases h
        refine ⟨hprincipal, htenant, happlication, ?_, rfl⟩
        simp [claim_ne_empty hprincipal, claim_ne_empty htenant, claim_ne_empty happlication]

theorem accept_ok {now : ℕ} {p : Presented} {key : Key} {identity : IdentityContext}
    (h : accept lib cfg now p key = .ok identity) :
    ∃ claims, lib.decode now p.token key (validation cfg p.alg) = some claims ∧
      ReadFrom cfg claims identity := by
  unfold accept at h
  split at h
  · cases h
  · rename_i claims hdecode
    exact ⟨claims, hdecode, identityOf_ok h⟩

theorem secureUrl_secure {value label : String} {url : WebUrl}
    (h : secureUrl parseHost value label = .ok url) :
    url.scheme = "https" ∨ url.host = some "localhost" := by
  unfold secureUrl at h
  split at h
  · cases h
  · split at h
    · cases h
    · rename_i hsecure
      cases h
      by_contra hcon
      exact hsecure (not_or.mp hcon)

/-- **Keys come over TLS, or from this machine.** -/
theorem findJwksUrl_secure {url : WebUrl} (h : findJwksUrl cfg parseHost net = .ok url) :
    url.scheme = "https" ∨ url.host = some "localhost" := by
  unfold findJwksUrl at h
  split at h
  · exact secureUrl_secure h
  · split at h
    · cases h
    · split at h
      · cases h
      · split at h
        · cases h
        · exact secureUrl_secure h

end Identity

end InferQos
