import InferQos.Identity.Model
import InferQos.Proxy.Handler
/-!
# What the headers of a stranger decide

A request comes from an unknown peer, or from one outside every trusted
proxy network. Its identity then rests on the verified fingerprints and on
its `authorization` header alone, whatever other headers it carries and
whatever names the configuration gives to the trusted ones; and without a
trusted identity the class it asks for is not looked at either. The
statement is about two requests that differ in everything else.
-/

namespace InferQos

namespace Proxy

open Identity

variable {F : Type}

/-! ## Class and pool -/

/-- The `x-inferqos-class` header, or `standard`. -/
def requestedClass (headers : Headers) : ServiceClass :=
  ((headers "x-inferqos-class").bind fun value => (ServiceClass.fromStr value).toOption).getD
    .standard

/-- Where the handler places a request: whom it charges, in which class and
in which pool. -/
structure Placement where
  effective : ServiceClass
  tenant : String
  application : String
  pool : Option String
  deriving DecidableEq

/-- **The placement of a request** of a resolved identity. -/
def place (config : Config F) (identity : IdentityContext) (headers : Headers) : Placement :=
  let (effective, app) := effectiveClass config identity (requestedClass headers)
  ⟨effective, identity.tenant, identity.application, poolName config app⟩

/-- The application's policy does not depend on the class asked for. -/
theorem effectiveClass_snd (config : Config F) (identity : IdentityContext)
    (requested : ServiceClass) :
    (effectiveClass config identity requested).2 =
      config.policies.applications.get? identity.application := by
  unfold effectiveClass
  simp only
  split
  · rfl
  · rfl

/-- **An untrusted identity is served as `standard`.** -/
theorem effectiveClass_untrusted (config : Config F) {identity : IdentityContext}
    (h : identity.trusted = false) (requested : ServiceClass) :
    (effectiveClass config identity requested).1 = .standard := by
  unfold effectiveClass
  simp only [h, Bool.false_and, Bool.false_eq_true, if_false]

/-- **A prepared request is where its placement says.** -/
theorem prepare_place {config : Config F} {pools : List String} {arrival : Arrival F} {job : Job F}
    {headers : Headers} (hrequested : arrival.requested = requestedClass headers)
    (h : prepare config pools arrival = .ok job) :
    place config arrival.identity headers =
      ⟨job.request.effectiveClass, job.request.identity.tenant, job.request.identity.application,
        some job.request.pool⟩ := by
  unfold prepare at h
  unfold place
  rw [← hrequested]
  simp only at h ⊢
  split at h
  · cases h
  · rename_i pool hpool
    split at h
    · split at h
      · cases h
      · cases h
        rw [hpool]
    · cases h

/-! ## The identity of a stranger -/

/-- The peer is unknown, or in none of the trusted proxy networks. -/
def Stranger (r : Resolver F) (remoteIp : Option IpAddr) : Prop :=
  ∀ ip, remoteIp = some ip → ∀ network ∈ r.trustedProxies, network.contains ip = false

theorem Stranger.fromProxy {r : Resolver F} {remoteIp : Option IpAddr} (h : Stranger r remoteIp) :
    fromProxy r remoteIp = false := by
  unfold Identity.fromProxy
  cases remoteIp with
  | none => rfl
  | some ip =>
    rw [Option.any_some, List.any_eq_false]
    intro network hnetwork
    rw [h ip rfl network hnetwork]
    exact Bool.false_ne_true

/-- Of all headers, the token comes from `authorization` only. -/
theorem fromToken_congr (r : Resolver F) (env : String → Option String) {headers headers' : Headers}
    (h : headers "authorization" = headers' "authorization") :
    fromToken r env headers = fromToken r env headers' := by
  have hbearer : bearer headers = bearer headers' := by
    unfold bearer
    rw [h]
  unfold fromToken
  rw [hbearer]

/-- **A stranger resolves through its fingerprints and its token.** -/
theorem resolveFrom_stranger {r : Resolver F} {remoteIp : Option IpAddr} (h : Stranger r remoteIp)
    (env : String → Option String) (headers : Headers) (fingerprints : List String) :
    resolveFrom r env headers remoteIp fingerprints =
      match fromCertificate r fingerprints with
      | some identity => .ok (.certificate, identity)
      | none => fromToken r env headers := by
  unfold resolveFrom
  rw [h.fromProxy]
  cases fromCertificate r fingerprints with
  | some identity => rfl
  | none => rfl

/-- **Forged headers have no effect.** Two requests of a stranger with the
same verified fingerprints and the same `authorization` header resolve
alike; tenant, application and pool are those of the identity; and an
identity that is not trusted is served as `standard` whatever it asks for,
so that both requests are placed alike. -/
theorem forged_headers_have_no_effect (r : Resolver F) (config : Config F)
    (env : String → Option String) (remoteIp : Option IpAddr) (fingerprints : List String)
    (headers headers' : Headers) (hpeer : Stranger r remoteIp)
    (hauth : headers "authorization" = headers' "authorization") :
    resolve r env headers remoteIp fingerprints = resolve r env headers' remoteIp fingerprints ∧
      ∀ identity, resolve r env headers remoteIp fingerprints = .ok identity →
        (place config identity headers).pool = (place config identity headers').pool ∧
          (identity.trusted = false →
            (∀ requested, (effectiveClass config identity requested).1 = .standard) ∧
              place config identity headers = place config identity headers') := by
  constructor
  · unfold resolve
    rw [resolveFrom_stranger hpeer, resolveFrom_stranger hpeer, fromToken_congr r env hauth]
  · intro identity _
    refine ⟨?_, fun huntrusted => ⟨effectiveClass_untrusted config huntrusted, ?_⟩⟩
    · simp only [place, effectiveClass_snd]
    · simp only [place, effectiveClass_snd, effectiveClass_untrusted config huntrusted]

/-- Proxies are trusted in `10.0.0.0/8`. -/
def guardedResolver : Resolver ℚ where
  config := Config.minimal .enforce []
  trustedProxies := [.v4 0x0a000000#32 8]
  oidc := none

/-- An identity, a class and nothing to prove it. -/
def forgedHeaders : Headers := fun name =>
  if name = "x-inferqos-principal" then some "root"
  else if name = "x-inferqos-tenant" then some "forged"
  else if name = "x-inferqos-application" then some "forged"
  else if name = "x-inferqos-class" then some "realtime"
  else none

/-- From `203.0.113.8` the forged headers make an anonymous request, placed
as one without any header. -/
theorem forged_headers_from_outside :
    resolve guardedResolver (fun _ => none) forgedHeaders (some (.v4 0xcb007108#32)) [] =
        .ok ⟨"anonymous", "default", "default", false⟩ ∧
      place guardedResolver.config ⟨"anonymous", "default", "default", false⟩ forgedHeaders =
        place guardedResolver.config ⟨"anonymous", "default", "default", false⟩ fun _ => none := by
  have hpeer : Stranger guardedResolver (some (.v4 0xcb007108#32)) := by
    intro ip hip network hnetwork
    cases hip
    rw [List.mem_singleton.mp hnetwork]
    decide
  have hnone : resolve guardedResolver (fun _ => none) (fun _ => none) (some (.v4 0xcb007108#32)) [] =
      .ok ⟨"anonymous", "default", "default", false⟩ := by decide +kernel
  obtain ⟨hsame, hplaced⟩ := forged_headers_have_no_effect guardedResolver guardedResolver.config
    (fun _ => none) (some (.v4 0xcb007108#32)) [] forgedHeaders (fun _ => none) hpeer rfl
  have hforged := hsame.trans hnone
  exact ⟨hforged, ((hplaced _ hforged).2 rfl).2⟩

end Proxy

end InferQos
