import InferQos.Common.Trace
import InferQos.Identity.Precedence
/-!
# A request during a replacement

`resolve` reads the configuration under one lock and, later, the trusted
networks under another; `replace_config` parses the networks of its
candidate, writes them, and then writes the candidate. Between the two
writes, and after them for a request that has read before, `resolve`
combines the header names and mappings of the old configuration with the
networks of the new one. `resolve_sees_one_configuration` says which orders
of the locks avoid that, and for which peers it makes no difference.
-/

namespace InferQos

namespace Identity

variable {F : Type}

/-! ## The two tasks -/

/-- `parse_proxies`, `parse` being the parser of a network. -/
def parseProxies (parse : String → Except String IpNet) (config : Config F) :
    Except IdentityError (List IpNet) :=
  config.identity.trustedProxyCidrs.mapM fun cidr =>
    (parse cidr).mapError fun error =>
      .configuration ("invalid trusted proxy CIDR " ++ cidr ++ ": " ++ error)

/-- `IdentityResolver::new`, with the verifier it has built. -/
def Resolver.new (parse : String → Except String IpNet)
    (oidc : Option (String → Except IdentityError IdentityContext)) (config : Config F) :
    Except IdentityError (Resolver F) :=
  (parseProxies parse config).map fun networks => ⟨config, networks, oidc⟩

/-- A request as `resolve` is given it, with the environment it runs in. -/
structure Query where
  env : String → Option String
  headers : Headers
  remoteIp : Option IpAddr
  fingerprints : List String

/-- The answer of a resolver that nothing disturbs. -/
def Query.answer (q : Query) (r : Resolver F) : Except IdentityError IdentityContext :=
  resolve r q.env q.headers q.remoteIp q.fingerprints

/-- Where `resolve` stands. -/
inductive Reader (F : Type)
  /-- `config.read()`. -/
  | start
  /-- `trusted_proxies.read()`. -/
  | loaded (config : Config F)
  | answered (answer : Except IdentityError IdentityContext)

/-- Where `replace_config` stands. -/
inductive Writer
  /-- `parse_proxies`. -/
  | parsing
  /-- `trusted_proxies.write()`. -/
  | writing (networks : List IpNet)
  /-- `config.write()`. -/
  | replacing
  | returned (result : Except IdentityError Unit)

/-- What the two locks guard, and the two tasks. -/
structure Race (F : Type) where
  config : Config F
  trustedProxies : List IpNet
  reader : Reader F
  writer : Writer

/-- A lock taken by one of the tasks, or the parse. -/
inductive Turn
  | readConfig
  | readProxies
  | parseProxies
  | writeProxies
  | writeConfig
  deriving DecidableEq

/-- Before either task has begun. -/
def Race.start (r : Resolver F) : Race F := ⟨r.config, r.trustedProxies, .start, .parsing⟩

section

variable (parse : String → Except String IpNet)
variable (oidc : Option (String → Except IdentityError IdentityContext)) (candidate : Config F)
variable (q : Query)

/-- **One turn of one task.** A request that its certificate answers, or
without a peer address, does not take the second lock: its answer is the
same whatever the networks. -/
def turn (s : Race F) : Turn → Option (Race F)
  | .readConfig =>
    match s.reader with
    | .start => some { s with reader := .loaded s.config }
    | _ => none
  | .readProxies =>
    match s.reader with
    | .loaded config =>
      some { s with reader := .answered (q.answer ⟨config, s.trustedProxies, oidc⟩) }
    | _ => none
  | .parseProxies =>
    match s.writer with
    | .parsing =>
      match Identity.parseProxies parse candidate with
      | .error e => some { s with writer := .returned (.error e) }
      | .ok networks => some { s with writer := .writing networks }
    | _ => none
  | .writeProxies =>
    match s.writer with
    | .writing networks => some { s with trustedProxies := networks, writer := .replacing }
    | _ => none
  | .writeConfig =>
    match s.writer with
    | .replacing => some { s with config := candidate, writer := .returned (.ok ()) }
    | _ => none

end

variable {parse : String → Except String IpNet}
variable {oidc : Option (String → Except IdentityError IdentityContext)} {candidate config : Config F}
variable {q : Query} {old new : Resolver F} {s t : Race F} {a : Except IdentityError IdentityContext}

/-! ## What a request can have read -/

/-- The networks are those of the candidate. -/
def Race.Renewed (parse : String → Except String IpNet)
    (oidc : Option (String → Except IdentityError IdentityContext)) (candidate : Config F)
    (s : Race F) : Prop :=
  ∃ new, Resolver.new parse oidc candidate = .ok new ∧ s.trustedProxies = new.trustedProxies

/-- **The networks are written before the configuration.** Whoever has read
the candidate finds its networks. -/
structure Race.Ordered (parse : String → Except String IpNet)
    (oidc : Option (String → Except IdentityError IdentityContext)) (candidate : Config F)
    (old : Resolver F) (s : Race F) : Prop where
  networks : s.trustedProxies = old.trustedProxies ∨ s.Renewed parse oidc candidate
  config : s.config = old.config ∨ s.config = candidate ∧ s.Renewed parse oidc candidate
  loaded : ∀ config, s.reader = .loaded config →
    config = old.config ∨ config = candidate ∧ s.Renewed parse oidc candidate
  writing : ∀ networks, s.writer = .writing networks →
    Identity.parseProxies parse candidate = .ok networks
  replacing : s.writer = .replacing → s.Renewed parse oidc candidate

theorem Resolver.new_of_parse {networks : List IpNet}
    (h : parseProxies parse candidate = .ok networks) :
    Resolver.new parse oidc candidate = .ok ⟨candidate, networks, oidc⟩ := by
  unfold Resolver.new
  rw [h]
  rfl

/-- A resolver is made of its configuration and the verifier. -/
theorem Resolver.eq_of_new (h : Resolver.new parse oidc candidate = .ok new) :
    new.config = candidate ∧ new.oidc = oidc := by
  unfold Resolver.new at h
  cases hparse : parseProxies parse candidate with
  | error e =>
    rw [hparse] at h
    cases h
  | ok networks =>
    rw [hparse] at h
    cases h
    exact ⟨rfl, rfl⟩

theorem Race.ordered_start : (Race.start old).Ordered parse oidc candidate old where
  networks := Or.inl rfl
  config := Or.inl rfl
  loaded config h := by cases h
  writing networks h := by cases h
  replacing h := by cases h

theorem Race.Ordered.turn {e : Turn} (h : s.Ordered parse oidc candidate old)
    (hs : turn parse oidc candidate q s e = some t) : t.Ordered parse oidc candidate old := by
  revert hs
  fun_cases Identity.turn parse oidc candidate q s e <;> intro hs <;> cases hs
  case case1 =>
    refine ⟨h.networks, h.config, fun config hconfig => ?_, h.writing, h.replacing⟩
    cases hconfig
    exact h.config
  case case3 =>
    exact ⟨h.networks, h.config, fun _ hconfig => (nomatch hconfig), h.writing, h.replacing⟩
  case case5 =>
    exact ⟨h.networks, h.config, h.loaded, fun _ hw => (nomatch hw), fun hw => (nomatch hw)⟩
  case case6 hparse =>
    refine ⟨h.networks, h.config, h.loaded, fun networks hw => ?_, fun hw => (nomatch hw)⟩
    cases hw
    exact hparse
  case case8 networks hw =>
    have hrenewed : Race.Renewed parse oidc candidate
        { s with trustedProxies := networks, writer := .replacing } :=
      ⟨_, Resolver.new_of_parse (h.writing networks hw), rfl⟩
    exact ⟨Or.inr hrenewed, h.config.imp_right fun hc => ⟨hc.1, hrenewed⟩,
      fun config hconfig => (h.loaded config hconfig).imp_right fun hc => ⟨hc.1, hrenewed⟩,
      fun _ hw => (nomatch hw), fun _ => hrenewed⟩
  case case10 hw =>
    exact ⟨h.networks, Or.inr ⟨rfl, h.replacing hw⟩, h.loaded, fun _ hw => (nomatch hw),
      fun hw => (nomatch hw)⟩

/-! ## The order of the locks -/

/-- **The writes do not come between the reads.** Of the turns before
`resolve` reads the networks: they are not written yet, or the candidate was
written before `resolve` read the configuration. -/
def Undivided (es : List Turn) : Prop :=
  .writeProxies ∉ es ∨ [.writeConfig, .readConfig].Sublist es

/-- What the turns taken say about the locks and about what `resolve` has
read. -/
structure Race.Dated (parse : String → Except String IpNet)
    (oidc : Option (String → Except IdentityError IdentityContext)) (candidate : Config F)
    (old : Resolver F) (es : List Turn) (s : Race F) : Prop where
  ordered : s.Ordered parse oidc candidate old
  unwritten : .writeProxies ∉ es → s.trustedProxies = old.trustedProxies
  written : .writeConfig ∈ es →
    s.config = candidate ∧ s.Renewed parse oidc candidate ∧ s.writer = .returned (.ok ())
  read : [.writeConfig, .readConfig].Sublist es →
    ∀ config, s.reader = .loaded config → config = candidate

/-- The last of two turns is the last of all, or comes before it. -/
theorem sublist_snoc {a b e : Turn} {es : List Turn} (h : [a, b].Sublist (es ++ [e])) :
    a ∈ es ∧ (b = e ∨ [a, b].Sublist es) := by
  have h' : [b, a].Sublist (e :: es.reverse) := by
    simpa using List.reverse_sublist.mpr h
  cases h' with
  | cons _ h' =>
    have hsub : [a, b].Sublist es := by simpa using List.reverse_sublist.mpr h'
    exact ⟨hsub.subset List.mem_cons_self, Or.inr hsub⟩
  | cons_cons _ h' =>
    exact ⟨List.mem_reverse.mp (List.singleton_sublist.mp h'), Or.inl rfl⟩

theorem turn_trustedProxies {e : Turn} (hs : turn parse oidc candidate q s e = some t)
    (he : e ≠ .writeProxies) : t.trustedProxies = s.trustedProxies := by
  revert hs
  fun_cases Identity.turn parse oidc candidate q s e <;> intro hs <;> cases hs
  case case8 => exact absurd rfl he
  all_goals rfl

/-- **A replacement that has returned writes no more.** -/
theorem turn_returned {e : Turn} {result : Except IdentityError Unit}
    (hs : turn parse oidc candidate q s e = some t) (hw : s.writer = .returned result) :
    t.config = s.config ∧ t.trustedProxies = s.trustedProxies ∧ t.writer = .returned result := by
  revert hs
  fun_cases Identity.turn parse oidc candidate q s e <;> intro hs <;> cases hs
  case case1 => exact ⟨rfl, rfl, hw⟩
  case case3 => exact ⟨rfl, rfl, hw⟩
  all_goals simp_all

/-- A configuration read is the one there is, or was read before. -/
theorem turn_loaded {e : Turn} (hs : turn parse oidc candidate q s e = some t)
    (hr : t.reader = .loaded config) :
    e = .readConfig ∧ config = s.config ∨ e ≠ .readConfig ∧ s.reader = .loaded config := by
  revert hs
  fun_cases Identity.turn parse oidc candidate q s e <;> intro hs <;> cases hs
  case case1 =>
    cases hr
    exact Or.inl ⟨rfl, rfl⟩
  case case3 => cases hr
  all_goals exact Or.inr ⟨Turn.noConfusion, hr⟩

theorem Race.dated_start : (Race.start old).Dated parse oidc candidate old [] where
  ordered := Race.ordered_start
  unwritten _ := rfl
  written h := absurd h List.not_mem_nil
  read h := absurd h.length_le (by decide)

theorem Race.Dated.turn {e : Turn} {es : List Turn} (h : s.Dated parse oidc candidate old es)
    (hs : turn parse oidc candidate q s e = some t) :
    t.Dated parse oidc candidate old (es ++ [e]) := by
  refine ⟨h.ordered.turn hs, fun hmem => ?_, fun hmem => ?_, fun hsub config hconfig => ?_⟩
  · rw [List.mem_append, List.mem_singleton, not_or] at hmem
    exact (turn_trustedProxies hs (Ne.symm hmem.2)).trans (h.unwritten hmem.1)
  · rcases List.mem_append.mp hmem with hmem | hmem
    · obtain ⟨hcand, ⟨new, hnew, hnetworks⟩, hw⟩ := h.written hmem
      obtain ⟨hc, hn, hw'⟩ := turn_returned hs hw
      exact ⟨hc.trans hcand, ⟨new, hnew, hn.trans hnetworks⟩, hw'⟩
    · obtain rfl := List.mem_singleton.mp hmem
      cases hw : s.writer with
      | replacing =>
        simp only [Identity.turn, hw, Option.some.injEq] at hs
        rw [← hs]
        exact ⟨rfl, h.ordered.replacing hw, rfl⟩
      | parsing => simp [Identity.turn, hw] at hs
      | writing networks => simp [Identity.turn, hw] at hs
      | returned result => simp [Identity.turn, hw] at hs
  · obtain ⟨hwritten, hlast⟩ := sublist_snoc hsub
    rcases turn_loaded hs hconfig with ⟨-, rfl⟩ | ⟨hne, hread⟩
    · exact (h.written hwritten).1
    · exact h.read (hlast.resolve_left (Ne.symm hne)) config hread

/-! ## When a mix makes no difference -/

/-- **Two lists of networks treat a peer alike**: both contain its address,
or neither does. -/
def TreatAlike (networks networks' : List IpNet) (remoteIp : Option IpAddr) : Prop :=
  ∀ ip, remoteIp = some ip →
    networks.any (·.contains ip) = networks'.any (·.contains ip)

theorem TreatAlike.answer {networks : List IpNet} {r : Resolver F}
    (h : TreatAlike networks r.trustedProxies q.remoteIp) :
    q.answer { r with trustedProxies := networks } = q.answer r := by
  have hproxy : fromProxy { r with trustedProxies := networks } q.remoteIp =
      fromProxy r q.remoteIp := by
    unfold fromProxy
    cases hip : q.remoteIp with
    | none => rfl
    | some ip => exact h ip hip
  unfold Query.answer
  rw [resolve_eq, resolve_eq]
  unfold asserted
  rw [hproxy]
  rfl

/-- **When a request sees one configuration.** Take any interleaving of a
`resolve` with a `replace_config`, up to the turn in which `resolve` reads
the networks. If the writes do not come between the reads, or if the
networks of the two configurations treat the peer alike, it answers as the
old or as the new configuration would. -/
theorem resolve_sees_one_configuration (parse : String → Except String IpNet)
    (oidc : Option (String → Except IdentityError IdentityContext)) (candidate : Config F)
    (q : Query) {initial : Config F} (hold : Resolver.new parse oidc initial = .ok old)
    {es : List Turn} (hrun : Trace (StepOf (turn parse oidc candidate q)) (Race.start old) es s)
    (hread : turn parse oidc candidate q s .readProxies = some t) (ha : t.reader = .answered a)
    (h : Undivided es ∨ ∀ new, Resolver.new parse oidc candidate = .ok new →
      TreatAlike new.trustedProxies old.trustedProxies q.remoteIp) :
    a = q.answer old ∨ ∃ new, Resolver.new parse oidc candidate = .ok new ∧ a = q.answer new := by
  have hdated : s.Dated parse oidc candidate old es :=
    hrun.history Race.dated_start Race.Dated.turn
  obtain ⟨hconfig, hoidc⟩ := Resolver.eq_of_new hold
  obtain ⟨config, hloaded, rfl⟩ : ∃ config, s.reader = .loaded config ∧
      a = q.answer ⟨config, s.trustedProxies, oidc⟩ := by
    cases hreader : s.reader with
    | loaded config =>
      simp only [turn, hreader, Option.some.injEq] at hread
      rw [← hread] at ha
      cases ha
      exact ⟨config, rfl, rfl⟩
    | start => simp [turn, hreader] at hread
    | answered _ => simp [turn, hreader] at hread
  have hnew : config = candidate → s.Renewed parse oidc candidate →
      ∃ new, Resolver.new parse oidc candidate = .ok new ∧
        q.answer ⟨config, s.trustedProxies, oidc⟩ = q.answer new := by
    rintro rfl ⟨new, hnew, hnetworks⟩
    obtain ⟨hconfig', hoidc'⟩ := Resolver.eq_of_new hnew
    exact ⟨new, hnew, by rw [hnetworks, ← hconfig', ← hoidc']⟩
  rcases hdated.ordered.loaded config hloaded with rfl | ⟨hcand, hrenewed⟩
  · rcases hdated.ordered.networks with hnetworks | ⟨new, hcand, hnetworks⟩
    · exact Or.inl (by rw [hnetworks, ← hoidc])
    · -- the old configuration with the networks of the candidate
      rcases h with (hunwritten | hafter) | halike
      · exact Or.inl (by rw [hdated.unwritten hunwritten, ← hoidc])
      · exact Or.inr (hnew (hdated.read hafter _ hloaded) ⟨new, hcand, hnetworks⟩)
      · have hanswer := (halike new hcand).answer
        rw [← hnetworks] at hanswer
        exact Or.inl (by rw [← hanswer, ← hoidc])
  · exact Or.inr (hnew hcand hrenewed)

/-! ## A new gateway -/

/-- The networks of two gateways. -/
def parseGateway : String → Except String IpNet
  | "10.0.0.0/8" => .ok (.v4 0x0a000000#32 8)
  | "192.168.0.0/16" => .ok (.v4 0xc0a80000#32 16)
  | _ => .error "invalid IP address syntax"

/-- A gateway that asserts identities in headers with this start. -/
def gatewayConfig (cidr start : String) : Config ℚ :=
  { Config.minimal .enforce [] with
    identity :=
      { IdentityConfig.default with
        trustedProxyCidrs := [cidr]
        trustedHeaders :=
          ⟨start ++ "-principal", start ++ "-tenant", start ++ "-application", start ++ "-san"⟩ } }

/-- A client in the network of the new gateway, with the headers of the old
one. -/
def gatewayQuery : Query where
  env _ := none
  headers
    | "x-old-principal" => some "admin"
    | "x-old-tenant" => some "finance"
    | "x-old-application" => some "ledger"
    | _ => none
  remoteIp := some (.v4 0xc0a80107#32)
  fingerprints := []

/-- Both reads before the writes: the answer is the old one. -/
theorem resolve_sees_one_configuration_before :
    ∃ s t a, Trace (StepOf (turn parseGateway none (gatewayConfig "192.168.0.0/16" "x-new")
          gatewayQuery))
        (Race.start ⟨gatewayConfig "10.0.0.0/8" "x-old", [.v4 0x0a000000#32 8], none⟩)
        [.readConfig, .parseProxies] s ∧
      turn parseGateway none (gatewayConfig "192.168.0.0/16" "x-new") gatewayQuery s
        .readProxies = some t ∧ t.reader = .answered a ∧
      (a = gatewayQuery.answer ⟨gatewayConfig "10.0.0.0/8" "x-old", [.v4 0x0a000000#32 8], none⟩ ∨
        ∃ new, Resolver.new parseGateway none (gatewayConfig "192.168.0.0/16" "x-new") = .ok new ∧
          a = gatewayQuery.answer new) := by
  have hrun : Trace (StepOf (turn parseGateway none (gatewayConfig "192.168.0.0/16" "x-new")
        gatewayQuery))
      (Race.start ⟨gatewayConfig "10.0.0.0/8" "x-old", [.v4 0x0a000000#32 8], none⟩)
      [.readConfig, .parseProxies]
      ⟨_, _, .loaded (gatewayConfig "10.0.0.0/8" "x-old"), .writing [.v4 0xc0a80000#32 16]⟩ :=
    Trace.of_foldlM id rfl
  have hold : Resolver.new parseGateway none (gatewayConfig "10.0.0.0/8" "x-old") =
      .ok ⟨gatewayConfig "10.0.0.0/8" "x-old", [.v4 0x0a000000#32 8], none⟩ :=
    Resolver.new_of_parse rfl
  refine ⟨_, _, _, hrun, rfl, rfl, ?_⟩
  exact resolve_sees_one_configuration parseGateway none _ gatewayQuery hold hrun rfl rfl
    (Or.inl (Or.inl (by decide)))

/-- **A client becomes a trusted administrator between two
configurations.** The old one does not trust its network, the new one does
not read its headers; both are valid and answer with the anonymous
identity. -/
theorem resolve_mixes_configurations :
    (∃ s t, Trace (StepOf (turn parseGateway none (gatewayConfig "192.168.0.0/16" "x-new")
          gatewayQuery))
        (Race.start ⟨gatewayConfig "10.0.0.0/8" "x-old", [.v4 0x0a000000#32 8], none⟩)
        [.readConfig, .parseProxies, .writeProxies] s ∧
      turn parseGateway none (gatewayConfig "192.168.0.0/16" "x-new") gatewayQuery s
        .readProxies = some t ∧
      t.reader = .answered (.ok ⟨"admin", "finance", "ledger", true⟩)) ∧
    Config.validate Config.noParsers (gatewayConfig "10.0.0.0/8" "x-old") = .ok () ∧
    Config.validate Config.noParsers (gatewayConfig "192.168.0.0/16" "x-new") = .ok () ∧
    gatewayQuery.answer ⟨gatewayConfig "10.0.0.0/8" "x-old", [.v4 0x0a000000#32 8], none⟩ =
      .ok anonymous ∧
    (Resolver.new parseGateway none (gatewayConfig "192.168.0.0/16" "x-new")).map
      gatewayQuery.answer = .ok (.ok anonymous) := by
  refine ⟨⟨_, _, Trace.of_foldlM id rfl, rfl, ?_⟩, by decide +kernel, by decide +kernel,
    by decide +kernel, by decide +kernel⟩
  exact congrArg Reader.answered (by decide +kernel)

end Identity

end InferQos
