import InferQos.Common.Trace
import InferQos.Config.File
import InferQos.Identity.Replacement
import InferQos.Proxy.System
import InferQos.Scheduler.Invariant
/-!
# Reloading the configuration

`serve` loads the file, builds the state and starts a loop that watches the
file. The loop remembers the bytes its live configuration came from, in
`last`, and skips a tick that finds them unchanged. It reads the file twice
in a tick, once for these bytes and once through `from_path`; the file is
anybody's to write between any two reads; and the mode given on the command
line is not in the file. `reload_coherent` says when `last` tells the truth.

The state is built once, from the first configuration. What it captures
follows the live configuration where `ensure_reload_compatible` sees to it,
and `captured_follows_iff` finds the limits of the queue left out.
-/

namespace InferQos

namespace Proxy

variable {F : Type} [Arith F]

/-! ## What is built once -/

/-- Which coordinator is connected. -/
inductive CoordinatorKind
  | memory
  | valkey (urlEnv : String)
  deriving DecidableEq

/-- **The long-lived components** of `AppState`, as far as a configuration
decides them. -/
structure Components (F : Type) where
  /-- The limit of each `PoolRuntime`. -/
  poolLimits : OrdMap String F
  coordinator : CoordinatorKind
  leaseTtl : ℕ
  /-- The configuration of the `OidcVerifier`. -/
  oidc : Option OidcSection
  scheduler : Scheduler.Config F

/-- The coordinator a configuration asks for, and the life of its leases. -/
def coordinatorOf : CoordinatorConfig → CoordinatorKind × ℕ
  | .memory => (.memory, 300000000000)
  | .valkey urlEnv leaseTtl => (.valkey urlEnv, leaseTtl)

/-- What `AppState::build` makes of a configuration. -/
def Components.build (config : ConfigFile F) : Components F where
  poolLimits := config.pools.mapVal (·.capacityUnits)
  coordinator := (coordinatorOf config.coordinator).1
  leaseTtl := (coordinatorOf config.coordinator).2
  oidc := config.oidcSection
  scheduler := schedulerConfig config.limits

/-- The limits are those of the running pools. -/
theorem Components.build_poolLimits {σ : Type} (config : ConfigFile F) (c : σ) :
    (System.build config.toConfig c).pools.mapVal (·.limit) =
      (Components.build config).poolLimits := by
  ext1
  simp [System.build, Components.build, OrdMap.mapVal]

/-- And the rest are the parameters the proxy runs with, for a coordinator
in memory. -/
theorem Components.build_params {config : ConfigFile F} (h : config.coordinator = .memory) :
    (Params.inMemory config.toConfig).scheduler = (Components.build config).scheduler ∧
      (Params.inMemory config.toConfig).leaseTtl = (Components.build config).leaseTtl := by
  refine ⟨rfl, ?_⟩
  unfold Components.build
  rw [h]
  rfl

/-! ## The loop -/

/-- `ensure_reload_compatible`. -/
def ensureReloadCompatible [DecidableEq F] (current new : ConfigFile F) : Except String Unit :=
  if current.server.listen = new.server.listen ∧ current.server.tls = new.server.tls ∧
      current.adminListen = new.adminListen ∧ current.coordinator = new.coordinator ∧
      current.poolSections = new.poolSections ∧ current.oidcSection = new.oidcSection then .ok ()
  else
    .error ("listener, coordinator, capacity pool, and OIDC issuer changes require a rolling " ++
      "restart")

/-- The mode of the command line in place of the file's. -/
def withMode (mode : Option Mode) (config : ConfigFile F) : ConfigFile F :=
  match mode with
  | none => config
  | some mode => { config with mode := mode }

/-- `AppState` as the loop sees it: the configuration it holds, the one
`IdentityResolver` holds, and what was built. -/
structure App (F : Type) where
  config : ConfigFile F
  identity : ConfigFile F
  components : Components F

/-- Where `serve` stands, and then its loop. -/
inductive ReloadPhase (F : Type)
  /-- `serve`: `Config::from_path`. -/
  | starting
  /-- The first read of the loop. The start-up read found `read`. -/
  | started (read : StoredFile)
  /-- `tick.tick().await`, the check of the drain, and the read of the tick. -/
  | ticking
  /-- `Config::from_path`, and what becomes of the candidate. -/
  | reading (raw : List UInt8)
  /-- `config.write().await`, and `last`. -/
  | swapping (raw : List UInt8) (new : ConfigFile F)
  /-- The loop was left. -/
  | stopped

/-- **The server and its file.** -/
structure Server (F : Type) where
  file : StoredFile
  app : Option (App F)
  last : Option (List UInt8)
  draining : Bool
  phase : ReloadPhase F

/-- What happens next. -/
inductive ReloadTurn
  /-- Somebody writes the file, removes it, or makes it unreadable. -/
  | write (file : StoredFile)
  /-- `serve` loads the file and builds the state. -/
  | serve
  | initialRead
  | tick
  | parse
  | swap
  /-- `begin_drain`. -/
  | drain

/-- Before `serve`. -/
def Server.start (file : StoredFile) : Server F := ⟨file, none, none, false, .starting⟩

section

variable [DecidableEq F] (L : Loader F) (parse : String → Except String Identity.IpNet)

/-- **A candidate**: loaded, compatible, and taken by the identity
resolver. -/
def candidate (current : ConfigFile F) (file : StoredFile) : Except ConfigError (ConfigFile F) := do
  let new ← L.fromPath file
  (ensureReloadCompatible current new).mapError .semantic
  -- `parse_proxies` is all that can fail in `replace_config`
  let _ ← (Identity.parseProxies parse new.toConfig).mapError fun e => .semantic e.toString
  .ok new

/-- **One turn.** A start that fails is none. -/
def Server.turn (mode : Option Mode) (s : Server F) : ReloadTurn → Option (Server F)
  | .write file => some { s with file := file }
  | .serve =>
    match s.phase, L.fromPath s.file with
    | .starting, .ok config =>
      let config := withMode mode config
      if (Identity.parseProxies parse config.toConfig).isOk then
        some
          { s with
            app := some ⟨config, config, .build config⟩
            phase := .started s.file }
      else none
    | _, _ => none
  | .initialRead =>
    match s.phase with
    | .started _ => some { s with last := s.file.read, phase := .ticking }
    | _ => none
  | .tick =>
    match s.phase with
    | .ticking =>
      if s.draining then some { s with phase := .stopped }
      else
        match s.file.read with
        | none => some s
        | some raw =>
          if s.last = some raw then some s else some { s with phase := .reading raw }
    | _ => none
  | .parse =>
    match s.phase, s.app with
    | .reading raw, some app =>
      match candidate L parse app.config s.file with
      | .error _ => some { s with phase := .ticking }
      | .ok new =>
        some { s with app := some { app with identity := new }, phase := .swapping raw new }
    | _, _ => none
  | .swap =>
    match s.phase, s.app with
    | .swapping raw new, some app =>
      some
        { s with
          app := some { app with config := new }
          last := some raw
          phase := .ticking }
    | _, _ => none
  | .drain => some { s with draining := true }

end

variable [DecidableEq F] {L : Loader F} {parse : String → Except String Identity.IpNet}
variable {mode : Option Mode} {s t : Server F} {current new config : ConfigFile F} {app : App F}
variable {file : StoredFile} {raw : List UInt8} {es : List ReloadTurn}

/-! ## Candidates -/

omit [Arith F] in
theorem compatible_of_ok (h : ensureReloadCompatible current new = .ok ()) :
    current.coordinator = new.coordinator ∧ current.poolSections = new.poolSections ∧
      current.oidcSection = new.oidcSection := by
  unfold ensureReloadCompatible at h
  split at h
  · rename_i hsame
    exact hsame.2.2.2
  · cases h

/-- A candidate is what the file says, and compatible. -/
theorem candidate_ok (h : candidate L parse current file = .ok new) :
    L.fromPath file = .ok new ∧ ensureReloadCompatible current new = .ok () := by
  unfold candidate at h
  obtain ⟨config, hload, h⟩ := bind_eq_ok.mp h
  obtain ⟨⟨⟩, hcompatible, h⟩ := bind_eq_ok.mp h
  obtain ⟨networks, -, h⟩ := bind_eq_ok.mp h
  cases h
  refine ⟨hload, ?_⟩
  cases hc : ensureReloadCompatible current new with
  | ok u => rfl
  | error e =>
    rw [hc] at hcompatible
    cases hcompatible

omit [Arith F] [DecidableEq F] in
theorem withMode_mode {m : Mode} (h : mode = some m) (config : ConfigFile F) :
    (withMode mode config).mode = m := by
  rw [h]
  rfl

omit [Arith F] [DecidableEq F] in
/-- A file in the mode of the command line is taken as it is. -/
theorem withMode_self (h : ∀ m, mode = some m → config.mode = m) : withMode mode config = config := by
  unfold withMode
  split
  · rfl
  · rename_i m
    rw [← h m rfl]

/-- **What one turn does.** -/
inductive Server.Turned (L : Loader F) (parse : String → Except String Identity.IpNet)
    (mode : Option Mode) (s : Server F) : ReloadTurn → Server F → Prop
  | write (file : StoredFile) : Turned L parse mode s (.write file) { s with file := file }
  /-- The server starts. -/
  | serve {config : ConfigFile F} : s.phase = .starting → L.fromPath s.file = .ok config →
      Turned L parse mode s .serve
        { s with
          app := some ⟨withMode mode config, withMode mode config, .build (withMode mode config)⟩
          phase := .started s.file }
  | initialRead {read : StoredFile} : s.phase = .started read →
      Turned L parse mode s .initialRead { s with last := s.file.read, phase := .ticking }
  /-- The loop ends with the drain. -/
  | stop : s.phase = .ticking → s.draining = true →
      Turned L parse mode s .tick { s with phase := .stopped }
  /-- The file cannot be read, or holds the bytes of `last`. -/
  | skip : s.phase = .ticking → (s.file.read = none ∨ s.file.read = s.last) →
      Turned L parse mode s .tick s
  | read {raw : List UInt8} : s.phase = .ticking → s.file.read = some raw → s.last ≠ some raw →
      Turned L parse mode s .tick { s with phase := .reading raw }
  /-- The candidate is turned down. -/
  | refuse {raw : List UInt8} {app : App F} {e : ConfigError} : s.phase = .reading raw →
      s.app = some app → candidate L parse app.config s.file = .error e →
      Turned L parse mode s .parse { s with phase := .ticking }
  /-- The identity resolver has taken the candidate. -/
  | accept {raw : List UInt8} {app : App F} {new : ConfigFile F} : s.phase = .reading raw →
      s.app = some app → candidate L parse app.config s.file = .ok new →
      Turned L parse mode s .parse
        { s with app := some { app with identity := new }, phase := .swapping raw new }
  | swap {raw : List UInt8} {new : ConfigFile F} {app : App F} : s.phase = .swapping raw new →
      s.app = some app →
      Turned L parse mode s .swap
        { s with app := some { app with config := new }, last := some raw, phase := .ticking }
  | drain : Turned L parse mode s .drain { s with draining := true }

/-- **Every turn is one of these.** -/
theorem Server.turned {e : ReloadTurn} (h : s.turn L parse mode e = some t) :
    s.Turned L parse mode e t := by
  cases e with
  | write file =>
    cases h
    exact .write file
  | serve =>
    simp only [Server.turn] at h
    split at h
    · rename_i config hphase hload
      split at h
      · cases h
        exact .serve hphase hload
      · cases h
    · cases h
  | initialRead =>
    simp only [Server.turn] at h
    split at h
    · rename_i read hphase
      cases h
      exact .initialRead hphase
    · cases h
  | tick =>
    simp only [Server.turn] at h
    split at h
    · rename_i hphase
      split at h
      · rename_i hdraining
        cases h
        exact .stop hphase hdraining
      · split at h
        · rename_i hnone
          cases h
          exact .skip hphase (Or.inl hnone)
        · rename_i raw hraw
          split at h
          · rename_i hlast
            cases h
            exact .skip hphase (Or.inr (hraw.trans hlast.symm))
          · rename_i hlast
            cases h
            exact .read hphase hraw hlast
    · cases h
  | parse =>
    simp only [Server.turn] at h
    split at h
    · rename_i raw app hphase happ
      split at h
      · rename_i e hcandidate
        cases h
        exact .refuse hphase happ hcandidate
      · rename_i new hcandidate
        cases h
        exact .accept hphase happ hcandidate
    · cases h
  | swap =>
    simp only [Server.turn] at h
    split at h
    · rename_i raw new app hphase happ
      cases h
      exact .swap hphase happ
    · cases h
  | drain =>
    cases h
    exact .drain

/-! ## When `last` tells the truth -/

/-- **Nothing is written between two reads that belong together**, or
nothing that reads differently: the start-up read and the first read of the
loop, and the two reads of a tick that reloads. And what a tick loads is in
the mode of the command line. -/
def steady (L : Loader F) (parse : String → Except String Identity.IpNet) (mode : Option Mode)
    (s : Server F) : ReloadTurn → Prop
  | .initialRead => ∀ read raw, s.phase = .started read → s.file = .bytes raw →
      L.fromPath (.bytes raw) = L.fromPath read
  | .parse => ∀ raw app new, s.phase = .reading raw → s.app = some app →
      candidate L parse app.config s.file = .ok new →
        L.fromPath (.bytes raw) = L.fromPath s.file ∧ ∀ m, mode = some m → new.mode = m
  | _ => True

/-- The state holds what these bytes say, in the mode of the command
line. -/
def App.Holds (L : Loader F) (mode : Option Mode) (app : App F) (raw : List UInt8) : Prop :=
  ∃ config, L.fromPath (.bytes raw) = .ok config ∧ app.config = withMode mode config ∧
    app.identity = withMode mode config

/-- **What holds at each position.** The mode of the command line is kept,
and what `last` promises is kept outside a reload. -/
def Server.Coherent (L : Loader F) (mode : Option Mode) (s : Server F) : Prop :=
  ∀ app, s.app = some app → (∀ m, mode = some m → app.config.mode = m) ∧
    match s.phase with
    | .starting => True
    | .started read => ∃ config, L.fromPath read = .ok config ∧
        app.config = withMode mode config ∧ app.identity = withMode mode config
    | .swapping raw new => L.fromPath (.bytes raw) = .ok new ∧ app.identity = new ∧
        withMode mode new = new
    | _ => ∀ raw, s.last = some raw → app.Holds L mode raw

omit [Arith F] [DecidableEq F] in
theorem StoredFile.eq_of_read (h : file.read = some raw) : file = .bytes raw := by
  cases file with
  | bytes raw' =>
    cases h
    rfl
  | _ => cases h

/-- **Every steady turn keeps it.** -/
theorem Server.Coherent.turn {e : ReloadTurn} (h : s.Coherent L mode)
    (hok : steady L parse mode s e) (hs : s.turn L parse mode e = some t) : t.Coherent L mode := by
  unfold Server.Coherent at h ⊢
  intro app happ
  cases Server.turned hs with
  | write file => exact h app happ
  | @serve config hphase hload =>
    cases happ
    exact ⟨fun m hm => withMode_mode hm config, config, hload, rfl, rfl⟩
  | @initialRead read hphase =>
    obtain ⟨hmode, hstarted⟩ := h app happ
    simp only [hphase] at hstarted
    obtain ⟨config, hload, hconfig, hidentity⟩ := hstarted
    refine ⟨hmode, fun raw hraw => ⟨config, ?_, hconfig, hidentity⟩⟩
    exact (hok read raw hphase (StoredFile.eq_of_read hraw)).trans hload
  | stop hphase hdraining =>
    have hticking := h app happ
    simp only [hphase] at hticking
    exact hticking
  | skip hphase hsame => exact h app happ
  | read hphase hraw hlast =>
    have hticking := h app happ
    simp only [hphase] at hticking
    exact hticking
  | refuse hphase happ₀ hcandidate =>
    have hreading := h app happ
    simp only [hphase] at hreading
    exact hreading
  | @accept raw app₀ new hphase happ₀ hcandidate =>
    cases happ
    obtain ⟨hsame, hnewMode⟩ := hok raw app₀ new hphase happ₀ hcandidate
    exact ⟨(h app₀ happ₀).1, hsame.trans (candidate_ok hcandidate).1, rfl, withMode_self hnewMode⟩
  | @swap raw new app₀ hphase happ₀ =>
    have hswapping := h app₀ happ₀
    simp only [hphase] at hswapping
    obtain ⟨-, hload, hidentity, hself⟩ := hswapping
    cases happ
    refine ⟨fun m hm => ?_, fun raw' hraw' => ?_⟩
    · exact (congrArg (·.mode) hself).symm.trans (withMode_mode hm new)
    · cases hraw'
      exact ⟨new, hload, hself.symm, hidentity.trans hself.symm⟩
  | drain => exact h app happ

/-- **Reloads are coherent in a steady run.** Whenever a tick would skip,
because the file holds the bytes of `last`, the configuration of the state
and that of its identity resolver are what `from_path` yields for these
bytes, in the mode of the command line; and that mode is never left. -/
theorem reload_coherent (L : Loader F) (parse : String → Except String Identity.IpNet)
    (mode : Option Mode) (file : StoredFile)
    (hrun : Trace (Guarded (steady L parse mode) (StepOf (Server.turn L parse mode)))
      (Server.start file) es s) (happ : s.app = some app) :
    (∀ raw, s.phase = .ticking → s.file = .bytes raw → s.last = some raw →
        app.Holds L mode raw) ∧
      ∀ m, mode = some m → app.config.mode = m := by
  have hcoherent : s.Coherent L mode := by
    refine hrun.invariant (P := Server.Coherent L mode) ?_ fun h hs => h.turn hs.1 hs.2
    intro app happ
    cases happ
  obtain ⟨hmode, hlast⟩ := hcoherent app happ
  refine ⟨fun raw hticking _ hraw => ?_, hmode⟩
  simp only [hticking] at hlast
  exact hlast raw hraw

/-! ## What is captured -/

/-- **The components follow the live configuration**, and so a request is
refused by the bounds in force. -/
def App.Follows (app : App F) : Prop :=
  app.components = .build app.config ∧
    ∀ now (s : Scheduler.Inner F) request b cw tw aw,
      Scheduler.enqueue app.components.scheduler now s request b cw tw aw =
        Scheduler.enqueue (schedulerConfig app.config.limits) now s request b cw tw aw

omit [DecidableEq F] in
theorem App.follows_iff : app.Follows ↔ app.components = .build app.config := by
  refine ⟨fun h => h.1, fun h => ⟨h, fun now s request b cw tw aw => ?_⟩⟩
  rw [h]
  rfl

omit [DecidableEq F] in
theorem schedulerConfig_eq_iff {limits limits' : Limits} :
    (schedulerConfig limits : Scheduler.Config F) = schedulerConfig limits' ↔
      limits.totalQueueDepth = limits'.totalQueueDepth ∧
        limits.totalQueueBytes = limits'.totalQueueBytes := by
  simp [schedulerConfig]

/-- **A compatible configuration builds the same components up to the
scheduler.** -/
theorem build_eq_iff (h : ensureReloadCompatible current new = .ok ()) :
    Components.build current = Components.build new ↔
      current.limits.totalQueueDepth = new.limits.totalQueueDepth ∧
        current.limits.totalQueueBytes = new.limits.totalQueueBytes := by
  obtain ⟨hcoordinator, hpools, hoidc⟩ := compatible_of_ok h
  have hlimits : current.pools = new.pools := by
    rw [current.pools_eq, new.pools_eq, hpools]
  unfold Components.build
  rw [hcoordinator, hlimits, hoidc, Components.mk.injEq, schedulerConfig_eq_iff (F := F)]
  simp

/-- A candidate about to be swapped in is compatible with the live
configuration. -/
def Server.Screened (s : Server F) : Prop :=
  ∀ app raw new, s.app = some app → s.phase = .swapping raw new →
    ensureReloadCompatible app.config new = .ok ()

theorem Server.Screened.turn {e : ReloadTurn} (h : s.Screened)
    (hs : s.turn L parse mode e = some t) : t.Screened := by
  intro app raw new happ hphase
  cases Server.turned hs with
  | write file => exact h app raw new happ hphase
  | skip => exact h app raw new happ hphase
  | drain => exact h app raw new happ hphase
  | accept _ _ hcandidate =>
    cases happ
    cases hphase
    exact (candidate_ok hcandidate).2
  | _ => cases hphase

/-- A swap keeps the components in step exactly when it keeps the limits of
the queue. -/
theorem Server.follows_turn {e : ReloadTurn} (hscreened : s.Screened)
    (h : ∀ app, s.app = some app → app.components = .build app.config)
    (hlimits : ∀ raw new app, e = .swap → s.phase = .swapping raw new → s.app = some app →
      app.config.limits.totalQueueDepth = new.limits.totalQueueDepth ∧
        app.config.limits.totalQueueBytes = new.limits.totalQueueBytes)
    (hs : s.turn L parse mode e = some t) (happ : t.app = some app) :
    app.components = .build app.config := by
  cases Server.turned hs with
  | serve =>
    cases happ
    rfl
  | @accept raw app₀ new hphase happ₀ =>
    cases happ
    exact h app₀ happ₀
  | @swap raw new app₀ hphase happ₀ =>
    cases happ
    have hsame := hlimits raw new app₀ rfl hphase happ₀
    exact (h app₀ happ₀).trans ((build_eq_iff (hscreened app₀ raw new happ₀ hphase)).mpr hsame)
  | _ => exact h app happ

/-- **What is captured follows the live configuration along a run exactly
when no accepted candidate changes the depth or the bytes of the queue.** -/
theorem captured_follows_iff (L : Loader F) (parse : String → Except String Identity.IpNet)
    (mode : Option Mode) (file : StoredFile) (es : List ReloadTurn) :
    (∀ pre t app, pre <+: es →
        Trace (StepOf (Server.turn L parse mode)) (Server.start file) pre t →
          t.app = some app → app.Follows) ↔
      ∀ pre t raw new app, pre ++ [.swap] <+: es →
        Trace (StepOf (Server.turn L parse mode)) (Server.start file) pre t →
          t.phase = .swapping raw new → t.app = some app →
            app.config.limits.totalQueueDepth = new.limits.totalQueueDepth ∧
              app.config.limits.totalQueueBytes = new.limits.totalQueueBytes := by
  have hscreened : ∀ {pre t}, Trace (StepOf (Server.turn L parse mode)) (Server.start file) pre t →
      t.Screened := fun ht =>
    ht.invariant (P := Server.Screened) (fun _ _ _ happ => by cases happ) Server.Screened.turn
  simp only [App.follows_iff]
  constructor
  · intro hfollows pre t raw new app hpre ht hphase happ
    have hswap : t.turn L parse mode .swap = some
        { t with app := some { app with config := new }, last := some raw, phase := .ticking } := by
      simp only [Server.turn, hphase, happ]
    have hbefore := hfollows pre t app ((List.prefix_append pre [.swap]).trans hpre) ht happ
    have hafter := hfollows _ _ _ hpre (ht.snoc hswap) rfl
    exact (build_eq_iff (hscreened ht app raw new happ hphase)).mp (hbefore.symm.trans hafter)
  · intro hlimits pre t app hpre ht happ
    refine ht.along (P := fun t => ∀ app, t.app = some app → app.components = .build app.config)
      (fun app happ => by cases happ) ?_ app happ
    intro pre' e t u hpre' ht h hs app happ
    refine Server.follows_turn (hscreened ht) h ?_ hs happ
    rintro raw new app rfl hphase happ
    exact hlimits pre' t raw new app (hpre'.trans hpre) ht hphase happ

/-! ## Runs of it -/

/-- A file with this text. -/
def fileOf (text : String) : StoredFile := .bytes text.toUTF8.data.toList

/-- A minimal configuration with a queue of one. -/
def shortQueue : Config ℚ :=
  { Config.minimal .enforce [] with
    limits := { Limits.default with totalQueueDepth := 1, totalQueueDepth_le := by decide } }

/-- A parser that knows three files. -/
def sampleLoader : Loader ℚ where
  env _ := none
  yaml
    | "shadow" => .ok (.ofMinimal (Config.minimal .shadow []) rfl rfl)
    | "enforce" => .ok (.ofMinimal (Config.minimal .enforce []) rfl rfl)
    | "short" => .ok (.ofMinimal shortQueue rfl rfl)
    | _ => .error "invalid type"
  ext := Config.noParsers

/-- The server starts undisturbed. -/
def starts : List ReloadTurn := [.serve, .initialRead]

/-- The file is edited and reloaded. -/
def reloads (text : String) : List ReloadTurn := [.write (fileOf text), .tick, .parse, .swap]

/-- The next tick skips, unless the server drains. -/
def Server.skips (s : Server F) : Bool :=
  match s.phase, s.file.read with
  | .ticking, some raw => s.last = some raw
  | _, _ => false

omit [Arith F] [DecidableEq F] in
theorem Server.skips_spec (h : s.skips = true) :
    ∃ raw, s.phase = .ticking ∧ s.file = .bytes raw ∧ s.last = some raw := by
  unfold Server.skips at h
  split at h
  · rename_i raw hphase hread
    exact ⟨raw, hphase, StoredFile.eq_of_read hread, of_decide_eq_true h⟩
  · cases h

/-- Nothing is written between reads that belong together. -/
def unchanged (s : Server F) : ReloadTurn → Bool
  | .initialRead =>
    match s.phase with
    | .started read => s.file = read
    | _ => true
  | .parse =>
    match s.phase with
    | .reading raw => s.file = .bytes raw
    | _ => true
  | _ => true

/-- Without a mode on the command line that is enough. -/
theorem steady_of_unchanged {e : ReloadTurn} (h : unchanged s e = true) :
    steady L parse none s e := by
  cases e with
  | initialRead =>
    intro read raw hphase hfile
    simp only [unchanged, hphase, decide_eq_true_eq] at h
    rw [← hfile, h]
  | parse =>
    intro raw app new hphase happ hnew
    simp only [unchanged, hphase, decide_eq_true_eq] at h
    exact ⟨by rw [h], fun m hm => by cases hm⟩
  | _ => trivial

/-- A file that is edited once is held once it is reloaded. -/
theorem reload_coherent_edited :
    ∃ s app raw, Trace (Guarded (steady sampleLoader (fun _ => .error "no networks") none)
        (StepOf (Server.turn sampleLoader (fun _ => .error "no networks") none)))
        (Server.start (fileOf "enforce")) (starts ++ reloads "shadow") s ∧ s.app = some app ∧
      s.phase = .ticking ∧ s.file = .bytes raw ∧ s.last = some raw ∧
      app.Holds sampleLoader none raw := by
  have hrun : ((starts ++ reloads "shadow").foldlM
      (fun s e => if unchanged s e
        then Server.turn sampleLoader (fun _ => .error "no networks") none s e else none)
      (Server.start (fileOf "enforce"))).any (fun s => s.skips && s.app.isSome) = true := by
    decide +kernel
  obtain ⟨s, htrace, hend⟩ := Trace.exists_guarded_of_any hrun
  obtain ⟨hskips, hsome⟩ := Bool.and_eq_true_iff.mp hend
  obtain ⟨raw, hphase, hfile, hlast⟩ := Server.skips_spec hskips
  obtain ⟨app, happ⟩ := Option.isSome_iff_exists.mp hsome
  have hsteady : Trace (Guarded (steady sampleLoader (fun _ => .error "no networks") none)
      (StepOf (Server.turn sampleLoader (fun _ => .error "no networks") none)))
      (Server.start (fileOf "enforce")) (starts ++ reloads "shadow") s :=
    htrace.mono fun hs => ⟨steady_of_unchanged hs.1, hs.2⟩
  exact ⟨s, app, raw, hsteady, happ, hphase, hfile, hlast,
    (reload_coherent _ _ _ _ hsteady happ).1 raw hphase hfile hlast⟩

omit [DecidableEq F] in
/-- The live mode tells that other bytes are held. -/
theorem App.not_holds_of_mode {m : Mode} (h : (L.fromPath (.bytes raw)).map (·.mode) = .ok m)
    (hne : app.config.mode ≠ m) : ¬ app.Holds L none raw := by
  rintro ⟨config, hload, hconfig, -⟩
  rw [hload] at h
  cases h
  exact hne (by rw [hconfig]; rfl)

/-- **A run after which a tick skips although the live configuration is
another one.** -/
theorem exists_stale {text : String} {es : List ReloadTurn} (live mode : Mode) (hne : live ≠ mode)
    (hrun : (es.foldlM (Server.turn sampleLoader (fun _ => .error "no networks") none)
      (Server.start (fileOf text))).any (fun s => s.skips && (s.app.any (·.config.mode = live) &&
        decide ((sampleLoader.fromPath s.file).map (·.mode) = .ok mode))) = true) :
    ∃ s app raw, Trace (StepOf (Server.turn sampleLoader (fun _ => .error "no networks") none))
        (Server.start (fileOf text)) es s ∧ s.app = some app ∧ s.phase = .ticking ∧
      s.file = .bytes raw ∧ s.last = some raw ∧ ¬ app.Holds sampleLoader none raw := by
  obtain ⟨s, htrace, hend⟩ := Trace.exists_of_any hrun
  obtain ⟨hskips, hend⟩ := Bool.and_eq_true_iff.mp hend
  obtain ⟨hlive, hfileMode⟩ := Bool.and_eq_true_iff.mp hend
  obtain ⟨raw, hphase, hfile, hlast⟩ := Server.skips_spec hskips
  obtain ⟨app, happ, hmode⟩ := (Option.any_eq_true _ _).mp hlive
  have hfileMode := of_decide_eq_true hfileMode
  rw [hfile] at hfileMode
  refine ⟨s, app, raw, htrace, happ, hphase, hfile, hlast, ?_⟩
  exact App.not_holds_of_mode hfileMode (by rw [of_decide_eq_true hmode]; exact hne)

/-- **Three ways to be stale.** The file is edited between the start-up read
and the first read of the loop. It is edited, and reverted between the two
reads of the tick that notices, and then edited again. And a server started
in shadow mode reloads a file that says otherwise. -/
theorem reload_incoherent :
    (∃ s app raw, Trace (StepOf (Server.turn sampleLoader (fun _ => .error "no networks") none))
        (Server.start (fileOf "enforce")) [.serve, .write (fileOf "shadow"), .initialRead] s ∧
      s.app = some app ∧ s.phase = .ticking ∧ s.file = .bytes raw ∧ s.last = some raw ∧
      ¬ app.Holds sampleLoader none raw) ∧
    (∃ s app raw, Trace (StepOf (Server.turn sampleLoader (fun _ => .error "no networks") none))
        (Server.start (fileOf "enforce"))
        (starts ++ [.write (fileOf "shadow"), .tick, .write (fileOf "enforce"), .parse, .swap,
          .write (fileOf "shadow")]) s ∧
      s.app = some app ∧ s.phase = .ticking ∧ s.file = .bytes raw ∧ s.last = some raw ∧
      ¬ app.Holds sampleLoader none raw) ∧
    ∃ s app, Trace (StepOf (Server.turn sampleLoader (fun _ => .error "no networks")
          (some .shadow)))
        (Server.start (fileOf "shadow")) (starts ++ reloads "enforce") s ∧ s.app = some app ∧
      app.config.mode = .enforce := by
  refine ⟨exists_stale .enforce .shadow (by decide) (by decide +kernel),
    exists_stale .enforce .shadow (by decide) (by decide +kernel), ?_⟩
  have hrun : ((starts ++ reloads "enforce").foldlM
      (Server.turn sampleLoader (fun _ => .error "no networks") (some .shadow))
      (Server.start (fileOf "shadow"))).any (·.app.any (·.config.mode = .enforce)) = true := by
    decide +kernel
  obtain ⟨s, htrace, hend⟩ := Trace.exists_of_any hrun
  obtain ⟨app, happ, hmode⟩ := (Option.any_eq_true _ _).mp hend
  exact ⟨s, app, htrace, happ, of_decide_eq_true hmode⟩

/-- A scheduler with one request waiting. -/
def oneWaiting : Scheduler.Inner ℚ :=
  Scheduler.exec (schedulerConfig Limits.default) [⟨0, .enqueue (Scheduler.sampleRequest 0) 1 1 1 1⟩]

/-- **A reload to a queue of one leaves the queue as long as it was.** An
`enqueue` that finds one request waiting is accepted, and the live
configuration would have it refused. -/
theorem reload_leaves_queue_bounds :
    ∃ s app, Trace (StepOf (Server.turn sampleLoader (fun _ => .error "no networks") none))
        (Server.start (fileOf "enforce")) (starts ++ reloads "short") s ∧ s.app = some app ∧
      app.config.limits.totalQueueDepth = 1 ∧
      (Scheduler.enqueue app.components.scheduler 0 oneWaiting (Scheduler.sampleRequest 1) 1 1 1
        1).1 = .ok 2 ∧
      (Scheduler.enqueue (schedulerConfig app.config.limits) 0 oneWaiting
        (Scheduler.sampleRequest 1) 1 1 1 1).1 = .error .depthLimit ∧
      ¬ app.Follows := by
  have hrun : ((starts ++ reloads "short").foldlM
      (Server.turn sampleLoader (fun _ => .error "no networks") none)
      (Server.start (fileOf "enforce"))).any
      (·.app.any fun app => app.config.limits.totalQueueDepth = 1 ∧
        (Scheduler.enqueue app.components.scheduler 0 oneWaiting (Scheduler.sampleRequest 1) 1 1 1
          1).1 = .ok 2 ∧
        (Scheduler.enqueue (schedulerConfig app.config.limits) 0 oneWaiting
          (Scheduler.sampleRequest 1) 1 1 1 1).1 = .error .depthLimit) = true := by
    decide +kernel
  obtain ⟨s, htrace, hend⟩ := Trace.exists_of_any hrun
  obtain ⟨app, happ, hbounds⟩ := (Option.any_eq_true _ _).mp hend
  obtain ⟨hlive, hbuilt, hasked⟩ := of_decide_eq_true hbounds
  refine ⟨s, app, htrace, happ, hlive, hbuilt, hasked, fun hfollows => ?_⟩
  rw [hfollows.2, hasked] at hbuilt
  cases hbuilt

end Proxy

end InferQos
