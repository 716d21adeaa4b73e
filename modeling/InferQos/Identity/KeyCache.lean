import InferQos.Common.Trace
import InferQos.Identity.Oidc
/-!
# The cache of signing keys

A call of `verify` that does not find its key holds the read guard of its
lookup while `refresh` asks for the same lock to write: it waits for its
own guard. Hence the keys are those of the set read at start-up for as long
as the process runs, `accepted_under_startup_key`, and one call that has
fetched a key set stops every call after it, until the request it belongs
to is dropped, `missed_key_blocks_verification`.
-/

namespace InferQos

namespace Identity

variable {Jwk Key : Type} {lib : TokenLibrary Jwk Key} {cfg : OidcSettings}
variable {parseHost : Bool → String → Except String String} {net : Network Jwk}

/-! ## Steps -/

namespace Verifier

variable {v w : Verifier Key} {e : VerifyEvent Jwk} {n : ℕ}

/-- **What one step does.** -/
inductive Stepped (lib : TokenLibrary Jwk Key) (cfg : OidcSettings) (v : Verifier Key) :
    VerifyEvent Jwk → Verifier Key → Prop
  | refuse {token : String} {e : IdentityError} : present lib token = .error e →
      Stepped lib cfg v (.verify token)
        { v.goto v.next (.answered token (.error e)) with next := v.next + 1 }
  | begin {token : String} {p : Presented} : present lib token = .ok p →
      Stepped lib cfg v (.verify token)
        { v.goto v.next (.reading p) with
          lock := v.lock.request v.next .read
          next := v.next + 1 }
  | hit {now n : ℕ} {p : Presented} {key : Key} {lock : RwLock ℕ} :
      v.lock.grant = some ((n, .read), lock) → v.tasks.get? n = some (.reading p) →
      v.keys.get? p.kid = some key →
      Stepped lib cfg v (.grant now)
        ({ v with lock := lock }.answer n p.token (accept lib cfg now p key))
  | miss {now n : ℕ} {p : Presented} {lock : RwLock ℕ} :
      v.lock.grant = some ((n, .read), lock) → v.tasks.get? n = some (.reading p) →
      v.keys.get? p.kid = none →
      Stepped lib cfg v (.grant now) ({ v with lock := lock }.goto n (.refreshing p))
  | write {now n : ℕ} {p : Presented} {keys : OrdMap String Key} {lock : RwLock ℕ} :
      v.lock.grant = some ((n, .write), lock) → v.tasks.get? n = some (.writing p keys) →
      Stepped lib cfg v (.grant now)
        { { v with lock := lock }.goto n (.rereading p) with
          keys := keys
          lock := (lock.release n .write).request n .read }
  | reread {now n : ℕ} {p : Presented} {lock : RwLock ℕ}
      {result : Except IdentityError IdentityContext} :
      v.lock.grant = some ((n, .read), lock) → v.tasks.get? n = some (.rereading p) →
      Stepped lib cfg v (.grant now) ({ v with lock := lock }.answer n p.token result)
  | failed {n : ℕ} {p : Presented} {fetched : Fetched Jwk} {e : IdentityError} :
      v.tasks.get? n = some (.refreshing p) → readKeys lib fetched = .error e →
      Stepped lib cfg v (.respond n fetched) (v.answer n p.token (.error e))
  | fetched {n : ℕ} {p : Presented} {fetched : Fetched Jwk} {keys : OrdMap String Key} :
      v.tasks.get? n = some (.refreshing p) → readKeys lib fetched = .ok keys →
      Stepped lib cfg v (.respond n fetched)
        { v.goto n (.writing p keys) with lock := v.lock.request n .write }
  | drop {n : ℕ} {phase : VerifyPhase Key} : v.tasks.get? n = some phase →
      phase.isPending = true →
      Stepped lib cfg v (.drop n) { v.goto n .dropped with lock := v.lock.abandon n }

theorem stepped (h : v.step lib cfg e = some w) : Stepped lib cfg v e w := by
  revert h
  cases e with
  | verify token =>
    intro h
    simp only [step] at h
    split at h
    · cases h
      exact .refuse ‹_›
    · cases h
      exact .begin ‹_›
  | grant now =>
    intro h
    simp only [step] at h
    split at h
    · cases h
    · rename_i r lock hgrant
      split at h
      · cases h
      · rename_i phase hphase
        revert h
        obtain ⟨n, a⟩ := r
        fun_cases granted lib cfg now { v with lock := lock } n phase a with
        | case1 p key hkey =>
          intro h
          cases h
          exact .hit hgrant hphase hkey
        | case2 p hkey =>
          intro h
          cases h
          exact .miss hgrant hphase hkey
        | case3 p keys =>
          intro h
          cases h
          exact .write hgrant hphase
        | case4 p key =>
          intro h
          cases h
          exact .reread hgrant hphase
        | case5 p =>
          intro h
          cases h
          exact .reread hgrant hphase
        | case6 =>
          intro h
          cases h
  | respond n fetched =>
    intro h
    simp only [step] at h
    split at h
    · rename_i p hphase
      split at h
      · cases h
        exact .failed hphase ‹_›
      · cases h
        exact .fetched hphase ‹_›
    · cases h
  | drop n =>
    intro h
    simp only [step] at h
    split at h
    · cases h
    · rename_i phase hphase
      split at h
      · cases h
        exact .drop hphase ‹_›
      · cases h

/-! ## A sample -/

/-- Two tokens, each naming a key of its own. -/
def sampleLibrary : TokenLibrary (String × ℕ) ℕ where
  decodeHeader token :=
    if token = "old" then some ⟨.rs256, some "first"⟩
    else if token = "new" then some ⟨.es256, some "second"⟩
    else none
  keyId jwk := some jwk.1
  fromJwk jwk := .ok jwk.2
  decode _ _ _ _ :=
    some (.object [("sub", .string "someone"), ("tenant", .string "acme"), ("app", .string "chat")])

def sampleSettings : OidcSettings where
  issuer := "https://idp/"
  audience := "inferqos"
  required := true
  jwksUrl := none
  principalClaim := "sub"
  tenantClaim := "tenant"
  applicationClaim := "app"

/-- A network that knows the first key. -/
def sampleNetwork : Network (String × ℕ) where
  discovery _ := .ok "https://idp/keys"
  jwks _ := .ok ⟨none, none, .ok [("first", 1)]⟩

/-- The verifier built on it. -/
def sampleVerifier : Verifier ℕ where
  jwksUrl := ⟨⟨"https", some "idp", none⟩, false, "/keys".toList⟩
  keys := OrdMap.ofList [("first", 1)]
  lock := RwLock.free
  tasks := ∅
  next := 0

theorem sampleVerifier_new :
    Verifier.new sampleLibrary sampleSettings (fun _ host => .ok host) sampleNetwork =
      .ok sampleVerifier := rfl

/-! ## The keys never change -/

/-- **What a position says**, the keys being `start`. -/
def Explained (lib : TokenLibrary Jwk Key) (cfg : OidcSettings) (start : OrdMap String Key) :
    VerifyPhase Key → Prop
  | .reading p => present lib p.token = .ok p
  | .refreshing p => present lib p.token = .ok p ∧ start.get? p.kid = none
  | .writing p _ => present lib p.token = .ok p ∧ start.get? p.kid = none
  | .rereading _ => False
  | .answered token result =>
    (∃ e, present lib token = .error e ∧ result = .error e) ∨
      ∃ p, present lib token = .ok p ∧
        ((∃ now key, start.get? p.kid = some key ∧ result = accept lib cfg now p key) ∨
          start.get? p.kid = none ∧ ∃ detail, result = .error (.jwks detail))
  | .dropped => True

/-- **The calls and the lock agree**, and the keys are those of the start. -/
structure Consistent (lib : TokenLibrary Jwk Key) (cfg : OidcSettings) (start : OrdMap String Key)
    (v : Verifier Key) : Prop where
  keys : v.keys = start
  guards : ∀ m a, (m, a) ∈ v.lock.guards ↔ ∃ phase, v.tasks.get? m = some phase ∧ a ∈ phase.holds
  queue : ∀ m a, (m, a) ∈ v.lock.queue ↔
    ∃ phase, v.tasks.get? m = some phase ∧ phase.awaits = some a
  nodup : v.lock.queue.Nodup
  tasks : ∀ m phase, v.tasks.get? m = some phase → m < v.next ∧ Explained lib cfg start phase

namespace Consistent

variable {start : OrdMap String Key} {phase : VerifyPhase Key}

/-- **One call moves**, and the lock changes for it alone. -/
theorem move (h : Consistent lib cfg start v) (hkeys : w.keys = v.keys)
    (htasks : w.tasks = v.tasks.insert n phase) (hnext : v.next ≤ w.next) (hn : n < w.next)
    (hguards : ∀ m a, (m, a) ∈ w.lock.guards ↔
      if m = n then a ∈ phase.holds else (m, a) ∈ v.lock.guards)
    (hqueue : ∀ m a, (m, a) ∈ w.lock.queue ↔
      if m = n then phase.awaits = some a else (m, a) ∈ v.lock.queue)
    (hnodup : w.lock.queue.Nodup) (hphase : Explained lib cfg start phase) :
    Consistent lib cfg start w where
  keys := hkeys.trans h.keys
  guards m a := by
    rw [hguards, htasks, OrdMap.get?_insert]
    split
    · simp
    · exact h.guards m a
  queue m a := by
    rw [hqueue, htasks, OrdMap.get?_insert]
    split
    · simp
    · exact h.queue m a
  nodup := hnodup
  tasks m phase' hm := by
    rw [htasks, OrdMap.get?_insert] at hm
    split at hm
    · subst m
      cases hm
      exact ⟨hn, hphase⟩
    · obtain ⟨hlt, hex⟩ := h.tasks m phase' hm
      exact ⟨hlt.trans_le hnext, hex⟩

/-- A call that has not begun holds nothing. -/
theorem notMem_guards_next (h : Consistent lib cfg start v) (a : Access) :
    (v.next, a) ∉ v.lock.guards := by
  intro hmem
  obtain ⟨phase, hphase, -⟩ := (h.guards _ _).mp hmem
  exact Nat.lt_irrefl _ (h.tasks _ _ hphase).1

/-- And waits for nothing. -/
theorem notMem_queue_next (h : Consistent lib cfg start v) (a : Access) :
    (v.next, a) ∉ v.lock.queue := by
  intro hmem
  obtain ⟨phase, hphase, -⟩ := (h.queue _ _).mp hmem
  exact Nat.lt_irrefl _ (h.tasks _ _ hphase).1

/-- What a call with a known position holds. -/
theorem mem_guards (h : Consistent lib cfg start v) (hn : v.tasks.get? n = some phase)
    (a : Access) : (n, a) ∈ v.lock.guards ↔ a ∈ phase.holds := by
  rw [h.guards, hn]
  simp

/-- What a call with a known position waits for. -/
theorem mem_queue (h : Consistent lib cfg start v) (hn : v.tasks.get? n = some phase)
    (a : Access) : (n, a) ∈ v.lock.queue ↔ phase.awaits = some a := by
  rw [h.queue, hn]
  simp

/-- **A guard given**: the call that gets it waits for nothing else. -/
theorem grant (h : Consistent lib cfg start v) {b : Access} {lock : RwLock ℕ}
    (hgrant : v.lock.grant = some ((n, b), lock)) :
    (∀ m a, (m, a) ∈ lock.guards ↔ (m, a) = (n, b) ∨ (m, a) ∈ v.lock.guards) ∧
      (∀ m a, (m, a) ∈ lock.queue ↔ m ≠ n ∧ (m, a) ∈ v.lock.queue) ∧ lock.queue.Nodup := by
  obtain ⟨rest, hqueue, -, rfl⟩ := RwLock.grant_eq_some hgrant
  have hnodup := h.nodup
  rw [hqueue, List.nodup_cons] at hnodup
  refine ⟨fun m a => List.mem_cons, fun m a => ⟨fun hm => ⟨?_, ?_⟩, fun hm => ?_⟩, hnodup.2⟩
  · rintro rfl
    obtain ⟨phase, hphase, hawaits⟩ := (h.queue m b).mp (hqueue ▸ List.mem_cons_self)
    have hsame := (h.mem_queue hphase a).mp (hqueue ▸ List.mem_cons_of_mem _ hm)
    rw [hawaits] at hsame
    cases hsame
    exact hnodup.1 hm
  · exact hqueue ▸ List.mem_cons_of_mem _ hm
  · obtain ⟨hne, hm⟩ := hm
    rw [hqueue] at hm
    rcases List.mem_cons.mp hm with heq | hm
    · cases heq
      exact absurd rfl hne
    · exact hm

/-- A guard given and given back at once, with the answer. -/
theorem answer_granted (h : Consistent lib cfg start v) {lock : RwLock ℕ} {token : String}
    {result : Except IdentityError IdentityContext} {p : Presented}
    (hgrant : v.lock.grant = some ((n, .read), lock)) (hn : v.tasks.get? n = some (.reading p))
    (hresult : Explained lib cfg start (.answered token result)) :
    Consistent lib cfg start ({ v with lock := lock }.answer n token result) := by
  obtain ⟨hguards, hqueue, hnodup⟩ := h.grant hgrant
  refine h.move rfl rfl le_rfl (h.tasks n _ hn).1 (fun m a => ?_) (fun m a => ?_) hnodup hresult
  · have hholds := h.mem_guards hn a
    simp only [answer, goto, RwLock.mem_guards_release, hguards, VerifyPhase.holds] at hholds ⊢
    grind
  · simp only [answer, goto, RwLock.release, hqueue, VerifyPhase.awaits]
    grind

/-- **Every step keeps it.** -/
theorem step (h : Consistent lib cfg start v) (hs : v.step lib cfg e = some w) :
    Consistent lib cfg start w := by
  cases stepped hs with
  | refuse hp =>
    refine h.move rfl rfl (Nat.le_succ _) (Nat.lt_succ_self _) (fun m a => ?_) (fun m a => ?_)
      h.nodup (Or.inl ⟨_, hp, rfl⟩)
    · have hnone := h.notMem_guards_next a
      simp only [goto, VerifyPhase.holds]
      grind
    · have hnone := h.notMem_queue_next a
      simp only [goto, VerifyPhase.awaits]
      grind
  | @begin token p hp =>
    have hphase : present lib p.token = .ok p := (present_token hp).symm ▸ hp
    refine h.move rfl rfl (Nat.le_succ _) (Nat.lt_succ_self _) (fun m a => ?_) (fun m a => ?_)
      ?_ hphase
    · have hnone := h.notMem_guards_next a
      simp only [RwLock.request, VerifyPhase.holds]
      grind
    · have hnone := h.notMem_queue_next a
      simp only [RwLock.mem_queue_request, VerifyPhase.awaits]
      grind
    · exact List.Nodup.append h.nodup (List.nodup_singleton _)
        (List.disjoint_singleton.mpr (h.notMem_queue_next _))
  | @hit now n p key lock hgrant hn hkey =>
    rw [h.keys] at hkey
    have hp := (h.tasks n _ hn).2
    exact h.answer_granted hgrant hn (Or.inr ⟨p, hp, Or.inl ⟨now, key, hkey, rfl⟩⟩)
  | @miss now n p lock hgrant hn hkey =>
    rw [h.keys] at hkey
    obtain ⟨hguards, hqueue, hnodup⟩ := h.grant hgrant
    refine h.move rfl rfl le_rfl (h.tasks n _ hn).1 (fun m a => ?_) (fun m a => ?_) hnodup
      ⟨(h.tasks n _ hn).2, hkey⟩
    · have hholds := h.mem_guards hn a
      simp only [goto, hguards, VerifyPhase.holds] at hholds ⊢
      grind
    · simp only [goto, hqueue, VerifyPhase.awaits]
      grind
  | @write now n p keys lock hgrant hn =>
    -- the guard of the scrutinee is still out
    obtain ⟨rest, -, hadmits, -⟩ := RwLock.grant_eq_some hgrant
    have hholds := (h.mem_guards hn .read).mpr List.mem_cons_self
    rw [RwLock.admits, List.isEmpty_iff] at hadmits
    rw [hadmits] at hholds
    cases hholds
  | @reread now n p lock result hgrant hn => exact (h.tasks n _ hn).2.elim
  | @failed n p fetched e hn hread =>
    obtain ⟨detail, rfl⟩ := readKeys_error hread
    obtain ⟨hlt, hp, hnone⟩ := h.tasks n _ hn
    refine h.move rfl rfl le_rfl hlt (fun m a => ?_) (fun m a => ?_) h.nodup
      (Or.inr ⟨p, hp, Or.inr ⟨hnone, detail, rfl⟩⟩)
    · have hholds := h.mem_guards hn a
      simp only [answer, goto, RwLock.mem_guards_release, VerifyPhase.holds] at hholds ⊢
      grind
    · have hawaits := h.mem_queue hn a
      simp only [answer, goto, RwLock.release, VerifyPhase.awaits] at hawaits ⊢
      grind
  | @fetched n p fetched keys hn hread =>
    obtain ⟨hlt, hp, hnone⟩ := h.tasks n _ hn
    refine h.move rfl rfl le_rfl hlt (fun m a => ?_) (fun m a => ?_) ?_ ⟨hp, hnone⟩
    · have hholds := h.mem_guards hn a
      simp only [RwLock.request, VerifyPhase.holds] at hholds ⊢
      grind
    · have hawaits := h.mem_queue hn a
      simp only [RwLock.mem_queue_request, VerifyPhase.awaits] at hawaits ⊢
      grind
    · refine List.Nodup.append h.nodup (List.nodup_singleton _) (List.disjoint_singleton.mpr ?_)
      rw [h.mem_queue hn]
      intro hawaits
      cases hawaits
  | @drop n phase hn hpending =>
    refine h.move rfl rfl le_rfl (h.tasks n _ hn).1 (fun m a => ?_) (fun m a => ?_)
      (h.nodup.filter _) trivial
    · simp only [RwLock.mem_guards_abandon, VerifyPhase.holds]
      grind
    · simp only [RwLock.mem_queue_abandon, VerifyPhase.awaits]
      grind

theorem new (h : Verifier.new lib cfg parseHost net = .ok v) : Consistent lib cfg v.keys v := by
  unfold Verifier.new at h
  split at h
  · cases h
  · split at h
    · cases h
    · cases h
      refine ⟨rfl, fun m a => ?_, fun m a => ?_, List.nodup_nil, fun m phase hm => ?_⟩
      · simp [RwLock.free]
      · simp [RwLock.free]
      · cases hm

theorem run (h : Consistent lib cfg start v) {es : List (VerifyEvent Jwk)}
    (hrun : Trace (StepOf (Verifier.step lib cfg)) v es w) : Consistent lib cfg start w :=
  hrun.invariant h fun h hs => h.step hs

end Consistent

/-- The keys of a new verifier. -/
theorem new_readKeys (h : Verifier.new lib cfg parseHost net = .ok v) :
    (v.jwksUrl.scheme = "https" ∨ v.jwksUrl.host = some "localhost") ∧
      readKeys lib (net.jwks v.jwksUrl) = .ok v.keys := by
  unfold Verifier.new at h
  split at h
  · cases h
  · rename_i url hurl
    split at h
    · cases h
    · rename_i keys hkeys
      cases h
      exact ⟨findJwksUrl_secure hurl, hkeys⟩

/-- **An identity is accepted under a key read at start-up.** Whatever calls
are made, whatever the network answers them and in which order they go on:
the token named a key of the set that was read over TLS, or from this
machine, when the process started, it was decoded under that key for the
configured issuer and audience, and the identity is what its claims say. -/
theorem accepted_under_startup_key {es : List (VerifyEvent Jwk)} {token : String}
    {identity : IdentityContext} (hnew : Verifier.new lib cfg parseHost net = .ok v)
    (hrun : Trace (StepOf (Verifier.step lib cfg)) v es w)
    (hn : w.tasks.get? n = some (.answered token (.ok identity))) :
    (v.jwksUrl.scheme = "https" ∨ v.jwksUrl.host = some "localhost") ∧
      ∃ response set, net.jwks v.jwksUrl = .ok response ∧ response.json = .ok set ∧
        ∃ jwk ∈ set, ∃ kid key alg now claims, lib.keyId jwk = some kid ∧
          lib.fromJwk jwk = .ok key ∧ lib.decodeHeader token = some ⟨alg, some kid⟩ ∧
          alg ∈ signingAlgorithms ∧
          lib.decode now token key (validation cfg alg) = some claims ∧
          ReadFrom cfg claims identity := by
  obtain ⟨hsecure, hkeys⟩ := new_readKeys hnew
  have hexplained := (((Consistent.new hnew).run hrun).tasks n _ hn).2
  obtain ⟨e, -, he⟩ | ⟨p, hp, ⟨now, key, hkey, haccept⟩ | ⟨-, detail, he⟩⟩ := hexplained
  · cases he
  · obtain ⟨response, set, hresponse, hjson, jwk, hjwk, hkid, hfrom⟩ := readKeys_get? hkeys hkey
    obtain ⟨halg, hheader⟩ := present_header hp
    obtain ⟨claims, hdecode, hread⟩ := accept_ok haccept.symm
    rw [present_token hp] at hdecode
    exact ⟨hsecure, response, set, hresponse, hjson, jwk, hjwk, p.kid, key, p.alg, now, claims, hkid,
      hfrom, hheader, halg, hdecode, hread⟩
  · cases he

theorem accepted_under_startup_key_known :
    ∃ w, Trace (StepOf (Verifier.step sampleLibrary sampleSettings)) sampleVerifier
        [.verify "old", .grant 0] w ∧
      w.tasks.get? 0 = some (.answered "old" (.ok ⟨"someone", "acme", "chat", true⟩)) ∧
      ∃ claims, ReadFrom sampleSettings claims ⟨"someone", "acme", "chat", true⟩ := by
  obtain ⟨w, hw, hn⟩ : ∃ w, [VerifyEvent.verify "old", .grant 0].foldlM
      (Verifier.step sampleLibrary sampleSettings) sampleVerifier = some w ∧
      w.tasks.get? 0 = some (.answered "old" (.ok ⟨"someone", "acme", "chat", true⟩)) :=
    ⟨_, rfl, rfl⟩
  have hrun := Trace.append_foldlM Trace.nil hw
  obtain ⟨-, -, -, -, -, -, -, -, -, -, -, claims, -, -, -, -, -, hread⟩ :=
    accepted_under_startup_key sampleVerifier_new hrun hn
  exact ⟨w, hrun, hn, claims, hread⟩

/-! ## One call stops the others -/

/-- Where the calls made after `n` asked to write can stand: before the
lock, or refused without it. -/
def Kept (lib : TokenLibrary Jwk Key) : VerifyPhase Key → Prop
  | .reading _ => True
  | .dropped => True
  | .answered token result =>
    present lib token = .error .invalidToken ∧ result = .error .invalidToken
  | _ => False

/-- **The calls from `first` on wait behind `n`.** -/
structure Held (lib : TokenLibrary Jwk Key) (n first : ℕ) (phase : VerifyPhase Key)
    (v : Verifier Key) : Prop where
  writing : v.tasks.get? n = some phase
  wedged : v.lock.Wedged n (first ≤ ·)
  next : first ≤ v.next
  late : ∀ m phase, first ≤ m → v.tasks.get? m = some phase → Kept lib phase

namespace Held

variable {start : OrdMap String Key} {first k : ℕ} {p : Presented} {keys : OrdMap String Key}
variable {phase phase' : VerifyPhase Key}

/-- Another call moves. -/
theorem move (h : Held lib n first phase v) (hk : n ≠ k) (htasks : w.tasks = v.tasks.insert k phase')
    (hnext : v.next ≤ w.next) (hwedged : w.lock.Wedged n (first ≤ ·))
    (hlate : first ≤ k → Kept lib phase') : Held lib n first phase w where
  writing := by rw [htasks, OrdMap.get?_insert_of_ne hk, h.writing]
  wedged := hwedged
  next := h.next.trans hnext
  late m phase hm hphase := by
    rw [htasks, OrdMap.get?_insert] at hphase
    split at hphase
    · subst m
      cases hphase
      exact hlate hm
    · exact h.late m phase hm hphase

/-- **They stay behind it**, while its client is there. -/
theorem step (h : Held lib n first (.writing p keys) v) (hc : Consistent lib cfg start v)
    (hs : v.step lib cfg e = some w) (he : e ≠ .drop n) :
    Held lib n first (.writing p keys) w := by
  have hne : ∀ {k : ℕ} {phase : VerifyPhase Key}, v.tasks.get? k = some phase →
      phase ≠ .writing p keys → n ≠ k := by
    rintro k phase hk hphase rfl
    rw [h.writing] at hk
    exact hphase (Option.some.inj hk).symm
  have hnew : n ≠ v.next := (hc.tasks n _ h.writing).1.ne
  cases stepped hs with
  | refuse hp =>
    obtain rfl := present_error hp
    exact h.move hnew rfl (Nat.le_succ _) h.wedged fun _ => ⟨hp, rfl⟩
  | begin hp => exact h.move hnew rfl (Nat.le_succ _) h.wedged.request fun _ => trivial
  | @hit now k q key lock hgrant hk hkey =>
    have hnk := hne hk (by rintro ⟨⟩)
    obtain ⟨-, hearly, hwedged⟩ := h.wedged.grant hgrant
    exact h.move hnk rfl le_rfl (hwedged.release hnk.symm) fun hle => absurd hle hearly
  | @miss now k q lock hgrant hk hkey =>
    obtain ⟨-, hearly, hwedged⟩ := h.wedged.grant hgrant
    exact h.move (hne hk (by rintro ⟨⟩)) rfl le_rfl hwedged fun hle => absurd hle hearly
  | @write now k q keys' lock hgrant hk =>
    obtain ⟨hwrite, hearly, hwedged⟩ := h.wedged.grant hgrant
    have hnk : n ≠ k := by
      rintro rfl
      exact hwrite rfl
    exact h.move hnk rfl le_rfl (hwedged.release hnk.symm).request fun hle => absurd hle hearly
  | @reread now k q lock result hgrant hk => exact (hc.tasks k _ hk).2.elim
  | @failed k q fetched e hk hread =>
    have hnk := hne hk (by rintro ⟨⟩)
    exact h.move hnk rfl le_rfl (h.wedged.release hnk.symm) fun hle => (h.late k _ hle hk).elim
  | @fetched k q fetched keys' hk hread =>
    exact h.move (hne hk (by rintro ⟨⟩)) rfl le_rfl h.wedged.request
      fun hle => (h.late k _ hle hk).elim
  | @drop k phase hk hpending =>
    have hnk : n ≠ k := by
      rintro rfl
      exact he rfl
    exact h.move hnk rfl le_rfl (h.wedged.abandon hnk.symm) fun _ => trivial

/-- A call that asks to write stops the calls to come. -/
theorem of_writing (hc : Consistent lib cfg start v)
    (hn : v.tasks.get? n = some (.writing p keys)) : Held lib n v.next (.writing p keys) v where
  writing := hn
  wedged := by
    have hearly : ∀ {m a}, (m, a) ∈ v.lock.guards ∨ (m, a) ∈ v.lock.queue → ¬ v.next ≤ m := by
      intro m a hm
      have hphase : ∃ phase, v.tasks.get? m = some phase := by
        rcases hm with hm | hm
        · obtain ⟨phase, hphase, -⟩ := (hc.guards m a).mp hm
          exact ⟨phase, hphase⟩
        · obtain ⟨phase, hphase, -⟩ := (hc.queue m a).mp hm
          exact ⟨phase, hphase⟩
      obtain ⟨phase, hphase⟩ := hphase
      exact Nat.not_le.mpr (hc.tasks m phase hphase).1
    obtain ⟨ahead, behind, hqueue⟩ := List.append_of_mem ((hc.mem_queue hn .write).mpr rfl)
    refine ⟨⟨.read, (hc.mem_guards hn .read).mpr List.mem_cons_self⟩, ⟨ahead, behind, hqueue, ?_⟩, ?_⟩
    · exact fun e he => hearly (Or.inr (hqueue ▸ List.mem_append_left _ he))
    · exact fun e he => hearly (Or.inl he)
  next := le_rfl
  late m phase hm hphase := absurd (hc.tasks m phase hphase).1 (Nat.not_lt.mpr hm)

end Held

/-- **A key that is not cached stops the verification of every token after
it.** Once a call has fetched a key set for a key it did not find, it waits
for its own guard: as long as its client stays, whatever else happens, it
is not answered, the keys remain those of the start, and every call made
from then on waits for the lock, is dropped, or has been refused for its
header before it asked for the lock. Of the calls that named a key the
start-up set does not have, none was answered but with the failure of its
fetch. -/
theorem missed_key_blocks_verification {es fs : List (VerifyEvent Jwk)} {u : Verifier Key}
    {p : Presented} {keys : OrdMap String Key}
    (hnew : Verifier.new lib cfg parseHost net = .ok v)
    (hrun : Trace (StepOf (Verifier.step lib cfg)) v es w)
    (hn : w.tasks.get? n = some (.writing p keys))
    (hrest : Trace (StepOf (Verifier.step lib cfg)) w fs u) (hstays : ∀ e ∈ fs, e ≠ .drop n) :
    u.keys = v.keys ∧ u.tasks.get? n = some (.writing p keys) ∧
      (∀ m phase, w.next ≤ m → u.tasks.get? m = some phase →
        (∃ q, phase = .reading q) ∨ phase = .dropped ∨
          ∃ token, present lib token = .error .invalidToken ∧
            phase = .answered token (.error .invalidToken)) ∧
      ∀ m token q result, u.tasks.get? m = some (.answered token result) →
        present lib token = .ok q → v.keys.get? q.kid = none →
        ∃ detail, result = .error (.jwks detail) := by
  have hw := (Consistent.new hnew).run hrun
  have hu := hw.run hrest
  have hheld : Held lib n w.next (.writing p keys) u := by
    have hboth : Consistent lib cfg v.keys u ∧ Held lib n w.next (.writing p keys) u := by
      refine hrest.along (P := fun t => Consistent lib cfg v.keys t ∧
        Held lib n w.next (.writing p keys) t) ⟨hw, Held.of_writing hw hn⟩
        fun {pre e t t'} hpre _ ⟨hc, hh⟩ hs => ⟨hc.step hs, hh.step hc hs ?_⟩
      exact hstays e (hpre.subset (List.mem_append_right _ List.mem_cons_self))
    exact hboth.2
  refine ⟨hu.keys, hheld.writing, fun m phase hm hphase => ?_, ?_⟩
  · have hkept := hheld.late m phase hm hphase
    cases phase with
    | reading q => exact Or.inl ⟨q, rfl⟩
    | dropped => exact Or.inr (Or.inl rfl)
    | answered token result =>
      obtain ⟨hrefused, rfl⟩ := hkept
      exact Or.inr (Or.inr ⟨token, hrefused, rfl⟩)
    | refreshing q => exact hkept.elim
    | writing q keys => exact hkept.elim
    | rereading q => exact hkept.elim
  · intro m token q result hm hq hnone
    obtain ⟨e, he, -⟩ | ⟨q', hq', ⟨now, key, hkey, -⟩ | ⟨-, hdetail⟩⟩ := (hu.tasks m _ hm).2
    · rw [hq] at he
      cases he
    · rw [hq] at hq'
      cases hq'
      rw [hnone] at hkey
      cases hkey
    · exact hdetail

/-- A token under a new key has fetched it, and a token under the cached key
waits behind it. -/
theorem missed_key_blocks_verification_rotated :
    ∃ w u, Trace (StepOf (Verifier.step sampleLibrary sampleSettings)) sampleVerifier
        [.verify "new", .grant 0, .respond 0 (.ok ⟨none, none, .ok [("second", 2)]⟩)] w ∧
      Trace (StepOf (Verifier.step sampleLibrary sampleSettings)) w [.verify "old"] u ∧
      u.tasks.get? 1 = some (.reading ⟨"old", .rs256, "first"⟩) ∧
      u.tasks.get? 0 =
        some (.writing ⟨"new", .es256, "second"⟩ (OrdMap.ofList [("second", 2)])) := by
  obtain ⟨w, u, hw, hu, hwriting, hreading⟩ : ∃ w u,
      [VerifyEvent.verify "new", .grant 0,
          .respond 0 (.ok ⟨none, none, .ok [("second", 2)]⟩)].foldlM
        (Verifier.step sampleLibrary sampleSettings) sampleVerifier = some w ∧
      [VerifyEvent.verify "old"].foldlM (Verifier.step sampleLibrary sampleSettings) w = some u ∧
      w.tasks.get? 0 =
        some (.writing ⟨"new", .es256, "second"⟩ (OrdMap.ofList [("second", 2)])) ∧
      u.tasks.get? 1 = some (.reading ⟨"old", .rs256, "first"⟩) := ⟨_, _, rfl, rfl, rfl, rfl⟩
  have hrun := Trace.append_foldlM Trace.nil hw
  have hrest := Trace.append_foldlM Trace.nil hu
  have hstays : ∀ e ∈ ([.verify "old"] : List (VerifyEvent (String × ℕ))), e ≠ .drop 0 := by
    intro e he
    rw [List.mem_singleton.mp he]
    rintro ⟨⟩
  exact ⟨w, u, hrun, hrest, hreading,
    (missed_key_blocks_verification sampleVerifier_new hrun hwriting hrest hstays).2.1⟩

end Verifier

end Identity

end InferQos
