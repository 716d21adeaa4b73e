import InferQos.Proxy.Provenance
/-!
# Stored bodies

`StoredBody`: a body up to the threshold is kept in memory, a longer one is
written to a file of its own in the spool directory and read again for the
dispatch. The handlers share the directory, and a handler can be dropped at
every await point, in the middle of a write too; the file goes with the
`TempPath`, which is a local of the handler.

`Spooled` is the system with these files and locals, and with what was read
from the clients and sent to the providers. `spooled_bodies_intact`: what is
sent is what was read, the bytes the queue accounts for are those of the
body, and a file belongs to a handler that has not returned.
-/

namespace InferQos

namespace Proxy

variable {F σ : Type}

/-! ## A stored body -/

/-- The files of the spool directory, by path. -/
abbrev Disk := OrdMap String (List UInt8)

/-- `StoredBody`. -/
inductive StoredBody
  | memory (body : List UInt8)
  | spool (path : String) (len : ℕ)

namespace StoredBody

/-- `StoredBody::len`. -/
def len : StoredBody → ℕ
  | memory body => body.length
  | spool _ len => len

/-- The file that is removed with the value. -/
def path? : StoredBody → Option String
  | memory _ => none
  | spool path _ => some path

/-- **`StoredBody::load`.** It fails where the file is gone or has another
length. -/
def load (disk : Disk) : StoredBody → Option (List UInt8)
  | memory body => some body
  | spool path len =>
    match disk.get? path with
    | none => none
    | some body => if body.length ≠ len then none else some body

/-- A body that is loaded has the length it was stored with. -/
theorem length_of_load {disk : Disk} {stored : StoredBody} {body : List UInt8}
    (h : stored.load disk = some body) : body.length = stored.len := by
  cases stored with
  | memory body' =>
    cases h
    rfl
  | spool path len =>
    simp only [load] at h
    split at h
    · cases h
    · split at h
      · cases h
      · rename_i hlen
        cases h
        exact not_not.mp hlen

end StoredBody

/-- `write` through an open handle, at its position: what is missing before
it reads as zeros. -/
def writeAt (contents : List UInt8) (position : ℕ) (chunk : List UInt8) : List UInt8 :=
  (contents ++ List.replicate (position - contents.length) 0).take position ++ chunk ++
    contents.drop (position + chunk.length)

/-- At the end of the file a write appends. -/
theorem writeAt_length (contents chunk : List UInt8) :
    writeAt contents contents.length chunk = contents ++ chunk := by
  rw [writeAt, Nat.sub_self, List.replicate_zero, List.append_nil, List.take_length,
    List.drop_eq_nil_of_le (Nat.le_add_right _ _), List.append_nil]

/-! ## The body of a handler -/

/-- **The locals `body` and `stored_body`.** -/
inductive BodyPhase
  /-- Read from the client. -/
  | received (body : List UInt8)
  /-- `write_all`, through the handle of a file just created. -/
  | writing (path : String) (body : List UInt8) (written : ℕ)
  | stored (stored : StoredBody)

namespace BodyPhase

/-- The file that is removed when the handler is dropped. -/
def path? : BodyPhase → Option String
  | received _ => none
  | writing path _ _ => some path
  | stored s => s.path?

def isStored : BodyPhase → Bool
  | stored _ => true
  | _ => false

end BodyPhase

/-- The handler has returned, and what goes on is the task it spawned. -/
def Phase.returned : Phase F → Bool
  | opening _ _ _ => true
  | streaming _ _ _ _ _ => true
  | completing _ _ _ _ _ => true
  | departing _ .forwarded => true
  | uncounting .forwarded => true
  | done _ => true
  | _ => false

/-- **The system with its spool.** -/
structure Spooled (F σ : Type) where
  system : System F σ
  disk : Disk
  bodies : OrdMap ℕ BodyPhase
  /-- What each handler has read from its client. -/
  read : OrdMap ℕ (List UInt8)
  /-- And what it has sent to its provider. -/
  sent : OrdMap ℕ (List UInt8)

/-- What happens next. -/
inductive SpoolEvent (F : Type)
  | proxy (action : Action F)
  /-- `to_bytes` returns. -/
  | receive (n : ℕ) (body : List UInt8)
  /-- `store` keeps the body in memory. -/
  | keep (n : ℕ)
  /-- `store` creates a file. -/
  | create (n : ℕ) (path : String)
  /-- The next bytes of the body are written. -/
  | write (n k : ℕ)
  /-- `flush` returns. -/
  | flush (n : ℕ)
  /-- Somebody else rewrites a file, or removes it. -/
  | outside (path : String) (contents : Option (List UInt8))

def SpoolEvent.isOutside : SpoolEvent F → Bool
  | outside _ _ => true
  | _ => false

namespace Spooled

def build [Arith F] (config : Config F) (coordinator : σ) : Spooled F σ :=
  ⟨System.build config coordinator, ∅, ∅, ∅, ∅⟩

/-- The configuration of a handler that prepares its request. -/
def loading? (c : Spooled F σ) (n : ℕ) : Option (Config F) :=
  match c.system.handlers.get? n with
  | some (.loaded config) => some config
  | _ => none

/-- The locals of a handler are dropped, and the file with them. -/
def drop (c : Spooled F σ) (n : ℕ) : Spooled F σ :=
  match c.bodies.get? n with
  | none => c
  | some body =>
    { c with
      bodies := c.bodies.erase n
      disk := match body.path? with
        | none => c.disk
        | some path => c.disk.erase path }

/-- **What the spool asks of a step of the system**, and what the step sends.
A body is stored when the request is prepared. The pool is looked up before
that and the class after. -/
def admits (c : Spooled F σ) : Action F → Option (OrdMap ℕ (List UInt8))
  | .handler n choice =>
    match c.system.handlers.get? n, choice with
    | some (.loaded config), .arrive arrival =>
      match prepare config c.system.pools.keys arrival, c.bodies.get? n with
      | .ok _, some (.stored body) => if arrival.bodyBytes = body.len then some c.sent else none
      | .error _, some (.received _) => some c.sent
      | .error _, some (.stored _) => some c.sent
      | _, _ => none
    -- what fails or is dropped here does so before the body is stored
    | some (.loaded _), _ => if (c.bodies.get? n).any (·.isStored) then none else some c.sent
    | some (.loading _ _), .next =>
      match c.bodies.get? n with
      | some (.stored body) => (body.load c.disk).map (c.sent.insert n)
      | _ => none
    | _, _ => some c.sent
  | _ => some c.sent

/-- After a step of a handler that returns, its locals are dropped. -/
def settle (c : Spooled F σ) : Action F → Spooled F σ
  | .handler n _ =>
    match c.system.handlers.get? n with
    | some phase => if phase.returned then c.drop n else c
    | none => c
  | _ => c

/-- **One step.** -/
def step [Arith F] (P : Params F σ) (c : Spooled F σ) : SpoolEvent F → Option (Spooled F σ)
  | .proxy action =>
    match c.admits action, Proxy.step P c.system action with
    | some sent, some t => some (({ c with system := t, sent := sent } : Spooled F σ).settle action)
    | _, _ => none
  | .receive n body =>
    match c.loading? n, c.bodies.get? n with
    | some config, none =>
      if body.length ≤ config.server.maxBodyBytes then
        some
          { c with
            bodies := c.bodies.insert n (.received body)
            read := c.read.insert n body }
      else none
    | _, _ => none
  | .keep n =>
    match c.loading? n, c.bodies.get? n with
    | some config, some (.received body) =>
      if body.length ≤ config.server.spoolThresholdBytes then
        some { c with bodies := c.bodies.insert n (.stored (.memory body)) }
      else none
    | _, _ => none
  | .create n path =>
    match c.loading? n, c.bodies.get? n with
    | some config, some (.received body) =>
      -- a random name, and `O_EXCL`
      if config.server.spoolThresholdBytes < body.length ∧ c.disk.get? path = none ∧
          c.bodies.values.all (·.path? ≠ some path) then
        some
          { c with
            disk := c.disk.insert path []
            bodies := c.bodies.insert n (.writing path body 0) }
      else none
    | _, _ => none
  | .write n k =>
    match c.bodies.get? n with
    | some (.writing path body written) =>
      if written + k ≤ body.length then
        some
          { c with
            -- a file that was removed is written all the same, out of sight
            disk := match c.disk.get? path with
              | none => c.disk
              | some contents =>
                c.disk.insert path (writeAt contents written ((body.drop written).take k))
            bodies := c.bodies.insert n (.writing path body (written + k)) }
      else none
    | _ => none
  | .flush n =>
    match c.bodies.get? n with
    | some (.writing path body written) =>
      if written = body.length then
        some { c with bodies := c.bodies.insert n (.stored (.spool path body.length)) }
      else none
    | _ => none
  | .outside path contents =>
    match c.disk.get? path, contents with
    | none, _ => none
    | some _, some contents => some { c with disk := c.disk.insert path contents }
    | some _, none => some { c with disk := c.disk.erase path }

end Spooled

/-! ## What the locals hold -/

/-- The locals are those of a handler that has read this body. -/
def BodyPhase.Of (body : List UInt8) : BodyPhase → Prop
  | received b => b = body
  | writing _ b written => b = body ∧ written ≤ body.length
  | stored (.memory b) => b = body
  | stored (.spool _ len) => len = body.length

theorem BodyPhase.Of.len {body : List UInt8} {stored : StoredBody}
    (h : (BodyPhase.stored stored).Of body) : stored.len = body.length := by
  cases stored with
  | memory b => exact congrArg List.length h
  | spool path len => exact h

/-- The handler prepares its request. -/
def Phase.isLoaded : Phase F → Bool
  | loaded _ => true
  | _ => false

/-- **The locals, the files and the handlers belong together.** -/
structure Placed (c : Spooled F σ) : Prop where
  linked : Linked c.system
  /-- Nobody reads a body before its configuration. -/
  unread : ∀ n, c.system.handlers.get? n = some .starting → c.read.get? n = none
  reader : ∀ n body, c.read.get? n = some body → ∃ phase, c.system.handlers.get? n = some phase
  bounded : ∀ n config body, c.system.handlers.get? n = some (.loaded config) →
    c.read.get? n = some body → body.length ≤ config.server.maxBodyBytes
  held : ∀ n b, c.bodies.get? n = some b → ∃ phase body, c.system.handlers.get? n = some phase ∧
    c.read.get? n = some body ∧ b.Of body ∧
      (b.isStored = false → phase.isLoaded = true ∨ phase.returned = true)
  job : ∀ n phase job, c.system.handlers.get? n = some phase → phase.job? = some job →
    ∃ body, c.read.get? n = some body ∧ job.bodyBytes = body.length ∧
      body.length ≤ job.config.server.maxBodyBytes
  unsent : ∀ n config, c.system.handlers.get? n = some (.loaded config) → c.sent.get? n = none
  sent : ∀ n bytes, c.sent.get? n = some bytes →
    ∃ body, c.read.get? n = some body ∧ bytes.length = body.length
  owner : ∀ path contents, c.disk.get? path = some contents →
    ∃ n b, c.bodies.get? n = some b ∧ b.path? = some path
  alone : ∀ n n' b b' path, c.bodies.get? n = some b → c.bodies.get? n' = some b' →
    b.path? = some path → b'.path? = some path → n = n'

/-- **And the handlers have not returned.** -/
structure Tidy (c : Spooled F σ) : Prop extends Placed c where
  active : ∀ n b phase, c.bodies.get? n = some b → c.system.handlers.get? n = some phase →
    phase.returned = false

/-- **The files hold the bodies**, as long as nobody else writes to them. -/
structure Intact (c : Spooled F σ) : Prop where
  written : ∀ n path body k, c.bodies.get? n = some (.writing path body k) →
    c.disk.get? path = some (body.take k)
  stored : ∀ n path len body, c.bodies.get? n = some (.stored (.spool path len)) →
    c.read.get? n = some body → c.disk.get? path = some body
  sent : ∀ n bytes body, c.sent.get? n = some bytes → c.read.get? n = some body → bytes = body

section Drop

variable {c : Spooled F σ} {n n' : ℕ} {b : BodyPhase} {path : String}

theorem drop_bodies (h : (c.drop n).bodies.get? n' = some b) :
    n' ≠ n ∧ c.bodies.get? n' = some b := by
  unfold Spooled.drop at h
  split at h
  · rename_i hnone
    refine ⟨?_, h⟩
    rintro rfl
    rw [hnone] at h
    cases h
  · exact OrdMap.get?_erase_eq_some.mp h

/-- What is left on the disk was there, and is not the handler's. -/
theorem drop_disk {contents : List UInt8} (h : (c.drop n).disk.get? path = some contents) :
    c.disk.get? path = some contents ∧ ∀ b, c.bodies.get? n = some b → b.path? ≠ some path := by
  unfold Spooled.drop at h
  split at h
  · rename_i hnone
    refine ⟨h, fun b hb => ?_⟩
    rw [hnone] at hb
    cases hb
  · rename_i body hbody
    dsimp only at h
    split at h
    · rename_i hpath
      refine ⟨h, fun b hb heq => ?_⟩
      rw [hbody] at hb
      cases hb
      rw [hpath] at heq
      cases heq
    · rename_i path' hpath
      obtain ⟨hne, h⟩ := OrdMap.get?_erase_eq_some.mp h
      refine ⟨h, fun b hb heq => ?_⟩
      rw [hbody] at hb
      cases hb
      rw [hpath] at heq
      exact hne (Option.some.inj heq).symm

/-- A file of another handler stays. -/
theorem drop_disk_of_ne (h : ∀ b, c.bodies.get? n = some b → b.path? ≠ some path) :
    (c.drop n).disk.get? path = c.disk.get? path := by
  unfold Spooled.drop
  split
  · rfl
  · rename_i body hbody
    dsimp only
    split
    · rfl
    · rename_i path' hpath
      refine OrdMap.get?_erase_of_ne fun heq => h body hbody ?_
      rw [hpath, heq]

theorem drop_fields : (c.drop n).system = c.system ∧ (c.drop n).read = c.read ∧
    (c.drop n).sent = c.sent := by
  unfold Spooled.drop
  split <;> exact ⟨rfl, rfl, rfl⟩

/-- **Dropping the locals of a handler** leaves those of the others, and
their files. -/
theorem Placed.drop (h : Placed c) (n : ℕ) : Placed (c.drop n) := by
  obtain ⟨hsystem, hread, hsent⟩ := drop_fields (c := c) (n := n)
  refine ⟨hsystem ▸ h.linked, ?_, ?_, ?_, fun n' b hb => ?_, ?_, ?_, ?_,
    fun path contents hfile => ?_,
    fun n₁ n₂ b₁ b₂ path h₁ h₂ => h.alone n₁ n₂ b₁ b₂ path (drop_bodies h₁).2 (drop_bodies h₂).2⟩
  · rw [hsystem, hread]
    exact h.unread
  · rw [hsystem, hread]
    exact h.reader
  · rw [hsystem, hread]
    exact h.bounded
  · rw [hsystem, hread]
    exact h.held n' b (drop_bodies hb).2
  · rw [hsystem, hread]
    exact h.job
  · rw [hsystem, hsent]
    exact h.unsent
  · rw [hsent, hread]
    exact h.sent
  · obtain ⟨hfile, hother⟩ := drop_disk hfile
    obtain ⟨n', b, hb, hpath⟩ := h.owner path contents hfile
    have hne : n' ≠ n := by
      rintro rfl
      exact hother b hb hpath
    refine ⟨n', b, ?_, hpath⟩
    unfold Spooled.drop
    split
    · exact hb
    · exact (OrdMap.get?_erase_of_ne hne).trans hb

theorem Intact.drop (h : Intact c) (hplaced : Placed c) (n : ℕ) : Intact (c.drop n) := by
  obtain ⟨-, hread, hsent⟩ := drop_fields (c := c) (n := n)
  -- the file of another handler is another
  have hfile : ∀ n' b path, (c.drop n).bodies.get? n' = some b → b.path? = some path →
      (c.drop n).disk.get? path = c.disk.get? path := by
    intro n' b path hb hpath
    obtain ⟨hne, hb⟩ := drop_bodies hb
    refine drop_disk_of_ne fun b' hb' hpath' => hne ?_
    exact hplaced.alone n' n b b' path hb hb' hpath hpath'
  refine ⟨fun n' path body k hb => ?_, fun n' path len body hb hbody => ?_, ?_⟩
  · rw [hfile n' _ path hb rfl]
    exact h.written n' path body k (drop_bodies hb).2
  · rw [hfile n' _ path hb rfl]
    exact h.stored n' path len body (drop_bodies hb).2 (hread ▸ hbody)
  · rw [hsent, hread]
    exact h.sent

end Drop

/-! ## Steps of the store -/

section Store

variable {c : Spooled F σ} {n : ℕ} {b b' : BodyPhase} {disk : Disk} {phase : Phase F}
variable {body : List UInt8}

theorem loaded_of_loading? {config : Config F} (h : c.loading? n = some config) :
    c.system.handlers.get? n = some (.loaded config) := by
  unfold Spooled.loading? at h
  split at h
  · rename_i hn
    cases h
    exact hn
  · cases h

/-- **A handler goes on storing its body.** Its file is the one it had, or
one that nobody has. -/
theorem Tidy.rebody (h : Tidy c) (hb : c.bodies.get? n = some b)
    (hphase : c.system.handlers.get? n = some phase) (hread : c.read.get? n = some body)
    (hof : b'.Of body) (hloaded : b'.isStored = false → phase.isLoaded = true)
    (hsame : ∀ path, b.path? = some path → b'.path? = some path)
    (hfree : ∀ path, b'.path? = some path → ∀ n' b'', n' ≠ n → c.bodies.get? n' = some b'' →
      b''.path? ≠ some path)
    (hdisk : ∀ path contents, disk.get? path = some contents →
      b'.path? = some path ∨ ∃ old, c.disk.get? path = some old) :
    Tidy { c with disk := disk, bodies := c.bodies.insert n b' } := by
  refine ⟨⟨h.linked, h.unread, h.reader, h.bounded, fun n' b'' hb'' => ?_, h.job, h.unsent, h.sent,
    fun path contents hfile => ?_, fun n₁ n₂ b₁ b₂ path h₁ h₂ hp₁ hp₂ => ?_⟩,
    fun n' b'' phase' hb'' hphase' => ?_⟩
  · rcases OrdMap.get?_insert_eq_some.mp hb'' with ⟨rfl, rfl⟩ | ⟨-, hb''⟩
    · exact ⟨phase, body, hphase, hread, hof, fun hs => Or.inl (hloaded hs)⟩
    · exact h.held n' b'' hb''
  · rcases hdisk path contents hfile with hnew | ⟨old, hold⟩
    · exact ⟨n, b', OrdMap.get?_insert_self, hnew⟩
    · obtain ⟨n₀, b₀, hb₀, hpath⟩ := h.owner path old hold
      by_cases hn : n₀ = n
      · subst hn
        rw [hb] at hb₀
        cases hb₀
        exact ⟨n₀, b', OrdMap.get?_insert_self, hsame path hpath⟩
      · exact ⟨n₀, b₀, (OrdMap.get?_insert_of_ne hn).trans hb₀, hpath⟩
  · rcases OrdMap.get?_insert_eq_some.mp h₁ with ⟨rfl, rfl⟩ | ⟨hne₁, hold₁⟩
    · rcases OrdMap.get?_insert_eq_some.mp h₂ with ⟨rfl, rfl⟩ | ⟨hne₂, hold₂⟩
      · rfl
      · exact absurd hp₂ (hfree path hp₁ n₂ b₂ hne₂ hold₂)
    · rcases OrdMap.get?_insert_eq_some.mp h₂ with ⟨rfl, rfl⟩ | ⟨hne₂, hold₂⟩
      · exact absurd hp₁ (hfree path hp₂ n₁ b₁ hne₁ hold₁)
      · exact h.alone n₁ n₂ b₁ b₂ path hold₁ hold₂ hp₁ hp₂
  · rcases OrdMap.get?_insert_eq_some.mp hb'' with ⟨rfl, rfl⟩ | ⟨-, hb''⟩
    · exact h.active n' b phase' hb hphase'
    · exact h.active n' b'' phase' hb'' hphase'

/-- Nobody else has the file a handler has. -/
theorem Tidy.free (h : Tidy c) (hb : c.bodies.get? n = some b) {path : String}
    (hpath : b.path? = some path) {n' : ℕ} {b'' : BodyPhase} (hne : n' ≠ n)
    (hb'' : c.bodies.get? n' = some b'') : b''.path? ≠ some path :=
  fun hpath'' => hne (h.alone n' n b'' b path hb'' hb hpath'' hpath)

/-- A handler that stores its body prepares its request. -/
theorem Tidy.loading (h : Tidy c) (hb : c.bodies.get? n = some b) (hs : b.isStored = false) :
    ∃ config body, c.system.handlers.get? n = some (.loaded config) ∧
      c.read.get? n = some body ∧ b.Of body := by
  obtain ⟨phase, body, hphase, hread, hof, hloaded⟩ := h.held n b hb
  have hactive := h.active n b phase hb hphase
  rcases hloaded hs with hloaded | hreturned
  · cases phase with
    | loaded config => exact ⟨config, body, hphase, hread, hof⟩
    | _ => cases hloaded
  · rw [hactive] at hreturned
    cases hreturned

/-- A body is read. -/
theorem Tidy.receive (h : Tidy c) {config : Config F}
    (hn : c.system.handlers.get? n = some (.loaded config)) (hb : c.bodies.get? n = none)
    (hbound : body.length ≤ config.server.maxBodyBytes) :
    Tidy { c with bodies := c.bodies.insert n (.received body), read := c.read.insert n body } := by
  refine ⟨⟨h.linked, fun n' hn' => ?_, fun n' body' hread => ?_,
    fun n' config' body' hn' hread => ?_, fun n' b' hb' => ?_, fun n' phase job hn' hjob => ?_,
    h.unsent, fun n' bytes hsent => ?_, fun path contents hfile => ?_,
    fun n₁ n₂ b₁ b₂ path h₁ h₂ hp₁ hp₂ => ?_⟩, fun n' b' phase hb' hn' => ?_⟩
  · have hne : n' ≠ n := by
      rintro rfl
      rw [hn] at hn'
      cases hn'
    exact (OrdMap.get?_insert_of_ne hne).trans (h.unread n' hn')
  · rcases OrdMap.get?_insert_eq_some.mp hread with ⟨rfl, -⟩ | ⟨-, hread⟩
    · exact ⟨_, hn⟩
    · exact h.reader n' body' hread
  · rcases OrdMap.get?_insert_eq_some.mp hread with ⟨rfl, rfl⟩ | ⟨-, hread⟩
    · rw [hn] at hn'
      cases hn'
      exact hbound
    · exact h.bounded n' config' body' hn' hread
  · rcases OrdMap.get?_insert_eq_some.mp hb' with ⟨rfl, rfl⟩ | ⟨hne, hb'⟩
    · exact ⟨_, body, hn, OrdMap.get?_insert_self, rfl, fun _ => Or.inl rfl⟩
    · obtain ⟨phase, body', hphase, hread, hrest⟩ := h.held n' b' hb'
      exact ⟨phase, body', hphase, (OrdMap.get?_insert_of_ne hne).trans hread, hrest⟩
  · have hne : n' ≠ n := by
      rintro rfl
      rw [hn] at hn'
      cases hn'
      cases hjob
    obtain ⟨body', hread, hrest⟩ := h.job n' phase job hn' hjob
    exact ⟨body', (OrdMap.get?_insert_of_ne hne).trans hread, hrest⟩
  · have hne : n' ≠ n := by
      rintro rfl
      rw [h.unsent n' config hn] at hsent
      cases hsent
    obtain ⟨body', hread, hrest⟩ := h.sent n' bytes hsent
    exact ⟨body', (OrdMap.get?_insert_of_ne hne).trans hread, hrest⟩
  · obtain ⟨n₀, b₀, hb₀, hpath⟩ := h.owner path contents hfile
    have hne : n₀ ≠ n := by
      rintro rfl
      rw [hb] at hb₀
      cases hb₀
    exact ⟨n₀, b₀, (OrdMap.get?_insert_of_ne hne).trans hb₀, hpath⟩
  · -- a body in memory has no file
    rcases OrdMap.get?_insert_eq_some.mp h₁ with ⟨-, rfl⟩ | ⟨-, hold₁⟩
    · cases hp₁
    · rcases OrdMap.get?_insert_eq_some.mp h₂ with ⟨-, rfl⟩ | ⟨-, hold₂⟩
      · cases hp₂
      · exact h.alone n₁ n₂ b₁ b₂ path hold₁ hold₂ hp₁ hp₂
  · rcases OrdMap.get?_insert_eq_some.mp hb' with ⟨rfl, -⟩ | ⟨-, hb'⟩
    · rw [hn] at hn'
      cases hn'
      rfl
    · exact h.active n' b' phase hb' hn'

end Store

section Steps

variable [Arith F] {P : Params F σ} {c d : Spooled F σ} {e : SpoolEvent F}

/-- **What one step does.** -/
inductive SpoolStepped (P : Params F σ) (c : Spooled F σ) : SpoolEvent F → Spooled F σ → Prop
  | proxy {action : Action F} {sent : OrdMap ℕ (List UInt8)} {t : System F σ} :
      c.admits action = some sent → Proxy.step P c.system action = some t →
      SpoolStepped P c (.proxy action)
        (({ c with system := t, sent := sent } : Spooled F σ).settle action)
  | receive {n : ℕ} {body : List UInt8} {config : Config F} :
      c.system.handlers.get? n = some (.loaded config) → c.bodies.get? n = none →
      body.length ≤ config.server.maxBodyBytes →
      SpoolStepped P c (.receive n body)
        { c with bodies := c.bodies.insert n (.received body), read := c.read.insert n body }
  | keep {n : ℕ} {body : List UInt8} : c.bodies.get? n = some (.received body) →
      SpoolStepped P c (.keep n) { c with bodies := c.bodies.insert n (.stored (.memory body)) }
  | create {n : ℕ} {path : String} {body : List UInt8} :
      c.bodies.get? n = some (.received body) → c.disk.get? path = none →
      (∀ n' b, c.bodies.get? n' = some b → b.path? ≠ some path) →
      SpoolStepped P c (.create n path)
        { c with
          disk := c.disk.insert path []
          bodies := c.bodies.insert n (.writing path body 0) }
  | write {n k written : ℕ} {path : String} {body contents : List UInt8} :
      c.bodies.get? n = some (.writing path body written) → written + k ≤ body.length →
      c.disk.get? path = some contents →
      SpoolStepped P c (.write n k)
        { c with
          disk := c.disk.insert path (writeAt contents written ((body.drop written).take k))
          bodies := c.bodies.insert n (.writing path body (written + k)) }
  | unseen {n k written : ℕ} {path : String} {body : List UInt8} :
      c.bodies.get? n = some (.writing path body written) → written + k ≤ body.length →
      c.disk.get? path = none →
      SpoolStepped P c (.write n k)
        { c with bodies := c.bodies.insert n (.writing path body (written + k)) }
  | flush {n : ℕ} {path : String} {body : List UInt8} :
      c.bodies.get? n = some (.writing path body body.length) →
      SpoolStepped P c (.flush n)
        { c with bodies := c.bodies.insert n (.stored (.spool path body.length)) }
  | rewrite {path : String} {contents old : List UInt8} : c.disk.get? path = some old →
      SpoolStepped P c (.outside path (some contents))
        { c with disk := c.disk.insert path contents }
  | remove {path : String} {old : List UInt8} : c.disk.get? path = some old →
      SpoolStepped P c (.outside path none) { c with disk := c.disk.erase path }

/-- **Every step is one of these.** -/
theorem spoolStepped (h : Spooled.step P c e = some d) : SpoolStepped P c e d := by
  revert h
  fun_cases Spooled.step P c e <;> intro h <;> cases h
  · exact .proxy ‹_› ‹_›
  · exact .receive (loaded_of_loading? ‹_›) ‹_› ‹_›
  · exact .keep ‹_›
  · rename_i n path config body hb hn hfresh
    refine .create hb hfresh.2.1 fun n' b hb' => ?_
    exact of_decide_eq_true
      (List.all_eq_true.mp hfresh.2.2 b (OrdMap.mem_values.mpr ⟨n', hb'⟩))
  · rename_i n k path body written hb hle
    cases hfile : c.disk.get? path with
    | none => exact .unseen hb hle hfile
    | some contents => exact .write hb hle hfile
  · exact .flush ‹_›
  · exact .rewrite ‹_›
  · exact .remove ‹_›

/-- **A step of the store keeps the spool tidy.** -/
theorem Tidy.store (h : Tidy c) (hs : SpoolStepped P c e d) (he : ∀ action, e ≠ .proxy action) :
    Tidy d := by
  cases hs with
  | proxy => exact absurd rfl (he _)
  | receive hn hb hbound => exact h.receive hn hb hbound
  | keep hb =>
    obtain ⟨config, body, hphase, hread, hof⟩ := h.loading hb rfl
    refine h.rebody hb hphase hread hof (fun hs => ?_) (fun path hp => ?_) (fun path hp => ?_)
      fun path contents hfile => Or.inr ⟨contents, hfile⟩
    · cases hs
    · cases hp
    · cases hp
  | @create n path body hb hfile hfree =>
    obtain ⟨config, body, hphase, hread, hof⟩ := h.loading hb rfl
    cases hof
    refine h.rebody hb hphase hread ⟨rfl, Nat.zero_le _⟩ (fun _ => rfl) (fun path' hp => ?_)
      (fun path' hp n' b'' _ hb'' => ?_) fun path' contents hfile' => ?_
    · cases hp
    · cases hp
      exact hfree n' b'' hb''
    · rcases OrdMap.get?_insert_eq_some.mp hfile' with ⟨rfl, -⟩ | ⟨-, hold⟩
      · exact Or.inl rfl
      · exact Or.inr ⟨contents, hold⟩
  | @write n k written path body contents hb hle hfile =>
    obtain ⟨config, body, hphase, hread, rfl, -⟩ := h.loading hb rfl
    refine h.rebody hb hphase hread ⟨rfl, hle⟩ (fun _ => rfl) (fun _ hp => hp)
      (fun path' hp n' b'' hne hb'' => h.free hb hp hne hb'') fun path' contents' hfile' => ?_
    rcases OrdMap.get?_insert_eq_some.mp hfile' with ⟨rfl, -⟩ | ⟨-, hold⟩
    · exact Or.inl rfl
    · exact Or.inr ⟨contents', hold⟩
  | @unseen n k written path body hb hle hfile =>
    obtain ⟨config, body, hphase, hread, rfl, -⟩ := h.loading hb rfl
    exact h.rebody hb hphase hread ⟨rfl, hle⟩ (fun _ => rfl) (fun _ hp => hp)
      (fun path' hp n' b'' hne hb'' => h.free hb hp hne hb'')
      fun path' contents' hfile' => Or.inr ⟨contents', hfile'⟩
  | @flush n path body hb =>
    obtain ⟨config, body, hphase, hread, rfl, -⟩ := h.loading hb rfl
    refine h.rebody hb hphase hread rfl (fun hs => ?_) (fun _ hp => hp)
      (fun path' hp n' b'' hne hb'' => h.free hb hp hne hb'')
      fun path' contents' hfile' => Or.inr ⟨contents', hfile'⟩
    cases hs
  | @rewrite path contents old hold =>
    refine ⟨⟨h.linked, h.unread, h.reader, h.bounded, h.held, h.job, h.unsent, h.sent,
      fun path' contents' hfile => ?_, h.alone⟩, h.active⟩
    rcases OrdMap.get?_insert_eq_some.mp hfile with ⟨rfl, -⟩ | ⟨-, hfile⟩
    · exact h.owner path' old hold
    · exact h.owner path' contents' hfile
  | @remove path old hold =>
    refine ⟨⟨h.linked, h.unread, h.reader, h.bounded, h.held, h.job, h.unsent, h.sent,
      fun path' contents' hfile => ?_, h.alone⟩, h.active⟩
    exact h.owner path' contents' (OrdMap.get?_erase_eq_some.mp hfile).2

omit [Arith F] in
/-- A handler goes on storing its body, next to the files of others. -/
theorem Intact.rebody {n : ℕ} {b' : BodyPhase} {disk : Disk} (h : Intact c)
    (hothers : ∀ n' b'' path, n' ≠ n → c.bodies.get? n' = some b'' → b''.path? = some path →
      disk.get? path = c.disk.get? path)
    (hwritten : ∀ path body k, b' = .writing path body k → disk.get? path = some (body.take k))
    (hstored : ∀ path len body, b' = .stored (.spool path len) → c.read.get? n = some body →
      disk.get? path = some body) :
    Intact { c with disk := disk, bodies := c.bodies.insert n b' } := by
  refine ⟨fun n' path body k hb' => ?_, fun n' path len body hb' hread => ?_, h.sent⟩
  · rcases OrdMap.get?_insert_eq_some.mp hb' with ⟨-, heq⟩ | ⟨hne, hold⟩
    · exact hwritten path body k heq
    · exact (hothers n' _ path hne hold rfl).trans (h.written n' path body k hold)
  · rcases OrdMap.get?_insert_eq_some.mp hb' with ⟨rfl, heq⟩ | ⟨hne, hold⟩
    · exact hstored path len body heq hread
    · exact (hothers n' _ path hne hold rfl).trans (h.stored n' path len body hold hread)

/-- **A step of the store keeps the files.** -/
theorem Intact.store (h : Intact c) (ht : Tidy c) (hs : SpoolStepped P c e d)
    (he : ∀ action, e ≠ .proxy action) (hinside : e.isOutside = false) : Intact d := by
  cases hs with
  | proxy => exact absurd rfl (he _)
  | @receive n body config hn hb hbound =>
    have hnever : c.sent.get? n = none := ht.unsent n config hn
    refine ⟨fun n' path body' k hb' => ?_, fun n' path len body' hb' hread => ?_,
      fun n' bytes body' hsent hread => ?_⟩
    · rcases OrdMap.get?_insert_eq_some.mp hb' with ⟨-, heq⟩ | ⟨-, hold⟩
      · cases heq
      · exact h.written n' path body' k hold
    · rcases OrdMap.get?_insert_eq_some.mp hb' with ⟨-, heq⟩ | ⟨hne, hold⟩
      · cases heq
      · exact h.stored n' path len body' hold ((OrdMap.get?_insert_of_ne hne).symm.trans hread)
    · rcases OrdMap.get?_insert_eq_some.mp hread with ⟨rfl, -⟩ | ⟨-, hread⟩
      · rw [hnever] at hsent
        cases hsent
      · exact h.sent n' bytes body' hsent hread
  | keep hb =>
    refine h.rebody (fun _ _ _ _ _ _ => rfl) (fun _ _ _ heq => ?_) fun _ _ _ heq => ?_
    · cases heq
    · cases heq
  | @create n path body hb hfile hfree =>
    refine h.rebody (fun n' b'' path' _ hb'' hp => ?_) (fun path' body' k heq => ?_)
      fun _ _ _ heq => ?_
    · refine OrdMap.get?_insert_of_ne fun heq => hfree n' b'' hb'' ?_
      rw [hp, heq]
    · cases heq
      exact OrdMap.get?_insert_self
    · cases heq
  | @write n k written path body contents hb hle hfile =>
    have hcontents : contents = body.take written := by
      have hold := h.written n path body written hb
      rw [hfile] at hold
      exact Option.some.inj hold
    refine h.rebody (fun n' b'' path' hne hb'' hp => ?_) (fun path' body' k' heq => ?_)
      fun _ _ _ heq => ?_
    · refine OrdMap.get?_insert_of_ne fun heq => ?_
      exact ht.free hb rfl hne hb'' (heq ▸ hp)
    · cases heq
      have hlen : (body.take written).length = written :=
        List.length_take_of_le ((Nat.le_add_right _ _).trans hle)
      have hwrite := writeAt_length (body.take written) ((body.drop written).take k)
      rw [hlen, ← List.take_add] at hwrite
      rw [hcontents, hwrite]
      exact OrdMap.get?_insert_self
    · cases heq
  | @unseen n k written path body hb hle hfile =>
    rw [h.written n path body written hb] at hfile
    cases hfile
  | @flush n path body hb =>
    refine h.rebody (fun _ _ _ _ _ _ => rfl) (fun _ _ _ heq => ?_)
      fun path' len body' heq hread => ?_
    · cases heq
    · cases heq
      obtain ⟨config, body'', -, hread'', rfl, -⟩ := ht.loading hb rfl
      rw [hread''] at hread
      cases hread
      have hold := h.written n path body body.length hb
      rwa [List.take_length] at hold
  | rewrite => cases hinside
  | remove => cases hinside

end Steps

/-! ## Steps of the system -/

section System

variable [Arith F] {P : Params F σ} {c : Spooled F σ} {t : System F σ} {action : Action F}
variable {sent : OrdMap ℕ (List UInt8)}

omit [Arith F] in
/-- **What a step sends** is what the handler loads. -/
theorem admits_sent (h : c.admits action = some sent) :
    sent = c.sent ∨ ∃ n stored bytes job leases,
      c.system.handlers.get? n = some (.loading job leases) ∧
        c.bodies.get? n = some (.stored stored) ∧ stored.load c.disk = some bytes ∧
          sent = c.sent.insert n bytes := by
  revert h
  fun_cases Spooled.admits c action <;> intro h
  all_goals first
    | exact Or.inl (Option.some.inj h).symm
    | cases h
    | skip
  rename_i n job leases hn stored hb
  obtain ⟨bytes, hload, rfl⟩ := Option.map_eq_some_iff.mp h
  exact Or.inr ⟨n, stored, bytes, job, leases, hn, hb, hload, rfl⟩

omit [Arith F] in
/-- **A request is prepared with its body stored.** -/
theorem admits_arrive {n : ℕ} {config : Config F} {arrival : Arrival F} {job : Job F}
    (h : c.admits (.handler n (.arrive arrival)) = some sent)
    (hn : c.system.handlers.get? n = some (.loaded config))
    (hjob : prepare config c.system.pools.keys arrival = .ok job) :
    ∃ stored, c.bodies.get? n = some (.stored stored) ∧ arrival.bodyBytes = stored.len := by
  simp only [Spooled.admits, hn, hjob] at h
  cases hb : c.bodies.get? n with
  | none =>
    rw [hb] at h
    cases h
  | some b =>
    rw [hb] at h
    cases b with
    | stored stored =>
      dsimp only at h
      split at h
      · rename_i hlen
        exact ⟨stored, rfl, hlen⟩
      · cases h
    | _ => cases h

/-- **Where a handler stands after a step.** -/
theorem get?_step {n : ℕ} {phase : Phase F} {s : System F σ} (hs : Proxy.step P s action = some t)
    (hn : t.handlers.get? n = some phase) :
    (n = s.nextTask ∧ phase = .first s.draining) ∨ s.handlers.get? n = some phase ∨
      (∃ old choice m, action = .handler n choice ∧ s.handlers.get? n = some old ∧
        old.move P s n choice = some m ∧ phase = m.next) ∨
      ∃ old leases, s.handlers.get? n = some old ∧ old.receive leases = some phase := by
  cases stepped hs with
  | arrive =>
    rcases System.goto_get? hn with ⟨rfl, rfl⟩ | ⟨-, hn⟩
    · exact Or.inl ⟨rfl, rfl⟩
    · exact Or.inr (Or.inl hn)
  | @handler n' choice old m hold hm =>
    rcases System.goto_get? hn with ⟨rfl, rfl⟩ | ⟨-, hn⟩
    · exact Or.inr (Or.inr (Or.inl ⟨old, choice, m, rfl, hold, hm, rfl⟩))
    · rw [Effect.apply_handlers (Phase.move_not_deliver hm)] at hn
      exact Or.inr (Or.inl hn)
  | @dispatch m hm =>
    rw [Effect.apply_bump] at hn
    rcases DispatchPhase.move_get? hm hn with hn | ⟨_, _, leases, old, -, -, hold, hr⟩
    · exact Or.inr (Or.inl hn)
    · exact Or.inr (Or.inr (Or.inr ⟨old, leases, hold, hr⟩))
  | release hk => exact Or.inr (Or.inl hn)
  | advance d => exact Or.inr (Or.inl hn)
  | reload config => exact Or.inr (Or.inl hn)
  | drain => exact Or.inr (Or.inl hn)

/-- A handler stays in the table. -/
theorem exists_step {n : ℕ} {phase : Phase F} {s : System F σ} (hs : Proxy.step P s action = some t)
    (hn : s.handlers.get? n = some phase) : ∃ phase', t.handlers.get? n = some phase' := by
  have hgoto : ∀ {s : System F σ} {n' : ℕ} {new : Phase F},
      (∃ phase', s.handlers.get? n = some phase') →
        ∃ phase', (s.goto n' new).handlers.get? n = some phase' := by
    intro s n' new hphase
    by_cases hne : n = n'
    · subst hne
      exact ⟨new, OrdMap.get?_insert_self⟩
    · obtain ⟨phase', hphase'⟩ := hphase
      exact ⟨phase', (OrdMap.get?_insert_of_ne hne).trans hphase'⟩
  cases stepped hs with
  | arrive => exact hgoto (s := s.bump _) ⟨phase, hn⟩
  | @handler n' choice old m hold hm =>
    refine hgoto ⟨phase, ?_⟩
    rw [Effect.apply_handlers (Phase.move_not_deliver hm)]
    exact hn
  | @dispatch m hm =>
    change ∃ phase', (m.effect.apply P (s.bump m.counter)).handlers.get? n = some phase'
    by_cases hd : ∃ w new, m.effect = .deliver w new
    · obtain ⟨w, new, he⟩ := hd
      rw [he]
      exact hgoto (s := s.bump _) ⟨phase, hn⟩
    · rw [Effect.apply_handlers fun w new he => hd ⟨w, new, he⟩]
      exact ⟨phase, hn⟩
  | release hk => exact ⟨phase, hn⟩
  | advance d => exact ⟨phase, hn⟩
  | reload config => exact ⟨phase, hn⟩
  | drain => exact ⟨phase, hn⟩

omit [Arith F] in
theorem prepare_bodyBytes {config : Config F} {pools : List String} {arrival : Arrival F}
    {job : Job F} (h : prepare config pools arrival = .ok job) :
    job.bodyBytes = arrival.bodyBytes := by
  unfold prepare at h
  revert h
  dsimp only
  repeat' split
  all_goals intro h; cases h
  rfl

section Positions

variable {s : System F σ} {n : ℕ} {phase : Phase F} {choice : Choice F} {m : Move F σ (Phase F)}
variable {config : Config F}

/-- A handler does not go back to its start, and it reads its configuration
there only. -/
theorem move_from_start (hm : phase.move P s n choice = some m) :
    m.next ≠ .starting ∧ (m.next.isLoaded = true → phase = .starting) := by
  revert hm
  fun_cases Phase.move P s n phase choice <;> intro hm <;> cases hm
  all_goals first
    | exact ⟨by rintro ⟨⟩, fun _ => rfl⟩
    | exact ⟨by rintro ⟨⟩, fun h => by cases h⟩
    | skip
  · rename_i job charged at_ a ha r
    unfold Phase.afterReserve
    split <;> exact ⟨by rintro ⟨⟩, fun h => by cases h⟩
  · rename_i job error
    cases error <;> exact ⟨by rintro ⟨⟩, fun h => by cases h⟩

/-- A handler that leaves the preparation without a job is over. -/
theorem move_from_loaded (hm : (Phase.loaded config).move P s n choice = some m) :
    m.next.returned = true ∨ ∃ arrival job, choice = .arrive arrival ∧
      prepare config s.pools.keys arrival = .ok job := by
  generalize hphase : Phase.loaded config = phase at hm
  revert hm
  fun_cases Phase.move P s n phase choice <;> intro hm <;> cases hm <;> cases hphase
  all_goals first
    | exact Or.inl rfl
    | skip
  rename_i arrival job hjob
  exact Or.inr ⟨arrival, job, rfl, hjob⟩

omit [Arith F] in
/-- Who receives leases waits. -/
theorem receive_position {phase' : Phase F} {l : AdmissionLeases F}
    (h : phase.receive l = some phase') :
    phase' ≠ .starting ∧ phase'.isLoaded = false ∧ phase'.returned = false := by
  revert h
  fun_cases Phase.receive l phase <;> intro h <;> cases h
  · exact ⟨by rintro ⟨⟩, rfl, rfl⟩
  · exact ⟨by rintro ⟨⟩, rfl, rfl⟩

end Positions

/-- **A step of the system keeps the bodies with their handlers.** -/
theorem Tidy.placed (h : Tidy c) (ha : c.admits action = some sent)
    (hs : Proxy.step P c.system action = some t) :
    Placed { c with system := t, sent := sent } := by
  -- a new handler has read nothing
  have hnew : c.read.get? c.system.nextTask = none := by
    refine Option.eq_none_iff_forall_ne_some.mpr fun body hread => ?_
    obtain ⟨phase, hphase⟩ := h.reader _ body hread
    exact lt_irrefl _ (h.linked.fresh _ phase hphase)
  have hstart : ∀ n, t.handlers.get? n = some .starting → c.read.get? n = none := by
    intro n hn
    rcases get?_step hs hn with ⟨rfl, -⟩ | hn | ⟨old, choice, m, -, -, hm, hnext⟩ | ⟨old, l, -, hr⟩
    · exact hnew
    · exact h.unread n hn
    · exact absurd hnext.symm (move_from_start hm).1
    · exact absurd rfl (receive_position hr).1
  have hloaded : ∀ n config, t.handlers.get? n = some (.loaded config) →
      c.system.handlers.get? n = some (.loaded config) ∨ c.read.get? n = none := by
    intro n config hn
    rcases get?_step hs hn with ⟨rfl, -⟩ | hn | ⟨old, choice, m, -, hold, hm, hnext⟩ | ⟨old, l, -, hr⟩
    · exact Or.inr hnew
    · exact Or.inl hn
    · have hstarting := (move_from_start hm).2 (hnext ▸ rfl)
      exact Or.inr (h.unread n (hstarting ▸ hold))
    · cases (receive_position hr).2.1
  have hsent : ∀ n bytes, sent.get? n = some bytes →
      ∃ body, c.read.get? n = some body ∧ bytes.length = body.length := by
    intro n bytes hn
    rcases admits_sent ha with rfl | ⟨n', stored, bytes', job, leases, hphase, hb, hload, rfl⟩
    · exact h.sent n bytes hn
    · rcases OrdMap.get?_insert_eq_some.mp hn with ⟨rfl, rfl⟩ | ⟨-, hn⟩
      · obtain ⟨phase, body, -, hread, hof, -⟩ := h.held n _ hb
        exact ⟨body, hread, (StoredBody.length_of_load hload).trans hof.len⟩
      · exact h.sent n bytes hn
  refine ⟨h.linked.step hs, hstart, fun n body hread => ?_, fun n config body hn hread => ?_,
    fun n b hb => ?_, fun n phase job hn hjob => ?_, fun n config hn => ?_, hsent, h.owner, h.alone⟩
  · obtain ⟨phase, hphase⟩ := h.reader n body hread
    exact exists_step hs hphase
  · rcases hloaded n config hn with hold | hnone
    · exact h.bounded n config body hold hread
    · rw [hnone] at hread
      cases hread
  · obtain ⟨phase, body, hphase, hread, hof, -⟩ := h.held n b hb
    obtain ⟨phase', hphase'⟩ := exists_step hs hphase
    refine ⟨phase', body, hphase', hread, hof, fun hnot => ?_⟩
    obtain ⟨config, -, hprepares, -, -⟩ := h.loading hb hnot
    rcases get?_step hs hphase' with ⟨rfl, -⟩ | hn | ⟨old, choice, m, rfl, hold, hm, rfl⟩ |
      ⟨old, l, hold, hr⟩
    · rw [hnew] at hread
      cases hread
    · rw [hprepares] at hn
      cases hn
      exact Or.inl rfl
    · rw [hprepares] at hold
      cases hold
      rcases move_from_loaded hm with hreturned | ⟨arrival, job, rfl, hjob⟩
      · exact Or.inr hreturned
      · obtain ⟨stored, hstored, -⟩ := admits_arrive ha hprepares hjob
        rw [hb] at hstored
        cases hstored
        cases hnot
    · rw [hprepares] at hold
      cases hold
      cases hr
  · rcases get?_step hs hn with ⟨-, rfl⟩ | hn | ⟨old, choice, m, rfl, hold, hm, rfl⟩ |
      ⟨old, l, hold, hr⟩
    · revert hjob
      cases c.system.draining <;> intro hjob <;> cases hjob
    · exact h.job n phase job hn hjob
    · rcases Phase.move_job hm hjob with hjob | ⟨config, arrival, rfl, rfl, hprepare⟩
      · exact h.job n old job hold hjob
      · obtain ⟨stored, hstored, hlen⟩ := admits_arrive ha hold hprepare
        obtain ⟨phase, body, -, hread, hof, -⟩ := h.held n _ hstored
        refine ⟨body, hread, ?_, ?_⟩
        · rw [prepare_bodyBytes hprepare, hlen, hof.len]
        · rw [prepare_config hprepare]
          exact h.bounded n config body hold hread
    · exact h.job n old job hold ((Phase.receive_job hr).1 ▸ hjob)
  · refine Option.eq_none_iff_forall_ne_some.mpr fun bytes hbytes => ?_
    rcases hloaded n config hn with hold | hnone
    · have hbefore : c.sent.get? n = none := h.unsent n config hold
      rcases admits_sent ha with rfl | ⟨n', stored, bytes', job, leases, hphase, -, -, rfl⟩
      · rw [hbefore] at hbytes
        cases hbytes
      · rcases OrdMap.get?_insert_eq_some.mp hbytes with ⟨rfl, -⟩ | ⟨-, hbytes⟩
        · rw [hold] at hphase
          cases hphase
        · rw [hbefore] at hbytes
          cases hbytes
    · obtain ⟨body, hread, -⟩ := hsent n bytes hbytes
      rw [hnone] at hread
      cases hread

omit [Arith F] in
/-- The bodies after a step are some of those before it. -/
theorem settle_bodies {n : ℕ} {b : BodyPhase} (h : (c.settle action).bodies.get? n = some b) :
    c.bodies.get? n = some b := by
  revert h
  fun_cases Spooled.settle c action
  · exact fun h => (drop_bodies h).2
  all_goals exact id

omit [Arith F] in
theorem settle_system : (c.settle action).system = c.system := by
  fun_cases Spooled.settle c action
  · exact drop_fields.1
  all_goals rfl

omit [Arith F] in
theorem Placed.settle (h : Placed c) (action : Action F) : Placed (c.settle action) := by
  fun_cases Spooled.settle c action
  · exact h.drop _
  all_goals exact h

omit [Arith F] in
theorem Intact.settle (h : Intact c) (hp : Placed c) (action : Action F) :
    Intact (c.settle action) := by
  fun_cases Spooled.settle c action
  · exact h.drop hp _
  all_goals exact h

/-- **A step of the system keeps the spool tidy**: who returns drops its
body. -/
theorem Tidy.proxy (h : Tidy c) (ha : c.admits action = some sent)
    (hs : Proxy.step P c.system action = some t) :
    Tidy (({ c with system := t, sent := sent } : Spooled F σ).settle action) := by
  have hplaced := h.placed ha hs
  refine ⟨hplaced.settle action, fun n b phase hb hn => ?_⟩
  have hbody := settle_bodies hb
  change c.bodies.get? n = some b at hbody
  rw [settle_system] at hn
  obtain ⟨old, -, hold, -⟩ := h.held n b hbody
  have hactive := h.active n b old hbody hold
  rcases get?_step hs hn with ⟨rfl, -⟩ | hn' | ⟨old', choice, m, rfl, hold', hm, rfl⟩ |
    ⟨old', l, -, hr⟩
  · exact absurd (h.linked.fresh _ old hold) (lt_irrefl _)
  · exact h.active n b phase hbody hn'
  · -- the handler has not returned, or its body is gone
    by_contra hreturned
    rw [Bool.not_eq_false] at hreturned
    have hn : t.handlers.get? n = some m.next := hn
    simp only [Spooled.settle, hn, hreturned, if_true] at hb
    exact (drop_bodies hb).1 rfl
  · exact (receive_position hr).2.2

/-- **And it sends what was read.** -/
theorem Intact.proxy (h : Intact c) (ht : Tidy c) (ha : c.admits action = some sent)
    (hs : Proxy.step P c.system action = some t) :
    Intact (({ c with system := t, sent := sent } : Spooled F σ).settle action) := by
  suffices hi : Intact ({ c with system := t, sent := sent } : Spooled F σ) from
    hi.settle (ht.placed ha hs) action
  refine ⟨h.written, h.stored, fun n bytes body hn hread => ?_⟩
  rcases admits_sent ha with rfl | ⟨n', stored, bytes', job, leases, -, hb, hload, rfl⟩
  · exact h.sent n bytes body hn hread
  · rcases OrdMap.get?_insert_eq_some.mp hn with ⟨rfl, rfl⟩ | ⟨-, hn⟩
    · cases stored with
      | memory b =>
        obtain ⟨-, body', -, hread', hof, -⟩ := ht.held n _ hb
        rw [hread'] at hread
        cases hread
        cases hload
        exact hof
      | spool path len =>
        have hfile := h.stored n path len body hb hread
        simp only [StoredBody.load, hfile] at hload
        split at hload
        · cases hload
        · exact (Option.some.inj hload).symm
    · exact h.sent n bytes body hn hread

end System

/-! ## Runs -/

section Runs

variable [Arith F] {P : Params F σ} {c d : Spooled F σ}

theorem tidy_build (config : Config F) (coordinator : σ) :
    Tidy (Spooled.build config coordinator : Spooled F σ) where
  linked := linked_build config coordinator
  unread n h := by cases h
  reader n body h := by cases h
  bounded n config body h := by cases h
  held n b h := by cases h
  job n phase job h := by cases h
  unsent n config h := by cases h
  sent n bytes h := by cases h
  owner path contents h := by cases h
  alone n n' b b' path h := by cases h
  active n b phase h := by cases h

theorem intact_build (config : Config F) (coordinator : σ) :
    Intact (Spooled.build config coordinator : Spooled F σ) where
  written n path body k h := by cases h
  stored n path len body h := by cases h
  sent n bytes body h := by cases h

/-- **Every step keeps the spool tidy**, and its files intact if it is one
of ours. -/
theorem Tidy.step {e : SpoolEvent F} (h : Tidy c) (hs : Spooled.step P c e = some d) :
    Tidy d ∧ (e.isOutside = false → Intact c → Intact d) := by
  have hstepped := spoolStepped hs
  cases e with
  | proxy action =>
    cases hstepped with
    | proxy ha hsys => exact ⟨h.proxy ha hsys, fun _ hi => hi.proxy h ha hsys⟩
  | _ =>
    refine ⟨h.store hstepped fun action he => ?_, fun hinside hi =>
      hi.store h hstepped (fun action he => ?_) hinside⟩
    · cases he
    · cases he

/-- **Stored bodies are intact.** After every run: what a handler sends to
its provider has the length of what it read from its client, and is the same
unless somebody else wrote to the spool directory. The bytes a request is
queued with are those of its body, within the limit. A file belongs to a
handler that has not returned, so that none is left when all have. -/
theorem spooled_bodies_intact (P : Params F σ) (config : Config F) (coordinator : σ)
    {es : List (SpoolEvent F)} {c : Spooled F σ}
    (hrun : Trace (StepOf (Spooled.step P)) (Spooled.build config coordinator) es c) :
    (∀ n bytes, c.sent.get? n = some bytes → ∃ body, c.read.get? n = some body ∧
      bytes.length = body.length ∧ ((∀ e ∈ es, e.isOutside = false) → bytes = body)) ∧
    (∀ n phase job, c.system.handlers.get? n = some phase → phase.job? = some job →
      ∃ body, c.read.get? n = some body ∧ job.bodyBytes = body.length ∧
        body.length ≤ job.config.server.maxBodyBytes) ∧
    (∀ path contents, c.disk.get? path = some contents → ∃ n phase b,
      c.system.handlers.get? n = some phase ∧ phase.returned = false ∧
        c.bodies.get? n = some b ∧ b.path? = some path) ∧
    ((∀ n phase, c.system.handlers.get? n = some phase → phase.returned = true) →
      c.disk.entries = []) := by
  have h : Tidy c ∧ ((∀ e ∈ es, e.isOutside = false) → Intact c) := by
    refine hrun.history (P := fun es c => Tidy c ∧ ((∀ e ∈ es, e.isOutside = false) → Intact c))
      ⟨tidy_build config coordinator, fun _ => intact_build config coordinator⟩ ?_
    rintro es c e d ⟨ht, hi⟩ hs
    obtain ⟨hd, hkeeps⟩ := ht.step hs
    refine ⟨hd, fun hinside => ?_⟩
    exact hkeeps (hinside e (List.mem_append_right _ List.mem_cons_self))
      (hi fun e' he' => hinside e' (List.mem_append_left _ he'))
  obtain ⟨ht, hi⟩ := h
  have howner : ∀ path contents, c.disk.get? path = some contents → ∃ n phase b,
      c.system.handlers.get? n = some phase ∧ phase.returned = false ∧
        c.bodies.get? n = some b ∧ b.path? = some path := by
    intro path contents hfile
    obtain ⟨n, b, hb, hpath⟩ := ht.owner path contents hfile
    obtain ⟨phase, -, hphase, -⟩ := ht.held n b hb
    exact ⟨n, phase, b, hphase, ht.active n b phase hb hphase, hb, hpath⟩
  refine ⟨fun n bytes hsent => ?_, ht.job, howner, fun hreturned => ?_⟩
  · obtain ⟨body, hread, hlen⟩ := ht.sent n bytes hsent
    exact ⟨body, hread, hlen, fun hinside => (hi hinside).sent n bytes body hsent hread⟩
  · refine List.eq_nil_iff_forall_not_mem.mpr fun ⟨path, contents⟩ hmem => ?_
    obtain ⟨n, phase, b, hphase, hactive, -⟩ :=
      howner path contents (OrdMap.get?_eq_some.mpr hmem)
    rw [hreturned n phase hphase] at hactive
    cases hactive

end Runs

/-- A configuration that keeps two bytes in memory. -/
def keepsTwo : Config ℚ :=
  { Config.minimal .enforce [] with server := ⟨"127.0.0.1:8080", none, 16, 2⟩ }

/-- While a body of three bytes is written, another client is gone in the
middle of a write. -/
def spoolsOne : List (SpoolEvent ℚ) :=
  [.proxy .arrive, .proxy (.handler 0 .next), .receive 0 [1, 2, 3], .create 0 "a", .write 0 2,
    .proxy .arrive, .proxy (.handler 1 .next), .receive 1 [4, 5, 6], .create 1 "b", .write 1 1,
    .proxy (.handler 1 .drop), .write 0 1, .flush 0,
    .proxy (.handler 0 (.arrive { sampleArrival 1 6 with bodyBytes := 3 }))] ++
    (goOn 0 9).map .proxy

/-- **The file is read again for the dispatch**, and the other one is gone. -/
theorem spooled_bodies_intact_one :
    ∃ c, Trace (StepOf (Spooled.step (Params.inMemory keepsTwo))) (Spooled.build keepsTwo ∅)
        spoolsOne c ∧
      c.disk.entries = [("a", [1, 2, 3])] ∧ c.sent.get? 0 = some [1, 2, 3] ∧
      ∃ body, c.read.get? 0 = some body ∧ [1, 2, 3] = body := by
  have hrun : (spoolsOne.foldlM (Spooled.step (Params.inMemory keepsTwo))
      (Spooled.build keepsTwo ∅)).any
      (fun c => c.disk.entries = [("a", [1, 2, 3])] && c.sent.get? 0 = some [1, 2, 3]) = true := by
    decide +kernel
  obtain ⟨c, htrace, hend⟩ := Trace.exists_of_any hrun
  obtain ⟨hdisk, hsent⟩ := Bool.and_eq_true_iff.mp hend
  have hsent := of_decide_eq_true hsent
  obtain ⟨body, hread, -, heq⟩ := (spooled_bodies_intact _ _ _ htrace).1 0 _ hsent
  exact ⟨c, htrace, of_decide_eq_true hdisk, hsent, body, hread, heq (by decide)⟩

end Proxy

end InferQos
