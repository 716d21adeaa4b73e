import InferQos.Common.Marks
import InferQos.Config.Validate
import InferQos.Coordinator.Ledger
import InferQos.Coordinator.Scripts
import InferQos.Proxy.Admission
/-!
# The keys of a reservation

`reserve_distributed` keeps three kinds of things under keys of one
coordinator: the capacity of a pool under the name of the pool, and the
slots of a tenant and of an application under texts that join the pool's
name and theirs. Names are arbitrary, and nothing escapes the colons in
them. `coordinator_keys_distinct_iff` says for which names of pools no two
keys are the same text.
-/

namespace InferQos

namespace Proxy

variable {F : Type}

/-! ## Keys -/

/-- What the key of a slot starts with. -/
def concurrency : String := "__concurrency__:"

/-- **What a key stands for.** -/
inductive Holder
  | capacity (pool : String)
  | tenantSlot (pool tenant : String)
  | applicationSlot (pool application : String)
  deriving DecidableEq

namespace Holder

def pool : Holder → String
  | capacity pool => pool
  | tenantSlot pool _ => pool
  | applicationSlot pool _ => pool

/-- The key, as `reserve_distributed` writes it. -/
def key : Holder → String
  | capacity pool => pool
  | tenantSlot pool tenant => concurrency ++ pool ++ ":tenant:" ++ tenant
  | applicationSlot pool application => concurrency ++ pool ++ ":application:" ++ application

end Holder

/-- What an attempt reserves. -/
def Attempt.holders (a : Attempt F) : List Holder :=
  [.tenantSlot a.request.pool a.request.identity.tenant,
    .applicationSlot a.request.pool a.request.identity.application, .capacity a.request.pool]

/-- And the keys under which it does. -/
theorem Attempt.keys_eq (a : Attempt F) :
    a.holders.map Holder.key = [a.tenantKey, a.applicationKey, a.request.pool] := rfl

/-! ## Slots -/

/-- The words that mark a slot. -/
inductive SlotKind
  | tenant
  | application
  deriving DecidableEq

namespace SlotKind

def word : SlotKind → String
  | tenant => "tenant"
  | application => "application"

/-- The slot of a name. -/
def holder : SlotKind → String → String → Holder
  | tenant => .tenantSlot
  | application => .applicationSlot

/-- What stands before the name of a slot. -/
def before (pool : String) : SlotKind → String
  | tenant => pool ++ ":tenant:"
  | application => pool ++ ":application:"

theorem word_injective {kind kind' : SlotKind} (h : kind.word.toList = kind'.word.toList) :
    kind = kind' := by
  cases kind with
  | tenant =>
    cases kind' with
    | tenant => rfl
    | application => exact absurd h (by decide)
  | application =>
    cases kind' with
    | tenant => exact absurd h (by decide)
    | application => rfl

theorem colon_notMem_word (kind : SlotKind) : ':' ∉ kind.word.toList := by
  cases kind with
  | tenant => decide
  | application => decide

theorem before_toList (pool : String) (kind : SlotKind) :
    (before pool kind).toList = pool.toList ++ mark ':' kind.word.toList := by
  have htenant : ":tenant:".toList = mark ':' "tenant".toList := by decide
  have happlication : ":application:".toList = mark ':' "application".toList := by decide
  cases kind with
  | tenant =>
    unfold before word
    rw [String.toList_append, htenant]
  | application =>
    unfold before word
    rw [String.toList_append, happlication]

theorem key_eq (kind : SlotKind) (pool name : String) :
    (kind.holder pool name).key = concurrency ++ (before pool kind ++ name) := by
  cases kind with
  | tenant =>
    change concurrency ++ pool ++ ":tenant:" ++ name = concurrency ++ (pool ++ ":tenant:" ++ name)
    rw [String.append_assoc, String.append_assoc, String.append_assoc]
  | application =>
    change concurrency ++ pool ++ ":application:" ++ name =
      concurrency ++ (pool ++ ":application:" ++ name)
    rw [String.append_assoc, String.append_assoc, String.append_assoc]

theorem key_toList (kind : SlotKind) (pool name : String) :
    (kind.holder pool name).key.toList =
      concurrency.toList ++ (pool.toList ++ (mark ':' kind.word.toList ++ name.toList)) := by
  rw [key_eq, String.toList_append, String.toList_append, before_toList, List.append_assoc]

theorem holder_pool (kind : SlotKind) (pool name : String) :
    (kind.holder pool name).pool = pool := by
  cases kind with
  | tenant => rfl
  | application => rfl

theorem holder_ne_capacity (kind : SlotKind) (pool name pool' : String) :
    kind.holder pool name ≠ .capacity pool' := by
  cases kind with
  | tenant => exact fun h => by cases h
  | application => exact fun h => by cases h

theorem holder_inj {kind kind' : SlotKind} {pool pool' name name' : String}
    (h : kind.holder pool name = kind'.holder pool' name') :
    kind = kind' ∧ pool = pool' ∧ name = name' := by
  cases kind with
  | tenant =>
    cases kind' with
    | tenant =>
      cases h
      exact ⟨rfl, rfl, rfl⟩
    | application => cases h
  | application =>
    cases kind' with
    | tenant => cases h
    | application =>
      cases h
      exact ⟨rfl, rfl, rfl⟩

end SlotKind

theorem Holder.cases_slot (h : Holder) :
    h = .capacity h.pool ∨ ∃ (kind : SlotKind) (name : String), h = kind.holder h.pool name := by
  cases h with
  | capacity pool => exact Or.inl rfl
  | tenantSlot pool tenant => exact Or.inr ⟨.tenant, tenant, rfl⟩
  | applicationSlot pool application => exact Or.inr ⟨.application, application, rfl⟩

/-! ## Which names keep keys apart -/

/-- One text starts with another. -/
def StartsWith (text start : String) : Prop := start.toList <+: text.toList

/-- **No pool's name goes on like a slot of another**, up to a colon. -/
def SlotsApart (pools : Set String) : Prop :=
  ∀ p ∈ pools, ∀ q ∈ pools, ∀ kind : SlotKind, ¬ StartsWith (q ++ ":") (SlotKind.before p kind)

/-- **No pool is named like a slot of another.** -/
def NamesApart (pools : Set String) : Prop :=
  ∀ p ∈ pools, ∀ q ∈ pools, ∀ kind : SlotKind,
    ¬ StartsWith q (concurrency ++ SlotKind.before p kind)

variable {pools : Set String} {p q : String} {kind kind' : SlotKind}

/-- Two slots with one key: their parts are the same, or a name goes on
like a slot. -/
theorem slot_key_cases {name name' : String}
    (h : (kind.holder p name).key = (kind'.holder q name').key) :
    kind.holder p name = kind'.holder q name' ∨ StartsWith (q ++ ":") (SlotKind.before p kind) ∨
      StartsWith (p ++ ":") (SlotKind.before q kind') := by
  have hlist := congrArg String.toList h
  rw [SlotKind.key_toList, SlotKind.key_toList, List.append_cancel_left_eq] at hlist
  rcases append_mark_cases kind.colon_notMem_word kind'.colon_notMem_word hlist with
    ⟨hpool, hword, hname⟩ | hprefix | hprefix
  · left
    rw [SlotKind.word_injective hword, String.toList_inj.mp hpool, String.toList_inj.mp hname]
  · right
    left
    unfold StartsWith
    rw [SlotKind.before_toList, String.toList_append]
    exact hprefix
  · right
    right
    unfold StartsWith
    rw [SlotKind.before_toList, String.toList_append]
    exact hprefix

/-- A name that goes on like a slot: every slot of it has the key of a slot
of the other. -/
theorem exists_slot_key_eq (h : StartsWith (q ++ ":") (SlotKind.before p kind)) (kind' : SlotKind)
    (name' : String) : ∃ name, (kind.holder p name).key = (kind'.holder q name').key := by
  unfold StartsWith at h
  rw [SlotKind.before_toList, String.toList_append] at h
  obtain ⟨rest, hrest⟩ := exists_append_mark h kind'.word.toList name'.toList
  refine ⟨String.ofList rest, String.toList_inj.mp ?_⟩
  rw [SlotKind.key_toList, SlotKind.key_toList, String.toList_ofList, hrest]

/-- A name does not go on like a slot of its own. -/
theorem not_startsWith_self : ¬ StartsWith (p ++ ":") (SlotKind.before p kind) := by
  intro h
  unfold StartsWith at h
  rw [SlotKind.before_toList, String.toList_append, List.prefix_append_right_inj] at h
  have hlen := h.length_le
  have hmark : (mark ':' kind.word.toList).length = kind.word.toList.length + 2 := by simp [mark]
  rw [hmark] at hlen
  change kind.word.toList.length + 2 ≤ 1 at hlen
  omega

/-- A pool with the key of a slot. -/
theorem exists_capacity_key_eq_iff :
    (∃ name, (kind.holder p name).key = q) ↔
      StartsWith q (concurrency ++ SlotKind.before p kind) := by
  unfold StartsWith
  rw [String.toList_append, SlotKind.before_toList]
  constructor
  · rintro ⟨name, rfl⟩
    rw [SlotKind.key_toList]
    exact ⟨name.toList, by simp only [List.append_assoc]⟩
  · rintro ⟨rest, hrest⟩
    refine ⟨String.ofList rest, String.toList_inj.mp ?_⟩
    rw [SlotKind.key_toList, String.toList_ofList, ← hrest]
    simp only [List.append_assoc]

/-- **Names apart, keys apart.** -/
theorem key_injOn_of_apart (hslots : SlotsApart pools) (hnames : NamesApart pools) {h h' : Holder}
    (hp : h.pool ∈ pools) (hp' : h'.pool ∈ pools) (hkey : h.key = h'.key) : h = h' := by
  rcases h.cases_slot with hc | ⟨kind, name, hs⟩
  · rcases h'.cases_slot with hc' | ⟨kind', name', hs'⟩
    · rw [hc, hc'] at hkey ⊢
      exact congrArg Holder.capacity hkey
    · rw [hc, hs'] at hkey
      exact absurd (exists_capacity_key_eq_iff.mp ⟨name', hkey.symm⟩) (hnames _ hp' _ hp kind')
  · rcases h'.cases_slot with hc' | ⟨kind', name', hs'⟩
    · rw [hs, hc'] at hkey
      exact absurd (exists_capacity_key_eq_iff.mp ⟨name, hkey⟩) (hnames _ hp _ hp' kind)
    · rw [hs, hs'] at hkey
      rcases slot_key_cases hkey with heq | hstart | hstart
      · rw [hs, hs', heq]
      · exact absurd hstart (hslots _ hp _ hp' kind)
      · exact absurd hstart (hslots _ hp' _ hp kind')

/-- **When the keys of the coordinator do not collide.** The keys an attempt
reserves under are those of its two slots and of its pool's capacity. For
every set of names of pools, and all names of tenants and applications: two
keys are the same text only if they stand for the same kind, pool and name,
exactly when no pool's name goes on like a slot of another and none is
named like one; and the same is true of the keys under any namespace of the
Valkey coordinator. Then no call on one key touches what is held under any
other, in memory or in a store. -/
theorem coordinator_keys_distinct_iff (pools : Set String) :
    (∀ a : Attempt ℚ, a.holders.map Holder.key = [a.tenantKey, a.applicationKey, a.request.pool]) ∧
    ((∀ h h' : Holder, h.pool ∈ pools → h'.pool ∈ pools → h.key = h'.key → h = h') ↔
      SlotsApart pools ∧ NamesApart pools) ∧
    (∀ space, (∀ h h' : Holder, h.pool ∈ pools → h'.pool ∈ pools →
        ValkeyCoordinator.keyOf space h.key = ValkeyCoordinator.keyOf space h'.key → h = h') ↔
      SlotsApart pools ∧ NamesApart pools) ∧
    (SlotsApart pools ∧ NamesApart pools → ∀ h h' : Holder, h.pool ∈ pools → h'.pool ∈ pools →
      h ≠ h' →
      (∀ (all : InMemoryCoordinator.LeaseState ℚ) (c : InMemoryCoordinator.Call ℚ),
        c.op.pool = h'.key → (InMemoryCoordinator.apply all c).2.get? h.key = all.get? h.key) ∧
      ∀ (R : ValkeyCoordinator.Rendering ℚ) (space : String) (c : ValkeyCoordinator.Readings)
        (id : Uuid) (store : Redis.Store) (scope : String) (limit scopeLimit units : ℚ) (ttl t : ℕ),
        Redis.hgetall t (ValkeyCoordinator.reserveScoped R space c id store h'.key scope limit
            scopeLimit units ttl).2 (ValkeyCoordinator.keyOf space h.key) =
          Redis.hgetall t store (ValkeyCoordinator.keyOf space h.key)) := by
  have hiff : (∀ h h' : Holder, h.pool ∈ pools → h'.pool ∈ pools → h.key = h'.key → h = h') ↔
      SlotsApart pools ∧ NamesApart pools := by
    refine ⟨fun hinj => ⟨fun p hp q hq kind hstart => ?_, fun p hp q hq kind hstart => ?_⟩,
      fun hapart h h' hp hp' => key_injOn_of_apart hapart.1 hapart.2 hp hp'⟩
    · -- the slot it goes on like, and one of the longer name's own
      obtain ⟨name, hname⟩ := exists_slot_key_eq hstart kind ""
      have heq := hinj (kind.holder p name) (kind.holder q "") (by rwa [kind.holder_pool])
        (by rwa [kind.holder_pool]) hname
      obtain ⟨-, rfl, -⟩ := SlotKind.holder_inj heq
      exact not_startsWith_self hstart
    · obtain ⟨name, hname⟩ := exists_capacity_key_eq_iff.mpr hstart
      exact kind.holder_ne_capacity p name q
        (hinj (kind.holder p name) (.capacity q) (by rwa [kind.holder_pool]) hq hname)
  have hspace : ∀ space (h h' : Holder),
      ValkeyCoordinator.keyOf space h.key = ValkeyCoordinator.keyOf space h'.key ↔
        h.key = h'.key := fun space h h' => (ValkeyCoordinator.keyOf_injective space).eq_iff
  refine ⟨Attempt.keys_eq, hiff, fun space => ?_, fun hapart h h' hp hp' hne => ⟨?_, ?_⟩⟩
  · simp only [hspace]
    exact hiff
  · intro all c hc
    refine InMemoryCoordinator.get?_apply_of_ne all c fun hkey => hne ?_
    exact key_injOn_of_apart hapart.1 hapart.2 hp hp' (hkey.trans hc)
  · intro R space c id store scope limit scopeLimit units ttl t
    refine ValkeyCoordinator.reserveScoped_other (fun hkey => hne ?_) c id scope limit scopeLimit
      units ttl
    exact key_injOn_of_apart hapart.1 hapart.2 hp hp' ((hspace space h h').mp hkey)

/-! ## Names that collide -/

/-- Two pools, one named like the start of the slots of the other, and two
tenants of one slot each. -/
def nestedPools : Config ℚ where
  __ := Config.minimal .enforce [("tenant:x", ⟨1, 0, 1, 1⟩), ("x", ⟨1, 0, 1, 1⟩)]
  pools := OrdMap.ofList [("a", ⟨.fake, "http://127.0.0.1:9000", none, 10, 1⟩),
    ("a:tenant", ⟨.fake, "http://127.0.0.1:9000", none, 10, 1⟩)]

/-- The attempt of a tenant to reserve one unit of a pool. -/
def slotAttempt (pool tenant : String) : Attempt ℚ where
  request :=
    { id := 0
      identity := ⟨"principal", tenant, "app", true⟩
      requestedClass := .standard
      effectiveClass := .standard
      pool
      estimate := ⟨1, 1, 0, 1, 2, 1, .approximation⟩
      deadline := 1000
      queueable := true }
  config := nestedPools
  poolLimit := 10
  charged := 1
  leaseTtl := 1000

/-- Whether the second attempt gets its leases after the first, both at time
zero. -/
def reservedAfter (first second : Attempt ℚ) : Bool :=
  let C := InMemoryCoordinator.coordinator
  let s := (reserveDistributed C (fun i => ⟨0, i⟩) first [] ∅).2
  match (reserveDistributed C (fun i => ⟨0, i + 10⟩) second [] s).1 with
  | .ok (some _) => true
  | _ => false

/-- **A slot counts against another tenant.** Under a configuration that
validates, the slot of tenant `tenant:x` of pool `a` and that of tenant `x`
of pool `a:tenant` have one key. Each tenant has one slot: once the first
has taken it, the second is refused, who holds nothing; had a tenant `y`
taken one in its place, it would not be. -/
theorem slot_counts_against_another :
    Config.validate Config.noParsers nestedPools = .ok () ∧
      ("a" ∈ nestedPools.pools.keys ∧ "a:tenant" ∈ nestedPools.pools.keys) ∧
      (slotAttempt "a" "tenant:x").tenantKey = (slotAttempt "a:tenant" "x").tenantKey ∧
      reservedAfter (slotAttempt "a" "tenant:x") (slotAttempt "a:tenant" "x") = false ∧
      reservedAfter (slotAttempt "a" "y") (slotAttempt "a:tenant" "x") = true := by
  refine ⟨by decide +kernel, ⟨by decide +kernel, by decide +kernel⟩, by decide, by decide +kernel,
    by decide +kernel⟩

end Proxy

end InferQos
