/-
The forwarder of a tenant: `UpstreamBundleForwarder` in `upstream_bundle.rs`.

A lookup loads the bundle, chooses a member of a pool, takes its resolver from a
cache that is shared by all lookups and keyed by version and strictness, and
sends the query; on several exits it turns to the node's own fallback resolver
instead.  Lookups, publications and rebuilds of the cache interleave.

* `done_eq_lookup` — whatever the interleaving, a finished lookup did what the
  pure function `lookup` says on the bundle that it loaded;
* `encrypted_only` — a tenant that requires encryption never reaches a resolver
  in plain text;
* `strict_kept` — when a lookup that must be validated is;
* `member_preferred` — when a lookup that has a usable member goes to one;
* `SteadyPool.picks_even` — how often the rotations pick each member.
-/
import MantisDns.UpstreamBundle
import MantisDns.VersionedStore

open Text List Option

namespace Node.Upstream

variable {cfg : ResolverConfig} {timeoutMs : UInt64} {strict : Bool} {r : Resolver}

open Dns Json

/-! ### Building resolvers -/

/-- The transports of hickory that are configured. -/
inductive Protocol
  | tls
  | https
  | udp
  deriving DecidableEq

/-- A `Resolver`, as the configuration it was built with. -/
structure Resolver where
  addr : IpAddr
  port : UInt16
  protocol : Protocol
  tlsDnsName : Option Str
  httpEndpoint : Option Str
  timeoutMs : ℕ
  attempts : ℕ
  validate : Bool
  tlsPins : List Str
  deriving DecidableEq

/-- `str::parse::<IpAddr>`. -/
def parseIpAddr (s : Str) : Option IpAddr := ((parseIpv4 s).map .v4).or ((parseIpv6 s).map .v6)

/-- `matches!(protocol, "dot" | "doh")`. -/
def isEncrypted (protocol : Str) : Bool := protocol = "dot" || protocol = "doh"

/-- The transport for a configured protocol. -/
def Protocol.ofText (s : Str) : Protocol :=
  if s = "dot" then .tls else if s = "doh" then .https else .udp

/-- `build_hickory_resolver`. -/
def buildHickoryResolver (cfg : ResolverConfig) (timeoutMs : UInt64) (dnssecStrict : Bool) :
    Option Resolver :=
  (parseIpAddr cfg.address).map fun addr =>
    { addr
      port := cfg.port
      protocol := .ofText cfg.protocol
      tlsDnsName :=
        if isEncrypted cfg.protocol then some (cfg.tlsHostname.getD cfg.address) else none
      httpEndpoint := if cfg.protocol = "doh" then some cfg.dohPath else none
      timeoutMs := max timeoutMs.toNat 100
      attempts := cfg.maxRetries.toNat + 1
      validate := dnssecStrict
      tlsPins := if isEncrypted cfg.protocol then cfg.tlsPinSha256 else [] }

/-- `make_resolver_cfg`. -/
def makeResolverCfg (protocol addr : Str) (port : UInt16) (tlsName : Option Str) :
    ResolverConfig where
  id := "fallback"
  protocol := protocol
  address := addr
  port := port
  tlsHostname := tlsName
  dohPath := "/dns-query"
  dnssecValidation := "opportunistic"
  maxRetries := 2
  timeoutMs := 5000
  tlsPinSha256 := []

/-- `str::splitn`. -/
def splitN : ℕ → Char → Str → List Str
  | 0, _, _ => []
  | 1, _, s => [s]
  | n + 2, c, s =>
    match s.dropWhile (· ≠ c) with
    | [] => [s]
    | _ :: rest => s.takeWhile (· ≠ c) :: splitN (n + 1) c rest

/-- The configuration that `UPSTREAM_FALLBACK_ADDRESS` stands for; nothing if its port does
not parse. -/
def fallbackCfg (spec : Option Str) : Option ResolverConfig :=
  let cloudflare :=
    makeResolverCfg "dot" "1.1.1.1" 853 (some "cloudflare-dns.com")
  match splitN 4 ':' (spec.getD "dot:1.1.1.1:853:cloudflare-dns.com") with
  | [kind, addr, port, tlsName] =>
    if isEncrypted kind then
      (parseU16 port).map fun port => makeResolverCfg kind addr port (some tlsName)
    else some cloudflare
  | [addr, port] => (parseU16 port).map fun port => makeResolverCfg "do53" addr port none
  | _ => some cloudflare

/-- `build_fallback_resolver`: the resolver, and whether it is encrypted. -/
def buildFallbackResolver (spec : Option Str) : Option (Resolver × Bool) :=
  (fallbackCfg spec).bind fun cfg =>
    (buildHickoryResolver cfg 5000 false).map fun r => (r, isEncrypted cfg.protocol)

theorem ofText_ne_udp {s : Str} : Protocol.ofText s ≠ .udp ↔ isEncrypted s = true := by
  rw [Protocol.ofText, isEncrypted]
  split
  · simp_all
  · split <;> simp_all

theorem buildHickoryResolver_eq_some (h : buildHickoryResolver cfg timeoutMs strict = some r) :
    r.validate = strict ∧ (r.protocol ≠ .udp ↔ isEncrypted cfg.protocol = true) := by
  obtain ⟨addr, -, rfl⟩ := map_eq_some_iff.mp h
  exact ⟨rfl, ofText_ne_udp⟩

theorem buildHickoryResolver_isSome :
    (buildHickoryResolver cfg timeoutMs strict).isSome = (parseIpAddr cfg.address).isSome :=
  isSome_map

theorem buildFallbackResolver_eq_some {spec : Option Str} {encrypted : Bool}
    (h : buildFallbackResolver spec = some (r, encrypted)) :
    r.validate = false ∧ (r.protocol ≠ .udp ↔ encrypted = true) := by
  obtain ⟨cfg, -, h⟩ := bind_eq_some_iff.mp h
  obtain ⟨r', hr, heq⟩ := map_eq_some_iff.mp h
  obtain ⟨rfl, rfl⟩ := Prod.ext_iff.mp heq
  exact buildHickoryResolver_eq_some hr

/-! ### Choosing a member -/

/-- What the calls into the health store and the cursors return during one lookup: the
members of the first pool, those of the fallback pool, and the latencies are read one after
the other. -/
structure Readings where
  first : HealthStore
  second : HealthStore
  latency : HealthStore
  cursors : RoundRobinState

/-- The pool that a lookup turns to, with its healthy members. -/
def UpstreamBundle.turnTo (bundle : UpstreamBundle) (rd : Readings) (poolId : Str)
    (pool : PoolConfig) : Str × PoolConfig × List Str :=
  let healthyIds := bundle.healthyIds rd.first poolId pool
  if healthyIds.length < pool.minHealthyMembers.toNat then
    match pool.fallbackPoolId with
    | none => (poolId, pool, healthyIds)
    | some fallbackId =>
      match find fallbackId bundle.pools with
      | none => (poolId, pool, healthyIds)
      | some fallbackPool =>
        (fallbackId, fallbackPool, bundle.healthyIds rd.second fallbackId fallbackPool)
  else (poolId, pool, healthyIds)

/-- A member of the bundle, with what the route asks of its resolver. -/
structure Chosen where
  resolverId : Str
  cfg : ResolverConfig
  dnssecStrict : Bool

/-- `dnssec_strict`. -/
def UpstreamBundle.strictFor (bundle : UpstreamBundle) (route : RouteConfig)
    (cfg : ResolverConfig) : Bool :=
  route.requireDnssec.getD
    (bundle.tenantPolicy.dnssecValidation = "strict" ||
      cfg.dnssecValidation = "strict")

/-- The member that the pool's strategy picks. -/
def UpstreamBundle.pick (bundle : UpstreamBundle) (rd : Readings) (route : RouteConfig)
    (pool : PoolConfig) : Option Str :=
  let turned := bundle.turnTo rd route.poolId pool
  (pickMember turned.1 turned.2.1 turned.2.2 rd.latency rd.cursors).1

variable (upper : Str → Str)

/-- `lookup_scoped` up to `get_resolver`; nothing on the exits to the fallback resolver. -/
def UpstreamBundle.choose (bundle : UpstreamBundle) (rd : Readings) (q : Question) :
    Option Chosen := do
  let route ← selectRoute upper bundle.routes q
  let pool ← find route.poolId bundle.pools
  let resolverId ← bundle.pick rd route pool
  let cfg ← find resolverId bundle.resolvers
  return ⟨resolverId, cfg, bundle.strictFor route cfg⟩

/-! ### Sending -/

inductive LookupError
  | plainFallback
  | noUpstream
  deriving DecidableEq

def LookupError.text : LookupError → Str
  | .plainFallback => "tenant requires encrypted DNS and configured fallback uses do53"
  | .noUpstream =>
    "no upstream resolver available (bundle not loaded, no fallback configured)"

/-- Where the query goes: through the resolver of a member, through the node's own, or
nowhere.  What comes back from there is the result of `do_lookup`. -/
inductive Outcome
  | member (resolverId : Str) (resolver : Resolver)
  | fallback (resolver : Resolver)
  | error (error : LookupError)
  deriving DecidableEq

/-- The resolver that the answer comes from, if there is one. -/
def Outcome.resolver : Outcome → Option Resolver
  | .member _ r => some r
  | .fallback r => some r
  | .error _ => none

variable (fallback : Option (Resolver × Bool))

/-- `lookup_via_fallback`. -/
def lookupViaFallback (requireEncrypted : Bool) : Outcome :=
  match fallback with
  | some (r, encrypted) =>
    if !encrypted && requireEncrypted then .error .plainFallback else .fallback r
  | none => .error .noUpstream

/-- The end of `lookup_scoped`, on what `get_resolver` returned. -/
def send (bundle : UpstreamBundle) (c : Chosen) : Option Resolver → Outcome
  | some r => .member c.resolverId r
  | none => lookupViaFallback fallback bundle.tenantPolicy.requireEncrypted

/-- A whole lookup on a bundle, if nothing is cached. -/
def lookup (bundle : UpstreamBundle) (rd : Readings) (q : Question) : Outcome :=
  match bundle.choose upper rd q with
  | none => lookupViaFallback fallback bundle.tenantPolicy.requireEncrypted
  | some c => send fallback bundle c (buildHickoryResolver c.cfg c.cfg.timeoutMs c.dnssecStrict)

/-! ### Lookups at the same time -/

/-- `BundleResolverCache`. -/
structure BundleResolverCache where
  bundleVersion : UInt64
  dnssecStrict : Bool
  resolvers : Str → Option Resolver

/-- The cache that `get_resolver` builds. -/
def UpstreamBundle.cacheFor (bundle : UpstreamBundle) (strict : Bool) : BundleResolverCache where
  bundleVersion := bundle.version
  dnssecStrict := strict
  resolvers id := (find id bundle.resolvers).bind fun cfg =>
    buildHickoryResolver cfg cfg.timeoutMs strict

/-- The cache serves a lookup of this bundle. -/
def BundleResolverCache.serves (cache : BundleResolverCache) (bundle : UpstreamBundle)
    (strict : Bool) : Bool :=
  cache.bundleVersion = bundle.version && cache.dnssecStrict = strict

/-- Where a call of `lookup_scoped` is. -/
inductive Phase
  | idle
  | loaded (bundle : Option UpstreamBundle)
  | chosen (bundle : UpstreamBundle) (c : Chosen)
  | missed (bundle : UpstreamBundle) (c : Chosen)
  | done (bundle : Option UpstreamBundle) (outcome : Outcome)

/-- The store, every bundle that it ever held, the cache, and the calls. -/
structure State (ι : Type) where
  store : Option UpstreamBundle
  published : List UpstreamBundle
  cache : Option BundleResolverCache
  phase : ι → Phase

/-- `UpstreamBundleForwarder::new`, over an empty store. -/
def State.new {ι : Type} : State ι := ⟨none, [], none, fun _ => .idle⟩

section Run

variable {ι : Type} [DecidableEq ι]

def State.set (s : State ι) (i : ι) (p : Phase) : State ι :=
  { s with phase := Function.update s.phase i p }

@[simp] theorem State.set_phase_self (s : State ι) (i : ι) (p : Phase) : (s.set i p).phase i = p :=
  Function.update_self ..

theorem State.set_phase_ne (s : State ι) {i j : ι} (p : Phase) (h : j ≠ i) :
    (s.set i p).phase j = s.phase j :=
  Function.update_of_ne h ..

/-- The atomic steps of the calls, each with its question and readings, and of a publisher. -/
inductive Step (call : ι → Question × Readings) (s : State ι) : State ι → Prop
  | keep {bundle : UpstreamBundle}
      (h : newer UpstreamBundle.version bundle s.store = s.store) : Step call s s
  | publish {bundle : UpstreamBundle}
      (hnewer : installed UpstreamBundle.version s.store < (bundle.version.toNat : WithBot ℕ)) :
    Step call s { s with
      store := newer UpstreamBundle.version bundle s.store
      published := bundle :: s.published }
  | load {i : ι} (h : s.phase i = .idle) : Step call s (s.set i (.loaded s.store))
  | noBundle {i : ι} (h : s.phase i = .loaded none) :
    Step call s (s.set i (.done none (lookupViaFallback fallback false)))
  | exit {i : ι} {bundle : UpstreamBundle} (h : s.phase i = .loaded (some bundle))
      (hnone : bundle.choose upper (call i).2 (call i).1 = none) :
    Step call s (s.set i (.done (some bundle)
      (lookupViaFallback fallback bundle.tenantPolicy.requireEncrypted)))
  | choose {i : ι} {bundle : UpstreamBundle} {c : Chosen}
      (h : s.phase i = .loaded (some bundle))
      (hsome : bundle.choose upper (call i).2 (call i).1 = some c) :
    Step call s (s.set i (.chosen bundle c))
  | hit {i : ι} {bundle : UpstreamBundle} {c : Chosen} {cache : BundleResolverCache}
      (h : s.phase i = .chosen bundle c) (hcache : s.cache = some cache)
      (hserves : cache.serves bundle c.dnssecStrict = true) :
    Step call s (s.set i (.done (some bundle)
      (send fallback bundle c (cache.resolvers c.resolverId))))
  | miss {i : ι} {bundle : UpstreamBundle} {c : Chosen} (h : s.phase i = .chosen bundle c)
      (hmiss : ∀ cache ∈ s.cache, cache.serves bundle c.dnssecStrict = false) :
    Step call s (s.set i (.missed bundle c))
  | build {i : ι} {bundle : UpstreamBundle} {c : Chosen} (h : s.phase i = .missed bundle c) :
    Step call s { s.set i (.done (some bundle) (send fallback bundle c
        ((bundle.cacheFor c.dnssecStrict).resolvers c.resolverId))) with
      cache := some (bundle.cacheFor c.dnssecStrict) }

def Run (call : ι → Question × Readings) : State ι → State ι → Prop :=
  Relation.ReflTransGen (Step upper fallback call)

/-! ### What a lookup did -/

variable {upper fallback} {call : ι → Question × Readings} {s t : State ι} {i : ι}
  {bundle : UpstreamBundle} {rd : Readings} {q : Question} {c : Chosen}

/-- **What a choice is**: the route, its pool, the member picked there, and its
configuration. -/
theorem choose_eq_some : bundle.choose upper rd q = some c ↔
    ∃ route pool, selectRoute upper bundle.routes q = some route ∧
      find route.poolId bundle.pools = some pool ∧
      bundle.pick rd route pool = some c.resolverId ∧
      find c.resolverId bundle.resolvers = some c.cfg ∧
      c.dnssecStrict = bundle.strictFor route c.cfg := by
  simp only [UpstreamBundle.choose, bind_eq_bind, bind_eq_some_iff, Option.pure_def, some_inj]
  constructor
  · rintro ⟨route, hrt, pool, hpool, id, hpick, cfg, hcfg, rfl⟩
    exact ⟨route, pool, hrt, hpool, hpick, hcfg, rfl⟩
  · rintro ⟨route, pool, hrt, hpool, hpick, hcfg, hstr⟩
    exact ⟨route, hrt, pool, hpool, c.resolverId, hpick, c.cfg, hcfg, by rw [← hstr]⟩

/-- What is known of a call in each phase. -/
def PhaseOk (upper : Str → Str) (fallback : Option (Resolver × Bool)) (s : State ι)
    (call : Question × Readings) : Phase → Prop
  | .idle => True
  | .loaded none => True
  | .loaded (some bundle) => bundle ∈ s.published
  | .chosen bundle c => bundle ∈ s.published ∧ bundle.choose upper call.2 call.1 = some c
  | .missed bundle c => bundle ∈ s.published ∧ bundle.choose upper call.2 call.1 = some c
  | .done none outcome => outcome = lookupViaFallback fallback false
  | .done (some bundle) outcome => outcome = lookup upper fallback bundle call.2 call.1

/-- Versions tell apart the bundles that the store ever held, and the cache was built from
one of them. -/
structure Inv (upper : Str → Str) (fallback : Option (Resolver × Bool))
    (call : ι → Question × Readings) (s : State ι) : Prop where
  unique : ∀ b ∈ s.published, ∀ b' ∈ s.published, b.version = b'.version → b = b'
  stored : ∀ b ∈ s.store, b ∈ s.published
  le_store : ∀ b ∈ s.published,
    (b.version.toNat : WithBot ℕ) ≤ installed UpstreamBundle.version s.store
  cache : ∀ cache ∈ s.cache, ∃ b ∈ s.published, cache = b.cacheFor cache.dnssecStrict
  phase : ∀ i, PhaseOk upper fallback s (call i) (s.phase i)

omit [DecidableEq ι] in
theorem Inv.phase_eq (hs : Inv upper fallback call s) {p : Phase} (h : s.phase i = p) :
    PhaseOk upper fallback s (call i) p :=
  h ▸ hs.phase i

omit [DecidableEq ι] in
theorem inv_new : Inv upper fallback call (State.new : State ι) where
  unique := by simp [State.new]
  stored := by simp [State.new]
  le_store := by simp [State.new]
  cache := by simp [State.new]
  phase _ := trivial

omit [DecidableEq ι] in
theorem PhaseOk.mono {call : Question × Readings} {p : Phase} (h : PhaseOk upper fallback s call p)
    (hsub : s.published ⊆ t.published) : PhaseOk upper fallback t call p := by
  cases p with
  | idle => trivial
  | loaded b =>
    cases b with
    | none => trivial
    | some => exact hsub h
  | chosen | missed => exact ⟨hsub h.1, h.2⟩
  | done b => cases b <;> exact h

theorem Inv.set (hs : Inv upper fallback call s) {p : Phase}
    (hp : PhaseOk upper fallback s (call i) p) : Inv upper fallback call (s.set i p) :=
  { hs with
    phase := fun j => by
      by_cases hj : j = i
      · subst hj
        rw [State.set_phase_self]
        exact hp.mono (List.Subset.refl _)
      · rw [State.set_phase_ne s p hj]
        exact (hs.phase j).mono (List.Subset.refl _) }

theorem cacheFor_resolvers (hc : bundle.choose upper rd q = some c) :
    (bundle.cacheFor c.dnssecStrict).resolvers c.resolverId =
      buildHickoryResolver c.cfg c.cfg.timeoutMs c.dnssecStrict := by
  obtain ⟨-, -, -, -, -, hcfg, -⟩ := choose_eq_some.mp hc
  show (find c.resolverId bundle.resolvers).bind _ = _
  rw [hcfg]
  rfl

theorem lookup_of_choose (hc : bundle.choose upper rd q = some c) :
    lookup upper fallback bundle rd q =
      send fallback bundle c ((bundle.cacheFor c.dnssecStrict).resolvers c.resolverId) := by
  rw [cacheFor_resolvers hc, lookup, hc]

/-- **What one step preserves.** -/
theorem Inv.step (hs : Inv upper fallback call s) (h : Step upper fallback call s t) :
    Inv upper fallback call t := by
  cases h with
  | keep => exact hs
  | @publish b hnewer =>
    have hsto : newer UpstreamBundle.version b s.store = some b := by
      rcases newer_cases b s.store with ⟨-, hle⟩ | ⟨heq, -⟩
      · exact absurd hnewer hle.not_gt
      · exact heq
    -- the new bundle is ahead of all that were there before
    have hlt : ∀ b' ∈ s.published, b'.version ≠ b.version := by
      intro b' hb' heq
      have hle := hs.le_store b' hb'
      rw [heq] at hle
      exact absurd hnewer hle.not_gt
    refine ⟨?_, ?_, ?_, ?_, ?_⟩
    · intro x hx y hy heq
      rcases mem_cons.mp hx with hxb | hx <;> rcases mem_cons.mp hy with hyb | hy
      · rw [hxb, hyb]
      · exact absurd (hxb ▸ heq).symm (hlt y hy)
      · exact absurd (hyb ▸ heq) (hlt x hx)
      · exact hs.unique x hx y hy heq
    · intro x hx
      have hx : newer UpstreamBundle.version b s.store = some x := hx
      rw [hsto, some_inj] at hx
      exact mem_cons.mpr (.inl hx.symm)
    · have hinst : installed UpstreamBundle.version (newer UpstreamBundle.version b s.store) =
          (b.version.toNat : WithBot ℕ) := by rw [hsto, installed_some]
      refine forall_mem_cons.mpr ⟨hinst.ge, fun x hx => ?_⟩
      exact ((hs.le_store x hx).trans hnewer.le).trans hinst.ge
    · intro cache hcache
      obtain ⟨x, hx, heq⟩ := hs.cache cache hcache
      exact ⟨x, mem_cons_of_mem _ hx, heq⟩
    · exact fun j => (hs.phase j).mono (subset_cons_self _ _)
  | @load i h =>
    refine hs.set ?_
    cases hsto : s.store with
    | none => trivial
    | some b => exact hs.stored b hsto
  | @noBundle i h => exact hs.set rfl
  | @exit i b h hnone =>
    refine hs.set ?_
    show _ = lookup upper fallback b (call i).2 (call i).1
    rw [lookup, hnone]
  | @choose i b c h hsome =>
    have hb : b ∈ s.published := hs.phase_eq h
    exact hs.set ⟨hb, hsome⟩
  | @hit i b c cache h hcache hserves =>
    have hph : b ∈ s.published ∧ b.choose upper (call i).2 (call i).1 = some c :=
      hs.phase_eq h
    refine hs.set ?_
    show _ = lookup upper fallback b (call i).2 (call i).1
    -- the cache was built from a bundle with this version, which is the bundle
    obtain ⟨b', hb', heq⟩ := hs.cache cache hcache
    simp only [BundleResolverCache.serves, Bool.and_eq_true, decide_eq_true_eq] at hserves
    have hver : b'.version = b.version := by
      rw [← hserves.1, heq]
      rfl
    obtain rfl := hs.unique b' hb' b hph.1 hver
    rw [lookup_of_choose hph.2, heq, hserves.2]
  | @miss i b c h hmiss =>
    have hph : b ∈ s.published ∧ b.choose upper (call i).2 (call i).1 = some c :=
      hs.phase_eq h
    exact hs.set hph
  | @build i b c h =>
    have hph : b ∈ s.published ∧ b.choose upper (call i).2 (call i).1 = some c :=
      hs.phase_eq h
    have hset : Inv upper fallback call (s.set i (.done (some b) (send fallback b c
        ((b.cacheFor c.dnssecStrict).resolvers c.resolverId)))) :=
      hs.set (lookup_of_choose hph.2).symm
    refine { hset with cache := fun cache hcache => ?_, phase := fun j => ?_ }
    · cases hcache
      exact ⟨b, hph.1, rfl⟩
    · exact (hset.phase j).mono (List.Subset.refl _)

theorem inv_of_run (h : Run upper fallback call State.new s) : Inv upper fallback call s := by
  induction h with
  | refl => exact inv_new
  | tail _ hstep ih => exact ih.step hstep

/-- **A finished lookup did what it does alone** on the bundle that it loaded. -/
theorem done_eq_lookup (h : Run upper fallback call State.new s) {outcome : Outcome}
    (hdone : s.phase i = .done (some bundle) outcome) :
    outcome = lookup upper fallback bundle (call i).2 (call i).1 :=
  (inv_of_run h).phase_eq hdone

theorem exists_run_alone (upper : Str → Str) (fallback : Option (Resolver × Bool))
    (call : ι → Question × Readings) (i : ι) (bundle : UpstreamBundle) :
    ∃ s, Run upper fallback call State.new s ∧
      s.phase i = .done (some bundle) (lookup upper fallback bundle (call i).2 (call i).1) := by
  let s₁ : State ι := { (State.new : State ι) with store := some bundle, published := [bundle] }
  have hpub : Step upper fallback call State.new s₁ := .publish (WithBot.bot_lt_coe _)
  have hload : Step upper fallback call s₁ (s₁.set i (.loaded (some bundle))) := .load rfl
  have hrun : Run upper fallback call State.new (s₁.set i (.loaded (some bundle))) :=
    .tail (.single hpub) hload
  have hld : (s₁.set i (.loaded (some bundle))).phase i = .loaded (some bundle) :=
    State.set_phase_self ..
  cases hcho : bundle.choose upper (call i).2 (call i).1 with
  | none =>
    refine ⟨_, .tail hrun (.exit hld hcho), ?_⟩
    rw [State.set_phase_self, lookup, hcho]
  | some =>
    -- nothing is cached yet
    have hchos := Relation.ReflTransGen.tail hrun (.choose hld hcho)
    have hmis := Relation.ReflTransGen.tail hchos
      (.miss (State.set_phase_self ..) fun cache hcache =>
        absurd hcache (by simp [State.set, s₁, State.new]))
    refine ⟨_, hmis.tail (.build (State.set_phase_self ..)), ?_⟩
    rw [lookup_of_choose hcho]
    exact State.set_phase_self ..

end Run

/-! ### The members that can be chosen -/

section Choice

variable {upper : Str → Str} {fallback : Option (Resolver × Bool)} {bundle : UpstreamBundle}
  {rd : Readings} {q : Question} {c : Chosen} {health : HealthStore} {poolId : Str}
  {pool : PoolConfig} {route : RouteConfig} {id : Str}

theorem exists_minByKey {α : Type} (lt : α → α → Bool) {l : List α} (h : l ≠ []) :
    ∃ m ∈ l, minByKey lt l = some m := by
  obtain ⟨a, rest, rfl⟩ := exists_cons_of_ne_nil h
  refine ⟨_, ?_, rfl⟩
  clear h
  induction rest generalizing a with
  | nil => exact mem_cons_self
  | cons x rest ih =>
    rw [foldl_cons]
    have hmem := ih (if lt x a then x else a)
    rcases mem_cons.mp hmem with heq | hrest
    · rw [heq]
      split <;> simp
    · exact mem_cons_of_mem _ (mem_cons_of_mem _ hrest)

theorem mem_of_weightedMember {cursor acc : ℕ} {l : List PoolMember} {m : PoolMember}
    (h : weightedMember cursor acc l = some m) : m ∈ l := by
  induction l generalizing acc with
  | nil => simp [weightedMember] at h
  | cons x rest ih =>
    rw [weightedMember] at h
    split at h
    · cases h
      exact mem_cons_self
    · exact mem_cons_of_mem _ (ih h)

/-- **What `pick_member` can do**, by any strategy: pick one of the members with a listed
id, or nothing if there is none. -/
theorem pickMember_cases (poolId : Str) (pool : PoolConfig) (ids : List Str) (health : HealthStore)
    (rr : RoundRobinState) :
    ((∀ m ∈ pool.members, m.resolverId ∉ ids) ∧ (pickMember poolId pool ids health rr).1 = none) ∨
      ∃ m ∈ pool.members, m.resolverId ∈ ids ∧
        (pickMember poolId pool ids health rr).1 = some m.resolverId := by
  by_cases hemp : pool.members.filter (·.resolverId ∈ ids) = []
  · refine .inl ⟨fun m hm hid => ?_, by simp [pickMember, hemp]⟩
    exact filter_eq_nil_iff.mp hemp m hm (by simpa using hid)
  · right
    -- each strategy yields a member of the filtered list
    have hmem : ∀ m ∈ pool.members.filter (·.resolverId ∈ ids),
        m ∈ pool.members ∧ m.resolverId ∈ ids := fun m hm => by simpa using hm
    suffices ∃ m ∈ pool.members.filter (·.resolverId ∈ ids),
        (pickMember poolId pool ids health rr).1 = some m.resolverId by
      obtain ⟨m, hm, heq⟩ := this
      exact ⟨m, (hmem m hm).1, (hmem m hm).2, heq⟩
    have hnon : (pool.members.filter (·.resolverId ∈ ids)).isEmpty = false := by
      simpa using hemp
    rw [pickMember]
    simp only [hnon, Bool.false_eq_true, if_false]
    split
    · obtain ⟨m, hm, heq⟩ := exists_minByKey (fun a b : PoolMember => a.priority < b.priority ||
        a.priority = b.priority && a.weight < b.weight) hemp
      exact ⟨m, hm, by rw [heq]; rfl⟩
    split
    · split
      · obtain ⟨m, rest, heq⟩ := exists_cons_of_ne_nil hemp
        exact ⟨m, by rw [heq]; exact mem_cons_self, by rw [heq]; rfl⟩
      · dsimp only
        cases hwei : weightedMember _ 0 (pool.members.filter (·.resolverId ∈ ids)) with
        | some m => exact ⟨m, mem_of_weightedMember hwei, rfl⟩
        | none =>
          refine ⟨_, getLast_mem hemp, ?_⟩
          rw [getLast?_eq_getLast_of_ne_nil hemp]
          rfl
    split
    · obtain ⟨m, hm, heq⟩ := exists_minByKey (fun a b : PoolMember =>
        ((health poolId a.resolverId).map (·.latencyEmaUs)).getD 0 <
          ((health poolId b.resolverId).map (·.latencyEmaUs)).getD 0) hemp
      exact ⟨m, hm, by rw [heq]; rfl⟩
    · dsimp only
      have hlt : (rr.next poolId).1.toNat % (pool.members.filter (·.resolverId ∈ ids)).length <
          (pool.members.filter (·.resolverId ∈ ids)).length :=
        Nat.mod_lt _ (length_pos_of_ne_nil hemp)
      refine ⟨_, getElem_mem hlt, ?_⟩
      rw [getElem?_eq_getElem hlt]
      rfl

/-- A member is healthy, or not known yet. -/
def IsHealthy (health : HealthStore) (poolId id : Str) : Prop :=
  ((health poolId id).map (·.healthy)).getD true = true

theorem mem_healthyIds : id ∈ bundle.healthyIds health poolId pool ↔
    (∃ m ∈ pool.members, m.resolverId = id) ∧ IsHealthy health poolId id ∧
      (bundle.tenantPolicy.requireEncrypted = true →
        ∃ cfg, find id bundle.resolvers = some cfg ∧ isEncrypted cfg.protocol = true) := by
  have hmem : id ∈ healthyMembers health poolId pool.members ↔
      (∃ m ∈ pool.members, m.resolverId = id) ∧ IsHealthy health poolId id := by
    simp only [healthyMembers, List.mem_map, mem_filter]
    constructor
    · rintro ⟨m, ⟨hm, hhl⟩, rfl⟩
      exact ⟨⟨m, hm, rfl⟩, hhl⟩
    · rintro ⟨⟨m, hm, rfl⟩, hhl⟩
      exact ⟨m, ⟨hm, hhl⟩, rfl⟩
  rw [UpstreamBundle.healthyIds]
  split
  · rename_i henc
    rw [mem_filter, hmem, and_assoc, Option.any_eq_true]
    simp [henc, isEncrypted]
  · rename_i henc
    rw [hmem]
    simp [henc]

/-- **Which pool a lookup turns to**: the route's, or its fallback. -/
theorem turnTo_cases (bundle : UpstreamBundle) (rd : Readings) (poolId : Str) (pool : PoolConfig) :
    bundle.turnTo rd poolId pool = (poolId, pool, bundle.healthyIds rd.first poolId pool) ∨
      ∃ fallbackId ∈ pool.fallbackPoolId, ∃ fallbackPool,
        find fallbackId bundle.pools = some fallbackPool ∧
        bundle.turnTo rd poolId pool =
          (fallbackId, fallbackPool, bundle.healthyIds rd.second fallbackId fallbackPool) := by
  rw [UpstreamBundle.turnTo]
  split
  · cases hid : pool.fallbackPoolId with
    | none => exact .inl rfl
    | some fallbackId =>
      cases hpool : find fallbackId bundle.pools with
      | none => exact .inl (by simp only [hpool])
      | some fallbackPool => exact .inr ⟨fallbackId, rfl, fallbackPool, hpool, by simp only [hpool]⟩
  · exact .inl rfl

theorem exists_member_of_turnTo (hid : id ∈ (bundle.turnTo rd poolId pool).2.2) :
    ∃ m ∈ (bundle.turnTo rd poolId pool).2.1.members, m.resolverId = id := by
  rcases turnTo_cases bundle rd poolId pool with heq | ⟨fallbackId, -, fallbackPool, -, heq⟩
  · rw [heq] at hid ⊢
    exact (mem_healthyIds.mp hid).1
  · rw [heq] at hid ⊢
    exact (mem_healthyIds.mp hid).1

/-- A picked member is among the healthy ones of that pool, and one is picked if there are
any. -/
theorem pick_spec (bundle : UpstreamBundle) (rd : Readings) (route : RouteConfig)
    (pool : PoolConfig) :
    (∀ id, bundle.pick rd route pool = some id → id ∈ (bundle.turnTo rd route.poolId pool).2.2) ∧
      ((bundle.turnTo rd route.poolId pool).2.2 ≠ [] →
        ∃ id, bundle.pick rd route pool = some id) := by
  rcases pickMember_cases (bundle.turnTo rd route.poolId pool).1
    (bundle.turnTo rd route.poolId pool).2.1 (bundle.turnTo rd route.poolId pool).2.2 rd.latency
    rd.cursors with ⟨hnone, heq⟩ | ⟨m, -, hid, heq⟩
  · refine ⟨fun id h => absurd (heq.symm.trans h) (by simp), fun hne => ?_⟩
    obtain ⟨id, rest, hids⟩ := exists_cons_of_ne_nil hne
    have hmem : id ∈ (bundle.turnTo rd route.poolId pool).2.2 := hids ▸ mem_cons_self
    obtain ⟨m, hm, rfl⟩ := exists_member_of_turnTo hmem
    exact absurd hmem (hnone m hm)
  · refine ⟨fun id h => ?_, fun _ => ⟨_, heq⟩⟩
    rw [← some_inj.mp (heq.symm.trans h)]
    exact hid

/-! ### Encryption -/

theorem isEncrypted_of_choose (h : bundle.choose upper rd q = some c)
    (henc : bundle.tenantPolicy.requireEncrypted = true) : isEncrypted c.cfg.protocol = true := by
  obtain ⟨route, pool, -, -, hpick, hcfg, -⟩ := choose_eq_some.mp h
  have hmem := (pick_spec bundle rd route pool).1 _ hpick
  have hids : ∃ cfg, find c.resolverId bundle.resolvers = some cfg ∧
      isEncrypted cfg.protocol = true := by
    rcases turnTo_cases bundle rd route.poolId pool with heq | ⟨_, -, _, -, heq⟩
    · rw [heq] at hmem
      exact (mem_healthyIds.mp hmem).2.2 henc
    · rw [heq] at hmem
      exact (mem_healthyIds.mp hmem).2.2 henc
  obtain ⟨cfg, hfind, hcfg'⟩ := hids
  rwa [← some_inj.mp (hfind.symm.trans hcfg)]

/-- **What a lookup can do** on a bundle: send to the chosen member, or turn to the fallback
if there is no such member or its address does not parse. -/
theorem lookup_cases (upper : Str → Str) (fallback : Option (Resolver × Bool))
    (bundle : UpstreamBundle) (rd : Readings) (q : Question) :
    (∃ c r, bundle.choose upper rd q = some c ∧
        buildHickoryResolver c.cfg c.cfg.timeoutMs c.dnssecStrict = some r ∧
        lookup upper fallback bundle rd q = .member c.resolverId r) ∨
      (∀ c, bundle.choose upper rd q = some c → (parseIpAddr c.cfg.address).isSome = false) ∧
        lookup upper fallback bundle rd q =
          lookupViaFallback fallback bundle.tenantPolicy.requireEncrypted := by
  rw [lookup]
  cases hcho : bundle.choose upper rd q with
  | none => exact .inr ⟨by simp, rfl⟩
  | some c =>
    cases hbu : buildHickoryResolver c.cfg c.cfg.timeoutMs c.dnssecStrict with
    | some r => exact .inl ⟨c, r, rfl, hbu, by simp only [hbu]; rfl⟩
    | none =>
      refine .inr ⟨fun c' hc' => ?_, by simp only [hbu]; rfl⟩
      rw [← some_inj.mp hc', ← buildHickoryResolver_isSome, hbu]
      rfl

theorem lookupViaFallback_cases (fallback : Option (Resolver × Bool)) (requireEncrypted : Bool) :
    (∃ e, lookupViaFallback fallback requireEncrypted = .error e) ∨
      ∃ r encrypted, fallback = some (r, encrypted) ∧
        (requireEncrypted = true → encrypted = true) ∧
        lookupViaFallback fallback requireEncrypted = .fallback r := by
  rw [lookupViaFallback.eq_def]
  split
  · rename_i r encrypted
    split
    · exact .inl ⟨_, rfl⟩
    · rename_i hpl
      refine .inr ⟨r, encrypted, rfl, fun hreq => ?_, rfl⟩
      simpa [hreq] using hpl
  · exact .inl ⟨_, rfl⟩

end Choice

section Lookups

variable {ι : Type} [DecidableEq ι] {upper : Str → Str} {spec : Option Str}
  {call : ι → Question × Readings} {s : State ι} {i : ι} {bundle : UpstreamBundle}
  {outcome : Outcome}

/-- **Encrypted only.**  Whatever lookups and publications go on at the same time, a lookup
on a bundle whose tenant requires encryption sends its query through a resolver that the
bundle configures with `dot` or `doh`, through an encrypted fallback, or nowhere; it never
reaches a resolver over plain UDP. -/
theorem encrypted_only (hrun : Run upper (buildFallbackResolver spec) call State.new s)
    (hdone : s.phase i = .done (some bundle) outcome)
    (henc : bundle.tenantPolicy.requireEncrypted = true) :
    (∃ e, outcome = .error e) ∨ ∃ r, outcome.resolver = some r ∧ r.protocol ≠ .udp ∧
      ((∃ id cfg strict, outcome = .member id r ∧ find id bundle.resolvers = some cfg ∧
          (cfg.protocol = "dot" ∨ cfg.protocol = "doh") ∧
          buildHickoryResolver cfg cfg.timeoutMs strict = some r) ∨
        outcome = .fallback r ∧ buildFallbackResolver spec = some (r, true)) := by
  rw [done_eq_lookup hrun hdone]
  rcases lookup_cases upper (buildFallbackResolver spec) bundle (call i).2 (call i).1 with
    ⟨c, r, hcho, hbu, heq⟩ | ⟨-, heq⟩
  · have hpro := isEncrypted_of_choose hcho henc
    obtain ⟨-, -, -, -, -, hcfg, -⟩ := choose_eq_some.mp hcho
    refine .inr ⟨r, by rw [heq]; rfl, (buildHickoryResolver_eq_some hbu).2.mpr hpro, .inl ?_⟩
    refine ⟨c.resolverId, c.cfg, c.dnssecStrict, heq, hcfg, ?_, hbu⟩
    simpa [isEncrypted] using hpro
  · rw [heq, henc]
    rcases lookupViaFallback_cases (buildFallbackResolver spec) true with
      ⟨e, he⟩ | ⟨r, encrypted, hfb, hencr, hsent⟩
    · exact .inl ⟨e, he⟩
    · obtain rfl : encrypted = true := hencr rfl
      refine .inr ⟨r, by rw [hsent]; rfl, ?_, .inr ⟨hsent, hfb⟩⟩
      exact (buildFallbackResolver_eq_some hfb).2.mpr rfl

/-! ### Members that take the query -/

/-- A member is in the bundle, with an address that parses. -/
def UpstreamBundle.Loads (bundle : UpstreamBundle) (id : Str) : Prop :=
  ∃ cfg, find id bundle.resolvers = some cfg ∧ (parseIpAddr cfg.address).isSome = true

/-- A healthy member that is in the bundle, has an address that parses and is encrypted if
the tenant requires it. -/
structure UsableMember (bundle : UpstreamBundle) (health : HealthStore) (poolId : Str)
    (pool : PoolConfig) (id : Str) : Prop where
  member : ∃ m ∈ pool.members, m.resolverId = id
  healthy : IsHealthy health poolId id
  cfg : ∃ cfg, find id bundle.resolvers = some cfg ∧
    (parseIpAddr cfg.address).isSome = true ∧
    (bundle.tenantPolicy.requireEncrypted = true → isEncrypted cfg.protocol = true)

/-- Such a member of the route's pool, or of that pool's fallback. -/
def Usable (bundle : UpstreamBundle) (rd : Readings) (route : RouteConfig) (pool : PoolConfig)
    (id : Str) : Prop :=
  UsableMember bundle rd.first route.poolId pool id ∨
    ∃ fallbackId ∈ pool.fallbackPoolId, ∃ fallbackPool,
      find fallbackId bundle.pools = some fallbackPool ∧
      UsableMember bundle rd.second fallbackId fallbackPool id

/-- **No healthy member is in the way.**  All that are healthy and admitted by the tenant load:
in the route's pool, if it has enough of them or no other pool to fall back to; in the fallback
pool, which has one, if the first has too few. -/
inductive AllLoad (bundle : UpstreamBundle) (rd : Readings) (route : RouteConfig)
    (pool : PoolConfig) : Prop
  | enough (hne : bundle.healthyIds rd.first route.poolId pool ≠ [])
      (hmin : pool.minHealthyMembers.toNat ≤
        (bundle.healthyIds rd.first route.poolId pool).length)
      (hload : ∀ id ∈ bundle.healthyIds rd.first route.poolId pool, bundle.Loads id)
  | alone (hnone : ∀ fallbackId ∈ pool.fallbackPoolId, find fallbackId bundle.pools = none)
      (hload : ∀ id ∈ bundle.healthyIds rd.first route.poolId pool, bundle.Loads id)
  | spare {fallbackId : Str} {fallbackPool : PoolConfig}
      (hfew : (bundle.healthyIds rd.first route.poolId pool).length <
        pool.minHealthyMembers.toNat)
      (hid : pool.fallbackPoolId = some fallbackId)
      (hpool : find fallbackId bundle.pools = some fallbackPool)
      (hne : bundle.healthyIds rd.second fallbackId fallbackPool ≠ [])
      (hload : ∀ id ∈ bundle.healthyIds rd.second fallbackId fallbackPool, bundle.Loads id)

variable {rd : Readings} {route : RouteConfig} {pool : PoolConfig} {q : Question} {id : Str}

theorem usableMember_iff {health : HealthStore} {poolId : Str} :
    UsableMember bundle health poolId pool id ↔
      id ∈ bundle.healthyIds health poolId pool ∧ bundle.Loads id := by
  rw [mem_healthyIds]
  constructor
  · rintro ⟨hmem, hhl, cfg, hfind, hpar, henc⟩
    exact ⟨⟨hmem, hhl, fun hreq => ⟨cfg, hfind, henc hreq⟩⟩, cfg, hfind, hpar⟩
  · rintro ⟨⟨hmem, hhl, henc⟩, cfg, hfind, hpar⟩
    refine ⟨hmem, hhl, cfg, hfind, hpar, fun hreq => ?_⟩
    obtain ⟨cfg', hfind', hcfg'⟩ := henc hreq
    rwa [some_inj.mp (hfind.symm.trans hfind')]

theorem AllLoad.turnTo (h : AllLoad bundle rd route pool)
    (husa : ∃ id, Usable bundle rd route pool id) :
    (bundle.turnTo rd route.poolId pool).2.2 ≠ [] ∧
      ∀ id ∈ (bundle.turnTo rd route.poolId pool).2.2, bundle.Loads id := by
  cases h with
  | enough hne hmin hload =>
    rw [UpstreamBundle.turnTo, if_neg (not_lt.mpr hmin)]
    exact ⟨hne, hload⟩
  | alone hnone hload =>
    have hstay : bundle.turnTo rd route.poolId pool =
        (route.poolId, pool, bundle.healthyIds rd.first route.poolId pool) := by
      rcases turnTo_cases bundle rd route.poolId pool with heq | ⟨fallbackId, hid, _, hfnd, -⟩
      · exact heq
      · simp [hnone fallbackId hid] at hfnd
    rw [hstay]
    -- without another pool the usable member is one of this pool
    obtain ⟨id, husa | ⟨fallbackId, hid, _, hfnd, -⟩⟩ := husa
    · exact ⟨ne_nil_of_mem (usableMember_iff.mp husa).1, hload⟩
    · simp [hnone fallbackId hid] at hfnd
  | spare hfew hid hpool hne hload =>
    simp only [UpstreamBundle.turnTo, if_pos hfew, hid, hpool]
    exact ⟨hne, hload⟩

/-- **A lookup goes to a usable member** if there is one and none is in the way. -/
theorem AllLoad.lookup (h : AllLoad bundle rd route pool)
    (husa : ∃ id, Usable bundle rd route pool id) (fallback : Option (Resolver × Bool))
    (hroute : selectRoute upper bundle.routes q = some route)
    (hpool : find route.poolId bundle.pools = some pool) :
    ∃ id r, lookup upper fallback bundle rd q = .member id r ∧ Usable bundle rd route pool id := by
  obtain ⟨hne, hload⟩ := h.turnTo husa
  obtain ⟨id, hpick⟩ := (pick_spec bundle rd route pool).2 hne
  have hmem := (pick_spec bundle rd route pool).1 id hpick
  obtain ⟨cfg, hfind, hpar⟩ := hload id hmem
  have hcho : bundle.choose upper rd q = some ⟨id, cfg, bundle.strictFor route cfg⟩ :=
    choose_eq_some.mpr ⟨route, pool, hroute, hpool, hpick, hfind, rfl⟩
  obtain ⟨r, hr⟩ := isSome_iff_exists.mp
    ((@buildHickoryResolver_isSome cfg cfg.timeoutMs (bundle.strictFor route cfg)).trans hpar)
  refine ⟨id, r, ?_, ?_⟩
  · rw [Upstream.lookup, hcho]
    simp only [hr]
    rfl
  · rcases turnTo_cases bundle rd route.poolId pool with heq | ⟨fallbackId, hid, fp, hfnd, heq⟩
    · rw [heq] at hmem
      exact .inl (usableMember_iff.mpr ⟨hmem, cfg, hfind, hpar⟩)
    · rw [heq] at hmem
      exact .inr ⟨fallbackId, hid, fp, hfnd, usableMember_iff.mpr ⟨hmem, cfg, hfind, hpar⟩⟩

end Lookups

/-! A tenant with a route to one pool. -/

def sampleResolver (id protocol address : Str) : Str × ResolverConfig :=
  (id, ⟨id, protocol, address, 53, none, "/dns-query", "opportunistic", 2, 5000, []⟩)

def samplePool (id : Str) (members : List Str) (fallback : Option Str) (least : UInt32) :
    Str × PoolConfig :=
  (id, ⟨id, "failover", members.zipIdx.map fun m => ⟨m.1, 1, UInt32.ofNat m.2⟩, 30, 2000,
    "example.com", "soa", 2, 3, fallback, least⟩)

def sampleRoute (requireDnssec : Option Bool) : RouteConfig :=
  ⟨none, "default", none, "p1", none, requireDnssec, 100⟩

def sampleBundle (requireEncrypted : Bool) (requireDnssec : Option Bool)
    (pools : List (Str × PoolConfig)) (resolvers : List (Str × ResolverConfig)) : UpstreamBundle :=
  ⟨1, "acme", [sampleRoute requireDnssec], pools, resolvers,
    ⟨requireEncrypted, "opportunistic", 0, 86400, 300⟩⟩

def sampleQuestion : Question := ⟨"example.com.", "A", [], none⟩

/-- A lookup that finds the given members down. -/
def sampleCall (down : List Str) : Unit → Question × Readings := fun _ =>
  let health : HealthStore := fun _ id => if id ∈ down then some ⟨false, 0⟩ else none
  (sampleQuestion, ⟨health, health, health, fun _ => 0⟩)

/-- The first member is in plain text and is passed over. -/
def mixedBundle : UpstreamBundle :=
  sampleBundle true none [samplePool "p1" ["r1", "r2"] none 1]
    [sampleResolver "r1" "do53" "192.0.2.1",
      sampleResolver "r2" "dot" "192.0.2.2"]

theorem encrypted_only_mixed :
    ∃ s outcome, Run id (buildFallbackResolver none) (sampleCall []) State.new s ∧
      s.phase () = .done (some mixedBundle) outcome ∧
      ∃ r, outcome = .member "r2" r ∧ r.protocol ≠ .udp := by
  obtain ⟨s, hrun, hdone⟩ :=
    exists_run_alone id (buildFallbackResolver none) (sampleCall []) () mixedBundle
  have hmem : ∃ r, lookup id (buildFallbackResolver none) mixedBundle (sampleCall [] ()).2
      (sampleCall [] ()).1 = .member "r2" r := ⟨_, rfl⟩
  obtain ⟨r, hr⟩ := hmem
  rw [hr] at hdone
  refine ⟨s, _, hrun, hdone, r, rfl, ?_⟩
  rcases encrypted_only hrun hdone rfl with ⟨e, he⟩ | ⟨r', hr', hpro, -⟩
  · simp at he
  · rwa [some_inj.mp hr']

/-- A pool, with the ids that stay its healthy ones. -/
structure SteadyPool where
  poolId : Str
  pool : PoolConfig
  ids : List Str

/-- A call of `pick_member`, of a pool or of another. -/
inductive PickCall (poolId : Str)
  | own (health : HealthStore)
  | other (otherId : Str) (hne : poolId ≠ otherId) (pool : PoolConfig) (ids : List Str)
      (health : HealthStore)

namespace SteadyPool

def pick (p : SteadyPool) : HealthStore → RoundRobinState → Option Str × RoundRobinState :=
  pickMember p.poolId p.pool p.ids

/-- What the calls of the pool pick, in the order in which calls lock the cursors.
Everything else a call computes from its own arguments. -/
def picks (p : SteadyPool) (rr : RoundRobinState) : List (PickCall p.poolId) → List (Option Str)
  | [] => []
  | .own health :: rest => (p.pick health rr).1 :: p.picks (p.pick health rr).2 rest
  | .other otherId _ pool ids health :: rest =>
    p.picks (pickMember otherId pool ids health rr).2 rest

abbrev healthy (p : SteadyPool) : List PoolMember := p.pool.members.filter (·.resolverId ∈ p.ids)

abbrev weightOf (l : List PoolMember) : ℕ := (l.map (·.weight.toNat)).sum

/-- The cursor alone decides what is picked, modulo `n`, and moves on. -/
def Rotates (p : SteadyPool) (n : ℕ) (f : ℕ → Option Str) : Prop :=
  ∀ health rr, p.pick health rr = (f ((rr p.poolId).toNat % n), (rr.next p.poolId).2)

variable {p : SteadyPool} {id : Str} {n : ℕ} {f : ℕ → Option Str} {rr : RoundRobinState}
  {calls : List (PickCall p.poolId)}

theorem pickMember_other {poolId otherId : Str} (hne : poolId ≠ otherId) {pool : PoolConfig}
    {ids : List Str} {health : HealthStore} :
    (pickMember otherId pool ids health rr).2 poolId = rr poolId := by
  simp only [pickMember]
  split_ifs <;> simp [RoundRobinState.next, hne]

theorem Rotates.count_picks (h : p.Rotates n f) :
    (p.picks rr calls).count (some id) =
      Nat.count (fun j => f ((rr p.poolId + UInt64.ofNat j).toNat % n) = some id)
        (p.picks rr calls).length := by
  induction calls generalizing rr with
  | nil => simp [picks]
  | cons c rest ih =>
    cases c with
    | own health =>
      rw [picks, h, count_cons, ih, length_cons, Nat.count_succ']
      simp [RoundRobinState.next, UInt64.add_assoc, UInt64.add_comm 1]
    | other _ hne => rw [picks, ih, pickMember_other hne]

theorem Rotates.count_window (h : p.Rotates n f) (hlen : (p.picks rr calls).length = n)
    (hwrap : (rr p.poolId).toNat + n ≤ 2 ^ 64) :
    (p.picks rr calls).count (some id) = Nat.count (fun v => f v = some id) n := by
  have hadd := Nat.count_add (fun v => f (v % n) = some id) (rr p.poolId).toNat n
  have hadd' := Nat.count_add' (fun v => f (v % n) = some id) (rr p.poolId).toNat n
  simp only [Nat.add_mod_right] at hadd'
  rw [h.count_picks, hlen]
  calc _ = Nat.count (fun j => f (((rr p.poolId).toNat + j) % n) = some id) n :=
        countP_congr fun j hj => by
          have hlt := (Nat.add_lt_add_left (mem_range.mp hj) _).trans_le hwrap
          simp only [UInt64.toNat_add, UInt64.toNat_ofNat', Nat.add_mod_mod, Nat.mod_eq_of_lt hlt]
    _ = Nat.count (fun v => f (v % n) = some id) n := by omega
    _ = _ := countP_congr fun v hv => by simp only [Nat.mod_eq_of_lt (mem_range.mp hv)]

theorem count_weightedMember (l : List PoolMember) (last : Option PoolMember) (acc : ℕ) :
    Nat.count (fun v => ((weightedMember (acc + v) acc l).or last).map (·.resolverId) = some id)
        (weightOf l) = weightOf (l.filter (·.resolverId = id)) := by
  induction l generalizing acc with
  | nil => rfl
  | cons m rest ih =>
    have hown : ∀ v < m.weight.toNat, weightedMember (acc + v) acc (m :: rest) = some m :=
      fun v hv => if_pos (by omega)
    have hrest : ∀ v, weightedMember (acc + (m.weight.toNat + v)) acc (m :: rest) =
        weightedMember (acc + m.weight.toNat + v) (acc + m.weight.toNat) rest := fun v => by
      rw [weightedMember, if_neg (by omega), Nat.add_assoc]
    rw [weightOf, map_cons, sum_cons, Nat.count_add]
    simp only [hrest, ih, filter_cons]
    by_cases heq : m.resolverId = id
    · rw [Nat.count_iff_forall.mpr fun v hv => by simp [hown v hv, heq]]
      simp [heq, weightOf]
    · rw [Nat.count_iff_forall_not.mpr fun v hv => by simp [hown v hv, heq]]
      simp [heq]

theorem count_getElem (l : List PoolMember) :
    Nat.count (fun v => l[v]?.map (·.resolverId) = some id) l.length =
      l.countP (·.resolverId = id) := by
  induction l with
  | nil => rfl
  | cons m rest ih =>
    rw [length_cons, Nat.count_succ', countP_cons, ← ih]
    simp

theorem rotates_weighted (hstr : p.pool.strategy = "weighted_round_robin")
    (hpos : weightOf p.healthy ≠ 0) :
    p.Rotates (weightOf p.healthy) fun v =>
      ((weightedMember v 0 p.healthy).or p.healthy.getLast?).map (·.resolverId) := by
  intro health rr
  have hne : p.healthy ≠ [] := fun h => hpos (by rw [h]; rfl)
  rw [pick, pickMember, if_neg (by simpa using hne), if_neg (by rw [hstr]; decide), if_pos hstr,
    if_neg hpos]
  rfl

theorem rotates_plain (hstr : p.pool.strategy = "round_robin") (hne : p.healthy ≠ []) :
    p.Rotates p.healthy.length fun v => p.healthy[v]?.map (·.resolverId) := by
  intro health rr
  rw [pick, pickMember, if_neg (by simpa using hne), if_neg (by rw [hstr]; decide),
    if_neg (by rw [hstr]; decide), if_neg (by rw [hstr]; decide)]
  rfl

/-- **The rotations are even.**  A window of picks of a pool, with any calls of other pools
in between and without a wrap of its cursor, picks a resolver as often as its members weigh,
or as often as it is a member; and every strategy picks a healthy member if there is one. -/
theorem picks_even :
    (p.pool.strategy = "weighted_round_robin" → 0 < weightOf p.healthy →
      (p.picks rr calls).length = weightOf p.healthy →
      (rr p.poolId).toNat + weightOf p.healthy ≤ 2 ^ 64 →
      ∀ m ∈ p.healthy, (p.picks rr calls).count (some m.resolverId) =
        weightOf (p.healthy.filter (·.resolverId = m.resolverId))) ∧
    (p.pool.strategy = "round_robin" → (p.picks rr calls).length = p.healthy.length →
      (rr p.poolId).toNat + p.healthy.length ≤ 2 ^ 64 →
      ∀ m ∈ p.healthy, (p.picks rr calls).count (some m.resolverId) =
        p.healthy.countP (·.resolverId = m.resolverId)) ∧
    ∀ health, p.healthy ≠ [] → ∃ m ∈ p.healthy, (p.pick health rr).1 = some m.resolverId := by
  refine ⟨fun hstr hpos hlen hwrap m hm => ?_, fun hstr hlen hwrap m hm => ?_, fun health hne => ?_⟩
  · rw [(rotates_weighted hstr hpos.ne').count_window hlen hwrap]
    simpa only [Nat.zero_add] using count_weightedMember p.healthy _ 0
  · rw [(rotates_plain hstr (ne_nil_of_mem hm)).count_window hlen hwrap, count_getElem]
  · obtain ⟨hnone, -⟩ | ⟨m, hm, hid, heq⟩ := pickMember_cases p.poolId p.pool p.ids health rr
    · exact (hne (filter_eq_nil_iff.mpr fun m hm => by simpa using hnone m hm)).elim
    · exact ⟨m, mem_filter.mpr ⟨hm, by simpa using hid⟩, heq⟩

end SteadyPool

/-- At the wrap of its cursor a rotation over three members repeats the first one. -/
theorem pick_repeated :
    SteadyPool.picks ⟨"p1", { (samplePool "p1" ["r1", "r2", "r3"] none 1).2 with
        strategy := "round_robin" }, ["r1", "r2", "r3"]⟩ (fun _ => 2 ^ 64 - 1)
        (replicate 3 (.own fun _ _ => none)) =
      [some "r1".toList, some "r1".toList, some "r2".toList] := by
  decide +kernel

end Node.Upstream
