/-
The upstream bundle on a filter node: `upstream_bundle.rs`.

The body that the control plane signed is decoded into fixed-width types, and a
lookup goes from the best route to a pool, to its fallback when too few of its
members are healthy, and to one resolver of it.

* `upstream_loads_iff` — which configurations the node can load;
* `fallback_found_iff` — for which of them a lookup always finds the fallback
  pool that was configured.
-/
import MantisDns.Dns
import MantisDns.UpstreamExport

open Text Table Option Json

namespace Node.Upstream

/-! ### The types of the bundle -/

/-- `ResolverConfig_`. -/
structure ResolverConfig where
  id : Str
  protocol : Str
  address : Str
  port : UInt16
  tlsHostname : Option Str
  dohPath : Str
  dnssecValidation : Str
  maxRetries : UInt32
  timeoutMs : UInt64
  tlsPinSha256 : List Str

structure PoolMember where
  resolverId : Str
  weight : UInt32
  priority : UInt32

structure PoolConfig where
  id : Str
  strategy : Str
  members : List PoolMember
  healthCheckIntervalS : UInt64
  healthCheckTimeoutMs : UInt64
  healthCheckQuery : Str
  healthCheckType : Str
  healthyThreshold : UInt32
  unhealthyThreshold : UInt32
  fallbackPoolId : Option Str
  minHealthyMembers : UInt32

structure RouteConfig where
  groupId : Option Str
  matchType : Str
  matchValue : Option Str
  poolId : Str
  nxdomainTtlOverride : Option UInt32
  requireDnssec : Option Bool
  priority : Int32

structure TenantPolicy where
  requireEncrypted : Bool
  dnssecValidation : Str
  minTtlS : UInt32
  maxTtlS : UInt32
  negativeTtlS : UInt32

structure UpstreamBundle where
  version : UInt64
  tenantId : Str
  routes : List RouteConfig
  pools : List (Str × PoolConfig)
  resolvers : List (Str × ResolverConfig)
  tenantPolicy : TenantPolicy

/-! ### Decoding -/

def ResolverConfig.ofJson (j : Json) : Option ResolverConfig := do
  let id ← field string "id" j
  let protocol ← field string "protocol" j
  let address ← field string "address" j
  let port ← field u16 "port" j
  let tlsHostname ← fieldOr none (option string) "tls_hostname" j
  let dohPath ← field string "doh_path" j
  let dnssecValidation ←
    fieldOr "opportunistic".toList string "dnssec_validation".toList j
  let maxRetries ← fieldOr 2 u32 "max_retries" j
  let timeoutMs ← field u64 "timeout_ms" j
  let tlsPinSha256 ← fieldOr [] (vec string) "tls_pin_sha256" j
  return { id, protocol, address, port, tlsHostname, dohPath, dnssecValidation, maxRetries
           timeoutMs, tlsPinSha256 }

def PoolMember.ofJson (j : Json) : Option PoolMember := do
  let resolverId ← field string "resolver_id" j
  let weight ← field u32 "weight" j
  let priority ← field u32 "priority" j
  return { resolverId, weight, priority }

def PoolConfig.ofJson (j : Json) : Option PoolConfig := do
  let id ← field string "id" j
  let strategy ← field string "strategy" j
  let members ← field (vec PoolMember.ofJson) "members" j
  let healthCheckIntervalS ← field u64 "health_check_interval_s" j
  let healthCheckTimeoutMs ← field u64 "health_check_timeout_ms" j
  let healthCheckQuery ← field string "health_check_query" j
  let healthCheckType ← field string "health_check_type" j
  let healthyThreshold ← field u32 "healthy_threshold" j
  let unhealthyThreshold ← field u32 "unhealthy_threshold" j
  let fallbackPoolId ← fieldOr none (option string) "fallback_pool_id" j
  let minHealthyMembers ← field u32 "min_healthy_members" j
  return { id, strategy, members, healthCheckIntervalS, healthCheckTimeoutMs, healthCheckQuery
           healthCheckType, healthyThreshold, unhealthyThreshold, fallbackPoolId
           minHealthyMembers }

def RouteConfig.ofJson (j : Json) : Option RouteConfig := do
  let groupId ← fieldOr none (option string) "group_id" j
  let matchType ← field string "match_type" j
  let matchValue ← fieldOr none (option string) "match_value" j
  let poolId ← field string "pool_id" j
  let nxdomainTtlOverride ← fieldOr none (option u32) "nxdomain_ttl_override" j
  let requireDnssec ← fieldOr none (option boolean) "require_dnssec" j
  let priority ← field i32 "priority" j
  return { groupId, matchType, matchValue, poolId, nxdomainTtlOverride, requireDnssec, priority }

def TenantPolicy.ofJson (j : Json) : Option TenantPolicy := do
  let requireEncrypted ← fieldOr false boolean "require_encrypted" j
  let dnssecValidation ← field string "dnssec_validation" j
  let minTtlS ← field u32 "min_ttl_s" j
  let maxTtlS ← field u32 "max_ttl_s" j
  let negativeTtlS ← field u32 "negative_ttl_s" j
  return { requireEncrypted, dnssecValidation, minTtlS, maxTtlS, negativeTtlS }

/-- `serde_json::from_slice`, after parsing. -/
def UpstreamBundle.ofJson (j : Json) : Option UpstreamBundle := do
  let version ← field u64 "version" j
  let tenantId ← field string "tenant_id" j
  let routes ← field (vec RouteConfig.ofJson) "routes" j
  let pools ← field (map PoolConfig.ofJson) "pools" j
  let resolvers ← field (map ResolverConfig.ofJson) "resolvers" j
  let tenantPolicy ← field TenantPolicy.ofJson "tenant_policy" j
  return { version, tenantId, routes, pools, resolvers, tenantPolicy }

/-! ### Which objects decode -/

open Control.Upstream

theorem exists_u32 {lo hi n : ℤ} (h : within lo hi n = true) (hlo : 0 ≤ lo)
    (hhi : hi ≤ 4294967295) : ∃ x, u32 (.int n) = some x := by
  have := within_iff.mp h
  exact isSome_iff_exists.mp (u32_isSome.mpr (by omega))

theorem exists_u64 {lo hi n : ℤ} (h : within lo hi n = true) (hlo : 0 ≤ lo)
    (hhi : hi ≤ 18446744073709551615) : ∃ x, u64 (.int n) = some x := by
  have := within_iff.mp h
  exact isSome_iff_exists.mp (u64_isSome.mpr (by omega))

theorem ofJson_resolver {r : UpstreamResolver} (hr : r.Ok) :
    (ResolverConfig.ofJson r.json).isSome ↔ 0 ≤ r.port ∧ r.port ≤ 65535 := by
  have h : ResolverConfig.ofJson r.json = (do
    let port ← u16 (.int r.port)
    let tlsHostname ← option string (ofOption .str r.tlsHostname)
    let maxRetries ← u32 (.int r.maxRetries)
    let timeoutMs ← u64 (.int r.timeoutMs)
    let tlsPinSha256 ← vec string (.arr (r.tlsPinSha256.map .str))
    return ⟨r.id, r.protocol.text, r.address, port, tlsHostname, r.dohPath,
      r.dnssecValidation.text, maxRetries, timeoutMs, tlsPinSha256⟩) := rfl
  obtain ⟨maxRetries, hm⟩ := exists_u32 hr.maxRetries (by omega) (by omega)
  obtain ⟨timeoutMs, ht⟩ := exists_u64 hr.timeoutMs (by omega) (by omega)
  rw [h, hm, ht, ← u16_isSome]
  cases u16 (.int r.port) <;> simp

theorem ofJson_member {m : UpstreamPoolMember} (hm : m.Ok) :
    (PoolMember.ofJson m.json).isSome := by
  have h : PoolMember.ofJson m.json = (do
    let weight ← u32 (.int m.weight)
    let priority ← u32 (.int m.priority)
    return ⟨m.resolverId, weight, priority⟩) := rfl
  obtain ⟨weight, hw⟩ := exists_u32 hm.weight (by omega) (by omega)
  obtain ⟨priority, hp⟩ := exists_u32 hm.priority (by omega) (by omega)
  rw [h, hw, hp]
  rfl

theorem ofJson_pool {p : PoolPayload} (hp : p.pool.Ok) (hm : ∀ m ∈ p.members, m.Ok) :
    ∃ c, PoolConfig.ofJson p.json = some c ∧ c.fallbackPoolId = p.pool.fallbackPoolId := by
  have h : PoolConfig.ofJson p.json = (do
    let members ← vec PoolMember.ofJson (.arr (p.members.map (·.json)))
    let healthCheckIntervalS ← u64 (.int p.pool.healthCheckIntervalS)
    let healthCheckTimeoutMs ← u64 (.int p.pool.healthCheckTimeoutMs)
    let healthyThreshold ← u32 (.int p.pool.healthyThreshold)
    let unhealthyThreshold ← u32 (.int p.pool.unhealthyThreshold)
    let fallbackPoolId ← option string (ofOption .str p.pool.fallbackPoolId)
    let minHealthyMembers ← u32 (.int p.pool.minHealthyMembers)
    return ⟨p.pool.id, p.pool.strategy.text, members, healthCheckIntervalS, healthCheckTimeoutMs,
      p.pool.healthCheckQuery, p.pool.healthCheckType.text, healthyThreshold, unhealthyThreshold,
      fallbackPoolId, minHealthyMembers⟩) := rfl
  obtain ⟨members, hmemb⟩ := isSome_iff_exists.mp
    (vec_isSome.mpr (show ∀ j ∈ p.members.map (·.json), (PoolMember.ofJson j).isSome by
      intro j hj
      obtain ⟨m, hmem, rfl⟩ := List.mem_map.mp hj
      exact ofJson_member (hm m hmem)))
  obtain ⟨interval, h₁⟩ := exists_u64 hp.healthCheckIntervalS (by omega) (by omega)
  obtain ⟨timeout, h₂⟩ := exists_u64 hp.healthCheckTimeoutMs (by omega) (by omega)
  obtain ⟨healthy, h₃⟩ := exists_u32 hp.healthyThreshold (by omega) (by omega)
  obtain ⟨unhealthy, h₄⟩ := exists_u32 hp.unhealthyThreshold (by omega) (by omega)
  obtain ⟨least, h₅⟩ := exists_u32 hp.minHealthyMembers (by omega) (by omega)
  rw [h, hmemb, h₁, h₂, h₃, h₄, h₅, option_string]
  exact ⟨_, rfl, rfl⟩

theorem ofJson_route {r : UpstreamRoute} (hr : r.storable = true) :
    (RouteConfig.ofJson r.json).isSome ↔ ∀ n ∈ r.nxdomainTtlOverride, 0 ≤ n := by
  have h : RouteConfig.ofJson r.json = (do
    let groupId ← option string (ofOption .str r.groupId)
    let matchValue ← option string (ofOption .str r.matchValue)
    let override ← option u32 (ofOption .int r.nxdomainTtlOverride)
    let requireDnssec ← option boolean (ofOption .bool r.requireDnssec)
    let priority ← i32 (.int r.priority)
    return ⟨groupId, r.matchType.text, matchValue, r.poolId, override, requireDnssec, priority⟩) :=
    rfl
  simp only [UpstreamRoute.storable, Bool.and_eq_true] at hr
  obtain ⟨priority, hp⟩ := isSome_iff_exists.mp (i32_isSome.mpr (int4_iff.mp hr.1))
  -- an override that is stored is below `2 ^ 31`
  have hove : (∀ n ∈ r.nxdomainTtlOverride, 0 ≤ n) ↔
      (option u32 (ofOption .int r.nxdomainTtlOverride)).isSome := by
    rw [option_ofOption_isSome (by simp)]
    refine forall₂_congr fun n hn => ?_
    have hint := int4_iff.mp ((Option.all_eq_true _ _).mp hr.2 n hn)
    rw [u32_isSome]
    omega
  rw [h, hp, hove, option_string, option_string, option_boolean]
  cases option u32 (ofOption .int r.nxdomainTtlOverride) <;> simp

theorem ofJson_policy {p : UpstreamTenantPolicy} (hp : p.Ok) :
    (TenantPolicy.ofJson p.json).isSome := by
  have h : TenantPolicy.ofJson p.json = (do
    let minTtlS ← u32 (.int p.minTtlS)
    let maxTtlS ← u32 (.int p.maxTtlS)
    let negativeTtlS ← u32 (.int p.negativeTtlS)
    return ⟨p.requireEncrypted, p.dnssecValidation.text, minTtlS, maxTtlS, negativeTtlS⟩) := rfl
  obtain ⟨_, h₁⟩ := exists_u32 hp.minTtlS (by omega) (by omega)
  obtain ⟨_, h₂⟩ := exists_u32 hp.maxTtlS (by omega) (by omega)
  obtain ⟨_, h₃⟩ := exists_u32 hp.negativeTtlS (by omega) (by omega)
  rw [h, h₁, h₂, h₃]
  rfl

/-! ### Which bundles decode -/

variable {b : BundlePayload} {issuedAt : Str}
variable {db : UpstreamDb} {nb : UpstreamBundle} {id : Str}

theorem vec_routes_isSome (hb : b.Ok) :
    (vec RouteConfig.ofJson (.arr (b.routes.map (·.json)))).isSome ↔
      ∀ r ∈ b.routes, ∀ n ∈ r.nxdomainTtlOverride, 0 ≤ n := by
  rw [vec_isSome, List.forall_mem_map]
  exact forall₂_congr fun r hr => ofJson_route (hb.route r hr)

theorem map_resolvers_isSome (hb : b.Ok) :
    (map ResolverConfig.ofJson (.obj (b.resolvers.map fun e => (e.1, e.2.json)))).isSome ↔
      ∀ e ∈ b.resolvers, 0 ≤ e.2.port ∧ e.2.port ≤ 65535 := by
  rw [map_isSome, List.forall_mem_map]
  exact forall₂_congr fun e he => ofJson_resolver (hb.resolver e he)

theorem map_pools_isSome (hb : b.Ok) :
    (map PoolConfig.ofJson (.obj (b.pools.map fun e => (e.1, e.2.json)))).isSome := by
  rw [map_isSome, List.forall_mem_map]
  intro e he
  obtain ⟨c, hc, -⟩ := ofJson_pool (hb.pool e he) (hb.member e he)
  rw [hc]
  rfl

theorem ofJson_bundle (hb : b.Ok) :
    (UpstreamBundle.ofJson (b.json issuedAt)).isSome ↔
      (∀ e ∈ b.resolvers, 0 ≤ e.2.port ∧ e.2.port ≤ 65535) ∧
        ∀ r ∈ b.routes, ∀ n ∈ r.nxdomainTtlOverride, 0 ≤ n := by
  have h : UpstreamBundle.ofJson (b.json issuedAt) = (do
    let version ← u64 (.int b.version)
    let routes ← vec RouteConfig.ofJson (.arr (b.routes.map (·.json)))
    let pools ← map PoolConfig.ofJson (.obj (b.pools.map fun e => (e.1, e.2.json)))
    let resolvers ←
      map ResolverConfig.ofJson (.obj (b.resolvers.map fun e => (e.1, e.2.json)))
    let tenantPolicy ← TenantPolicy.ofJson b.tenantPolicy.json
    return ⟨version, b.tenantId, routes, pools, resolvers, tenantPolicy⟩) := rfl
  have hver := hb.version
  obtain ⟨version, hv⟩ := isSome_iff_exists.mp
    (u64_isSome.mpr (show 0 ≤ (b.version : ℤ) ∧ (b.version : ℤ) ≤ 18446744073709551615 by
      omega))
  obtain ⟨pools, hp⟩ := isSome_iff_exists.mp (map_pools_isSome hb)
  obtain ⟨policy, hpol⟩ := isSome_iff_exists.mp (ofJson_policy hb.policy)
  rw [h, hv, hp, hpol, ← vec_routes_isSome hb, ← map_resolvers_isSome hb]
  cases vec RouteConfig.ofJson (.arr (b.routes.map (·.json))) with
  | none => simp
  | some =>
    cases map ResolverConfig.ofJson (.obj (b.resolvers.map fun e => (e.1, e.2.json))) <;> simp

/-- **Which accepted configurations the node can load**: exactly those where
every enabled resolver of a routed pool has a port below `2 ^ 16` and no served
route overrides the negative TTL with a negative number. -/
theorem upstream_loads_iff {tenants : List Str} {db : UpstreamDb} (hdb : Reachable tenants db)
    (collate : Collation) (tenantId issuedAt : Str) :
    (∃ b, getUpstreamBundle collate db tenantId = some b ∧
        (UpstreamBundle.ofJson (b.json issuedAt)).isSome) ↔
      (∀ r ∈ db.resolvers, db.InUse tenantId r → 0 ≤ r.port ∧ r.port ≤ 65535) ∧
        ∀ r ∈ db.routes, r.servedTo tenantId = true → ∀ n ∈ r.nxdomainTtlOverride, 0 ≤ n := by
  have hwf := reachable_wellFormed hdb
  obtain ⟨b, hb⟩ := isSome_iff_exists.mp
    (@getUpstreamBundle_isSome collate db tenantId hwf)
  -- there is an export in any case
  have hloa : (∃ b, getUpstreamBundle collate db tenantId = some b ∧
      (UpstreamBundle.ofJson (b.json issuedAt)).isSome) ↔
      (UpstreamBundle.ofJson (b.json issuedAt)).isSome := by
    rw [hb]
    simp
  rw [hloa, ofJson_bundle (export_ok hwf hb)]
  refine and_congr ⟨fun h r hr huse => ?_, fun h e he => ?_⟩
    ⟨fun h r hr hser => ?_, fun h r hr => ?_⟩
  · exact h _ ((mem_export_resolver_iff hwf hb).mpr ⟨hr, huse⟩)
  · rw [← export_resolver_key hb he] at he
    obtain ⟨hr, huse⟩ := (mem_export_resolver_iff hwf hb).mp he
    exact h e.2 hr huse
  · exact h r ((mem_export_routes hb).mpr ⟨hr, hser⟩)
  · obtain ⟨hr, hser⟩ := (mem_export_routes hb).mp hr
    exact h r hr hser

/-! One tenant with a resolver on the given port, a pool of it with the given
fallback, a second pool, and a default route to the first. -/

def sampleRequests (port : ℤ) (fallback : Option Str) : List Request := [
  .createResolver "r1"
    { name := "quad", protocol := .dot, address := "192.0.2.53", port := port },
  .createPool "p2" { name := "spare", members := [⟨"r1", 1, 0⟩] },
  .createPool "p1"
    { name := "main", fallbackPoolId := fallback, members := [⟨"r1", 10, 0⟩] },
  .createRoute "acme" "t1"
    { name := "all", matchType := .default, poolId := "p1" }]

def sampleUpstream (port : ℤ) (fallback : Option Str) : Option UpstreamDb :=
  (UpstreamDb.fresh ["acme"]).requests (sampleRequests port fallback)

theorem reachable_sampleUpstream {port : ℤ} {fallback : Option Str}
    (h : sampleUpstream port fallback = some db) : Reachable ["acme"] db :=
  Reachable.fresh.requests h

theorem upstream_loads_dot :
    ∃ db, Reachable ["acme"] db ∧ db.resolvers.length = 1 ∧
      ∃ b, getUpstreamBundle (fun _ _ => true) db "acme" = some b ∧
        (UpstreamBundle.ofJson (b.json "now")).isSome := by
  obtain ⟨db, hdb, hlen, hpor, hrts⟩ : ∃ db, sampleUpstream 853 none = some db ∧
      db.resolvers.length = 1 ∧ (∀ r ∈ db.resolvers, 0 ≤ r.port ∧ r.port ≤ 65535) ∧
      ∀ r ∈ db.routes, r.nxdomainTtlOverride = none := by
    decide +kernel
  refine ⟨db, reachable_sampleUpstream hdb, hlen, ?_⟩
  refine (upstream_loads_iff (reachable_sampleUpstream hdb) _ _ _).mpr
    ⟨fun r hr _ => hpor r hr, fun r hr _ n hn => ?_⟩
  rw [hrts r hr] at hn
  simp at hn

/-- The API accepts the port 70000, and no node can load the tenant's bundle any
more. -/
theorem upstream_port_unloadable :
    ∃ db, Reachable ["acme"] db ∧ (∃ r ∈ db.resolvers, r.port = 70000) ∧
      ∃ b, getUpstreamBundle (fun _ _ => true) db "acme" = some b ∧
        UpstreamBundle.ofJson (b.json "now") = none := by
  obtain ⟨db, hdb, hport, b, hb, hnone⟩ : ∃ db, sampleUpstream 70000 none = some db ∧
      (∃ r ∈ db.resolvers, r.port = 70000) ∧
      ∃ b, getUpstreamBundle (fun _ _ => true) db "acme" = some b ∧
        (UpstreamBundle.ofJson (b.json "now")).isNone := by
    decide +kernel
  exact ⟨db, reachable_sampleUpstream hdb, hport, b, hb, isNone_iff_eq_none.mp hnone⟩

/-! ### Choosing a route -/

/-- A question as `lookup_scoped` gets it; `qtypeStr` is the upper-cased name of
the record type. -/
structure Question where
  qname : Str
  qtypeStr : Str
  categories : List Str
  groupId : Option Str

def normalize (domain : Str) : Str := lowerAscii (trimDots domain)

/-- The condition of one route, with Rust's `to_uppercase` as a parameter. -/
def RouteConfig.matched (upper : Str → Str) (q : Question) (route : RouteConfig) : Bool :=
  if route.matchType = "domain_exact" then
    route.matchValue.any fun v => normalize v = normalize q.qname
  else if route.matchType = "domain_suffix" then
    route.matchValue.any fun v =>
      normalize q.qname = normalize v || ('.' :: normalize v).isSuffixOf (normalize q.qname)
  else if route.matchType = "qtype" then
    route.matchValue.any fun v => upper v = q.qtypeStr
  else if route.matchType = "category" then
    route.matchValue.any fun v => v ∈ q.categories
  else route.matchType = "default"

/-- `select_route`: the first route in scope that matches. -/
def selectRoute (upper : Str → Str) (routes : List RouteConfig) (q : Question) :
    Option RouteConfig :=
  routes.find? fun route =>
    !(route.groupId.any fun scope => some scope ≠ q.groupId) && route.matched upper q

/-! ### Choosing a member -/

/-- What the health monitor knows of the member of a pool. -/
structure MemberHealth where
  healthy : Bool
  latencyEmaUs : ℕ

/-- `HealthStore`: pool and resolver to the last snapshot. -/
abbrev HealthStore := Str → Str → Option MemberHealth

/-- `healthy_members`: a member without a snapshot counts as healthy. -/
def healthyMembers (health : HealthStore) (poolId : Str) (members : List PoolMember) : List Str :=
  (members.filter fun m => ((health poolId m.resolverId).map (·.healthy)).getD true).map
    (·.resolverId)

/-- `RoundRobinState`: the cursor of each pool. -/
abbrev RoundRobinState := Str → UInt64

/-- `RoundRobinState::next`. -/
def RoundRobinState.next (rr : RoundRobinState) (poolId : Str) : UInt64 × RoundRobinState :=
  (rr poolId, Function.update rr poolId (rr poolId + 1))

/-- `min_by_key`: the first of the least elements. -/
def minByKey {α : Type} (lt : α → α → Bool) : List α → Option α
  | [] => none
  | a :: rest => some (rest.foldl (fun best x => if lt x best then x else best) a)

/-- The member whose range of cumulative weights holds the cursor. -/
def weightedMember (cursor : ℕ) : ℕ → List PoolMember → Option PoolMember
  | _, [] => none
  | acc, m :: rest =>
    if cursor < acc + m.weight.toNat then some m
    else weightedMember cursor (acc + m.weight.toNat) rest

/-- `pick_member`. -/
def pickMember (poolId : Str) (pool : PoolConfig) (healthyIds : List Str) (health : HealthStore)
    (rr : RoundRobinState) : Option Str × RoundRobinState :=
  let healthyMembers := pool.members.filter (·.resolverId ∈ healthyIds)
  if healthyMembers.isEmpty then (none, rr)
  else if pool.strategy = "failover" then
    ((minByKey (fun a b => a.priority < b.priority ||
        a.priority = b.priority && a.weight < b.weight)
      healthyMembers).map (·.resolverId), rr)
  else if pool.strategy = "weighted_round_robin" then
    let totalWeight := (healthyMembers.map (·.weight.toNat)).sum
    if totalWeight = 0 then (healthyMembers.head?.map (·.resolverId), rr)
    else
      let (value, rr) := rr.next poolId
      (((weightedMember (value.toNat % totalWeight) 0 healthyMembers).or
        healthyMembers.getLast?).map (·.resolverId), rr)
  else if pool.strategy = "latency" then
    let latency := fun m : PoolMember => ((health poolId m.resolverId).map (·.latencyEmaUs)).getD 0
    ((minByKey (fun a b => latency a < latency b) healthyMembers).map (·.resolverId), rr)
  else
    let (value, rr) := rr.next poolId
    ((healthyMembers[value.toNat % healthyMembers.length]?).map (·.resolverId), rr)

/-! ### `lookup_scoped` -/

/-- The healthy members, without the ones in plain text for a tenant that
requires encryption. -/
def UpstreamBundle.healthyIds (bundle : UpstreamBundle) (health : HealthStore) (poolId : Str)
    (pool : PoolConfig) : List Str :=
  let ids := healthyMembers health poolId pool.members
  if bundle.tenantPolicy.requireEncrypted then
    ids.filter fun id => (find id bundle.resolvers).any fun cfg =>
      cfg.protocol = "dot".toList || cfg.protocol = "doh".toList
  else ids

/-- The pool to use: the fallback when too few members are healthy. -/
def UpstreamBundle.choosePool (bundle : UpstreamBundle) (health : HealthStore) (poolId : Str)
    (pool : PoolConfig) : Str × PoolConfig :=
  if (bundle.healthyIds health poolId pool).length < pool.minHealthyMembers.toNat then
    match pool.fallbackPoolId with
    | none => (poolId, pool)
    | some fallbackId =>
      match find fallbackId bundle.pools with
      | none => (poolId, pool)
      | some fallbackPool => (fallbackId, fallbackPool)
  else (poolId, pool)

/-- **The fallback step always finds the pool**: whenever too few members of a
pool with a fallback are healthy, the lookup goes on with that fallback. -/
def UpstreamBundle.FindsFallbacks (bundle : UpstreamBundle) : Prop :=
  ∀ health poolId pool, find poolId bundle.pools = some pool →
    ∀ fallbackId ∈ pool.fallbackPoolId,
      (bundle.healthyIds health poolId pool).length < pool.minHealthyMembers.toNat →
      ∃ fallbackPool, find fallbackId bundle.pools = some fallbackPool ∧
        bundle.choosePool health poolId pool = (fallbackId, fallbackPool)

theorem ofJson_pools (h : UpstreamBundle.ofJson (b.json issuedAt) = some nb) :
    map PoolConfig.ofJson (.obj (b.pools.map fun e => (e.1, e.2.json))) = some nb.pools := by
  simp only [UpstreamBundle.ofJson, bind_eq_bind, bind_eq_some_iff, Option.pure_def, some_inj] at h
  obtain ⟨_, -, _, -, _, -, pools, hpoo, _, -, _, -, rfl⟩ := h
  exact hpoo

theorem find_pool (hb : b.Ok) (h : UpstreamBundle.ofJson (b.json issuedAt) = some nb)
    {pool : PoolConfig} (hfind : find id nb.pools = some pool) :
    ∃ e ∈ b.pools, e.1 = id ∧ pool.fallbackPoolId = e.2.pool.fallbackPoolId := by
  rw [map_lookup (ofJson_pools h), bind_eq_some_iff] at hfind
  obtain ⟨j, hj, hpool⟩ := hfind
  obtain ⟨e, he, heq⟩ := List.mem_map.mp (find_eq_some_mem hj)
  obtain ⟨rfl, rfl⟩ := Prod.ext_iff.mp heq
  obtain ⟨c, hc, hfb⟩ := ofJson_pool (hb.pool e he) (hb.member e he)
  rw [hpool, some_inj] at hc
  exact ⟨e, he, rfl, hc ▸ hfb⟩

theorem exists_find_pool (hb : b.Ok) (h : UpstreamBundle.ofJson (b.json issuedAt) = some nb)
    (hid : id ∈ b.pools.map Prod.fst) : ∃ pool, find id nb.pools = some pool := by
  have hkey : id ∈ (b.pools.map fun e => (e.1, e.2.json)).map Prod.fst := by
    rwa [List.map_map]
  obtain ⟨j, hj⟩ := isSome_iff_exists.mp (find_isSome_iff.mpr hkey)
  obtain ⟨e, he, heq⟩ := List.mem_map.mp (find_eq_some_mem hj)
  obtain ⟨rfl, rfl⟩ := Prod.ext_iff.mp heq
  obtain ⟨c, hc, -⟩ := ofJson_pool (hb.pool e he) (hb.member e he)
  refine ⟨c, ?_⟩
  rw [map_lookup (ofJson_pools h), hj]
  exact hc

theorem findsFallbacks_of_closed (hb : b.Ok) (hclo : b.ReferenceClosed db)
    (h : UpstreamBundle.ofJson (b.json issuedAt) = some nb) :
    nb.FindsFallbacks := by
  intro health poolId pool hfind fallbackId hfb hfew
  obtain ⟨e, he, -, heq⟩ := find_pool hb h hfind
  obtain ⟨fallbackPool, hfnd⟩ :=
    exists_find_pool hb h (hclo.fallbackPool e he fallbackId (heq ▸ hfb))
  refine ⟨fallbackPool, hfnd, ?_⟩
  have hsome : pool.fallbackPoolId = some fallbackId := hfb
  rw [UpstreamBundle.choosePool, if_pos hfew, hsome]
  simp only [hfnd]

/-- **When an upstream bundle is reference-closed**, so that a lookup always
finds the configured fallback pool: exactly when the fallback of every routed
pool is itself the pool of a served route. -/
theorem fallback_found_iff {tenants : List Str} {db : UpstreamDb} (hdb : Reachable tenants db)
    (collate : Collation) (tenantId : Str) :
    (∃ b, getUpstreamBundle collate db tenantId = some b ∧ b.ReferenceClosed db ∧
        ∀ issuedAt nb, UpstreamBundle.ofJson (b.json issuedAt) = some nb → nb.FindsFallbacks) ↔
      db.FallbacksRouted tenantId := by
  have hwf := reachable_wellFormed hdb
  constructor
  · rintro ⟨b, hb, hclo, -⟩
    exact (export_closed_iff hwf hb).mp hclo
  · intro hrou
    obtain ⟨b, hb⟩ := isSome_iff_exists.mp
      (@getUpstreamBundle_isSome collate db tenantId hwf)
    have hclo := (export_closed_iff hwf hb).mpr hrou
    exact ⟨b, hb, hclo, fun _ _ h => findsFallbacks_of_closed (export_ok hwf hb) hclo h⟩

/-- The pool `p1` falls back to `p2`, which has a route of its own. -/
theorem fallback_found_routed :
    ∃ db, Reachable ["acme"] db ∧ (∃ p ∈ db.pools, p.fallbackPoolId = some "p2".toList) ∧
      ∃ b, getUpstreamBundle (fun _ _ => true) db "acme" = some b ∧
        b.ReferenceClosed db ∧ ∀ issuedAt nb, UpstreamBundle.ofJson (b.json issuedAt) = some nb →
          nb.FindsFallbacks := by
  let route : Request := .createRoute "acme" "t2"
    { name := "own", matchType := .domainSuffix, matchValue := some "example", poolId := "p2" }
  obtain ⟨db, hdb, hpool, r, hr, hser, hid, hpoo⟩ : ∃ db, (UpstreamDb.fresh ["acme"]).requests
        (sampleRequests 853 (some "p2") ++ [route]) = some db ∧
      (∃ p ∈ db.pools, p.fallbackPoolId = some "p2".toList) ∧
      ∃ r ∈ db.routes, r.servedTo "acme" = true ∧ r.poolId = "p2".toList ∧
        ∀ p ∈ db.pools, ∀ f ∈ p.fallbackPoolId, f = "p2".toList := by
    decide +kernel
  have hrea : Reachable ["acme"] db := Reachable.fresh.requests hdb
  refine ⟨db, hrea, hpool, (fallback_found_iff hrea _ _).mpr fun p hp _ f hf => ?_⟩
  exact ⟨r, hr, hser, hid.trans (hpoo p hp f hf).symm⟩

/-- The pool `p1` falls back to `p2`, which no route names: it is missing from
the bundle, and with every member down a lookup stays with `p1`. -/
theorem fallback_pool_missing :
    ∃ db, Reachable ["acme"] db ∧ (∃ p ∈ db.pools, p.fallbackPoolId = some "p2".toList) ∧
      ∃ b, getUpstreamBundle (fun _ _ => true) db "acme" = some b ∧
        "p1".toList ∈ b.pools.map Prod.fst ∧ "p2".toList ∉ b.pools.map Prod.fst ∧
        ¬ b.ReferenceClosed db ∧
        ∃ nb, UpstreamBundle.ofJson (b.json "now") = some nb ∧ ¬ nb.FindsFallbacks := by
  obtain ⟨db, hdb, hpool, b, hb, hp1, hp2, ⟨e, he, hfb⟩, nb, hnb, pool, hfind, hf, hlea,
      hnone, hmis⟩ : ∃ db, sampleUpstream 853 (some "p2") = some db ∧
      (∃ p ∈ db.pools, p.fallbackPoolId = some "p2".toList) ∧
      ∃ b, getUpstreamBundle (fun _ _ => true) db "acme" = some b ∧
        "p1".toList ∈ b.pools.map Prod.fst ∧ "p2".toList ∉ b.pools.map Prod.fst ∧
        (∃ e ∈ b.pools, e.2.pool.fallbackPoolId = some "p2".toList) ∧
        ∃ nb, UpstreamBundle.ofJson (b.json "now") = some nb ∧
          ∃ pool, find "p1" nb.pools = some pool ∧
            pool.fallbackPoolId = some "p2".toList ∧ 0 < pool.minHealthyMembers.toNat ∧
            (nb.healthyIds (fun _ _ => some ⟨false, 0⟩) "p1" pool).length = 0 ∧
            (find "p2".toList nb.pools).isNone := by
    decide +kernel
  refine ⟨db, reachable_sampleUpstream hdb, hpool, b, hb, hp1, hp2, fun hclo => ?_, nb, hnb,
    fun hfin => ?_⟩
  · exact hp2 (hclo.fallbackPool e he _ hfb)
  · obtain ⟨fallbackPool, hfnd, -⟩ := hfin (fun _ _ => some ⟨false, 0⟩) _ pool hfind _ hf
      (by rw [hnone]; exact hlea)
    rw [isNone_iff_eq_none.mp hmis] at hfnd
    simp at hfnd

end Node.Upstream
