/-
The upstream configuration API: `api/upstream_routers.py`.

Resolvers, pools with their members, routes and tenant policies are rows; each
endpoint checks its payload, writes, and bumps the shared revision in one
transaction.  An endpoint is `none` where the request is refused, be it by
pydantic, by the handler or by a constraint of the database.  Columns that no
bundle carries are left out.

* `reachable_wellFormed` — after any sequence of accepted requests the rows are
  inside the ranges that were checked and every foreign key points at a row.
-/
import MantisDns.Json
import MantisDns.Table

open Text Table List Option

namespace Control.Upstream

/-! ### Rows -/

inductive Protocol
  | dot
  | doh
  | do53
  deriving DecidableEq

def Protocol.text : Protocol → Str
  | .dot => "dot"
  | .doh => "doh"
  | .do53 => "do53"

inductive DnssecValidation
  | strict
  | opportunistic
  | disabled
  deriving DecidableEq

def DnssecValidation.text : DnssecValidation → Str
  | .strict => "strict"
  | .opportunistic => "opportunistic"
  | .disabled => "disabled"

inductive Strategy
  | roundRobin
  | weightedRoundRobin
  | failover
  | latency
  deriving DecidableEq

def Strategy.text : Strategy → Str
  | .roundRobin => "round_robin"
  | .weightedRoundRobin => "weighted_round_robin"
  | .failover => "failover"
  | .latency => "latency"

inductive HealthCheckType
  | soa
  | a
  | txt
  deriving DecidableEq

def HealthCheckType.text : HealthCheckType → Str
  | .soa => "soa"
  | .a => "a"
  | .txt => "txt"

inductive MatchType
  | domainSuffix
  | domainExact
  | qtype
  | category
  | default
  deriving DecidableEq

def MatchType.text : MatchType → Str
  | .domainSuffix => "domain_suffix"
  | .domainExact => "domain_exact"
  | .qtype => "qtype"
  | .category => "category"
  | .default => "default"

structure UpstreamResolver where
  id : Str
  name : Str
  protocol : Protocol
  address : Str
  port : ℤ
  tlsHostname : Option Str
  tlsPinSha256 : List Str
  dohPath : Str
  dnssecValidation : DnssecValidation
  timeoutMs : ℤ
  maxRetries : ℤ
  enabled : Bool
  deriving DecidableEq

structure UpstreamPool where
  id : Str
  name : Str
  strategy : Strategy
  healthCheckIntervalS : ℤ
  healthCheckTimeoutMs : ℤ
  healthCheckQuery : Str
  healthCheckType : HealthCheckType
  unhealthyThreshold : ℤ
  healthyThreshold : ℤ
  minHealthyMembers : ℤ
  fallbackPoolId : Option Str
  deriving DecidableEq

structure UpstreamPoolMember where
  poolId : Str
  resolverId : Str
  weight : ℤ
  priority : ℤ
  deriving DecidableEq

structure UpstreamRoute where
  id : Str
  name : Str
  tenantId : Option Str
  groupId : Option Str
  matchType : MatchType
  matchValue : Option Str
  poolId : Str
  nxdomainTtlOverride : Option ℤ
  requireDnssec : Option Bool
  priority : ℤ
  enabled : Bool
  deriving DecidableEq

structure UpstreamTenantPolicy where
  tenantId : Str
  requireEncrypted : Bool
  dnssecValidation : DnssecValidation
  minTtlS : ℤ
  maxTtlS : ℤ
  negativeTtlS : ℤ
  deriving DecidableEq

/-- The tables; `revision` is the row of `upstream_bundle_revision`. -/
structure UpstreamDb where
  tenants : List Str
  resolvers : List UpstreamResolver
  pools : List UpstreamPool
  members : List UpstreamPoolMember
  routes : List UpstreamRoute
  policies : List UpstreamTenantPolicy
  revision : Option ℕ
  deriving DecidableEq

def UpstreamDb.resolverIds (db : UpstreamDb) : List Str := db.resolvers.map (·.id)

def UpstreamDb.poolIds (db : UpstreamDb) : List Str := db.pools.map (·.id)

/-- Freshly migrated: no objects, and the revision that the migration inserts. -/
def UpstreamDb.fresh (tenants : List Str) : UpstreamDb := ⟨tenants, [], [], [], [], [], some 0⟩

/-! ### Column types -/

def UpstreamResolver.storable (r : UpstreamResolver) : Bool :=
  int4 r.port && int4 r.timeoutMs && int4 r.maxRetries

def UpstreamPool.storable (p : UpstreamPool) : Bool :=
  int4 p.healthCheckIntervalS && int4 p.healthCheckTimeoutMs && int4 p.unhealthyThreshold &&
    int4 p.healthyThreshold && int4 p.minHealthyMembers

def UpstreamPoolMember.storable (m : UpstreamPoolMember) : Bool := int4 m.weight && int4 m.priority

def UpstreamRoute.storable (r : UpstreamRoute) : Bool :=
  int4 r.priority && r.nxdomainTtlOverride.all int4

def UpstreamTenantPolicy.storable (p : UpstreamTenantPolicy) : Bool :=
  int4 p.minTtlS && int4 p.maxTtlS && int4 p.negativeTtlS

/-! ### Payloads -/

structure ResolverCreate where
  name : Str
  protocol : Protocol
  address : Str
  port : ℤ := 853
  tlsHostname : Option Str := none
  tlsPinSha256 : List Str := []
  dohPath : Str := "/dns-query"
  dnssecValidation : DnssecValidation := .opportunistic
  timeoutMs : ℤ := 5000
  maxRetries : ℤ := 2
  enabled : Bool := true

def ResolverCreate.valid (p : ResolverCreate) : Bool :=
  within 100 30000 p.timeoutMs && within 0 5 p.maxRetries

def ResolverCreate.row (p : ResolverCreate) (id : Str) : UpstreamResolver :=
  { p with id }

structure ResolverUpdate where
  name : Patch Str := .unset
  protocol : Patch Protocol := .unset
  address : Patch Str := .unset
  port : Patch ℤ := .unset
  tlsHostname : Patch Str := .unset
  tlsPinSha256 : Patch (List Str) := .unset
  dohPath : Patch Str := .unset
  dnssecValidation : Patch DnssecValidation := .unset
  timeoutMs : Patch ℤ := .unset
  maxRetries : Patch ℤ := .unset
  enabled : Patch Bool := .unset

def ResolverUpdate.valid (p : ResolverUpdate) : Bool :=
  p.timeoutMs.all (within 100 30000) && p.maxRetries.all (within 0 5)

/-- The row after `setattr` for every field that was set. -/
def ResolverUpdate.apply (p : ResolverUpdate) (r : UpstreamResolver) : Option UpstreamResolver := do
  let name ← p.name.required r.name
  let protocol ← p.protocol.required r.protocol
  let address ← p.address.required r.address
  let port ← p.port.required r.port
  let tlsPinSha256 ← p.tlsPinSha256.required r.tlsPinSha256
  let dohPath ← p.dohPath.required r.dohPath
  let dnssecValidation ← p.dnssecValidation.required r.dnssecValidation
  let timeoutMs ← p.timeoutMs.required r.timeoutMs
  let maxRetries ← p.maxRetries.required r.maxRetries
  let enabled ← p.enabled.required r.enabled
  return { r with
    name, protocol, address, port, tlsPinSha256, dohPath, dnssecValidation, timeoutMs, maxRetries
    enabled
    tlsHostname := p.tlsHostname.nullable r.tlsHostname }

structure PoolMemberIn where
  resolverId : Str
  weight : ℤ := 1
  priority : ℤ := 0

def PoolMemberIn.valid (m : PoolMemberIn) : Bool := within 1 100 m.weight && 0 ≤ m.priority

structure PoolCreate where
  name : Str
  strategy : Strategy := .roundRobin
  healthCheckIntervalS : ℤ := 30
  healthCheckTimeoutMs : ℤ := 2000
  healthCheckQuery : Str := "."
  healthCheckType : HealthCheckType := .soa
  unhealthyThreshold : ℤ := 3
  healthyThreshold : ℤ := 2
  minHealthyMembers : ℤ := 1
  fallbackPoolId : Option Str := none
  members : List PoolMemberIn := []

def PoolCreate.valid (p : PoolCreate) : Bool :=
  within 5 3600 p.healthCheckIntervalS && within 100 10000 p.healthCheckTimeoutMs &&
    within 1 10 p.unhealthyThreshold && within 1 10 p.healthyThreshold &&
    1 ≤ p.minHealthyMembers && p.members.all PoolMemberIn.valid

def PoolCreate.row (p : PoolCreate) (id : Str) : UpstreamPool := { p with id }

structure PoolUpdate where
  name : Patch Str := .unset
  strategy : Patch Strategy := .unset
  healthCheckIntervalS : Patch ℤ := .unset
  healthCheckTimeoutMs : Patch ℤ := .unset
  healthCheckQuery : Patch Str := .unset
  healthCheckType : Patch HealthCheckType := .unset
  unhealthyThreshold : Patch ℤ := .unset
  healthyThreshold : Patch ℤ := .unset
  minHealthyMembers : Patch ℤ := .unset
  fallbackPoolId : Patch Str := .unset

def PoolUpdate.valid (p : PoolUpdate) : Bool :=
  p.healthCheckIntervalS.all (within 5 3600) && p.healthCheckTimeoutMs.all (within 100 10000) &&
    p.unhealthyThreshold.all (within 1 10) && p.healthyThreshold.all (within 1 10) &&
    p.minHealthyMembers.all (1 ≤ ·)

def PoolUpdate.apply (p : PoolUpdate) (r : UpstreamPool) : Option UpstreamPool := do
  let name ← p.name.required r.name
  let strategy ← p.strategy.required r.strategy
  let healthCheckIntervalS ← p.healthCheckIntervalS.required r.healthCheckIntervalS
  let healthCheckTimeoutMs ← p.healthCheckTimeoutMs.required r.healthCheckTimeoutMs
  let healthCheckQuery ← p.healthCheckQuery.required r.healthCheckQuery
  let healthCheckType ← p.healthCheckType.required r.healthCheckType
  let unhealthyThreshold ← p.unhealthyThreshold.required r.unhealthyThreshold
  let healthyThreshold ← p.healthyThreshold.required r.healthyThreshold
  let minHealthyMembers ← p.minHealthyMembers.required r.minHealthyMembers
  return { r with
    name, strategy, healthCheckIntervalS, healthCheckTimeoutMs, healthCheckQuery, healthCheckType
    unhealthyThreshold, healthyThreshold, minHealthyMembers
    fallbackPoolId := p.fallbackPoolId.nullable r.fallbackPoolId }

structure RouteCreate where
  name : Str
  groupId : Option Str := none
  matchType : MatchType
  matchValue : Option Str := none
  poolId : Str
  nxdomainTtlOverride : Option ℤ := none
  requireDnssec : Option Bool := none
  priority : ℤ := 100
  enabled : Bool := true

def RouteCreate.row (p : RouteCreate) (tenantId id : Str) : UpstreamRoute :=
  { p with id, tenantId := some tenantId }

structure RouteUpdate where
  name : Patch Str := .unset
  groupId : Patch Str := .unset
  matchType : Patch MatchType := .unset
  matchValue : Patch Str := .unset
  poolId : Patch Str := .unset
  nxdomainTtlOverride : Patch ℤ := .unset
  requireDnssec : Patch Bool := .unset
  priority : Patch ℤ := .unset
  enabled : Patch Bool := .unset

def RouteUpdate.apply (p : RouteUpdate) (r : UpstreamRoute) : Option UpstreamRoute := do
  let name ← p.name.required r.name
  let matchType ← p.matchType.required r.matchType
  let poolId ← p.poolId.required r.poolId
  let priority ← p.priority.required r.priority
  let enabled ← p.enabled.required r.enabled
  return { r with
    name, matchType, poolId, priority, enabled
    groupId := p.groupId.nullable r.groupId
    matchValue := p.matchValue.nullable r.matchValue
    nxdomainTtlOverride := p.nxdomainTtlOverride.nullable r.nxdomainTtlOverride
    requireDnssec := p.requireDnssec.nullable r.requireDnssec }

structure TenantPolicyIn where
  requireEncrypted : Bool := false
  dnssecValidation : DnssecValidation := .opportunistic
  minTtlS : ℤ := 0
  maxTtlS : ℤ := 86400
  negativeTtlS : ℤ := 300

def TenantPolicyIn.valid (p : TenantPolicyIn) : Bool :=
  0 ≤ p.minTtlS && 0 ≤ p.maxTtlS && 0 ≤ p.negativeTtlS

def TenantPolicyIn.row (p : TenantPolicyIn) (tenantId : Str) : UpstreamTenantPolicy :=
  { p with tenantId }

/-! ### Endpoints -/

/-- `_bump_bundle_version`; the column is a `BIGINT`. -/
def bumpBundleVersion (db : UpstreamDb) : Option UpstreamDb :=
  match db.revision with
  | none => some { db with revision := some 1 }
  | some v =>
    if v + 1 ≤ 9223372036854775807 then some { db with revision := some (v + 1) } else none

/-- `create_resolver`; the id is a new UUID. -/
def createResolver (db : UpstreamDb) (id : Str) (p : ResolverCreate) : Option UpstreamDb :=
  if p.valid ∧ id ∉ db.resolverIds ∧ (p.row id).storable then
    bumpBundleVersion { db with resolvers := db.resolvers ++ [p.row id] }
  else none

/-- `update_resolver`. -/
def updateResolver (db : UpstreamDb) (id : Str) (p : ResolverUpdate) : Option UpstreamDb :=
  if p.valid then
    match db.resolvers.find? (·.id = id) with
    | none => none
    | some r =>
      match p.apply r with
      | none => none
      | some row =>
        if row.storable then
          bumpBundleVersion { db with resolvers := replaceRow (·.id) id row db.resolvers }
        else none
  else none

/-- `delete_resolver`; the memberships go with it. -/
def deleteResolver (db : UpstreamDb) (id : Str) : Option UpstreamDb :=
  if id ∈ db.resolverIds then
    bumpBundleVersion { db with
      resolvers := db.resolvers.filter (·.id ≠ id)
      members := db.members.filter (·.resolverId ≠ id) }
  else none

/-- `create_pool`. -/
def createPool (db : UpstreamDb) (id : Str) (p : PoolCreate) : Option UpstreamDb :=
  let members := p.members.map fun m => ⟨id, m.resolverId, m.weight, m.priority⟩
  if p.valid ∧ id ∉ db.poolIds ∧ (p.row id).storable ∧ (∀ f ∈ p.fallbackPoolId, f ∈ db.poolIds) ∧
      (∀ m ∈ p.members, m.resolverId ∈ db.resolverIds) ∧ (p.members.map (·.resolverId)).Nodup ∧
      members.all UpstreamPoolMember.storable then
    bumpBundleVersion { db with
      pools := db.pools ++ [p.row id]
      members := db.members ++ members }
  else none

/-- `update_pool`; the fallback is a foreign key and not checked otherwise. -/
def updatePool (db : UpstreamDb) (id : Str) (p : PoolUpdate) : Option UpstreamDb :=
  if p.valid then
    match db.pools.find? (·.id = id) with
    | none => none
    | some r =>
      match p.apply r with
      | none => none
      | some row =>
        if row.storable ∧ ∀ f ∈ row.fallbackPoolId, f ∈ db.poolIds then
          bumpBundleVersion { db with pools := replaceRow (·.id) id row db.pools }
        else none
  else none

/-- `delete_pool`: refused by a foreign key while a route or another pool
refers to it. -/
def deletePool (db : UpstreamDb) (id : Str) : Option UpstreamDb :=
  if id ∈ db.poolIds ∧ (∀ r ∈ db.routes, r.poolId ≠ id) ∧
      ∀ q ∈ db.pools, q.id ≠ id → q.fallbackPoolId ≠ some id then
    bumpBundleVersion { db with
      pools := db.pools.filter (·.id ≠ id)
      members := db.members.filter (·.poolId ≠ id) }
  else none

/-- `upsert_pool_member`; the resolver is the one in the path. -/
def upsertPoolMember (db : UpstreamDb) (poolId resolverId : Str) (p : PoolMemberIn) :
    Option UpstreamDb :=
  let row : UpstreamPoolMember := ⟨poolId, resolverId, p.weight, p.priority⟩
  if p.valid ∧ poolId ∈ db.poolIds ∧ resolverId ∈ db.resolverIds ∧ row.storable then
    bumpBundleVersion { db with
      members := if db.members.any fun m => m.poolId = poolId && m.resolverId = resolverId then
          db.members.map fun m => if m.poolId = poolId && m.resolverId = resolverId then row else m
        else db.members ++ [row] }
  else none

/-- `remove_pool_member`. -/
def removePoolMember (db : UpstreamDb) (poolId resolverId : Str) : Option UpstreamDb :=
  if db.members.any fun m => m.poolId = poolId && m.resolverId = resolverId then
    bumpBundleVersion { db with
      members := db.members.filter fun m => !(m.poolId = poolId && m.resolverId = resolverId) }
  else none

/-- `create_route`. -/
def createRoute (db : UpstreamDb) (tenantId id : Str) (p : RouteCreate) : Option UpstreamDb :=
  if p.poolId ∈ db.poolIds ∧ id ∉ db.routes.map (·.id) ∧ (p.row tenantId id).storable then
    bumpBundleVersion { db with routes := db.routes ++ [p.row tenantId id] }
  else none

/-- `update_route`. -/
def updateRoute (db : UpstreamDb) (tenantId id : Str) (p : RouteUpdate) : Option UpstreamDb :=
  match db.routes.find? fun r => r.id = id && r.tenantId = some tenantId with
  | none => none
  | some r =>
    match p.apply r with
    | none => none
    | some row =>
      if row.poolId ∈ db.poolIds ∧ row.storable then
        bumpBundleVersion { db with routes := replaceRow (·.id) id row db.routes }
      else none

/-- `delete_route`. -/
def deleteRoute (db : UpstreamDb) (tenantId id : Str) : Option UpstreamDb :=
  if db.routes.any fun r => r.id = id && r.tenantId = some tenantId then
    bumpBundleVersion { db with routes := db.routes.filter (·.id ≠ id) }
  else none

/-- `upsert_tenant_policy`. -/
def upsertTenantPolicy (db : UpstreamDb) (tenantId : Str) (p : TenantPolicyIn) :
    Option UpstreamDb :=
  if p.valid ∧ tenantId ∈ db.tenants ∧ (p.row tenantId).storable then
    bumpBundleVersion { db with
      policies := if db.policies.any (·.tenantId = tenantId) then
          replaceRow (·.tenantId) tenantId (p.row tenantId) db.policies
        else db.policies ++ [p.row tenantId] }
  else none

/-- The requests that change the configuration. -/
inductive Request
  | createResolver (id : Str) (p : ResolverCreate)
  | updateResolver (id : Str) (p : ResolverUpdate)
  | deleteResolver (id : Str)
  | createPool (id : Str) (p : PoolCreate)
  | updatePool (id : Str) (p : PoolUpdate)
  | deletePool (id : Str)
  | upsertPoolMember (poolId resolverId : Str) (p : PoolMemberIn)
  | removePoolMember (poolId resolverId : Str)
  | createRoute (tenantId id : Str) (p : RouteCreate)
  | updateRoute (tenantId id : Str) (p : RouteUpdate)
  | deleteRoute (tenantId id : Str)
  | upsertTenantPolicy (tenantId : Str) (p : TenantPolicyIn)

def UpstreamDb.apply (db : UpstreamDb) : Request → Option UpstreamDb
  | .createResolver id p => Upstream.createResolver db id p
  | .updateResolver id p => Upstream.updateResolver db id p
  | .deleteResolver id => Upstream.deleteResolver db id
  | .createPool id p => Upstream.createPool db id p
  | .updatePool id p => Upstream.updatePool db id p
  | .deletePool id => Upstream.deletePool db id
  | .upsertPoolMember poolId resolverId p => Upstream.upsertPoolMember db poolId resolverId p
  | .removePoolMember poolId resolverId => Upstream.removePoolMember db poolId resolverId
  | .createRoute tenantId id p => Upstream.createRoute db tenantId id p
  | .updateRoute tenantId id p => Upstream.updateRoute db tenantId id p
  | .deleteRoute tenantId id => Upstream.deleteRoute db tenantId id
  | .upsertTenantPolicy tenantId p => Upstream.upsertTenantPolicy db tenantId p

/-- Reached by accepted requests. -/
inductive Reachable (tenants : List Str) : UpstreamDb → Prop
  | fresh : Reachable tenants (.fresh tenants)
  | request {db db' : UpstreamDb} (req : Request) (h : Reachable tenants db)
      (hreq : db.apply req = some db') : Reachable tenants db'

/-- A sequence of requests, all accepted. -/
def UpstreamDb.requests (db : UpstreamDb) (reqs : List Request) : Option UpstreamDb :=
  reqs.foldlM UpstreamDb.apply db

theorem Reachable.requests {tenants : List Str} {db db' : UpstreamDb} {reqs : List Request}
    (hdb : Reachable tenants db) (h : db.requests reqs = some db') : Reachable tenants db' := by
  induction reqs generalizing db with
  | nil => exact some_inj.mp h ▸ hdb
  | cons req reqs ih =>
    rw [UpstreamDb.requests, foldlM_cons, bind_eq_bind, bind_eq_some_iff] at h
    obtain ⟨db₁, h₁, h₂⟩ := h
    exact ih (hdb.request req h₁) h₂

/-! ### What acceptance establishes -/

structure UpstreamResolver.Ok (r : UpstreamResolver) : Prop where
  port : int4 r.port
  timeoutMs : within 100 30000 r.timeoutMs
  maxRetries : within 0 5 r.maxRetries

structure UpstreamPool.Ok (p : UpstreamPool) : Prop where
  healthCheckIntervalS : within 5 3600 p.healthCheckIntervalS
  healthCheckTimeoutMs : within 100 10000 p.healthCheckTimeoutMs
  unhealthyThreshold : within 1 10 p.unhealthyThreshold
  healthyThreshold : within 1 10 p.healthyThreshold
  minHealthyMembers : within 1 2147483647 p.minHealthyMembers

structure UpstreamPoolMember.Ok (m : UpstreamPoolMember) : Prop where
  weight : within 1 100 m.weight
  priority : within 0 2147483647 m.priority

structure UpstreamTenantPolicy.Ok (p : UpstreamTenantPolicy) : Prop where
  minTtlS : within 0 2147483647 p.minTtlS
  maxTtlS : within 0 2147483647 p.maxTtlS
  negativeTtlS : within 0 2147483647 p.negativeTtlS

/-- Rows inside their ranges, and foreign keys that point at rows. -/
structure UpstreamDb.WellFormed (db : UpstreamDb) : Prop where
  resolver : ∀ r ∈ db.resolvers, r.Ok
  resolverNodup : db.resolverIds.Nodup
  pool : ∀ p ∈ db.pools, p.Ok
  member : ∀ m ∈ db.members, m.Ok
  route : ∀ r ∈ db.routes, r.storable
  policy : ∀ p ∈ db.policies, p.Ok
  revision : ∀ v ∈ db.revision, v ≤ 9223372036854775807
  fallbackPool : ∀ p ∈ db.pools, ∀ f ∈ p.fallbackPoolId, f ∈ db.poolIds
  memberPool : ∀ m ∈ db.members, m.poolId ∈ db.poolIds
  memberResolver : ∀ m ∈ db.members, m.resolverId ∈ db.resolverIds
  routePool : ∀ r ∈ db.routes, r.poolId ∈ db.poolIds

theorem ResolverUpdate.apply_ok {p : ResolverUpdate} {r row : UpstreamResolver} (hr : r.Ok)
    (hval : p.valid = true) (h : p.apply r = some row) (hsto : row.storable = true) :
    row.Ok ∧ row.id = r.id := by
  simp only [ResolverUpdate.valid, Bool.and_eq_true] at hval
  simp only [ResolverUpdate.apply, bind_eq_bind, bind_eq_some_iff, Option.pure_def, some_inj] at h
  obtain ⟨_, -, _, -, _, -, port, -, _, -, _, -, _, -,
    timeoutMs, ht, maxRetries, hm, _, -, rfl⟩ := h
  simp only [UpstreamResolver.storable, Bool.and_eq_true] at hsto
  exact ⟨⟨hsto.1.1, Patch.all_required ht hval.1 hr.timeoutMs,
    Patch.all_required hm hval.2 hr.maxRetries⟩, rfl⟩

theorem PoolUpdate.apply_ok {p : PoolUpdate} {r row : UpstreamPool} (hr : r.Ok)
    (hval : p.valid = true) (h : p.apply r = some row) (hsto : row.storable = true) :
    row.Ok ∧ row.id = r.id := by
  simp only [PoolUpdate.valid, Bool.and_eq_true] at hval
  obtain ⟨⟨⟨⟨hv₁, hv₂⟩, hv₃⟩, hv₄⟩, hv₅⟩ := hval
  simp only [PoolUpdate.apply, bind_eq_bind, bind_eq_some_iff, Option.pure_def, some_inj] at h
  obtain ⟨_, -, _, -, interval, h₁, timeout, h₂, _, -, _, -, unhealthy, h₃, healthy, h₄, least, h₅,
    rfl⟩ := h
  simp only [UpstreamPool.storable, Bool.and_eq_true] at hsto
  have hlea : decide (1 ≤ least) = true :=
    @Patch.all_required ℤ (fun n => decide (1 ≤ n)) _ _ _ h₅ hv₅
      (decide_eq_true (within_iff.mp hr.minHealthyMembers).1)
  exact ⟨⟨Patch.all_required h₁ hv₁ hr.healthCheckIntervalS,
    Patch.all_required h₂ hv₂ hr.healthCheckTimeoutMs,
    Patch.all_required h₃ hv₃ hr.unhealthyThreshold,
    Patch.all_required h₄ hv₄ hr.healthyThreshold,
    within_of_int4 (of_decide_eq_true hlea) hsto.2⟩, rfl⟩

variable {tenants : List Str} {db db' : UpstreamDb}
variable {id poolId resolverId tenantId : Str}

theorem UpstreamDb.WellFormed.bump (hdb : db.WellFormed) (h : bumpBundleVersion db = some db') :
    db'.WellFormed := by
  rw [bumpBundleVersion] at h
  split at h
  · cases h
    exact { hdb with revision := fun v hv => by rw [← some_inj.mp hv]; omega }
  · split at h
    · cases h
      exact { hdb with revision := fun v hv => by rw [← some_inj.mp hv]; assumption }
    · simp at h

theorem UpstreamDb.WellFormed.of_accepted {c : Prop} [Decidable c]
    (h : (if c then bumpBundleVersion db else none) = some db') (hdb : c → db.WellFormed) :
    db'.WellFormed := by
  obtain ⟨hc, h⟩ := ite_none_right_eq_some.mp h
  exact (hdb hc).bump h

theorem createResolver_wellFormed {p : ResolverCreate} (hdb : db.WellFormed)
    (h : createResolver db id p = some db') : db'.WellFormed := by
  rw [createResolver] at h
  refine .of_accepted h ?_
  rintro ⟨hval, hnew, hsto⟩
  simp only [ResolverCreate.valid, Bool.and_eq_true] at hval
  simp only [UpstreamResolver.storable, Bool.and_eq_true] at hsto
  exact { hdb with
    resolver := forall_concat hdb.resolver ⟨hsto.1.1, hval.1, hval.2⟩
    resolverNodup := by
      show ((db.resolvers ++ [p.row id]).map (·.id)).Nodup
      rw [map_append, map_singleton, ← concat_eq_append]
      exact hdb.resolverNodup.concat hnew
    memberResolver := fun m hm => mem_ids_concat (hdb.memberResolver m hm) }

theorem updateResolver_wellFormed {p : ResolverUpdate} (hdb : db.WellFormed)
    (h : updateResolver db id p = some db') : db'.WellFormed := by
  rw [updateResolver] at h
  obtain ⟨hval, h⟩ := ite_none_right_eq_some.mp h
  split at h
  · simp at h
  · rename_i r hfind
    split at h
    · simp at h
    · rename_i row happ
      refine .of_accepted h fun hsto => ?_
      obtain ⟨hok, hid⟩ :=
        p.apply_ok (hdb.resolver r (mem_of_find?_eq_some hfind)) hval happ hsto
      have hrow : row.id = id := hid.trans (by simpa using find?_some hfind)
      exact { hdb with
        resolver := forall_replaceRow hok hdb.resolver
        resolverNodup := by
          show ((replaceRow (·.id) id row db.resolvers).map (·.id)).Nodup
          rw [map_key_replaceRow hrow]
          exact hdb.resolverNodup
        memberResolver := fun m hm => mem_ids_replaceRow hrow (hdb.memberResolver m hm) }

theorem deleteResolver_wellFormed (hdb : db.WellFormed) (h : deleteResolver db id = some db') :
    db'.WellFormed := by
  rw [deleteResolver] at h
  refine .of_accepted h fun _ => ?_
  have hmem : ∀ m ∈ db.members.filter (·.resolverId ≠ id), m ∈ db.members ∧ m.resolverId ≠ id :=
    fun m hm => ⟨(mem_filter.mp hm).1, by simpa using (mem_filter.mp hm).2⟩
  exact { hdb with
    resolver := forall_filter hdb.resolver _
    resolverNodup := hdb.resolverNodup.sublist (filter_sublist.map _)
    member := forall_filter hdb.member _
    memberPool := forall_filter hdb.memberPool _
    memberResolver := fun m hm =>
      mem_ids_filter (hdb.memberResolver m (hmem m hm).1) (hmem m hm).2 }

theorem createPool_wellFormed {p : PoolCreate} (hdb : db.WellFormed)
    (h : createPool db id p = some db') : db'.WellFormed := by
  rw [createPool] at h
  refine .of_accepted h ?_
  rintro ⟨hval, -, hsto, hfb, hres, -, hmst⟩
  simp only [PoolCreate.valid, Bool.and_eq_true, decide_eq_true_eq] at hval
  obtain ⟨⟨⟨⟨⟨hv₁, hv₂⟩, hv₃⟩, hv₄⟩, hv₅⟩, hmva⟩ := hval
  simp only [UpstreamPool.storable, Bool.and_eq_true] at hsto
  have hok : (p.row id).Ok := ⟨hv₁, hv₂, hv₃, hv₄, within_of_int4 hv₅ hsto.2⟩
  -- the new members, as they were checked
  have hnew : ∀ m ∈ p.members.map (fun m => (⟨id, m.resolverId, m.weight, m.priority⟩ :
      UpstreamPoolMember)), m.Ok ∧ m.poolId = id ∧ m.resolverId ∈ db.resolverIds := by
    intro m hm
    have hint := List.all_eq_true.mp hmst m hm
    obtain ⟨m', hm', rfl⟩ := List.mem_map.mp hm
    have hv := List.all_eq_true.mp hmva m' hm'
    simp only [PoolMemberIn.valid, Bool.and_eq_true, decide_eq_true_eq] at hv
    simp only [UpstreamPoolMember.storable, Bool.and_eq_true] at hint
    exact ⟨⟨hv.1, within_of_int4 hv.2 hint.2⟩, rfl, hres m' hm'⟩
  have hself : id ∈ (db.pools ++ [p.row id]).map (·.id) := by
    rw [map_append]
    exact mem_append_right _ (mem_singleton.mpr rfl)
  exact { hdb with
    pool := forall_concat hdb.pool hok
    member := fun m hm => (mem_append.mp hm).elim (hdb.member m) fun hm => (hnew m hm).1
    fallbackPool := forall_concat
      (fun q hq f hf => mem_ids_concat (hdb.fallbackPool q hq f hf))
      fun f hf => mem_ids_concat (hfb f hf)
    memberPool := fun m hm => (mem_append.mp hm).elim
      (fun hm => mem_ids_concat (hdb.memberPool m hm)) fun hm => (hnew m hm).2.1 ▸ hself
    memberResolver := fun m hm =>
      (mem_append.mp hm).elim (hdb.memberResolver m) fun hm => (hnew m hm).2.2
    routePool := fun r hr => mem_ids_concat (hdb.routePool r hr) }

theorem updatePool_wellFormed {p : PoolUpdate} (hdb : db.WellFormed)
    (h : updatePool db id p = some db') : db'.WellFormed := by
  rw [updatePool] at h
  obtain ⟨hval, h⟩ := ite_none_right_eq_some.mp h
  split at h
  · simp at h
  · rename_i r hfind
    split at h
    · simp at h
    · rename_i row happ
      refine .of_accepted h ?_
      rintro ⟨hsto, hfb⟩
      obtain ⟨hok, hid⟩ :=
        p.apply_ok (hdb.pool r (mem_of_find?_eq_some hfind)) hval happ hsto
      have hrow : row.id = id := hid.trans (by simpa using find?_some hfind)
      exact { hdb with
        pool := forall_replaceRow hok hdb.pool
        fallbackPool := forall_replaceRow
          (fun f hf => mem_ids_replaceRow hrow (hfb f hf))
          fun q hq f hf => mem_ids_replaceRow hrow (hdb.fallbackPool q hq f hf)
        memberPool := fun m hm => mem_ids_replaceRow hrow (hdb.memberPool m hm)
        routePool := fun r hr => mem_ids_replaceRow hrow (hdb.routePool r hr) }

theorem deletePool_wellFormed (hdb : db.WellFormed) (h : deletePool db id = some db') :
    db'.WellFormed := by
  rw [deletePool] at h
  refine .of_accepted h ?_
  rintro ⟨-, hrts, hpoo⟩
  have hmem : ∀ m ∈ db.members.filter (·.poolId ≠ id), m ∈ db.members ∧ m.poolId ≠ id :=
    fun m hm => ⟨(mem_filter.mp hm).1, by simpa using (mem_filter.mp hm).2⟩
  exact { hdb with
    pool := forall_filter hdb.pool _
    member := forall_filter hdb.member _
    fallbackPool := fun q hq f hf => by
      obtain ⟨hq, hne⟩ := mem_filter.mp hq
      refine mem_ids_filter (hdb.fallbackPool q hq f hf) fun hfid => ?_
      exact hpoo q hq (by simpa using hne) (hfid ▸ hf)
    memberPool := fun m hm => mem_ids_filter (hdb.memberPool m (hmem m hm).1) (hmem m hm).2
    memberResolver := forall_filter hdb.memberResolver _
    routePool := fun r hr => mem_ids_filter (hdb.routePool r hr) (hrts r hr) }

theorem upsertPoolMember_wellFormed {p : PoolMemberIn} (hdb : db.WellFormed)
    (h : upsertPoolMember db poolId resolverId p = some db') :
    db'.WellFormed := by
  rw [upsertPoolMember] at h
  refine .of_accepted h ?_
  rintro ⟨hval, hpool, hres, hsto⟩
  simp only [PoolMemberIn.valid, Bool.and_eq_true, decide_eq_true_eq] at hval
  simp only [UpstreamPoolMember.storable, Bool.and_eq_true] at hsto
  -- a member afterwards is the one written or was there before
  have hmem : ∀ P : UpstreamPoolMember → Prop, P ⟨poolId, resolverId, p.weight, p.priority⟩ →
      (∀ m ∈ db.members, P m) →
      ∀ m ∈ (if db.members.any fun m => m.poolId = poolId && m.resolverId = resolverId then
        db.members.map fun m => if m.poolId = poolId && m.resolverId = resolverId then
          (⟨poolId, resolverId, p.weight, p.priority⟩ : UpstreamPoolMember) else m
        else db.members ++ [⟨poolId, resolverId, p.weight, p.priority⟩]), P m := by
    intro P hrow hold m hm
    split at hm
    · obtain ⟨m', hm', rfl⟩ := List.mem_map.mp hm
      split
      · exact hrow
      · exact hold m' hm'
    · exact forall_concat hold hrow m hm
  exact { hdb with
    member := hmem _ ⟨hval.1, within_of_int4 hval.2 hsto.2⟩ hdb.member
    memberPool := hmem (·.poolId ∈ db.poolIds) hpool hdb.memberPool
    memberResolver := hmem (·.resolverId ∈ db.resolverIds) hres hdb.memberResolver }

theorem removePoolMember_wellFormed (hdb : db.WellFormed)
    (h : removePoolMember db poolId resolverId = some db') : db'.WellFormed := by
  rw [removePoolMember] at h
  refine .of_accepted h fun _ => ?_
  exact { hdb with
    member := forall_filter hdb.member _
    memberPool := forall_filter hdb.memberPool _
    memberResolver := forall_filter hdb.memberResolver _ }

theorem createRoute_wellFormed {p : RouteCreate} (hdb : db.WellFormed)
    (h : createRoute db tenantId id p = some db') : db'.WellFormed := by
  rw [createRoute] at h
  refine .of_accepted h fun hc => ?_
  exact { hdb with
    route := forall_concat hdb.route hc.2.2
    routePool := forall_concat hdb.routePool hc.1 }

theorem updateRoute_wellFormed {p : RouteUpdate} (hdb : db.WellFormed)
    (h : updateRoute db tenantId id p = some db') : db'.WellFormed := by
  rw [updateRoute] at h
  split at h
  · simp at h
  · split at h
    · simp at h
    · refine .of_accepted h fun hc => ?_
      exact { hdb with
        route := forall_replaceRow hc.2 hdb.route
        routePool := forall_replaceRow hc.1 hdb.routePool }

theorem deleteRoute_wellFormed (hdb : db.WellFormed) (h : deleteRoute db tenantId id = some db') :
    db'.WellFormed := by
  rw [deleteRoute] at h
  refine .of_accepted h fun _ => ?_
  exact { hdb with
    route := forall_filter hdb.route _
    routePool := forall_filter hdb.routePool _ }

theorem upsertTenantPolicy_wellFormed {p : TenantPolicyIn} (hdb : db.WellFormed)
    (h : upsertTenantPolicy db tenantId p = some db') : db'.WellFormed := by
  rw [upsertTenantPolicy] at h
  refine .of_accepted h ?_
  rintro ⟨hval, -, hsto⟩
  simp only [TenantPolicyIn.valid, Bool.and_eq_true, decide_eq_true_eq] at hval
  simp only [UpstreamTenantPolicy.storable, Bool.and_eq_true] at hsto
  have hok : (p.row tenantId).Ok := ⟨within_of_int4 hval.1.1 hsto.1.1,
    within_of_int4 hval.1.2 hsto.1.2, within_of_int4 hval.2 hsto.2⟩
  refine { hdb with policy := ?_ }
  dsimp only
  split
  · exact forall_replaceRow hok hdb.policy
  · exact forall_concat hdb.policy hok

/-- **Every accepted request keeps the tables well formed.** -/
theorem UpstreamDb.WellFormed.apply (hdb : db.WellFormed) {req : Request}
    (h : db.apply req = some db') : db'.WellFormed := by
  cases req with
  | createResolver => exact createResolver_wellFormed hdb h
  | updateResolver => exact updateResolver_wellFormed hdb h
  | deleteResolver => exact deleteResolver_wellFormed hdb h
  | createPool => exact createPool_wellFormed hdb h
  | updatePool => exact updatePool_wellFormed hdb h
  | deletePool => exact deletePool_wellFormed hdb h
  | upsertPoolMember => exact upsertPoolMember_wellFormed hdb h
  | removePoolMember => exact removePoolMember_wellFormed hdb h
  | createRoute => exact createRoute_wellFormed hdb h
  | updateRoute => exact updateRoute_wellFormed hdb h
  | deleteRoute => exact deleteRoute_wellFormed hdb h
  | upsertTenantPolicy => exact upsertTenantPolicy_wellFormed hdb h

theorem fresh_wellFormed (tenants : List Str) : (UpstreamDb.fresh tenants).WellFormed := by
  constructor <;> simp [UpstreamDb.fresh, UpstreamDb.resolverIds]

theorem reachable_wellFormed (h : Reachable tenants db) : db.WellFormed := by
  induction h with
  | fresh => exact fresh_wellFormed tenants
  | request req _ hreq ih => exact ih.apply hreq

end Control.Upstream
