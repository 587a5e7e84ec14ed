/-
The upstream bundle of a tenant: `get_upstream_bundle` in
`api/upstream_routers.py`.

The handler reads routes, pools, members, resolvers, the tenant's policy and
the revision in separate statements (`Reads`), and assembles its answer from
what they returned.

* `export_closed_iff` — on one snapshot of the tables every reference of the
  bundle is resolved exactly when the fallback of every routed pool is routed
  as well.
-/
import MantisDns.UpstreamApi

open Text Table List

namespace Control.Upstream

/-! ### Statements -/

/-- The order of names in the database. -/
abbrev Collation := Str → Str → Bool

/-- The enabled routes of the tenant and the global ones. -/
def UpstreamRoute.servedTo (r : UpstreamRoute) (tenantId : Str) : Bool :=
  (r.tenantId = some tenantId || r.tenantId = none) && r.enabled

/-- `order_by(priority, name)`. -/
def orderRoutes (collate : Collation) (routes : List UpstreamRoute) : List UpstreamRoute :=
  routes.insertionSort fun a b =>
    a.priority < b.priority ∨ a.priority = b.priority ∧ collate a.name b.name

def selectRoutes (collate : Collation) (db : UpstreamDb) (tenantId : Str) : List UpstreamRoute :=
  orderRoutes collate (db.routes.filter (·.servedTo tenantId))

def selectPools (db : UpstreamDb) (ids : List Str) : List UpstreamPool :=
  db.pools.filter (·.id ∈ ids)

/-- The first level of `selectinload`. -/
def selectMembers (db : UpstreamDb) (poolIds : List Str) : List UpstreamPoolMember :=
  db.members.filter (·.poolId ∈ poolIds)

def selectResolvers (db : UpstreamDb) (ids : List Str) : List UpstreamResolver :=
  db.resolvers.filter (·.id ∈ ids)

def selectPolicy (db : UpstreamDb) (tenantId : Str) : Option UpstreamTenantPolicy :=
  db.policies.find? (·.tenantId = tenantId)

/-- `_bundle_version`. -/
def bundleVersion (db : UpstreamDb) : ℕ := db.revision.getD 0

/-- `m.resolver`, among the resolvers that were loaded. -/
def resolverOf (loaded : List UpstreamResolver) (m : UpstreamPoolMember) :
    Option UpstreamResolver :=
  loaded.find? (·.id = m.resolverId)

/-- `m.resolver.enabled`. -/
def memberEnabled (loaded : List UpstreamResolver) (m : UpstreamPoolMember) : Bool :=
  (resolverOf loaded m).any (·.enabled)

/-- `resolver_ids`. -/
def enabledResolverIds (loaded : List UpstreamResolver) (members : List UpstreamPoolMember) :
    List Str :=
  (members.filter (memberEnabled loaded)).map (·.resolverId)

/-- What the statements of one request returned.  `present` is the second query
for the resolvers: the session already holds their columns from `loaded`. -/
structure Reads where
  routes : List UpstreamRoute
  pools : List UpstreamPool
  members : List UpstreamPoolMember
  loaded : List UpstreamResolver
  present : List Str
  policy : Option UpstreamTenantPolicy
  version : ℕ
  deriving DecidableEq

/-! ### The answer -/

/-- `_DEFAULT_POLICY` for a tenant. -/
def defaultPolicy (tenantId : Str) : UpstreamTenantPolicy :=
  ⟨tenantId, false, .opportunistic, 0, 86400, 300⟩

structure PoolPayload where
  pool : UpstreamPool
  members : List UpstreamPoolMember
  deriving DecidableEq

/-- The dictionary `bundle`, without `issued_at`. -/
structure BundlePayload where
  version : ℕ
  tenantId : Str
  routes : List UpstreamRoute
  pools : List (Str × PoolPayload)
  resolvers : List (Str × UpstreamResolver)
  tenantPolicy : UpstreamTenantPolicy
  deriving DecidableEq

/-- `sorted(p.members, key=lambda x: (x.priority, x.weight))`. -/
def sortMembers (members : List UpstreamPoolMember) : List UpstreamPoolMember :=
  members.insertionSort fun a b =>
    a.priority < b.priority ∨ a.priority = b.priority ∧ a.weight ≤ b.weight

def poolPayload (loaded : List UpstreamResolver) (members : List UpstreamPoolMember)
    (pool : UpstreamPool) : PoolPayload :=
  ⟨pool, (sortMembers (members.filter (·.poolId = pool.id))).filter (memberEnabled loaded)⟩

/-- The answer from what was read; `none` is the attribute error on a member
whose resolver was not there to be loaded. -/
def assemble (tenantId : Str) (reads : Reads) : Option BundlePayload :=
  if ∀ m ∈ reads.members, (resolverOf reads.loaded m).isSome then
    some {
      version := reads.version
      tenantId
      routes := reads.routes
      pools := reads.pools.map fun p => (p.id, poolPayload reads.loaded reads.members p)
      resolvers := (reads.loaded.filter fun r =>
        r.id ∈ enabledResolverIds reads.loaded reads.members && r.id ∈ reads.present).map
          fun r => (r.id, r)
      tenantPolicy := reads.policy.getD (defaultPolicy tenantId) }
  else none

/-- All statements on one state of the tables. -/
def readAll (collate : Collation) (db : UpstreamDb) (tenantId : Str) : Reads :=
  let routes := selectRoutes collate db tenantId
  let pools := selectPools db (routes.map (·.poolId))
  let members := selectMembers db (pools.map (·.id))
  let loaded := selectResolvers db (members.map (·.resolverId))
  let present := selectResolvers db (enabledResolverIds loaded members)
  ⟨routes, pools, members, loaded, present.map (·.id), selectPolicy db tenantId, bundleVersion db⟩

/-- `get_upstream_bundle` while nothing else commits. -/
def getUpstreamBundle (collate : Collation) (db : UpstreamDb) (tenantId : Str) :
    Option BundlePayload :=
  assemble tenantId (readAll collate db tenantId)

/-! ### JSON -/

def UpstreamRoute.json (r : UpstreamRoute) : Json := .obj [
  ("id", .str r.id),
  ("name", .str r.name),
  ("tenant_id", Json.ofOption .str r.tenantId),
  ("group_id", Json.ofOption .str r.groupId),
  ("match_type", .str r.matchType.text),
  ("match_value", Json.ofOption .str r.matchValue),
  ("pool_id", .str r.poolId),
  ("nxdomain_ttl_override", Json.ofOption .int r.nxdomainTtlOverride),
  ("require_dnssec", Json.ofOption .bool r.requireDnssec),
  ("priority", .int r.priority)]

def UpstreamPoolMember.json (m : UpstreamPoolMember) : Json := .obj [
  ("resolver_id", .str m.resolverId),
  ("weight", .int m.weight),
  ("priority", .int m.priority)]

def PoolPayload.json (p : PoolPayload) : Json := .obj [
  ("id", .str p.pool.id),
  ("name", .str p.pool.name),
  ("strategy", .str p.pool.strategy.text),
  ("health_check_interval_s", .int p.pool.healthCheckIntervalS),
  ("health_check_timeout_ms", .int p.pool.healthCheckTimeoutMs),
  ("health_check_query", .str p.pool.healthCheckQuery),
  ("health_check_type", .str p.pool.healthCheckType.text),
  ("unhealthy_threshold", .int p.pool.unhealthyThreshold),
  ("healthy_threshold", .int p.pool.healthyThreshold),
  ("min_healthy_members", .int p.pool.minHealthyMembers),
  ("fallback_pool_id", Json.ofOption .str p.pool.fallbackPoolId),
  ("members", .arr (p.members.map (·.json)))]

def UpstreamResolver.json (r : UpstreamResolver) : Json := .obj [
  ("id", .str r.id),
  ("name", .str r.name),
  ("protocol", .str r.protocol.text),
  ("address", .str r.address),
  ("port", .int r.port),
  ("tls_hostname", Json.ofOption .str r.tlsHostname),
  ("tls_pin_sha256", .arr (r.tlsPinSha256.map .str)),
  ("doh_path", .str r.dohPath),
  ("dnssec_validation", .str r.dnssecValidation.text),
  ("timeout_ms", .int r.timeoutMs),
  ("max_retries", .int r.maxRetries)]

def UpstreamTenantPolicy.json (p : UpstreamTenantPolicy) : Json := .obj [
  ("require_encrypted", .bool p.requireEncrypted),
  ("dnssec_validation", .str p.dnssecValidation.text),
  ("min_ttl_s", .int p.minTtlS),
  ("max_ttl_s", .int p.maxTtlS),
  ("negative_ttl_s", .int p.negativeTtlS)]

/-- The body of the response. -/
def BundlePayload.json (b : BundlePayload) (issuedAt : Str) : Json := .obj [
  ("version", .int b.version),
  ("tenant_id", .str b.tenantId),
  ("issued_at", .str issuedAt),
  ("routes", .arr (b.routes.map (·.json))),
  ("pools", .obj (b.pools.map fun e => (e.1, e.2.json))),
  ("resolvers", .obj (b.resolvers.map fun e => (e.1, e.2.json))),
  ("tenant_policy", b.tenantPolicy.json)]

/-! ### What the statements return -/

variable {collate : Collation} {db : UpstreamDb} {tenantId : Str} {b : BundlePayload}
variable {r : UpstreamResolver} {ids : List Str} {m : UpstreamPoolMember} {id : Str}

theorem mem_selectRoutes {r : UpstreamRoute} :
    r ∈ selectRoutes collate db tenantId ↔ r ∈ db.routes ∧ r.servedTo tenantId = true := by
  rw [selectRoutes, orderRoutes, mem_insertionSort, mem_filter]

theorem mem_selectPools {p : UpstreamPool} :
    p ∈ selectPools db ids ↔ p ∈ db.pools ∧ p.id ∈ ids := by
  rw [selectPools, mem_filter, decide_eq_true_eq]

theorem mem_selectMembers :
    m ∈ selectMembers db ids ↔ m ∈ db.members ∧ m.poolId ∈ ids := by
  rw [selectMembers, mem_filter, decide_eq_true_eq]

theorem mem_selectResolvers :
    r ∈ selectResolvers db ids ↔ r ∈ db.resolvers ∧ r.id ∈ ids := by
  rw [selectResolvers, mem_filter, decide_eq_true_eq]

theorem resolverOf_selectResolvers (hm : m.resolverId ∈ ids) :
    resolverOf (selectResolvers db ids) m = resolverOf db.resolvers m := by
  rw [resolverOf, resolverOf, selectResolvers, find?_filter]
  congr 1
  funext r
  by_cases hr : r.id = m.resolverId
  · simp [hr, hm]
  · simp [hr]

theorem resolverOf_loaded (hm : m ∈ (readAll collate db tenantId).members) :
    resolverOf (readAll collate db tenantId).loaded m = resolverOf db.resolvers m :=
  resolverOf_selectResolvers (List.mem_map_of_mem hm)

theorem resolverOf_isSome (hm : m.resolverId ∈ db.resolverIds) :
    (resolverOf db.resolvers m).isSome := by
  obtain ⟨r, hr, hid⟩ := List.mem_map.mp hm
  exact find?_isSome.mpr ⟨r, hr, by simpa using hid⟩

theorem assemble_eq_some {reads : Reads} (h : assemble tenantId reads = some b) :
    b.version = reads.version ∧ b.tenantId = tenantId ∧ b.routes = reads.routes ∧
      b.pools = reads.pools.map (fun p => (p.id, poolPayload reads.loaded reads.members p)) ∧
      b.resolvers = (reads.loaded.filter fun r =>
        r.id ∈ enabledResolverIds reads.loaded reads.members && r.id ∈ reads.present).map
          (fun r => (r.id, r)) ∧
      b.tenantPolicy = reads.policy.getD (defaultPolicy tenantId) := by
  rw [assemble] at h
  obtain ⟨-, h⟩ := Option.ite_none_right_eq_some.mp h
  cases h
  exact ⟨rfl, rfl, rfl, rfl, rfl, rfl⟩

theorem getUpstreamBundle_isSome (hdb : db.WellFormed) :
    (getUpstreamBundle collate db tenantId).isSome := by
  rw [getUpstreamBundle, assemble, if_pos]
  · rfl
  · -- the foreign key of the member has a row
    intro m hm
    rw [resolverOf_loaded hm]
    exact resolverOf_isSome (hdb.memberResolver m (mem_selectMembers.mp hm).1)

/-! ### References -/

/-- A route that the tenant's bundle includes names this pool. -/
def UpstreamDb.Routed (db : UpstreamDb) (tenantId poolId : Str) : Prop :=
  ∃ r ∈ db.routes, r.servedTo tenantId = true ∧ r.poolId = poolId

/-- **Reference-closed**: the pool of every included route, the fallback of
every included pool, and the resolver of every member of an included pool are
included, unless the resolver is disabled. -/
structure BundlePayload.ReferenceClosed (b : BundlePayload) (db : UpstreamDb) : Prop where
  routePool : ∀ r ∈ b.routes, r.poolId ∈ b.pools.map Prod.fst
  fallbackPool : ∀ e ∈ b.pools, ∀ f ∈ e.2.pool.fallbackPoolId, f ∈ b.pools.map Prod.fst
  memberResolver : ∀ m ∈ db.members, m.poolId ∈ b.pools.map Prod.fst →
    memberEnabled db.resolvers m = true → m.resolverId ∈ b.resolvers.map Prod.fst
  listedMember : ∀ e ∈ b.pools, ∀ m ∈ e.2.members, m.resolverId ∈ b.resolvers.map Prod.fst

/-- The fallback of every routed pool is the pool of an included route too. -/
def UpstreamDb.FallbacksRouted (db : UpstreamDb) (tenantId : Str) : Prop :=
  ∀ p ∈ db.pools, db.Routed tenantId p.id → ∀ f ∈ p.fallbackPoolId, db.Routed tenantId f

theorem mem_routed :
    id ∈ (selectRoutes collate db tenantId).map (·.poolId) ↔ db.Routed tenantId id := by
  rw [List.mem_map]
  constructor
  · rintro ⟨r, hr, hid⟩
    exact ⟨r, (mem_selectRoutes.mp hr).1, (mem_selectRoutes.mp hr).2, hid⟩
  · rintro ⟨r, hr, hser, hid⟩
    exact ⟨r, mem_selectRoutes.mpr ⟨hr, hser⟩, hid⟩

theorem mem_export_pools (h : getUpstreamBundle collate db tenantId = some b) :
    id ∈ b.pools.map Prod.fst ↔ id ∈ db.poolIds ∧ db.Routed tenantId id := by
  rw [(assemble_eq_some h).2.2.2.1, List.map_map, List.mem_map]
  constructor
  · rintro ⟨p, hp, rfl⟩
    obtain ⟨hp, hrou⟩ := mem_selectPools.mp hp
    exact ⟨List.mem_map_of_mem hp, mem_routed.mp hrou⟩
  · rintro ⟨hid, hrou⟩
    obtain ⟨p, hp, rfl⟩ := List.mem_map.mp hid
    exact ⟨p, mem_selectPools.mpr ⟨hp, mem_routed.mpr hrou⟩, rfl⟩

theorem mem_export_routes (h : getUpstreamBundle collate db tenantId = some b) {r : UpstreamRoute} :
    r ∈ b.routes ↔ r ∈ db.routes ∧ r.servedTo tenantId = true := by
  rw [(assemble_eq_some h).2.2.1]
  exact mem_selectRoutes

theorem mem_export_resolver (h : getUpstreamBundle collate db tenantId = some b)
    (hm : m ∈ (readAll collate db tenantId).members)
    (hena : memberEnabled (readAll collate db tenantId).loaded m = true)
    (hr : r ∈ (readAll collate db tenantId).loaded) (hid : m.resolverId = r.id) :
    (r.id, r) ∈ b.resolvers := by
  set reads := readAll collate db tenantId with hrea
  have hids : r.id ∈ enabledResolverIds reads.loaded reads.members :=
    hid ▸ List.mem_map_of_mem (mem_filter.mpr ⟨hm, hena⟩)
  have hpre : r.id ∈ reads.present :=
    List.mem_map_of_mem (mem_selectResolvers.mpr ⟨(mem_selectResolvers.mp hr).1, hids⟩)
  rw [(assemble_eq_some h).2.2.2.2.1]
  refine List.mem_map.mpr ⟨r, mem_filter.mpr ⟨hr, ?_⟩, rfl⟩
  rw [Bool.and_eq_true, decide_eq_true_eq, decide_eq_true_eq]
  exact ⟨hids, hpre⟩

theorem mem_export_resolvers (h : getUpstreamBundle collate db tenantId = some b)
    (hm : m ∈ (readAll collate db tenantId).members)
    (hena : memberEnabled (readAll collate db tenantId).loaded m = true) :
    m.resolverId ∈ b.resolvers.map Prod.fst := by
  obtain ⟨r, hfind, -⟩ := (Option.any_eq_true _ _).mp hena
  have hid : r.id = m.resolverId := by simpa using find?_some hfind
  have hmem := mem_export_resolver h hm hena (mem_of_find?_eq_some hfind) hid.symm
  rw [← hid]
  exact List.mem_map_of_mem hmem

theorem mem_readAll_members (h : getUpstreamBundle collate db tenantId = some b)
    (hm : m ∈ db.members) (hpool : m.poolId ∈ b.pools.map Prod.fst) :
    m ∈ (readAll collate db tenantId).members := by
  rw [(assemble_eq_some h).2.2.2.1, List.map_map] at hpool
  exact mem_selectMembers.mpr ⟨hm, hpool⟩

theorem memberEnabled_loaded (hm : m ∈ (readAll collate db tenantId).members) :
    memberEnabled (readAll collate db tenantId).loaded m = memberEnabled db.resolvers m := by
  rw [memberEnabled, memberEnabled, resolverOf_loaded hm]

theorem mem_export_pool (h : getUpstreamBundle collate db tenantId = some b) {e : Str × PoolPayload}
    (he : e ∈ b.pools) : e.2.pool ∈ db.pools ∧ e.2.pool.id = e.1 ∧
      ∀ m ∈ e.2.members, m ∈ (readAll collate db tenantId).members ∧
        memberEnabled (readAll collate db tenantId).loaded m = true := by
  rw [(assemble_eq_some h).2.2.2.1] at he
  obtain ⟨p, hp, rfl⟩ := List.mem_map.mp he
  refine ⟨(mem_selectPools.mp hp).1, rfl, fun m hm => ?_⟩
  obtain ⟨hm, hena⟩ := mem_filter.mp hm
  rw [sortMembers, mem_insertionSort] at hm
  exact ⟨(mem_filter.mp hm).1, hena⟩

/-- **When a bundle is reference-closed**: exactly when no routed pool falls
back to a pool that no included route names. -/
theorem export_closed_iff (hdb : db.WellFormed)
    (h : getUpstreamBundle collate db tenantId = some b) :
    b.ReferenceClosed db ↔ db.FallbacksRouted tenantId := by
  constructor
  · intro hclo p hp hrou f hf
    -- the entry of this very row
    have he : (p.id, poolPayload (readAll collate db tenantId).loaded
        (readAll collate db tenantId).members p) ∈ b.pools := by
      rw [(assemble_eq_some h).2.2.2.1]
      exact List.mem_map_of_mem (mem_selectPools.mpr ⟨hp, mem_routed.mpr hrou⟩)
    exact ((mem_export_pools h).mp (hclo.fallbackPool _ he f hf)).2
  · intro hfb
    refine ⟨fun r hr => ?_, fun e he f hf => ?_, fun m hm hpool hena => ?_,
      fun e he m hm => ?_⟩
    · obtain ⟨hr, hser⟩ := (mem_export_routes h).mp hr
      exact (mem_export_pools h).mpr ⟨hdb.routePool r hr, r, hr, hser, rfl⟩
    · obtain ⟨hpool, hkey, -⟩ := mem_export_pool h he
      have hrou : db.Routed tenantId e.2.pool.id :=
        hkey ▸ ((mem_export_pools h).mp (List.mem_map_of_mem he)).2
      exact (mem_export_pools h).mpr
        ⟨hdb.fallbackPool _ hpool f hf, hfb _ hpool hrou f hf⟩
    · have hread := mem_readAll_members h hm hpool
      exact mem_export_resolvers h hread ((memberEnabled_loaded hread).trans hena)
    · obtain ⟨-, -, hmem⟩ := mem_export_pool h he
      exact mem_export_resolvers h (hmem m hm).1 (hmem m hm).2

/-! ### Rows of an answer -/

/-- The resolver is enabled and a member of a routed pool. -/
def UpstreamDb.InUse (db : UpstreamDb) (tenantId : Str) (r : UpstreamResolver) : Prop :=
  r.enabled = true ∧ ∃ m ∈ db.members, m.resolverId = r.id ∧ db.Routed tenantId m.poolId

theorem resolverOf_eq (hdb : db.WellFormed) (hr : r ∈ db.resolvers) (hid : m.resolverId = r.id) :
    resolverOf db.resolvers m = some r := by
  have hsome : (resolverOf db.resolvers m).isSome :=
    resolverOf_isSome (hid ▸ List.mem_map_of_mem hr)
  obtain ⟨r', hr'⟩ := Option.isSome_iff_exists.mp hsome
  have hid' : r'.id = m.resolverId := by simpa using find?_some hr'
  -- ids are unique, so the row found is this one
  rw [hr', inj_on_of_nodup_map hdb.resolverNodup (mem_of_find?_eq_some hr') hr (hid'.trans hid)]

theorem mem_export_resolver_iff (hdb : db.WellFormed)
    (h : getUpstreamBundle collate db tenantId = some b) :
    (r.id, r) ∈ b.resolvers ↔ r ∈ db.resolvers ∧ db.InUse tenantId r := by
  constructor
  · intro hmem
    rw [(assemble_eq_some h).2.2.2.2.1, List.mem_map] at hmem
    obtain ⟨r', hr', heq⟩ := hmem
    obtain rfl : r' = r := congrArg Prod.snd heq
    obtain ⟨hld, hids⟩ := mem_filter.mp hr'
    rw [Bool.and_eq_true, decide_eq_true_eq] at hids
    obtain ⟨m, hm, hid⟩ := List.mem_map.mp hids.1
    obtain ⟨hm, hena⟩ := mem_filter.mp hm
    have hr : r' ∈ db.resolvers := (mem_selectResolvers.mp hld).1
    rw [memberEnabled_loaded hm, memberEnabled, resolverOf_eq hdb hr hid] at hena
    obtain ⟨hmem, hpool⟩ := mem_selectMembers.mp hm
    obtain ⟨p, hp, hpid⟩ := List.mem_map.mp hpool
    exact ⟨hr, hena, m, hmem, hid, hpid ▸ mem_routed.mp (mem_selectPools.mp hp).2⟩
  · rintro ⟨hr, hena, m, hm, hid, hrou⟩
    -- the member's pool is exported, and so are the pool's enabled members
    have hpool : m.poolId ∈ b.pools.map Prod.fst :=
      (mem_export_pools h).mpr ⟨hdb.memberPool m hm, hrou⟩
    have hread := mem_readAll_members h hm hpool
    have hld : r ∈ (readAll collate db tenantId).loaded :=
      mem_selectResolvers.mpr ⟨hr, hid ▸ List.mem_map_of_mem hread⟩
    refine mem_export_resolver h hread ?_ hld hid
    rw [memberEnabled_loaded hread, memberEnabled, resolverOf_eq hdb hr hid]
    exact hena

theorem export_resolver_key (h : getUpstreamBundle collate db tenantId = some b)
    {e : Str × UpstreamResolver} (he : e ∈ b.resolvers) : (e.2.id, e.2) = e := by
  rw [(assemble_eq_some h).2.2.2.2.1] at he
  obtain ⟨r, -, rfl⟩ := List.mem_map.mp he
  rfl

/-- The ranges of everything an answer carries. -/
structure BundlePayload.Ok (b : BundlePayload) : Prop where
  version : b.version ≤ 9223372036854775807
  route : ∀ r ∈ b.routes, r.storable = true
  pool : ∀ e ∈ b.pools, e.2.pool.Ok
  member : ∀ e ∈ b.pools, ∀ m ∈ e.2.members, m.Ok
  resolver : ∀ e ∈ b.resolvers, e.2.Ok
  policy : b.tenantPolicy.Ok

theorem defaultPolicy_ok (tenantId : Str) : (defaultPolicy tenantId).Ok := ⟨rfl, rfl, rfl⟩

theorem export_ok (hdb : db.WellFormed) (h : getUpstreamBundle collate db tenantId = some b) :
    b.Ok := by
  obtain ⟨hver, -, -, -, hres, hpol⟩ := assemble_eq_some h
  refine ⟨?_, fun r hr => ?_, fun e he => hdb.pool _ (mem_export_pool h he).1, fun e he m hm => ?_,
    fun e he => ?_, ?_⟩
  · rw [hver]
    show db.revision.getD 0 ≤ _
    cases hrev : db.revision with
    | none => exact Nat.zero_le _
    | some v => exact hdb.revision v hrev
  · exact hdb.route r ((mem_export_routes h).mp hr).1
  · exact hdb.member m (mem_selectMembers.mp ((mem_export_pool h he).2.2 m hm).1).1
  · rw [hres] at he
    obtain ⟨r, hr, rfl⟩ := List.mem_map.mp he
    exact hdb.resolver r (mem_selectResolvers.mp (mem_filter.mp hr).1).1
  · rw [hpol]
    show ((selectPolicy db tenantId).getD _).Ok
    cases hsel : selectPolicy db tenantId with
    | none => exact defaultPolicy_ok tenantId
    | some p => exact hdb.policy p (mem_of_find?_eq_some hsel)

end Control.Upstream
