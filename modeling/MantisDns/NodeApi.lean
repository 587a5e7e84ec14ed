/-
What a filter node may see and store: the endpoints behind `require_node_token`.

A node polls the routing table, and for each group and tenant it serves the local
zones, the policy bundle and the upstream bundle; it also submits the queries that
it answered.  `auth.py` decides by the groups and tenants that its credential
names.

* `requireGroup_cases`, `nodeCanAccessTenant_iff` — the two checks;
* `respond_belongs` — what is returned belongs to them, or to no tenant;
* `ingestQueryEvents_stored` — events are stored for them only;
* `respond_sameView` — a response depends on their data only, up to the revision
  that all upstream bundles share and the reason of a refusal;
* `node_confined` — the three together.
-/
import MantisDns.LocalZones
import MantisDns.Routing
import MantisDns.UpstreamExport

open Text Table List Option

namespace Control.NodeApi

open Control.Routing Control.Zones Control.Upstream

/-! ### The data -/

/-- `QueryEventIn`. -/
structure QueryEventIn where
  groupId : Str
  qname : Str
  decision : Str
  clientIp : Option Str
  qtype : Option Str
  matchedRule : Option Str
  matchedCategory : Option Str
  matchedFeedId : Option Str
  responseCode : Option Str
  cacheHit : Option Bool
  latencyUs : Option ℤ
  occurredAtMs : Option ℤ
  deriving DecidableEq

/-- The bounds of its fields. -/
def QueryEventIn.valid (e : QueryEventIn) : Bool :=
  e.groupId.length ≤ 64 && e.qname.length ≤ 255 && e.decision.length ≤ 16 &&
    e.clientIp.all (·.length ≤ 45) && e.qtype.all (·.length ≤ 16) &&
    e.matchedRule.all (·.length ≤ 64) && e.matchedCategory.all (·.length ≤ 64) &&
    e.matchedFeedId.all (·.length ≤ 512) && e.responseCode.all (·.length ≤ 16)

/-- A row of `query_events`. -/
structure QueryEvent where
  groupId : Str
  tenantId : Option Str
  qname : Str
  decision : Str
  clientIp : Option Str
  qtype : Option Str
  matchedRule : Option Str
  matchedCategory : Option Str
  matchedFeedId : Option Str
  responseCode : Option Str
  cacheHit : Option Bool
  latencyUs : Option ℤ
  occurredAt : ℤ
  deriving DecidableEq

/-- A row of `client_entries`, as far as the events go. -/
structure ClientEntry where
  tenantId : Str
  ip : Str
  groupId : Option Str
  lastSeen : ℤ
  deriving DecidableEq

/-- The tables, the time of each zone's last update, and the stored bundles: a pointer for
each group and the files that pointers name. -/
structure NodeDb where
  groups : GroupDb
  zones : ZoneDb
  serial : DnsZone → ℤ
  upstream : UpstreamDb
  latest : Str → Option Str
  bins : Str → Option (List UInt8)
  queryEvents : List QueryEvent
  clients : List ClientEntry

/-- The order of names in the database, `str.lower`, `datetime.fromtimestamp` on
milliseconds, and the rows that the columns of `query_events` take. -/
structure Platform where
  collate : Collation
  caseMap : CaseMap
  fromTimestamp : ℤ → Option ℤ
  storable : QueryEvent → Bool

/-! ### Access -/

inductive Refusal
  | invalid
  | groupNotFound
  | groupForbidden
  | tenantForbidden
  | notCompiled
  | storeCorrupted
  | serverError
  | unknownGroups (ids : List Str)
  deriving DecidableEq

def Refusal.status : Refusal → ℕ
  | .invalid | .unknownGroups _ => 422
  | .groupNotFound | .notCompiled => 404
  | .groupForbidden | .tenantForbidden => 403
  | .storeCorrupted | .serverError => 500

/-- The texts of the source's own refusals, given how Python prints a list. -/
def Refusal.detail (repr : List Str → Str) : Refusal → Option Str
  | .invalid | .serverError => none
  | .groupNotFound => some "group not found"
  | .groupForbidden => some "node credential is not authorized for this group"
  | .tenantForbidden => some "node credential is not authorized for this tenant"
  | .notCompiled => some "no bundle compiled yet for this group"
  | .storeCorrupted => some "bundle store corrupted"
  | .unknownGroups ids => some ("unknown group ids: " ++ repr ids)

/-- The lookup of a group with `require_node_group_access`. -/
def requireGroup (db : NodeDb) (node : NodeCredential) (groupId : Str) : Except Refusal Group :=
  match db.groups.groups.find? (·.id = groupId) with
  | none => .error .groupNotFound
  | some g => if nodeCanAccessGroup node g then .ok g else .error .groupForbidden

/-- `node_can_access_tenant`. -/
def nodeCanAccessTenant (db : NodeDb) (node : NodeCredential) (tenantId : Str) : Bool :=
  if node.allowAll || tenantId ∈ node.allowedTenantIds then true
  else if node.allowedGroupIds.isEmpty then false
  else db.groups.groups.any fun g => g.id ∈ node.allowedGroupIds && g.tenantId = tenantId

/-! ### The endpoints -/

/-- The file that a group's pointer names, as `get_latest_bundle` reads it. -/
def readLatest (db : NodeDb) (groupId : Str) : Except Refusal (List UInt8) :=
  match db.latest groupId with
  | none => .error .notCompiled
  | some text =>
    let digest := strip text
    if '/' ∈ digest ∨ '\\' ∈ digest ∨ ".." <:+: digest then .error .storeCorrupted
    else (db.bins digest).elim (.error .serverError) .ok

/-- `get_latest_bundle`. -/
def getLatestBundle (db : NodeDb) (node : NodeCredential) (groupId : Str) :
    Except Refusal (List UInt8) :=
  (requireGroup db node groupId).bind fun _ => readLatest db groupId

/-- `get_local_zone_records`. -/
def localZoneRecords (P : Platform) (db : NodeDb) (node : NodeCredential) (groupId : Str) :
    Except Refusal (List LocalZoneRecord) :=
  (requireGroup db node groupId).map fun g =>
    getLocalZoneRecords P.caseMap db.serial db.zones g.tenantId

/-- `get_upstream_bundle`. -/
def upstreamBundle (P : Platform) (db : NodeDb) (node : NodeCredential) (tenantId : Str) :
    Except Refusal BundlePayload :=
  if nodeCanAccessTenant db node tenantId then
    (getUpstreamBundle P.collate db.upstream tenantId).elim (.error .serverError) .ok
  else .error .tenantForbidden

/-- `tenant_by_group`. -/
def tenantByGroup (groups : List Group) (groupId : Str) : Option Str :=
  (groups.find? (·.id = groupId)).map (·.tenantId)

/-- The time of an event: as submitted, or that of the request. -/
def occurredAt (P : Platform) (now : ℤ) (e : QueryEventIn) : Option ℤ :=
  match e.occurredAtMs with
  | none => some now
  | some ms => P.fromTimestamp ms

/-- The row of an event. -/
def queryEvent (P : Platform) (now : ℤ) (groups : List Group) (e : QueryEventIn) :
    Option QueryEvent := do
  let occurredAt ← occurredAt P now e
  let row : QueryEvent :=
    ⟨e.groupId, tenantByGroup groups e.groupId, e.qname, e.decision, e.clientIp, e.qtype,
      e.matchedRule, e.matchedCategory, e.matchedFeedId, e.responseCode, e.cacheHit, e.latencyUs,
      occurredAt⟩
  if P.storable row then some row else none

/-- An assignment to an entry of a dictionary. -/
def setEntry (entries : List ((Str × Str) × Str)) (key : Str × Str) (value : Str) :
    List ((Str × Str) × Str) :=
  if key ∈ entries.map Prod.fst then
    entries.map fun entry => if entry.1 = key then (key, value) else entry
  else entries ++ [(key, value)]

/-- One pass of the loop that collects `seen`. -/
def seeClient (groups : List Group) (seen : List ((Str × Str) × Str)) (e : QueryEventIn) :
    List ((Str × Str) × Str) :=
  match e.clientIp, tenantByGroup groups e.groupId with
  | some (c :: ip), some tenantId => setEntry seen (tenantId, c :: ip) e.groupId
  | _, _ => seen

/-- The insert into `client_entries`, or the update of the row with this tenant and address. -/
def upsertClient (now : ℤ) (clients : List ClientEntry) (entry : (Str × Str) × Str) :
    List ClientEntry :=
  if clients.any fun c => c.tenantId = entry.1.1 && c.ip = entry.1.2 then
    clients.map fun c =>
      if c.tenantId = entry.1.1 && c.ip = entry.1.2 then
        { c with lastSeen := now, groupId := some entry.2 }
      else c
  else clients ++ [⟨entry.1.1, entry.1.2, some entry.2, now⟩]

/-- `ingest_query_events`, at a time. -/
def ingestQueryEvents (P : Platform) (now : ℤ) (db : NodeDb) (node : NodeCredential)
    (events : List QueryEventIn) : Except Refusal ℕ × NodeDb :=
  if ¬(events.length ≤ 10000 ∧ events.all (·.valid)) then (.error .invalid, db)
  else
    let groupIds := (events.map (·.groupId)).dedup
    let groups := db.groups.groups.filter (·.id ∈ groupIds)
    let unknownGroups := (groupIds.filter (· ∉ groups.map (·.id))).insertionSort (· ≤ ·)
    if unknownGroups ≠ [] then (.error (.unknownGroups unknownGroups), db)
    else if ¬groups.all (nodeCanAccessGroup node) then (.error .groupForbidden, db)
    else match events.mapM (queryEvent P now groups) with
      -- the transaction is rolled back
      | none => (.error .serverError, db)
      | some rows =>
        let seen := events.foldl (seeClient groups) []
        (.ok events.length,
          { db with
            queryEvents := db.queryEvents ++ rows
            clients := seen.foldl (upsertClient now) db.clients })

inductive Request
  | routingTable
  | localZones (groupId : Str)
  | latestBundle (groupId : Str)
  | upstreamBundle (tenantId : Str)
  | queryEvents (events : List QueryEventIn)

inductive Response
  | routingTable (entries : List RoutingTableEntry)
  | localZones (records : List LocalZoneRecord)
  | bundle (bytes : List UInt8)
  | upstream (payload : BundlePayload)
  | accepted (count : ℕ)
  | refused (refusal : Refusal)
  deriving DecidableEq

/-- A result as a response. -/
def Response.ofExcept {α : Type} (f : α → Response) : Except Refusal α → Response
  | .ok a => f a
  | .error e => .refused e

/-- The response to a request of a node. -/
def respond (P : Platform) (now : ℤ) (db : NodeDb) (node : NodeCredential) : Request → Response
  | .routingTable => .routingTable (getRoutingTable node db.groups.groups)
  | .localZones groupId => .ofExcept .localZones (localZoneRecords P db node groupId)
  | .latestBundle groupId => .ofExcept .bundle (getLatestBundle db node groupId)
  | .upstreamBundle tenantId => .ofExcept .upstream (NodeApi.upstreamBundle P db node tenantId)
  | .queryEvents events => .ofExcept .accepted (ingestQueryEvents P now db node events).1

/-- The tables after a request: reads leave them alone. -/
def store (P : Platform) (now : ℤ) (db : NodeDb) (node : NodeCredential) : Request → NodeDb
  | .queryEvents events => (ingestQueryEvents P now db node events).2
  | _ => db

/-! ### The two checks -/

section Confined

variable {P : Platform} {now : ℤ} {db : NodeDb} {node : NodeCredential} {groupId tenantId : Str}
  {events : List QueryEventIn}
variable {g : Group} {seen : List ((Str × Str) × Str)} {clients : List ClientEntry}

/-- The credential names the group or its tenant. -/
def Allowed (node : NodeCredential) (g : Group) : Prop :=
  g.id ∈ node.allowedGroupIds ∨ g.tenantId ∈ node.allowedTenantIds

/-- The credential names the tenant or a group that it owns. -/
def AllowedTenant (db : NodeDb) (node : NodeCredential) (tenantId : Str) : Prop :=
  tenantId ∈ node.allowedTenantIds ∨
    ∃ g ∈ db.groups.groups, g.id ∈ node.allowedGroupIds ∧ g.tenantId = tenantId

theorem nodeCanAccessGroup_iff (hnode : node.allowAll = false) :
    nodeCanAccessGroup node g = true ↔ Allowed node g := by
  simp [nodeCanAccessGroup, Allowed, hnode]

theorem nodeCanAccessTenant_iff (hnode : node.allowAll = false) :
    nodeCanAccessTenant db node tenantId = true ↔ AllowedTenant db node tenantId := by
  rw [nodeCanAccessTenant, AllowedTenant, hnode]
  by_cases hten : tenantId ∈ node.allowedTenantIds
  · simp [hten]
  · by_cases hemp : node.allowedGroupIds = []
    · simp [hten, hemp]
    · simp [hten, hemp]

theorem Allowed.tenant (h : Allowed node g) (hg : g ∈ db.groups.groups) :
    AllowedTenant db node g.tenantId :=
  h.elim (fun hid => .inr ⟨g, hg, hid, rfl⟩) .inl

/-- **What the check of a group can do**: hand over its row, which the node may access; or
refuse, if there is no such row. -/
theorem requireGroup_cases (db : NodeDb) (node : NodeCredential) (groupId : Str) :
    (∃ g ∈ db.groups.groups, g.id = groupId ∧ nodeCanAccessGroup node g = true ∧
        requireGroup db node groupId = .ok g) ∨
      (∃ e, requireGroup db node groupId = .error e) ∧
        ∀ g ∈ db.groups.groups, g.id = groupId → nodeCanAccessGroup node g = false := by
  cases hfind : db.groups.groups.find? (·.id = groupId) with
  | none =>
    refine .inr ⟨⟨.groupNotFound, by rw [requireGroup, hfind]⟩, fun g hg hid => ?_⟩
    exact absurd hid (by simpa using find?_eq_none.mp hfind g hg)
  | some g =>
    have hg := mem_of_find?_eq_some hfind
    have hid : g.id = groupId := by simpa using find?_some hfind
    cases hacc : nodeCanAccessGroup node g with
    | true => exact .inl ⟨g, hg, hid, hacc, by simp [requireGroup, hfind, hacc]⟩
    | false =>
      refine .inr ⟨⟨.groupForbidden, by simp [requireGroup, hfind, hacc]⟩, fun x hx hxid => ?_⟩
      rw [db.groups.keyed x hx g hg (hxid.trans hid.symm), hacc]

/-! ### What is returned -/

/-- The records of one zone. -/
def zoneRecords (P : Platform) (db : NodeDb) (z : DnsZone) : List LocalZoneRecord :=
  synthesizeApexRecords db.serial db.zones z ++
    ((db.zones.recordsOf z).filter (·.enabled)).map (localZoneRecord P.caseMap z)

/-- The data of a response belongs to groups and tenants that the credential names, apart
from upstream data that has no tenant: global routes, pools, resolvers and the revision. -/
def Belongs (P : Platform) (db : NodeDb) (node : NodeCredential) : Response → Prop
  | .routingTable entries => ∀ e ∈ entries, ∃ g ∈ db.groups.groups, Allowed node g ∧
      e.groupId = g.id ∧ e.tenantId = g.tenantId ∧ g.vpnSubnet = some e.cidr
  | .localZones records => ∃ tenantId, AllowedTenant db node tenantId ∧ ∀ r ∈ records,
      ∃ z ∈ db.zones.zones, z.tenantId = some tenantId ∧ r ∈ zoneRecords P db z
  | .bundle bytes => ∃ g ∈ db.groups.groups, Allowed node g ∧
      ∃ text, db.latest g.id = some text ∧ db.bins (strip text) = some bytes
  | .upstream b => AllowedTenant db node b.tenantId ∧
      b.tenantPolicy.tenantId = b.tenantId ∧
      (∀ r ∈ b.routes, r ∈ db.upstream.routes ∧
        (r.tenantId = some b.tenantId ∨ r.tenantId = none)) ∧
      (∀ e ∈ b.pools, e.2.pool ∈ db.upstream.pools) ∧
      (∀ e ∈ b.resolvers, e.2 ∈ db.upstream.resolvers) ∧
      b.version = bundleVersion db.upstream
  | .accepted _ => True
  | .refused _ => True

theorem belongs_routingTable (hnode : node.allowAll = false) :
    Belongs P db node (.routingTable (getRoutingTable node db.groups.groups)) := by
  intro e he
  obtain ⟨g, hg, he⟩ := mem_filterMap.mp he
  obtain ⟨hacc, he⟩ := ite_none_right_eq_some.mp he
  obtain ⟨cidr, hcidr, rfl⟩ := map_eq_some_iff.mp he
  exact ⟨g, hg, (nodeCanAccessGroup_iff hnode).mp hacc, rfl, rfl, hcidr⟩

theorem belongs_localZones (hnode : node.allowAll = false) :
    Belongs P db node (.ofExcept .localZones (localZoneRecords P db node groupId)) := by
  rcases requireGroup_cases db node groupId with ⟨g, hg, -, hacc, hok⟩ | ⟨⟨e, he⟩, -⟩
  · rw [localZoneRecords, hok]
    have hten := ((nodeCanAccessGroup_iff hnode).mp hacc).tenant hg
    refine ⟨g.tenantId, hten, fun r hr => ?_⟩
    obtain ⟨z, hz, hr⟩ := mem_flatMap.mp hr
    obtain ⟨hz, hser⟩ := mem_filter.mp hz
    simp only [Bool.and_eq_true, decide_eq_true_eq] at hser
    exact ⟨z, hz, hser.1.1, hr⟩
  · rw [localZoneRecords, he]
    trivial

theorem readLatest_eq_ok {bytes : List UInt8} (h : readLatest db groupId = .ok bytes) :
    ∃ text, db.latest groupId = some text ∧ db.bins (strip text) = some bytes := by
  rw [readLatest] at h
  cases hlat : db.latest groupId with
  | none => rw [hlat] at h; simp at h
  | some text =>
    rw [hlat] at h
    dsimp only at h
    split at h
    · simp at h
    · refine ⟨text, rfl, ?_⟩
      cases hbin : db.bins (strip text) with
      | none => rw [hbin] at h; simp at h
      | some =>
        rw [hbin] at h
        exact congrArg some (Except.ok.inj h)

theorem belongs_bundle (hnode : node.allowAll = false) :
    Belongs P db node (.ofExcept .bundle (getLatestBundle db node groupId)) := by
  rcases requireGroup_cases db node groupId with ⟨g, hg, rfl, hacc, hok⟩ | ⟨⟨e, he⟩, -⟩
  · rw [getLatestBundle, hok]
    show Belongs P db node (.ofExcept .bundle (readLatest db g.id))
    cases hread : readLatest db g.id with
    | error => trivial
    | ok =>
      exact ⟨g, hg, (nodeCanAccessGroup_iff hnode).mp hacc, readLatest_eq_ok hread⟩
  · rw [getLatestBundle, he]
    trivial

theorem belongs_upstream (hnode : node.allowAll = false) :
    Belongs P db node (.ofExcept .upstream (upstreamBundle P db node tenantId)) := by
  rw [upstreamBundle]
  split
  · rename_i hacc
    cases hb : getUpstreamBundle P.collate db.upstream tenantId with
    | none => trivial
    | some =>
      obtain ⟨hver, hten, -, -, hres, hpol⟩ := assemble_eq_some hb
      refine ⟨hten ▸ (nodeCanAccessTenant_iff hnode).mp hacc, ?_, fun r hr => ?_,
        fun e he => (mem_export_pool hb he).1, fun e he => ?_, hver⟩
      · -- the policy row of the tenant, or the default one
        rw [hpol, hten]
        show ((selectPolicy db.upstream tenantId).getD (defaultPolicy tenantId)).tenantId = tenantId
        cases hfind : selectPolicy db.upstream tenantId with
        | none => rfl
        | some => simpa using find?_some hfind
      · obtain ⟨hr, hser⟩ := (mem_export_routes hb).mp hr
        rw [UpstreamRoute.servedTo, Bool.and_eq_true, Bool.or_eq_true, decide_eq_true_eq,
          decide_eq_true_eq] at hser
        exact ⟨hr, hten ▸ hser.1⟩
      · rw [hres] at he
        obtain ⟨r, hr, rfl⟩ := List.mem_map.mp he
        exact (mem_selectResolvers.mp (mem_of_mem_filter hr)).1
  · trivial

/-- **What is returned** belongs to the node. -/
theorem respond_belongs (hnode : node.allowAll = false) (req : Request) :
    Belongs P db node (respond P now db node req) := by
  cases req with
  | routingTable => exact belongs_routingTable hnode
  | localZones => exact belongs_localZones hnode
  | latestBundle => exact belongs_bundle hnode
  | upstreamBundle => exact belongs_upstream hnode
  | queryEvents events =>
    rw [respond]
    cases (ingestQueryEvents P now db node events).1 <;> trivial

/-! ### What is stored -/

/-- A row of the tables for a group that the credential names. -/
def StoredFor (db : NodeDb) (node : NodeCredential) (tenantId groupId : Option Str) : Prop :=
  ∃ g ∈ db.groups.groups, Allowed node g ∧ tenantId = some g.tenantId ∧ groupId = some g.id

/-- The new rows are for groups that the credential names; of the clients, only those of
their tenants change, and nothing else does. -/
structure StoresOwn (db : NodeDb) (node : NodeCredential) (db' : NodeDb) : Prop where
  queryEvents : ∃ rows, db'.queryEvents = db.queryEvents ++ rows ∧
    ∀ row ∈ rows, StoredFor db node row.tenantId (some row.groupId)
  clients : ∀ c ∈ db'.clients, c ∈ db.clients ∨ StoredFor db node (some c.tenantId) c.groupId
  kept : ∀ c ∈ db.clients, ¬AllowedTenant db node c.tenantId → c ∈ db'.clients
  rest : db' = { db with queryEvents := db'.queryEvents, clients := db'.clients }

theorem StoresOwn.refl (db : NodeDb) (node : NodeCredential) : StoresOwn db node db :=
  ⟨⟨[], by simp, by simp⟩, fun _ hc => .inl hc, fun _ hc _ => hc, rfl⟩

/-- The rows that a batch refers to. -/
def batchGroups (db : NodeDb) (events : List QueryEventIn) : List Group :=
  db.groups.groups.filter (·.id ∈ (events.map (·.groupId)).dedup)

theorem mem_batchGroups :
    g ∈ batchGroups db events ↔ g ∈ db.groups.groups ∧ ∃ e ∈ events, e.groupId = g.id := by
  simp [batchGroups]

theorem unknown_eq_nil_iff {ids : List Str} {groups : List Group} :
    (ids.filter (· ∉ groups.map (·.id))).insertionSort (· ≤ ·) = [] ↔
      ∀ id ∈ ids, ∃ g ∈ groups, g.id = id := by
  simp [eq_nil_iff_forall_not_mem, mem_insertionSort]

/-- **What a batch can do**: nothing; or store its rows, if each group of it has a row and
the node may access them all. -/
theorem ingestQueryEvents_cases (P : Platform) (now : ℤ) (db : NodeDb) (node : NodeCredential)
    (events : List QueryEventIn) :
    (∃ e, ingestQueryEvents P now db node events = (.error e, db)) ∨
      ∃ rows, (∀ e ∈ events, ∃ g ∈ batchGroups db events, g.id = e.groupId) ∧
        (∀ g ∈ batchGroups db events, nodeCanAccessGroup node g = true) ∧
        events.mapM (queryEvent P now (batchGroups db events)) = some rows ∧
        ingestQueryEvents P now db node events =
          (.ok events.length,
            { db with
              queryEvents := db.queryEvents ++ rows
              clients := (events.foldl (seeClient (batchGroups db events)) []).foldl
                (upsertClient now) db.clients }) := by
  simp only [ingestQueryEvents]
  rw [← batchGroups.eq_def]
  split
  · exact .inl ⟨_, rfl⟩
  split
  · exact .inl ⟨_, rfl⟩
  rename_i hkno
  split
  · exact .inl ⟨_, rfl⟩
  rename_i hacc
  split
  · exact .inl ⟨_, rfl⟩
  rename_i rows hrows
  refine .inr ⟨rows, fun e he => ?_, ?_, hrows, rfl⟩
  · exact unknown_eq_nil_iff.mp (not_not.mp hkno) _ (mem_dedup.mpr (List.mem_map_of_mem he))
  · simpa using hacc

theorem tenantByGroup_eq_some {groups : List Group}
    (h : tenantByGroup groups groupId = some tenantId) :
    ∃ g ∈ groups, g.id = groupId ∧ g.tenantId = tenantId := by
  obtain ⟨g, hfind, hten⟩ := map_eq_some_iff.mp h
  exact ⟨g, mem_of_find?_eq_some hfind, by simpa using find?_some hfind, hten⟩

theorem queryEvent_eq_some {groups : List Group} {e : QueryEventIn} {row : QueryEvent}
    (h : queryEvent P now groups e = some row) :
    row.groupId = e.groupId ∧ row.tenantId = tenantByGroup groups e.groupId := by
  simp only [queryEvent, bind_eq_bind, bind_eq_some_iff] at h
  obtain ⟨occurredAt, -, h⟩ := h
  obtain ⟨-, h⟩ := ite_none_right_eq_some.mp h
  cases h
  exact ⟨rfl, rfl⟩

theorem exists_of_mem_rows {groups : List Group} {rows : List QueryEvent}
    (h : events.mapM (queryEvent P now groups) = some rows) :
    ∀ row ∈ rows, ∃ e ∈ events, queryEvent P now groups e = some row := by
  have hrel := forall₂_of_mapM h
  clear h
  induction hrel with
  | nil => simp
  | @cons e row events rows hrow _ ih =>
    refine forall_mem_cons.mpr ⟨⟨e, mem_cons_self, hrow⟩, fun x hx => ?_⟩
    obtain ⟨e', he', hx⟩ := ih x hx
    exact ⟨e', mem_cons_of_mem _ he', hx⟩

theorem seen_spec {groups : List Group} {seen : List ((Str × Str) × Str)}
    (hseen : ∀ x ∈ seen, tenantByGroup groups x.2 = some x.1.1) :
    ∀ x ∈ events.foldl (seeClient groups) seen, tenantByGroup groups x.2 = some x.1.1 := by
  induction events generalizing seen with
  | nil => exact hseen
  | cons e rest ih =>
    refine ih ?_
    rw [seeClient.eq_def]
    split
    · rename_i c ip tenantId _ hten
      rw [setEntry]
      split
      · intro x hx
        obtain ⟨y, hy, rfl⟩ := List.mem_map.mp hx
        split
        · exact hten
        · exact hseen y hy
      · exact forall_concat hseen hten
    · exact hseen

/-- **What one upsert can do** to the clients. -/
theorem mem_upsertClient {entry : (Str × Str) × Str} :
    (∀ c ∈ upsertClient now clients entry, c ∈ clients ∨
        c.tenantId = entry.1.1 ∧ c.groupId = some entry.2) ∧
      ∀ c ∈ clients, c.tenantId ≠ entry.1.1 → c ∈ upsertClient now clients entry := by
  rw [upsertClient]
  split
  · constructor
    · intro c hc
      obtain ⟨x, hx, rfl⟩ := List.mem_map.mp hc
      split
      · rename_i heq
        simp only [Bool.and_eq_true, decide_eq_true_eq] at heq
        exact .inr ⟨heq.1, rfl⟩
      · exact .inl hx
    · intro c hc hne
      exact List.mem_map.mpr ⟨c, hc, by simp [hne]⟩
  · constructor
    · exact forall_concat (fun c hc => .inl hc) (.inr ⟨rfl, rfl⟩)
    · intro c hc _
      exact mem_append_left _ hc

theorem foldl_upsertClient (hseen : ∀ x ∈ seen, StoredFor db node (some x.1.1) (some x.2)) :
    (∀ c ∈ seen.foldl (upsertClient now) clients,
        c ∈ clients ∨ StoredFor db node (some c.tenantId) c.groupId) ∧
      ∀ c ∈ clients, ¬AllowedTenant db node c.tenantId →
        c ∈ seen.foldl (upsertClient now) clients := by
  induction seen generalizing clients with
  | nil => exact ⟨fun c hc => .inl hc, fun c hc _ => hc⟩
  | cons x rest ih =>
    obtain ⟨hx, hrest⟩ := forall_mem_cons.mp hseen
    -- what the upserts after the first one do
    obtain ⟨hnew, hkept⟩ := @ih (upsertClient now clients x) hrest
    obtain ⟨hold, hoth⟩ := @mem_upsertClient now clients x
    refine ⟨fun c hc => ?_, fun c hc hnot => hkept c (hoth c hc ?_) hnot⟩
    · rcases hnew c hc with hc | hc
      · rcases hold c hc with hc | ⟨hten, hgrp⟩
        · exact .inl hc
        · rw [hten, hgrp]
          exact .inr hx
      · exact .inr hc
    · -- a client that the upsert rewrites is of an allowed tenant
      obtain ⟨g, hg, hald, hten, -⟩ := hx
      rintro heq
      rw [heq, some_inj.mp hten] at hnot
      exact hnot (hald.tenant hg)

/-- **Events are stored only for groups of the node.** -/
theorem ingestQueryEvents_stored (hnode : node.allowAll = false) :
    StoresOwn db node (ingestQueryEvents P now db node events).2 := by
  rcases ingestQueryEvents_cases P now db node events with
    ⟨e, he⟩ | ⟨rows, hkno, hacc, hrows, heq⟩
  · rw [he]
    exact StoresOwn.refl db node
  rw [heq]
  -- a looked-up tenant is that of a group of the node
  have hsto : ∀ groupId tenantId, tenantByGroup (batchGroups db events) groupId = some tenantId →
      StoredFor db node (some tenantId) (some groupId) := by
    intro groupId tenantId h
    obtain ⟨g, hg, rfl, rfl⟩ := tenantByGroup_eq_some h
    exact ⟨g, (mem_batchGroups.mp hg).1, (nodeCanAccessGroup_iff hnode).mp (hacc g hg), rfl, rfl⟩
  have hseen : ∀ x ∈ events.foldl (seeClient (batchGroups db events)) [],
      StoredFor db node (some x.1.1) (some x.2) :=
    fun x hx => hsto x.2 x.1.1 (seen_spec (by simp) x hx)
  obtain ⟨hcls, hkept⟩ := foldl_upsertClient hseen
  refine ⟨⟨rows, rfl, fun row hrow => ?_⟩, hcls, hkept, rfl⟩
  obtain ⟨e, he, hrow⟩ := exists_of_mem_rows hrows row hrow
  obtain ⟨hgrp, hten⟩ := queryEvent_eq_some hrow
  obtain ⟨g, hg, hid⟩ := hkno e he
  have hsome : (tenantByGroup (batchGroups db events) e.groupId).isSome := by
    rw [tenantByGroup, isSome_map, find?_isSome]
    exact ⟨g, hg, by simpa using hid⟩
  obtain ⟨tenantId, heq⟩ := isSome_iff_exists.mp hsome
  rw [hgrp, hten, heq]
  exact hsto _ _ heq

/-! ### What a response depends on -/

/-- Two states agree on what the credential gives access to: the rows of its groups and
what their pointers name, the zones, routes and policies of its tenants, and the upstream
data that has no tenant, apart from the revision. -/
structure SameView (node : NodeCredential) (s t : NodeDb) : Prop where
  groups : s.groups.groups.filter (nodeCanAccessGroup node) =
    t.groups.groups.filter (nodeCanAccessGroup node)
  latest : ∀ g ∈ s.groups.groups, Allowed node g → s.latest g.id = t.latest g.id ∧
    ∀ text ∈ s.latest g.id, s.bins (strip text) = t.bins (strip text)
  zones : ∀ tenantId, AllowedTenant s node tenantId →
    s.zones.zones.filter (·.tenantId = some tenantId) =
      t.zones.zones.filter (·.tenantId = some tenantId)
  records : ∀ z ∈ s.zones.zones, ∀ tenantId, z.tenantId = some tenantId →
    AllowedTenant s node tenantId →
      s.serial z = t.serial z ∧ s.zones.recordsOf z = t.zones.recordsOf z
  routes : ∀ tenantId, AllowedTenant s node tenantId →
    s.upstream.routes.filter (fun r => r.tenantId = some tenantId || r.tenantId = none) =
      t.upstream.routes.filter (fun r => r.tenantId = some tenantId || r.tenantId = none)
  policies : ∀ tenantId, AllowedTenant s node tenantId →
    s.upstream.policies.filter (·.tenantId = tenantId) =
      t.upstream.policies.filter (·.tenantId = tenantId)
  pools : s.upstream.pools = t.upstream.pools
  members : s.upstream.members = t.upstream.members
  resolvers : s.upstream.resolvers = t.upstream.resolvers

/-- The groups that a request names. -/
def Request.groupIds : Request → List Str
  | .localZones groupId => [groupId]
  | .latestBundle groupId => [groupId]
  | .queryEvents events => events.map (·.groupId)
  | .routingTable => []
  | .upstreamBundle _ => []

/-- It names a group that the node has no access to, whether it exists or not. -/
def NamesOther (db : NodeDb) (node : NodeCredential) (req : Request) : Prop :=
  ∃ groupId ∈ req.groupIds, ∀ g ∈ db.groups.groups, g.id = groupId → ¬Allowed node g

/-- The same response, but for the revision in an upstream bundle and the reason for
refusing a request that names a group of others. -/
def SameResponse (db : NodeDb) (node : NodeCredential) (req : Request) (a b : Response) : Prop :=
  a = b ∨ (∃ p version, a = .upstream p ∧ b = .upstream { p with version }) ∨
    NamesOther db node req ∧ ∃ e e', a = .refused e ∧ b = .refused e'

section View

variable {s t : NodeDb}

theorem SameView.mem_groups (h : SameView node s t) {g : Group}
    (hacc : nodeCanAccessGroup node g = true) : g ∈ s.groups.groups ↔ g ∈ t.groups.groups := by
  have hmem : ∀ db : NodeDb, g ∈ db.groups.groups ↔
      g ∈ db.groups.groups.filter (nodeCanAccessGroup node) := fun db => by simp [hacc]
  rw [hmem s, hmem t, h.groups]

theorem SameView.allowedTenant (hnode : node.allowAll = false) (h : SameView node s t) :
    AllowedTenant s node tenantId ↔ AllowedTenant t node tenantId := by
  have hacc : ∀ g : Group, g.id ∈ node.allowedGroupIds → nodeCanAccessGroup node g = true :=
    fun g hid => (nodeCanAccessGroup_iff hnode).mpr (.inl hid)
  refine or_congr_right ⟨?_, ?_⟩
  · rintro ⟨g, hg, hid, hten⟩
    exact ⟨g, (h.mem_groups (hacc g hid)).mp hg, hid, hten⟩
  · rintro ⟨g, hg, hid, hten⟩
    exact ⟨g, (h.mem_groups (hacc g hid)).mpr hg, hid, hten⟩

theorem SameView.requireGroup (hnode : node.allowAll = false) (h : SameView node s t)
    (groupId : Str) :
    (∃ g ∈ s.groups.groups, g.id = groupId ∧ Allowed node g ∧
        NodeApi.requireGroup s node groupId = .ok g ∧
        NodeApi.requireGroup t node groupId = .ok g) ∨
      (∀ g ∈ s.groups.groups, g.id = groupId → ¬Allowed node g) ∧
        ∃ e e', NodeApi.requireGroup s node groupId = .error e ∧
          NodeApi.requireGroup t node groupId = .error e' := by
  rcases requireGroup_cases s node groupId with ⟨g, hg, hid, hacc, hok⟩ | ⟨⟨e, he⟩, hnone⟩
  · have hald := (nodeCanAccessGroup_iff hnode).mp hacc
    refine .inl ⟨g, hg, hid, hald, hok, ?_⟩
    have hgt := (h.mem_groups hacc).mp hg
    rcases requireGroup_cases t node groupId with ⟨g', hg', hid', -, hok'⟩ | ⟨-, hnone⟩
    · rw [hok', t.groups.keyed g' hg' g hgt (hid'.trans hid.symm)]
    · simp [hnone g hgt hid] at hacc
  · refine .inr ⟨fun g hg hid hald => ?_, e, ?_⟩
    · exact absurd ((nodeCanAccessGroup_iff hnode).mpr hald) (by simp [hnone g hg hid])
    · rcases requireGroup_cases t node groupId with ⟨g, hg, hid, hacc, -⟩ | ⟨⟨e', he'⟩, -⟩
      · exact absurd hacc (by simp [hnone g ((h.mem_groups hacc).mpr hg) hid])
      · exact ⟨e', he, he'⟩

theorem SameView.routingTable (h : SameView node s t) :
    getRoutingTable node s.groups.groups = getRoutingTable node t.groups.groups := by
  have hfil : ∀ rows : List Group, getRoutingTable node rows =
      (rows.filter (nodeCanAccessGroup node)).filterMap fun g =>
        g.vpnSubnet.map fun cidr => ⟨cidr, g.id, g.tenantId⟩ := by
    intro rows
    rw [filterMap_filter]
    rfl
  rw [hfil, hfil, h.groups]

theorem SameView.zoneRecords (h : SameView node s t) (hten : AllowedTenant s node tenantId) :
    getLocalZoneRecords P.caseMap s.serial s.zones tenantId =
      getLocalZoneRecords P.caseMap t.serial t.zones tenantId := by
  have hser : s.zones.servedZones tenantId = t.zones.servedZones tenantId := by
    have hspl : ∀ db : ZoneDb, db.servedZones tenantId =
        (db.zones.filter (·.tenantId = some tenantId)).filter
          fun z => z.zoneType = .«local» && z.enabled := by
      intro db
      rw [List.filter_filter, ZoneDb.servedZones]
      congr 1
      funext z
      rw [Bool.and_assoc, Bool.and_comm]
    rw [hspl, hspl, h.zones tenantId hten]
  rw [getLocalZoneRecords, getLocalZoneRecords, ← hser]
  refine flatMap_congr fun z hz => ?_
  obtain ⟨hz, hzone⟩ := mem_filter.mp hz
  simp only [Bool.and_eq_true, decide_eq_true_eq] at hzone
  obtain ⟨hseri, hrec⟩ := h.records z hz tenantId hzone.1.1 hten
  simp only [Zones.zoneRecords, synthesizeApexRecords, hseri, hrec]

theorem SameView.readLatest (h : SameView node s t) {g : Group} (hg : g ∈ s.groups.groups)
    (hald : Allowed node g) : NodeApi.readLatest s g.id = NodeApi.readLatest t g.id := by
  obtain ⟨hlat, hbins⟩ := h.latest g hg hald
  rw [NodeApi.readLatest, NodeApi.readLatest, ← hlat]
  cases htext : s.latest g.id with
  | none => rfl
  | some text => simp only [hbins text htext]

theorem SameView.readAll (h : SameView node s t) (hten : AllowedTenant s node tenantId) :
    readAll P.collate t.upstream tenantId =
      { readAll P.collate s.upstream tenantId with version := bundleVersion t.upstream } := by
  have hrts : selectRoutes P.collate s.upstream tenantId =
      selectRoutes P.collate t.upstream tenantId := by
    -- the view of a tenant's routes, before the disabled ones are dropped
    have hspl : ∀ db : UpstreamDb, db.routes.filter (·.servedTo tenantId) =
        (db.routes.filter fun r => r.tenantId = some tenantId || r.tenantId = none).filter
          (·.enabled) := by
      intro db
      rw [List.filter_filter]
      congr 1
      funext r
      rw [Bool.and_comm]
      rfl
    rw [selectRoutes, selectRoutes, hspl, hspl, h.routes tenantId hten]
  have hpol : selectPolicy s.upstream tenantId = selectPolicy t.upstream tenantId := by
    rw [selectPolicy, selectPolicy, ← head?_filter, ← head?_filter, h.policies tenantId hten]
  have hpoo : selectPools s.upstream = selectPools t.upstream := by
    funext ids
    rw [selectPools, selectPools, h.pools]
  have hmem : selectMembers s.upstream = selectMembers t.upstream := by
    funext ids
    rw [selectMembers, selectMembers, h.members]
  have hres : selectResolvers s.upstream = selectResolvers t.upstream := by
    funext ids
    rw [selectResolvers, selectResolvers, h.resolvers]
  simp only [Upstream.readAll, hrts, hpol, hpoo, hmem, hres]

theorem assemble_version {reads : Reads} {version : ℕ} :
    assemble tenantId { reads with version } =
      (assemble tenantId reads).map fun b => { b with version } := by
  rw [assemble, assemble]
  split <;> rfl

theorem SameView.upstreamBundle (hnode : node.allowAll = false) (h : SameView node s t) :
    NodeApi.upstreamBundle P s node tenantId = NodeApi.upstreamBundle P t node tenantId ∨
      ∃ p version, NodeApi.upstreamBundle P s node tenantId = .ok p ∧
        NodeApi.upstreamBundle P t node tenantId = .ok { p with version } := by
  have hacc : nodeCanAccessTenant s node tenantId = nodeCanAccessTenant t node tenantId := by
    rw [Bool.eq_iff_iff, nodeCanAccessTenant_iff hnode, nodeCanAccessTenant_iff hnode]
    exact h.allowedTenant hnode
  rw [NodeApi.upstreamBundle, NodeApi.upstreamBundle, ← hacc]
  split
  · rename_i hten
    have hread := h.readAll (P := P) ((nodeCanAccessTenant_iff hnode).mp hten)
    have hexp : getUpstreamBundle P.collate t.upstream tenantId =
        (getUpstreamBundle P.collate s.upstream tenantId).map fun b =>
          { b with version := bundleVersion t.upstream } := by
      rw [getUpstreamBundle, hread]
      exact assemble_version
    rw [hexp]
    cases getUpstreamBundle P.collate s.upstream tenantId with
    | none => exact .inl rfl
    | some p => exact .inr ⟨p, _, rfl, rfl⟩
  · exact .inl rfl

theorem ingestQueryEvents_refused {db : NodeDb} {groupId : Str}
    (hmem : groupId ∈ events.map (·.groupId))
    (hnone : ∀ g ∈ db.groups.groups, g.id = groupId → nodeCanAccessGroup node g = false) :
    ∃ e, (ingestQueryEvents P now db node events).1 = .error e := by
  rcases ingestQueryEvents_cases P now db node events with
    ⟨e, he⟩ | ⟨-, hkno, hacc, -, -⟩
  · exact ⟨e, by rw [he]⟩
  · obtain ⟨e, he, rfl⟩ := List.mem_map.mp hmem
    obtain ⟨g, hg, hid⟩ := hkno e he
    exact absurd (hacc g hg) (by simp [hnone g (mem_batchGroups.mp hg).1 hid])

theorem ingestQueryEvents_congr (h : batchGroups s events = batchGroups t events) :
    (ingestQueryEvents P now s node events).1 = (ingestQueryEvents P now t node events).1 := by
  simp only [ingestQueryEvents]
  rw [← batchGroups.eq_def, ← batchGroups.eq_def, h]
  repeat' split
  all_goals rfl

theorem SameView.batchGroups (hnode : node.allowAll = false) (h : SameView node s t)
    (hall : ∀ groupId ∈ events.map (·.groupId),
      ∃ g ∈ s.groups.groups, g.id = groupId ∧ Allowed node g) :
    NodeApi.batchGroups s events = NodeApi.batchGroups t events := by
  -- all rows that the batch refers to are visible, in both states
  have hspl : ∀ db : NodeDb, (∀ groupId ∈ events.map (·.groupId), ∃ g ∈ db.groups.groups,
      g.id = groupId ∧ nodeCanAccessGroup node g = true) → NodeApi.batchGroups db events =
        (db.groups.groups.filter (nodeCanAccessGroup node)).filter
          (·.id ∈ (events.map (·.groupId)).dedup) := by
    intro db hdb
    rw [List.filter_filter, NodeApi.batchGroups]
    refine filter_congr fun x hx => ?_
    by_cases hid : x.id ∈ events.map (·.groupId)
    · obtain ⟨g, hg, heq, hacc⟩ := hdb x.id hid
      rw [db.groups.keyed x hx g hg heq.symm, hacc, Bool.and_true]
    · simp only [mem_dedup, hid, decide_false, Bool.false_and]
  have hs : ∀ groupId ∈ events.map (·.groupId), ∃ g ∈ s.groups.groups,
      g.id = groupId ∧ nodeCanAccessGroup node g = true := fun groupId hmem => by
    obtain ⟨g, hg, hid, hald⟩ := hall groupId hmem
    exact ⟨g, hg, hid, (nodeCanAccessGroup_iff hnode).mpr hald⟩
  have ht : ∀ groupId ∈ events.map (·.groupId), ∃ g ∈ t.groups.groups,
      g.id = groupId ∧ nodeCanAccessGroup node g = true := fun groupId hmem => by
    obtain ⟨g, hg, hid, hacc⟩ := hs groupId hmem
    exact ⟨g, (h.mem_groups hacc).mp hg, hid, hacc⟩
  rw [hspl s hs, hspl t ht, h.groups]

/-- **What a response depends on.** -/
theorem respond_sameView (hnode : node.allowAll = false) (h : SameView node s t) (req : Request) :
    SameResponse s node req (respond P now s node req) (respond P now t node req) := by
  -- each endpoint reads rows of groups and tenants that the node may see
  cases req with
  | routingTable => exact .inl (congrArg Response.routingTable h.routingTable)
  | localZones groupId =>
    rcases h.requireGroup hnode groupId with
      ⟨g, hg, -, hald, hs, ht⟩ | ⟨hnone, e, e', hs, ht⟩
    · left
      simp only [respond, localZoneRecords, hs, ht, Except.map]
      rw [h.zoneRecords (hald.tenant hg)]
    · refine .inr (.inr ⟨⟨groupId, mem_cons_self, hnone⟩, e, e', ?_, ?_⟩)
      · simp only [respond, localZoneRecords, hs, Except.map, Response.ofExcept]
      · simp only [respond, localZoneRecords, ht, Except.map, Response.ofExcept]
  | latestBundle groupId =>
    rcases h.requireGroup hnode groupId with
      ⟨g, hg, rfl, hald, hs, ht⟩ | ⟨hnone, e, e', hs, ht⟩
    · left
      simp only [respond, getLatestBundle, hs, ht, Except.bind]
      rw [h.readLatest hg hald]
    · refine .inr (.inr ⟨⟨groupId, mem_cons_self, hnone⟩, e, e', ?_, ?_⟩)
      · simp only [respond, getLatestBundle, hs, Except.bind, Response.ofExcept]
      · simp only [respond, getLatestBundle, ht, Except.bind, Response.ofExcept]
  | upstreamBundle tenantId =>
    rcases @SameView.upstreamBundle P node tenantId s t hnode h with heq | ⟨p, version, hs, ht⟩
    · left
      rw [respond, heq, respond]
    · exact .inr (.inl ⟨p, version, by rw [respond, hs]; rfl, by rw [respond, ht]; rfl⟩)
  | queryEvents events =>
    by_cases hall : ∀ groupId ∈ events.map (·.groupId),
        ∃ g ∈ s.groups.groups, g.id = groupId ∧ Allowed node g
    · left
      rw [respond, ingestQueryEvents_congr (h.batchGroups hnode hall), respond]
    · push Not at hall
      obtain ⟨groupId, hmem, hnone⟩ := hall
      have hs : ∀ g ∈ s.groups.groups, g.id = groupId → nodeCanAccessGroup node g = false :=
        fun g hg hid => eq_false_of_ne_true fun hacc =>
          hnone g hg hid ((nodeCanAccessGroup_iff hnode).mp hacc)
      have ht : ∀ g ∈ t.groups.groups, g.id = groupId → nodeCanAccessGroup node g = false :=
        fun g hg hid => eq_false_of_ne_true fun hacc =>
          absurd hacc (by simp [hs g ((h.mem_groups hacc).mpr hg) hid])
      obtain ⟨e, he⟩ := @ingestQueryEvents_refused P now node events s groupId hmem hs
      obtain ⟨e', he'⟩ := @ingestQueryEvents_refused P now node events t groupId hmem ht
      refine .inr (.inr ⟨⟨groupId, hmem, hnone⟩, e, e', ?_, ?_⟩)
      · rw [respond, he]; rfl
      · rw [respond, he']; rfl

end View

/-- **Nodes are confined.**  For every credential without `allow_all`, every state and every
request: what is returned belongs to its groups and tenants or to no tenant, what is stored
is for its groups, and a state with other data of others gives the same response, up to the
shared revision and the reason for refusing a group of others. -/
theorem node_confined (P : Platform) (now : ℤ) {node : NodeCredential}
    (hnode : node.allowAll = false) (db : NodeDb) (req : Request) :
    Belongs P db node (respond P now db node req) ∧ StoresOwn db node (store P now db node req) ∧
      ∀ db', SameView node db db' →
        SameResponse db node req (respond P now db node req) (respond P now db' node req) := by
  refine ⟨respond_belongs hnode req, ?_, fun db' h => respond_sameView hnode h req⟩
  cases req with
  | queryEvents => exact ingestQueryEvents_stored hnode
  | routingTable | localZones | latestBundle | upstreamBundle => exact StoresOwn.refl db node

end Confined

/-! A node for one group, next to another tenant. -/

def samplePlatform : Platform := ⟨fun a b => a ≤ b, .ascii, some, fun _ => true⟩

def branchNode : NodeCredential := ⟨false, ["g1"], []⟩

def branchGroup : Group := ⟨"g1", "acme", "branch", none⟩

def otherGroup : Group := ⟨"g2", "globex", "staff", none⟩

/-- One pool with a route of `acme` and a route for all tenants. -/
def branchUpstream : UpstreamDb where
  tenants := ["acme", "globex"]
  resolvers := []
  pools := [⟨"p1", "main", .roundRobin, 30, 2000, "example.com", .soa, 3, 2, 1,
    none⟩]
  members := []
  routes := [
    ⟨"r1", "all", some "acme", none, .default, none, "p1", none, none, 100,
      true⟩,
    ⟨"r0", "global", none, none, .default, none, "p1", none, none, 200, true⟩]
  policies := []
  revision := some 1

def branchDb (groups : List Group) (hkeyed : Keyed (·.id) groups) (upstream : UpstreamDb) :
    NodeDb where
  groups := ⟨["acme", "globex"], groups, hkeyed⟩
  zones := .fresh ["acme", "globex"]
  serial _ := 0
  upstream := upstream
  latest _ := none
  bins _ := none
  queryEvents := []
  clients := []

def branchBefore : NodeDb := branchDb [branchGroup] (by simp [Keyed]) branchUpstream

theorem keyed_both : Keyed (·.id) [branchGroup, otherGroup] := by
  unfold Keyed
  decide

def branchAfter (upstream : UpstreamDb) : NodeDb :=
  branchDb [branchGroup, otherGroup] keyed_both upstream

def branchEvent : QueryEventIn :=
  ⟨"g1", "example.com", "allow", some "10.8.0.7", none, none, none, none,
    none, none, none, none⟩

theorem node_confined_branch :
    ((store samplePlatform 0 branchBefore branchNode (.queryEvents [branchEvent])).queryEvents.map
      (·.tenantId)) = [some "acme".toList] ∧
    StoresOwn branchBefore branchNode
      (store samplePlatform 0 branchBefore branchNode (.queryEvents [branchEvent])) :=
  ⟨by decide +kernel, (node_confined samplePlatform 0 rfl branchBefore _).2.1⟩

theorem allowedTenant_branch {tenantId : Str} (h : AllowedTenant branchBefore branchNode tenantId) :
    tenantId = "acme" := by
  rcases h with h | ⟨g, hg, -, rfl⟩
  · simp [branchNode] at h
  · rw [mem_singleton.mp hg]
    rfl

/-- `globex` gets a group and a route.  The node of `acme` sees the revision go up, and the
new group refused for another reason; its bundle has a route of no tenant all along. -/
theorem revision_shared :
    ∃ upstream, branchUpstream.apply (.createRoute "globex" "r2"
        { name := "all", matchType := .default, poolId := "p1" }) = some upstream ∧
      SameView branchNode branchBefore (branchAfter upstream) ∧
      respond samplePlatform 0 branchBefore branchNode (.upstreamBundle "acme") ≠
        respond samplePlatform 0 (branchAfter upstream) branchNode (.upstreamBundle "acme") ∧
      respond samplePlatform 0 branchBefore branchNode (.localZones "g2") ≠
        respond samplePlatform 0 (branchAfter upstream) branchNode (.localZones "g2") ∧
      ∃ p, respond samplePlatform 0 branchBefore branchNode (.upstreamBundle "acme") =
        .upstream p ∧ ∃ r ∈ p.routes, r.tenantId = none := by
  obtain ⟨upstream, happ, hrts, hpol, hpoo, hmem, hres, hver, href⟩ :
      ∃ upstream, branchUpstream.apply (.createRoute "globex" "r2"
        { name := "all", matchType := .default, poolId := "p1" }) = some upstream ∧
      branchUpstream.routes.filter
          (fun r => r.tenantId = some "acme".toList || r.tenantId = none) =
        upstream.routes.filter (fun r => r.tenantId = some "acme".toList || r.tenantId = none) ∧
      branchUpstream.policies = upstream.policies ∧ branchUpstream.pools = upstream.pools ∧
      branchUpstream.members = upstream.members ∧ branchUpstream.resolvers = upstream.resolvers ∧
      respond samplePlatform 0 branchBefore branchNode (.upstreamBundle "acme") ≠
        respond samplePlatform 0 (branchAfter upstream) branchNode (.upstreamBundle "acme") ∧
      respond samplePlatform 0 branchBefore branchNode (.localZones "g2") ≠
        respond samplePlatform 0 (branchAfter upstream) branchNode (.localZones "g2") := by
    decide +kernel
  refine ⟨upstream, happ, ?_, hver, href, ?_⟩
  · exact {
      groups := show [branchGroup].filter (nodeCanAccessGroup branchNode) =
        [branchGroup, otherGroup].filter (nodeCanAccessGroup branchNode) by decide +kernel
      latest := fun _ _ _ => ⟨rfl, fun _ _ => rfl⟩
      zones := fun _ _ => rfl
      records := fun _ _ _ _ _ => ⟨rfl, rfl⟩
      routes := fun tenantId h => allowedTenant_branch h ▸ hrts
      policies := fun tenantId _ => congrArg (List.filter _) hpol
      pools := hpoo
      members := hmem
      resolvers := hres }
  · have hrt : (match respond samplePlatform 0 branchBefore branchNode
        (.upstreamBundle "acme") with
      | .upstream p => p.routes.any (·.tenantId = none)
      | _ => false) = true := by decide +kernel
    split at hrt
    · rename_i p hp
      simp only [List.any_eq_true, decide_eq_true_eq] at hrt
      exact ⟨p, hp, hrt⟩
    · simp at hrt

end Control.NodeApi
