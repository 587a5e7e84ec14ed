/-
From client addresses to groups: the group endpoints and `/routing-table` of
`api/routers.py`, and `refresh_routes` and `match_route` of `router.rs`.

An operator gives a group a subnet; the nodes fetch the subnets of the groups
they serve and take, for each client, the most specific one that contains its
address.  Nothing keeps the subnets of different tenants apart.

* `Request.frame` — what a user of one tenant leaves as it was;
* `route_kept` — when the route of an address stays with a group of another
  tenant, whatever the operators of the first do and whenever the node
  refreshes;
* `narrower_subnet_captures` — an operator routes an address of another tenant to
  a group of their own.
-/
import MantisDns.Dns
import MantisDns.LongestMatch
import MantisDns.ZoneApi

open Text Table List Option

namespace Control.Routing

/-! ### Groups -/

structure Group where
  id : Str
  tenantId : Str
  name : Str
  vpnSubnet : Option Str
  deriving DecidableEq

/-- The tables, with the primary key of `groups`. -/
structure GroupDb where
  tenants : List Str
  groups : List Group
  keyed : Keyed (·.id) groups

/-- The unique constraint on `tenant_id` and `name`. -/
def GroupDb.nameTaken (db : GroupDb) (g : Group) : Bool :=
  db.groups.any fun x => x.id ≠ g.id && x.tenantId = g.tenantId && x.name = g.name

/-- The text of `ipaddress.ip_network(cidr, strict=True)`. -/
abbrev IpNetwork := Str → Option Str

/-- `get_group_or_403`. -/
def getGroup (db : GroupDb) (u : User) (groupId : Str) : Option Group :=
  (db.groups.find? (·.id = groupId)).filter fun g => checkTenantAccess u g.tenantId

structure GroupCreate where
  name : Str
  vpnSubnet : Option Str := none

/-- `_validate_cidr(payload.vpn_subnet) if payload.vpn_subnet else None`. -/
def GroupCreate.subnet (ipNetwork : IpNetwork) (p : GroupCreate) : Option (Option Str) :=
  match p.vpnSubnet with
  | none => some none
  | some [] => some none
  | some cidr => (ipNetwork cidr).map some

/-- `create_group`. -/
def createGroup (ipNetwork : IpNetwork) (db : GroupDb) (u : User) (tenantId id : Str)
    (p : GroupCreate) : Option GroupDb :=
  match p.subnet ipNetwork with
  | none => none
  | some vpnSubnet =>
    let g : Group := ⟨id, tenantId, p.name, vpnSubnet⟩
    if h : (u.hasRole .operator ∧ checkTenantAccess u tenantId ∧ tenantId ∈ db.tenants ∧
        ¬ db.nameTaken g) ∧ id ∉ db.groups.map (·.id) then
      some { db with groups := db.groups ++ [g], keyed := db.keyed.concat h.2 }
    else none

/-- A row rewritten in place. -/
def GroupDb.update (db : GroupDb) (g : Group) : GroupDb :=
  { db with groups := replaceRow (·.id) g.id g db.groups, keyed := db.keyed.replaceRow rfl }

/-- `set_group_subnet`. -/
def setGroupSubnet (ipNetwork : IpNetwork) (db : GroupDb) (u : User) (groupId vpnSubnet : Str) :
    Option GroupDb := do
  let g ← getGroup db u groupId
  let cidr ← ipNetwork vpnSubnet
  if u.hasRole .operator then some (db.update { g with vpnSubnet := some cidr }) else none

/-- `rename_group`. -/
def renameGroup (db : GroupDb) (u : User) (groupId name : Str) : Option GroupDb := do
  let g ← getGroup db u groupId
  if u.hasRole .operator ∧ ¬ db.nameTaken { g with name } then some (db.update { g with name })
  else none

/-- `delete_group`. -/
def deleteGroup (db : GroupDb) (u : User) (groupId : Str) : Option GroupDb :=
  if u.hasRole .admin ∧ (getGroup db u groupId).isSome then
    some { db with
      groups := db.groups.filter (·.id ≠ groupId)
      keyed := db.keyed.sublist filter_sublist }
  else none

inductive Request
  | createGroup (tenantId id : Str) (p : GroupCreate)
  | setGroupSubnet (groupId vpnSubnet : Str)
  | renameGroup (groupId name : Str)
  | deleteGroup (groupId : Str)

/-- The tables after an accepted request of a user. -/
def GroupDb.apply (ipNetwork : IpNetwork) (db : GroupDb) (u : User) : Request → Option GroupDb
  | .createGroup tenantId id p => Routing.createGroup ipNetwork db u tenantId id p
  | .setGroupSubnet groupId vpnSubnet => Routing.setGroupSubnet ipNetwork db u groupId vpnSubnet
  | .renameGroup groupId name => Routing.renameGroup db u groupId name
  | .deleteGroup groupId => Routing.deleteGroup db u groupId

/-! ### What the users of one tenant leave alone -/

/-- A user restricted to a tenant. -/
structure Restricted (u : User) (tenantId : Str) : Prop where
  role : u.role ≠ .admin
  tenant : u.tenantId = some tenantId

variable {u : User} {tenantId : Str} {db : GroupDb} {g : Group}

theorem Restricted.eq_of_access {other : Str} (h : Restricted u tenantId)
    (hacc : checkTenantAccess u other = true) : other = tenantId := by
  rw [checkTenantAccess, h.tenant, Bool.or_eq_true, decide_eq_true_eq] at hacc
  exact (of_decide_eq_true (hacc.resolve_left h.role)).symm

/-- The groups of all other tenants. -/
def GroupDb.others (db : GroupDb) (tenantId : Str) : List Group :=
  db.groups.filter (·.tenantId ≠ tenantId)

theorem getGroup_spec {groupId : Str} (h : getGroup db u groupId = some g) :
    g ∈ db.groups ∧ checkTenantAccess u g.tenantId = true := by
  obtain ⟨hfind, hacc⟩ := filter_eq_some_iff.mp h
  exact ⟨mem_of_find?_eq_some hfind, hacc⟩

theorem GroupDb.others_update {row : Group} (hg : g ∈ db.groups) (hid : row.id = g.id)
    (hten : row.tenantId = g.tenantId) (hown : g.tenantId = tenantId) :
    (db.update row).others tenantId = db.others tenantId := by
  refine filter_replaceRow (fun x hx hxid => ?_) ?_
  · rw [db.keyed x hx g hg (hxid.trans hid)]
    simpa using hown
  · simpa [hten] using hown

/-- **What a user of one tenant leaves as it was**: the groups of all others. -/
theorem Request.frame {ipNetwork : IpNetwork} {db' : GroupDb} (hu : Restricted u tenantId)
    {req : Request} (h : db.apply ipNetwork u req = some db') :
    db'.others tenantId = db.others tenantId := by
  cases req with
  | createGroup =>
    rw [GroupDb.apply, Routing.createGroup] at h
    split at h
    · simp at h
    · dsimp only at h
      split at h
      · rename_i hcks
        cases h
        have hoth := hu.eq_of_access hcks.1.2.1
        simp [GroupDb.others, filter_append, hoth]
      · simp at h
  | setGroupSubnet =>
    simp only [GroupDb.apply, Routing.setGroupSubnet, bind_eq_bind, bind_eq_some_iff] at h
    obtain ⟨g, hget, cidr, -, h⟩ := h
    obtain ⟨hg, hacc⟩ := getGroup_spec hget
    obtain ⟨-, h⟩ := ite_none_right_eq_some.mp h
    cases h
    exact GroupDb.others_update hg rfl rfl (hu.eq_of_access hacc)
  | renameGroup =>
    simp only [GroupDb.apply, Routing.renameGroup, bind_eq_bind, bind_eq_some_iff] at h
    obtain ⟨g, hget, h⟩ := h
    obtain ⟨hg, hacc⟩ := getGroup_spec hget
    obtain ⟨-, h⟩ := ite_none_right_eq_some.mp h
    cases h
    exact GroupDb.others_update hg rfl rfl (hu.eq_of_access hacc)
  | deleteGroup =>
    rw [GroupDb.apply, Routing.deleteGroup] at h
    obtain ⟨hcks, h⟩ := ite_none_right_eq_some.mp h
    -- only an admin deletes, and an admin is not restricted
    have hrole : u.role = .admin := by
      have hrank := hcks.1
      cases hr : u.role <;> simp [User.hasRole, Role.rank, hr] at hrank ⊢
    exact absurd hrole hu.role

/-! ### The routing table -/

/-- What a node may see. -/
structure NodeCredential where
  allowAll : Bool
  allowedGroupIds : List Str
  allowedTenantIds : List Str

/-- `node_can_access_group`. -/
def nodeCanAccessGroup (node : NodeCredential) (g : Group) : Bool :=
  node.allowAll || g.id ∈ node.allowedGroupIds || g.tenantId ∈ node.allowedTenantIds

/-- `schemas.RoutingTableEntry`. -/
structure RoutingTableEntry where
  cidr : Str
  groupId : Str
  tenantId : Str
  deriving DecidableEq

/-- `get_routing_table` on the rows of `groups`, which come in any order. -/
def getRoutingTable (node : NodeCredential) (rows : List Group) : List RoutingTableEntry :=
  rows.filterMap fun g =>
    if nodeCanAccessGroup node g then g.vpnSubnet.map fun cidr => ⟨cidr, g.id, g.tenantId⟩
    else none

end Control.Routing

namespace Node.Routing

open Control.Routing Dns LongestMatch

/-! ### Routes of a node -/

/-- `IpNet`. -/
inductive IpNet
  | v4 (net : Net 32)
  | v6 (net : Net 128)
  deriving DecidableEq

/-- `IpNet::contains`. -/
def IpNet.contains : IpNet → IpAddr → Bool
  | .v4 net, .v4 ip => net.contains ip.toBitVec
  | .v6 net, .v6 ip => net.contains ip
  | .v4 _, .v6 _ => false
  | .v6 _, .v4 _ => false

/-- `IpNet::prefix_len`. -/
def IpNet.len : IpNet → ℕ
  | .v4 net => net.len
  | .v6 net => net.len

/-- All addresses of a subnet lie in the other. -/
def IpNet.Within (m n : IpNet) : Prop := ∀ ip, m.contains ip = true → n.contains ip = true

variable {ip : IpAddr} {parse : Str → Option IpNet} {node : NodeCredential} {rows : List Group}

theorem IpNet.len_lt {m n : IpNet} (hm : m.contains ip = true) (hn : n.contains ip = true)
    (hout : ¬m.Within n) : m.len < n.len := by
  by_contra hle
  refine hout fun other hoth => ?_
  -- only networks and addresses of one family meet
  cases m with
  | v4 =>
    cases n with
    | v6 => cases ip <;> simp [IpNet.contains] at hm hn
    | v4 =>
      cases ip with
      | v6 => simp [IpNet.contains] at hm
      | v4 =>
        cases other with
        | v6 => simp [IpNet.contains] at hoth
        | v4 => exact Net.contains_of_le (not_lt.mp hle) hn hm hoth
  | v6 =>
    cases n with
    | v4 => cases ip <;> simp [IpNet.contains] at hm hn
    | v6 =>
      cases ip with
      | v4 => simp [IpNet.contains] at hm
      | v6 =>
        cases other with
        | v4 => simp [IpNet.contains] at hoth
        | v6 => exact Net.contains_of_le (not_lt.mp hle) hn hm hoth

/-- `RouteEntry`, without the stores that go with the group. -/
structure RouteEntry where
  net : IpNet
  groupId : Str
  tenantId : Str
  deriving DecidableEq

/-- `refresh_routes` up to the fetches of bundles: entries that do not parse are
skipped. -/
def refreshRoutes (parse : Str → Option IpNet) (entries : List RoutingTableEntry) :
    List RouteEntry :=
  entries.filterMap fun e => (parse e.cidr).map fun net => ⟨net, e.groupId, e.tenantId⟩

/-- `match_route`. -/
def matchRoute (routes : List RouteEntry) (ip : IpAddr) : Option RouteEntry :=
  maxByKey (·.net.len) (routes.filter (·.net.contains ip))

/-- A group reaches a node with this subnet. -/
structure Serves (parse : Str → Option IpNet) (node : NodeCredential) (g : Group) (net : IpNet) :
    Prop where
  access : nodeCanAccessGroup node g = true
  subnet : ∃ cidr, g.vpnSubnet = some cidr ∧ parse cidr = some net

theorem mem_refreshRoutes {r : RouteEntry} :
    r ∈ refreshRoutes parse (getRoutingTable node rows) ↔
      ∃ g ∈ rows, Serves parse node g r.net ∧ r.groupId = g.id ∧ r.tenantId = g.tenantId := by
  simp only [refreshRoutes, getRoutingTable, mem_filterMap]
  constructor
  · rintro ⟨e, ⟨g, hg, he⟩, hr⟩
    obtain ⟨hacc, he⟩ := ite_none_right_eq_some.mp he
    obtain ⟨cidr, hcidr, rfl⟩ := map_eq_some_iff.mp he
    obtain ⟨net, hnet, rfl⟩ := map_eq_some_iff.mp hr
    exact ⟨g, hg, ⟨hacc, cidr, hcidr, hnet⟩, rfl, rfl⟩
  · rintro ⟨g, hg, ⟨hacc, cidr, hcidr, hnet⟩, hid, hten⟩
    refine ⟨⟨cidr, g.id, g.tenantId⟩, ⟨g, hg, by rw [if_pos hacc, hcidr]; rfl⟩, ?_⟩
    rw [hnet, ← hid, ← hten]
    rfl

/-- The group has a subnet with the address inside the given one. -/
def Encroaches (parse : Str → Option IpNet) (node : NodeCredential) (net : IpNet) (ip : IpAddr)
    (g : Group) : Prop :=
  ∃ n, Serves parse node g n ∧ n.contains ip = true ∧ n.Within net

/-- **The most specific subnet wins**, if no other group has one inside it. -/
theorem matchRoute_refresh {g : Group} {net : IpNet} (hg : g ∈ rows)
    (hsvs : Serves parse node g net) (hip : net.contains ip = true)
    (halo : ∀ h ∈ rows, h ≠ g → ¬Encroaches parse node net ip h) :
    matchRoute (refreshRoutes parse (getRoutingTable node rows)) ip =
      some ⟨net, g.id, g.tenantId⟩ := by
  refine maxByKey_eq_some ?_ fun r hr hne => ?_
  · exact mem_filter.mpr ⟨mem_refreshRoutes.mpr ⟨g, hg, hsvs, rfl, rfl⟩, hip⟩
  · -- every other route of the address belongs to a wider subnet
    obtain ⟨hr, hcon⟩ := mem_filter.mp hr
    obtain ⟨h, hh, hsvs', hid, hten⟩ := mem_refreshRoutes.mp hr
    refine IpNet.len_lt hcon hip fun hwit => ?_
    by_cases heq : h = g
    · -- a group has one subnet
      subst heq
      obtain ⟨cidr, hcidr, hnet⟩ := hsvs.subnet
      obtain ⟨cidr', hcidr', hnet'⟩ := hsvs'.subnet
      rw [hcidr, some_inj] at hcidr'
      rw [← hcidr', hnet, some_inj] at hnet'
      exact hne (by rw [hnet', ← hid, ← hten])
    · exact halo h hh heq ⟨r.net, hsvs', hcon, hwit⟩

/-! ### A node among the operators of one tenant -/

structure State where
  db : GroupDb
  routes : List RouteEntry

section Run

variable (ipNetwork : IpNetwork) (parse : Str → Option IpNet) (node : NodeCredential)

/-- A request of a user restricted to the tenant, or a refresh of the node. -/
inductive Step (tenantId : Str) (s : State) : State → Prop
  | request {u : Control.User} {req : Request} {db : GroupDb} (hu : Restricted u tenantId)
      (h : s.db.apply ipNetwork u req = some db) :
    Step tenantId s { s with db }
  | refresh {rows : List Group} (hrows : rows.Perm s.db.groups) :
    Step tenantId s { s with routes := refreshRoutes parse (getRoutingTable node rows) }

/-- No group of the tenant has a subnet with the address inside the given one. -/
def KeepsOut (tenantId : Str) (net : IpNet) (ip : IpAddr) (db : GroupDb) : Prop :=
  ∀ g ∈ db.groups, g.tenantId = tenantId → ¬Encroaches parse node net ip g

/-- Steps during which the tenant keeps out of the subnet. -/
def OutsideRun (tenantId : Str) (net : IpNet) (ip : IpAddr) : State → State → Prop :=
  Relation.ReflTransGen fun s t =>
    Step ipNetwork parse node tenantId s t ∧ KeepsOut parse node tenantId net ip t.db

/-- The routes are those of the current groups. -/
def UpToDate (s : State) : Prop :=
  ∃ rows, rows.Perm s.db.groups ∧ s.routes = refreshRoutes parse (getRoutingTable node rows)

variable {ipNetwork parse node} {tenantId : Str} {s t : State} {g : Group} {net : IpNet}
  {ip : IpAddr}

theorem Step.others (h : Step ipNetwork parse node tenantId s t) :
    t.db.others tenantId = s.db.others tenantId := by
  cases h with
  | request hu h => exact Request.frame hu h
  | refresh => rfl

theorem OutsideRun.others (h : OutsideRun ipNetwork parse node tenantId net ip s t) :
    t.db.others tenantId = s.db.others tenantId := by
  induction h with
  | refl => rfl
  | tail _ hstep ih => exact hstep.1.others.trans ih

theorem matchRoute_upToDate (hg : g ∈ s.db.others tenantId) (hsvs : Serves parse node g net)
    (hip : net.contains ip = true)
    (halo : ∀ h ∈ s.db.others tenantId, h ≠ g → ¬Encroaches parse node net ip h)
    (hout : KeepsOut parse node tenantId net ip s.db) (hrts : UpToDate parse node s) :
    matchRoute s.routes ip = some ⟨net, g.id, g.tenantId⟩ := by
  obtain ⟨rows, hrows, heq⟩ := hrts
  rw [heq]
  refine matchRoute_refresh (hrows.mem_iff.mpr (mem_of_mem_filter hg)) hsvs hip ?_
  intro h hh hne
  have hmem := hrows.mem_iff.mp hh
  -- the groups of the tenant keep out by `hout`, the others by `halo`
  by_cases hown : h.tenantId = tenantId
  · exact hout h hmem hown
  · exact halo h (mem_filter.mpr ⟨hmem, decide_eq_true hown⟩) hne

/-- **Routes of other tenants**: while no group of the tenant has a subnet with the
address inside the subnet of `g`, and no other group either, the address is routed
to `g`, whatever the users of the tenant do and whenever the node refreshes. -/
theorem route_kept (hroutes : UpToDate parse node s) (hg : g ∈ s.db.groups)
    (htenant : g.tenantId ≠ tenantId) (hserves : Serves parse node g net)
    (hip : net.contains ip = true)
    (halone : ∀ h ∈ s.db.groups, h.tenantId ≠ tenantId → h ≠ g → ¬Encroaches parse node net ip h)
    (hout : KeepsOut parse node tenantId net ip s.db)
    (hrun : OutsideRun ipNetwork parse node tenantId net ip s t) :
    matchRoute s.routes ip = some ⟨net, g.id, g.tenantId⟩ ∧
      matchRoute t.routes ip = matchRoute s.routes ip := by
  have hoth : ∀ h ∈ s.db.others tenantId, h ≠ g → ¬Encroaches parse node net ip h :=
    fun h hh => halone h (mem_of_mem_filter hh) (by simpa using (mem_filter.mp hh).2)
  have hgot : g ∈ s.db.others tenantId :=
    mem_filter.mpr ⟨hg, decide_eq_true htenant⟩
  have hsta := matchRoute_upToDate hgot hserves hip hoth hout hroutes
  refine ⟨hsta, ?_⟩
  induction hrun with
  | refl => rfl
  | @tail u t hrun hstep ih =>
    obtain ⟨hstep, hkept⟩ := hstep
    have hsame : t.db.others tenantId = s.db.others tenantId :=
      hstep.others.trans (OutsideRun.others hrun)
    cases hstep with
    -- the node keeps its routes until it refreshes
    | request => exact ih
    | @refresh rows hrows =>
      rw [hsta]
      exact matchRoute_upToDate (hsame ▸ hgot) hserves hip (hsame ▸ hoth) hkept
        ⟨rows, hrows, rfl⟩

end Run

/-! A tenant with one group, next to another tenant. -/

/-- Subnets of IPv4 in the usual form. -/
def sampleParse (s : Str) : Option IpNet :=
  match s.splitOn '/' with
  | [addr, len] => do
    let addr ← parseIpv4 addr
    let len ← digits len
    if h : len < 33 then some (.v4 ⟨addr.toBitVec, ⟨len, h⟩⟩) else none
  | _ => none

def sampleIpNetwork : IpNetwork := fun s => (sampleParse s).map fun _ => s

def sampleNode : NodeCredential := ⟨true, [], []⟩

def staff : Group := ⟨"g1", "globex", "staff", some "10.8.1.0/24"⟩

def sampleGroups : GroupDb :=
  ⟨["acme", "globex"], [staff], by simp [Keyed]⟩

def sampleRoutes (db : GroupDb) : List RouteEntry :=
  refreshRoutes sampleParse (getRoutingTable sampleNode db.groups)

/-- The operator of `acme` creates a group with this subnet. -/
def addGroup (cidr : Str) : Option GroupDb :=
  sampleGroups.apply sampleIpNetwork ⟨.operator, some "acme"⟩
    (.createGroup "acme" "g2" ⟨"guests", some cidr⟩)

theorem route_kept_wide :
    ∃ s t : State, (∃ g ∈ t.db.groups, g.vpnSubnet = some "10.8.0.0/16".toList) ∧
      t.routes.length = 2 ∧
      (matchRoute s.routes (.v4 0x0A080107)).map (·.groupId) = some "g1".toList ∧
      matchRoute t.routes (.v4 0x0A080107) = matchRoute s.routes (.v4 0x0A080107) := by
  let net : IpNet := .v4 ⟨0x0A080100#32, 24⟩
  let wide : IpNet := .v4 ⟨0x0A080000#32, 16⟩
  obtain ⟨db, hdb, hadd, hlen, hacme⟩ : ∃ db, addGroup "10.8.0.0/16" = some db ∧
      (∃ g ∈ db.groups, g.vpnSubnet = some "10.8.0.0/16".toList) ∧ (sampleRoutes db).length = 2 ∧
      ∀ g ∈ db.groups, g.tenantId = "acme" → g.vpnSubnet = some "10.8.0.0/16".toList := by
    decide +kernel
  let s : State := ⟨sampleGroups, sampleRoutes sampleGroups⟩
  have hout : KeepsOut sampleParse sampleNode "acme" net (.v4 0x0A080107) db := by
    rintro g hg hten ⟨n, ⟨-, cidr, hcidr, hpar⟩, -, hwit⟩
    rw [hacme g hg hten, some_inj] at hcidr
    have hwide : n = wide := by
      rw [← hcidr] at hpar
      exact some_inj.mp (hpar.symm.trans (by decide +kernel))
    -- the wide subnet has addresses beyond the other
    rw [hwide] at hwit
    exact absurd (hwit (.v4 0x0A080201) (by decide)) (by decide)
  have hreq : Step sampleIpNetwork sampleParse sampleNode "acme" s { s with db } :=
    .request ⟨by decide, rfl⟩ hdb
  have hrun : OutsideRun sampleIpNetwork sampleParse sampleNode "acme" net (.v4 0x0A080107)
      s { db, routes := sampleRoutes db } :=
    .tail (.single ⟨hreq, hout⟩) ⟨.refresh (.refl _), hout⟩
  have hkept := route_kept (s := s) (g := staff) ⟨[staff], .refl _, rfl⟩ mem_cons_self
    (by decide) ⟨rfl, "10.8.1.0/24", rfl, by decide +kernel⟩ (by decide)
    (fun h hh _ hne => absurd (mem_singleton.mp hh) hne)
    (fun h hh hten => absurd (mem_singleton.mp hh ▸ hten) (by decide)) hrun
  refine ⟨s, _, hadd, hlen, ?_, hkept.2⟩
  rw [hkept.1]
  rfl

/-- The operator of `acme` takes a part of the subnet, and the client's queries go to
the operator's group. -/
theorem narrower_subnet_captures :
    ∃ s t u : State, UpToDate sampleParse sampleNode s ∧
      Step sampleIpNetwork sampleParse sampleNode "acme" s t ∧
      Step sampleIpNetwork sampleParse sampleNode "acme" t u ∧
      (matchRoute s.routes (.v4 0x0A080107)).map (·.groupId) = some "g1".toList ∧
      (matchRoute u.routes (.v4 0x0A080107)).map (·.groupId) = some "g2".toList := by
  obtain ⟨db, hdb, h⟩ : ∃ db, addGroup "10.8.1.0/25" = some db ∧
      (matchRoute (sampleRoutes db) (.v4 0x0A080107)).map (·.groupId) = some "g2".toList := by
    decide +kernel
  let s : State := ⟨sampleGroups, sampleRoutes sampleGroups⟩
  have hreq : Step sampleIpNetwork sampleParse sampleNode "acme" s { s with db } :=
    .request ⟨by decide, rfl⟩ hdb
  exact ⟨s, { s with db }, { db, routes := sampleRoutes db }, ⟨[staff], .refl _, rfl⟩, hreq,
    .refresh (.refl _), by decide +kernel, h⟩

end Node.Routing
