/-
The DHCP scope API: `api/dhcp_routers.py` and `api/dhcp6_routers.py`.

What an operator enters is stored as text.  The handlers look at roles and
tenants, the payloads at the bounds of a few numbers, the database at the length
of its columns and at its constraints; no address is parsed.  An endpoint is
`none` where the request is refused.

* `Scopes.handle`, `Scopes.Accepted` — the requests of DHCPv4, and the tables that
  they can lead to;
* `Scopes.Accepted.scopes_keyed` — one scope for an id;
* `Scopes6.handle`, `Scopes6.Accepted` — the same of DHCPv6, where two reservations of
  a scope may have one address text.
-/
import MantisDns.ZoneApi

open Text Table List Option

namespace Control

/-- A `VARCHAR` column. -/
def varchar (n : ℕ) (s : Str) : Bool := s.length ≤ n

namespace Scopes

/-! ### Rows -/

structure ScopeCreate where
  tenantId : Str
  name : Str
  description : Option Str := none
  subnet : Str
  rangeStart : Str
  rangeEnd : Str
  routerIp : Option Str := none
  dnsServers : List Str := []
  ntpServer : Option Str := none
  domainName : Option Str := none
  interface : Option Str := none
  vlanId : Option ℤ := none
  leaseTimeS : ℤ := 86400
  maxLeaseTimeS : ℤ := 604800
  renewTimeS : Option ℤ := none
  rebindTimeS : Option ℤ := none
  ddnsEnabled : Bool := false
  ddnsZoneId : Option Str := none
  ddnsTtlS : ℤ := 300
  pxeNextServer : Option Str := none
  pxeBootFilename : Option Str := none
  pxeUefiBootFilename : Option Str := none
  enabled : Bool := true
  deriving DecidableEq

structure DhcpScope extends ScopeCreate where
  id : Str
  deriving DecidableEq

structure ReservationCreate where
  macAddress : Str
  ipAddress : Str
  hostname : Option Str := none
  description : Option Str := none
  clientId : Option Str := none
  nextServer : Option Str := none
  bootFilename : Option Str := none
  uefiBootFilename : Option Str := none
  enabled : Bool := true
  deriving DecidableEq

structure DhcpStaticLease extends ReservationCreate where
  id : Str
  scopeId : Str
  tenantId : Str
  deriving DecidableEq

structure OptionCreate where
  optionCode : ℤ
  optionSpace : Str := "dhcp4"
  value : Str
  alwaysSend : Bool := false
  deriving DecidableEq

structure DhcpOption extends OptionCreate where
  id : Str
  scopeId : Option Str
  staticLeaseId : Option Str
  deriving DecidableEq

structure RelayCreate where
  relayIp : Str
  description : Option Str := none
  circuitIdHex : Option Str := none
  remoteIdHex : Option Str := none
  deriving DecidableEq

structure DhcpRelayConfig extends RelayCreate where
  id : Str
  scopeId : Str
  deriving DecidableEq

/-- The tables.  `issued` holds the UUIDs handed out so far. -/
structure DhcpDb where
  tenants : List Str
  scopes : List DhcpScope
  staticLeases : List DhcpStaticLease
  options : List DhcpOption
  relayConfigs : List DhcpRelayConfig
  issued : List Str
  deriving DecidableEq

def DhcpDb.fresh (tenants : List Str) : DhcpDb := ⟨tenants, [], [], [], [], []⟩

/-! ### Columns -/

/-- The columns of `dhcp_scopes`. -/
def ScopeCreate.storable (b : ScopeCreate) : Bool :=
  varchar 36 b.tenantId && varchar 255 b.name && b.description.all (varchar 1024) &&
    varchar 50 b.subnet && varchar 45 b.rangeStart && varchar 45 b.rangeEnd &&
    b.routerIp.all (varchar 45) && b.ntpServer.all (varchar 45) &&
    b.domainName.all (varchar 255) && b.interface.all (varchar 64) && b.vlanId.all int4 &&
    int4 b.leaseTimeS && int4 b.maxLeaseTimeS && b.renewTimeS.all int4 &&
    b.rebindTimeS.all int4 && b.ddnsZoneId.all (varchar 36) && int4 b.ddnsTtlS &&
    b.pxeNextServer.all (varchar 45) && b.pxeBootFilename.all (varchar 255) &&
    b.pxeUefiBootFilename.all (varchar 255)

/-- The columns of `dhcp_static_leases`. -/
def ReservationCreate.storable (b : ReservationCreate) : Bool :=
  varchar 17 b.macAddress && varchar 45 b.ipAddress && b.hostname.all (varchar 255) &&
    b.description.all (varchar 1024) && b.clientId.all (varchar 255) &&
    b.nextServer.all (varchar 45) && b.bootFilename.all (varchar 255) &&
    b.uefiBootFilename.all (varchar 255)

/-- The columns of `dhcp_options`. -/
def OptionCreate.storable (b : OptionCreate) : Bool :=
  varchar 20 b.optionSpace && varchar 1024 b.value

/-- The columns of `dhcp_relay_configs`. -/
def RelayCreate.storable (b : RelayCreate) : Bool :=
  varchar 45 b.relayIp && b.description.all (varchar 255) && b.circuitIdHex.all (varchar 255) &&
    b.remoteIdHex.all (varchar 255)

/-- `uq_dhcp_scope_subnet`. -/
def DhcpDb.subnetTaken (db : DhcpDb) (tenantId subnet : Str) : Bool :=
  db.scopes.any fun s => s.tenantId = tenantId && s.subnet = subnet

/-- `uq_dhcp_static_ip`. -/
def DhcpDb.ipTaken (db : DhcpDb) (row : DhcpStaticLease) : Bool :=
  db.staticLeases.any fun r =>
    r.id ≠ row.id && r.scopeId = row.scopeId && r.ipAddress = row.ipAddress

/-! ### Scope endpoints -/

structure ScopeUpdate where
  name : Patch Str := .unset
  description : Patch Str := .unset
  rangeStart : Patch Str := .unset
  rangeEnd : Patch Str := .unset
  routerIp : Patch Str := .unset
  dnsServers : Patch (List Str) := .unset
  ntpServer : Patch Str := .unset
  domainName : Patch Str := .unset
  interface : Patch Str := .unset
  vlanId : Patch ℤ := .unset
  leaseTimeS : Patch ℤ := .unset
  maxLeaseTimeS : Patch ℤ := .unset
  renewTimeS : Patch ℤ := .unset
  rebindTimeS : Patch ℤ := .unset
  ddnsEnabled : Patch Bool := .unset
  ddnsZoneId : Patch Str := .unset
  ddnsTtlS : Patch ℤ := .unset
  pxeNextServer : Patch Str := .unset
  pxeBootFilename : Patch Str := .unset
  pxeUefiBootFilename : Patch Str := .unset
  enabled : Patch Bool := .unset

/-- The columns after `setattr` for every field that was set. -/
def ScopeUpdate.apply (p : ScopeUpdate) (b : ScopeCreate) : Option ScopeCreate := do
  let name ← p.name.required b.name
  let rangeStart ← p.rangeStart.required b.rangeStart
  let rangeEnd ← p.rangeEnd.required b.rangeEnd
  let dnsServers ← p.dnsServers.required b.dnsServers
  let leaseTimeS ← p.leaseTimeS.required b.leaseTimeS
  let maxLeaseTimeS ← p.maxLeaseTimeS.required b.maxLeaseTimeS
  let ddnsEnabled ← p.ddnsEnabled.required b.ddnsEnabled
  let ddnsTtlS ← p.ddnsTtlS.required b.ddnsTtlS
  let enabled ← p.enabled.required b.enabled
  return { b with
    name, rangeStart, rangeEnd, dnsServers, leaseTimeS, maxLeaseTimeS, ddnsEnabled, ddnsTtlS,
    enabled
    description := p.description.nullable b.description
    routerIp := p.routerIp.nullable b.routerIp
    ntpServer := p.ntpServer.nullable b.ntpServer
    domainName := p.domainName.nullable b.domainName
    interface := p.interface.nullable b.interface
    vlanId := p.vlanId.nullable b.vlanId
    renewTimeS := p.renewTimeS.nullable b.renewTimeS
    rebindTimeS := p.rebindTimeS.nullable b.rebindTimeS
    ddnsZoneId := p.ddnsZoneId.nullable b.ddnsZoneId
    pxeNextServer := p.pxeNextServer.nullable b.pxeNextServer
    pxeBootFilename := p.pxeBootFilename.nullable b.pxeBootFilename
    pxeUefiBootFilename := p.pxeUefiBootFilename.nullable b.pxeUefiBootFilename }

/-- `_get_scope_or_404` and `check_tenant_access`. -/
def getScope (db : DhcpDb) (u : User) (scopeId : Str) : Option DhcpScope :=
  (db.scopes.find? (·.id = scopeId)).filter fun s => checkTenantAccess u s.tenantId

/-- `create_scope`. -/
def createScope (db : DhcpDb) (u : User) (id : Str) (b : ScopeCreate) : Option DhcpDb :=
  if u.hasRole .operator ∧ 60 ≤ b.leaseTimeS ∧ 60 ≤ b.maxLeaseTimeS ∧
      checkTenantAccess u b.tenantId ∧ b.tenantId ∈ db.tenants ∧ b.storable ∧
      ¬ db.subnetTaken b.tenantId b.subnet ∧ id ∉ db.issued then
    some { db with scopes := db.scopes ++ [{ b with id }], issued := id :: db.issued }
  else none

/-- `update_scope`. -/
def updateScope (db : DhcpDb) (u : User) (scopeId : Str) (p : ScopeUpdate) : Option DhcpDb :=
  match getScope db u scopeId with
  | none => none
  | some s =>
    match p.apply s.toScopeCreate with
    | none => none
    | some b =>
      if u.hasRole .operator ∧ p.leaseTimeS.all (60 ≤ ·) ∧ p.maxLeaseTimeS.all (60 ≤ ·) ∧
          b.storable then
        some { db with scopes := replaceRow (·.id) scopeId { b with id := scopeId } db.scopes }
      else none

/-- `delete_scope`; what belongs to the scope goes with it. -/
def deleteScope (db : DhcpDb) (u : User) (scopeId : Str) : Option DhcpDb :=
  if u.hasRole .operator ∧ (getScope db u scopeId).isSome then
    let gone := (db.staticLeases.filter (·.scopeId = scopeId)).map (·.id)
    some { db with
      scopes := db.scopes.filter (·.id ≠ scopeId)
      staticLeases := db.staticLeases.filter (·.scopeId ≠ scopeId)
      options := db.options.filter fun o =>
        o.scopeId ≠ some scopeId ∧ o.staticLeaseId.all (· ∉ gone)
      relayConfigs := db.relayConfigs.filter (·.scopeId ≠ scopeId) }
  else none

/-! ### Reservation endpoints -/

structure ReservationUpdate where
  macAddress : Patch Str := .unset
  ipAddress : Patch Str := .unset
  hostname : Patch Str := .unset
  description : Patch Str := .unset
  clientId : Patch Str := .unset
  nextServer : Patch Str := .unset
  bootFilename : Patch Str := .unset
  uefiBootFilename : Patch Str := .unset
  enabled : Patch Bool := .unset

/-- The columns after `setattr` for every field that was set. -/
def ReservationUpdate.apply (p : ReservationUpdate) (b : ReservationCreate) :
    Option ReservationCreate := do
  let macAddress ← p.macAddress.required b.macAddress
  let ipAddress ← p.ipAddress.required b.ipAddress
  let enabled ← p.enabled.required b.enabled
  return {
    macAddress, ipAddress, enabled
    hostname := p.hostname.nullable b.hostname
    description := p.description.nullable b.description
    clientId := p.clientId.nullable b.clientId
    nextServer := p.nextServer.nullable b.nextServer
    bootFilename := p.bootFilename.nullable b.bootFilename
    uefiBootFilename := p.uefiBootFilename.nullable b.uefiBootFilename }

/-- `_get_reservation_or_404`. -/
def getReservation (db : DhcpDb) (scopeId reservationId : Str) : Option DhcpStaticLease :=
  db.staticLeases.find? fun r => r.id = reservationId ∧ r.scopeId = scopeId

/-- `create_reservation`. -/
def createReservation (db : DhcpDb) (u : User) (scopeId id : Str) (b : ReservationCreate) :
    Option DhcpDb :=
  match getScope db u scopeId with
  | none => none
  | some s =>
    let row : DhcpStaticLease := { b with id, scopeId, tenantId := s.tenantId }
    if u.hasRole .operator ∧ b.storable ∧ ¬ db.ipTaken row ∧ id ∉ db.issued then
      some { db with staticLeases := db.staticLeases ++ [row], issued := id :: db.issued }
    else none

/-- `update_reservation`. -/
def updateReservation (db : DhcpDb) (u : User) (scopeId reservationId : Str)
    (p : ReservationUpdate) : Option DhcpDb :=
  match getScope db u scopeId, getReservation db scopeId reservationId with
  | some _, some r =>
    match p.apply r.toReservationCreate with
    | none => none
    | some b =>
      let row : DhcpStaticLease := { r with toReservationCreate := b }
      if u.hasRole .operator ∧ b.storable ∧ ¬ db.ipTaken row then
        some { db with staticLeases := replaceRow (·.id) reservationId row db.staticLeases }
      else none
  | _, _ => none

/-- `delete_reservation`; its options go with it. -/
def deleteReservation (db : DhcpDb) (u : User) (scopeId reservationId : Str) : Option DhcpDb :=
  if u.hasRole .operator ∧ (getScope db u scopeId).isSome ∧
      (getReservation db scopeId reservationId).isSome then
    some { db with
      staticLeases := db.staticLeases.filter (·.id ≠ reservationId)
      options := db.options.filter (·.staticLeaseId ≠ some reservationId) }
  else none

/-! ### Option and relay endpoints -/

/-- `create_option`: an option belongs to a scope. -/
def createOption (db : DhcpDb) (u : User) (scopeId id : Str) (b : OptionCreate) : Option DhcpDb :=
  if u.hasRole .operator ∧ (getScope db u scopeId).isSome ∧ within 1 254 b.optionCode ∧
      b.storable ∧ id ∉ db.issued then
    some { db with
      options := db.options ++ [{ b with id, scopeId := some scopeId, staticLeaseId := none }]
      issued := id :: db.issued }
  else none

/-- `delete_option`. -/
def deleteOption (db : DhcpDb) (u : User) (scopeId optionId : Str) : Option DhcpDb :=
  if u.hasRole .operator ∧ (getScope db u scopeId).isSome ∧
      db.options.any (fun o => o.id = optionId ∧ o.scopeId = some scopeId) then
    some { db with options := db.options.filter (·.id ≠ optionId) }
  else none

/-- `create_relay`. -/
def createRelay (db : DhcpDb) (u : User) (scopeId id : Str) (b : RelayCreate) : Option DhcpDb :=
  if u.hasRole .operator ∧ (getScope db u scopeId).isSome ∧ b.storable ∧ id ∉ db.issued then
    some { db with
      relayConfigs := db.relayConfigs ++ [{ b with id, scopeId }], issued := id :: db.issued }
  else none

/-- `delete_relay`. -/
def deleteRelay (db : DhcpDb) (u : User) (scopeId relayId : Str) : Option DhcpDb :=
  if u.hasRole .operator ∧ (getScope db u scopeId).isSome ∧
      db.relayConfigs.any (fun r => r.id = relayId ∧ r.scopeId = scopeId) then
    some { db with relayConfigs := db.relayConfigs.filter (·.id ≠ relayId) }
  else none

/-! ### All requests -/

/-- The requests that write, with the ids of the path and the UUID drawn for a new
row. -/
inductive Request
  | createScope (id : Str) (body : ScopeCreate)
  | updateScope (scopeId : Str) (body : ScopeUpdate)
  | deleteScope (scopeId : Str)
  | createReservation (scopeId id : Str) (body : ReservationCreate)
  | updateReservation (scopeId reservationId : Str) (body : ReservationUpdate)
  | deleteReservation (scopeId reservationId : Str)
  | createOption (scopeId id : Str) (body : OptionCreate)
  | deleteOption (scopeId optionId : Str)
  | createRelay (scopeId id : Str) (body : RelayCreate)
  | deleteRelay (scopeId relayId : Str)

def handle (db : DhcpDb) (u : User) : Request → Option DhcpDb
  | .createScope id b => createScope db u id b
  | .updateScope scopeId p => updateScope db u scopeId p
  | .deleteScope scopeId => deleteScope db u scopeId
  | .createReservation scopeId id b => createReservation db u scopeId id b
  | .updateReservation scopeId reservationId p => updateReservation db u scopeId reservationId p
  | .deleteReservation scopeId reservationId => deleteReservation db u scopeId reservationId
  | .createOption scopeId id b => createOption db u scopeId id b
  | .deleteOption scopeId optionId => deleteOption db u scopeId optionId
  | .createRelay scopeId id b => createRelay db u scopeId id b
  | .deleteRelay scopeId relayId => deleteRelay db u scopeId relayId

/-- Tables that requests have led to. -/
def Accepted (tenants : List Str) : DhcpDb → Prop :=
  Relation.ReflTransGen (fun db db' => ∃ u request, handle db u request = some db') (.fresh tenants)

/-- The relay rows of a scope. -/
def relayRows (db : DhcpDb) (scopeId : Str) : List DhcpRelayConfig :=
  db.relayConfigs.filter (·.scopeId = scopeId)

/-- What the keys of the tables keep: the ids of scopes and reservations are those
of one row each and were drawn, and no two reservations share a scope and an
address text.  Scopes fit their columns. -/
structure Kept (db : DhcpDb) : Prop where
  scopes_keyed : Keyed (·.id) db.scopes
  scopes_storable : ∀ s ∈ db.scopes, s.storable = true
  scopes_issued : ∀ s ∈ db.scopes, s.id ∈ db.issued
  leases_keyed : Keyed (·.id) db.staticLeases
  leases_issued : ∀ r ∈ db.staticLeases, r.id ∈ db.issued
  ips_keyed : Keyed (fun r => (r.scopeId, r.ipAddress)) db.staticLeases

theorem kept_fresh (tenants : List Str) : Kept (.fresh tenants) := by
  constructor <;> exact fun x hx => absurd hx not_mem_nil

section Kept

variable {db db' : DhcpDb} {u : User} {row : DhcpStaticLease} {issued : List Str}
variable {scopeId id : Str} {s : DhcpScope} {r : DhcpStaticLease}

theorem Kept.of_eq (h : Kept db) (hscs : db'.scopes = db.scopes)
    (hls : db'.staticLeases = db.staticLeases) (hiss : db.issued ⊆ db'.issued) :
    Kept db' where
  scopes_keyed := hscs ▸ h.scopes_keyed
  scopes_storable := hscs ▸ h.scopes_storable
  scopes_issued s hs := hiss (h.scopes_issued s (hscs ▸ hs))
  leases_keyed := hls ▸ h.leases_keyed
  leases_issued r hr := hiss (h.leases_issued r (hls ▸ hr))
  ips_keyed := hls ▸ h.ips_keyed

theorem Kept.filter (h : Kept db) {keepScope : DhcpScope → Bool}
    {keepLease : DhcpStaticLease → Bool} (hscs : db'.scopes = db.scopes.filter keepScope)
    (hls : db'.staticLeases = db.staticLeases.filter keepLease)
    (hiss : db'.issued = db.issued) : Kept db' where
  scopes_keyed := hscs ▸ h.scopes_keyed.sublist filter_sublist
  scopes_storable := hscs ▸ forall_filter h.scopes_storable _
  scopes_issued := by
    rw [hscs, hiss]
    exact forall_filter h.scopes_issued _
  leases_keyed := hls ▸ h.leases_keyed.sublist filter_sublist
  leases_issued := by
    rw [hls, hiss]
    exact forall_filter h.leases_issued _
  ips_keyed := hls ▸ h.ips_keyed.sublist filter_sublist

theorem not_ipTaken_iff :
    (¬ db.ipTaken row) ↔ ∀ r ∈ db.staticLeases, r.scopeId = row.scopeId →
      r.ipAddress = row.ipAddress → r.id = row.id := by
  simp only [DhcpDb.ipTaken, List.any_eq_true, Bool.and_eq_true, decide_eq_true_eq, not_exists,
    not_and]
  refine forall₂_congr fun r _ => ⟨fun h hsc hip => ?_, fun h hne hip => ?_⟩
  · by_contra hne
    exact h ⟨hne, hsc⟩ hip
  · exact hne.1 (h hne.2 hip)

theorem mem_of_getScope (h : getScope db u scopeId = some s) :
    s ∈ db.scopes ∧ s.id = scopeId := by
  have hfind := (filter_eq_some_iff.mp h).1
  exact ⟨mem_of_find?_eq_some hfind, by simpa using find?_some hfind⟩

theorem mem_of_getReservation (h : getReservation db scopeId id = some r) :
    r ∈ db.staticLeases ∧ r.id = id := by
  have hp := find?_some h
  simp only [decide_eq_true_eq] at hp
  exact ⟨mem_of_find?_eq_some h, hp.1⟩

theorem Kept.insertScope (h : Kept db) (hid : s.id ∉ db.issued) (hsto : s.storable = true) :
    Kept { db with scopes := db.scopes ++ [s], issued := s.id :: db.issued } where
  scopes_storable := forall_concat h.scopes_storable hsto
  scopes_keyed := h.scopes_keyed.concat fun hmem => by
    obtain ⟨x, hx, hxid⟩ := List.mem_map.mp hmem
    exact hid (hxid ▸ h.scopes_issued x hx)
  scopes_issued := forall_concat (fun x hx => mem_cons_of_mem _ (h.scopes_issued x hx))
    mem_cons_self
  leases_keyed := h.leases_keyed
  leases_issued r hr := mem_cons_of_mem _ (h.leases_issued r hr)
  ips_keyed := h.ips_keyed

theorem Kept.replaceScope (h : Kept db) {row : DhcpScope} (hs : s ∈ db.scopes)
    (hid : row.id = s.id) (hsto : row.storable = true) :
    Kept { db with scopes := replaceRow (·.id) s.id row db.scopes } where
  scopes_storable := forall_replaceRow hsto h.scopes_storable
  scopes_keyed := h.scopes_keyed.replaceRow hid
  scopes_issued := forall_replaceRow (hid ▸ h.scopes_issued s hs) h.scopes_issued
  leases_keyed := h.leases_keyed
  leases_issued := h.leases_issued
  ips_keyed := h.ips_keyed

theorem Kept.insertLease (h : Kept db) (hid : row.id ∉ db.issued) (hfree : ¬ db.ipTaken row) :
    Kept { db with staticLeases := db.staticLeases ++ [row], issued := row.id :: db.issued } where
  scopes_keyed := h.scopes_keyed
  scopes_storable := h.scopes_storable
  scopes_issued s hs := mem_cons_of_mem _ (h.scopes_issued s hs)
  leases_keyed := h.leases_keyed.concat fun hmem => by
    obtain ⟨x, hx, hxid⟩ := List.mem_map.mp hmem
    exact hid (hxid ▸ h.leases_issued x hx)
  leases_issued := forall_concat (fun x hx => mem_cons_of_mem _ (h.leases_issued x hx))
    mem_cons_self
  ips_keyed := h.ips_keyed.concat fun hmem => by
    obtain ⟨x, hx, hkey⟩ := List.mem_map.mp hmem
    obtain ⟨hsc, hip⟩ := Prod.mk.inj hkey
    exact hid (not_ipTaken_iff.mp hfree x hx hsc hip ▸ h.leases_issued x hx)

theorem Kept.replaceLease (h : Kept db) (hr : r ∈ db.staticLeases) (hid : row.id = r.id)
    (hfree : ¬ db.ipTaken row) :
    Kept { db with staticLeases := replaceRow (·.id) r.id row db.staticLeases } where
  scopes_keyed := h.scopes_keyed
  scopes_storable := h.scopes_storable
  scopes_issued := h.scopes_issued
  leases_keyed := h.leases_keyed.replaceRow hid
  leases_issued := forall_replaceRow (hid ▸ h.leases_issued r hr) h.leases_issued
  ips_keyed := h.ips_keyed.replaceRow_of_free fun x hx hkey => by
    obtain ⟨hsc, hip⟩ := Prod.mk.inj hkey
    exact (not_ipTaken_iff.mp hfree x hx hsc hip).trans hid

theorem Kept.updateScope {p : ScopeUpdate} (hkept : Kept db)
    (h : updateScope db u scopeId p = some db') : Kept db' := by
  rw [Scopes.updateScope] at h
  split at h
  · simp at h
  rename_i s hs
  split at h
  · simp at h
  obtain ⟨hmem, rfl⟩ := mem_of_getScope hs
  obtain ⟨⟨-, -, -, hsto⟩, ⟨⟩⟩ := ite_none_right_eq_some.mp h
  exact hkept.replaceScope hmem rfl hsto

theorem Kept.createReservation {b : ReservationCreate} (hkept : Kept db)
    (h : createReservation db u scopeId id b = some db') : Kept db' := by
  rw [Scopes.createReservation] at h
  split at h
  · simp at h
  obtain ⟨⟨-, -, hfree, hid⟩, ⟨⟩⟩ := ite_none_right_eq_some.mp h
  exact hkept.insertLease hid hfree

theorem Kept.updateReservation {p : ReservationUpdate} (hkept : Kept db)
    (h : updateReservation db u scopeId id p = some db') : Kept db' := by
  rw [Scopes.updateReservation] at h
  split at h
  · rename_i r _ hr
    split at h
    · simp at h
    obtain ⟨hmem, rfl⟩ := mem_of_getReservation hr
    obtain ⟨⟨-, -, hfree⟩, ⟨⟩⟩ := ite_none_right_eq_some.mp h
    exact hkept.replaceLease hmem rfl hfree
  · simp at h

/-- **Every request keeps the keys.** -/
theorem Kept.handle {request : Request} (hkept : Kept db) (h : handle db u request = some db') :
    Kept db' := by
  cases request with
  | createScope =>
    obtain ⟨⟨-, -, -, -, -, hsto, -, hid⟩, ⟨⟩⟩ := ite_none_right_eq_some.mp h
    exact hkept.insertScope hid hsto
  | updateScope => exact hkept.updateScope h
  | deleteScope =>
    obtain ⟨-, ⟨⟩⟩ := ite_none_right_eq_some.mp h
    exact hkept.filter rfl rfl rfl
  | createReservation => exact hkept.createReservation h
  | updateReservation => exact hkept.updateReservation h
  | deleteReservation =>
    obtain ⟨-, ⟨⟩⟩ := ite_none_right_eq_some.mp h
    exact hkept.filter (filter_true _).symm rfl rfl
  | createOption | createRelay =>
    obtain ⟨-, ⟨⟩⟩ := ite_none_right_eq_some.mp h
    exact hkept.of_eq rfl rfl (subset_cons_self ..)
  | deleteOption | deleteRelay =>
    obtain ⟨-, ⟨⟩⟩ := ite_none_right_eq_some.mp h
    exact hkept.of_eq rfl rfl (List.Subset.refl _)

variable {tenants : List Str}

theorem Accepted.kept (h : Accepted tenants db) : Kept db := by
  induction h with
  | refl => exact kept_fresh tenants
  | tail _ hlast ih =>
    obtain ⟨u, request, hreq⟩ := hlast
    exact ih.handle hreq

/-- **One scope for an id.** -/
theorem Accepted.scopes_keyed (h : Accepted tenants db) : Keyed (·.id) db.scopes :=
  h.kept.scopes_keyed

end Kept

/-! ### A scope alone -/

def administrator : User := ⟨.admin, none⟩

theorem isSome_getScope {db : DhcpDb} {s : DhcpScope} (h : s ∈ db.scopes) :
    (getScope db administrator s.id).isSome := by
  obtain ⟨x, hx⟩ := isSome_iff_exists.mp
    (find?_isSome.mpr ⟨s, h, by simp⟩ : (db.scopes.find? (·.id = s.id)).isSome = true)
  have hacc : checkTenantAccess administrator x.tenantId = true := rfl
  rw [getScope, hx, filter_some, if_pos hacc]
  rfl

theorem relayRows_filter {db db' : DhcpDb} {id other : Str} (hne : other ≠ id)
    (h : db'.relayConfigs = db.relayConfigs.filter (·.scopeId ≠ other)) :
    relayRows db' id = relayRows db id := by
  rw [relayRows, relayRows, h, List.filter_filter]
  refine filter_congr fun r _ => ?_
  by_cases hid : r.scopeId = id
  · simp [hid, hne.symm]
  · simp [hid]

/-- **An administrator can delete every other scope**: what is to hold of a scope in
all tables has to hold where it is alone. -/
theorem Accepted.alone {tenants : List Str} {db : DhcpDb} (h : Accepted tenants db) (id : Str) :
    ∃ db', Accepted tenants db' ∧ db'.scopes = db.scopes.filter (·.id = id) ∧
      db'.staticLeases ⊆ db.staticLeases ∧ relayRows db' id = relayRows db id := by
  -- on the number of scopes that are left to delete
  induction hn : (db.scopes.filter (·.id ≠ id)).length using Nat.strong_induction_on
    generalizing db with
  | _ n ih =>
    by_cases hall : ∀ s ∈ db.scopes, s.id = id
    · exact ⟨db, h, (filter_eq_self.mpr fun s hs => by simpa using hall s hs).symm,
        List.Subset.refl _, rfl⟩
    · push Not at hall
      obtain ⟨s, hs, hne⟩ := hall
      have hdel : handle db administrator (.deleteScope s.id) = some _ :=
        if_pos ⟨rfl, isSome_getScope hs⟩
      have hfew : ((db.scopes.filter (·.id ≠ s.id)).filter (·.id ≠ id)).length < n := by
        rw [← hn, filter_comm]
        refine length_filter_lt_length_iff_exists.mpr ⟨s, ?_, by simp⟩
        exact mem_filter.mpr ⟨hs, by simpa using hne⟩
      obtain ⟨db', hacc, hscs, hls, hrel⟩ :=
        ih _ hfew (h.tail ⟨_, _, hdel⟩) rfl
      refine ⟨db', hacc, hscs.trans ?_, fun r hr => mem_of_mem_filter (hls hr),
        hrel.trans (relayRows_filter hne rfl)⟩
      rw [List.filter_filter]
      refine filter_congr fun x _ => ?_
      by_cases hid : x.id = id
      · simp [hid, hne.symm]
      · simp [hid]

end Scopes

namespace Scopes6

/-! ### Rows of DHCPv6 -/

structure ScopeCreate where
  tenantId : Str
  name : Str
  description : Option Str := none
  subnet : Str
  poolStart : Str
  poolEnd : Str
  pdPrefix : Option Str := none
  pdPrefixLen : Option ℤ := none
  dnsServers : List Str := []
  domainName : Option Str := none
  interface : Option Str := none
  preferredLifetimeS : ℤ := 3000
  validLifetimeS : ℤ := 4000
  renewTimeS : Option ℤ := none
  rebindTimeS : Option ℤ := none
  ddnsEnabled : Bool := false
  ddnsZoneId : Option Str := none
  ddnsTtlS : ℤ := 300
  enabled : Bool := true
  deriving DecidableEq

structure DhcpScope6 extends ScopeCreate where
  id : Str
  deriving DecidableEq

structure ReservationCreate where
  duid : Str
  ipAddress : Str
  hostname : Option Str := none
  description : Option Str := none
  enabled : Bool := true
  deriving DecidableEq

structure DhcpStaticLease6 extends ReservationCreate where
  id : Str
  scopeId : Str
  tenantId : Str
  deriving DecidableEq

structure DhcpDb6 where
  tenants : List Str
  scopes : List DhcpScope6
  staticLeases : List DhcpStaticLease6
  issued : List Str
  deriving DecidableEq

def DhcpDb6.fresh (tenants : List Str) : DhcpDb6 := ⟨tenants, [], [], []⟩

/-- The columns of `dhcp_scopes6`. -/
def ScopeCreate.storable (b : ScopeCreate) : Bool :=
  varchar 36 b.tenantId && varchar 255 b.name && b.description.all (varchar 1024) &&
    varchar 50 b.subnet && varchar 45 b.poolStart && varchar 45 b.poolEnd &&
    b.pdPrefix.all (varchar 50) && b.pdPrefixLen.all int4 && b.domainName.all (varchar 255) &&
    b.interface.all (varchar 64) && int4 b.preferredLifetimeS && int4 b.validLifetimeS &&
    b.renewTimeS.all int4 && b.rebindTimeS.all int4 && b.ddnsZoneId.all (varchar 36) &&
    int4 b.ddnsTtlS

/-- The columns of `dhcp_static_leases6`. -/
def ReservationCreate.storable (b : ReservationCreate) : Bool :=
  varchar 255 b.duid && varchar 45 b.ipAddress && b.hostname.all (varchar 255) &&
    b.description.all (varchar 1024)

/-- `uq_dhcp_scope6_subnet`. -/
def DhcpDb6.subnetTaken (db : DhcpDb6) (tenantId subnet : Str) : Bool :=
  db.scopes.any fun s => s.tenantId = tenantId && s.subnet = subnet

/-! ### Endpoints of DHCPv6 -/

structure ScopeUpdate where
  name : Patch Str := .unset
  description : Patch Str := .unset
  poolStart : Patch Str := .unset
  poolEnd : Patch Str := .unset
  pdPrefix : Patch Str := .unset
  pdPrefixLen : Patch ℤ := .unset
  dnsServers : Patch (List Str) := .unset
  domainName : Patch Str := .unset
  interface : Patch Str := .unset
  preferredLifetimeS : Patch ℤ := .unset
  validLifetimeS : Patch ℤ := .unset
  renewTimeS : Patch ℤ := .unset
  rebindTimeS : Patch ℤ := .unset
  ddnsEnabled : Patch Bool := .unset
  ddnsZoneId : Patch Str := .unset
  ddnsTtlS : Patch ℤ := .unset
  enabled : Patch Bool := .unset

/-- The columns after `setattr` for every field that was set. -/
def ScopeUpdate.apply (p : ScopeUpdate) (b : ScopeCreate) : Option ScopeCreate := do
  let name ← p.name.required b.name
  let poolStart ← p.poolStart.required b.poolStart
  let poolEnd ← p.poolEnd.required b.poolEnd
  let dnsServers ← p.dnsServers.required b.dnsServers
  let preferredLifetimeS ← p.preferredLifetimeS.required b.preferredLifetimeS
  let validLifetimeS ← p.validLifetimeS.required b.validLifetimeS
  let ddnsEnabled ← p.ddnsEnabled.required b.ddnsEnabled
  let ddnsTtlS ← p.ddnsTtlS.required b.ddnsTtlS
  let enabled ← p.enabled.required b.enabled
  return { b with
    name, poolStart, poolEnd, dnsServers, preferredLifetimeS, validLifetimeS, ddnsEnabled,
    ddnsTtlS, enabled
    description := p.description.nullable b.description
    pdPrefix := p.pdPrefix.nullable b.pdPrefix
    pdPrefixLen := p.pdPrefixLen.nullable b.pdPrefixLen
    domainName := p.domainName.nullable b.domainName
    interface := p.interface.nullable b.interface
    renewTimeS := p.renewTimeS.nullable b.renewTimeS
    rebindTimeS := p.rebindTimeS.nullable b.rebindTimeS
    ddnsZoneId := p.ddnsZoneId.nullable b.ddnsZoneId }

/-- `_get_scope6_or_404` and `check_tenant_access`. -/
def getScope6 (db : DhcpDb6) (u : User) (scopeId : Str) : Option DhcpScope6 :=
  (db.scopes.find? (·.id = scopeId)).filter fun s => checkTenantAccess u s.tenantId

/-- `create_scope6`. -/
def createScope6 (db : DhcpDb6) (u : User) (id : Str) (b : ScopeCreate) : Option DhcpDb6 :=
  if u.hasRole .operator ∧ b.pdPrefixLen.all (within 1 128) ∧ 60 ≤ b.preferredLifetimeS ∧
      60 ≤ b.validLifetimeS ∧ checkTenantAccess u b.tenantId ∧ b.tenantId ∈ db.tenants ∧
      b.storable ∧ ¬ db.subnetTaken b.tenantId b.subnet ∧ id ∉ db.issued then
    some { db with scopes := db.scopes ++ [{ b with id }], issued := id :: db.issued }
  else none

/-- `update_scope6`. -/
def updateScope6 (db : DhcpDb6) (u : User) (scopeId : Str) (p : ScopeUpdate) : Option DhcpDb6 :=
  match getScope6 db u scopeId with
  | none => none
  | some s =>
    match p.apply s.toScopeCreate with
    | none => none
    | some b =>
      if u.hasRole .operator ∧ p.pdPrefixLen.all (within 1 128) ∧
          p.preferredLifetimeS.all (60 ≤ ·) ∧ p.validLifetimeS.all (60 ≤ ·) ∧ b.storable then
        some { db with scopes := replaceRow (·.id) scopeId { b with id := scopeId } db.scopes }
      else none

/-- `delete_scope6`; its reservations go with it. -/
def deleteScope6 (db : DhcpDb6) (u : User) (scopeId : Str) : Option DhcpDb6 :=
  if u.hasRole .operator ∧ (getScope6 db u scopeId).isSome then
    some { db with
      scopes := db.scopes.filter (·.id ≠ scopeId)
      staticLeases := db.staticLeases.filter (·.scopeId ≠ scopeId) }
  else none

structure ReservationUpdate where
  duid : Patch Str := .unset
  ipAddress : Patch Str := .unset
  hostname : Patch Str := .unset
  description : Patch Str := .unset
  enabled : Patch Bool := .unset

/-- The columns after `setattr` for every field that was set. -/
def ReservationUpdate.apply (p : ReservationUpdate) (b : ReservationCreate) :
    Option ReservationCreate := do
  let duid ← p.duid.required b.duid
  let ipAddress ← p.ipAddress.required b.ipAddress
  let enabled ← p.enabled.required b.enabled
  return {
    duid, ipAddress, enabled
    hostname := p.hostname.nullable b.hostname
    description := p.description.nullable b.description }

/-- `_get_reservation6_or_404`. -/
def getReservation6 (db : DhcpDb6) (scopeId reservationId : Str) : Option DhcpStaticLease6 :=
  db.staticLeases.find? fun r => r.id = reservationId ∧ r.scopeId = scopeId

/-- `create_reservation6`. -/
def createReservation6 (db : DhcpDb6) (u : User) (scopeId id : Str) (b : ReservationCreate) :
    Option DhcpDb6 :=
  match getScope6 db u scopeId with
  | none => none
  | some s =>
    if u.hasRole .operator ∧ b.storable ∧ id ∉ db.issued then
      some { db with
        staticLeases := db.staticLeases ++ [{ b with id, scopeId, tenantId := s.tenantId }]
        issued := id :: db.issued }
    else none

/-- `update_reservation6`. -/
def updateReservation6 (db : DhcpDb6) (u : User) (scopeId reservationId : Str)
    (p : ReservationUpdate) : Option DhcpDb6 :=
  match getScope6 db u scopeId, getReservation6 db scopeId reservationId with
  | some _, some r =>
    match p.apply r.toReservationCreate with
    | none => none
    | some b =>
      if u.hasRole .operator ∧ b.storable then
        some { db with
          staticLeases := replaceRow (·.id) reservationId { r with toReservationCreate := b }
            db.staticLeases }
      else none
  | _, _ => none

/-- `delete_reservation6`. -/
def deleteReservation6 (db : DhcpDb6) (u : User) (scopeId reservationId : Str) : Option DhcpDb6 :=
  if u.hasRole .operator ∧ (getScope6 db u scopeId).isSome ∧
      (getReservation6 db scopeId reservationId).isSome then
    some { db with staticLeases := db.staticLeases.filter (·.id ≠ reservationId) }
  else none

inductive Request
  | createScope (id : Str) (body : ScopeCreate)
  | updateScope (scopeId : Str) (body : ScopeUpdate)
  | deleteScope (scopeId : Str)
  | createReservation (scopeId id : Str) (body : ReservationCreate)
  | updateReservation (scopeId reservationId : Str) (body : ReservationUpdate)
  | deleteReservation (scopeId reservationId : Str)

def handle (db : DhcpDb6) (u : User) : Request → Option DhcpDb6
  | .createScope id b => createScope6 db u id b
  | .updateScope scopeId p => updateScope6 db u scopeId p
  | .deleteScope scopeId => deleteScope6 db u scopeId
  | .createReservation scopeId id b => createReservation6 db u scopeId id b
  | .updateReservation scopeId reservationId p => updateReservation6 db u scopeId reservationId p
  | .deleteReservation scopeId reservationId => deleteReservation6 db u scopeId reservationId

/-- Tables that requests have led to. -/
def Accepted (tenants : List Str) : DhcpDb6 → Prop :=
  Relation.ReflTransGen (fun db db' => ∃ u request, handle db u request = some db') (.fresh tenants)

end Scopes6

end Control
