/-
How the daemons load their configuration: `load_snapshot` of `db.rs` and
`load_snapshot6` of `db6.rs`.

A scope with an invalid subnet is skipped, and so is a relay with an invalid
address.  But a scope whose range does not parse, and a reservation whose address
does not parse, end the load with their error: nothing of any scope is loaded.

* `Dhcp4.Loader.loadSnapshot_eq_ok_iff`, `Dhcp6.Loader.loadSnapshot6_eq_ok_iff` —
  when a load succeeds, and with which snapshot;
* `Dhcp4.Loader.refresh_of_not_readable` — otherwise the daemon keeps the snapshot
  it has, whatever is edited;
* `Dhcp4.Loader.foldl_refresh` — so it has the last one that could be read;
* `Dhcp4.Loader.loadSnapshot_refines`, `Dhcp6.Loader.loadSnapshot6_refines` — what
  the lease machines see of a snapshot.
-/
import MantisDns.ScopeApi
import MantisDns.Dhcp4
import MantisDns.Dhcp6
import MantisDns.LongestMatch

open Text Table Dns Control LongestMatch List Option

namespace Dhcp.Loader

/-! ### What both loaders do -/

/-- The parsers of the crates `ipnet` and `hex`. -/
structure Crates where
  ipv4Net : Str → Option (Net 32)
  ipv6Net : Str → Option (Net 128)
  hexDecode : Str → Option (List UInt8)

def sampleNet : Net 32 := ⟨0x0A000000, 24, by decide⟩

/-- Crates that know a few texts. -/
def sampleCrates : Crates where
  ipv4Net s :=
    if s = "10.0.0.0/24" then some sampleNet
    else if s = "10.0.1.0/24" then some ⟨0x0A000100, 24, by decide⟩
    else none
  ipv6Net s :=
    if s = "2001:db8::/64" then some ⟨0x20010db8000000000000000000000000, 64, by decide⟩
    else if s = "2001:db8:1::/64" then
      some ⟨0x20010db8000100000000000000000000, 64, by decide⟩
    else none
  hexDecode s := if s = "0102" then some [1, 2] else none

variable {ν α σ β γ δ τ : Type}

/-- A text that has to parse, with the error if it does not. -/
def require (e : Str) : Option α → Except Str α
  | some a => .ok a
  | none => .error e

/-- A row with a subnet and a range: without a subnet it is skipped. -/
def readRange (subnet : Option ν) (start stop : Except Str α) (build : ν → α → α → σ) :
    Except Str (Option σ) :=
  match subnet with
  | none => .ok none
  | some subnet => do
    let start ← start
    let stop ← stop
    return some (build subnet start stop)

/-- The value of a row all of whose texts parse. -/
def wellFormedRange (subnet : Option ν) (start stop : Option α) (build : ν → α → α → σ) :
    Option σ := do
  let subnet ← subnet
  let start ← start
  let stop ← stop
  return build subnet start stop

section Read

variable {e : Str} {subnet : Option ν} {start stop ip : Option α} {build : ν → α → α → σ}
  {f : α → β}

theorem readRange_ok_iff :
    (∃ value, readRange subnet (require e start) (require e stop) build = .ok value) ↔
      (subnet.isSome → start.isSome ∧ stop.isSome) := by
  cases subnet with
  | none => simp [readRange]
  | some =>
    cases start <;> cases stop <;>
      simp [readRange, require, bind, Except.bind, pure, Except.pure]

theorem readValue_readRange {ρ : Type} {subnet : ρ → Option ν} {start stop : ρ → Option α}
    {build : ρ → ν → α → α → σ} :
    readValue (fun row =>
        readRange (subnet row) (require e (start row)) (require e (stop row)) (build row)) =
      fun row => wellFormedRange (subnet row) (start row) (stop row) (build row) := by
  funext row
  rw [readValue]
  cases subnet row with
  | none => rfl
  | some => cases start row <;> cases stop row <;> rfl

theorem require_bind_ok_iff :
    (∃ value, (require e ip >>= fun a => .ok (some (f a))) = .ok value) ↔ ip.isSome := by
  cases ip <;> simp [require, bind, Except.bind]

theorem readValue_require {ρ : Type} {ip : ρ → Option α} {f : ρ → α → β} :
    readValue (fun row => require e (ip row) >>= fun a => .ok (some (f row a))) =
      fun row => (ip row).map (f row) := by
  funext row
  rw [readValue]
  cases ip row <;> rfl

theorem readTables_eq_ok_iff {readScope : σ → Except Str (Option β)}
    {readReservation : τ → Except Str (Option γ)} {scopes : List σ} {leases : List τ}
    {make : List β → List γ → δ} {out : δ} :
    (do
      let a ← readRows readScope scopes
      let b ← readRows readReservation leases
      return make a b) = .ok out ↔
    ((∀ row ∈ scopes, ∃ value, readScope row = .ok value) ∧
        ∀ row ∈ leases, ∃ value, readReservation row = .ok value) ∧
      out = make (scopes.filterMap (readValue readScope))
        (leases.filterMap (readValue readReservation)) := by
  simp only [bind_eq_ok_iff, readRows_eq_ok_iff]
  constructor
  · rintro ⟨a, ⟨hscs, rfl⟩, b, ⟨hls, rfl⟩, ⟨⟩⟩
    exact ⟨⟨hscs, hls⟩, rfl⟩
  · rintro ⟨⟨hscs, hls⟩, rfl⟩
    exact ⟨_, ⟨hscs, rfl⟩, _, ⟨hls, rfl⟩, rfl⟩

end Read

section Machine

variable {κ χ : Type} [DecidableEq κ] {F : Family σ κ χ}

theorem loadSnapshot_of_isSome {config : Config σ}
    (h : ∀ r ∈ config.reservations, r.enabled → (F.parse r.ipAddress).isSome) :
    F.loadSnapshot config = some ⟨config.scopes, (config.reservations.filter (·.enabled)).filterMap
      fun r => (F.parse r.ipAddress).map fun ip => ⟨r.scopeId, r.client, ip, r.hostname⟩⟩ := by
  rw [Family.loadSnapshot, mapM_of_forall_isSome (by simpa using h)]
  rfl

/-- **The lease machine finds the reservations that were loaded**, where it has the same rows
and tells clients apart alike. -/
theorem reservationFor_map {m : Snapshot σ κ} {loaded : List ((Str × Str) × β)}
    {seen : β → κ × Option Str} (key : Str → Str) (text : χ → Str)
    (hread : m.reservations.map (fun r => ((r.scopeId, key r.client), r.ip, r.hostname)) =
      loaded.map fun e => (e.1, seen e.2))
    (howns : ∀ client c, F.owns client c = true ↔ key client = text c) (scopeId : Str) (c : χ) :
    (F.reservationFor m scopeId c).map (fun r => (r.ip, r.hostname)) =
      ((loaded.reverse.find? (·.1 = (scopeId, text c))).map (·.2)).map seen := by
  have hfind := congrArg (fun l => (l.reverse.find? (·.1 = (scopeId, text c))).map (·.2)) hread
  simp only [← map_reverse, find?_map, Option.map_map] at hfind
  rw [Option.map_map]
  refine Eq.trans (congrArg (Option.map _) (find?_congr fun r _ => ?_)) hfind
  simp [howns, Prod.ext_iff]

end Machine

end Dhcp.Loader

open Dhcp.Loader

namespace Dhcp4.Loader

variable {db : DhcpDb} {s : Snapshot}

open Control.Scopes

/-! ### Snapshots of DHCPv4 -/

/-- `Scope`: what the lease machine uses, and what its answers carry. -/
structure Scope extends Dhcp4.Scope where
  tenantId : Str
  name : Str
  subnet : Net 32
  routerIp : Option UInt32
  dnsServers : List UInt32
  domainName : Option Str
  interface : Option Str
  renewTimeS : Option ℤ
  rebindTimeS : Option ℤ
  ddnsEnabled : Bool
  pxeNextServer : Option UInt32
  pxeBootFilename : Option Str
  pxeUefiBootFilename : Option Str

structure Reservation where
  id : Str
  ipAddress : UInt32
  hostname : Option Str
  nextServer : Option UInt32
  bootFilename : Option Str
  uefiBootFilename : Option Str

structure CustomOption where
  optionCode : ℤ
  value : Str

structure RelayConfigEntry where
  relayIp : UInt32
  circuitId : Option (List UInt8)
  remoteId : Option (List UInt8)
  deriving DecidableEq

/-- `Snapshot`.  A map is the list of what was put into it. -/
structure Snapshot where
  scopes : List Scope
  reservations : List ((Str × Str) × Reservation)
  relayConfigsByScope : List (Str × RelayConfigEntry)
  scopeOptions : List (Str × CustomOption)
  reservationOptions : List (Str × CustomOption)

/-- `reservation_for`: the last entry of a key is the one in the map. -/
def Snapshot.reservationFor (s : Snapshot) (scopeId mac : Str) : Option Reservation :=
  (s.reservations.reverse.find? (·.1 = (scopeId, lowerAscii mac))).map (·.2)

/-! ### Rows -/

/-- `parse_ip`. -/
def parseIp (s : Str) : Except Str UInt32 :=
  require "invalid IPv4 address syntax" (parseIpv4 s)

/-- `opt_parse_ip`. -/
def optParseIp (s : Option Str) : Option UInt32 := s.bind parseIpv4

variable (C : Crates)

/-- `parse_hex_bytes`. -/
def parseHexBytes (s : Str) : Option (List UInt8) :=
  let s := trim s
  C.hexDecode (((stripPrefix "0x" s).or (stripPrefix "0X" s)).getD s)

/-- The scope of a row, once the three texts that it depends on are parsed. -/
def scopeOf (row : DhcpScope) (subnet : Net 32) (rangeStart rangeEnd : UInt32) : Scope where
  id := row.id
  rangeStart := rangeStart
  rangeEnd := rangeEnd
  leaseTimeS := row.leaseTimeS
  tenantId := row.tenantId
  name := row.name
  subnet := subnet
  routerIp := optParseIp row.routerIp
  dnsServers := row.dnsServers.filterMap parseIpv4
  domainName := row.domainName
  interface := row.interface
  renewTimeS := row.renewTimeS
  rebindTimeS := row.rebindTimeS
  ddnsEnabled := row.ddnsEnabled
  pxeNextServer := optParseIp row.pxeNextServer
  pxeBootFilename := row.pxeBootFilename
  pxeUefiBootFilename := row.pxeUefiBootFilename

/-- One row of `dhcp_scopes`. -/
def readScope (row : DhcpScope) : Except Str (Option Scope) :=
  readRange (C.ipv4Net row.subnet) (parseIp row.rangeStart) (parseIp row.rangeEnd) (scopeOf row)

/-- The entry of a reservation, under its scope and client. -/
def reservationOf (row : DhcpStaticLease) (ip : UInt32) : (Str × Str) × Reservation :=
  ((row.scopeId, lowerAscii row.macAddress),
    ⟨row.id, ip, row.hostname, optParseIp row.nextServer, row.bootFilename, row.uefiBootFilename⟩)

/-- One row of `dhcp_static_leases`. -/
def readReservation (row : DhcpStaticLease) : Except Str (Option ((Str × Str) × Reservation)) := do
  let ip ← parseIp row.ipAddress
  return some (reservationOf row ip)

/-- One row of `dhcp_relay_configs`. -/
def relayOf (row : DhcpRelayConfig) : Option (Str × RelayConfigEntry) :=
  (parseIpv4 row.relayIp).map fun relayIp =>
    (row.scopeId,
      ⟨relayIp, row.circuitIdHex.bind (parseHexBytes C), row.remoteIdHex.bind (parseHexBytes C)⟩)

/-- One row of `dhcp_options`: of its scope, or else of its reservation. -/
def scopeOptionOf (row : DhcpOption) : Option (Str × CustomOption) :=
  row.scopeId.map (·, ⟨row.optionCode, row.value⟩)

def reservationOptionOf (row : DhcpOption) : Option (Str × CustomOption) :=
  if row.scopeId.isSome then none else row.staticLeaseId.map (·, ⟨row.optionCode, row.value⟩)

/-- The rows of the space that the daemon serves. -/
def optionRows (db : DhcpDb) : List DhcpOption :=
  db.options.filter (·.optionSpace = "dhcp4")

/-- `load_snapshot`. -/
def loadSnapshot (db : DhcpDb) : Except Str Snapshot := do
  let scopes ← readRows (readScope C) (db.scopes.filter (·.enabled))
  let reservations ← readRows readReservation (db.staticLeases.filter (·.enabled))
  return {
    scopes, reservations
    relayConfigsByScope := db.relayConfigs.filterMap (relayOf C)
    scopeOptions := (optionRows db).filterMap scopeOptionOf
    reservationOptions := (optionRows db).filterMap reservationOptionOf }

/-! ### What can be read -/

/-- The scope of a row that is well formed. -/
def wellFormedScope (row : DhcpScope) : Option Scope :=
  wellFormedRange (C.ipv4Net row.subnet) (parseIpv4 row.rangeStart) (parseIpv4 row.rangeEnd)
    (scopeOf row)

def wellFormedReservation (row : DhcpStaticLease) : Option ((Str × Str) × Reservation) :=
  (parseIpv4 row.ipAddress).map (reservationOf row)

/-- What the well-formed rows say, each for itself. -/
def wellFormed (db : DhcpDb) : Snapshot where
  scopes := (db.scopes.filter (·.enabled)).filterMap (wellFormedScope C)
  reservations := (db.staticLeases.filter (·.enabled)).filterMap wellFormedReservation
  relayConfigsByScope := db.relayConfigs.filterMap (relayOf C)
  scopeOptions := (optionRows db).filterMap scopeOptionOf
  reservationOptions := (optionRows db).filterMap reservationOptionOf

/-- **Faults are isolated**: a row that is not well formed takes nothing else with
it. -/
def Isolates (db : DhcpDb) : Prop := loadSnapshot C db = .ok (wellFormed C db)

/-- No enabled scope has a range that does not parse beside a subnet that does, and
no enabled reservation has an address that does not parse. -/
structure Readable (db : DhcpDb) : Prop where
  scopes : ∀ row ∈ db.scopes, row.enabled = true → (C.ipv4Net row.subnet).isSome →
    (parseIpv4 row.rangeStart).isSome ∧ (parseIpv4 row.rangeEnd).isSome
  reservations : ∀ row ∈ db.staticLeases, row.enabled = true → (parseIpv4 row.ipAddress).isSome

variable {C}

theorem readValue_readScope : readValue (readScope C) = wellFormedScope C := readValue_readRange

theorem readValue_readReservation : readValue readReservation = wellFormedReservation :=
  readValue_require

theorem readable_iff : Readable C db ↔
    (∀ row ∈ db.scopes.filter (·.enabled), (C.ipv4Net row.subnet).isSome →
      (parseIpv4 row.rangeStart).isSome ∧ (parseIpv4 row.rangeEnd).isSome) ∧
    ∀ row ∈ db.staticLeases.filter (·.enabled), (parseIpv4 row.ipAddress).isSome := by
  simp only [mem_filter, and_imp]
  exact ⟨fun h => ⟨h.scopes, h.reservations⟩, fun h => ⟨h.1, h.2⟩⟩

/-- **A load succeeds exactly when every row of every scope is readable**, and then
nothing that is well formed is missing. -/
theorem loadSnapshot_eq_ok_iff :
    loadSnapshot C db = .ok s ↔ Readable C db ∧ s = wellFormed C db := by
  refine readTables_eq_ok_iff.trans ?_
  rw [readValue_readScope, readValue_readReservation]
  simp only [readScope, readReservation, parseIp, pure, Except.pure, readRange_ok_iff,
    require_bind_ok_iff]
  exact and_congr_left fun _ => readable_iff.symm

theorem isolates_iff : Isolates C db ↔ Readable C db := by
  rw [Isolates, loadSnapshot_eq_ok_iff]
  exact and_iff_left rfl

/-- One turn of `refresh_loop`. -/
def refresh (C : Crates) (db : DhcpDb) (old : Snapshot) : Snapshot :=
  match loadSnapshot C db with
  | .ok s => s
  | .error _ => old

/-- **As long as one row cannot be read, no edit of any scope takes effect.** -/
theorem refresh_of_not_readable (h : ¬Readable C db) (old : Snapshot) :
    refresh C db old = old := by
  rw [refresh]
  split
  · rename_i s hload
    exact absurd (loadSnapshot_eq_ok_iff.mp hload).1 h
  · rfl

open Classical in
/-- **After any number of turns the daemon has the last configuration that could be read.** -/
theorem foldl_refresh (dbs : List DhcpDb) (old : Snapshot) :
    dbs.foldl (fun s db => refresh C db s) old =
      ((dbs.reverse.find? fun db => Readable C db).map (wellFormed C)).getD old := by
  induction dbs using reverseRecOn with
  | nil => rfl
  | append_singleton dbs db ih =>
    rw [foldl_append, foldl_cons, foldl_nil, ih, reverse_concat', find?_cons]
    by_cases h : Readable C db
    · rw [refresh, loadSnapshot_eq_ok_iff.mpr ⟨h, rfl⟩]
      simp [h]
    · rw [refresh_of_not_readable h]
      simp [h]

/-! ### What the lease machine sees -/

/-- The configuration of the lease machine: the scopes, parsed, and the
reservations, as they were entered. -/
def config (C : Crates) (db : DhcpDb) : Dhcp.Config Dhcp4.Scope where
  scopes := (wellFormed C db).scopes.map (·.toScope)
  reservations := db.staticLeases.map fun row =>
    ⟨row.scopeId, row.macAddress, row.ipAddress, row.hostname, row.enabled⟩

/-- **The lease machine sees the scopes that were loaded, and finds the reservations
that were loaded.** -/
theorem loadSnapshot_refines (h : loadSnapshot C db = .ok s) :
    ∃ m, family.loadSnapshot (config C db) = some m ∧ m.scopes = s.scopes.map (·.toScope) ∧
      ∀ scopeId mac, (family.reservationFor m scopeId mac).map (fun r => (r.ip, r.hostname)) =
        (s.reservationFor scopeId mac.text).map fun r => (r.ipAddress, r.hostname) := by
  obtain ⟨hrea, rfl⟩ := loadSnapshot_eq_ok_iff.mp h
  refine ⟨_, loadSnapshot_of_isSome ?_, rfl, fun scopeId mac => ?_⟩
  · simpa [config, family] using hrea.reservations
  -- both compare the address entered and the one of the packet in lower case
  refine reservationFor_map (F := family) lowerAscii (fun mac => lowerAscii mac.text) ?_
    (fun _ _ => decide_eq_true_iff) scopeId mac
  simp only [config, wellFormed, List.filter_map, filterMap_map, map_filterMap]
  refine filterMap_congr fun row _ => ?_
  simp only [Function.comp_apply, wellFormedReservation, Option.map_map]
  rfl

/-- A reservation that was entered in upper case. -/
def sampleReserved : DhcpDb :=
  { DhcpDb.fresh [] with staticLeases :=
    [{ id := "1", scopeId := "2", tenantId := "3", macAddress := "AA", ipAddress := "10.0.0.7" }] }

theorem loadSnapshot_refines_upper :
    ∃ m, family.loadSnapshot (config sampleCrates sampleReserved) = some m ∧
      (family.reservationFor m "2" (macFromChaddr [0xAA])).map (fun r => (r.ip, r.hostname)) =
        some (0x0A000007, none) := by
  have h : Isolates sampleCrates sampleReserved :=
    isolates_iff.mpr ⟨by decide +kernel, by decide +kernel⟩
  obtain ⟨m, hm, -, hfound⟩ := loadSnapshot_refines h
  exact ⟨m, hm, (hfound _ _).trans (by decide +kernel)⟩

end Dhcp4.Loader

namespace Dhcp6.Loader

variable {db : DhcpDb6} {s : Snapshot}

open Control.Scopes6

/-! ### Snapshots of DHCPv6 -/

/-- `Scope6`. -/
structure Scope extends Dhcp6.Scope where
  tenantId : Str
  name : Str
  subnet : Net 128
  dnsServers : List (BitVec 128)
  domainName : Option Str
  interface : Option Str
  renewTimeS : Option ℤ
  rebindTimeS : Option ℤ
  ddnsEnabled : Bool

/-- `Reservation6`. -/
structure Reservation where
  id : Str
  ipAddress : BitVec 128
  hostname : Option Str

/-- `Snapshot6`. -/
structure Snapshot where
  scopes : List Scope
  reservations : List ((Str × Str) × Reservation)

/-- `reservation_for`. -/
def Snapshot.reservationFor (s : Snapshot) (scopeId duid : Str) : Option Reservation :=
  (s.reservations.reverse.find? (·.1 = (scopeId, normalizeDuid duid))).map (·.2)

/-! ### Rows -/

/-- `parse_ip6`. -/
def parseIp6 (s : Str) : Except Str (BitVec 128) :=
  require "invalid IPv6 address syntax" (parseIpv6 s)

/-- The scope of a row, once the three texts that it depends on are parsed.  What is
delegated is optional, so a net that does not parse is none. -/
def scopeOf (row : DhcpScope6) (subnet : Net 128) (poolStart poolEnd : BitVec 128) : Scope where
  id := row.id
  poolStart := poolStart
  poolEnd := poolEnd
  pdPrefix := row.pdPrefix.bind parseIpv6
  pdPrefixLen := row.pdPrefixLen.map fun v => UInt8.ofNat (v % 256).toNat
  preferredLifetimeS := row.preferredLifetimeS
  validLifetimeS := row.validLifetimeS
  tenantId := row.tenantId
  name := row.name
  subnet := subnet
  dnsServers := row.dnsServers.filterMap parseIpv6
  domainName := row.domainName
  interface := row.interface
  renewTimeS := row.renewTimeS
  rebindTimeS := row.rebindTimeS
  ddnsEnabled := row.ddnsEnabled

variable (C : Crates)

/-- One row of `dhcp_scopes6`. -/
def readScope (row : DhcpScope6) : Except Str (Option Scope) :=
  readRange (C.ipv6Net row.subnet) (parseIp6 row.poolStart) (parseIp6 row.poolEnd) (scopeOf row)

/-- The entry of a reservation, under its scope and client. -/
def reservationOf (row : DhcpStaticLease6) (ip : BitVec 128) : (Str × Str) × Reservation :=
  ((row.scopeId, normalizeDuid row.duid), ⟨row.id, ip, row.hostname⟩)

/-- One row of `dhcp_static_leases6`. -/
def readReservation (row : DhcpStaticLease6) : Except Str (Option ((Str × Str) × Reservation)) := do
  let ip ← parseIp6 row.ipAddress
  return some (reservationOf row ip)

/-- `load_snapshot6`. -/
def loadSnapshot6 (db : DhcpDb6) : Except Str Snapshot := do
  let scopes ← readRows (readScope C) (db.scopes.filter (·.enabled))
  let reservations ← readRows readReservation (db.staticLeases.filter (·.enabled))
  return { scopes, reservations }

/-! ### What can be read -/

/-- The scope of a row that is well formed. -/
def wellFormedScope (row : DhcpScope6) : Option Scope :=
  wellFormedRange (C.ipv6Net row.subnet) (parseIpv6 row.poolStart) (parseIpv6 row.poolEnd)
    (scopeOf row)

def wellFormedReservation (row : DhcpStaticLease6) : Option ((Str × Str) × Reservation) :=
  (parseIpv6 row.ipAddress).map (reservationOf row)

/-- What the well-formed rows say, each for itself. -/
def wellFormed (db : DhcpDb6) : Snapshot where
  scopes := (db.scopes.filter (·.enabled)).filterMap (wellFormedScope C)
  reservations := (db.staticLeases.filter (·.enabled)).filterMap wellFormedReservation

/-- **Faults are isolated**: a row that is not well formed takes nothing else with
it. -/
def Isolates (db : DhcpDb6) : Prop := loadSnapshot6 C db = .ok (wellFormed C db)

/-- No enabled scope has a pool that does not parse beside a subnet that does, and
no enabled reservation has an address that does not parse. -/
structure Readable (db : DhcpDb6) : Prop where
  scopes : ∀ row ∈ db.scopes, row.enabled = true → (C.ipv6Net row.subnet).isSome →
    (parseIpv6 row.poolStart).isSome ∧ (parseIpv6 row.poolEnd).isSome
  reservations : ∀ row ∈ db.staticLeases, row.enabled = true → (parseIpv6 row.ipAddress).isSome

variable {C}

theorem readValue_readScope : readValue (readScope C) = wellFormedScope C := readValue_readRange

theorem readValue_readReservation : readValue readReservation = wellFormedReservation :=
  readValue_require

theorem readable_iff : Readable C db ↔
    (∀ row ∈ db.scopes.filter (·.enabled), (C.ipv6Net row.subnet).isSome →
      (parseIpv6 row.poolStart).isSome ∧ (parseIpv6 row.poolEnd).isSome) ∧
    ∀ row ∈ db.staticLeases.filter (·.enabled), (parseIpv6 row.ipAddress).isSome := by
  simp only [mem_filter, and_imp]
  exact ⟨fun h => ⟨h.scopes, h.reservations⟩, fun h => ⟨h.1, h.2⟩⟩

/-- **A load succeeds exactly when every row of every scope is readable**, and then
nothing that is well formed is missing. -/
theorem loadSnapshot6_eq_ok_iff :
    loadSnapshot6 C db = .ok s ↔ Readable C db ∧ s = wellFormed C db := by
  refine readTables_eq_ok_iff.trans ?_
  rw [readValue_readScope, readValue_readReservation]
  simp only [readScope, readReservation, parseIp6, pure, Except.pure, readRange_ok_iff,
    require_bind_ok_iff]
  exact and_congr_left fun _ => readable_iff.symm

theorem isolates_iff : Isolates C db ↔ Readable C db := by
  rw [Isolates, loadSnapshot6_eq_ok_iff]
  exact and_iff_left rfl

/-! ### What the lease machine sees -/

/-- The configuration of the lease machine. -/
def config (C : Crates) (db : DhcpDb6) : Dhcp.Config Dhcp6.Scope where
  scopes := (wellFormed C db).scopes.map (·.toScope)
  reservations := db.staticLeases.map fun row =>
    ⟨row.scopeId, row.duid, row.ipAddress, row.hostname, row.enabled⟩

/-- **The lease machine sees the scopes that were loaded, and finds the reservations
that were loaded.** -/
theorem loadSnapshot6_refines (h : loadSnapshot6 C db = .ok s) :
    ∃ m, family.loadSnapshot (config C db) = some m ∧ m.scopes = s.scopes.map (·.toScope) ∧
      ∀ scopeId duid, (family.reservationFor m scopeId duid).map (fun r => (r.ip, r.hostname)) =
        (s.reservationFor scopeId duid.text).map fun r => (.na r.ipAddress, r.hostname) := by
  obtain ⟨hrea, rfl⟩ := loadSnapshot6_eq_ok_iff.mp h
  refine ⟨_, loadSnapshot_of_isSome ?_, rfl, fun scopeId duid => ?_⟩
  · simpa [config, family] using hrea.reservations
  refine reservationFor_map (F := family) normalizeDuid (fun duid => normalizeDuid duid.text) ?_
    (fun _ duid => by simp [family, owns, duid.normal]) scopeId duid
  simp only [config, wellFormed, List.filter_map, filterMap_map, map_filterMap]
  refine filterMap_congr fun row _ => ?_
  simp only [Function.comp_apply, wellFormedReservation, family, Option.map_map]
  rfl

end Dhcp6.Loader

namespace Dhcp

/-! ### Faults of the configuration -/

/-- **Faults are isolated exactly when no row of any tenant ends the load.**  In
every other case one row, of whatever tenant, keeps the well-formed scopes of all
tenants from being loaded. -/
theorem isolates_iff_readable (C : Crates) (db : Scopes.DhcpDb) (db6 : Scopes6.DhcpDb6) :
    (Dhcp4.Loader.Isolates C db ↔ Dhcp4.Loader.Readable C db) ∧
      (Dhcp6.Loader.Isolates C db6 ↔ Dhcp6.Loader.Readable C db6) :=
  ⟨Dhcp4.Loader.isolates_iff, Dhcp6.Loader.isolates_iff⟩

def sampleTenants : List Str := ["red", "blue"]

def sampleOperator (tenant : String) : User := ⟨.operator, some tenant.toList⟩

/-- A scope of the first, and one of the second with a slip in its range. -/
def sampleScope4 : Scopes.ScopeCreate :=
  { tenantId := "red", name := "office", subnet := "10.0.0.0/24",
    rangeStart := "10.0.0.1", rangeEnd := "10.0.0.9" }

def sampleSlip4 : Scopes.ScopeCreate :=
  { tenantId := "blue", name := "lab", subnet := "10.0.1.0/24",
    rangeStart := "10.0.1.1", rangeEnd := "10.0.1.300" }

def sampleDb4 : Scopes.DhcpDb :=
  { Scopes.DhcpDb.fresh sampleTenants with
    scopes := [{ sampleScope4 with id := "1" }, { sampleSlip4 with id := "2" }]
    issued := ["2", "1"] }

/-- A scope of the first tenant, and a reservation of the second one for an address
that it wrote with its length. -/
def sampleScope6 (tenant : String) (subnet : String) : Scopes6.ScopeCreate :=
  { tenantId := tenant.toList, name := "office", subnet := subnet.toList,
    poolStart := "2001:db8::1", poolEnd := "2001:db8::9" }

def sampleSlip6 : Scopes6.ReservationCreate :=
  { duid := "000300010203", ipAddress := "2001:db8:1::7/64" }

def sampleDb6 : Scopes6.DhcpDb6 :=
  { Scopes6.DhcpDb6.fresh sampleTenants with
    scopes := [{ sampleScope6 "red" "2001:db8::/64" with id := "1" },
      { sampleScope6 "blue" "2001:db8:1::/64" with id := "2" }]
    staticLeases :=
      [{ sampleSlip6 with id := "3", scopeId := "2", tenantId := "blue" }]
    issued := ["3", "2", "1"] }

theorem accepted_sampleDb4 : Scopes.Accepted sampleTenants sampleDb4 := by
  refine .tail (.tail .refl ⟨sampleOperator "red", .createScope "1" sampleScope4, rfl⟩)
    ⟨sampleOperator "blue", .createScope "2" sampleSlip4, ?_⟩
  decide +kernel

theorem accepted_sampleDb6 : Scopes6.Accepted sampleTenants sampleDb6 := by
  refine .tail (.tail (.tail .refl
    ⟨sampleOperator "red", .createScope "1" (sampleScope6 "red" "2001:db8::/64"), rfl⟩)
    ⟨sampleOperator "blue", .createScope "2" (sampleScope6 "blue" "2001:db8:1::/64"), rfl⟩)
    ⟨sampleOperator "blue", .createReservation "2" "3" sampleSlip6, ?_⟩
  decide +kernel

/-- A slip of one tenant, which the API stores, keeps the scope of the other from
being loaded. -/
theorem slips_not_isolated :
    (Scopes.Accepted sampleTenants sampleDb4 ∧
      (∃ row ∈ sampleDb4.scopes, row.tenantId = "red" ∧ row.enabled = true ∧
        (Dhcp4.Loader.wellFormedScope sampleCrates row).isSome) ∧
      ¬Dhcp4.Loader.Isolates sampleCrates sampleDb4) ∧
    Scopes6.Accepted sampleTenants sampleDb6 ∧
      (∃ row ∈ sampleDb6.scopes, row.tenantId = "red" ∧ row.enabled = true ∧
        (Dhcp6.Loader.wellFormedScope sampleCrates row).isSome) ∧
      ¬Dhcp6.Loader.Isolates sampleCrates sampleDb6 := by
  refine ⟨⟨accepted_sampleDb4, by decide +kernel, fun h => ?_⟩,
    accepted_sampleDb6, by decide +kernel, fun h => ?_⟩
  · have hscs := (Dhcp4.Loader.isolates_iff.mp h).scopes
    revert hscs
    decide +kernel
  · have hls := (Dhcp6.Loader.isolates_iff.mp h).reservations
    revert hls
    decide +kernel

end Dhcp
