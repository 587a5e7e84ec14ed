/-
The DNS zone API: `api/zone_routers.py`.

Zones, their records and the DHCP scopes that feed them are rows of the
database; the validators of the payloads and the handlers decide which requests
change them.  An endpoint is `none` where the request is refused, be it by
pydantic, by the handler or by a constraint of the database.  Columns that no
record served to a node depends on are left out.

* `Change` — what a transaction can do to the tables;
* `Change.wellFormed`, `Change.keyed` — the ranges and keys that every change
  keeps;
* `Change.evolves` — the columns that stay with an id for ever.
-/
import MantisDns.PolicyTest
import MantisDns.Table

open Text Table List Option

namespace Control

/-! ### Users -/

inductive Role
  | viewer
  | operator
  | admin
  deriving DecidableEq

/-- `_ROLE_RANK`. -/
def Role.rank : Role → ℕ
  | .viewer => 0
  | .operator => 1
  | .admin => 2

structure User where
  role : Role
  tenantId : Option Str
  deriving DecidableEq

/-- `require_role`, with the lowest role that is let in. -/
def User.hasRole (u : User) (least : Role) : Bool := least.rank ≤ u.role.rank

/-- `check_tenant_access`. -/
def checkTenantAccess (u : User) (tenantId : Str) : Bool :=
  u.role = .admin || u.tenantId.all (· = tenantId)

end Control

namespace Control.Zones

/-! ### Rows -/

/-- `zone_type`; an update may store any text. -/
inductive ZoneType
  | «local»
  | forward
  | passthrough
  | other (text : Str)
  deriving DecidableEq

/-- `_RECORD_TYPES`. -/
inductive RecordKind
  | a
  | aaaa
  | cname
  | mx
  | txt
  | ns
  | ptr
  | srv
  | caa
  deriving DecidableEq

def RecordKind.text : RecordKind → Str
  | .a => "A"
  | .aaaa => "AAAA"
  | .cname => "CNAME"
  | .mx => "MX"
  | .txt => "TXT"
  | .ns => "NS"
  | .ptr => "PTR"
  | .srv => "SRV"
  | .caa => "CAA"

structure DnsZone where
  id : Str
  tenantId : Option Str
  name : Str
  zoneType : ZoneType
  enabled : Bool
  ttlDefault : ℤ
  forwarder : Option Str
  deriving DecidableEq

structure DnsRecord where
  id : Str
  zoneId : Str
  name : Str
  recordType : RecordKind
  ttl : Option ℤ
  data : Str
  priority : Option ℤ
  enabled : Bool
  ddnsOwnerMac : Option Str
  ddnsOwnerDuid : Option Str
  deriving DecidableEq

/-- `DhcpScope` and `DhcpScope6`. -/
structure DhcpScope where
  id : Str
  tenantId : Str
  ddnsEnabled : Bool
  ddnsZoneId : Option Str
  ddnsTtlS : ℤ
  deriving DecidableEq

/-- The tables.  `issued` holds the UUIDs handed out so far: a new row gets one
that was never used. -/
structure ZoneDb where
  tenants : List Str
  zones : List DnsZone
  records : List DnsRecord
  scopes : List DhcpScope
  scopes6 : List DhcpScope
  issued : List Str
  deriving DecidableEq

def ZoneDb.fresh (tenants : List Str) : ZoneDb := ⟨tenants, [], [], [], [], []⟩

def ZoneDb.zoneIds (db : ZoneDb) : List Str := db.zones.map (·.id)

/-! ### Validators -/

/-- What the validators use of Python's library besides `str.lower`. -/
structure Python extends CaseMap where
  /-- The version of `ipaddress.ip_address(text)`. -/
  ipVersion : Str → Option ℕ
  /-- `int(text)`. -/
  int : Str → Option ℤ

/-- The pattern `label(\.label)*`. -/
def isLabels (alnum : Char → Bool) (s : Str) : Bool := (s.splitOn '.').all (isLabel alnum)

/-- `_ZONE_NAME_RE.match`: `$` also matches before a final newline. -/
def zoneNameRe (s : Str) : Bool :=
  isLabels isAlnumIgnoreCase s ||
    (s.getLast? == some '\n' && isLabels isAlnumIgnoreCase s.dropLast)

/-- The validator `_name` of `ZoneCreate` and `ZoneUpdate`. -/
def zoneName (U : CaseMap) (v : Str) : Option Str :=
  let v := trimDots (U.lower (strip v))
  if v ≠ [] ∧ zoneNameRe v then some v else none

/-- `_OWNER_LABEL_RE.fullmatch`. -/
def ownerLabelRe (label : Str) : Bool := isLabel (fun c => isAlnumIgnoreCase c || c == '_') label

/-- `_validate_dns_name`. -/
def validateDnsName (value : Str) (wildcard : Bool) : Option Str :=
  let value := strip value
  let bare := if value.getLast? = some '.' then value.dropLast else value
  let labels := bare.splitOn '.'
  let labels := if wildcard ∧ labels.head? = some "*".toList then labels.tail else labels
  if bare = [] ∨ 253 < bare.length ∨ labels = [] ∨ ¬ labels.all ownerLabelRe then none
  else some value

/-- `_validate_record_field`. -/
def validateRecordField (v : Str) : Option Str :=
  let v := strip v
  if v = [] ∨ v.head? = some '$' then none else some v

/-- `str.split()`. -/
def words (s : Str) : List Str := (s.splitOnP isSpace).filter (· ≠ [])

/-- `_validate_record_semantics`. -/
def validateRecordSemantics (P : Python) (recordType : RecordKind) (data : Str)
    (priority : Option ℤ) : Bool :=
  priority.all (within 0 65535) &&
    match recordType with
    | .a => P.ipVersion data = some 4
    | .aaaa => P.ipVersion data = some 6
    | .cname | .ns | .ptr | .mx => (validateDnsName data false).isSome
    | .srv =>
      match words data with
      | [weight, port, target] =>
        (P.int weight).any (within 0 65535) && (P.int port).any (within 0 65535) &&
          (validateDnsName target false).isSome
      | _ => false
    | .caa =>
      -- `data.split(maxsplit=1)`
      let tag := (data.dropWhile isSpace).takeWhile (!isSpace ·)
      let value := strip ((data.dropWhile isSpace).dropWhile (!isSpace ·))
      (tag = "issue" || tag = "issuewild") && value ≠ [] &&
        (value = ";" || (validateDnsName value false).isSome)
    | .txt => true

/-- `_relative_owner`. -/
def relativeOwner (U : CaseMap) (name zoneName : Str) : Str :=
  let bare := trimDots (U.lower (strip name))
  let zone := trimDots (U.lower zoneName)
  if bare = zone then "@" else (stripSuffix ('.' :: zone) bare).getD bare

/-- The validator `_rname` of `RecordIn` and `RecordUpdate`. -/
def recordName (v : Str) : Option Str := do
  let v ← validateRecordField v
  if v = "@" ∨ (validateDnsName v true).isSome then some v else none

/-! ### Zone endpoints -/

structure ZoneCreate where
  tenantId : Str
  name : Str
  zoneType : ZoneType
  enabled : Bool := true
  ttlDefault : ℤ := 300
  forwarder : Option Str := none

/-- The validators `_zone_type` and `_ttl`. -/
def ZoneCreate.valid (p : ZoneCreate) : Bool :=
  0 ≤ p.ttlDefault &&
    match p.zoneType with
    | .other _ => false
    | _ => true

structure ZoneUpdate where
  name : Patch Str := .unset
  zoneType : Patch ZoneType := .unset
  enabled : Patch Bool := .unset
  ttlDefault : Patch ℤ := .unset
  forwarder : Patch Str := .unset

/-- The row after `setattr` for every field that was set. -/
def ZoneUpdate.apply (U : CaseMap) (p : ZoneUpdate) (z : DnsZone) : Option DnsZone := do
  let name ← p.name.traverse (zoneName U)
  let name ← name.required z.name
  let zoneType ← p.zoneType.required z.zoneType
  let enabled ← p.enabled.required z.enabled
  let ttlDefault ← p.ttlDefault.required z.ttlDefault
  return { z with
    name, zoneType, enabled, ttlDefault
    forwarder := p.forwarder.nullable z.forwarder }

/-- The checks on `forwarder` in `create_zone` and `update_zone`. -/
def forwarderOk (P : Python) (zoneType : ZoneType) : Option Str → Bool
  | none => zoneType ≠ .forward
  | some [] => zoneType ≠ .forward
  | some f => (P.ipVersion f).isSome

/-- The unique constraint on `tenant_id` and `name`; null tenants do not clash. -/
def ZoneDb.nameTaken (db : ZoneDb) (z : DnsZone) : Bool :=
  db.zones.any fun y =>
    y.id ≠ z.id && z.tenantId.isSome && y.tenantId = z.tenantId && y.name = z.name

/-- `_get_zone_or_403`. -/
def getZone (db : ZoneDb) (u : User) (zoneId : Str) : Option DnsZone :=
  (db.zones.find? (·.id = zoneId)).filter fun z =>
    match z.tenantId with
    | none => u.role = .admin
    | some t => checkTenantAccess u t

/-- `create_zone`. -/
def createZone (P : Python) (db : ZoneDb) (u : User) (id : Str) (p : ZoneCreate) : Option ZoneDb :=
  match zoneName P.toCaseMap p.name with
  | none => none
  | some name =>
    let z : DnsZone :=
      ⟨id, some p.tenantId, name, p.zoneType, p.enabled, p.ttlDefault, p.forwarder⟩
    if u.hasRole .operator ∧ p.valid ∧ checkTenantAccess u p.tenantId ∧ p.tenantId ∈ db.tenants ∧
        ¬ db.nameTaken z ∧ forwarderOk P p.zoneType p.forwarder ∧ int4 p.ttlDefault ∧
        id ∉ db.issued then
      some { db with zones := db.zones ++ [z], issued := id :: db.issued }
    else none

/-- `update_zone`. -/
def updateZone (P : Python) (db : ZoneDb) (u : User) (zoneId : Str) (p : ZoneUpdate) :
    Option ZoneDb :=
  match getZone db u zoneId with
  | none => none
  | some z =>
    match p.apply P.toCaseMap z with
    | none => none
    | some row =>
      if u.hasRole .operator ∧ forwarderOk P row.zoneType row.forwarder ∧ ¬ db.nameTaken row ∧
          int4 row.ttlDefault then
        some { db with zones := replaceRow (·.id) zoneId row db.zones }
      else none

/-- `delete_zone`; the records go with it. -/
def deleteZone (db : ZoneDb) (u : User) (zoneId : Str) : Option ZoneDb :=
  if u.hasRole .operator ∧ (getZone db u zoneId).isSome then
    some { db with
      zones := db.zones.filter (·.id ≠ zoneId)
      records := db.records.filter (·.zoneId ≠ zoneId) }
  else none

/-! ### Record endpoints -/

structure RecordIn where
  name : Str
  recordType : RecordKind
  data : Str
  ttl : Option ℤ := none
  priority : Option ℤ := none
  enabled : Bool := true

structure RecordUpdate where
  name : Patch Str := .unset
  recordType : Patch RecordKind := .unset
  data : Patch Str := .unset
  ttl : Patch ℤ := .unset
  priority : Patch ℤ := .unset
  enabled : Patch Bool := .unset

/-- The row after `setattr`, with the name made relative in any case. -/
def RecordUpdate.apply (U : CaseMap) (p : RecordUpdate) (zone : DnsZone) (r : DnsRecord) :
    Option DnsRecord := do
  let name ← p.name.traverse recordName
  let name ← name.required r.name
  let recordType ← p.recordType.required r.recordType
  let data ← p.data.traverse validateRecordField
  let data ← data.required r.data
  let enabled ← p.enabled.required r.enabled
  return { r with
    name := relativeOwner U name zone.name, recordType, data, enabled
    ttl := p.ttl.nullable r.ttl
    priority := p.priority.nullable r.priority }

/-- A CNAME would stand beside other records. -/
def cnameClash (recordType : RecordKind) (conflicts : List DnsRecord) : Bool :=
  conflicts.any (·.recordType = .cname) || (recordType = .cname && conflicts ≠ [])

/-- The columns of the row fit their types. -/
def DnsRecord.storable (r : DnsRecord) : Bool := r.ttl.all int4 && r.priority.all int4

/-- `create_record`. -/
def createRecord (P : Python) (db : ZoneDb) (u : User) (zoneId id : Str) (p : RecordIn) :
    Option ZoneDb :=
  match getZone db u zoneId, recordName p.name, validateRecordField p.data with
  | some zone, some name, some data =>
    let name := relativeOwner P.toCaseMap name zone.name
    let r : DnsRecord :=
      ⟨id, zoneId, name, p.recordType, p.ttl, data, p.priority, p.enabled, none, none⟩
    let conflicts := db.records.filter fun x => x.zoneId = zoneId && x.name = name && x.enabled
    if u.hasRole .operator ∧ validateRecordSemantics P p.recordType data p.priority ∧
        ¬ (p.enabled ∧ cnameClash p.recordType conflicts) ∧ r.storable ∧ id ∉ db.issued then
      some { db with records := db.records ++ [r], issued := id :: db.issued }
    else none
  | _, _, _ => none

/-- `update_record`. -/
def updateRecord (P : Python) (db : ZoneDb) (u : User) (zoneId recordId : Str) (p : RecordUpdate) :
    Option ZoneDb :=
  match getZone db u zoneId, db.records.find? (fun r => r.id = recordId && r.zoneId = zoneId) with
  | some zone, some r =>
    match p.apply P.toCaseMap zone r with
    | none => none
    | some row =>
      let conflicts := db.records.filter fun x =>
        x.zoneId = zoneId && x.name = row.name && x.enabled && x.id ≠ r.id
      if u.hasRole .operator ∧ validateRecordSemantics P row.recordType row.data row.priority ∧
          ¬ (row.enabled ∧ cnameClash row.recordType conflicts) ∧ row.storable then
        some { db with records := replaceRow (·.id) recordId row db.records }
      else none
  | _, _ => none

/-- `delete_record`. -/
def deleteRecord (db : ZoneDb) (u : User) (zoneId recordId : Str) : Option ZoneDb :=
  if u.hasRole .operator ∧ (getZone db u zoneId).isSome ∧
      db.records.any (fun r => r.id = recordId && r.zoneId = zoneId) then
    some { db with records := db.records.filter (·.id ≠ recordId) }
  else none

/-! ### What a transaction does to the tables -/

/-- A zone as the API accepts it. -/
structure DnsZone.Ok (U : CaseMap) (z : DnsZone) : Prop where
  name : ∃ v, zoneName U v = some z.name
  ttlDefault : int4 z.ttlDefault = true

/-- A record as the API and the DDNS bridge accept it. -/
structure DnsRecord.Ok (r : DnsRecord) : Prop where
  ttl : r.ttl.all int4 = true
  priority : r.priority.all (within 0 65535) = true

/-- The columns of a record that no transaction rewrites. -/
structure DnsRecord.SameRow (r r' : DnsRecord) : Prop where
  id : r.id = r'.id
  zoneId : r.zoneId = r'.zoneId
  ddnsOwnerMac : r.ddnsOwnerMac = r'.ddnsOwnerMac
  ddnsOwnerDuid : r.ddnsOwnerDuid = r'.ddnsOwnerDuid

theorem DnsRecord.SameRow.refl (r : DnsRecord) : r.SameRow r := ⟨rfl, rfl, rfl, rfl⟩

/-- What the commit of one transaction can do to the tables. -/
inductive Change (U : CaseMap) (db : ZoneDb) : ZoneDb → Prop
  | insertZone {z : DnsZone} (hid : z.id ∉ db.issued) (hz : z.Ok U) :
    Change U db { db with zones := db.zones ++ [z], issued := z.id :: db.issued }
  | updateZone {z row : DnsZone} (hz : z ∈ db.zones) (hid : row.id = z.id)
      (htenant : row.tenantId = z.tenantId) (hrow : z.Ok U → row.Ok U) :
    Change U db { db with zones := replaceRow (·.id) z.id row db.zones }
  | deleteZone (id : Str) :
    Change U db { db with
      zones := db.zones.filter (·.id ≠ id), records := db.records.filter (·.zoneId ≠ id) }
  | insertRecord {r : DnsRecord} (hid : r.id ∉ db.issued) (hr : r.Ok) :
    Change U db { db with records := db.records ++ [r], issued := r.id :: db.issued }
  | updateRecord {r row : DnsRecord} (hr : r ∈ db.records) (hsame : r.SameRow row)
      (hrow : r.Ok → row.Ok) :
    Change U db { db with records := replaceRow (·.id) r.id row db.records }
  | deleteRecords (keep : DnsRecord → Bool) :
    Change U db { db with records := db.records.filter keep }
  | scopes (scopes scopes6 : List DhcpScope) {issued : List Str} (hissued : db.issued ⊆ issued) :
    Change U db { db with scopes, scopes6, issued }

/-- A change that leaves the scopes alone. -/
structure ZoneChange (U : CaseMap) (db db' : ZoneDb) : Prop where
  change : Change U db db'
  scopes : db'.scopes = db.scopes
  scopes6 : db'.scopes6 = db.scopes6

section Endpoints

variable {P : Python} {db db' : ZoneDb} {u : User} {zoneId id : Str}
variable {z : DnsZone} {p : ZoneUpdate} {U : CaseMap}

theorem getZone_mem (h : getZone db u zoneId = some z) :
    z ∈ db.zones ∧ z.id = zoneId := by
  obtain ⟨hfind, -⟩ := filter_eq_some_iff.mp h
  exact ⟨mem_of_find?_eq_some hfind, by simpa using find?_some hfind⟩

theorem createZone_eq_some {p : ZoneCreate} (h : createZone P db u id p = some db') :
    ∃ z : DnsZone, z.id = id ∧ z.Ok P.toCaseMap ∧ id ∉ db.issued ∧ db.nameTaken z = false ∧
      db' = { db with zones := db.zones ++ [z], issued := id :: db.issued } := by
  rw [createZone] at h
  split at h
  · simp at h
  · rename_i name hname
    dsimp only at h
    obtain ⟨hcks, h⟩ := ite_none_right_eq_some.mp h
    obtain ⟨-, -, -, -, htak, -, httl, hid⟩ := hcks
    exact ⟨_, rfl, ⟨⟨_, hname⟩, httl⟩, hid, by simpa using htak, (some_inj.mp h).symm⟩

theorem createZone_change {p : ZoneCreate} (h : createZone P db u id p = some db') :
    ZoneChange P.toCaseMap db db' := by
  obtain ⟨z, rfl, hok, hid, -, rfl⟩ := createZone_eq_some h
  exact ⟨.insertZone hid hok, rfl, rfl⟩

theorem ZoneUpdate.apply_same {row : DnsZone} (h : p.apply U z = some row) :
    row.id = z.id ∧ row.tenantId = z.tenantId ∧
      ((∃ v, zoneName U v = some z.name) → ∃ v, zoneName U v = some row.name) := by
  simp only [ZoneUpdate.apply, bind_eq_bind, bind_eq_some_iff, Option.pure_def, some_inj] at h
  obtain ⟨patch, hpat, name, hname, _, -, _, -, _, -, rfl⟩ := h
  refine ⟨rfl, rfl, fun hz => ?_⟩
  show ∃ v, zoneName U v = some name
  cases hp : p.name with
  | unset =>
    rw [hp, Patch.traverse, some_inj] at hpat
    rw [← hpat, Patch.required, some_inj] at hname
    rwa [← hname]
  | null =>
    rw [hp, Patch.traverse, some_inj] at hpat
    rw [← hpat] at hname
    simp [Patch.required] at hname
  | value v =>
    rw [hp, Patch.traverse, map_eq_some_iff] at hpat
    obtain ⟨w, hw, rfl⟩ := hpat
    rw [Patch.required, some_inj] at hname
    exact ⟨v, by rw [hw, hname]⟩

theorem updateZone_eq_some (h : updateZone P db u zoneId p = some db') :
    ∃ z ∈ db.zones, ∃ row : DnsZone, z.id = zoneId ∧ row.id = z.id ∧ row.tenantId = z.tenantId ∧
      (z.Ok P.toCaseMap → row.Ok P.toCaseMap) ∧ db.nameTaken row = false ∧
      db' = { db with zones := replaceRow (·.id) zoneId row db.zones } := by
  rw [updateZone] at h
  split at h
  · simp at h
  · rename_i z hz
    obtain ⟨hmem, hzid⟩ := getZone_mem hz
    split at h
    · simp at h
    · rename_i row hrow
      obtain ⟨hid, htenant, hname⟩ := ZoneUpdate.apply_same hrow
      obtain ⟨hcks, h⟩ := ite_none_right_eq_some.mp h
      obtain ⟨-, -, htak, httl⟩ := hcks
      exact ⟨z, hmem, row, hzid, hid, htenant, fun hok => ⟨hname hok.name, httl⟩,
        by simpa using htak, (some_inj.mp h).symm⟩

theorem updateZone_change (h : updateZone P db u zoneId p = some db') :
    ZoneChange P.toCaseMap db db' := by
  obtain ⟨z, hz, row, rfl, hid, htenant, hok, -, rfl⟩ := updateZone_eq_some h
  exact ⟨.updateZone hz hid htenant hok, rfl, rfl⟩

theorem deleteZone_change (h : deleteZone db u zoneId = some db') :
    ZoneChange U db db' := by
  rw [deleteZone] at h
  obtain ⟨-, h⟩ := ite_none_right_eq_some.mp h
  cases h
  exact ⟨.deleteZone zoneId, rfl, rfl⟩

theorem validateRecordSemantics_priority {recordType : RecordKind} {data : Str}
    {priority : Option ℤ} (h : validateRecordSemantics P recordType data priority = true) :
    priority.all (within 0 65535) = true := by
  rw [validateRecordSemantics.eq_def, Bool.and_eq_true] at h
  exact h.1

theorem createRecord_change {p : RecordIn} (h : createRecord P db u zoneId id p = some db') :
    ZoneChange P.toCaseMap db db' := by
  rw [createRecord] at h
  split at h
  · dsimp only at h
    obtain ⟨hcks, h⟩ := ite_none_right_eq_some.mp h
    obtain ⟨-, hsem, -, hsto, hid⟩ := hcks
    rw [DnsRecord.storable, Bool.and_eq_true] at hsto
    cases h
    exact ⟨.insertRecord hid ⟨hsto.1, validateRecordSemantics_priority hsem⟩, rfl, rfl⟩
  · simp at h

theorem RecordUpdate.apply_same {p : RecordUpdate} {zone : DnsZone} {r row : DnsRecord}
    (h : p.apply U zone r = some row) : r.SameRow row := by
  simp only [RecordUpdate.apply, bind_eq_bind, bind_eq_some_iff, Option.pure_def, some_inj] at h
  obtain ⟨_, -, _, -, _, -, _, -, _, -, _, -, rfl⟩ := h
  exact ⟨rfl, rfl, rfl, rfl⟩

theorem updateRecord_change {p : RecordUpdate} (h : updateRecord P db u zoneId id p = some db') :
    ZoneChange P.toCaseMap db db' := by
  rw [updateRecord] at h
  split at h
  · rename_i zone r hzone hfind
    have hid : r.id = id := by
      have := find?_some hfind
      simp only [Bool.and_eq_true, decide_eq_true_eq] at this
      exact this.1
    subst hid
    split at h
    · simp at h
    · rename_i row hrow
      dsimp only at h
      obtain ⟨hcks, h⟩ := ite_none_right_eq_some.mp h
      obtain ⟨-, hsem, -, hsto⟩ := hcks
      rw [DnsRecord.storable, Bool.and_eq_true] at hsto
      cases h
      exact ⟨.updateRecord (mem_of_find?_eq_some hfind) (RecordUpdate.apply_same hrow)
        fun _ => ⟨hsto.1, validateRecordSemantics_priority hsem⟩, rfl, rfl⟩
  · simp at h

theorem deleteRecord_change (h : deleteRecord db u zoneId id = some db') :
    ZoneChange U db db' := by
  rw [deleteRecord] at h
  obtain ⟨-, h⟩ := ite_none_right_eq_some.mp h
  cases h
  exact ⟨.deleteRecords _, rfl, rfl⟩

end Endpoints

variable {U : CaseMap} {db db' : ZoneDb}

/-! ### What changes keep -/

/-- The ranges of the columns, and ids that were handed out. -/
structure ZoneDb.WellFormed (U : CaseMap) (db : ZoneDb) : Prop where
  zoneOk : ∀ z ∈ db.zones, z.Ok U
  recordOk : ∀ r ∈ db.records, r.Ok
  zoneIssued : ∀ z ∈ db.zones, z.id ∈ db.issued
  recordIssued : ∀ r ∈ db.records, r.id ∈ db.issued

theorem fresh_wellFormed (U : CaseMap) (tenants : List Str) : (ZoneDb.fresh tenants).WellFormed U :=
  ⟨by simp [ZoneDb.fresh], by simp [ZoneDb.fresh], by simp [ZoneDb.fresh], by simp [ZoneDb.fresh]⟩

theorem Change.wellFormed (h : Change U db db') (hdb : db.WellFormed U) : db'.WellFormed U := by
  cases h with
  | @insertZone z hid hz =>
    exact { hdb with
      zoneOk := forall_concat hdb.zoneOk hz
      zoneIssued := forall_concat (fun x hx => mem_cons_of_mem _ (hdb.zoneIssued x hx))
        mem_cons_self
      recordIssued := fun r hr => mem_cons_of_mem _ (hdb.recordIssued r hr) }
  | @updateZone z row hz hid htenant hrow =>
    exact { hdb with
      zoneOk := forall_replaceRow (hrow (hdb.zoneOk z hz)) hdb.zoneOk
      zoneIssued := forall_replaceRow (hid ▸ hdb.zoneIssued z hz) hdb.zoneIssued }
  | deleteZone =>
    exact ⟨forall_filter hdb.zoneOk _, forall_filter hdb.recordOk _,
      forall_filter hdb.zoneIssued _, forall_filter hdb.recordIssued _⟩
  | @insertRecord r hid hr =>
    exact { hdb with
      recordOk := forall_concat hdb.recordOk hr
      zoneIssued := fun z hz => mem_cons_of_mem _ (hdb.zoneIssued z hz)
      recordIssued := forall_concat
        (fun x hx => mem_cons_of_mem _ (hdb.recordIssued x hx)) mem_cons_self }
  | @updateRecord r row hr hsame hrow =>
    exact { hdb with
      recordOk := forall_replaceRow (hrow (hdb.recordOk r hr)) hdb.recordOk
      recordIssued := forall_replaceRow (hsame.id ▸ hdb.recordIssued r hr) hdb.recordIssued }
  | deleteRecords =>
    exact { hdb with
      recordOk := forall_filter hdb.recordOk _
      recordIssued := forall_filter hdb.recordIssued _ }
  | scopes scopes scopes6 hissued =>
    exact { hdb with
      zoneIssued := fun z hz => hissued (hdb.zoneIssued z hz)
      recordIssued := fun r hr => hissued (hdb.recordIssued r hr) }

/-- No two zones and no two records share an id. -/
structure ZoneDb.Keyed (db : ZoneDb) : Prop where
  zones : Table.Keyed (·.id) db.zones
  records : Table.Keyed (·.id) db.records

theorem fresh_keyed (tenants : List Str) : (ZoneDb.fresh tenants).Keyed :=
  ⟨by simp [ZoneDb.fresh, Table.Keyed], by simp [ZoneDb.fresh, Table.Keyed]⟩

theorem Change.keyed (h : Change U db db') (hdb : db.WellFormed U) (hkey : db.Keyed) :
    db'.Keyed := by
  cases h with
  | @insertZone z hid hz =>
    -- the id was never handed out, so no row has it
    refine { hkey with zones := hkey.zones.concat fun hmem => hid ?_ }
    obtain ⟨y, hy, heq⟩ := List.mem_map.mp hmem
    exact heq ▸ hdb.zoneIssued y hy
  | @updateZone z row hz hid htenant hrow =>
    exact { hkey with zones := hkey.zones.replaceRow hid }
  | deleteZone =>
    exact ⟨hkey.zones.sublist filter_sublist, hkey.records.sublist filter_sublist⟩
  | @insertRecord r hid hr =>
    refine { hkey with records := hkey.records.concat fun hmem => hid ?_ }
    obtain ⟨y, hy, heq⟩ := List.mem_map.mp hmem
    exact heq ▸ hdb.recordIssued y hy
  | @updateRecord r row hr hsame hrow =>
    exact { hkey with records := hkey.records.replaceRow hsame.id.symm }
  | deleteRecords =>
    exact { hkey with records := hkey.records.sublist filter_sublist }
  | scopes => exact ⟨hkey.zones, hkey.records⟩

/-- Rows of a later state that carry an id of the earlier one are the rows of
the earlier state, with the same tenant, zone and owner. -/
structure ZoneDb.Evolves (db db' : ZoneDb) : Prop where
  issued : db.issued ⊆ db'.issued
  zone : ∀ z' ∈ db'.zones, z'.id ∈ db.issued →
    ∃ z ∈ db.zones, z.id = z'.id ∧ z.tenantId = z'.tenantId
  record : ∀ r' ∈ db'.records, r'.id ∈ db.issued → ∃ r ∈ db.records, r.SameRow r'

theorem ZoneDb.Evolves.refl (db : ZoneDb) : db.Evolves db :=
  ⟨List.Subset.refl _, fun z hz _ => ⟨z, hz, rfl, rfl⟩, fun r hr _ => ⟨r, hr, .refl r⟩⟩

theorem Change.evolves (h : Change U db db') : db.Evolves db' := by
  have hkeep := ZoneDb.Evolves.refl db
  cases h with
  | @insertZone z hid hz =>
    refine ⟨subset_cons_self _ _, fun z' hz' hid' => ?_, hkeep.record⟩
    rcases mem_append.mp hz' with hz' | hz'
    · exact ⟨z', hz', rfl, rfl⟩
    · exact absurd (mem_singleton.mp hz' ▸ hid') hid
  | @updateZone z row hz hid htenant hrow =>
    refine ⟨hkeep.issued, fun z' hz' _ => ?_, hkeep.record⟩
    have hrows : ∀ y ∈ replaceRow (·.id) z.id row db.zones,
        ∃ x ∈ db.zones, x.id = y.id ∧ x.tenantId = y.tenantId :=
      forall_replaceRow ⟨z, hz, hid.symm, htenant.symm⟩ fun x hx => ⟨x, hx, rfl, rfl⟩
    exact hrows z' hz'
  | deleteZone =>
    exact ⟨hkeep.issued, fun z hz _ => ⟨z, mem_of_mem_filter hz, rfl, rfl⟩,
      fun r hr _ => ⟨r, mem_of_mem_filter hr, .refl r⟩⟩
  | @insertRecord r hid hr =>
    refine ⟨subset_cons_self _ _, hkeep.zone, fun r' hr' hid' => ?_⟩
    rcases mem_append.mp hr' with hr' | hr'
    · exact ⟨r', hr', .refl r'⟩
    · exact absurd (mem_singleton.mp hr' ▸ hid') hid
  | @updateRecord r row hr hsame hrow =>
    refine ⟨hkeep.issued, hkeep.zone, fun r' hr' _ => ?_⟩
    have hrows : ∀ y ∈ replaceRow (·.id) r.id row db.records, ∃ x ∈ db.records, x.SameRow y :=
      forall_replaceRow ⟨r, hr, hsame⟩ fun x hx => ⟨x, hx, .refl x⟩
    exact hrows r' hr'
  | deleteRecords =>
    exact ⟨hkeep.issued, hkeep.zone, fun r hr _ => ⟨r, mem_of_mem_filter hr, .refl r⟩⟩
  | scopes scopes scopes6 hissued =>
    exact ⟨hissued, hkeep.zone, hkeep.record⟩

end Control.Zones
