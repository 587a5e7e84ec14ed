/-
Local zones from the control plane to the nodes: `get_local_zone_records` in
`api/routers.py`, decoded into `Vec<LocalZoneRecordDto>` and published.

Every enabled local zone of a tenant is sent with an apex SOA, an apex NS unless
it has one, and its enabled records under their full names.

* `list_decodes_iff` — for which tables the list can be decoded;
* `negative_ttl_unloadable` — one record that takes a tenant's zones offline.
-/
import MantisDns.DhcpEvents
import MantisDns.Json
import MantisDns.ZonePublish

open Text Table List Option

namespace Control.Zones

/-! ### The list -/

/-- `schemas.LocalZoneRecord`. -/
structure LocalZoneRecord where
  name : Str
  zone : Str
  recordType : Str
  ttl : ℤ
  data : Str
  priority : Option ℤ
  deriving DecidableEq

/-- The zones that `get_local_zone_records` selects for a tenant. -/
def ZoneDb.servedZones (db : ZoneDb) (tenantId : Str) : List DnsZone :=
  db.zones.filter fun z => z.tenantId = some tenantId && z.zoneType = .«local» && z.enabled

theorem mem_servedZones {db : ZoneDb} {z : DnsZone} {tenantId : Str} :
    z ∈ db.servedZones tenantId ↔
      z ∈ db.zones ∧ z.tenantId = some tenantId ∧ z.zoneType = .«local» ∧ z.enabled = true := by
  simp [ZoneDb.servedZones, and_assoc]

/-- `zone.records`. -/
def ZoneDb.recordsOf (db : ZoneDb) (z : DnsZone) : List DnsRecord :=
  db.records.filter (·.zoneId = z.id)

/-- The SOA of a zone as text; the serial is the time of its last update. -/
def soaData (name : Str) (serial minimum : ℤ) : Str :=
  "ns1." ++ name ++ ". hostmaster." ++ name ++ ". " ++ intText serial ++
    " 3600 900 604800 " ++ intText minimum

/-- `_synthesize_apex_records`. -/
def synthesizeApexRecords (serial : DnsZone → ℤ) (db : ZoneDb) (z : DnsZone) :
    List LocalZoneRecord :=
  let soa : LocalZoneRecord :=
    { name := z.name
      zone := z.name
      recordType := "SOA"
      ttl := z.ttlDefault
      data := soaData z.name (serial z) z.ttlDefault
      priority := none }
  let ns : LocalZoneRecord :=
    { name := z.name
      zone := z.name
      recordType := "NS"
      ttl := z.ttlDefault
      data := "ns1." ++ z.name ++ "."
      priority := none }
  let hasApexNs := (db.recordsOf z).any fun r =>
    r.enabled && r.recordType = .ns && r.name = "@"
  if hasApexNs then [soa] else [soa, ns]

/-- The owner of a record relative to the zone, computed once more. -/
def sentOwner (U : CaseMap) (z : DnsZone) (r : DnsRecord) : Str :=
  let owner := trimDots (U.lower (strip r.name))
  if owner = z.name then "@" else (stripSuffix ('.' :: z.name) owner).getD owner

/-- The full owner name of a record. -/
def fqdn (U : CaseMap) (z : DnsZone) (r : DnsRecord) : Str :=
  if sentOwner U z r = "@" then z.name else sentOwner U z r ++ '.' :: z.name

def localZoneRecord (U : CaseMap) (z : DnsZone) (r : DnsRecord) : LocalZoneRecord where
  name := fqdn U z r
  zone := z.name
  recordType := r.recordType.text
  ttl := r.ttl.getD z.ttlDefault
  data := r.data
  priority := r.priority

/-- The part of the list that is about one zone. -/
def zoneRecords (U : CaseMap) (serial : DnsZone → ℤ) (db : ZoneDb) (z : DnsZone) :
    List LocalZoneRecord :=
  synthesizeApexRecords serial db z ++
    ((db.recordsOf z).filter (·.enabled)).map (localZoneRecord U z)

/-- `get_local_zone_records`, for the tenant of the group. -/
def getLocalZoneRecords (U : CaseMap) (serial : DnsZone → ℤ) (db : ZoneDb) (tenantId : Str) :
    List LocalZoneRecord :=
  (db.servedZones tenantId).flatMap (zoneRecords U serial db)

def LocalZoneRecord.json (r : LocalZoneRecord) : Json :=
  .obj [("name", .str r.name), ("zone", .str r.zone),
    ("record_type", .str r.recordType), ("ttl", .int r.ttl),
    ("data", .str r.data), ("priority", .ofOption .int r.priority)]

/-- The body of the response. -/
def listJson (records : List LocalZoneRecord) : Json := .arr (records.map LocalZoneRecord.json)

end Control.Zones

namespace Node.Zone

open Control.Zones Control.Ddns Json

/-! ### The decoded list -/

/-- The types that `build_record` knows. -/
def EntryType.ofText (s : Str) : EntryType :=
  if s = "A" then .a
  else if s = "AAAA" then .aaaa
  else if s = "CNAME" then .cname
  else if s = "NS" then .ns
  else if s = "PTR" then .ptr
  else if s = "MX" then .mx
  else if s = "TXT" then .txt
  else if s = "SRV" then .srv
  else if s = "CAA" then .caa
  else if s = "SOA" then .soa
  else .other s

/-- `Deserialize` for `LocalZoneRecordDto`. -/
def LocalZoneRecordDto.ofJson (j : Json) : Option LocalZoneRecordDto := do
  let name ← j.field string "name"
  let zone ← j.field string "zone"
  let recordType ← j.field string "record_type"
  let ttl ← j.field u32 "ttl"
  let data ← j.field string "data"
  let priority ← j.fieldOr none (option u16) "priority"
  return ⟨name, zone, .ofText recordType, ttl, data, priority⟩

theorem ofJson_localZoneRecord (r : LocalZoneRecord) :
    LocalZoneRecordDto.ofJson r.json = do
      let ttl ← u32 (.int r.ttl)
      let priority ← option u16 (.ofOption .int r.priority)
      return ⟨r.name, r.zone, .ofText r.recordType, ttl, r.data, priority⟩ := rfl

theorem ofJson_localZoneRecord_isSome {r : LocalZoneRecord} :
    (LocalZoneRecordDto.ofJson r.json).isSome ↔
      (0 ≤ r.ttl ∧ r.ttl ≤ 4294967295) ∧ ∀ p ∈ r.priority, 0 ≤ p ∧ p ≤ 65535 := by
  have hpri := @option_ofOption_isSome _ u16 _ int (by simp) r.priority
  simp only [u16_isSome] at hpri
  rw [← u32_isSome, ← hpri, ofJson_localZoneRecord]
  cases u32 (.int r.ttl) with
  | none => simp
  | some => cases option u16 (.ofOption .int r.priority) <;> simp

theorem ofJson_localZoneRecord_eq_some {r : LocalZoneRecord} {e : LocalZoneRecordDto}
    (h : LocalZoneRecordDto.ofJson r.json = some e) :
    e.name = r.name ∧ e.zone = r.zone ∧ e.recordType = .ofText r.recordType ∧ e.data = r.data := by
  rw [ofJson_localZoneRecord] at h
  simp only [bind_eq_bind, bind_eq_some_iff, Option.pure_def, some_inj] at h
  obtain ⟨_, -, _, -, rfl⟩ := h
  exact ⟨rfl, rfl, rfl, rfl⟩

/-! ### Which lists can be decoded -/

section Load

variable {P : Python} {tenants : List Str} {db : ZoneDb} {tenantId : Str} {serial : DnsZone → ℤ}

/-- No negative TTL is served. -/
def TtlsServed (db : ZoneDb) (tenantId : Str) : Prop :=
  ∀ z ∈ db.servedZones tenantId, 0 ≤ z.ttlDefault ∧
    ∀ r ∈ db.recordsOf z, r.enabled = true → ∀ t ∈ r.ttl, 0 ≤ t

theorem mem_synthesizeApexRecords {z : DnsZone} {r : LocalZoneRecord}
    (h : r ∈ synthesizeApexRecords serial db z) :
    r.zone = z.name ∧ r.ttl = z.ttlDefault ∧ r.priority = none ∧
      (r.recordType = "SOA" ∧ r.data = soaData z.name (serial z) z.ttlDefault ∨
        r.recordType = "NS") := by
  simp only [synthesizeApexRecords] at h
  split at h <;> simp only [mem_cons, not_mem_nil, or_false] at h
  · rw [h]
    exact ⟨rfl, rfl, rfl, .inl ⟨rfl, rfl⟩⟩
  · rcases h with rfl | rfl
    · exact ⟨rfl, rfl, rfl, .inl ⟨rfl, rfl⟩⟩
    · exact ⟨rfl, rfl, rfl, .inr rfl⟩

theorem exists_apexSoa (serial : DnsZone → ℤ) (db : ZoneDb) (z : DnsZone) :
    ∃ r ∈ synthesizeApexRecords serial db z, r.ttl = z.ttlDefault := by
  simp only [synthesizeApexRecords]
  split <;> exact ⟨_, mem_cons_self, rfl⟩

theorem list_decodes_iff (hwf : db.WellFormed P.toCaseMap) (serial : DnsZone → ℤ) :
    (vec LocalZoneRecordDto.ofJson
      (listJson (getLocalZoneRecords P.toCaseMap serial db tenantId))).isSome ↔
      TtlsServed db tenantId := by
  rw [listJson, vec_isSome]
  -- an entry is refused for its TTL or its priority only
  simp only [List.mem_map, forall_exists_index, and_imp, forall_apply_eq_imp_iff₂,
    ofJson_localZoneRecord_isSome]
  constructor
  · intro h z hz
    have hrec : ∀ r, r ∈ synthesizeApexRecords serial db z ++
        ((db.recordsOf z).filter (·.enabled)).map (localZoneRecord P.toCaseMap z) →
        0 ≤ r.ttl := fun r hr => (h r (mem_flatMap.mpr ⟨z, hz, hr⟩)).1.1
    constructor
    · -- the apex SOA carries the default
      obtain ⟨r, hr, httl⟩ := exists_apexSoa serial db z
      exact httl ▸ hrec r (mem_append_left _ hr)
    · intro r hr hena t ht
      have hmem := List.mem_map_of_mem (f := localZoneRecord P.toCaseMap z)
        (mem_filter.mpr ⟨hr, hena⟩)
      have := hrec _ (mem_append_right _ hmem)
      rwa [localZoneRecord, mem_def.mp ht] at this
  · intro h r hr
    obtain ⟨z, hz, hr⟩ := mem_flatMap.mp hr
    obtain ⟨hdef, hreco⟩ := h z hz
    have hzone := int4_iff.mp (hwf.zoneOk z (mem_of_mem_filter hz)).ttlDefault
    rcases mem_append.mp hr with hr | hr
    · obtain ⟨-, httl, hpri, -⟩ := mem_synthesizeApexRecords hr
      rw [httl, hpri]
      exact ⟨⟨hdef, by omega⟩, by simp⟩
    · obtain ⟨x, hx, rfl⟩ := List.mem_map.mp hr
      obtain ⟨hx, hena⟩ := mem_filter.mp hx
      obtain ⟨hok, hprio⟩ := hwf.recordOk x (mem_of_mem_filter hx)
      refine ⟨?_, fun p hp => within_iff.mp ((Option.all_eq_true _ _).mp hprio p hp)⟩
      show 0 ≤ x.ttl.getD z.ttlDefault ∧ x.ttl.getD z.ttlDefault ≤ 4294967295
      cases hxt : x.ttl with
      | none =>
        rw [getD_none]
        omega
      | some t =>
        have hint := int4_iff.mp ((Option.all_eq_true _ _).mp hok t hxt)
        have hser := hreco x hx hena t hxt
        rw [getD_some]
        omega

end Load

/-! A tenant with one zone and one host. -/

def samplePython : Python where
  toCaseMap := CaseMap.ascii
  ipVersion s :=
    if (Dns.parseIpv4 s).isSome then some 4 else if (Dns.parseIpv6 s).isSome then some 6 else none
  int s := (Dns.digits s).map Int.ofNat

def sampleOperator : Control.User := ⟨.operator, some "acme"⟩

def sampleTables (zone : Str) (ttl : Option ℤ) : Option ZoneDb :=
  requests samplePython (.fresh ["acme"])
    [.createZone sampleOperator "z1" ⟨"acme", zone, .«local», true, 300, none⟩,
      .createRecord sampleOperator "z1" "r1"
        ⟨"www", .a, "10.0.0.5", ttl, none, true⟩]

/-- The API accepts the TTL -1 for one record, and the nodes lose all zones of the
tenant. -/
theorem negative_ttl_unloadable :
    ∃ db, Reachable samplePython ["acme"] db ∧ (∃ r ∈ db.records, r.ttl = some (-1)) ∧
      vec LocalZoneRecordDto.ofJson
        (listJson (getLocalZoneRecords CaseMap.ascii (fun _ => 0) db "acme")) = none := by
  obtain ⟨db, hdb, hrows⟩ := (Option.any_eq_true _ _).mp
    (show (sampleTables "corp.lab" (some (-1))).any (fun db =>
      (∃ r ∈ db.records, r.ttl = some (-1)) ∧ (vec LocalZoneRecordDto.ofJson
        (listJson (getLocalZoneRecords CaseMap.ascii (fun _ => 0) db "acme"))).isNone) = true
      by decide +kernel)
  obtain ⟨hrec, hnone⟩ := of_decide_eq_true hrows
  exact ⟨db, reachable_requests hdb, hrec, isNone_iff_eq_none.mp hnone⟩

end Node.Zone
