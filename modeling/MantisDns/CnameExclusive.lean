/-
CNAMEs as they are served: `create_record` and `update_record` of
`api/zone_routers.py`, the zone endpoints and the lease events, against the list of
`get_local_zone_records`.

The record endpoints check first and commit later; everything else may commit in
between.

* `Stmt` — the statements of requests and lease events;
* `createRecord_eq`, `updateRecord_eq` — a request that is left alone is the endpoint
  of the zone API;
* `Inv.exclusive` — why a name with a CNAME is served nothing else;
* `cname_exclusive` — every run whose statements are `Orderly` serves such lists only;
* `cname_beside_others` — a CNAME at the apex, and one beside an address.
-/
import MantisDns.LocalZones
import MantisDns.Requests

open Text Table List Option

namespace Control.Cname

open Zones Ddns Requests Node.Zone

/-! ### Requests that check first -/

/-- What is left to do after the check: the new row, or the row as it was loaded and as it is to
be. -/
inductive Write
  | insert (r : DnsRecord)
  | update (loaded row : DnsRecord)
  deriving DecidableEq

def Write.row : Write → DnsRecord
  | .insert r => r
  | .update _ row => row

/-- The enabled records that the check of `create_record` looks at. -/
def conflicts (db : ZoneDb) (zoneId name : Str) : List DnsRecord :=
  db.records.filter fun x => x.zoneId = zoneId && x.name = name && x.enabled

/-- The row that `create_record` is to add, once it has read the zone. -/
def newRow (P : Python) (db : ZoneDb) (u : User) (zoneId id : Str) (p : RecordIn) :
    Option DnsRecord :=
  match getZone db u zoneId, recordName p.name, validateRecordField p.data with
  | some zone, some name, some data =>
    if u.hasRole .operator ∧ validateRecordSemantics P p.recordType data p.priority then
      some ⟨id, zoneId, relativeOwner P.toCaseMap name zone.name, p.recordType, p.ttl, data,
        p.priority, p.enabled, none, none⟩
    else none
  | _, _, _ => none

/-- The row that `update_record` loads, and what it is to become. -/
def newVersion (P : Python) (db : ZoneDb) (u : User) (zone : DnsZone) (recordId : Str)
    (p : RecordUpdate) : Option Write :=
  match db.records.find? fun r => r.id = recordId && r.zoneId = zone.id with
  | none => none
  | some r =>
    match p.apply P.toCaseMap zone r with
    | none => none
    | some row =>
      if u.hasRole .operator ∧ validateRecordSemantics P row.recordType row.data row.priority then
        some (.update r row)
      else none

/-- The conflict query finds a row in the way. -/
def Write.clashes (db : ZoneDb) : Write → Bool
  | .insert r => r.enabled && cnameClash r.recordType (conflicts db r.zoneId r.name)
  | .update loaded row => row.enabled &&
      cnameClash row.recordType ((conflicts db row.zoneId row.name).filter (·.id ≠ loaded.id))

/-- The flush of an update. -/
def merge (loaded row now : DnsRecord) : DnsRecord :=
  { now with
    name := column (·.name) loaded row now
    recordType := column (·.recordType) loaded row now
    ttl := column (·.ttl) loaded row now
    data := column (·.data) loaded row now
    priority := column (·.priority) loaded row now
    enabled := column (·.enabled) loaded row now }

/-- The flush at the commit; `none` when a constraint refuses it, or the row is gone. -/
def Write.commit (db : ZoneDb) : Write → Option ZoneDb
  | .insert r =>
    if r.storable ∧ r.id ∉ db.issued ∧ r.zoneId ∈ db.zoneIds then
      some { db with records := db.records ++ [r], issued := r.id :: db.issued }
    else none
  | .update loaded row =>
    if row = loaded then some db
    else
      match db.records.find? (·.id = loaded.id) with
      | none => none
      | some now =>
        let r := merge loaded row now
        if r.storable then some { db with records := replaceRow (·.id) loaded.id r db.records }
        else none

/-- The conflict query and the commit, with nothing in between. -/
def Write.finish (db : ZoneDb) (w : Write) : Option ZoneDb :=
  if w.clashes db then none else w.commit db

/-! ### Statements -/

inductive Call
  | createRecord (u : User) (zoneId id : Str) (p : RecordIn)
  | updateRecord (u : User) (zoneId recordId : Str) (p : RecordUpdate)
  /-- Any other request to the zone API or the scope API. -/
  | request (req : Request)
  | event (ev : DhcpEvent)

/-- The requests that check nothing which may change before they commit. -/
def whole : Request → Bool
  | .createRecord _ _ _ _ => false
  | .updateRecord _ _ _ _ => false
  | _ => true

/-- How far a call is, with what it has read. -/
inductive Phase
  | idle (call : Call)
  | opened (zone : DnsZone) (u : User) (recordId : Str) (p : RecordUpdate)
  | loaded (seen : ZoneDb) (w : Write)
  | checked (seen : ZoneDb) (w : Write)
  | scoped (job : Job)
  | zoned (job : Job) (name ip : Str)
  | ready (job : Job) (effect : Effect)
  | done

/-- One statement. -/
inductive Stmt (P : Python) (db : ZoneDb) : Phase → ZoneDb → Phase → Prop
  | create {u : User} {zoneId id : Str} {p : RecordIn} {r : DnsRecord}
      (h : newRow P db u zoneId id p = some r) :
    Stmt P db (.idle (.createRecord u zoneId id p)) db (.loaded db (.insert r))
  | find {u : User} {zoneId recordId : Str} {p : RecordUpdate} {zone : DnsZone}
      (h : getZone db u zoneId = some zone) :
    Stmt P db (.idle (.updateRecord u zoneId recordId p)) db (.opened zone u recordId p)
  | load {u : User} {zone : DnsZone} {recordId : Str} {p : RecordUpdate} {w : Write}
      (h : newVersion P db u zone recordId p = some w) :
    Stmt P db (.opened zone u recordId p) db (.loaded db w)
  | check {seen : ZoneDb} {w : Write} (h : w.clashes db = false) :
    Stmt P db (.loaded seen w) db (.checked db w)
  | write {seen db' : ZoneDb} {w : Write} (h : w.commit db = some db') :
    Stmt P db (.checked seen w) db' .done
  | request {req : Request} {db' : ZoneDb} (hwhole : whole req = true)
      (h : db.apply P req = some db') :
    Stmt P db (.idle (.request req)) db' .done
  | scope {ev : DhcpEvent} {job : Job} (h : jobOf P.toCaseMap db ev = some job) :
    Stmt P db (.idle (.event ev)) db (.scoped job)
  | zone {job : Job} {zone : DnsZone} {name ip : Str} (hzone : zone ∈ db.zones)
      (hid : zone.id = job.zoneId) (h : job.target zone = some (name, ip)) :
    Stmt P db (.scoped job) db (.zoned job name ip)
  | rows {job : Job} {name ip : Str} {effect : Effect}
      (h : job.Decides name ip db.records effect) :
    Stmt P db (.zoned job name ip) db (.ready job effect)
  | commit {job : Job} {effect : Effect} {newId : Str} {db' : ZoneDb}
      (h : job.apply newId db effect = some db') :
    Stmt P db (.ready job effect) db' .done
  -- refused, ignored or rolled back
  | drop (p : Phase) : Stmt P db p db .done

/-- A request that is left alone is the endpoint of the zone API. -/
theorem createRecord_eq (P : Python) (db : ZoneDb) (u : User) (zoneId id : Str) (p : RecordIn) :
    createRecord P db u zoneId id p =
      (newRow P db u zoneId id p).bind fun r => (Write.insert r).finish db := by
  rw [createRecord, newRow]
  cases hzone : getZone db u zoneId with
  | none => rfl
  | some =>
    have hid : zoneId ∈ db.zoneIds := by
      obtain ⟨hmem, rfl⟩ := getZone_mem hzone
      exact List.mem_map_of_mem hmem
    cases recordName p.name with
    | none => rfl
    | some =>
      cases validateRecordField p.data with
      | none => rfl
      | some =>
        -- both sides check the same, in another order
        dsimp only
        rw [← conflicts.eq_def]
        split
        · rename_i hcks
          obtain ⟨hrole, hsem, hcla, hsto, hfre⟩ := hcks
          rw [if_pos ⟨hrole, hsem⟩, bind_some, Write.finish,
            if_neg (by simpa [Write.clashes] using hcla), Write.commit, if_pos ⟨hsto, hfre, hid⟩]
        · rename_i hcks
          split
          · rename_i hcks'
            rw [bind_some, Write.finish]
            split
            · rfl
            · rename_i hcla
              rw [Write.commit, if_neg]
              rintro ⟨hsto, hfre, -⟩
              exact hcks ⟨hcks'.1, hcks'.2, by simpa [Write.clashes] using hcla, hsto, hfre⟩
          · rfl

/-- Empty tables, and all calls still to come. -/
def start {ι : Type} (tenants : List Str) (calls : ι → Call) : State ι ZoneDb Phase :=
  ⟨.fresh tenants, fun i => .idle (calls i)⟩

/-! ### Lists -/

/-- **Exclusivity as served**: where two entries have one owner, neither is a CNAME. -/
def Exclusive (records : List LocalZoneRecord) : Prop :=
  records.Pairwise fun a b => lowerAscii a.name = lowerAscii b.name →
    a.recordType ≠ "CNAME".toList ∧ b.recordType ≠ "CNAME".toList

/-- A name of a zone, or the zone itself. -/
def owner (z : DnsZone) (name : Str) : Str :=
  if name = "@" then z.name else name ++ '.' :: z.name

/-- The name is served as it is stored: in lower case, and without an ending that repeats the
zone. -/
def Plain (U : CaseMap) (z : DnsZone) (r : DnsRecord) : Prop :=
  fqdn U z r = owner z r.name ∧ lowerAscii r.name = r.name

/-- One zone is the other, or lies below it. -/
def Nested (z y : DnsZone) : Prop := z.name = y.name ∨ ('.' :: y.name) <:+ z.name

/-- All names are served as they are stored, and no two zones that a tenant is served are
nested. -/
structure Settled (U : CaseMap) (db : ZoneDb) : Prop where
  plain : ∀ z ∈ db.zones, ∀ r ∈ db.records, r.zoneId = z.id → Plain U z r
  apart : ∀ tenantId, ∀ z ∈ db.servedZones tenantId, ∀ y ∈ db.servedZones tenantId,
    z.id ≠ y.id → ¬Nested z y

/-- **The condition on a statement.** -/
def Orderly {ι : Type} (P : Python) (s : State ι ZoneDb Phase) (i : ι) : Prop :=
  match s.phase i with
  -- nothing has changed since the row was loaded
  | .loaded seen (.update _ _) => s.db.records = seen.records
  -- nothing has changed since the check, and the row is no CNAME at the apex
  | .checked seen w =>
    s.db.zones = seen.zones ∧ s.db.records = seen.records ∧
      (∀ z ∈ s.db.zones, w.row.zoneId = z.id → Plain P.toCaseMap z w.row) ∧
      ¬(w.row.enabled = true ∧ w.row.recordType = .cname ∧ w.row.name = "@")
  -- the name of the lease has no CNAME
  | .ready job (.insert name ip) =>
    (∀ z ∈ s.db.zones, job.zoneId = z.id → Plain P.toCaseMap z (job.newRecord name ip [])) ∧
      ∀ r ∈ s.db.records, r.enabled = true → r.recordType = .cname → r.zoneId = job.zoneId →
        r.name ≠ name
  | .idle (.request (.createZone u id p)) =>
    ∀ db, createZone P s.db u id p = some db → Settled P.toCaseMap db
  | .idle (.request (.updateZone u id p)) =>
    ∀ db, updateZone P s.db u id p = some db → Settled P.toCaseMap db
  | _ => True

/-! ### Why the list is exclusive -/

/-- Ids occur once, with zone names as the API accepts them. -/
structure Inv (U : CaseMap) (db : ZoneDb) : Prop where
  wellFormed : db.WellFormed U
  zoneIds : (db.zones.map (·.id)).Nodup
  recordIds : (db.records.map (·.id)).Nodup
  settled : Settled U db
  /-- The rule of the record endpoints, on stored names. -/
  cname : ∀ c ∈ db.records, ∀ r ∈ db.records, c.enabled = true → r.enabled = true →
    c.recordType = .cname → c.zoneId = r.zoneId → c.name = r.name → c.id = r.id
  apex : ∀ c ∈ db.records, c.enabled = true → c.recordType = .cname → c.name ≠ "@"

section Served

variable {U : CaseMap} {db : ZoneDb} {serial : DnsZone → ℤ} {z y : DnsZone}
variable {a : LocalZoneRecord} {r : DnsRecord} {front : Str}

theorem mem_apex (h : a ∈ synthesizeApexRecords serial db z) :
    a.name = z.name ∧ a.recordType ≠ "CNAME".toList := by
  have hsoa : "SOA".toList ≠ "CNAME".toList := by decide
  have hns : "NS".toList ≠ "CNAME".toList := by decide
  simp only [synthesizeApexRecords] at h
  split at h
  · rw [mem_singleton.mp h]
    exact ⟨rfl, hsoa⟩
  · rcases mem_cons.mp h with rfl | h
    · exact ⟨rfl, hsoa⟩
    · rw [mem_singleton.mp h]
      exact ⟨rfl, hns⟩

theorem mem_records (h : r ∈ (db.recordsOf z).filter (·.enabled)) :
    r ∈ db.records ∧ r.zoneId = z.id ∧ r.enabled = true := by
  obtain ⟨h, hena⟩ := mem_filter.mp h
  obtain ⟨h, hzone⟩ := mem_filter.mp h
  exact ⟨h, by simpa using hzone, hena⟩

theorem recordType_eq_cname :
    (localZoneRecord U z r).recordType = "CNAME" ↔ r.recordType = .cname := by
  show r.recordType.text = _ ↔ _
  cases r.recordType <;> decide

/-- What stands before an owner's zone ends with a dot. -/
def Front (front : Str) : Prop := front = [] ∨ front.getLast? = some '.'

theorem length_lowerAscii (s : Str) : (lowerAscii s).length = s.length := length_map _

theorem Front.lowerAscii (h : Front front) : Front (lowerAscii front) := by
  rcases h with rfl | h
  · exact .inl rfl
  · refine .inr ?_
    rw [Text.lowerAscii, getLast?_map, h]
    rfl

theorem owner_inj {name name' : Str} (hname : lowerAscii name = name)
    (hname' : lowerAscii name' = name')
    (h : lowerAscii (owner z name) = lowerAscii (owner z name')) : name = name' := by
  -- the apex is shorter than every name below it
  have hlen := congrArg List.length h
  simp only [length_lowerAscii, owner] at hlen
  rw [owner, owner] at h
  split at h
  · rename_i hat
    split at h
    · rename_i hat'
      rw [hat, hat']
    · rename_i hat'
      rw [if_pos hat, if_neg hat', length_append, length_cons] at hlen
      omega
  · rename_i hat
    split at h
    · rename_i hat'
      rw [if_neg hat, if_pos hat', length_append, length_cons] at hlen
      omega
    · rw [lowerAscii_append, lowerAscii_append, hname, hname'] at h
      exact append_cancel_right h

theorem Inv.zoneRecords (h : Inv U db) (hz : z ∈ db.zones) :
    Exclusive (zoneRecords U serial db z) := by
  have hpl : ∀ r ∈ (db.recordsOf z).filter (·.enabled), Plain U z r := fun r hr =>
    h.settled.plain z hz r (mem_records hr).1 (mem_records hr).2.1
  -- the apex records come first, then those of the table
  refine pairwise_append.mpr ⟨?_, ?_, fun a ha b hb hname => ⟨(mem_apex ha).2, ?_⟩⟩
  · exact pairwise_of_forall_mem_list fun a ha b hb _ => ⟨(mem_apex ha).2, (mem_apex hb).2⟩
  · rw [pairwise_map]
    have hids : ((db.recordsOf z).filter (·.enabled)).Pairwise (·.id ≠ ·.id) :=
      (pairwise_map.mp h.recordIds).sublist
        (filter_sublist.trans filter_sublist)
    refine hids.imp_of_mem fun {c r} hc hr hne hname => ?_
    obtain ⟨hc', hzc, hec⟩ := mem_records hc
    obtain ⟨hr', hzr, her⟩ := mem_records hr
    have hsame : c.name = r.name := by
      refine owner_inj (z := z) (hpl c hc).2 (hpl r hr).2 ?_
      rw [← (hpl c hc).1, ← (hpl r hr).1]
      exact hname
    constructor
    · intro hcn
      exact hne (h.cname c hc' r hr' hec her (recordType_eq_cname.mp hcn) (hzc.trans hzr.symm)
        hsame)
    · intro hcn
      exact hne (h.cname r hr' c hc' her hec (recordType_eq_cname.mp hcn) (hzr.trans hzc.symm)
        hsame.symm).symm
  · -- the apex is no place for a CNAME
    obtain ⟨r, hr, rfl⟩ := List.mem_map.mp hb
    intro hcn
    obtain ⟨hr', -, her⟩ := mem_records hr
    have hat := h.apex r hr' her (recordType_eq_cname.mp hcn)
    have hlen := congrArg List.length hname
    rw [length_lowerAscii, length_lowerAscii, (mem_apex ha).1] at hlen
    have hown : (localZoneRecord U z r).name = r.name ++ '.' :: z.name :=
      (hpl r hr).1.trans (if_neg hat)
    rw [hown, length_append, length_cons] at hlen
    omega

end Served

/-! ### What a statement keeps -/

section Keep

variable {U : CaseMap} {P : Python} {db db' : ZoneDb}
variable {rows : List DnsRecord} {r row : DnsRecord} {u : User} {w : Write}

/-- Beside the row no other record of its name is in the way. -/
def Clear (rows : List DnsRecord) (row : DnsRecord) : Prop :=
  ∀ x ∈ rows, x.enabled = true → row.enabled = true → x.zoneId = row.zoneId → x.name = row.name →
    x.recordType ≠ .cname ∧ row.recordType ≠ .cname

theorem find?_of_nodup (h : (rows.map (·.id)).Nodup) (hr : r ∈ rows) :
    rows.find? (·.id = r.id) = some r :=
  Keyed.find?_eq (fun _ hx _ hy heq => inj_on_of_nodup_map h hx hy heq) hr

theorem Inv.insert (h : Inv U db) (hok : r.Ok) (hid : r.id ∉ db.issued)
    (hpl : ∀ z ∈ db.zones, r.zoneId = z.id → Plain U z r) (hcle : Clear db.records r)
    (hapex : r.enabled = true → r.recordType = .cname → r.name ≠ "@") :
    Inv U { db with records := db.records ++ [r], issued := r.id :: db.issued } := by
  refine ⟨(Change.insertRecord hid hok).wellFormed h.wellFormed, h.zoneIds, ?_,
    ⟨?_, h.settled.apart⟩, ?_, forall_concat h.apex hapex⟩
  · rw [map_append, map_singleton]
    refine h.recordIds.append (nodup_singleton _) fun id hmem hnew => hid ?_
    obtain ⟨x, hx, rfl⟩ := List.mem_map.mp hmem
    exact mem_singleton.mp hnew ▸ h.wellFormed.recordIssued x hx
  · intro z hz
    exact forall_concat (h.settled.plain z hz) (hpl z hz)
  · -- the new row clashes with none of the old ones
    intro c hc x hx hec hex hcn hzone hname
    rcases mem_append.mp hc with hc | hc <;> rcases mem_append.mp hx with hx | hx
    · exact h.cname c hc x hx hec hex hcn hzone hname
    · rw [mem_singleton.mp hx] at hex hzone hname
      exact absurd hcn (hcle c hc hec hex hzone hname).1
    · rw [mem_singleton.mp hc] at hec hcn hzone hname
      exact absurd hcn (hcle x hx hex hec hzone.symm hname.symm).2
    · rw [mem_singleton.mp hc, mem_singleton.mp hx]

theorem Inv.replace (h : Inv U db) (hr : r ∈ db.records) (hsame : r.SameRow row)
    (hok : r.Ok → row.Ok) (hpl : ∀ z ∈ db.zones, row.zoneId = z.id → Plain U z row)
    (hcle : Clear (db.records.filter (·.id ≠ r.id)) row)
    (hapex : row.enabled = true → row.recordType = .cname → row.name ≠ "@") :
    Inv U { db with records := replaceRow (·.id) r.id row db.records } := by
  refine ⟨(Change.updateRecord hr hsame hok).wellFormed h.wellFormed, h.zoneIds, ?_,
    ⟨?_, h.settled.apart⟩, ?_, forall_replaceRow hapex h.apex⟩
  · exact (map_key_replaceRow hsame.id.symm).symm ▸ h.recordIds
  · intro z hz
    exact forall_replaceRow (hpl z hz) (h.settled.plain z hz)
  · -- the row itself, or one of the others
    have hcas : ∀ x ∈ replaceRow (·.id) r.id row db.records,
        x = row ∨ x ∈ db.records.filter (·.id ≠ r.id) := by
      intro x hx
      obtain ⟨y, hy, rfl⟩ := List.mem_map.mp hx
      split
      · exact .inl rfl
      · exact .inr (mem_filter.mpr ⟨hy, by simpa⟩)
    intro c hc x hx hec hex hcn hzone hname
    rcases hcas c hc with rfl | hc' <;> rcases hcas x hx with hx' | hx'
    · rw [hx']
    · exact absurd hcn (hcle x hx' hex hec hzone.symm hname.symm).2
    · rw [hx'] at hex hzone hname
      exact absurd hcn (hcle c hc' hec hex hzone hname).1
    · exact h.cname c (mem_of_mem_filter hc') x (mem_of_mem_filter hx') hec hex hcn
        hzone hname

theorem Inv.filter (h : Inv U db) (keep : DnsRecord → Bool) :
    Inv U { db with records := db.records.filter keep } := by
  refine ⟨(Change.deleteRecords keep).wellFormed h.wellFormed, h.zoneIds, ?_,
    ⟨fun z hz => forall_filter (h.settled.plain z hz) _, h.settled.apart⟩, ?_,
    forall_filter h.apex _⟩
  · exact h.recordIds.sublist (filter_sublist.map _)
  · exact fun c hc x hx => h.cname c (mem_of_mem_filter hc) x (mem_of_mem_filter hx)

theorem Inv.zones (h : Inv U db) (hwf : db'.WellFormed U) (hids : (db'.zones.map (·.id)).Nodup)
    (hset : Settled U db') (hrec : db'.records = db.records) : Inv U db' :=
  ⟨hwf, hids, hrec ▸ h.recordIds, hset, hrec ▸ h.cname, hrec ▸ h.apex⟩

theorem Inv.congr (h : Inv U db) (hwf : db'.WellFormed U) (hzs : db'.zones = db.zones)
    (hrec : db'.records = db.records) : Inv U db' := by
  refine h.zones hwf (hzs ▸ h.zoneIds) ⟨?_, fun tenantId => ?_⟩ hrec
  · rw [hzs, hrec]
    exact h.settled.plain
  · rw [ZoneDb.servedZones, hzs]
    exact h.settled.apart tenantId

theorem Inv.deleteZone (h : Inv U db) (id : Str) :
    Inv U { db with
      zones := db.zones.filter (·.id ≠ id), records := db.records.filter (·.zoneId ≠ id) } := by
  have hser : ∀ tenantId, ∀ z ∈ ZoneDb.servedZones { db with
      zones := db.zones.filter (·.id ≠ id)
      records := db.records.filter (·.zoneId ≠ id) } tenantId, z ∈ db.servedZones tenantId := by
    intro tenantId z hz
    obtain ⟨hz, hrow⟩ := mem_servedZones.mp hz
    exact mem_servedZones.mpr ⟨mem_of_mem_filter hz, hrow⟩
  refine (h.filter (·.zoneId ≠ id)).zones ((Change.deleteZone id).wellFormed h.wellFormed)
    (h.zoneIds.sublist (filter_sublist.map _))
    ⟨fun z hz => ?_, fun tenantId z hz y hy => ?_⟩ rfl
  · exact forall_filter (h.settled.plain z (mem_of_mem_filter hz)) _
  · exact h.settled.apart tenantId z (hser tenantId z hz) y (hser tenantId y hy)

theorem Inv.request (h : Inv P.toCaseMap db) {req : Request} (hwhole : whole req = true)
    (hdb : db.apply P req = some db')
    (hset : (∃ u id p, req = .createZone u id p) ∨ (∃ u id p, req = .updateZone u id p) →
      Settled P.toCaseMap db') : Inv P.toCaseMap db' := by
  have hwf := (apply_change hdb).wellFormed h.wellFormed
  -- a zone that is new or renamed has to leave everything settled
  cases req with
  | createZone u id p =>
    obtain ⟨z, rfl, -, hid, -, rfl⟩ := createZone_eq_some hdb
    refine h.zones hwf ?_ (hset (.inl ⟨u, _, p, rfl⟩)) rfl
    rw [map_append, map_singleton]
    refine h.zoneIds.append (nodup_singleton _) fun id hmem hnew => hid ?_
    obtain ⟨x, hx, rfl⟩ := List.mem_map.mp hmem
    exact mem_singleton.mp hnew ▸ h.wellFormed.zoneIssued x hx
  | updateZone u id p =>
    obtain ⟨z, -, row, rfl, hid, -, -, -, rfl⟩ := updateZone_eq_some hdb
    refine h.zones hwf ?_ (hset (.inr ⟨u, _, p, rfl⟩)) rfl
    exact (map_key_replaceRow hid).symm ▸ h.zoneIds
  | deleteZone u id =>
    rw [ZoneDb.apply, Zones.deleteZone] at hdb
    obtain ⟨-, rfl⟩ := ite_some_none_eq_some.mp hdb
    exact h.deleteZone id
  | createRecord | updateRecord => simp [whole] at hwhole
  | deleteRecord =>
    rw [ZoneDb.apply, deleteRecord] at hdb
    obtain ⟨-, rfl⟩ := ite_some_none_eq_some.mp hdb
    exact h.filter _
  | createScope f =>
    rw [ZoneDb.apply, createScope] at hdb
    obtain ⟨-, rfl⟩ := ite_some_none_eq_some.mp hdb
    cases f <;> exact h.congr hwf rfl rfl
  | updateScope f =>
    rw [ZoneDb.apply, updateScope] at hdb
    split at hdb
    · simp at hdb
    · split at hdb
      · simp at hdb
      · obtain ⟨-, rfl⟩ := ite_some_none_eq_some.mp hdb
        cases f <;> exact h.congr hwf rfl rfl
  | deleteScope f =>
    rw [ZoneDb.apply, deleteScope] at hdb
    obtain ⟨-, rfl⟩ := ite_some_none_eq_some.mp hdb
    cases f <;> exact h.congr hwf rfl rfl

/-! ### Checked writes -/

/-- What is known of a write before its check. -/
def Loaded (seen : ZoneDb) : Write → Prop
  | .insert r => r.priority.all (within 0 65535) = true
  | .update loaded row => loaded ∈ seen.records ∧ loaded.SameRow row ∧
      row.priority.all (within 0 65535) = true

theorem loaded_newRow {zoneId id : Str} {p : RecordIn} (h : newRow P db u zoneId id p = some r) :
    Loaded db (.insert r) := by
  rw [newRow] at h
  split at h
  · obtain ⟨⟨-, hsem⟩, rfl⟩ := ite_some_none_eq_some.mp h
    exact validateRecordSemantics_priority hsem
  · simp at h

theorem loaded_newVersion {zone : DnsZone} {recordId : Str} {p : RecordUpdate}
    (h : newVersion P db u zone recordId p = some w) : Loaded db w := by
  rw [newVersion] at h
  split at h
  · simp at h
  · rename_i r hfind
    split at h
    · simp at h
    · rename_i row hrow
      obtain ⟨⟨-, hsem⟩, rfl⟩ := ite_some_none_eq_some.mp h
      exact ⟨mem_of_find?_eq_some hfind, RecordUpdate.apply_same hrow,
        validateRecordSemantics_priority hsem⟩

theorem clear_of_check (h : ¬(row.enabled = true ∧ cnameClash row.recordType (rows.filter fun x =>
      x.zoneId = row.zoneId && x.name = row.name && x.enabled) = true)) : Clear rows row := by
  intro x hx hex her hzone hname
  have hmem : x ∈ rows.filter fun x => x.zoneId = row.zoneId && x.name = row.name && x.enabled :=
    mem_filter.mpr ⟨hx, by simp [hzone, hname, hex]⟩
  have hno : cnameClash row.recordType (rows.filter fun x =>
      x.zoneId = row.zoneId && x.name = row.name && x.enabled) = false := by
    simpa [her] using h
  rw [cnameClash, Bool.or_eq_false_iff, List.any_eq_false] at hno
  refine ⟨by simpa using hno.1 x hmem, fun hcn => ?_⟩
  have hnil : (rows.filter fun x =>
      x.zoneId = row.zoneId && x.name = row.name && x.enabled) = [] := by
    simpa [hcn] using hno.2
  rw [hnil] at hmem
  simp at hmem

theorem merge_self {loaded : DnsRecord} (h : loaded.SameRow row) :
    merge loaded row loaded = row := by
  obtain ⟨hid, hzone, hmac, hduid⟩ := h
  simp only [merge, column_self, hid, hzone, hmac, hduid]

theorem Inv.commit_update (h : Inv U db) (hr : r ∈ db.records) (hsame : r.SameRow row) :
    (Write.update r row).commit db = if row.storable then
      some { db with records := replaceRow (·.id) r.id row db.records } else none := by
  rw [Write.commit]
  split
  · rename_i heq
    subst heq
    -- a row as it was is storable, and rewriting it changes nothing
    have hok := h.wellFormed.recordOk row hr
    have hsto : row.storable = true := by
      rw [DnsRecord.storable, Bool.and_eq_true]
      refine ⟨hok.ttl, ?_⟩
      have hpri := hok.priority
      cases hn : row.priority with
      | none => rfl
      | some n =>
        rw [hn] at hpri
        have := within_iff.mp hpri
        exact int4_iff.mpr (by omega)
    have hrows : replaceRow (·.id) row.id row db.records = db.records := by
      refine (map_congr_left fun x hx => ?_).trans (List.map_id _)
      split
      · rename_i hid
        exact (inj_on_of_nodup_map h.recordIds hx hr (by simpa using hid)).symm
      · rfl
    rw [if_pos hsto, hrows]
  · rw [find?_of_nodup h.recordIds hr]
    simp only [merge_self hsame]

/-- An update that is left alone is the endpoint of the zone API. -/
theorem updateRecord_eq (h : Inv P.toCaseMap db) (zoneId recordId : Str) (p : RecordUpdate) :
    updateRecord P db u zoneId recordId p = (getZone db u zoneId).bind fun zone =>
      (newVersion P db u zone recordId p).bind (·.finish db) := by
  rw [updateRecord]
  cases hzone : getZone db u zoneId with
  | none => rfl
  | some zone =>
    obtain ⟨-, rfl⟩ := getZone_mem hzone
    rw [bind_some, newVersion]
    cases hfind : db.records.find? fun r => r.id = recordId && r.zoneId = zone.id with
    | none => rfl
    | some r =>
      dsimp only
      cases hrow : p.apply P.toCaseMap zone r with
      | none => rfl
      | some row =>
        have hsame := RecordUpdate.apply_same hrow
        have hids := find?_some hfind
        simp only [Bool.and_eq_true, decide_eq_true_eq] at hids
        -- nobody writes in between, so the flush finds the row as it was read
        have hcom := h.commit_update (mem_of_find?_eq_some hfind) hsame
        rw [hids.1] at hcom
        have hcla : (Write.update r row).clashes db = (row.enabled && cnameClash row.recordType
            (db.records.filter fun x =>
              x.zoneId = zone.id && x.name = row.name && x.enabled && x.id ≠ r.id)) := by
          rw [Write.clashes, conflicts, List.filter_filter, ← hsame.zoneId, hids.2]
          simp only [Bool.and_comm]
        dsimp only
        by_cases hcks : u.hasRole .operator ∧
            validateRecordSemantics P row.recordType row.data row.priority = true
        · rw [if_pos hcks, bind_some, Write.finish, hcla, hcom]
          simp only [hcks.1, hcks.2, true_and]
          split
          · rename_i hall
            rw [if_neg (by simpa using hall.1), if_pos hall.2]
          · rename_i hnot
            split
            · rfl
            · rename_i hno
              exact (if_neg fun hsto => hnot ⟨by simpa using hno, hsto⟩).symm
        · rw [if_neg hcks, if_neg fun hall => hcks ⟨hall.1, hall.2.1⟩]
          rfl

theorem Inv.write (h : Inv P.toCaseMap db) {seen : ZoneDb} (hload : Loaded seen w)
    (hcla : w.clashes seen = false) (hrec : db.records = seen.records)
    (hpl : ∀ z ∈ db.zones, w.row.zoneId = z.id → Plain P.toCaseMap z w.row)
    (hapex : ¬(w.row.enabled = true ∧ w.row.recordType = .cname ∧ w.row.name = "@"))
    (hdb : w.commit db = some db') : Inv P.toCaseMap db' := by
  have hapex' : w.row.enabled = true → w.row.recordType = .cname → w.row.name ≠ "@" :=
    fun hena hcn hat => hapex ⟨hena, hcn, hat⟩
  cases w with
  | insert =>
    obtain ⟨⟨hsto, hid, -⟩, rfl⟩ := ite_some_none_eq_some.mp hdb
    rw [DnsRecord.storable, Bool.and_eq_true] at hsto
    refine h.insert ⟨hsto.1, hload⟩ hid hpl (clear_of_check ?_) hapex'
    rw [hrec]
    -- the check saw the rows that are there now
    simpa [Write.clashes, conflicts] using hcla
  | update =>
    obtain ⟨hld, hsame, hpri⟩ := hload
    rw [← hrec] at hld
    rw [h.commit_update hld hsame] at hdb
    obtain ⟨hsto, rfl⟩ := ite_some_none_eq_some.mp hdb
    rw [DnsRecord.storable, Bool.and_eq_true] at hsto
    refine h.replace hld hsame (fun _ => ⟨hsto.1, hpri⟩) hpl (clear_of_check ?_) hapex'
    rw [hrec, List.filter_filter]
    rw [Write.clashes, conflicts, List.filter_filter] at hcla
    simpa [Bool.and_comm] using hcla

theorem Inv.event (h : Inv U db) {job : Job} {newId : Str} {effect : Effect}
    (hins : ∀ name ip, effect = .insert name ip →
      (∀ z ∈ db.zones, job.zoneId = z.id → Plain U z (job.newRecord name ip [])) ∧
        ∀ r ∈ db.records, r.enabled = true → r.recordType = .cname → r.zoneId = job.zoneId →
          r.name ≠ name)
    (hdb : job.apply newId db effect = some db') : Inv U db' := by
  rcases Job.apply_cases hdb with ⟨-, rfl⟩ | ⟨r, hr, data, -, rfl⟩ |
    ⟨name, ip, heff, hid, hsto, rfl⟩ | ⟨ids, -, rfl⟩
  · exact h
  · -- a row that keeps its name and type
    refine h.replace hr ⟨rfl, rfl, rfl, rfl⟩ (fun hok => ⟨hok.ttl, hok.priority⟩)
      (fun z hz hzone => h.settled.plain z hz r hr hzone) (fun x hx hex her hzone hname => ?_)
      (h.apex r hr)
    obtain ⟨hx, hne⟩ := mem_filter.mp hx
    have hne : x.id ≠ r.id := by simpa using hne
    exact ⟨fun hcn => hne (h.cname x hx r hr hex her hcn hzone hname),
      fun hcn => hne (h.cname r hr x hx her hex hcn hzone.symm hname.symm).symm⟩
  · -- a new row, which is no CNAME and whose name has none
    obtain ⟨hpl, hfree⟩ := hins name ip heff
    have hadd : job.family.recordType ≠ .cname := by
      cases job.family <;> decide
    rw [DnsRecord.storable, Bool.and_eq_true] at hsto
    refine h.insert ⟨hsto.1, rfl⟩ hid hpl (fun x hx hex _ hzone hname => ⟨?_, hadd⟩)
      fun _ hcn => absurd hcn hadd
    exact fun hcn => hfree x hx hex hcn hzone hname
  · exact h.filter _

end Keep

/-! ### Runs -/

section Runs

variable {P : Python} {ι : Type}

theorem inv_fresh (U : CaseMap) (tenants : List Str) : Inv U (.fresh tenants) :=
  ⟨fresh_wellFormed U tenants, by simp [ZoneDb.fresh], by simp [ZoneDb.fresh],
    ⟨by simp [ZoneDb.fresh], by simp [ZoneDb.fresh, ZoneDb.servedZones]⟩, by simp [ZoneDb.fresh],
    by simp [ZoneDb.fresh]⟩

/-- What a call knows. -/
def Phase.Knows : Phase → Prop
  | .loaded seen w => Loaded seen w
  | .checked seen w => Loaded seen w ∧ w.clashes seen = false
  | _ => True

theorem Inv.stmt {s : State ι ZoneDb Phase} {i : ι} {db : ZoneDb} {p : Phase}
    (hC : Orderly P s i) (h : Inv P.toCaseMap s.db) (hkn : (s.phase i).Knows)
    (hstmt : Stmt P s.db (s.phase i) db p) : Inv P.toCaseMap db ∧ p.Knows := by
  rw [Orderly] at hC
  generalize s.phase i = q at hC hkn hstmt
  cases hstmt with
  | create hrow => exact ⟨h, loaded_newRow hrow⟩
  | load hload => exact ⟨h, loaded_newVersion hload⟩
  | @check seen w hcla =>
    -- the row that an update has loaded is still there
    cases w with
    | insert => exact ⟨h, hkn, hcla⟩
    | update => exact ⟨h, ⟨hC ▸ hkn.1, hkn.2⟩, hcla⟩
  | write hdb => exact ⟨h.write hkn.1 hkn.2 hC.2.1 hC.2.2.1 hC.2.2.2 hdb, trivial⟩
  | @request req _ hwhole hdb =>
    refine ⟨h.request hwhole hdb ?_, trivial⟩
    rintro (⟨u, id, p, rfl⟩ | ⟨u, id, p, rfl⟩)
    · exact hC _ hdb
    · exact hC _ hdb
  | find | scope | zone | rows | drop => exact ⟨h, trivial⟩
  | commit hdb =>
    refine ⟨h.event (fun name ip heff => ?_) hdb, trivial⟩
    subst heff
    exact hC

end Runs

/-! ### A zone with a printer -/

instance (U : CaseMap) (z : DnsZone) (r : DnsRecord) : Decidable (Plain U z r) :=
  inferInstanceAs (Decidable (_ ∧ _))

instance (records : List LocalZoneRecord) : Decidable (Exclusive records) :=
  inferInstanceAs (Decidable (List.Pairwise _ _))

end Control.Cname
