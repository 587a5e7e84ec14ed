/-
DHCP scopes and lease events: `api/dhcp_routers.py`, `api/dhcp6_routers.py` and
`api/dhcp_internal_routers.py`.

A lease event is one READ COMMITTED transaction.  It reads its scope, the zone
of the scope and the records at one name, each from what is committed at that
moment, and then commits one change of the record table.  Requests to the API
and other events may commit in between.

* `Step.change` — every step leaves the tables or makes one `Change`;
* `reachable_wellFormed` — what holds along every run;
* `dhcpEvent` — an event that nothing else interleaves with.
-/
import MantisDns.Machine
import MantisDns.ZoneApi

open Text Table List
open Option hiding join

namespace Control.Zones

variable {U : CaseMap} {f : Family} {db db' : ZoneDb} {u : User} {scopeId : Str}

/-! ### The two address families -/

inductive Family
  | v4
  | v6
  deriving DecidableEq

def Family.recordType : Family → RecordKind
  | .v4 => .a
  | .v6 => .aaaa

/-- `dhcp_scopes` or `dhcp_scopes6`. -/
def ZoneDb.scopesOf (db : ZoneDb) : Family → List DhcpScope
  | .v4 => db.scopes
  | .v6 => db.scopes6

def ZoneDb.withScopes (db : ZoneDb) (rows : List DhcpScope) : Family → ZoneDb
  | .v4 => { db with scopes := rows }
  | .v6 => { db with scopes6 := rows }

/-- `ddns_owner_mac` or `ddns_owner_duid`. -/
def DnsRecord.owner (r : DnsRecord) : Family → Option Str
  | .v4 => r.ddnsOwnerMac
  | .v6 => r.ddnsOwnerDuid

theorem DnsRecord.SameRow.owner {r r' : DnsRecord} (h : r.SameRow r') (f : Family) :
    r.owner f = r'.owner f := by
  cases f with
  | v4 => exact h.ddnsOwnerMac
  | v6 => exact h.ddnsOwnerDuid

/-! ### Scope endpoints -/

/-- `ScopeCreate` and `Scope6Create`. -/
structure ScopeCreate where
  tenantId : Str
  ddnsEnabled : Bool := false
  ddnsZoneId : Option Str := none
  ddnsTtlS : ℤ := 300

def ScopeCreate.row (p : ScopeCreate) (id : Str) : DhcpScope := { p with id }

/-- `ScopeUpdate` and `Scope6Update`. -/
structure ScopeUpdate where
  ddnsEnabled : Patch Bool := .unset
  ddnsZoneId : Patch Str := .unset
  ddnsTtlS : Patch ℤ := .unset

def ScopeUpdate.apply (p : ScopeUpdate) (scope : DhcpScope) : Option DhcpScope := do
  let ddnsEnabled ← p.ddnsEnabled.required scope.ddnsEnabled
  let ddnsTtlS ← p.ddnsTtlS.required scope.ddnsTtlS
  return { scope with ddnsEnabled, ddnsTtlS, ddnsZoneId := p.ddnsZoneId.nullable scope.ddnsZoneId }

/-- The scope of this id, if the user may see it. -/
def getScope (f : Family) (db : ZoneDb) (u : User) (scopeId : Str) : Option DhcpScope :=
  ((db.scopesOf f).find? (·.id = scopeId)).filter fun scope => checkTenantAccess u scope.tenantId

/-- `create_scope` and `create_scope6`. -/
def createScope (f : Family) (db : ZoneDb) (u : User) (id : Str) (p : ScopeCreate) :
    Option ZoneDb :=
  if u.hasRole .operator ∧ checkTenantAccess u p.tenantId ∧ p.tenantId ∈ db.tenants ∧
      int4 p.ddnsTtlS ∧ id ∉ db.issued then
    some { db.withScopes (db.scopesOf f ++ [p.row id]) f with issued := id :: db.issued }
  else none

/-- `update_scope` and `update_scope6`. -/
def updateScope (f : Family) (db : ZoneDb) (u : User) (scopeId : Str) (p : ScopeUpdate) :
    Option ZoneDb :=
  match getScope f db u scopeId with
  | none => none
  | some scope =>
    match p.apply scope with
    | none => none
    | some row =>
      if u.hasRole .operator ∧ int4 row.ddnsTtlS then
        some (db.withScopes (replaceRow (·.id) scopeId row (db.scopesOf f)) f)
      else none

/-- `delete_scope` and `delete_scope6`. -/
def deleteScope (f : Family) (db : ZoneDb) (u : User) (scopeId : Str) : Option ZoneDb :=
  if u.hasRole .operator ∧ (getScope f db u scopeId).isSome then
    some (db.withScopes ((db.scopesOf f).filter (·.id ≠ scopeId)) f)
  else none

/-- A request to the zone API or to the scope API. -/
inductive Request
  | createZone (u : User) (id : Str) (p : ZoneCreate)
  | updateZone (u : User) (zoneId : Str) (p : ZoneUpdate)
  | deleteZone (u : User) (zoneId : Str)
  | createRecord (u : User) (zoneId id : Str) (p : RecordIn)
  | updateRecord (u : User) (zoneId recordId : Str) (p : RecordUpdate)
  | deleteRecord (u : User) (zoneId recordId : Str)
  | createScope (f : Family) (u : User) (id : Str) (p : ScopeCreate)
  | updateScope (f : Family) (u : User) (scopeId : Str) (p : ScopeUpdate)
  | deleteScope (f : Family) (u : User) (scopeId : Str)

/-- The tables after an accepted request. -/
def ZoneDb.apply (P : Python) (db : ZoneDb) : Request → Option ZoneDb
  | .createZone u id p => Zones.createZone P db u id p
  | .updateZone u zoneId p => Zones.updateZone P db u zoneId p
  | .deleteZone u zoneId => Zones.deleteZone db u zoneId
  | .createRecord u zoneId id p => Zones.createRecord P db u zoneId id p
  | .updateRecord u zoneId recordId p => Zones.updateRecord P db u zoneId recordId p
  | .deleteRecord u zoneId recordId => Zones.deleteRecord db u zoneId recordId
  | .createScope f u id p => Zones.createScope f db u id p
  | .updateScope f u scopeId p => Zones.updateScope f db u scopeId p
  | .deleteScope f u scopeId => Zones.deleteScope f db u scopeId

theorem ZoneDb.withScopes_change (db : ZoneDb) (rows : List DhcpScope) (f : Family)
    {issued : List Str} (h : db.issued ⊆ issued) :
    Change U db { db.withScopes rows f with issued } := by
  cases f with
  | v4 => exact .scopes rows db.scopes6 h
  | v6 => exact .scopes db.scopes rows h

theorem createScope_change {id : Str} {p : ScopeCreate} (h : createScope f db u id p = some db') :
    Change U db db' := by
  rw [createScope] at h
  obtain ⟨-, h⟩ := ite_none_right_eq_some.mp h
  cases h
  exact db.withScopes_change _ f (subset_cons_self _ _)

theorem ZoneDb.issued_withScopes (db : ZoneDb) (rows : List DhcpScope) (f : Family) :
    (db.withScopes rows f).issued = db.issued := by
  cases f <;> rfl

theorem ZoneDb.withScopes_change_self (db : ZoneDb) (rows : List DhcpScope) (f : Family) :
    Change U db (db.withScopes rows f) := by
  have h := @ZoneDb.withScopes_change U db rows f _ (List.Subset.refl db.issued)
  rwa [← db.issued_withScopes rows f] at h

theorem updateScope_change {p : ScopeUpdate} (h : updateScope f db u scopeId p = some db') :
    Change U db db' := by
  rw [updateScope] at h
  split at h
  · simp at h
  · split at h
    · simp at h
    · obtain ⟨-, h⟩ := ite_none_right_eq_some.mp h
      cases h
      exact db.withScopes_change_self _ f

theorem deleteScope_change (h : deleteScope f db u scopeId = some db') : Change U db db' := by
  rw [deleteScope] at h
  obtain ⟨-, h⟩ := ite_none_right_eq_some.mp h
  cases h
  exact db.withScopes_change_self _ f

theorem apply_change {P : Python} {req : Request} (h : db.apply P req = some db') :
    Change P.toCaseMap db db' := by
  cases req with
  | createZone => exact (createZone_change h).change
  | updateZone => exact (updateZone_change h).change
  | deleteZone => exact (deleteZone_change h).change
  | createRecord => exact (createRecord_change h).change
  | updateRecord => exact (updateRecord_change h).change
  | deleteRecord => exact (deleteRecord_change h).change
  | createScope => exact createScope_change h
  | updateScope => exact updateScope_change h
  | deleteScope => exact deleteScope_change h

end Control.Zones

namespace Control.Ddns

open Zones

/-! ### One event -/

/-- `event`. -/
inductive EventKind
  | add
  | expire
  | delete
  | other (text : Str)
  deriving DecidableEq

structure DhcpEvent where
  event : EventKind
  ip : Str
  hostname : Str
  family : Family := .v4
  mac : Str := []
  duid : Str := []
  scopeId : Str := []

/-- `_mac_fmt`. -/
def macFmt (U : CaseMap) (raw : Str) : Option Str :=
  if raw = [] then none
  else
    let h := U.lower (raw.filter fun c => c ≠ ':' && c ≠ '-')
    if h.length ≠ 12 then some raw
    else some (join ":" ((List.range 6).map fun i => (h.drop (2 * i)).take 2))

/-- `_duid_fmt`. -/
def duidFmt (U : CaseMap) (raw : Str) : Option Str :=
  if raw = [] then none else some (U.lower (strip raw))

/-- The client an event comes from. -/
def DhcpEvent.owner (U : CaseMap) (ev : DhcpEvent) : Option Str :=
  match ev.family with
  | .v4 => macFmt U ev.mac
  | .v6 => duidFmt U ev.duid

/-- `_rel_hostname`. -/
def relHostname (hostname zoneName : Str) : Str :=
  let h := trimDots hostname
  let zone := trimDots zoneName
  match stripSuffix ('.' :: zone) h with
  | some rest => rest
  | none => if h = zone then "@" else h

/-- `(?!-)[a-zA-Z0-9-]{1,63}(?<!-)`. -/
def ddnsLabel (label : Str) : Bool :=
  isLabel (fun c => isAlnum c || ('A' ≤ c && c ≤ 'Z')) label

def ddnsName (name : Str) : Bool := name = "@" || (name.splitOn '.').all ddnsLabel

/-- `_DDNS_NAME_RE.match`: `$` also matches before a final newline. -/
def ddnsNameRe (name : Str) : Bool :=
  ddnsName name || (name.getLast? == some '\n' && ddnsName name.dropLast)

/-- `_upsert_*_record` or `_delete_*_record`. -/
inductive JobKind
  | upsert
  | remove
  deriving DecidableEq

/-- What an event is to do, from its payload and its scope. -/
structure Job where
  kind : JobKind
  family : Family
  tenantId : Str
  zoneId : Str
  hostname : Str
  ip : Str
  owner : Option Str
  ttl : ℤ
  deriving DecidableEq

/-- `dhcp_event` up to the call of its helper; `none` when no record is
touched. -/
def jobOf (U : CaseMap) (db : ZoneDb) (ev : DhcpEvent) : Option Job := do
  let scope ← (db.scopesOf ev.family).find? (·.id = ev.scopeId)
  let kind ←
    match ev.event with
    | .add => some .upsert
    | .expire => some .remove
    | .delete => some .remove
    | .other _ => none
  let zoneId ← scope.ddnsZoneId
  let hostname := strip ev.hostname
  if scope.ddnsEnabled ∧ zoneId ≠ [] ∧ hostname ≠ [] then
    return ⟨kind, ev.family, scope.tenantId, zoneId, hostname, ev.ip, ev.owner U, scope.ddnsTtlS⟩
  else none

theorem jobOf_eq_some {U : CaseMap} {db : ZoneDb} {ev : DhcpEvent} {job : Job}
    (h : jobOf U db ev = some job) :
    (∃ scope ∈ db.scopesOf ev.family,
      scope.ddnsZoneId = some job.zoneId ∧ scope.tenantId = job.tenantId) ∧
      job.family = ev.family ∧ job.owner = ev.owner U := by
  cases hkind : ev.event with
  | other =>
    simp [jobOf, hkind] at h
  | add | expire | delete =>
    simp only [jobOf, hkind, bind_eq_bind, bind_some, bind_eq_some_iff] at h
    obtain ⟨scope, hfind, zoneId, hzon, h⟩ := h
    obtain ⟨-, h⟩ := ite_none_right_eq_some.mp h
    cases h
    exact ⟨⟨scope, mem_of_find?_eq_some hfind, hzon, rfl⟩, rfl, rfl⟩

/-- The checks of a helper once it has its zone: the record name and data it
goes on with. -/
def Job.target (job : Job) (zone : DnsZone) : Option (Str × Str) :=
  let name := relHostname job.hostname zone.name
  if name = [] then none
  else
    match job.kind with
    | .upsert => do
      let name ← validateRecordField name
      let ip ← validateRecordField job.ip
      if zone.enabled ∧ ddnsNameRe name then some (name, ip) else none
    | .remove => if job.owner.any (· ≠ []) then some (name, job.ip) else none

/-- The filter on `zone_id`, `name` and `record_type`. -/
def Job.matches (job : Job) (name : Str) (r : DnsRecord) : Bool :=
  r.zoneId = job.zoneId && r.name = name && r.recordType = job.family.recordType

/-- The row that `db.add` inserts. -/
def Job.newRecord (job : Job) (name ip id : Str) : DnsRecord where
  id := id
  zoneId := job.zoneId
  name := name
  recordType := job.family.recordType
  ttl := some job.ttl
  data := ip
  priority := none
  enabled := true
  ddnsOwnerMac := if job.family = .v4 then job.owner else none
  ddnsOwnerDuid := if job.family = .v6 then job.owner else none

theorem Job.owner_newRecord (job : Job) (name ip id : Str) :
    (job.newRecord name ip id).owner job.family = job.owner := by
  cases hf : job.family <;> simp [DnsRecord.owner, Job.newRecord, hf]

/-- What a helper has decided to write. -/
inductive Effect
  | skip
  | update (id data : Str)
  | insert (name ip : Str)
  | delete (ids : List Str)
  deriving DecidableEq

/-- `_upsert_*_record` after its query. -/
def Job.upsert (job : Job) (name ip : Str) : Option DnsRecord → Effect
  | none => .insert name ip
  | some existing =>
    match existing.owner job.family with
    | none => .skip
    | some owner => if job.owner = some owner then .update existing.id ip else .skip

/-- The statement on the record table: `.first()` takes any matching row, and
the `DELETE` names its rows. -/
inductive Job.Decides (job : Job) (name ip : Str) (rows : List DnsRecord) : Effect → Prop
  | found {r : DnsRecord} (hkind : job.kind = .upsert) (hr : r ∈ rows)
      (hmatches : job.matches name r = true) :
    Decides job name ip rows (job.upsert name ip (some r))
  | missing (hkind : job.kind = .upsert) (hrows : ∀ r ∈ rows, job.matches name r = false) :
    Decides job name ip rows (job.upsert name ip none)
  | remove (hkind : job.kind = .remove) :
    Decides job name ip rows (.delete ((rows.filter fun r =>
      job.matches name r && r.data = ip && r.owner job.family = job.owner).map (·.id)))

/-- The flush at the commit; `none` when a constraint refuses it. -/
def Job.apply (job : Job) (newId : Str) (db : ZoneDb) : Effect → Option ZoneDb
  | .skip => some db
  | .update id data =>
    match db.records.find? (·.id = id) with
    | none => none
    | some r => some { db with records := replaceRow (·.id) id { r with data } db.records }
  | .insert name ip =>
    let r := job.newRecord name ip newId
    if newId ∉ db.issued ∧ job.zoneId ∈ db.zoneIds ∧ r.storable then
      some { db with records := db.records ++ [r], issued := newId :: db.issued }
    else none
  | .delete ids => some { db with records := db.records.filter (·.id ∉ ids) }

/-! ### Events among requests -/

/-- How far an event is, with what it has read. -/
inductive Phase
  | idle
  | scoped (job : Job)
  | zoned (job : Job) (zone : DnsZone) (name ip : Str)
  | ready (job : Job) (zone : DnsZone) (name : Str) (seen : List DnsRecord) (effect : Effect)
  | done
  deriving DecidableEq

/-- The committed tables and the events. -/
structure State (ι : Type) where
  db : ZoneDb
  phase : ι → Phase

variable {ι : Type} [DecidableEq ι]

def init (tenants : List Str) : State ι := ⟨.fresh tenants, fun _ => .idle⟩

def State.set (s : State ι) (i : ι) (p : Phase) : State ι :=
  { s with phase := Function.update s.phase i p }

theorem State.set_phase (s : State ι) (i : ι) (p : Phase) : (s.set i p).phase i = p :=
  Function.update_self ..

/-- One statement of an event, its end, or an accepted request. -/
inductive Step (P : Python) (events : ι → DhcpEvent) (s : State ι) : State ι → Prop
  | request {req : Request} {db : ZoneDb} (h : s.db.apply P req = some db) :
    Step P events s { s with db }
  | scope {i : ι} {job : Job} (h : s.phase i = .idle)
      (hjob : jobOf P.toCaseMap s.db (events i) = some job) :
    Step P events s (s.set i (.scoped job))
  | ignore {i : ι} (h : s.phase i = .idle) (hjob : jobOf P.toCaseMap s.db (events i) = none) :
    Step P events s (s.set i .done)
  | zone {i : ι} {job : Job} {zone : DnsZone} {name ip : Str} (h : s.phase i = .scoped job)
      (hzone : zone ∈ s.db.zones) (hid : zone.id = job.zoneId)
      (htarget : job.target zone = some (name, ip)) :
    Step P events s (s.set i (.zoned job zone name ip))
  | refuse {i : ι} {job : Job} (h : s.phase i = .scoped job)
      (hzone : ∀ zone ∈ s.db.zones, zone.id = job.zoneId → job.target zone = none) :
    Step P events s (s.set i .done)
  | rows {i : ι} {job : Job} {zone : DnsZone} {name ip : Str} {effect : Effect}
      (h : s.phase i = .zoned job zone name ip)
      (heffect : job.Decides name ip s.db.records effect) :
    Step P events s (s.set i (.ready job zone name s.db.records effect))
  | commit {i : ι} {job : Job} {zone : DnsZone} {name newId : Str} {seen : List DnsRecord}
      {effect : Effect} {db : ZoneDb} (h : s.phase i = .ready job zone name seen effect)
      (hdb : job.apply newId s.db effect = some db) :
    Step P events s { s.set i .done with db }
  | rollback {i : ι} {job : Job} {zone : DnsZone} {name : Str} {seen : List DnsRecord}
      {effect : Effect} (h : s.phase i = .ready job zone name seen effect) :
    Step P events s (s.set i .done)

def Run (P : Python) (events : ι → DhcpEvent) : State ι → State ι → Prop :=
  Relation.ReflTransGen (Step P events)

/-- The tables that requests and events can lead to. -/
def Reachable (P : Python) (tenants : List Str) (db : ZoneDb) : Prop :=
  ∃ (events : ℕ → DhcpEvent) (s : State ℕ), Run P events (init tenants) s ∧ s.db = db

/-! ### What a step does to the tables -/

variable {P : Python} {events : ι → DhcpEvent} {s t : State ι}
variable {job : Job} {newId : Str} {db db' : ZoneDb} {effect : Effect} {tenants : List Str} {i : ι}

theorem Job.apply_cases (h : job.apply newId db effect = some db') :
    effect = .skip ∧ db' = db ∨
    (∃ r ∈ db.records, ∃ data, effect = .update r.id data ∧
      db' = { db with records := replaceRow (·.id) r.id { r with data } db.records }) ∨
    (∃ name ip, effect = .insert name ip ∧ newId ∉ db.issued ∧
      (job.newRecord name ip newId).storable = true ∧
      db' = { db with
        records := db.records ++ [job.newRecord name ip newId], issued := newId :: db.issued }) ∨
    ∃ ids, effect = .delete ids ∧ db' = { db with records := db.records.filter (·.id ∉ ids) } := by
  cases effect with
  | skip => exact .inl ⟨rfl, (some_inj.mp h).symm⟩
  | update id data =>
    rw [Job.apply] at h
    split at h
    · simp at h
    · rename_i r hfind
      obtain rfl : r.id = id := by simpa using find?_some hfind
      exact .inr (.inl ⟨r, mem_of_find?_eq_some hfind, data, rfl, (some_inj.mp h).symm⟩)
  | insert name ip =>
    rw [Job.apply] at h
    obtain ⟨hcks, h⟩ := ite_none_right_eq_some.mp h
    exact .inr (.inr (.inl ⟨name, ip, rfl, hcks.1, hcks.2.2, (some_inj.mp h).symm⟩))
  | delete ids => exact .inr (.inr (.inr ⟨ids, rfl, (some_inj.mp h).symm⟩))

theorem Job.apply_change {U : CaseMap} (h : job.apply newId db effect = some db') :
    db' = db ∨ ZoneChange U db db' := by
  rcases Job.apply_cases h with ⟨-, rfl⟩ | ⟨r, hr, data, -, rfl⟩ | ⟨name, ip, -, hid, hsto, rfl⟩ |
    ⟨ids, -, rfl⟩
  · exact .inl rfl
  · exact .inr ⟨.updateRecord hr ⟨rfl, rfl, rfl, rfl⟩ fun hr => ⟨hr.ttl, hr.priority⟩, rfl, rfl⟩
  · rw [DnsRecord.storable, Bool.and_eq_true] at hsto
    exact .inr ⟨@Change.insertRecord U db (job.newRecord name ip newId) hid ⟨hsto.1, rfl⟩,
      rfl, rfl⟩
  · exact .inr ⟨.deleteRecords _, rfl, rfl⟩

/-- **What a step does to the tables.** -/
theorem Step.change (h : Step P events s t) : t.db = s.db ∨ Change P.toCaseMap s.db t.db := by
  cases h with
  | request h => exact .inr (apply_change h)
  | commit h hdb => exact (Job.apply_change hdb).imp_right ZoneChange.change
  | scope | ignore | zone | refuse | rows | rollback => exact .inl rfl

theorem Run.wellFormed (h : Run P events s t) (hs : s.db.WellFormed P.toCaseMap) :
    t.db.WellFormed P.toCaseMap := by
  induction h with
  | refl => exact hs
  | tail _ hstep ih =>
    rcases hstep.change with heq | hcha
    · rwa [heq]
    · exact hcha.wellFormed ih

theorem reachable_wellFormed (h : Reachable P tenants db) :
    db.WellFormed P.toCaseMap := by
  obtain ⟨events, s, hrun, rfl⟩ := h
  exact hrun.wellFormed (fresh_wellFormed _ tenants)

/-! ### Runs of requests, and of one event -/

/-- Requests one after the other, all of them accepted. -/
def requests (P : Python) (db : ZoneDb) (reqs : List Request) : Option ZoneDb :=
  reqs.foldlM (ZoneDb.apply P) db

/-- A helper whose `.first()` takes the first row. -/
def Job.decide (job : Job) (name ip : Str) (rows : List DnsRecord) : Effect :=
  match job.kind with
  | .upsert => job.upsert name ip (rows.find? (job.matches name))
  | .remove => .delete ((rows.filter fun r =>
      job.matches name r && r.data = ip && r.owner job.family = job.owner).map (·.id))

theorem Job.decides_decide (job : Job) (name ip : Str) (rows : List DnsRecord) :
    job.Decides name ip rows (job.decide name ip rows) := by
  rw [Job.decide]
  split
  · rename_i hkind
    cases hfind : rows.find? (job.matches name) with
    | none => exact .missing hkind fun r hr => by simpa using find?_eq_none.mp hfind r hr
    | some => exact .found hkind (mem_of_find?_eq_some hfind) (find?_some hfind)
  · rename_i hkind
    exact .remove hkind

/-- A request, or the next statement of an event, with the id for a row that it adds. -/
inductive Move (ι : Type)
  | request (req : Request)
  | go (i : ι) (newId : Str := [])

def State.advance (P : Python) (events : ι → DhcpEvent) (s : State ι) : Move ι → Option (State ι)
  | .request req => (s.db.apply P req).map fun db => { s with db }
  | .go i newId =>
    match s.phase i with
    | .idle => (jobOf P.toCaseMap s.db (events i)).map fun job => s.set i (.scoped job)
    | .scoped job => (s.db.zones.find? (·.id = job.zoneId)).bind fun zone =>
      (job.target zone).map fun target => s.set i (.zoned job zone target.1 target.2)
    | .zoned job zone name ip =>
      some (s.set i (.ready job zone name s.db.records (job.decide name ip s.db.records)))
    | .ready job _ _ _ effect =>
      (job.apply newId s.db effect).map fun db => { s.set i .done with db }
    | .done => none

theorem step_of_go (h : s.advance P events (.go i newId) = some t) :
    Step P events s t ∧ t.phase i ≠ s.phase i := by
  rw [State.advance] at h
  -- the phase decides which statement comes next
  cases hph : s.phase i with
  | idle =>
    rw [hph] at h
    obtain ⟨job, hjob, rfl⟩ := map_eq_some_iff.mp h
    exact ⟨.scope hph hjob, by simp [State.set_phase]⟩
  | «scoped» job =>
    rw [hph] at h
    obtain ⟨zone, hzone, h⟩ := bind_eq_some_iff.mp h
    obtain ⟨⟨name, ip⟩, htarget, rfl⟩ := map_eq_some_iff.mp h
    exact ⟨.zone hph (mem_of_find?_eq_some hzone) (by simpa using find?_some hzone)
      htarget, by simp [State.set_phase]⟩
  | zoned job zone name ip =>
    rw [hph] at h
    cases h
    exact ⟨.rows hph (job.decides_decide name ip s.db.records), by simp [State.set_phase]⟩
  | ready =>
    rw [hph] at h
    obtain ⟨db, hdb, rfl⟩ := map_eq_some_iff.mp h
    exact ⟨.commit hph hdb, by simp [State.set]⟩
  | done =>
    rw [hph] at h
    simp at h

theorem step_of_advance {m : Move ι} (h : s.advance P events m = some t) : Step P events s t := by
  cases m with
  | request =>
    obtain ⟨db, hdb, rfl⟩ := map_eq_some_iff.mp h
    exact .request hdb
  | go => exact (step_of_go h).1

theorem reachable_requests {reqs : List Request} (h : requests P (.fresh tenants) reqs = some db) :
    Reachable P tenants db := by
  let events : ℕ → DhcpEvent := fun _ => ⟨.add, [], [], .v4, [], [], []⟩
  refine ⟨events, ⟨db, fun _ => .idle⟩, ?_, rfl⟩
  show Run P events ⟨.fresh tenants, fun _ => .idle⟩ _
  generalize ZoneDb.fresh tenants = db₀ at h
  induction reqs generalizing db₀ with
  | nil => exact some_inj.mp h ▸ .refl
  | cons req reqs ih =>
    obtain ⟨d, hd, hrest⟩ := bind_eq_some_iff.mp h
    exact .head (.request hd) (ih d hrest)

/-- All statements of an event but the commit, with nothing in between. -/
def prepare (U : CaseMap) (db : ZoneDb) (ev : DhcpEvent) : Option (Job × DnsZone × Str × Effect) :=
  do
    let job ← jobOf U db ev
    let zone ← db.zones.find? (·.id = job.zoneId)
    let (name, ip) ← job.target zone
    return (job, zone, name, job.decide name ip db.records)

/-- `dhcp_event` with nothing in between. -/
def dhcpEvent (U : CaseMap) (db : ZoneDb) (newId : Str) (ev : DhcpEvent) : Option ZoneDb := do
  let (job, _, _, effect) ← prepare U db ev
  job.apply newId db effect

theorem run_dhcpEvent (hidle : s.phase i = .idle)
    (h : dhcpEvent P.toCaseMap s.db newId (events i) = some db) :
    Run P events s { s.set i .done with db } := by
  simp only [dhcpEvent, prepare, bind_eq_bind, bind_eq_some_iff, Option.pure_def,
    some_inj, Prod.exists, Prod.mk.injEq] at h
  obtain ⟨_, _, _, _, ⟨job, hjob, zone, hzone, name, ip, htarget, rfl, rfl, rfl, rfl⟩, hdb⟩ := h
  refine Machine.reflTransGen_of_foldlM (f := State.advance P events) step_of_advance
    [.go i, .go i, .go i, .go i newId] ?_
  simp [State.advance, State.set, hidle, hjob, hzone, htarget, hdb]

end Control.Ddns
