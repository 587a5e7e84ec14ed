/-
What lease events publish: `_upsert_a_record`, `_delete_a_record` and their AAAA
counterparts, seen as updates of one table from names to addresses.

In a zone where every name in use belongs to one client, the rows of the record
table at a name are none or one, and whose it is follows from the name.  What DDNS
has published is then a table with an address for some names, an "add" sets the
address of a name and an "expire" clears it if the address is the one it says.

* `Bridge.Effective` — an event that reaches the records;
* `Bridge.Represents` — the record table shows what was published;
* `Bridge.Represents.add`, `Bridge.Represents.expire` — what an event does to both;
* `Bridge.Represents.published_iff` — the records that clients own are those of the
  table.
-/
import MantisDns.DhcpEvents
import MantisDns.Ipv6Text

open Text Table Dns Function List Option

namespace Control.Ddns

open Zones

/-! ### The table -/

/-- What is published: the address at each name. -/
abbrev Hosts := Str → Option Str

def Hosts.add (t : Hosts) (name ip : Str) : Hosts := update t name (some ip)

def Hosts.expire (t : Hosts) (name ip : Str) : Hosts :=
  if t name = some ip then update t name none else t

theorem Hosts.add_apply {t : Hosts} {name ip name' : Str} :
    t.add name ip name' = if name' = name then some ip else t name' :=
  update_apply ..

theorem Hosts.expire_eq_some_iff {t : Hosts} {name ip name' ip' : Str} :
    t.expire name ip name' = some ip' ↔ t name' = some ip' ∧ ¬(name' = name ∧ ip' = ip) := by
  rw [Hosts.expire]
  by_cases hname : name' = name
  · subst hname
    split
    · rename_i hip
      rw [update_self, hip, some_inj]
      constructor
      · exact nofun
      · rintro ⟨rfl, hnot⟩
        exact absurd ⟨rfl, rfl⟩ hnot
    · rename_i hip
      refine ⟨fun h => ⟨h, fun heq => hip (heq.2 ▸ h)⟩, fun h => h.1⟩
  · have hoth : (if t name = some ip then update t name none else t) name' = t name' := by
      split
      · exact update_of_ne hname ..
      · rfl
    rw [hoth]
    exact ⟨fun h => ⟨h, fun heq => hname heq.1⟩, fun h => h.1⟩

/-! ### The zone -/

/-- A zone, the scopes that feed it, and to whom each of its names belongs. -/
structure Bridge where
  U : CaseMap
  family : Family
  zone : DnsZone
  scopes : List DhcpScope
  owners : Str → Option Str

/-- The name under which a host is published. -/
def Bridge.name (B : Bridge) (hostname : Str) : Str := relHostname (strip hostname) B.zone.name

/-- DDNS is enabled for the scope of an event, and the event has a valid host name
that belongs to its client. -/
structure Bridge.Effective (B : Bridge) (ev : DhcpEvent) : Prop where
  family : ev.family = B.family
  zone : B.zone.enabled = true ∧ B.zone.id ≠ []
  scope : ∃ scope, B.scopes.find? (·.id = ev.scopeId) = some scope ∧ scope.ddnsEnabled = true ∧
    scope.ddnsZoneId = some B.zone.id ∧ int4 scope.ddnsTtlS = true
  hostname : strip ev.hostname ≠ []
  field : validateRecordField (B.name ev.hostname) = some (B.name ev.hostname)
  label : ddnsNameRe (B.name ev.hostname) = true
  owner : ∃ o, o ≠ [] ∧ ev.owner B.U = some o ∧ B.owners (B.name ev.hostname) = some o

/-- The rows of the zone at a name. -/
def Bridge.at (B : Bridge) (name : Str) (r : DnsRecord) : Bool :=
  r.zoneId = B.zone.id && r.name = name && r.recordType = B.family.recordType

/-- A row that a client owns. -/
def Bridge.Owned (B : Bridge) (name ip o : Str) (r : DnsRecord) : Prop :=
  B.at name r = true ∧ r.data = ip ∧ r.owner B.family = some o

instance (B : Bridge) (name ip o : Str) : DecidablePred (B.Owned name ip o) :=
  fun _ => inferInstanceAs (Decidable (_ ∧ _ ∧ _))

/-- The record table shows what is published: of each name in use the one row of its
owner with the address, or none. -/
structure Bridge.Represents (B : Bridge) (t : Hosts) (db : ZoneDb) : Prop where
  zone : db.zones.find? (·.id = B.zone.id) = some B.zone
  scopes : db.scopesOf B.family = B.scopes
  keyed : Keyed (·.id) db.records
  issued : ∀ r ∈ db.records, r.id ∈ db.issued
  -- clients own nothing under other names
  owned : ∀ r ∈ db.records, ∀ name, B.at name r = true → (r.owner B.family).isSome →
    (B.owners name).isSome
  unknown : ∀ name, B.owners name = none → t name = none
  rows : ∀ name o, B.owners name = some o →
    List.Forall₂ (fun r ip => r.data = ip ∧ r.owner B.family = some o)
      (db.records.filter (B.at name)) (t name).toList

variable {B : Bridge} {t : Hosts} {db : ZoneDb} {ev : DhcpEvent} {newId : Str}
variable {o ip : Str} {kind : JobKind} {r : DnsRecord} {db' : ZoneDb}

theorem Bridge.Represents.rows_of_none (h : B.Represents t db) {name : Str}
    (ho : B.owners name = some o) (ht : t name = none) : db.records.filter (B.at name) = [] := by
  have hrows := h.rows name o ho
  rwa [ht, toList_none, forall₂_nil_right_iff] at hrows

theorem Bridge.Represents.row_of_some (h : B.Represents t db) {name : Str}
    (ho : B.owners name = some o) (ht : t name = some ip) :
    ∃ r, db.records.filter (B.at name) = [r] ∧ r.data = ip ∧ r.owner B.family = some o := by
  have hrows := h.rows name o ho
  rw [ht, toList_some] at hrows
  obtain ⟨r, rest, hr, hnil, hlist⟩ := forall₂_cons_right_iff.mp hrows
  rw [forall₂_nil_right_iff] at hnil
  rw [hnil] at hlist
  exact ⟨r, hlist, hr⟩

/-- **The records that clients own are those of the table.** -/
theorem Bridge.Represents.published_iff (h : B.Represents t db) {name : Str} :
    (∃ r ∈ db.records, B.Owned name ip o r) ↔ t name = some ip ∧ B.owners name = some o := by
  constructor
  · rintro ⟨r, hr, hat, rfl, hown⟩
    obtain ⟨o', ho'⟩ := isSome_iff_exists.mp (h.owned r hr name hat (by simp [hown]))
    have hmem : r ∈ db.records.filter (B.at name) := mem_filter.mpr ⟨hr, hat⟩
    cases ht : t name with
    | none =>
      rw [h.rows_of_none ho' ht] at hmem
      simp at hmem
    | some =>
      obtain ⟨r', hlist, hdata, hown'⟩ := h.row_of_some ho' ht
      rw [hlist, mem_singleton] at hmem
      subst hmem
      rw [hown, some_inj] at hown'
      exact ⟨by rw [hdata], by rw [ho', hown']⟩
  · rintro ⟨ht, ho⟩
    obtain ⟨r, hlist, hdata, hown⟩ := h.row_of_some ho ht
    have hmem : r ∈ db.records.filter (B.at name) := hlist ▸ mem_cons_self
    obtain ⟨hr, hat⟩ := mem_filter.mp hmem
    exact ⟨r, hr, hat, hdata, hown⟩

/-! ### One event -/

/-- What the control plane makes of an event. -/
structure Bridge.Task (B : Bridge) (ev : DhcpEvent) (job : Job) : Prop where
  zoneId : job.zoneId = B.zone.id
  family : job.family = B.family
  hostname : job.hostname = strip ev.hostname
  ip : job.ip = ev.ip
  owner : job.owner = ev.owner B.U
  ttl : int4 job.ttl = true

theorem Bridge.Task.matches_eq {job : Job} (h : B.Task ev job) (name : Str) :
    job.matches name = B.at name := by
  funext r
  rw [Job.matches, Bridge.at, h.zoneId, h.family]

theorem Bridge.Effective.job (hev : B.Effective ev) (h : B.Represents t db)
    (hkind : ev.event = .add ∧ kind = .upsert ∨ ev.event = .expire ∧ kind = .remove) :
    ∃ job, jobOf B.U db ev = some job ∧ B.Task ev job ∧ job.kind = kind := by
  obtain ⟨scope, hfind, hena, hzone, httl⟩ := hev.scope
  refine ⟨⟨kind, ev.family, scope.tenantId, B.zone.id, strip ev.hostname, ev.ip, ev.owner B.U,
    scope.ddnsTtlS⟩, ?_, ⟨rfl, hev.family, rfl, rfl, rfl, httl⟩, rfl⟩
  have hsc : (db.scopesOf ev.family).find? (·.id = ev.scopeId) = some scope := by
    rw [hev.family, h.scopes, hfind]
  rcases hkind with ⟨hkind, rfl⟩ | ⟨hkind, rfl⟩ <;>
    simp [jobOf, hsc, hkind, hzone, hena, hev.zone.2, hev.hostname]

theorem name_ne_nil {name : Str} (h : validateRecordField name = some name) : name ≠ [] := by
  rintro rfl
  exact absurd h (by decide)

theorem Bridge.Effective.target (hev : B.Effective ev) {job : Job} (hjob : B.Task ev job)
    (hip : validateRecordField ev.ip = some ev.ip) :
    job.target B.zone = some (B.name ev.hostname, ev.ip) := by
  obtain ⟨o, ho, hown, -⟩ := hev.owner
  have hname : relHostname job.hostname B.zone.name = B.name ev.hostname := by
    rw [hjob.hostname, Bridge.name]
  have hany : job.owner.any (· ≠ []) = true := by
    rw [hjob.owner, hown]
    simpa using ho
  simp only [Job.target, hname, if_neg (name_ne_nil hev.field)]
  cases job.kind with
  | upsert => simp [hev.field, hjob.ip, hip, hev.zone.1, hev.label]
  | remove =>
    show (if job.owner.any (· ≠ []) then some (B.name ev.hostname, job.ip) else none) = _
    rw [if_pos hany, hjob.ip]

theorem Bridge.Effective.dhcpEvent_eq (hev : B.Effective ev) (h : B.Represents t db)
    (hkind : ev.event = .add ∧ kind = .upsert ∨ ev.event = .expire ∧ kind = .remove)
    (hip : validateRecordField ev.ip = some ev.ip) :
    ∃ job, B.Task ev job ∧ job.kind = kind ∧ ∀ newId, dhcpEvent B.U db newId ev =
      job.apply newId db (job.decide (B.name ev.hostname) ev.ip db.records) := by
  obtain ⟨job, hjobO, hjob, hjk⟩ := hev.job h hkind
  refine ⟨job, hjob, hjk, fun newId => ?_⟩
  have hzone : db.zones.find? (·.id = job.zoneId) = some B.zone := by
    rw [hjob.zoneId, h.zone]
  simp [dhcpEvent, prepare, hjobO, hzone, hev.target hjob hip]

/-! ### What an event does to the records -/

theorem Bridge.at_name {name : Str} (h : B.at name r = true) : r.name = name := by
  simp only [Bridge.at, Bool.and_eq_true, decide_eq_true_eq] at h
  exact h.1.2

theorem find?_of_filter {rows : List DnsRecord} {p : DnsRecord → Bool} {l : List DnsRecord}
    (h : rows.filter p = l) : rows.find? p = l.head? := by
  rw [← h, head?_filter]

theorem Bridge.Represents.insert (h : B.Represents t db) {job : Job} {name : Str}
    (hjob : B.Task ev job) (ho : B.owners name = some o) (hown : job.owner = some o)
    (ht : t name = none) (hnew : newId ∉ db.issued) :
    B.Represents (t.add name ip) { db with
      records := db.records ++ [job.newRecord name ip newId]
      issued := newId :: db.issued } := by
  have hat : ∀ name', B.at name' (job.newRecord name ip newId) = decide (name' = name) := by
    intro name'
    simp [Bridge.at, Job.newRecord, hjob.zoneId, hjob.family, eq_comm]
  have hnewO : (job.newRecord name ip newId).owner B.family = some o := by
    rw [← hjob.family, job.owner_newRecord, hown]
  refine ⟨h.zone, h.scopes, ?_, ?_, ?_, ?_, ?_⟩
  · refine h.keyed.concat fun hmem => ?_
    obtain ⟨r, hr, hid⟩ := List.mem_map.mp hmem
    have hid : r.id = newId := hid
    exact hnew (hid ▸ h.issued r hr)
  · refine forall_concat (fun r hr => mem_cons_of_mem _ (h.issued r hr)) ?_
    exact mem_cons_self
  · refine forall_concat h.owned fun name' hname' _ => ?_
    rw [hat, decide_eq_true_eq] at hname'
    rw [hname', ho]
    rfl
  · intro name' hname'
    have hne : name' ≠ name := fun heq => by simp [heq, ho] at hname'
    rw [Hosts.add_apply, if_neg hne]
    exact h.unknown name' hname'
  · intro name' o' ho'
    rw [filter_append]
    -- at the name itself there was no row before
    by_cases hne : name' = name
    · subst hne
      obtain rfl : o = o' := some_inj.mp (ho.symm.trans ho')
      rw [h.rows_of_none ho ht, Hosts.add_apply, if_pos rfl]
      have hnew : [job.newRecord name' ip newId].filter (B.at name') =
          [job.newRecord name' ip newId] := by simp [hat]
      rw [hnew, nil_append, toList_some]
      exact .cons ⟨rfl, hnewO⟩ .nil
    · rw [Hosts.add_apply, if_neg hne]
      simpa [hat, hne] using h.rows name' o' ho'

theorem Bridge.Represents.update (h : B.Represents t db) {name : Str} (ho : B.owners name = some o)
    (hrows : db.records.filter (B.at name) = [r]) (hown : r.owner B.family = some o) :
    B.Represents (t.add name ip) { db with
      records := replaceRow (·.id) r.id { r with data := ip } db.records } := by
  have hmem : r ∈ db.records.filter (B.at name) := hrows ▸ mem_cons_self
  obtain ⟨hr, hat⟩ := mem_filter.mp hmem
  have hat' : ∀ name', B.at name' { r with data := ip } = B.at name' r := fun _ => rfl
  have hown' : ({ r with data := ip } : DnsRecord).owner B.family = r.owner B.family := by
    cases B.family <;> rfl
  refine ⟨h.zone, h.scopes, h.keyed.replaceRow rfl, ?_, ?_, ?_, ?_⟩
  · exact forall_replaceRow (h.issued r hr) h.issued
  · refine forall_replaceRow (fun name' hname' howne => ?_) h.owned
    exact h.owned r hr name' (hat' name' ▸ hname') (hown' ▸ howne)
  · intro name' hname'
    have hne : name' ≠ name := fun heq => by simp [heq, ho] at hname'
    rw [Hosts.add_apply, if_neg hne]
    exact h.unknown name' hname'
  · intro name' o' ho'
    by_cases hne : name' = name
    · subst hne
      obtain rfl : o = o' := some_inj.mp (ho.symm.trans ho')
      -- the one row at the name is replaced where it stands
      have hfil : (replaceRow (·.id) r.id { r with data := ip } db.records).filter (B.at name') =
          replaceRow (·.id) r.id { r with data := ip } (db.records.filter (B.at name')) := by
        rw [replaceRow, replaceRow, List.filter_map]
        refine congrArg _ (filter_congr fun x hx => ?_)
        show B.at name' (if x.id = r.id then { r with data := ip } else x) = B.at name' x
        split
        · rename_i hid
          rw [h.keyed x hx r hr hid, hat']
        · rfl
      have hone : replaceRow (·.id) r.id { r with data := ip } [r] = [{ r with data := ip }] := by
        simp [replaceRow]
      rw [hfil, hrows, hone, Hosts.add_apply, if_pos rfl]
      exact .cons ⟨rfl, hown'.trans hown⟩ .nil
    · have hoth : B.at name' r = false := by
        rw [Bool.eq_false_iff]
        exact fun hat'' => hne ((Bridge.at_name hat'').symm.trans (Bridge.at_name hat))
      have hfil : (replaceRow (·.id) r.id { r with data := ip } db.records).filter (B.at name') =
          db.records.filter (B.at name') :=
        filter_replaceRow (fun x hx hid => by rw [h.keyed x hx r hr hid, hoth]) hoth
      rw [Hosts.add_apply, if_neg hne, hfil]
      exact h.rows name' o' ho'

theorem Bridge.Represents.upserted (h : B.Represents t db) (hev : B.Effective ev) {job : Job}
    (hjob : B.Task ev job) (hkind : job.kind = .upsert)
    (happ : job.apply newId db (job.decide (B.name ev.hostname) ev.ip db.records) = some db') :
    B.Represents (t.add (B.name ev.hostname) ev.ip) db' := by
  obtain ⟨o, -, hown, ho⟩ := hev.owner
  have hjo : job.owner = some o := hjob.owner.trans hown
  rw [Job.decide, hkind, hjob.matches_eq] at happ
  cases ht : t (B.name ev.hostname) with
  | none =>
    rw [find?_of_filter (h.rows_of_none ho ht)] at happ
    obtain ⟨⟨hnew, -⟩, ⟨⟩⟩ := ite_none_right_eq_some.mp happ
    exact h.insert hjob ho hjo ht hnew
  | some =>
    obtain ⟨r, hrows, -, hro⟩ := h.row_of_some ho ht
    have hr : r ∈ db.records := mem_of_mem_filter (hrows ▸ mem_cons_self)
    rw [find?_of_filter hrows] at happ
    simp only [head?_cons, Job.upsert, hjob.family, hro, hjo, if_pos, Job.apply,
      h.keyed.find?_eq hr] at happ
    cases happ
    exact h.update ho hrows hro

/-- **An "add" sets the address of its name.** -/
theorem Bridge.Represents.add (h : B.Represents t db) (hev : B.Effective ev)
    (hkind : ev.event = .add)
    (hip : validateRecordField ev.ip = some ev.ip) (hnew : newId ∉ db.issued) :
    ∃ db', dhcpEvent B.U db newId ev = some db' ∧
      B.Represents (t.add (B.name ev.hostname) ev.ip) db' := by
  obtain ⟨job, hjob, hjk, heve⟩ := hev.dhcpEvent_eq h (.inl ⟨hkind, rfl⟩) hip
  obtain ⟨o, -, hown, ho⟩ := hev.owner
  have hjo : job.owner = some o := hjob.owner.trans hown
  have hzone : job.zoneId ∈ db.zoneIds := by
    rw [hjob.zoneId]
    exact List.mem_map.mpr ⟨B.zone, mem_of_find?_eq_some h.zone, rfl⟩
  have happ : ∃ db', job.apply newId db (job.decide (B.name ev.hostname) ev.ip db.records) =
      some db' := by
    rw [Job.decide, hjk, hjob.matches_eq]
    cases ht : t (B.name ev.hostname) with
    | none =>
      rw [find?_of_filter (h.rows_of_none ho ht)]
      -- nobody has the name yet: a new row, with the TTL of its scope
      have hsto : (job.newRecord (B.name ev.hostname) ev.ip newId).storable = true := by
        simp [DnsRecord.storable, Job.newRecord, hjob.ttl]
      exact ⟨_, if_pos ⟨hnew, hzone, hsto⟩⟩
    | some =>
      obtain ⟨r, hrows, -, hro⟩ := h.row_of_some ho ht
      have hr : r ∈ db.records := mem_of_mem_filter (hrows ▸ mem_cons_self)
      rw [find?_of_filter hrows]
      simp [Job.upsert, hjob.family, hro, hjo, Job.apply, h.keyed.find?_eq hr]
  obtain ⟨db', happ⟩ := happ
  exact ⟨db', (heve newId).trans happ, h.upserted hev hjob hjk happ⟩

theorem Bridge.Represents.delete (h : B.Represents t db) {name : Str} (ho : B.owners name = some o)
    {gone : DnsRecord → Bool} (hgone : ∀ r ∈ db.records, gone r = true ↔ B.Owned name ip o r) :
    B.Represents (t.expire name ip) { db with records := db.records.filter fun r => !gone r } := by
  refine ⟨h.zone, h.scopes, h.keyed.sublist filter_sublist, ?_, ?_, ?_, ?_⟩
  · exact forall_filter h.issued _
  · exact forall_filter h.owned _
  · intro name' hname'
    refine eq_none_iff_forall_ne_some.mpr fun ip' hip' => ?_
    rw [Hosts.expire_eq_some_iff, h.unknown name' hname'] at hip'
    exact nomatch hip'.1
  · intro name' o' ho'
    show List.Forall₂ _ ((db.records.filter fun r => !gone r).filter (B.at name')) _
    rw [filter_comm]
    -- the name is published and stays so, or it goes
    have hrows : ∀ r ∈ db.records.filter (B.at name'), gone r = true ↔ B.Owned name ip o r :=
      fun r hr => hgone r (mem_of_mem_filter hr)
    cases ht : t name' with
    | none =>
      have ht' : t.expire name ip name' = none := by
        refine eq_none_iff_forall_ne_some.mpr fun ip' hip' => ?_
        rw [Hosts.expire_eq_some_iff, ht] at hip'
        exact nomatch hip'.1
      rw [h.rows_of_none ho' ht, ht']
      exact .nil
    | some ip' =>
      obtain ⟨r, hone, hdata, hown⟩ := h.row_of_some ho' ht
      have hat : B.at name' r = true := by
        have hmem : r ∈ db.records.filter (B.at name') := hone ▸ mem_cons_self
        exact (mem_filter.mp hmem).2
      rw [hone] at hrows ⊢
      by_cases hsame : name' = name ∧ ip' = ip
      · obtain ⟨rfl, rfl⟩ := hsame
        obtain rfl : o = o' := some_inj.mp (ho.symm.trans ho')
        have hr : gone r = true := (hrows r mem_cons_self).mpr ⟨hat, hdata, hown⟩
        have ht' : t.expire name' ip' name' = none := by
          rw [Hosts.expire, if_pos ht, update_self]
        simp [hr, ht']
      · have hr : gone r = false := by
          rw [Bool.eq_false_iff]
          intro hr
          obtain ⟨hat', hip, -⟩ := (hrows r mem_cons_self).mp hr
          exact hsame ⟨(Bridge.at_name hat).symm.trans (Bridge.at_name hat'), hdata ▸ hip⟩
        have ht' : t.expire name ip name' = some ip' := Hosts.expire_eq_some_iff.mpr ⟨ht, hsame⟩
        rw [ht']
        simp [hr, hdata, hown]

theorem Bridge.Represents.removed (h : B.Represents t db) (hev : B.Effective ev) {job : Job}
    (hjob : B.Task ev job) (hkind : job.kind = .remove)
    (happ : job.apply newId db (job.decide (B.name ev.hostname) ev.ip db.records) = some db') :
    B.Represents (t.expire (B.name ev.hostname) ev.ip) db' := by
  obtain ⟨o, -, howne, ho⟩ := hev.owner
  rw [Job.decide, hkind, hjob.matches_eq] at happ
  cases happ
  -- a row goes if its id is one of those that the query found
  have hgone : ∀ r ∈ db.records, decide (r.id ∈ (db.records.filter fun r =>
      B.at (B.name ev.hostname) r && r.data = ev.ip && r.owner job.family = job.owner).map (·.id)) =
        true ↔ B.Owned (B.name ev.hostname) ev.ip o r := by
    intro r hr
    rw [decide_eq_true_eq, List.mem_map, hjob.family, hjob.owner, howne]
    constructor
    · rintro ⟨r', hr', hid⟩
      obtain ⟨hmem, hr'⟩ := mem_filter.mp hr'
      obtain rfl := h.keyed r' hmem r hr hid
      simp only [Bool.and_eq_true, decide_eq_true_eq] at hr'
      exact ⟨hr'.1.1, hr'.1.2, hr'.2⟩
    · rintro ⟨hat, hdata, hown⟩
      exact ⟨r, mem_filter.mpr ⟨hr, by simp [hat, hdata, hown]⟩, rfl⟩
  have hdel := h.delete ho hgone
  simpa only [← decide_not] using hdel

/-- **An "expire" clears its name, if the address is the one it says.** -/
theorem Bridge.Represents.expire (h : B.Represents t db) (hev : B.Effective ev)
    (hkind : ev.event = .expire) (hip : validateRecordField ev.ip = some ev.ip) (newId : Str) :
    ∃ db', dhcpEvent B.U db newId ev = some db' ∧
      B.Represents (t.expire (B.name ev.hostname) ev.ip) db' := by
  obtain ⟨job, hjob, hjk, heve⟩ := hev.dhcpEvent_eq h (.inr ⟨hkind, rfl⟩) hip
  have happ : ∃ db', job.apply newId db (job.decide (B.name ev.hostname) ev.ip db.records) =
      some db' := by
    rw [Job.decide, hjk]
    exact ⟨_, rfl⟩
  obtain ⟨db', happ⟩ := happ
  exact ⟨db', (heve newId).trans happ, h.removed hev hjob hjk happ⟩

/-! ### Addresses are valid data -/

theorem validateRecordField_eq_self {s : Str} (hne : s ≠ [])
    (h : ∀ c ∈ s, isSpace c = false ∧ c ≠ '$') : validateRecordField s = some s := by
  have hstr : strip s = s := by
    rw [strip, dropWhile_eq_self_iff.mpr, rdropWhile_eq_self_iff.mpr]
    · intro hne'
      simp [(h _ (getLast_mem hne')).1]
    · intro hpos
      simp [(h _ (getElem_mem hpos)).1]
  rw [validateRecordField, hstr, if_neg]
  rintro (hnil | hhead)
  · exact hne hnil
  · exact (h '$' (mem_of_mem_head? hhead)).2 rfl

theorem foreign_of_isSpace {c : Char} (h : isSpace c = true) : Foreign c := by
  simp only [isSpace, Bool.or_eq_true, Bool.and_eq_true, decide_eq_true_eq, beq_iff_eq] at h
  refine ⟨?_, ?_, ?_⟩
  · have hle : ∀ a b : Char, a ≤ b ↔ a.toNat ≤ b.toNat := fun a b => UInt32.le_iff_toNat_le
    have hdig : c.isDigit = true → 48 ≤ c.toNat ∧ c.toNat ≤ 57 := by
      simp only [Char.isDigit, Bool.and_eq_true, decide_eq_true_eq, ge_iff_le,
        UInt32.le_iff_toNat_le]
      exact id
    rw [hexDigit, if_neg, if_neg, if_neg]
    · rw [hle, hle]
      show ¬(65 ≤ c.toNat ∧ c.toNat ≤ 70)
      omega
    · rw [hle, hle]
      show ¬(97 ≤ c.toNat ∧ c.toNat ≤ 102)
      omega
    · intro hc
      have hc := hdig hc
      omega
  · rintro rfl
    revert h
    decide
  · rintro rfl
    revert h
    decide

theorem validateRecordField_ipv4Text (ip : UInt32) :
    validateRecordField (ipv4Text ip) = some (ipv4Text ip) := by
  have hpar := parseIpv4_ipv4Text ip
  refine validateRecordField_eq_self (fun hnil => ?_) fun c hc => ⟨?_, ?_⟩
  · have hemp : parseIpv4 [] = none := by decide
    rw [hnil, hemp] at hpar
    exact nomatch hpar
  · rw [Bool.eq_false_iff]
    exact fun hspa => not_mem_of_parseIpv4 (foreign_of_isSpace hspa) hpar hc
  · rintro rfl
    exact not_mem_of_parseIpv4 ⟨by decide, by decide, by decide⟩ hpar hc

theorem validateRecordField_ipv6Text (ip : BitVec 128) :
    validateRecordField (ipv6Text ip) = some (ipv6Text ip) := by
  have hpar := parseIpv6_ipv6Text ip
  refine validateRecordField_eq_self (fun hnil => ?_) fun c hc => ⟨?_, ?_⟩
  · have hemp : parseIpv6 [] = none := by decide
    rw [hnil, hemp] at hpar
    exact nomatch hpar
  · rw [Bool.eq_false_iff]
    exact fun hspa => not_mem_of_parseIpv6 (foreign_of_isSpace hspa) hpar hc
  · rintro rfl
    exact not_mem_of_parseIpv6 ⟨by decide, by decide, by decide⟩ hpar hc

end Control.Ddns
