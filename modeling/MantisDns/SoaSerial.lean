/-
The serial of a served zone: `_synthesize_apex_records` takes it from
`dns_zones.updated_at`, which `create_zone`, `update_zone` and the lease events
set, and the record endpoints do not.

* `State.step` — one change at a time, at least a second apart;
* `Since` — what is known of a zone that has not been touched since some point;
* `serial_advances_iff` — along a history the serial advances with the served
  records exactly when no record endpoint changes what is served;
* `created_record_keeps_serial` — a record that is served under the old serial.
-/
import MantisDns.LocalZones

open Text Table List Option

namespace Control.SoaSerial

open Zones Ddns

/-! ### Changes and their times -/

/-- The tables, the time at which each zone was updated and that of the last change, in
microseconds since the epoch. -/
structure State where
  db : ZoneDb
  updatedAt : Str → ℕ
  now : ℕ

/-- A request, which may also change the description of a zone, or a lease event. -/
inductive Act
  | request (req : Request) (described : Bool)
  | event (ev : DhcpEvent) (newId : Str)

def Act.apply (P : Python) (db : ZoneDb) : Act → Option ZoneDb
  | .request req _ => db.apply P req
  | .event ev newId => dhcpEvent P.toCaseMap db newId ev

/-- The helper gets to the line that sets `zone.updated_at`. -/
def writes : Effect → Bool
  | .skip => false
  | .update _ _ | .insert _ _ => true
  | .delete ids => ids ≠ []

/-- The change sets `updated_at` of this zone: by the default of a new row, by `onupdate` if a
column has changed, or explicitly. -/
def Act.touches (P : Python) (db db' : ZoneDb) (zoneId : Str) : Act → Bool
  | .request (.createZone _ id _) _ => zoneId = id
  | .request (.updateZone _ id _) described =>
    zoneId = id && (described || db.zones.find? (·.id = id) ≠ db'.zones.find? (·.id = id))
  | .request _ _ => false
  | .event ev _ => (prepare P.toCaseMap db ev).any fun (job, _, _, effect) =>
      zoneId = job.zoneId && writes effect

/-- `create_record`, `update_record` and `delete_record`. -/
def Act.isRecord : Act → Bool
  | .request (.createRecord _ _ _ _) _ => true
  | .request (.updateRecord _ _ _ _) _ => true
  | .request (.deleteRecord _ _ _) _ => true
  | _ => false

/-- A change at a time. -/
structure Tick where
  time : ℕ
  act : Act

/-- A change that is accepted, at least a second after the last one. -/
def State.step (P : Python) (s : State) (c : Tick) : Option State :=
  if s.now + second ≤ c.time then
    (c.act.apply P s.db).map fun db =>
      ⟨db, fun id => if c.act.touches P s.db db id then c.time else s.updatedAt id, c.time⟩
  else none

def State.init (tenants : List Str) : State := ⟨.fresh tenants, fun _ => 0, 0⟩

/-- The changes lead from one state to the other. -/
inductive Runs (P : Python) : State → List Tick → State → Prop
  | nil (s : State) : Runs P s [] s
  | snoc {s t t' : State} {cs : List Tick} {c : Tick} (h : Runs P s cs t)
      (hstep : t.step P c = some t') : Runs P s (cs ++ [c]) t'

/-! ### What is served -/

/-- `int(zone.updated_at.timestamp())`. -/
def State.serial (s : State) (z : DnsZone) : ℤ := (s.updatedAt z.id / second : ℕ)

def State.served (U : CaseMap) (s : State) (z : DnsZone) : List LocalZoneRecord :=
  zoneRecords U s.serial s.db z

/-- The same set of records. -/
def Same (A B : List LocalZoneRecord) : Prop := ∀ r, r ∈ A ↔ r ∈ B

/-- Between the two points the serial of a zone has advanced if its records are not the same;
a zone may be given by its row or by its name. -/
def Advances (U : CaseMap) (s t : State) : Prop :=
  ∀ tenantId, ∀ z ∈ s.db.servedZones tenantId, ∀ z' ∈ t.db.servedZones tenantId,
    (z.id = z'.id ∨ z.name = z'.name) → ¬Same (s.served U z) (t.served U z') →
      s.serial z < t.serial z'

/-- No zone that is served gets other records. -/
def Unnoticed (U : CaseMap) (s t : State) : Prop :=
  ∀ tenantId, ∀ z ∈ s.db.servedZones tenantId, Same (s.served U z) (t.served U z)

theorem served_congr {U : CaseMap} {s t : State} {z : DnsZone}
    (htime : t.updatedAt z.id = s.updatedAt z.id) (hrec : t.db.recordsOf z = s.db.recordsOf z) :
    t.served U z = s.served U z := by
  simp only [State.served, zoneRecords, synthesizeApexRecords, State.serial, htime, hrec]

/-! ### What a change leaves alone -/

variable {P : Python} {db db' : ZoneDb}
variable {z : DnsZone} {req : Request}

/-- A zone that a change does not touch was there before, and keeps its records unless the
change is one of the record endpoints. -/
structure Untouched (db db' : ZoneDb) (act : Act) (z : DnsZone) : Prop where
  mem : z ∈ db.zones
  records : act.isRecord = false → db'.recordsOf z = db.recordsOf z

theorem recordsOf_filter {p : DnsRecord → Bool}
    (h : ∀ r ∈ db.records, r.zoneId = z.id → p r = true) :
    ZoneDb.recordsOf { db with records := db.records.filter p } z = db.recordsOf z := by
  simp only [ZoneDb.recordsOf, List.filter_filter]
  refine filter_congr fun r hr => ?_
  by_cases hz : r.zoneId = z.id
  · simp [hz, h r hr hz]
  · simp [hz]

theorem mem_of_mem_replaceRow {row : DnsZone} {id : Str} (hrow : row.id = id)
    (hz : z ∈ replaceRow (·.id) id row db.zones) (hne : z.id ≠ id) : z ∈ db.zones := by
  obtain ⟨y, hy, heq⟩ := List.mem_map.mp hz
  split at heq
  · exact absurd (heq ▸ hrow) hne
  · exact heq ▸ hy

theorem zones_of_isRecord (described : Bool) (hrec : (Act.request req described).isRecord = true)
    (h : db.apply P req = some db') :
    db'.zones = db.zones := by
  cases req with
  | createRecord =>
    rw [ZoneDb.apply, createRecord] at h
    split at h
    · obtain ⟨-, rfl⟩ := ite_some_none_eq_some.mp h
      rfl
    · simp at h
  | updateRecord =>
    rw [ZoneDb.apply, updateRecord] at h
    split at h
    · split at h
      · simp at h
      · obtain ⟨-, rfl⟩ := ite_some_none_eq_some.mp h
        rfl
    · simp at h
  | deleteRecord =>
    rw [ZoneDb.apply, deleteRecord] at h
    obtain ⟨-, rfl⟩ := ite_some_none_eq_some.mp h
    rfl
  | createZone | updateZone | deleteZone | createScope | updateScope | deleteScope =>
    simp [Act.isRecord] at hrec

theorem untouched_withScopes {act : Act} {rows : List DhcpScope} {f : Family} {issued : List Str}
    (hz : z ∈ (db.withScopes rows f).zones) :
    Untouched db { db.withScopes rows f with issued } act z := by
  cases f with
  | v4 | v6 => exact ⟨hz, fun _ => rfl⟩

theorem untouched_request {described : Bool} (hkey : db.Keyed) (h : db.apply P req = some db')
    (hz : z ∈ db'.zones) (hnot : (Act.request req described).touches P db db' z.id = false) :
    Untouched db db' (.request req described) z := by
  -- the record endpoints leave every zone row as it is
  cases req with
  | createZone =>
    obtain ⟨z₀, rfl, -, -, -, rfl⟩ := createZone_eq_some h
    refine ⟨?_, fun _ => rfl⟩
    rcases mem_append.mp hz with hz | hz
    · exact hz
    · rw [mem_singleton.mp hz] at hnot
      simp [Act.touches] at hnot
  | updateZone =>
    obtain ⟨z₀, hz₀, row, rfl, hid, -, -, -, rfl⟩ := updateZone_eq_some h
    refine ⟨?_, fun _ => rfl⟩
    by_cases hzid : z.id = z₀.id
    · -- no column has changed, so the row is the one from before
      have hsame : db.zones.find? (·.id = z₀.id) =
          (replaceRow (·.id) z₀.id row db.zones).find? (·.id = z₀.id) := by
        simp only [Act.touches, hzid, decide_true, Bool.true_and, Bool.or_eq_false_iff,
          decide_eq_false_iff_not, not_not] at hnot
        exact hnot.2
      have hfind := (hkey.zones.replaceRow hid).find?_eq hz
      rw [hzid, ← hsame, hkey.zones.find?_eq hz₀] at hfind
      exact some_inj.mp hfind ▸ hz₀
    · exact mem_of_mem_replaceRow hid hz hzid
  | deleteZone =>
    rw [ZoneDb.apply, deleteZone] at h
    obtain ⟨-, rfl⟩ := ite_some_none_eq_some.mp h
    obtain ⟨hz, hne⟩ := mem_filter.mp hz
    refine ⟨hz, fun _ => recordsOf_filter fun r hr hzone => ?_⟩
    rw [hzone]
    exact hne
  | createRecord | updateRecord | deleteRecord =>
    exact ⟨zones_of_isRecord described rfl h ▸ hz,
      fun hrec => absurd hrec (by simp [Act.isRecord])⟩
  | createScope =>
    rw [ZoneDb.apply, createScope] at h
    obtain ⟨-, rfl⟩ := ite_some_none_eq_some.mp h
    exact untouched_withScopes hz
  | updateScope =>
    rw [ZoneDb.apply, updateScope] at h
    split at h
    · simp at h
    · split at h
      · simp at h
      · obtain ⟨-, rfl⟩ := ite_some_none_eq_some.mp h
        exact untouched_withScopes hz
  | deleteScope =>
    rw [ZoneDb.apply, deleteScope] at h
    obtain ⟨-, rfl⟩ := ite_some_none_eq_some.mp h
    exact untouched_withScopes hz

/-! ### Lease events -/

section Event

variable {job : Job} {name ip : Str} {rows : List DnsRecord}

theorem zoneId_of_update {id data : Str} (h : job.decide name ip rows = .update id data) :
    ∃ r ∈ rows, r.id = id ∧ r.zoneId = job.zoneId := by
  rw [Job.decide] at h
  split at h
  · cases hfind : rows.find? (job.matches name) with
    | none => simp [hfind, Job.upsert] at h
    | some r =>
      have hmat := find?_some hfind
      simp only [Job.matches, Bool.and_eq_true, decide_eq_true_eq] at hmat
      refine ⟨r, mem_of_find?_eq_some hfind, ?_, hmat.1.1⟩
      rw [hfind, Job.upsert] at h
      split at h
      · simp at h
      · split at h
        · exact (Effect.update.inj h).1
        · simp at h
  · simp at h

theorem zoneId_of_delete {ids : List Str} (h : job.decide name ip rows = .delete ids) {id : Str}
    (hid : id ∈ ids) : ∃ r ∈ rows, r.id = id ∧ r.zoneId = job.zoneId := by
  rw [Job.decide] at h
  split at h
  · cases hfind : rows.find? (job.matches name) with
    | none => simp [hfind, Job.upsert] at h
    | some =>
      rw [hfind, Job.upsert] at h
      split at h
      · simp at h
      · split at h <;> simp at h
  · rw [← Effect.delete.inj h] at hid
    obtain ⟨r, hr, rfl⟩ := List.mem_map.mp hid
    obtain ⟨hr, hmat⟩ := mem_filter.mp hr
    simp only [Job.matches, Bool.and_eq_true, decide_eq_true_eq] at hmat
    exact ⟨r, hr, rfl, hmat.1.1.1.1⟩

theorem prepare_eq_some {U : CaseMap} {ev : DhcpEvent} {zone : DnsZone} {effect : Effect}
    (h : prepare U db ev = some (job, zone, name, effect)) :
    ∃ ip, effect = job.decide name ip db.records := by
  simp only [prepare, bind_eq_bind, bind_eq_some_iff, Option.pure_def, some_inj, Prod.mk.injEq] at h
  obtain ⟨job, -, zone, -, ⟨name, ip⟩, -, rfl, rfl, rfl, rfl⟩ := h
  exact ⟨ip, rfl⟩

theorem recordsOf_event {newId : Str} (hkey : db.Keyed)
    (h : job.apply newId db (job.decide name ip db.records) = some db')
    (hz : z.id = job.zoneId → writes (job.decide name ip db.records) = false) :
    db'.zones = db.zones ∧ db'.recordsOf z = db.recordsOf z := by
  rcases Job.apply_cases h with ⟨-, rfl⟩ | ⟨r, hr, data, heff, rfl⟩ |
    ⟨name', ip', heff, -, -, rfl⟩ | ⟨ids, heff, rfl⟩
  · exact ⟨rfl, rfl⟩
  · have hne : z.id ≠ job.zoneId := by
      intro heq
      exact absurd (hz heq) (by simp [heff, writes])
    obtain ⟨r', hr', hid, hzone⟩ := zoneId_of_update heff
    obtain rfl := hkey.records r' hr' r hr hid
    refine ⟨rfl, filter_replaceRow (fun x hx hid => ?_) ?_⟩
    · rw [hkey.records x hx r' hr hid, hzone]
      simpa using hne.symm
    · simpa [hzone] using hne.symm
  · have hne : z.id ≠ job.zoneId := by
      intro heq
      exact absurd (hz heq) (by simp [heff, writes])
    refine ⟨rfl, ?_⟩
    simp only [ZoneDb.recordsOf, filter_append]
    simp [Job.newRecord, hne.symm]
  · refine ⟨rfl, recordsOf_filter fun r hr hzone => ?_⟩
    -- a row of this zone would be one of the event's
    have hnot : r.id ∉ ids := by
      intro hid
      obtain ⟨r', hr', heq, hzone'⟩ := zoneId_of_delete heff hid
      obtain rfl := hkey.records r' hr' r hr heq
      have hemp := hz (hzone.symm.trans hzone')
      simp only [heff, writes, decide_eq_false_iff_not, not_not] at hemp
      rw [hemp] at hid
      simp at hid
    simpa using hnot

end Event

variable {act : Act} {u : User} {id : Str} {s t : State} {c : Tick} {cs : List Tick}

/-- **What a change leaves alone.** -/
theorem untouched (hkey : db.Keyed) (h : act.apply P db = some db') (hz : z ∈ db'.zones)
    (hnot : act.touches P db db' z.id = false) : Untouched db db' act z := by
  cases act with
  | request => exact untouched_request hkey h hz hnot
  | event =>
    simp only [Act.apply, dhcpEvent, bind_eq_bind, bind_eq_some_iff] at h
    obtain ⟨⟨job, zone, name, effect⟩, hpre, h⟩ := h
    obtain ⟨ip, rfl⟩ := prepare_eq_some hpre
    have hwri : z.id = job.zoneId → writes (job.decide name ip db.records) = false := by
      intro hid
      simpa [Act.touches, hpre, hid] using hnot
    obtain ⟨hzs, hrec⟩ := recordsOf_event hkey h hwri
    exact ⟨hzs ▸ hz, fun _ => hrec⟩

/-! ### What holds along a history -/

/-- The unique constraint on the names of a tenant's zones. -/
def Named (db : ZoneDb) : Prop :=
  ∀ y ∈ db.zones, ∀ z ∈ db.zones, ∀ tenantId, y.tenantId = some tenantId →
    z.tenantId = some tenantId → y.name = z.name → y.id = z.id

theorem named_of_subset (h : Named db) (hsub : db'.zones ⊆ db.zones) : Named db' :=
  fun y hy z hz => h y (hsub hy) z (hsub hz)

theorem id_eq_of_free {x row : DnsZone} {tenantId : Str} (hfree : db.nameTaken row = false)
    (hx : x ∈ db.zones) (htx : x.tenantId = some tenantId) (htrow : row.tenantId = some tenantId)
    (hname : x.name = row.name) : x.id = row.id := by
  by_contra hne
  have htak : db.nameTaken row = true := by
    refine List.any_eq_true.mpr ⟨x, hx, ?_⟩
    simp [hne, htx, htrow, hname]
  exact absurd (hfree.symm.trans htak) (by simp)

theorem named_createZone {p : ZoneCreate} (hnam : Named db)
    (h : createZone P db u id p = some db') : Named db' := by
  obtain ⟨z₀, -, -, -, hfree, rfl⟩ := createZone_eq_some h
  intro y hy z hz tenantId hty htz hname
  rcases mem_append.mp hy with hy | hy <;> rcases mem_append.mp hz with hz | hz
  · exact hnam y hy z hz tenantId hty htz hname
  · rw [mem_singleton.mp hz] at htz hname ⊢
    exact id_eq_of_free hfree hy hty htz hname
  · rw [mem_singleton.mp hy] at hty hname ⊢
    exact (id_eq_of_free hfree hz htz hty hname.symm).symm
  · rw [mem_singleton.mp hy, mem_singleton.mp hz]

theorem named_updateZone {p : ZoneUpdate} (hnam : Named db)
    (h : updateZone P db u id p = some db') : Named db' := by
  obtain ⟨z₀, -, row, rfl, hid, -, -, hfree, rfl⟩ := updateZone_eq_some h
  intro y hy z hz tenantId hty htz hname
  have hcas : ∀ x ∈ replaceRow (·.id) z₀.id row db.zones, x = row ∨ x ∈ db.zones :=
    forall_replaceRow (.inl rfl) fun x hx => .inr hx
  rcases hcas y hy with heq | hy' <;> rcases hcas z hz with heq' | hz'
  · rw [heq, heq']
  · rw [heq] at hty hname ⊢
    exact (id_eq_of_free hfree hz' htz hty hname.symm).symm
  · rw [heq'] at htz hname ⊢
    exact id_eq_of_free hfree hy' hty htz hname
  · exact hnam y hy' z hz' tenantId hty htz hname

theorem named_apply (hkey : db.Keyed) (hnam : Named db) (h : act.apply P db = some db') :
    Named db' := by
  cases act with
  | event =>
    simp only [Act.apply, dhcpEvent, bind_eq_bind, bind_eq_some_iff] at h
    obtain ⟨⟨job, zone, name, effect⟩, -, h⟩ := h
    rcases Job.apply_cases h with ⟨-, rfl⟩ | ⟨r, hr, data, -, rfl⟩ | ⟨name', ip', -, -, -, rfl⟩ |
      ⟨ids, -, rfl⟩
    all_goals exact hnam
  | request req =>
    cases req with
    | createZone => exact named_createZone hnam h
    | updateZone => exact named_updateZone hnam h
    | deleteZone | createRecord | updateRecord | deleteRecord | createScope | updateScope |
      deleteScope =>
      exact named_of_subset hnam fun z hz => (untouched hkey h hz rfl).mem

structure Inv (U : CaseMap) (s : State) : Prop where
  wellFormed : s.db.WellFormed U
  keyed : s.db.Keyed
  named : Named s.db
  times : ∀ z ∈ s.db.zones, s.updatedAt z.id ≤ s.now

theorem inv_init (U : CaseMap) (tenants : List Str) : Inv U (.init tenants) :=
  ⟨fresh_wellFormed U tenants, fresh_keyed tenants, by simp [Named, State.init, ZoneDb.fresh],
    by simp [State.init, ZoneDb.fresh]⟩

theorem act_change (h : act.apply P db = some db') :
    db' = db ∨ Change P.toCaseMap db db' := by
  cases act with
  | request => exact .inr (apply_change h)
  | event =>
    simp only [Act.apply, dhcpEvent, bind_eq_bind, bind_eq_some_iff] at h
    obtain ⟨⟨job, zone, name, effect⟩, -, h⟩ := h
    exact (Job.apply_change h).imp_right ZoneChange.change

theorem step_eq_some (h : s.step P c = some t) :
    s.now + second ≤ c.time ∧ t.now = c.time ∧ c.act.apply P s.db = some t.db ∧
      t.updatedAt = fun id => if c.act.touches P s.db t.db id then c.time else s.updatedAt id := by
  rw [State.step] at h
  obtain ⟨htime, h⟩ := ite_none_right_eq_some.mp h
  obtain ⟨db, hdb, rfl⟩ := map_eq_some_iff.mp h
  exact ⟨htime, rfl, hdb, rfl⟩

theorem Inv.step (hs : Inv P.toCaseMap s) (h : s.step P c = some t) :
    Inv P.toCaseMap t := by
  obtain ⟨htime, hnow, hdb, hat⟩ := step_eq_some h
  refine ⟨?_, ?_, named_apply hs.keyed hs.named hdb, fun z hz => ?_⟩
  · rcases act_change hdb with heq | hcha
    · exact heq ▸ hs.wellFormed
    · exact hcha.wellFormed hs.wellFormed
  · rcases act_change hdb with heq | hcha
    · exact heq ▸ hs.keyed
    · exact hcha.keyed hs.wellFormed hs.keyed
  · rw [hat, hnow]
    dsimp only
    split
    · exact le_rfl
    · rename_i hnot
      have hmem := (untouched hs.keyed hdb hz (by simpa using hnot)).mem
      exact (hs.times z hmem).trans (by omega)

theorem Runs.inv (h : Runs P s cs t) (hs : Inv P.toCaseMap s) :
    Inv P.toCaseMap t := by
  induction h with
  | nil => exact hs
  | snoc _ hstep ih => exact ih.step hstep

/-- **Since an earlier point**, a zone has been touched, or it is served as it was then. -/
structure Since (U : CaseMap) (s t : State) : Prop where
  now : s.now ≤ t.now
  zone : ∀ z ∈ t.db.zones, s.now + second ≤ t.updatedAt z.id ∨
    z ∈ s.db.zones ∧ t.updatedAt z.id = s.updatedAt z.id ∧
      ∀ tenantId, z ∈ s.db.servedZones tenantId → Same (s.served U z) (t.served U z)

theorem Since.refl (U : CaseMap) (s : State) : Since U s s :=
  ⟨le_rfl, fun _ hz => .inr ⟨hz, rfl, fun _ _ _ => Iff.rfl⟩⟩

theorem Since.step {t' : State} (h : Since P.toCaseMap s t) (ht : Inv P.toCaseMap t)
    (hstep : t.step P c = some t') (hq : c.act.isRecord = true → Unnoticed P.toCaseMap t t') :
    Since P.toCaseMap s t' := by
  obtain ⟨htime, hnow, hdb, hat⟩ := step_eq_some hstep
  have hle := h.now
  refine ⟨by omega, fun z hz => ?_⟩
  cases htou : c.act.touches P t.db t'.db z.id with
  | true =>
    -- touched now
    left
    simp only [hat, htou, if_true]
    omega
  | false =>
    have hkept := untouched ht.keyed hdb hz htou
    have hsame : t'.updatedAt z.id = t.updatedAt z.id := by simp [hat, htou]
    rw [hsame]
    refine (h.zone z hkept.mem).imp_right fun ⟨hmem, hold, hser⟩ =>
      ⟨hmem, hold, fun tenantId hz₀ => ?_⟩
    -- not touched, so nothing that is served has changed
    have hsti : Same (t.served P.toCaseMap z) (t'.served P.toCaseMap z) := by
      cases hrec : c.act.isRecord with
      | true =>
        obtain ⟨-, hrow⟩ := mem_servedZones.mp hz₀
        exact hq hrec tenantId z (mem_servedZones.mpr ⟨hkept.mem, hrow⟩)
      | false =>
        rw [served_congr hsame (hkept.records hrec)]
        exact fun _ => Iff.rfl
    exact fun r => (hser tenantId hz₀ r).trans (hsti r)

theorem Since.advances (h : Since P.toCaseMap s t) (hs : Inv P.toCaseMap s) :
    Advances P.toCaseMap s t := by
  intro tenantId z hz z' hz' hzone hdif
  obtain ⟨hmem, hten, hrow⟩ := mem_servedZones.mp hz
  obtain ⟨hmem', hten', hrow'⟩ := mem_servedZones.mp hz'
  rcases h.zone z' hmem' with htou | ⟨hold, -, hser⟩
  · -- touched since: the serial is at least the new time stamp
    have htime := hs.times z hmem
    simp only [State.serial, second] at htou ⊢
    omega
  · -- the row was there before; it is the same zone
    have hid : z.id = z'.id := by
      rcases hzone with hid | hname
      · exact hid
      · exact hs.named z hmem z' hold tenantId hten hten' hname
    obtain rfl := hs.keyed.zones z hmem z' hold hid
    exact absurd (hser tenantId hz) hdif

/-! ### Histories -/

theorem runs_append {ds : List Tick} :
    Runs P s (cs ++ ds) t ↔ ∃ m, Runs P s cs m ∧ Runs P m ds t := by
  constructor
  · intro h
    generalize hall : cs ++ ds = all at h
    induction h generalizing ds with
    | nil =>
      obtain ⟨rfl, rfl⟩ := append_eq_nil_iff.mp hall
      exact ⟨_, .nil _, .nil _⟩
    | @snoc t t' all c hrun hstep ih =>
      rcases eq_nil_or_concat ds with rfl | ⟨ds, d, rfl⟩
      · rw [append_nil] at hall
        exact ⟨t', hall ▸ .snoc hrun hstep, .nil _⟩
      · rw [concat_eq_append, ← append_assoc] at hall
        obtain ⟨hall, hlast⟩ := append_inj' hall rfl
        obtain ⟨m, hcs, hds⟩ := ih hall
        rw [concat_eq_append, singleton_inj.mp hlast]
        exact ⟨m, hcs, .snoc hds hstep⟩
  · rintro ⟨m, hcs, hds⟩
    induction hds with
    | nil => simpa using hcs
    | snoc _ hstep ih =>
      rw [← append_assoc]
      exact .snoc ih hstep

theorem kept_of_isRecord (hrec : c.act.isRecord = true) (h : s.step P c = some t) :
    t.db.zones = s.db.zones ∧ t.updatedAt = s.updatedAt := by
  obtain ⟨-, -, hdb, hat⟩ := step_eq_some h
  cases hact : c.act with
  | event =>
    rw [hact] at hrec
    simp [Act.isRecord] at hrec
  | request req described =>
    rw [hact] at hrec hdb hat
    refine ⟨zones_of_isRecord described hrec hdb, ?_⟩
    rw [hat]
    funext id
    cases req with
    | createRecord | updateRecord | deleteRecord => rfl
    | createZone | updateZone | deleteZone | createScope | updateScope | deleteScope =>
      simp [Act.isRecord] at hrec

/-- **Serials advance**: along every history, between any two points at which a zone is served,
exactly when none of its record requests changes what is served. -/
theorem serial_advances_iff (P : Python) (tenants : List Str) (cs : List Tick) :
    (∀ earlier between later s t, cs = earlier ++ between ++ later →
      Runs P (.init tenants) earlier s → Runs P s between t → Advances P.toCaseMap s t) ↔
    ∀ earlier c later s t, cs = earlier ++ c :: later → c.act.isRecord = true →
      Runs P (.init tenants) earlier s → s.step P c = some t → Unnoticed P.toCaseMap s t := by
  constructor
  · intro h earlier c later s t hcs hrec hrun hstep tenantId z hz
    by_contra hdif
    have hadv := h earlier [c] later s t (by simpa using hcs) hrun (.snoc (.nil s) hstep)
    have hkept := kept_of_isRecord hrec hstep
    obtain ⟨hmem, hrow⟩ := mem_servedZones.mp hz
    have hz' : z ∈ t.db.servedZones tenantId := mem_servedZones.mpr ⟨hkept.1 ▸ hmem, hrow⟩
    have hlt := hadv tenantId z hz z hz' (.inl rfl) hdif
    rw [State.serial, State.serial, hkept.2] at hlt
    exact lt_irrefl _ hlt
  · intro h earlier between later s t hcs hrun hbet
    have hs : Inv P.toCaseMap s := hrun.inv (inv_init _ tenants)
    have hsin : Since P.toCaseMap s t := by
      -- the changes in between, one after the other
      clear hs
      induction hbet generalizing later with
      | nil => exact .refl _ s
      | @snoc m t between c hbet hstep ih =>
        have hm := (runs_append.mpr ⟨s, hrun, hbet⟩).inv (inv_init _ tenants)
        refine (ih (c :: later) (by simpa using hcs)).step hm hstep fun hrec => ?_
        exact h (earlier ++ between) c later m t (by simpa using hcs) hrec
          (runs_append.mpr ⟨s, hrun, hbet⟩) hstep
    exact hsin.advances hs

/-! A zone, and a host that is added to it a second later. -/

def zoneTick : Tick where
  time := second
  act := .request (.createZone Node.Zone.sampleOperator "z1"
    { tenantId := "acme", name := "corp.lab", zoneType := .«local» }) false

def hostTick : Tick where
  time := 2 * second
  act := .request (.createRecord Node.Zone.sampleOperator "z1" "r1"
    { name := "www", recordType := .a, data := "10.0.0.5" }) false

def hostRecord : LocalZoneRecord :=
  ⟨"www.corp.lab", "corp.lab", "A", 300, "10.0.0.5", none⟩

/-- The new host is served under the old serial. -/
theorem created_record_keeps_serial :
    ∃ s t, Runs Node.Zone.samplePython (.init ["acme"]) [zoneTick] s ∧
      Runs Node.Zone.samplePython s [hostTick] t ∧ ¬Advances CaseMap.ascii s t := by
  obtain ⟨s, hs, t, ht, z, hz, hz', hbef, haft, hser⟩ : ∃ s,
      (State.init ["acme"]).step Node.Zone.samplePython zoneTick = some s ∧
      ∃ t, s.step Node.Zone.samplePython hostTick = some t ∧
      ∃ z ∈ s.db.servedZones "acme", z ∈ t.db.servedZones "acme" ∧
        hostRecord ∉ s.served CaseMap.ascii z ∧ hostRecord ∈ t.served CaseMap.ascii z ∧
        t.serial z = s.serial z := by
    decide +kernel
  refine ⟨s, t, .snoc (.nil _) hs, .snoc (.nil _) ht, fun hadv => ?_⟩
  have hlt := hadv "acme" z hz z hz' (.inl rfl) fun hsame =>
    hbef ((hsame hostRecord).mpr haft)
  omega

end Control.SoaSerial
