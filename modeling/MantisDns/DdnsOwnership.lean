/-
Whose records a lease event touches, and what that does to the answers served.

The bridge compares owners row by row: a client may rewrite and remove the rows
it created, and nothing else.  It looks for other rows by zone, name and type,
while the nodes serve a name after two further normalisations.

* `Run.inv` — what every event in flight knows about the rows it has chosen;
* `ddns_keeps_others` — what a step of an event leaves as it was;
* `own_answer_withdrawn` — a client withdraws its own answer beside that of an
  administrator.
-/
import MantisDns.LocalZones

open Text Table List

namespace Control.Ddns

variable {job : Job} {db db' : ZoneDb} {U : CaseMap} {name ip : Str} {effect : Effect}

open Zones Node.Zone
open CaseMap (ascii)

/-! ### What an event in flight knows -/

/-- The rows that an effect rewrites or removes. -/
def Effect.ids : Effect → List Str
  | .skip => []
  | .update id _ => [id]
  | .insert _ _ => []
  | .delete ids => ids

/-- A row that the client of the job created in its zone. -/
structure Job.Owns (job : Job) (r : DnsRecord) : Prop where
  zoneId : r.zoneId = job.zoneId
  owner : r.owner job.family = job.owner

theorem Job.Owns.sameRow {r r' : DnsRecord} (h : job.Owns r) (hsame : r.SameRow r') :
    job.Owns r' :=
  ⟨hsame.zoneId ▸ h.zoneId, (hsame.owner _) ▸ h.owner⟩

theorem Job.owns_newRecord (job : Job) (name ip id : Str) :
    job.Owns (job.newRecord name ip id) :=
  ⟨rfl, job.owner_newRecord name ip id⟩

/-- The job of an event. -/
structure Job.For (job : Job) (U : CaseMap) (ev : DhcpEvent) : Prop where
  family : job.family = ev.family
  owner : job.owner = ev.owner U

/-- Rows with one of these ids belong to the client, now and later. -/
def Job.Holds (job : Job) (db : ZoneDb) (ids : List Str) : Prop :=
  ∀ id ∈ ids, id ∈ db.issued ∧ ∀ r ∈ db.records, r.id = id → job.Owns r

theorem Job.Holds.evolves {ids : List Str} (h : job.Holds db ids) (hdb : db.Evolves db') :
    job.Holds db' ids := by
  intro id hid
  obtain ⟨hiss, hrows⟩ := h id hid
  refine ⟨hdb.issued hiss, ?_⟩
  rintro r' hr' rfl
  obtain ⟨r, hr, hsame⟩ := hdb.record r' hr' hiss
  exact (hrows r hr hsame.id).sameRow hsame

/-- What holds of an event in each phase. -/
def Knows (U : CaseMap) (ev : DhcpEvent) (db : ZoneDb) : Phase → Prop
  | .idle => True
  | .scoped job => job.For U ev
  | .zoned job zone _ _ => job.For U ev ∧ zone.id = job.zoneId
  | .ready job zone name seen effect =>
    job.For U ev ∧ zone.id = job.zoneId ∧ (∃ ip, job.Decides name ip seen effect) ∧
      job.Holds db effect.ids
  | .done => True

theorem Knows.evolves {ev : DhcpEvent} {p : Phase} (h : Knows U ev db p) (hdb : db.Evolves db') :
    Knows U ev db' p := by
  cases p with
  | ready =>
    obtain ⟨hjob, hzone, hdec, hhol⟩ := h
    exact ⟨hjob, hzone, hdec, hhol.evolves hdb⟩
  | _ => exact h

/-- **The check of ownership**: the rows a helper chooses are the client's. -/
theorem Job.Decides.holds (h : job.Decides name ip db.records effect) (hwf : db.WellFormed U)
    (hkey : db.Keyed) :
    job.Holds db effect.ids := by
  -- ids are unique, so the row that was read is the one that is written
  have howns {r : DnsRecord} (hr : r ∈ db.records) (hmat : job.matches name r = true)
      (hown : r.owner job.family = job.owner) :
      r.id ∈ db.issued ∧ ∀ r' ∈ db.records, r'.id = r.id → job.Owns r' := by
    simp only [Job.matches, Bool.and_eq_true, decide_eq_true_eq] at hmat
    refine ⟨hwf.recordIssued r hr, fun r' hr' hid => ?_⟩
    rw [hkey.records r' hr' r hr hid]
    exact ⟨hmat.1.1, hown⟩
  cases h with
  | @found r hkind hr hmat =>
    intro id hid
    rw [Job.upsert] at hid
    split at hid
    · simp [Effect.ids] at hid
    · rename_i owner hown
      split at hid
      · rename_i heq
        rw [Effect.ids, mem_singleton] at hid
        rw [hid]
        exact howns hr hmat (hown.trans heq.symm)
      · simp [Effect.ids] at hid
  | missing => exact fun id hid => absurd hid (by simp [Job.upsert, Effect.ids])
  | remove =>
    intro id hid
    obtain ⟨r, hr, rfl⟩ := List.mem_map.mp hid
    obtain ⟨hr, hfil⟩ := mem_filter.mp hr
    simp only [Bool.and_eq_true, decide_eq_true_eq] at hfil
    exact howns hr hfil.1.1 hfil.2

theorem Job.Decides.free {name' ip' : Str} {rows : List DnsRecord}
    (h : job.Decides name ip rows effect) (heff : effect = .insert name' ip') :
    name' = name ∧ ∀ r ∈ rows, job.matches name r = false := by
  cases h with
  | found =>
    rw [Job.upsert] at heff
    split at heff
    · simp at heff
    · split at heff <;> simp at heff
  | missing _ hrows =>
    rw [Job.upsert, Effect.insert.injEq] at heff
    exact ⟨heff.1.symm, hrows⟩
  | remove => simp at heff

/-! ### Along every run -/

variable {ι : Type} [DecidableEq ι] {P : Python} {events : ι → DhcpEvent} {s t : State ι}
variable {i : ι} {db db' : ZoneDb} {job : Job} {newId tenantId n : Str} {effect : Effect}
  {p : DnsRecord → Bool} {U : CaseMap}

/-- What holds in every state of a run. -/
structure Inv (P : Python) (events : ι → DhcpEvent) (s : State ι) : Prop where
  wellFormed : s.db.WellFormed P.toCaseMap
  keyed : s.db.Keyed
  knows : ∀ i, Knows P.toCaseMap (events i) s.db (s.phase i)

omit [DecidableEq ι] in
theorem inv_init (tenants : List Str) : Inv P events (init tenants) :=
  ⟨fresh_wellFormed _ tenants, fresh_keyed tenants, fun _ => trivial⟩

theorem Inv.set (h : Inv P events s) {p : Phase} (hp : Knows P.toCaseMap (events i) s.db p) :
    Inv P events (s.set i p) :=
  { h with
    knows := (Function.forall_update_iff s.phase fun j => Knows P.toCaseMap (events j) s.db).mpr
      ⟨hp, fun j _ => h.knows j⟩ }

omit [DecidableEq ι] in
theorem Inv.change (h : Inv P events s) (hdb : db = s.db ∨ Change P.toCaseMap s.db db) :
    Inv P events { s with db } := by
  rcases hdb with rfl | hcha
  · exact h
  · exact ⟨hcha.wellFormed h.wellFormed, hcha.keyed h.wellFormed h.keyed,
      fun i => (h.knows i).evolves hcha.evolves⟩

theorem Step.inv (hstep : Step P events s t) (h : Inv P events s) : Inv P events t := by
  cases hstep with
  | request hreq => exact h.change (.inr (apply_change hreq))
  | scope _ hjob =>
    obtain ⟨-, hfam, hown⟩ := jobOf_eq_some hjob
    exact h.set ⟨hfam, hown⟩
  | ignore | refuse | rollback => exact h.set trivial
  | @zone i _ _ _ _ hph _ hid _ =>
    have hkn := h.knows i
    rw [hph] at hkn
    exact h.set ⟨hkn, hid⟩
  | @rows i _ _ _ _ _ hph heff =>
    have hkn := h.knows i
    rw [hph] at hkn
    -- owners are compared on the rows of this very state
    exact h.set ⟨hkn.1, hkn.2, ⟨_, heff⟩, heff.holds h.wellFormed h.keyed⟩
  | @commit i _ _ _ _ _ _ _ _ hdb =>
    have hdone : Inv P events (s.set i .done) := h.set trivial
    exact hdone.change ((Job.apply_change hdb).imp_right ZoneChange.change)

theorem Run.inv (hrun : Run P events s t) (h : Inv P events s) : Inv P events t := by
  induction hrun with
  | refl => exact h
  | tail _ hstep ih => exact hstep.inv ih

/-! ### What a commit leaves alone -/

theorem Job.filter_apply (h : job.apply newId db effect = some db')
    (hids : ∀ id ∈ effect.ids, ∀ r ∈ db.records, r.id = id →
      p r = false ∧ ∀ data, p { r with data } = false)
    (hnew : ∀ name ip, effect = .insert name ip → p (job.newRecord name ip newId) = false) :
    db'.zones = db.zones ∧ db'.records.filter p = db.records.filter p := by
  rcases Job.apply_cases h with ⟨-, rfl⟩ | ⟨r, hr, data, rfl, rfl⟩ | ⟨name, ip, heff, -, -, rfl⟩ |
    ⟨ids, rfl, rfl⟩
  · exact ⟨rfl, rfl⟩
  · have hids := hids r.id mem_cons_self
    exact ⟨rfl, filter_replaceRow (fun x hx hxid => (hids x hx hxid).1) ((hids r hr rfl).2 data)⟩
  · refine ⟨rfl, ?_⟩
    rw [filter_append, filter_singleton, hnew name ip heff]
    exact append_nil _
  · refine ⟨rfl, ?_⟩
    rw [List.filter_filter]
    refine filter_congr fun r hr => ?_
    by_cases hmem : r.id ∈ ids
    · rw [(hids r.id hmem r hr rfl).1, Bool.false_and]
    · rw [decide_eq_true hmem, Bool.and_true]

theorem Job.mem_apply (h : job.apply newId db effect = some db') {r : DnsRecord}
    (hr : r ∈ db'.records) :
    (∃ r' ∈ db.records, ∃ data, r = { r' with data }) ∨
      ∃ name ip, effect = .insert name ip ∧ r = job.newRecord name ip newId := by
  have hold (hr : r ∈ db.records) : ∃ r' ∈ db.records, ∃ data, r = { r' with data } :=
    ⟨r, hr, r.data, rfl⟩
  rcases Job.apply_cases h with ⟨-, rfl⟩ | ⟨x, hx, data, -, rfl⟩ | ⟨name, ip, heff, -, -, rfl⟩ |
    ⟨ids, -, rfl⟩
  · exact .inl (hold hr)
  · have hrows : ∀ y ∈ replaceRow (·.id) x.id { x with data } db.records,
        ∃ r' ∈ db.records, ∃ data, y = { r' with data } :=
      forall_replaceRow ⟨x, hx, data, rfl⟩ fun y hy => ⟨y, hy, y.data, rfl⟩
    exact .inl (hrows r hr)
  · rcases mem_append.mp hr with hr | hr
    · exact .inl (hold hr)
    · exact .inr ⟨name, ip, heff, mem_singleton.mp hr⟩
  · exact .inl (hold (mem_of_mem_filter hr))

theorem Job.Holds.filter_apply (hhol : job.Holds db effect.ids)
    (h : job.apply newId db effect = some db') (hp : ∀ r, job.Owns r → p r = false) :
    db'.zones = db.zones ∧ db'.records.filter p = db.records.filter p := by
  refine Job.filter_apply h (fun id hid r hr hrid => ?_) fun name ip _ =>
    hp _ (job.owns_newRecord name ip newId)
  have howns := (hhol id hid).2 r hr hrid
  exact ⟨hp r howns, fun data => hp _ ⟨howns.zoneId,
    by rw [← howns.owner]; cases job.family <;> rfl⟩⟩

theorem Step.event_cases (h : Step P events s t) (hi : t.phase i ≠ s.phase i) :
    t.db = s.db ∨ ∃ job zone name seen effect newId,
      s.phase i = .ready job zone name seen effect ∧ job.apply newId s.db effect = some t.db := by
  cases h with
  | request => exact absurd rfl hi
  | @commit j job zone name newId seen effect db hph hdb =>
    have hij : i = j := by
      by_contra hne
      exact hi (Function.update_of_ne hne ..)
    subst hij
    exact .inr ⟨job, zone, name, seen, effect, newId, hph, hdb⟩
  | scope | ignore | zone | refuse | rows | rollback => exact .inl rfl

/-! ### Served answers -/

/-- The record is sent for this zone, and a node serves it under this name. -/
def servedAt (U : CaseMap) (f : Family) (n : Str) (z : DnsZone) (r : DnsRecord) : Bool :=
  r.zoneId = z.id && (r.enabled && r.recordType = f.recordType &&
    Node.Zone.normalize (fqdn U z r) = n)

/-- The A or AAAA answers of a tenant's zones at a name. -/
def answers (U : CaseMap) (serial : DnsZone → ℤ) (db : ZoneDb) (tenantId : Str) (f : Family)
    (n : Str) : List LocalZoneRecord :=
  (getLocalZoneRecords U serial db tenantId).filter fun r =>
    r.recordType = f.recordType.text && Node.Zone.normalize r.name = n

theorem text_eq_text_iff (k : RecordKind) (f : Family) :
    k.text = f.recordType.text ↔ k = f.recordType := by
  cases k <;> cases f <;> decide

theorem answers_eq (U : CaseMap) (serial : DnsZone → ℤ) (db : ZoneDb) (tenantId : Str) (f : Family)
    (n : Str) :
    answers U serial db tenantId f n = (db.servedZones tenantId).flatMap fun z =>
      (db.records.filter (servedAt U f n z)).map (localZoneRecord U z) := by
  rw [answers, getLocalZoneRecords, filter_flatMap]
  congr 1
  funext z
  -- the apex records are of other types
  have hapex : (synthesizeApexRecords serial db z).filter (fun r =>
      r.recordType = f.recordType.text && Node.Zone.normalize r.name = n) = [] := by
    refine filter_eq_nil_iff.mpr fun r hr => ?_
    have htype : r.recordType ≠ f.recordType.text := by
      obtain ⟨-, -, -, ⟨hsoa, -⟩ | hns⟩ := mem_synthesizeApexRecords hr
      · rw [hsoa]
        cases f <;> decide
      · rw [hns]
        cases f <;> decide
    simp [htype]
  rw [zoneRecords, filter_append, hapex, nil_append, List.filter_map, ZoneDb.recordsOf,
    List.filter_filter, List.filter_filter]
  congr 1
  refine filter_congr fun r _ => ?_
  rw [Bool.eq_iff_iff]
  simp only [Function.comp, servedAt, Bool.and_eq_true, decide_eq_true_eq]
  rw [← text_eq_text_iff]
  exact ⟨fun ⟨⟨⟨htype, hname⟩, hena⟩, hzone⟩ => ⟨hzone, ⟨hena, htype⟩, hname⟩,
    fun ⟨hzone, ⟨hena, htype⟩, hname⟩ => ⟨⟨⟨htype, hname⟩, hena⟩, hzone⟩⟩

theorem answers_congr {serial : DnsZone → ℤ} {f : Family} (hzs : db'.zones = db.zones)
    (hrec : ∀ z ∈ db.servedZones tenantId,
      db'.records.filter (servedAt U f n z) = db.records.filter (servedAt U f n z)) :
    answers U serial db' tenantId f n = answers U serial db tenantId f n := by
  have hser : db'.servedZones tenantId = db.servedZones tenantId := by
    rw [ZoneDb.servedZones, ZoneDb.servedZones, hzs]
  rw [answers_eq, answers_eq, hser, flatMap_def, flatMap_def]
  congr 1
  exact map_congr_left fun z hz => by rw [hrec z hz]

/-! ### The ownership of served names -/

/-- The name under which a node serves a record name of a zone. -/
def servedName (U : CaseMap) (z : DnsZone) (name : Str) : Str :=
  Node.Zone.normalize (fqdn U z ⟨[], z.id, name, .a, none, [], none, true, none, none⟩)

/-- What an event that is about to insert has looked up is still all there is under
its key. -/
def Undisturbed (s : State ι) (i : ι) : Prop :=
  ∀ job zone name seen ip, s.phase i = .ready job zone name seen (.insert name ip) →
    ∀ r ∈ s.db.records, job.matches name r = true → r ∈ seen

/-- The name that an event is about to add is served from records under its key
only. -/
def Unaliased (U : CaseMap) (s : State ι) (i : ι) : Prop :=
  ∀ job zone name seen ip, s.phase i = .ready job zone name seen (.insert name ip) →
    ∀ tenantId, ∀ z ∈ s.db.servedZones tenantId, z.id = job.zoneId →
      ∀ z' ∈ s.db.servedZones tenantId, ∀ r ∈ s.db.records,
        servedAt U job.family (servedName U z name) z' r = true →
          r.zoneId = job.zoneId ∧ r.name = name

omit [DecidableEq ι] in
theorem servedAt_newRecord {zone : DnsZone} {name' ip' : Str} {seen : List DnsRecord}
    (hph : s.phase i = .ready job zone name seen effect)
    (hdec : job.Decides name ip seen effect) (heff : effect = .insert name' ip')
    (hlast : Undisturbed s i) (hali : Unaliased U s i)
    (hser : ∃ z ∈ s.db.servedZones tenantId, ∃ r ∈ s.db.records,
      servedAt U job.family n z r = true) {z : DnsZone} (hz : z ∈ s.db.servedZones tenantId) :
    servedAt U job.family n z (job.newRecord name' ip' newId) = false := by
  obtain ⟨rfl, hfree⟩ := hdec.free heff
  subst heff
  by_contra htrue
  rw [Bool.not_eq_false, servedAt, Bool.and_eq_true, Bool.and_eq_true, decide_eq_true_eq,
    decide_eq_true_eq] at htrue
  obtain ⟨hid, -, rfl⟩ := htrue
  obtain ⟨z', hz', r, hr, hat⟩ := hser
  -- the record served there has the key of the insert, so the helper saw it
  obtain ⟨hrzo, hrn⟩ := hali _ _ _ _ _ hph tenantId z hz hid.symm z' hz' r hr hat
  have hmat : job.matches name' r = true := by
    simp only [servedAt, Bool.and_eq_true, decide_eq_true_eq] at hat
    simp only [Job.matches, Bool.and_eq_true, decide_eq_true_eq]
    exact ⟨⟨hrzo, hrn⟩, hat.2.1.2⟩
  rw [hfree r (hlast _ _ _ _ _ hph r hr hmat)] at hmat
  simp at hmat

/-- **Ownership as served**: a step of an event from client `m` leaves all records
that are not its own.  At a name where records of the type are served it adds
none, and if none of them is its own, it leaves the answers.  The latter two
provided that a record it adds is looked up under the one key that its name is
served from, and that nothing came under that key since. -/
theorem ddns_keeps_others {tenants : List Str} (hrun : Run P events (init tenants) s)
    (hstep : Step P events s t) {i : ι} (hi : t.phase i ≠ s.phase i) {m : Str}
    (hm : (events i).owner P.toCaseMap = some m) :
    t.db.zones = s.db.zones ∧
      t.db.records.filter (fun r => r.owner (events i).family ≠ some m) =
        s.db.records.filter (fun r => r.owner (events i).family ≠ some m) ∧
      (Undisturbed s i → Unaliased P.toCaseMap s i → ∀ tenantId n,
        (∃ z ∈ s.db.servedZones tenantId, ∃ r ∈ s.db.records,
          servedAt P.toCaseMap (events i).family n z r = true) →
        (∀ z ∈ s.db.servedZones tenantId, ∀ r ∈ t.db.records,
          servedAt P.toCaseMap (events i).family n z r = true →
            ∃ r' ∈ s.db.records, ∃ data, r = { r' with data }) ∧
        ((∀ z ∈ s.db.servedZones tenantId, ∀ r ∈ s.db.records,
          servedAt P.toCaseMap (events i).family n z r = true →
            r.owner (events i).family ≠ some m) →
          ∀ serial, answers P.toCaseMap serial t.db tenantId (events i).family n =
            answers P.toCaseMap serial s.db tenantId (events i).family n)) := by
  -- only the commit writes
  rcases hstep.event_cases hi with heq | ⟨job, zone, name, seen, effect, newId, hph, hdb⟩
  · rw [heq]
    exact ⟨rfl, rfl, fun _ _ _ _ _ => ⟨fun z _ r hr _ => ⟨r, hr, r.data, rfl⟩, fun _ _ => rfl⟩⟩
  have hkn := (hrun.inv (inv_init tenants)).knows i
  rw [hph] at hkn
  obtain ⟨⟨hfam, hown⟩, hzone, ⟨ip, hdec⟩, hhol⟩ := hkn
  rw [hm] at hown
  rw [← hfam]
  obtain ⟨hzs, hoth⟩ := hhol.filter_apply hdb
    (p := fun r => decide (r.owner job.family ≠ some m)) fun r hr => by simp [hr.owner, hown]
  refine ⟨hzs, hoth, fun hlast hali tenantId n hser => ?_⟩
  have hnew (z : DnsZone) (hz : z ∈ s.db.servedZones tenantId) (name' ip' : Str)
      (heff : effect = .insert name' ip') :
      servedAt P.toCaseMap job.family n z (job.newRecord name' ip' newId) = false :=
    servedAt_newRecord hph hdec heff hlast hali hser hz
  constructor
  · intro z hz r hr hat
    rcases Job.mem_apply hdb hr with hold | ⟨name', ip', heff, rfl⟩
    · exact hold
    · rw [hnew z hz name' ip' heff] at hat
      simp at hat
  · intro hnone serial
    refine answers_congr hzs fun z hz => (Job.filter_apply hdb ?_ (hnew z hz)).2
    -- the rows it rewrites or removes are its own, and not served at `n`
    intro id hid r hr hrid
    have hfal : servedAt P.toCaseMap job.family n z r = false := by
      by_contra htrue
      exact hnone z hz r hr (by simpa using htrue)
        (((hhol id hid).2 r hr hrid).owner.trans hown)
    exact ⟨hfal, fun data => hfal⟩

/-! A tenant with one zone that a scope of its own feeds. -/

def sampleScope : List Request :=
  [.createZone sampleOperator "z1"
      ⟨"acme", "corp.lab", .«local», true, 300, none⟩,
    .createScope .v4 sampleOperator "s1" ⟨"acme", true, some "z1", 300⟩]

/-- The operator adds an address for `printer`. -/
def samplePrinter : Request :=
  .createRecord sampleOperator "z1" "r1"
    ⟨"printer", .a, "10.0.0.5", none, none, true⟩

def sampleLease (event : EventKind) (hostname : Str) : DhcpEvent :=
  ⟨event, "10.0.0.77", hostname, .v4, "AABBCCDDEEFF", [], "s1"⟩

theorem ddns_keeps_others_printer :
    ∃ s t : State ℕ, Run samplePython (fun _ => sampleLease .add "laptop")
        (init ["acme"]) s ∧
      Step samplePython (fun _ => sampleLease .add "laptop") s t ∧
      t.db.records.length = 2 ∧
      (answers ascii (fun _ => 0) s.db "acme" .v4 "printer.corp.lab").length =
        1 ∧
      answers ascii (fun _ => 0) t.db "acme" .v4 "printer.corp.lab" =
        answers ascii (fun _ => 0) s.db "acme" .v4 "printer.corp.lab" := by
  let events : ℕ → DhcpEvent := fun _ => sampleLease .add "laptop"
  -- the event is about to commit
  obtain ⟨s, hrun, t, hadv, hlen, hone, hser, hman, hali⟩ := Machine.exists_of_foldlM
    (R := Step samplePython events) (f := State.advance samplePython events) step_of_advance
    (s := init ["acme"])
    (P := fun s => ∃ t, s.advance samplePython events (.go 0 "r2") = some t ∧
      t.db.records.length = 2 ∧
      (answers ascii (fun _ => 0) s.db "acme" .v4 "printer.corp.lab").length = 1 ∧
      (∃ z ∈ s.db.servedZones "acme", ∃ r ∈ s.db.records,
        servedAt ascii .v4 "printer.corp.lab" z r = true) ∧
      (∀ r ∈ s.db.records, r.ddnsOwnerMac = none) ∧
      (match s.phase 0 with
      | .ready job zone name seen _ => decide (s.db.records = seen ∧ ∀ z ∈ s.db.zones,
          ∀ z' ∈ s.db.zones, ∀ r ∈ s.db.records,
            servedAt ascii job.family (servedName ascii z name) z' r = false)
      | _ => false) = true)
    (sampleScope.map .request ++ [.request samplePrinter, .go 0, .go 0, .go 0]) (by decide +kernel)
  obtain ⟨hstep, hdone⟩ := step_of_go hadv
  refine ⟨s, t, hrun, hstep, hlen, hone, ?_⟩
  have hkee := ddns_keeps_others hrun hstep (i := 0) hdone (m := "aa:bb:cc:dd:ee:ff") (by decide)
  refine (hkee.2.2 ?_ ?_ "acme" "printer.corp.lab" hser).2 ?_ (fun _ => 0)
  · intro job zone name seen ip hph
    rw [hph] at hali
    rw [← (of_decide_eq_true hali).1]
    exact fun r hr _ => hr
  · intro job zone name seen ip hph tenantId z hz _ z' hz' r hr hat
    rw [hph] at hali
    have hfal := (of_decide_eq_true hali).2 z (mem_of_mem_filter hz) z' (mem_of_mem_filter hz') r hr
    exact absurd (hat.symm.trans hfal) (by simp)
  · intro z _ r hr _
    show r.ddnsOwnerMac ≠ _
    rw [hman r hr]
    simp

/-- The client got `printer` first, and the operator added an address to it; when
the lease ends, the client's answer is withdrawn. -/
theorem own_answer_withdrawn :
    ∃ (events : ℕ → DhcpEvent) (s t : State ℕ),
      Run samplePython events (init ["acme"]) s ∧ Step samplePython events s t ∧
      t.phase 1 ≠ s.phase 1 ∧
      (events 1).owner ascii = some "aa:bb:cc:dd:ee:ff".toList ∧
      (∃ z ∈ s.db.servedZones "acme", ∃ r ∈ s.db.records,
        servedAt ascii .v4 "printer.corp.lab" z r = true ∧
          r.owner .v4 ≠ some "aa:bb:cc:dd:ee:ff".toList) ∧
      (answers ascii (fun _ => 0) t.db "acme" .v4
        "printer.corp.lab").length <
      (answers ascii (fun _ => 0) s.db "acme" .v4
        "printer.corp.lab").length := by
  let events : ℕ → DhcpEvent := fun i =>
    sampleLease (if i = 0 then .add else .expire) "printer"
  obtain ⟨s, hrun, t, hadv, hser, hlt⟩ := Machine.exists_of_foldlM
    (R := Step samplePython events) (f := State.advance samplePython events) step_of_advance
    (s := init ["acme"])
    (P := fun s => ∃ t, s.advance samplePython events (.go 1) = some t ∧
      (∃ z ∈ s.db.servedZones "acme", ∃ r ∈ s.db.records,
        servedAt ascii .v4 "printer.corp.lab" z r = true ∧
          r.owner .v4 ≠ some "aa:bb:cc:dd:ee:ff".toList) ∧
      (answers ascii (fun _ => 0) t.db "acme" .v4 "printer.corp.lab").length <
        (answers ascii (fun _ => 0) s.db "acme" .v4 "printer.corp.lab").length)
    (sampleScope.map .request ++ [.go 0, .go 0, .go 0, .go 0 "r0", .request samplePrinter,
      .go 1, .go 1, .go 1])
    (by decide +kernel)
  obtain ⟨hstep, hdone⟩ := step_of_go hadv
  exact ⟨events, s, t, hrun, hstep, hdone, by decide, hser, hlt⟩

end Control.Ddns
