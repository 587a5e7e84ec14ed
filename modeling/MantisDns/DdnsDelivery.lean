/-
DDNS events that fail and are posted again: `ddns.rs`, and `enqueue_ddns_retry`,
`due_ddns_retries`, `delete_ddns_retry` and `reschedule_or_giveup_ddns_retry` of
`db.rs`.

Packet handlers, sweeps and the retry tasks of both daemons are agents that post to
the event endpoint of the control plane, and `dhcp_ddns_retries` is their queue.  An
event carries no sequence number: it is handled as if it were the newest one.

* `Notice`, `endpoint` — what is posted, and how the control plane handles it;
* `Bridge.Aside` — an event for other zones, or of the other family;
* `Bridge.mirror` — the records of a zone as the table that events change;
* `LastAdd` — the last transition of a lease was an "add";
* `records_keep_last_word` — when nothing is under way, those leases are published;
* `retry_overtakes` — an "add" that is posted again after its "expire".
-/
import MantisDns.Courier
import MantisDns.DdnsMirror
import MantisDns.DdnsOwnership

open Text Table Dns Function List Option

namespace Control.Ddns

open Zones

/-! ### What is posted -/

inductive Transition
  | add
  | expire
  deriving DecidableEq

def Transition.kind : Transition → EventKind
  | .add => .add
  | .expire => .expire

/-- A client of either family, with its address. -/
inductive Client
  | v4 (mac : Str) (ip : UInt32)
  | v6 (duid : Str) (ip : BitVec 128)
  deriving DecidableEq

def Client.ip : Client → Str
  | .v4 _ ip => ipv4Text ip
  | .v6 _ ip => ipv6Text ip

/-- The scope, the host name, the client and the address of a lease. -/
structure LeaseKey where
  scopeId : Str
  hostname : Option Str
  client : Client
  deriving DecidableEq

/-- `V4Event` or `V6Event`. -/
structure Notice where
  event : Transition
  lease : LeaseKey
  deriving DecidableEq

/-- The body that `post_v4` or `post_v6` sends. -/
def Notice.body (n : Notice) : DhcpEvent :=
  match n.lease.client with
  | .v4 mac ip =>
    ⟨n.event.kind, ipv4Text ip, n.lease.hostname.getD [], .v4, mac, [], n.lease.scopeId⟩
  | .v6 duid ip =>
    ⟨n.event.kind, ipv6Text ip, n.lease.hostname.getD [], .v6, [], duid, n.lease.scopeId⟩

/-! ### The endpoint -/

/-- What `dhcp_event` decides from the tables. -/
inductive Decision (U : CaseMap) (db : ZoneDb) (ev : DhcpEvent) : Option (Job × Effect) → Prop
  | ignore (h : jobOf U db ev = none) : Decision U db ev none
  | refuse {job : Job} (hjob : jobOf U db ev = some job)
      (hzone : (db.zones.find? (·.id = job.zoneId)).bind job.target = none) : Decision U db ev none
  | rows {job : Job} {zone : DnsZone} {name ip : Str} {effect : Effect}
      (hjob : jobOf U db ev = some job) (hzone : db.zones.find? (·.id = job.zoneId) = some zone)
      (htarget : job.target zone = some (name, ip))
      (heffect : job.Decides name ip db.records effect) : Decision U db ev (some (job, effect))

/-- The commit. -/
def Written (db : ZoneDb) : Option (Job × Effect) → ZoneDb → Prop
  | none, db' => db' = db
  | some (job, effect), db' => ∃ newId, job.apply newId db effect = some db'

def endpoint (U : CaseMap) : Courier.Receiver ZoneDb Notice (Option (Job × Effect)) where
  Decides db n e := Decision U db n.body e
  Commits db _ e db' := Written db e db'

theorem exists_decision {U : CaseMap} {db db' : ZoneDb} {newId : Str} {n : Notice}
    (h : dhcpEvent U db newId n.body = some db') :
    ∃ e, (endpoint U).Decides db n e ∧ (endpoint U).Commits db n e db' := by
  simp only [dhcpEvent, prepare, bind_eq_bind, bind_eq_some_iff, Option.pure_def, some_inj] at h
  obtain ⟨_, ⟨job, hjob, zone, hzone, ⟨name, ip⟩, htarget, rfl⟩, happ⟩ := h
  exact ⟨some (job, job.decide name ip db.records),
    .rows hjob hzone htarget (job.decides_decide name ip db.records), newId, happ⟩

/-- `MAX_DDNS_ATTEMPTS`. -/
def maxDdnsAttempts : ℕ := 8

/-! ### What a commit leaves alone -/

variable {B : Bridge} {t : Hosts} {db db' : ZoneDb} {ev : DhcpEvent} {job : Job} {effect : Effect}
  {name ip newId : Str}

theorem Job.Decides.ids {rows : List DnsRecord} (h : job.Decides name ip rows effect) {id : Str}
    (hid : id ∈ effect.ids) : ∃ r ∈ rows, r.id = id ∧ job.matches name r = true := by
  cases h with
  | @found r hkind hr hmat =>
    rw [Job.upsert] at hid
    split at hid
    · exact absurd hid not_mem_nil
    · split at hid
      · exact ⟨r, hr, (mem_singleton.mp hid).symm, hmat⟩
      · exact absurd hid not_mem_nil
  | missing => exact absurd hid not_mem_nil
  | remove =>
    obtain ⟨r, hr, hrid⟩ := List.mem_map.mp hid
    obtain ⟨hmem, hr⟩ := mem_filter.mp hr
    simp only [Bool.and_eq_true] at hr
    exact ⟨r, hmem, hrid, hr.1.1⟩

theorem Job.Decides.insert_name {rows : List DnsRecord} {name' ip' : Str}
    (h : job.Decides name ip rows (.insert name' ip')) : name' = name := by
  generalize heffect : Effect.insert name' ip' = effect at h
  cases h with
  | @found r _ _ _ =>
    rw [Job.upsert] at heffect
    split at heffect
    · cases heffect
    · split at heffect <;> cases heffect
  | missing => exact (Effect.insert.inj heffect).1
  | remove => cases heffect

theorem Job.Decides.congr {rows rows' : List DnsRecord} (h : job.Decides name ip rows effect)
    (hrows : rows'.filter (job.matches name) = rows.filter (job.matches name)) :
    job.Decides name ip rows' effect := by
  -- only the rows that the job matches are read
  have hmem : ∀ r, job.matches name r = true → (r ∈ rows' ↔ r ∈ rows) := by
    intro r hr
    have hiff : r ∈ rows'.filter (job.matches name) ↔ r ∈ rows.filter (job.matches name) := by
      rw [hrows]
    simpa [mem_filter, hr] using hiff
  cases h with
  | @found r hkind hr hmat => exact .found hkind ((hmem r hmat).mpr hr) hmat
  | missing hkind hnone =>
    refine .missing hkind fun r hr => ?_
    rw [Bool.eq_false_iff]
    intro hmat
    exact absurd (hnone r ((hmem r hmat).mp hr)) (by simp [hmat])
  | remove hkind =>
    -- the removal filters once more, by address and owner
    have hfil : ∀ l : List DnsRecord, (l.filter fun r =>
        job.matches name r && r.data = ip && r.owner job.family = job.owner) =
        (l.filter (job.matches name)).filter
          fun r => r.data = ip && r.owner job.family = job.owner := by
      intro l
      rw [List.filter_filter]
      refine filter_congr fun r _ => ?_
      rw [Bool.and_assoc, Bool.and_comm]
    rw [hfil, ← hrows, ← hfil]
    exact .remove hkind

theorem Job.apply_tables (h : job.apply newId db effect = some db') :
    db'.zones = db.zones ∧ (∀ f, db'.scopesOf f = db.scopesOf f) ∧ db.issued ⊆ db'.issued := by
  rcases Job.apply_cases h with ⟨-, rfl⟩ | ⟨r, hr, data, -, rfl⟩ | ⟨name, ip, -, -, -, rfl⟩ |
    ⟨ids, -, rfl⟩
  · exact ⟨rfl, fun _ => rfl, List.Subset.refl _⟩
  · exact ⟨rfl, fun f => by cases f <;> rfl, List.Subset.refl _⟩
  · exact ⟨rfl, fun f => by cases f <;> rfl, subset_cons_self _ _⟩
  · exact ⟨rfl, fun f => by cases f <;> rfl, List.Subset.refl _⟩

theorem Job.not_issued_of_insert (h : job.apply newId db (.insert name ip) = some db') :
    newId ∉ db.issued :=
  (ite_none_right_eq_some.mp h).1.1

theorem Job.apply_keyed (h : job.apply newId db effect = some db') (hkey : Keyed (·.id) db.records)
    (hiss : ∀ r ∈ db.records, r.id ∈ db.issued) :
    Keyed (·.id) db'.records ∧ ∀ r ∈ db'.records, r.id ∈ db'.issued := by
  rcases Job.apply_cases h with ⟨-, rfl⟩ | ⟨r, hr, data, -, rfl⟩ | ⟨name, ip, -, hnew, -, rfl⟩ |
    ⟨ids, -, rfl⟩
  · exact ⟨hkey, hiss⟩
  · exact ⟨hkey.replaceRow rfl, forall_replaceRow (hiss r hr) hiss⟩
  · refine ⟨hkey.concat fun hmem => ?_, forall_concat (fun r hr =>
      mem_cons_of_mem _ (hiss r hr)) mem_cons_self⟩
    obtain ⟨r, hr, hid⟩ := List.mem_map.mp hmem
    have hid : r.id = newId := hid
    exact hnew (hid ▸ hiss r hr)
  · exact ⟨hkey.sublist filter_sublist, forall_filter hiss _⟩

/-! ### Events of other zones -/

/-- The scope of the event, if it has one, feeds another zone. -/
def Bridge.Elsewhere (B : Bridge) (ev : DhcpEvent) : Prop :=
  ev.family = B.family → ∀ scope, B.scopes.find? (·.id = ev.scopeId) = some scope →
    scope.ddnsEnabled = true → scope.ddnsZoneId ≠ some B.zone.id

/-- A decision about rows that are not of the zone. -/
structure Bridge.Aside (B : Bridge) (db : ZoneDb) (job : Job) (effect : Effect) : Prop where
  elsewhere : job.zoneId ≠ B.zone.id ∨ job.family ≠ B.family
  issued : ∀ id ∈ effect.ids, id ∈ db.issued
  rows : ∀ id ∈ effect.ids, ∀ r ∈ db.records, r.id = id → ∀ name, B.at name r = false

theorem recordType_injective {f g : Family} (h : f.recordType = g.recordType) : f = g := by
  cases f <;> cases g <;> first | rfl | exact nomatch h

theorem Bridge.at_of_elsewhere (h : job.zoneId ≠ B.zone.id ∨ job.family ≠ B.family) {r : DnsRecord}
    (hzone : r.zoneId = job.zoneId) (htype : r.recordType = job.family.recordType) (name' : Str) :
    B.at name' r = false := by
  rw [Bool.eq_false_iff]
  intro hat
  simp only [Bridge.at, Bool.and_eq_true, decide_eq_true_eq] at hat
  rcases h with h | h
  · exact h (hzone.symm.trans hat.1.1)
  · exact h (recordType_injective (htype.symm.trans hat.2))

theorem jobOf_scope {U : CaseMap} (h : jobOf U db ev = some job) :
    ∃ scope, (db.scopesOf ev.family).find? (·.id = ev.scopeId) = some scope ∧
      scope.ddnsEnabled = true ∧ scope.ddnsZoneId = some job.zoneId ∧ job.family = ev.family := by
  cases hkind : ev.event with
  | other =>
    simp [jobOf, hkind] at h
  | add | expire | delete =>
    simp only [jobOf, hkind, bind_eq_bind, bind_some, bind_eq_some_iff] at h
    obtain ⟨scope, hfind, zoneId, hzon, h⟩ := h
    obtain ⟨hcks, h⟩ := ite_none_right_eq_some.mp h
    cases h
    exact ⟨scope, hfind, hcks.1, hzon, rfl⟩

theorem Bridge.Elsewhere.aside (hev : B.Elsewhere ev) (h : B.Represents t db)
    (hd : Decision B.U db ev (some (job, effect))) : B.Aside db job effect := by
  cases hd with
  | @rows _ zone name ip _ hjob hzone htarget heffect =>
    have helse : job.zoneId ≠ B.zone.id ∨ job.family ≠ B.family := by
      obtain ⟨scope, hfind, hena, hzon, hfam⟩ := jobOf_scope hjob
      rw [or_iff_not_imp_right, not_not, hfam]
      intro hB hzone
      rw [hB, h.scopes] at hfind
      exact hev hB scope hfind hena (hzone ▸ hzon)
    have hrows : ∀ id ∈ effect.ids, ∃ r ∈ db.records, r.id = id ∧
        ∀ name', B.at name' r = false := by
      intro id hid
      obtain ⟨r, hr, hrid, hmat⟩ := heffect.ids hid
      simp only [Job.matches, Bool.and_eq_true, decide_eq_true_eq] at hmat
      exact ⟨r, hr, hrid, at_of_elsewhere helse hmat.1.1 hmat.2⟩
    refine ⟨helse, fun id hid => ?_, fun id hid r hr hrid => ?_⟩
    · obtain ⟨r, hr, rfl, -⟩ := hrows id hid
      exact h.issued r hr
    · obtain ⟨r', hr', rfl, hat⟩ := hrows id hid
      rw [h.keyed r hr r' hr' hrid]
      exact hat

theorem Bridge.Represents.aside (h : B.Represents t db) (hasi : B.Aside db job effect)
    (happ : job.apply newId db effect = some db') :
    B.Represents t db' ∧
      ∀ name, db'.records.filter (B.at name) = db.records.filter (B.at name) := by
  obtain ⟨hzs, hscs, -⟩ := Job.apply_tables happ
  obtain ⟨hkey, hiss⟩ := Job.apply_keyed happ h.keyed h.issued
  have hnew : ∀ name' name ip, B.at name' (job.newRecord name ip newId) = false :=
    fun name' name ip => at_of_elsewhere hasi.elsewhere rfl rfl name'
  have hfil : ∀ name, db'.records.filter (B.at name) = db.records.filter (B.at name) :=
    fun name => (Job.filter_apply happ (fun id hid r hr hrid =>
      ⟨hasi.rows id hid r hr hrid name, fun _ => hasi.rows id hid r hr hrid name⟩)
        fun name' ip _ => hnew name name' ip).2
  refine ⟨⟨hzs ▸ h.zone, (hscs B.family).trans h.scopes, hkey, hiss, ?_, h.unknown, ?_⟩,
    hfil⟩
  · intro r hr name hat hown
    rcases Job.mem_apply happ hr with ⟨r₀, hr₀, data, rfl⟩ | ⟨name', ip, -, rfl⟩
    · refine h.owned r₀ hr₀ name hat ?_
      cases hf : B.family <;> rw [hf] at hown <;> exact hown
    · rw [hnew] at hat
      exact nomatch hat
  · intro name o ho
    rw [hfil]
    exact h.rows name o ho

/-! ### Events of the zone -/

def Transition.jobKind : Transition → JobKind
  | .add => .upsert
  | .expire => .remove

/-- DDNS is in effect for the lease. -/
def Bridge.Serves (B : Bridge) (l : LeaseKey) : Prop := B.Effective (Notice.body ⟨.add, l⟩)

/-- The record name of a lease. -/
def Bridge.host (B : Bridge) (l : LeaseKey) : Str := B.name (l.hostname.getD [])

theorem Notice.body_hostname (n : Notice) : n.body.hostname = n.lease.hostname.getD [] := by
  obtain ⟨event, scopeId, hostname, client⟩ := n
  cases client <;> rfl

theorem Notice.body_ip (n : Notice) : n.body.ip = n.lease.client.ip := by
  obtain ⟨event, scopeId, hostname, client⟩ := n
  cases client <;> rfl

theorem Notice.body_event (n : Notice) : n.body.event = n.event.kind := by
  obtain ⟨event, scopeId, hostname, client⟩ := n
  cases client <;> rfl

theorem Notice.validate_ip (n : Notice) : validateRecordField n.body.ip = some n.body.ip := by
  rw [n.body_ip]
  cases n.lease.client with
  | v4 mac ip => exact validateRecordField_ipv4Text ip
  | v6 duid ip => exact validateRecordField_ipv6Text ip

theorem Bridge.Serves.effective {n : Notice} (h : B.Serves n.lease) : B.Effective n.body := by
  obtain ⟨event, scopeId, hostname, client⟩ := n
  cases client
  all_goals exact ⟨h.family, h.zone, h.scope, h.hostname, h.field, h.label, h.owner⟩

/-- A decision that is still good. -/
structure Bridge.Sound (B : Bridge) (db : ZoneDb) (n : Notice) (job : Job) (effect : Effect) :
    Prop where
  task : B.Task n.body job
  kind : job.kind = n.event.jobKind
  decides : job.Decides (B.host n.lease) n.lease.client.ip db.records effect

variable {n : Notice}

theorem Bridge.Serves.sound (hn : B.Serves n.lease) (h : B.Represents t db)
    {e : Option (Job × Effect)} (hd : Decision B.U db n.body e) :
    ∃ job effect, e = some (job, effect) ∧ B.Sound db n job effect := by
  have hev := hn.effective
  have hkind : n.body.event = .add ∧ n.event.jobKind = .upsert ∨
      n.body.event = .expire ∧ n.event.jobKind = .remove := by
    rw [n.body_event]
    cases n.event with
    | add => exact .inl ⟨rfl, rfl⟩
    | expire => exact .inr ⟨rfl, rfl⟩
  obtain ⟨job, hjob, htask, hjk⟩ := hev.job h hkind
  -- the scope is known and the name is valid, so the event is neither ignored nor refused
  have htarget := hev.target htask n.validate_ip
  have hzone : db.zones.find? (·.id = job.zoneId) = some B.zone := by rw [htask.zoneId, h.zone]
  cases hd with
  | ignore hnone => rw [hjob] at hnone; exact nomatch hnone
  | refuse hjob' href =>
    obtain rfl := some_inj.mp (hjob.symm.trans hjob')
    rw [hzone, bind_some, htarget] at href
    exact nomatch href
  | @rows job' zone name ip effect hjob' hzone' htar' heffect =>
    obtain rfl := some_inj.mp (hjob.symm.trans hjob')
    obtain rfl := some_inj.mp (hzone.symm.trans hzone')
    obtain ⟨rfl, rfl⟩ := Prod.mk.inj (some_inj.mp (htarget.symm.trans htar'))
    refine ⟨job, effect, rfl, htask, hjk, ?_⟩
    rw [Bridge.host, ← n.body_hostname, ← n.body_ip]
    exact heffect

theorem Bridge.Sound.effect_eq (hs : B.Sound db n job effect) (hn : B.Serves n.lease)
    (h : B.Represents t db) :
    effect = job.decide (B.name n.body.hostname) n.body.ip db.records := by
  obtain ⟨o, -, -, ho⟩ := hn.effective.owner
  have hname : B.host n.lease = B.name n.body.hostname := by rw [Bridge.host, n.body_hostname]
  have hdec := hs.decides
  rw [hname, ← n.body_ip] at hdec
  rw [Job.decide]
  -- there is one row at most, so `.first()` takes it
  cases hdec with
  | @found r hkind hr hmat =>
    rw [hkind]
    have hmem : r ∈ db.records.filter (B.at (B.name n.body.hostname)) :=
      mem_filter.mpr ⟨hr, hs.task.matches_eq _ ▸ hmat⟩
    cases ht : t (B.name n.body.hostname) with
    | none =>
      rw [h.rows_of_none ho ht] at hmem
      simp at hmem
    | some =>
      obtain ⟨r', hone, -⟩ := h.row_of_some ho ht
      rw [hone, mem_singleton] at hmem
      rw [hs.task.matches_eq, find?_of_filter hone, hmem]
      rfl
  | missing hkind hnone =>
    rw [hkind]
    have hfind : db.records.find? (job.matches (B.name n.body.hostname)) = none :=
      find?_eq_none.mpr fun r hr => by simp [hnone r hr]
    rw [hfind]
  | remove hkind => rw [hkind]

theorem Bridge.Sound.filter_eq (hs : B.Sound db n job effect) (h : B.Represents t db)
    (happ : job.apply newId db effect = some db') {name' : Str} (hne : name' ≠ B.host n.lease) :
    db'.records.filter (B.at name') = db.records.filter (B.at name') := by
  refine (Job.filter_apply happ (fun id hid r hr hrid => ?_) fun name ip heq => ?_).2
  · obtain ⟨r', hr', hrid', hmat⟩ := hs.decides.ids hid
    obtain rfl := h.keyed r hr r' hr' (hrid.trans hrid'.symm)
    rw [hs.task.matches_eq] at hmat
    have hat : B.at name' r = false := by
      rw [Bool.eq_false_iff]
      exact fun hat => hne ((Bridge.at_name hat).symm.trans (Bridge.at_name hmat))
    exact ⟨hat, fun _ => hat⟩
  · have hname : name = B.host n.lease := (heq ▸ hs.decides).insert_name
    rw [Bool.eq_false_iff]
    exact fun hat => hne ((Bridge.at_name hat).symm.trans hname)

/-! ### The records as a table that events change -/

open Classical in
/-- The name that an event is about, if it is an event of the zone. -/
noncomputable def Bridge.place (B : Bridge) (n : Notice) : Option Str :=
  if B.Serves n.lease then some (B.host n.lease) else none

theorem Bridge.place_eq_some_iff :
    B.place n = some name ↔ B.Serves n.lease ∧ B.host n.lease = name := by
  rw [Bridge.place]
  split
  · rename_i hn
    rw [some_inj]
    exact (and_iff_right hn).symm
  · rename_i hn
    exact ⟨nofun, fun h => absurd h.1 hn⟩

/-- What an event makes of the address at its name. -/
def Notice.apply (n : Notice) (v : Option Str) : Option Str :=
  match n.event with
  | .add => some n.lease.client.ip
  | .expire => if v = some n.lease.client.ip then none else v

theorem Notice.apply_apply (n : Notice) (v : Option Str) : n.apply (n.apply v) = n.apply v := by
  obtain ⟨event, lease⟩ := n
  cases event with
  | add => rfl
  | expire =>
    by_cases hv : v = some lease.client.ip
    · simp [Notice.apply, hv]
    · simp [Notice.apply, hv]

/-- A decision that is still good, for any event. -/
def Bridge.Ready (B : Bridge) (db : ZoneDb) (n : Notice) (e : Option (Job × Effect)) : Prop :=
  (B.Serves n.lease → ∃ job effect, e = some (job, effect) ∧ B.Sound db n job effect) ∧
    (¬B.Serves n.lease → ∀ job effect, e = some (job, effect) → B.Aside db job effect)

theorem Bridge.Sound.represents (hs : B.Sound db n job effect) (hn : B.Serves n.lease)
    (h : B.Represents t db) (happ : job.apply newId db effect = some db') :
    B.Represents (Courier.post B.place Notice.apply n t) db' := by
  have hpla : B.place n = some (B.host n.lease) := place_eq_some_iff.mpr ⟨hn, rfl⟩
  have hname : B.name n.body.hostname = B.host n.lease := by rw [Bridge.host, n.body_hostname]
  rw [hs.effect_eq hn h] at happ
  have hpost : Courier.post B.place Notice.apply n t =
      update t (B.host n.lease) (n.apply (t (B.host n.lease))) := by
    rw [Courier.post, hpla]
  rw [hpost]
  cases heve : n.event with
  | add =>
    have hkind : job.kind = .upsert := by rw [hs.kind, heve]; rfl
    have hadd := h.upserted hn.effective hs.task hkind happ
    rw [hname, n.body_ip, Hosts.add] at hadd
    rwa [Notice.apply, heve]
  | expire =>
    have hkind : job.kind = .remove := by rw [hs.kind, heve]; rfl
    -- a removal finds the row only where it has the address
    have hexp := h.removed hn.effective hs.task hkind happ
    rw [hname, n.body_ip, Hosts.expire] at hexp
    simp only [Notice.apply, heve]
    split
    · rename_i hip
      rwa [if_pos hip] at hexp
    · rename_i hip
      rw [if_neg hip] at hexp
      rwa [update_eq_self]

theorem Bridge.Ready.frame {e e' : Option (Job × Effect)} {n' : Notice} (h : B.Represents t db)
    (hrdy : B.Ready db n e) (hd : Written db e db') (hrdy' : B.Ready db n' e')
    (hapa : ∀ name, B.place n = some name → B.place n' ≠ some name) : B.Ready db' n' e' := by
  cases e with
  | none =>
    obtain rfl : db' = db := hd
    exact hrdy'
  | some decision =>
    obtain ⟨job, effect⟩ := decision
    obtain ⟨newId, happ⟩ := hd
    -- the commit is at another name, so the rows at this one stay
    have hfil : B.Serves n'.lease → db'.records.filter (B.at (B.host n'.lease)) =
        db.records.filter (B.at (B.host n'.lease)) := by
      intro hn'
      by_cases hn : B.Serves n.lease
      · obtain ⟨_, _, ⟨⟩, hs⟩ := hrdy.1 hn
        refine hs.filter_eq h happ fun heq => ?_
        exact hapa _ (place_eq_some_iff.mpr ⟨hn, rfl⟩) (place_eq_some_iff.mpr ⟨hn', heq⟩)
      · exact (h.aside (hrdy.2 hn job effect rfl) happ).2 _
    refine ⟨fun hn' => ?_, fun hn' job' effect' he' => ?_⟩
    · obtain ⟨job', effect', he', hs'⟩ := hrdy'.1 hn'
      refine ⟨job', effect', he', hs'.task, hs'.kind, hs'.decides.congr ?_⟩
      rw [hs'.task.matches_eq]
      exact hfil hn'
    · have hasi := hrdy'.2 hn' job' effect' he'
      obtain ⟨-, -, hiss⟩ := Job.apply_tables happ
      refine ⟨hasi.elsewhere, fun id hid => hiss (hasi.issued id hid), fun id hid r hr hrid => ?_⟩
      rcases Job.mem_apply happ hr with ⟨r₀, hr₀, data, rfl⟩ | ⟨name, ip, rfl, rfl⟩
      · exact hasi.rows id hid r₀ hr₀ hrid
      · have hrid : newId = id := hrid
        exact absurd (hrid ▸ hasi.issued id hid) (Job.not_issued_of_insert happ)

/-- The records of the zone as the table that events change. -/
noncomputable def Bridge.mirror (B : Bridge) : Courier.Mirror (endpoint B.U) Str (Option Str) where
  place := B.place
  apply := Notice.apply
  Good n := B.Serves n.lease ∨ B.Elsewhere n.body
  Repr := B.Represents
  Ready := B.Ready
  apply_idem := Notice.apply_apply
  ready h hgood hd := by
    refine ⟨fun hn => hn.sound h hd, fun hn job effect he => ?_⟩
    subst he
    exact (hgood.resolve_left hn).aside h hd
  commit := by
    intro t db db' n e h hgood hready hd
    by_cases hn : B.Serves n.lease
    · obtain ⟨job, effect, rfl, hs⟩ := hready.1 hn
      obtain ⟨newId, happly⟩ := hd
      exact hs.represents hn h happly
    · have hpost : Courier.post B.place Notice.apply n t = t := by
        rw [Courier.post, Bridge.place, if_neg hn]
      rw [hpost]
      match e with
      | none =>
        obtain rfl : db' = db := hd
        exact h
      | some (job, effect) =>
        obtain ⟨newId, happly⟩ := hd
        exact (h.aside (hready.2 hn job effect rfl) happly).1
  other h _ hready hd _ hready' hapart := hready.frame h hd hready' hapart

/-! ### The last transition -/

/-- The last transition of a lease was an "add"; the last one stands first. -/
def LastAdd (history : List Notice) (l : LeaseKey) : Prop :=
  (history.find? (·.lease = l)).map (·.event) = some .add

instance (history : List Notice) (l : LeaseKey) : Decidable (LastAdd history l) :=
  inferInstanceAs (Decidable (_ = _))

variable {history : List Notice} {l l' : LeaseKey}

theorem lastAdd_cons_self : LastAdd (n :: history) n.lease ↔ n.event = .add := by
  simp [LastAdd]

theorem lastAdd_cons_of_ne (h : n.lease ≠ l) : LastAdd (n :: history) l ↔ LastAdd history l := by
  simp [LastAdd, h]

theorem LastAdd.mem (h : LastAdd history l) : ∃ n ∈ history, n.lease = l := by
  cases hfind : history.find? (·.lease = l) with
  | none => simp [LastAdd, hfind] at h
  | some n => exact ⟨n, mem_of_find?_eq_some hfind, by simpa using find?_some hfind⟩

/-- Leases with one name have different addresses, and one of them is current at a time. -/
def Bridge.Admits (B : Bridge) (history : List Notice) (n : Notice) : Prop :=
  B.Serves n.lease → ∀ n' ∈ history, B.Serves n'.lease → B.host n'.lease = B.host n.lease →
    n'.lease ≠ n.lease → n'.lease.client.ip ≠ n.lease.client.ip ∧
      (n.event = .add → ¬LastAdd history n'.lease)

theorem lease_eq_of_grows (h : Courier.Grows B.Admits history) {n' : Notice} (hn : n ∈ history)
    (hn' : n' ∈ history) (hsvs : B.Serves n.lease) (hsvs' : B.Serves n'.lease)
    (hhost : B.host n.lease = B.host n'.lease) (hip : n.lease.client.ip = n'.lease.client.ip) :
    n.lease = n'.lease := by
  induction history with
  | nil => simp at hn
  | cons m history ih =>
    obtain ⟨hm, hrest⟩ := h
    rw [mem_cons] at hn hn'
    by_contra hne
    rcases hn with rfl | hn <;> rcases hn' with rfl | hn'
    · exact hne rfl
    · exact (hm hsvs n' hn' hsvs' hhost.symm fun heq => hne heq.symm).1 hip.symm
    · exact (hm hsvs' n hn hsvs hhost hne).1 hip
    · exact hne (ih hrest hn hn')

theorem LastAdd.eq_of_host (h : Courier.Grows B.Admits history) (hl : LastAdd history l)
    (hl' : LastAdd history l') (hsvs : B.Serves l) (hsvs' : B.Serves l')
    (hhost : B.host l = B.host l') : l = l' := by
  induction history with
  | nil => exact nomatch hl
  | cons m history ih =>
    obtain ⟨hm, hrest⟩ := h
    by_contra hne
    by_cases hml : m.lease = l
    · subst hml
      rw [lastAdd_cons_self] at hl
      rw [lastAdd_cons_of_ne hne] at hl'
      obtain ⟨n', hn', rfl⟩ := hl'.mem
      exact (hm hsvs n' hn' hsvs' hhost.symm fun heq => hne heq.symm).2 hl hl'
    · rw [lastAdd_cons_of_ne hml] at hl
      by_cases hml' : m.lease = l'
      · subst hml'
        rw [lastAdd_cons_self] at hl'
        obtain ⟨n', hn', rfl⟩ := hl.mem
        exact (hm hsvs' n' hn' hsvs hhost hne).2 hl' hl
      · rw [lastAdd_cons_of_ne hml'] at hl'
        exact hne (ih hrest hl hl')

/-- **What the events make of an empty zone**: at each name the address of the lease that
is current. -/
theorem view_eq_some_iff (h : Courier.Grows B.Admits history) :
    B.mirror.view (fun _ => none) history name = some ip ↔
      ∃ l, B.Serves l ∧ B.host l = name ∧ l.client.ip = ip ∧ LastAdd history l := by
  induction history generalizing ip with
  | nil => exact ⟨nofun, fun ⟨_, _, _, _, hl⟩ => nomatch hl⟩
  | cons n history ih =>
    have hgro := h
    obtain ⟨hn, hrest⟩ := h
    by_cases hpla : B.place n = some name
    · obtain ⟨hsvs, rfl⟩ := Bridge.place_eq_some_iff.mp hpla
      have hview : B.mirror.view (fun _ => none) (n :: history) (B.host n.lease) =
          n.apply (B.mirror.view (fun _ => none) history (B.host n.lease)) :=
        Courier.Mirror.post_of_place (M := B.mirror) hpla
      rw [hview]
      cases heve : n.event with
      | add =>
        have hself : LastAdd (n :: history) n.lease := lastAdd_cons_self.mpr heve
        simp only [Notice.apply, heve, some_inj]
        constructor
        · intro hip
          exact ⟨n.lease, hsvs, rfl, hip, hself⟩
        · rintro ⟨l, hsvs', hhost, hip, hl⟩
          rw [LastAdd.eq_of_host hgro hself hl hsvs hsvs' hhost.symm, hip]
      | expire =>
        -- the lease that expires is not current any more
        have hne : ∀ l, LastAdd (n :: history) l → n.lease ≠ l := by
          rintro l hl rfl
          rw [lastAdd_cons_self, heve] at hl
          exact nomatch hl
        simp only [Notice.apply, heve]
        by_cases hcur : B.mirror.view (fun _ => none) history (B.host n.lease) =
            some n.lease.client.ip
        · rw [if_pos hcur]
          obtain ⟨l₀, hserves₀, hhost₀, hip₀, hl₀⟩ := (ih hrest).mp hcur
          refine ⟨nofun, ?_⟩
          rintro ⟨l, hsvs', hhost, hip, hl⟩
          have hoth := hne l hl
          rw [lastAdd_cons_of_ne hoth] at hl
          obtain rfl := LastAdd.eq_of_host hrest hl hl₀ hsvs' hserves₀ (hhost.trans hhost₀.symm)
          obtain ⟨n', hn', rfl⟩ := hl.mem
          exact absurd hip₀ (hn hsvs n' hn' hsvs' hhost hoth.symm).1
        · rw [if_neg hcur, ih hrest]
          refine exists_congr fun l => and_congr_right fun hsvs' => and_congr_right fun hhost =>
            and_congr_right fun _ => ?_
          by_cases heq : n.lease = l
          · subst heq
            refine ⟨fun hl => absurd ((ih hrest).mpr ⟨_, hsvs', rfl, rfl, hl⟩) hcur, fun hl => ?_⟩
            exact absurd rfl (hne _ hl)
          · exact (lastAdd_cons_of_ne heq).symm
    · have hview : B.mirror.view (fun _ => none) (n :: history) name =
          B.mirror.view (fun _ => none) history name :=
        Courier.Mirror.post_of_ne (M := B.mirror) hpla
      rw [hview, ih hrest]
      refine exists_congr fun l => and_congr_right fun hsvs => and_congr_right fun hhost =>
        and_congr_right fun _ => ?_
      refine (lastAdd_cons_of_ne fun heq => hpla ?_).symm
      exact Bridge.place_eq_some_iff.mpr ⟨heq ▸ hsvs, heq ▸ hhost⟩

/-! ### The main theorem -/

/-- No event is posted while another one of its name is under way, and none is given up. -/
def Bridge.Orderly {ι : Type} (B : Bridge) :
    Courier.State ι ZoneDb Notice (Option (Job × Effect)) → Courier.Label ι Notice → Prop :=
  B.mirror.Orderly maxDdnsAttempts B.Admits

/-- **When nothing is under way, a lease is published if its last transition was an
"add".** -/
theorem records_keep_last_word {ι : Type} [DecidableEq ι] {db : ZoneDb}
    {s : Courier.State ι ZoneDb Notice (Option (Job × Effect))}
    (hdb : B.Represents (fun _ => none) db)
    (hrun : Courier.RunWhile (endpoint B.U) maxDdnsAttempts B.Orderly { db := db } s)
    (hquiet : s.Quiet) (hn : n ∈ s.history) (hserves : B.Serves n.lease) {o : Str}
    (ho : n.body.owner B.U = some o) :
    (∃ r ∈ s.db.records, B.Owned (B.host n.lease) n.lease.client.ip o r) ↔
      LastAdd s.history n.lease := by
  obtain ⟨hrepr, hgro⟩ := Courier.Mirror.settled (M := B.mirror) hdb hrun hquiet
  have hrepr : B.Represents (B.mirror.view (fun _ => none) s.history) s.db := hrepr
  have hown : B.owners (B.host n.lease) = some o := by
    obtain ⟨o', -, ho', hown⟩ := hserves.effective.owner
    rw [ho, some_inj] at ho'
    rw [Bridge.host, ← n.body_hostname, hown, ho']
  rw [hrepr.published_iff, and_iff_left hown, view_eq_some_iff hgro]
  constructor
  · rintro ⟨l, hl, hhost, hip, hlast⟩
    obtain ⟨n', hn', rfl⟩ := hlast.mem
    rwa [← lease_eq_of_grows hgro hn' hn hl hserves hhost hip]
  · intro hlast
    exact ⟨n.lease, hserves, rfl, rfl, hlast⟩

/-! ### Samples -/

open Dhcp4 (sampleMac sampleNames sampleWorld)

/-- The lease of a client with a host name. -/
def samplePc : LeaseKey :=
  ⟨"lan", some "pc", .v4 (sampleMac 1).text 0x0A000001⟩

theorem samplePc_serves : sampleWorld.Serves samplePc :=
  sampleNames (.inl rfl) .add 0x0A000001

theorem samplePc_owner (event : Transition) :
    (Notice.body ⟨event, samplePc⟩).owner sampleWorld.U =
      some (sampleMac 1).text := by
  show macFmt sampleWorld.U (sampleMac 1).text = _
  decide +kernel

/-- An "add" of that lease, as the control plane handles it. -/
theorem samplePc_add (h : sampleWorld.Represents t db) :
    ∃ e db', (endpoint sampleWorld.U).Decides db ⟨.add, samplePc⟩ e ∧
      (endpoint sampleWorld.U).Commits db ⟨.add, samplePc⟩ e db' ∧
      sampleWorld.Represents
        (t.add (sampleWorld.host samplePc) samplePc.client.ip) db' := by
  have hsvs : sampleWorld.Effective (Notice.body ⟨.add, samplePc⟩) := samplePc_serves
  obtain ⟨db', hdb', hrepr⟩ := h.add hsvs rfl (Notice.validate_ip _)
    (sampleWorld.newId_fresh db.issued)
  obtain ⟨e, he, hwri⟩ := exists_decision hdb'
  exact ⟨e, db', he, hwri, hrepr⟩

/-- An "expire" of it, which finds nothing to delete. -/
theorem samplePc_expire :
    ∃ e db', (endpoint sampleWorld.U).Decides Dhcp4.sampleDb ⟨.expire, samplePc⟩ e ∧
      (endpoint sampleWorld.U).Commits Dhcp4.sampleDb ⟨.expire, samplePc⟩ e db' ∧
      sampleWorld.Represents (Hosts.expire (fun _ => none) (sampleWorld.host samplePc)
        samplePc.client.ip) db' := by
  have hsvs : sampleWorld.Effective (Notice.body ⟨.expire, samplePc⟩) := samplePc_serves.effective
  obtain ⟨db', hdb', hrepr⟩ :=
    Dhcp4.sampleDb_represents.expire hsvs rfl (Notice.validate_ip _) []
  obtain ⟨e, he, hwri⟩ := exists_decision hdb'
  exact ⟨e, db', he, hwri, hrepr⟩

/-- An "expire" and then an "add", each delivered at once. -/
theorem add_delivered : ∃ s : Courier.State Unit ZoneDb Notice (Option (Job × Effect)),
    Courier.RunWhile (endpoint sampleWorld.U) maxDdnsAttempts sampleWorld.Orderly
      { db := Dhcp4.sampleDb } s ∧ s.Quiet ∧
    s.history = [⟨.add, samplePc⟩, ⟨.expire, samplePc⟩] ∧
    ∃ r ∈ s.db.records, sampleWorld.Owned (sampleWorld.host samplePc)
      samplePc.client.ip (sampleMac 1).text r := by
  obtain ⟨e₁, db₁, he₁, hwritten₁, hrepr₁⟩ := samplePc_expire
  obtain ⟨e₂, db₂, he₂, hwritten₂, -⟩ := samplePc_add hrepr₁
  obtain ⟨s₁, hrun₁, hquiet₁, rfl, hhist₁, hreq⟩ :=
    Courier.Mirror.exists_delivered (M := sampleWorld.mirror) (A := sampleWorld.Admits)
      (Courier.State.quiet_init Dhcp4.sampleDb) () (k := 0) rfl (.inl samplePc_serves)
      (fun _ _ hn => absurd hn not_mem_nil) he₁ hwritten₁
  obtain ⟨s₂, hrun₂, hquiet₂, -, hhist₂, -⟩ :=
    Courier.Mirror.exists_delivered (M := sampleWorld.mirror) (A := sampleWorld.Admits)
      hquiet₁ () (hreq 1 one_ne_zero) (.inl samplePc_serves)
      (fun _ n hn _ _ hne => by simp_all) he₂ hwritten₂
  rw [hhist₁] at hhist₂
  have hrun := hrun₁.trans hrun₂
  have hlast : LastAdd s₂.history samplePc := hhist₂ ▸ lastAdd_cons_self.mpr rfl
  exact ⟨s₂, hrun, hquiet₂, hhist₂, (records_keep_last_word Dhcp4.sampleDb_represents hrun hquiet₂
    (hhist₂ ▸ mem_cons_self) samplePc_serves (samplePc_owner .add)).mpr hlast⟩

/-- **An "add" fails and is kept, the "expire" of the lease is delivered, and then the
"add" is posted again**: the record stays. -/
theorem retry_overtakes :
    sampleWorld.Represents (fun _ => none) Dhcp4.sampleDb ∧
    sampleWorld.Serves samplePc ∧
    ∃ s : Courier.State Unit ZoneDb Notice (Option (Job × Effect)),
      Courier.RunWhile (endpoint sampleWorld.U) maxDdnsAttempts
        (fun _ l => ∀ i, l ≠ .lose i ∧ l ≠ .reschedule i) { db := Dhcp4.sampleDb } s ∧ s.Quiet ∧
      (∃ n ∈ s.history, n.lease = samplePc) ∧ ¬LastAdd s.history samplePc ∧
      ∃ r ∈ s.db.records, sampleWorld.Owned (sampleWorld.host samplePc)
        samplePc.client.ip (sampleMac 1).text r := by
  obtain ⟨e₁, db₁, he₁, hwritten₁, hrepr₁⟩ := samplePc_expire
  obtain ⟨e₂, db₂, he₂, hwritten₂, hrepr₂⟩ := samplePc_add hrepr₁
  have hsta : Courier.RunWhile (endpoint sampleWorld.U) maxDdnsAttempts
      (fun _ l => ∀ i : Unit, l ≠ .lose i ∧ l ≠ .reschedule i) { db := Dhcp4.sampleDb }
      { db := Dhcp4.sampleDb } := .refl
  -- the "add" fails
  have h₁ := hsta.tail (.emit (i := ()) (m := ⟨.add, samplePc⟩) rfl) (by simp)
  have h₂ := h₁.tail (.send (i := ()) (k := 0) rfl rfl) (by simp)
  have h₃ := h₂.tail (.abort (k := 0) rfl (by simp)) (by simp)
  have h₄ := h₃.tail (.fail (i := ()) rfl) (by simp)
  have h₅ := h₄.tail (.enqueue (i := ()) rfl rfl) (by simp)
  -- the "expire" is delivered
  have h₆ := h₅.tail (.emit (i := ()) (m := ⟨.expire, samplePc⟩) rfl) (by simp)
  have h₇ := h₆.tail (.send (i := ()) (k := 1) rfl rfl) (by simp)
  have h₈ := h₇.tail (.read (k := 1) rfl he₁) (by simp)
  have h₉ := h₈.tail (.commit (k := 1) rfl hwritten₁) (by simp)
  have hexp := h₉.tail (.respond (i := ()) rfl rfl) (by simp)
  -- and the "add" is posted again
  have h₁ := hexp.tail (.drain (i := ()) rfl (List.Subset.refl _)) (by simp)
  have h₂ := h₁.tail (.send (i := ()) (k := 2) rfl rfl) (by simp)
  have h₃ := h₂.tail (.read (k := 2) rfl he₂) (by simp)
  have h₄ := h₃.tail (.commit (k := 2) rfl hwritten₂) (by simp)
  have h₅ := h₄.tail (.respond (i := ()) rfl rfl) (by simp)
  have hret := h₅.tail (.dequeue (i := ()) rfl rfl) (by simp)
  refine ⟨Dhcp4.sampleDb_represents, samplePc_serves, _, hret, ⟨fun _ => rfl, ?_, rfl⟩,
    ⟨⟨.expire, samplePc⟩, mem_cons_self, rfl⟩, ?_, ?_⟩
  · intro k n p hk
    simp only [Courier.State.set, Courier.State.setRequest, update_idem, update_apply] at hk
    split at hk
    · cases hk
      exact .inl rfl
    · split at hk
      · cases hk
        exact .inl rfl
      · split at hk
        · cases hk
          exact .inr rfl
        · cases hk
  · intro hlast
    cases lastAdd_cons_self.mp hlast
  · refine hrepr₂.published_iff.mpr ⟨?_, ?_⟩
    · rw [Hosts.add_apply, if_pos rfl]
    · obtain ⟨o, -, ho, howne⟩ := Bridge.Effective.owner samplePc_serves
      have hown : some o = some (sampleMac 1).text := ho.symm.trans (samplePc_owner .add)
      exact howne.trans hown

end Control.Ddns
