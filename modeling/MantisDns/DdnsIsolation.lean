/-
In whose zones a lease event writes.

The zone of an event is the one that its scope names, and the scope API stores
that name as it comes: no zone need exist under it, and none of the scope's
tenant.

* `ddns_isolated` — as long as every write of a scope names a zone of the
  scope's own tenant, the events of a tenant's scopes leave the records in the
  zones of all others;
* `foreign_zone_written` — an operator of one tenant has a record put into a zone
  of another.
-/
import MantisDns.DdnsOwnership

open Text Table Option List

namespace Control.Zones

variable {db db' : ZoneDb} {tenantId zoneId : Str} {U : CaseMap} {f : Family} {scope : DhcpScope}

/-! ### Scopes and the zones they name -/

/-- There is a zone of this id, and it is the tenant's. -/
def ZoneDb.HasZone (db : ZoneDb) (tenantId zoneId : Str) : Prop :=
  ∃ z ∈ db.zones, z.id = zoneId ∧ z.tenantId = some tenantId

/-- A scope write that sets `ddns_zone_id` names a zone of the scope's tenant. -/
def Request.NamesOwnZone (db : ZoneDb) : Request → Prop
  | .createScope _ _ _ p => ∀ zoneId ∈ p.ddnsZoneId, db.HasZone p.tenantId zoneId
  | .updateScope f u scopeId p => ∀ scope, getScope f db u scopeId = some scope →
      ∀ zoneId, p.ddnsZoneId = .value zoneId → db.HasZone scope.tenantId zoneId
  | _ => True

/-- The id was given to a zone of the tenant, which may be gone. -/
structure ZoneDb.Bound (db : ZoneDb) (tenantId zoneId : Str) : Prop where
  issued : zoneId ∈ db.issued
  tenant : ∀ z ∈ db.zones, z.id = zoneId → z.tenantId = some tenantId

theorem ZoneDb.Bound.evolves (h : db.Bound tenantId zoneId) (hdb : db.Evolves db') :
    db'.Bound tenantId zoneId := by
  refine ⟨hdb.issued h.issued, ?_⟩
  rintro z' hz' rfl
  obtain ⟨z, hz, hid, hten⟩ := hdb.zone z' hz' h.issued
  rw [← hten]
  exact h.tenant z hz hid

theorem ZoneDb.HasZone.bound (h : db.HasZone tenantId zoneId) (hwf : db.WellFormed U)
    (hkey : db.Keyed) :
    db.Bound tenantId zoneId := by
  obtain ⟨z, hz, rfl, hten⟩ := h
  refine ⟨hwf.zoneIssued z hz, fun z' hz' hid => ?_⟩
  rw [hkey.zones z' hz' z hz hid, hten]

/-- Every scope names a zone of its tenant, or one that is gone. -/
def ZoneDb.ScopesBound (db : ZoneDb) : Prop :=
  ∀ f, ∀ scope ∈ db.scopesOf f, ∀ zoneId ∈ scope.ddnsZoneId, db.Bound scope.tenantId zoneId

theorem ZoneDb.mem_scopesOf_withScopes {rows : List DhcpScope} {g : Family}
    (h : scope ∈ (db.withScopes rows f).scopesOf g) :
    g = f ∧ scope ∈ rows ∨ scope ∈ db.scopesOf g := by
  cases f <;> cases g
  · exact .inl ⟨rfl, h⟩
  · exact .inr h
  · exact .inr h
  · exact .inl ⟨rfl, h⟩

theorem ZoneChange.scopesOf (h : ZoneChange U db db') (f : Family) :
    db'.scopesOf f = db.scopesOf f := by
  cases f with
  | v4 => exact h.scopes
  | v6 => exact h.scopes6

theorem getScope_mem {u : User} {scopeId : Str} (h : getScope f db u scopeId = some scope) :
    scope ∈ db.scopesOf f :=
  mem_of_find?_eq_some (filter_eq_some_iff.mp h).1

theorem ScopeUpdate.apply_zone {p : ScopeUpdate} {row : DhcpScope} (h : p.apply scope = some row) :
    row.tenantId = scope.tenantId ∧ row.ddnsZoneId = p.ddnsZoneId.nullable scope.ddnsZoneId := by
  simp only [ScopeUpdate.apply, bind_eq_bind, bind_eq_some_iff, Option.pure_def, some_inj] at h
  obtain ⟨_, -, _, -, rfl⟩ := h
  exact ⟨rfl, rfl⟩

theorem scopes_apply {P : Python} {req : Request} (h : db.apply P req = some db')
    (hreq : req.NamesOwnZone db) (hsc : scope ∈ db'.scopesOf f)
    (hzone : zoneId ∈ scope.ddnsZoneId) :
    db.HasZone scope.tenantId zoneId ∨
      ∃ scope' ∈ db.scopesOf f, scope'.tenantId = scope.tenantId ∧ zoneId ∈ scope'.ddnsZoneId := by
  have hold (hsc : scope ∈ db.scopesOf f) :
      ∃ scope' ∈ db.scopesOf f, scope'.tenantId = scope.tenantId ∧ zoneId ∈ scope'.ddnsZoneId :=
    ⟨scope, hsc, rfl, hzone⟩
  have hzs (hdb : ZoneChange P.toCaseMap db db') : scope ∈ db.scopesOf f :=
    hdb.scopesOf f ▸ hsc
  -- a scope request may name a new zone; all others leave the scopes alone
  cases req with
  | createZone => exact .inr (hold (hzs (createZone_change h)))
  | updateZone => exact .inr (hold (hzs (updateZone_change h)))
  | deleteZone => exact .inr (hold (hzs (deleteZone_change h)))
  | createRecord => exact .inr (hold (hzs (createRecord_change h)))
  | updateRecord => exact .inr (hold (hzs (updateRecord_change h)))
  | deleteRecord => exact .inr (hold (hzs (deleteRecord_change h)))
  | createScope g u id p =>
    rw [ZoneDb.apply, createScope] at h
    obtain ⟨-, h⟩ := ite_none_right_eq_some.mp h
    rw [← some_inj.mp h] at hsc
    have hsc : scope ∈ (db.withScopes (db.scopesOf g ++ [p.row id]) g).scopesOf f := by
      cases f <;> exact hsc
    rcases ZoneDb.mem_scopesOf_withScopes hsc with ⟨rfl, hsc⟩ | hsc
    · rcases mem_append.mp hsc with hsc | hsc
      · exact .inr (hold hsc)
      · rw [mem_singleton.mp hsc] at hzone ⊢
        exact .inl (hreq zoneId hzone)
    · exact .inr (hold hsc)
  | updateScope g u scopeId p =>
    rw [ZoneDb.apply, updateScope] at h
    split at h
    · simp at h
    rename_i old hget
    split at h
    · simp at h
    rename_i row hrow
    split at h
    · rw [← some_inj.mp h] at hsc
      rcases ZoneDb.mem_scopesOf_withScopes hsc with ⟨rfl, hsc⟩ | hsc
      · obtain ⟨x, hx, heq⟩ := List.mem_map.mp hsc
        split_ifs at heq
        · -- the row that was written
          obtain ⟨hten, hzon⟩ := ScopeUpdate.apply_zone hrow
          rw [← heq, hzon] at hzone
          rw [← heq, hten]
          cases hp : p.ddnsZoneId with
          | unset =>
            exact .inr ⟨old, getScope_mem hget, rfl, by simpa [hp, Patch.nullable] using hzone⟩
          | null => simp [hp, Patch.nullable] at hzone
          | value v =>
            have hv : v = zoneId := by simpa [hp, Patch.nullable] using hzone
            exact .inl (hreq old hget zoneId (hp.trans (by rw [hv])))
        · exact .inr (hold (heq ▸ hx))
      · exact .inr (hold hsc)
    · simp at h
  | deleteScope =>
    rw [ZoneDb.apply, deleteScope] at h
    obtain ⟨-, h⟩ := ite_none_right_eq_some.mp h
    rw [← some_inj.mp h] at hsc
    rcases ZoneDb.mem_scopesOf_withScopes hsc with ⟨rfl, hsc⟩ | hsc
    · exact .inr (hold (mem_of_mem_filter hsc))
    · exact .inr (hold hsc)

end Control.Zones

namespace Control.Ddns

open Zones Node.Zone

variable {ι : Type} [DecidableEq ι] {P : Python} {events : ι → DhcpEvent} {s t : State ι}

/-! ### Runs in which scopes name their own zones -/

/-- A step of an event, or a request that names no zone of another tenant. -/
inductive OwnZoneStep (P : Python) (events : ι → DhcpEvent) (s : State ι) : State ι → Prop
  | request {req : Request} {db : ZoneDb} (h : s.db.apply P req = some db)
      (hreq : req.NamesOwnZone s.db) :
    OwnZoneStep P events s { s with db }
  | event {i : ι} {t : State ι} (h : Step P events s t) (hi : t.phase i ≠ s.phase i) :
    OwnZoneStep P events s t

def OwnZoneRun (P : Python) (events : ι → DhcpEvent) : State ι → State ι → Prop :=
  Relation.ReflTransGen (OwnZoneStep P events)

theorem OwnZoneStep.step (h : OwnZoneStep P events s t) : Step P events s t := by
  cases h with
  | request h => exact .request h
  | event h => exact h

theorem OwnZoneRun.run (h : OwnZoneRun P events s t) : Run P events s t :=
  Relation.ReflTransGen.mono (fun _ _ => OwnZoneStep.step) s t h

/-- The job of an event in flight. -/
def Phase.job : Phase → Option Job
  | .idle => none
  | .scoped job => some job
  | .zoned job _ _ _ => some job
  | .ready job _ _ _ _ => some job
  | .done => none

/-- Scopes and events in flight name zones of their own tenant only. -/
structure Isolated (s : State ι) : Prop where
  scopes : s.db.ScopesBound
  jobs : ∀ i, ∀ job ∈ (s.phase i).job, s.db.Bound job.tenantId job.zoneId

omit [DecidableEq ι] in
theorem isolated_init (tenants : List Str) : Isolated (init tenants : State ι) := by
  refine ⟨fun f scope hsc => ?_, fun i job hjob => absurd hjob (by simp [init, Phase.job])⟩
  cases f <;> simp [init, ZoneDb.fresh, ZoneDb.scopesOf] at hsc

theorem Isolated.set (h : Isolated s) {i : ι} {p : Phase}
    (hp : ∀ job ∈ p.job, s.db.Bound job.tenantId job.zoneId) : Isolated (s.set i p) :=
  { h with
    jobs := (Function.forall_update_iff s.phase fun _ q =>
      ∀ job ∈ q.job, s.db.Bound job.tenantId job.zoneId).mpr ⟨hp, fun j _ => h.jobs j⟩ }

omit [DecidableEq ι] in
theorem Isolated.evolves (h : Isolated s) {db : ZoneDb} (hdb : s.db.Evolves db)
    (hscs : ∀ f, ∀ scope ∈ db.scopesOf f, ∀ zoneId ∈ scope.ddnsZoneId,
      s.db.Bound scope.tenantId zoneId) : Isolated { s with db } :=
  ⟨fun f scope hsc zoneId hzone => (hscs f scope hsc zoneId hzone).evolves hdb,
    fun i job hjob => (h.jobs i job hjob).evolves hdb⟩

theorem Step.isolated (hstep : Step P events s t) {i : ι} (hi : t.phase i ≠ s.phase i)
    (h : Isolated s) : Isolated t := by
  cases hstep with
  | request => exact absurd rfl hi
  | scope _ hjob =>
    -- the job takes its zone and its tenant from the scope
    refine h.set fun job' hjob' => ?_
    obtain ⟨⟨scope, hsc, hzone, hten⟩, -⟩ := jobOf_eq_some hjob
    rw [← some_inj.mp hjob', ← hten]
    exact h.scopes _ scope hsc _ hzone
  | ignore | refuse | rollback => exact h.set fun job hjob => absurd hjob (by simp [Phase.job])
  | @zone j job _ _ _ hph _ _ _ | @rows j job _ _ _ _ hph _ =>
    have hbd := h.jobs j
    rw [hph] at hbd
    exact h.set hbd
  | @commit j job _ _ _ _ _ db hph hdb =>
    have hdone : Isolated (s.set j .done) := h.set fun job hjob => absurd hjob (by simp [Phase.job])
    rcases Job.apply_change (U := P.toCaseMap) hdb with rfl | hcha
    · exact hdone
    · exact hdone.evolves hcha.change.evolves fun f scope hsc zoneId hzone =>
        h.scopes f scope (hcha.scopesOf f ▸ hsc) zoneId hzone

theorem OwnZoneStep.isolated (hstep : OwnZoneStep P events s t) (hinv : Inv P events s)
    (h : Isolated s) : Isolated t := by
  cases hstep with
  | event hstep hi => exact hstep.isolated hi h
  | request hdb hreq =>
    -- a zone keeps its tenant, so what was bound before the request stays bound
    refine h.evolves (apply_change hdb).evolves fun f scope hsc zoneId hzone => ?_
    rcases scopes_apply hdb hreq hsc hzone with hown | ⟨scope', hsc', hten, hzone'⟩
    · exact hown.bound hinv.wellFormed hinv.keyed
    · exact hten ▸ h.scopes f scope' hsc' zoneId hzone'

theorem OwnZoneRun.isolated {tenants : List Str} (hrun : OwnZoneRun P events (init tenants) s) :
    Isolated s := by
  induction hrun with
  | refl => exact isolated_init tenants
  | tail hrun hstep ih =>
    exact hstep.isolated ((OwnZoneRun.run hrun).inv (inv_init tenants)) ih

/-- **Isolation of tenants**: while scope writes name zones of the scope's own
tenant, a step of an event for a scope of one tenant leaves the zones, and the
records in every zone that is not this tenant's. -/
theorem ddns_isolated {tenants : List Str} (hrun : OwnZoneRun P events (init tenants) s)
    (hstep : Step P events s t) {i : ι} (hi : t.phase i ≠ s.phase i) :
    t.db.zones = s.db.zones ∧ ∀ job ∈ (s.phase i).job, ∀ z ∈ s.db.zones,
      z.tenantId ≠ some job.tenantId → t.db.recordsOf z = s.db.recordsOf z := by
  rcases hstep.event_cases hi with heq | ⟨job, zone, name, seen, effect, newId, hph, hdb⟩
  · rw [heq]
    exact ⟨rfl, fun _ _ _ _ _ => rfl⟩
  have hkn := ((OwnZoneRun.run hrun).inv (inv_init tenants)).knows i
  have hbd := (OwnZoneRun.isolated hrun).jobs i
  rw [hph] at hkn hbd ⊢
  obtain ⟨-, -, -, hhol⟩ := hkn
  refine ⟨(hhol.filter_apply hdb (p := fun _ => false) fun _ _ => rfl).1, ?_⟩
  intro job' hjob z hz hten
  cases hjob
  -- the job's zone is its tenant's
  have hne : z.id ≠ job.zoneId := fun hid => hten ((hbd job rfl).tenant z hz hid)
  refine (hhol.filter_apply hdb (p := fun r => decide (r.zoneId = z.id)) fun r hr => ?_).2
  rw [hr.zoneId, decide_eq_false_iff_not]
  exact hne.symm

/-! Two tenants with a zone each. -/

def sampleForeigner : User := ⟨.operator, some "globex"⟩

/-- Each tenant's operator creates its zone. -/
def sampleZones : List Request :=
  [.createZone sampleOperator "z1"
      ⟨"acme", "corp.lab", .«local», true, 300, none⟩,
    .createZone sampleForeigner "z2"
      ⟨"globex", "globex.lab", .«local», true, 300, none⟩]

/-- A scope of `acme` whose leases go to this zone. -/
def scopeFor (zoneId : Str) : Request :=
  .createScope .v4 sampleOperator "s1" ⟨"acme", true, some zoneId, 300⟩

/-- A scope is created when its zone is there. -/
def advanceOwn (P : Python) (events : ℕ → DhcpEvent) (s : State ℕ) : Move ℕ → Option (State ℕ)
  | .request (.createScope f u id p) =>
    if p.ddnsZoneId.all (fun zoneId => s.db.zones.any fun z =>
      z.id = zoneId ∧ z.tenantId = some p.tenantId) then
      s.advance P events (.request (.createScope f u id p))
    else none
  | .request (.updateScope ..) => none
  | m => s.advance P events m

theorem ownZoneStep_of_advanceOwn {events : ℕ → DhcpEvent} {s t : State ℕ} {m : Move ℕ}
    (h : advanceOwn P events s m = some t) : OwnZoneStep P events s t := by
  cases m with
  | go =>
    obtain ⟨hstep, hi⟩ := step_of_go h
    exact .event hstep hi
  | request req =>
    cases req with
    | createScope =>
      obtain ⟨hzone, h⟩ := ite_none_right_eq_some.mp h
      obtain ⟨db, hdb, rfl⟩ := map_eq_some_iff.mp h
      refine .request hdb fun zoneId hid => ?_
      rw [mem_def.mp hid, all_some] at hzone
      obtain ⟨z, hz, hown⟩ := List.any_eq_true.mp hzone
      exact ⟨z, hz, of_decide_eq_true hown⟩
    | updateScope => simp [advanceOwn] at h
    | _ =>
      obtain ⟨db, hdb, rfl⟩ := map_eq_some_iff.mp h
      exact .request hdb trivial

theorem ddns_isolated_acme :
    ∃ s t : State ℕ, OwnZoneRun samplePython (fun _ => sampleLease .add "laptop".toList)
        (init ["acme".toList, "globex".toList]) s ∧
      Step samplePython (fun _ => sampleLease .add "laptop".toList) s t ∧
      t.db.records.length = 1 ∧ (s.phase 0).job.any (·.tenantId = "acme".toList) ∧
      ∃ z ∈ s.db.zones, z.tenantId = some "globex".toList ∧
        t.db.recordsOf z = s.db.recordsOf z := by
  let events : ℕ → DhcpEvent := fun _ => sampleLease .add "laptop"
  obtain ⟨s, hrun, t, hadv, hlen, ⟨job, hjob, hten⟩, z, hz, hfor⟩ :=
    Machine.exists_of_foldlM (R := OwnZoneStep samplePython events)
      (f := advanceOwn samplePython events) ownZoneStep_of_advanceOwn (s := init ["acme", "globex"])
      (P := fun s => ∃ t, s.advance samplePython events (.go 0 "r1") = some t ∧
        t.db.records.length = 1 ∧ (∃ job, (s.phase 0).job = some job ∧ job.tenantId = "acme") ∧
        ∃ z ∈ s.db.zones, z.tenantId = some "globex".toList)
      (sampleZones.map .request ++ [.request (scopeFor "z1"), .go 0, .go 0, .go 0])
      (by decide +kernel)
  obtain ⟨hstep, hdone⟩ := step_of_go hadv
  refine ⟨s, t, hrun, hstep, hlen, ?_, z, hz, hfor, ?_⟩
  · rw [hjob, any_some, hten]
    decide
  · refine (ddns_isolated hrun hstep (i := 0) hdone).2 job hjob z hz ?_
    rw [hfor, hten]
    decide

/-- The operator of `acme` has leases go to the zone of `globex`, and the event of
the scope puts a record there. -/
theorem foreign_zone_written :
    ∃ (events : ℕ → DhcpEvent) (s t : State ℕ),
      Run samplePython events (init ["acme".toList, "globex".toList]) s ∧
      Step samplePython events s t ∧ t.phase 0 ≠ s.phase 0 ∧
      (∀ scope ∈ s.db.scopes, scope.tenantId = "acme".toList) ∧
      (s.phase 0).job.any (·.tenantId = "acme".toList) ∧
      ∃ z ∈ s.db.zones, z.tenantId = some "globex".toList ∧
        t.db.recordsOf z ≠ s.db.recordsOf z := by
  let events : ℕ → DhcpEvent := fun _ => sampleLease .add "laptop"
  obtain ⟨s, hrun, t, hadv, hfor⟩ := Machine.exists_of_foldlM
    (R := Step samplePython events) (f := State.advance samplePython events) step_of_advance
    (s := init ["acme", "globex"])
    (P := fun s => ∃ t, s.advance samplePython events (.go 0 "r1") = some t ∧
      (∀ scope ∈ s.db.scopes, scope.tenantId = "acme".toList) ∧
      (s.phase 0).job.any (·.tenantId = "acme".toList) ∧
      ∃ z ∈ s.db.zones, z.tenantId = some "globex".toList ∧
        t.db.recordsOf z ≠ s.db.recordsOf z)
    (sampleZones.map .request ++ [.request (scopeFor "z2"), .go 0, .go 0, .go 0])
    (by decide +kernel)
  obtain ⟨hstep, hdone⟩ := step_of_go hadv
  exact ⟨events, s, t, hrun, hstep, hdone, hfor⟩

end Control.Ddns
