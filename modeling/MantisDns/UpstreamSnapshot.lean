/-
Upstream bundles while the configuration changes.

`get_upstream_bundle` takes its seven statements from the latest committed
state each; every mutation of the API commits its rows together with a higher
revision.  The revision is the last thing a response reads.

* `upstream_snapshots` — while no mutation commits between the first and the
  last statement of a response, responses of one version are equal, and a node
  that refuses equal versions holds the content of its version;
* `stale_content_new_version` — a commit just before the revision is read gives
  the old content under the new version, which the node then keeps.
-/
import MantisDns.ReadCommitted
import MantisDns.UpstreamBundle
import MantisDns.VersionedStore

open Text Table Option List ReadCommitted

namespace Control.Upstream

/-! ### The statements of a response -/

/-- The statements of `get_upstream_bundle`. -/
inductive Statement
  | routes
  | pools
  | members
  | loaded
  | present
  | policy
  | version

/-- One statement, on the committed tables and with what was read before. -/
def Reads.exec (collate : Collation) (tenantId : Str) (db : UpstreamDb) (r : Reads) :
    Statement → Reads
  | .routes => { r with routes := selectRoutes collate db tenantId }
  | .pools => { r with pools := selectPools db (r.routes.map (·.poolId)) }
  | .members => { r with members := selectMembers db (r.pools.map (·.id)) }
  | .loaded => { r with loaded := selectResolvers db (r.members.map (·.resolverId)) }
  | .present =>
    { r with present := (selectResolvers db (enabledResolverIds r.loaded r.members)).map (·.id) }
  | .policy => { r with policy := selectPolicy db tenantId }
  | .version => { r with version := bundleVersion db }

/-- The handler as a reader. -/
def bundleReader (collate : Collation) (tenantId : Str) :
    Reader UpstreamDb Statement Reads where
  program := [.routes, .pools, .members, .loaded, .present, .policy, .version]
  start := ⟨[], [], [], [], [], none, 0⟩
  exec := Reads.exec collate tenantId

theorem readAll_bundleReader (collate : Collation) (tenantId : Str) (db : UpstreamDb) :
    (bundleReader collate tenantId).readAll db = readAll collate db tenantId := rfl

/-- The commit of an accepted request. -/
def Commit (db db' : UpstreamDb) : Prop := ∃ req, db.apply req = some db'

theorem bumpBundleVersion_version {db db' : UpstreamDb} (h : bumpBundleVersion db = some db') :
    bundleVersion db' = bundleVersion db + 1 := by
  rw [bumpBundleVersion] at h
  split at h
  · rename_i hrev
    rw [← some_inj.mp h, bundleVersion, bundleVersion, hrev]
    rfl
  · rename_i v hrev
    obtain ⟨-, h⟩ := ite_none_right_eq_some.mp h
    rw [← some_inj.mp h, bundleVersion, bundleVersion, hrev]
    rfl

theorem apply_bump {db db' : UpstreamDb} {req : Request} (h : db.apply req = some db') :
    ∃ d, bumpBundleVersion d = some db' ∧ d.revision = db.revision := by
  -- a branch that accepts ends in the bump of the written tables, the others in `none`
  cases req <;>
    simp only [UpstreamDb.apply, createResolver, updateResolver, deleteResolver, createPool,
      updatePool, deletePool, upsertPoolMember, removePoolMember, createRoute, updateRoute,
      deleteRoute, upsertTenantPolicy] at h <;>
    repeat' split at h
  all_goals first
    | exact ⟨_, h, rfl⟩
    | simp at h

theorem Commit.version_lt {db db' : UpstreamDb} (h : Commit db db') :
    bundleVersion db < bundleVersion db' := by
  obtain ⟨req, hreq⟩ := h
  obtain ⟨d, hbump, hrev⟩ := apply_bump hreq
  have hv : bundleVersion d = bundleVersion db := by rw [bundleVersion, bundleVersion, hrev]
  have := bumpBundleVersion_version hbump
  omega

/-! ### Responses of one version -/

variable {ι : Type} [DecidableEq ι]

/-- The control plane while it answers the requests `ι`. -/
abbrev Plane (ι : Type) := State ι UpstreamDb Statement Reads

/-- The response to request `i`, once its last statement has run. -/
def response (tenantOf : ι → Str) (s : Plane ι) (i : ι) : Option BundlePayload :=
  match s.phase i with
  | .reading _ [] reads => assemble (tenantOf i) reads
  | _ => none

/-- The version under which a node holds a bundle. -/
def BundlePayload.nodeVersion (b : BundlePayload) : UInt64 := .ofNat b.version

/-- What a node holds after it was offered these bundles in this order. -/
def heldAfter (offered : List BundlePayload) : Option BundlePayload :=
  offered.foldl (fun current b => newer BundlePayload.nodeVersion b current) none

/-- **A version determines the content**: responses for one tenant with the same
version are equal, so a node that is offered any of them holds, of those with
the version it holds, exactly the content. -/
structure VersionsDetermine (tenantOf : ι → Str) (s : Plane ι) : Prop where
  unique : ∀ i j b b', tenantOf i = tenantOf j → response tenantOf s i = some b →
    response tenantOf s j = some b' → b.version = b'.version → b = b'
  held : ∀ tenantId offered h,
    (∀ b ∈ offered, ∃ i, tenantOf i = tenantId ∧ response tenantOf s i = some b) →
    heldAfter offered = some h →
    ∀ b ∈ offered, b.nodeVersion ≤ h.nodeVersion ∧ (b.nodeVersion = h.nodeVersion → b = h)

theorem heldAfter_concat (offered : List BundlePayload) (b : BundlePayload) :
    heldAfter (offered ++ [b]) = newer BundlePayload.nodeVersion b (heldAfter offered) := by
  rw [heldAfter, foldl_append]
  rfl

theorem heldAfter_eq_none {offered : List BundlePayload} (h : heldAfter offered = none) :
    offered = [] := by
  cases offered using List.reverseRecOn with
  | nil => rfl
  | append_singleton offered =>
    rw [heldAfter_concat] at h
    cases hprev : heldAfter offered with
    | none => exact absurd (hprev ▸ h) (by simp [newer])
    | some =>
      rw [hprev, newer] at h
      split at h <;> simp at h

theorem heldAfter_spec {offered : List BundlePayload} {h : BundlePayload}
    (hheld : heldAfter offered = some h) :
    h ∈ offered ∧ ∀ b ∈ offered, b.nodeVersion ≤ h.nodeVersion := by
  induction offered using List.reverseRecOn generalizing h with
  | nil => simp [heldAfter] at hheld
  | append_singleton offered b ih =>
    rw [heldAfter_concat] at hheld
    cases hprev : heldAfter offered with
    | none =>
      rw [hprev, newer, some_inj] at hheld
      subst hheld
      rw [heldAfter_eq_none hprev]
      exact ⟨by simp, forall_concat (by simp) (UInt64.le_refl _)⟩
    | some c =>
      obtain ⟨hc, hle⟩ := ih hprev
      rw [hprev, newer] at hheld
      split at hheld
      · -- not newer: the store keeps what it has
        rename_i hbc
        cases hheld
        exact ⟨mem_append_left _ hc, forall_concat hle hbc⟩
      · rename_i hbc
        cases hheld
        have hcb : c.nodeVersion ≤ b.nodeVersion := (UInt64.le_total _ _).resolve_left hbc
        refine ⟨by simp, forall_concat (fun d hd => ?_) (UInt64.le_refl _)⟩
        exact UInt64.le_trans (hle d hd) hcb

section Snapshots

variable {tenants : List Str} {collate : Collation} {tenantOf : ι → Str} {s : Plane ι}

theorem response_snapshot
    (h : QuietRun (fun i => bundleReader collate (tenantOf i)) Commit
      (init (.fresh tenants)) s)
    {i : ι} {b : BundlePayload} (hb : response tenantOf s i = some b) :
    ∃ d ∈ s.log, getUpstreamBundle collate d (tenantOf i) = some b ∧
      b.version = bundleVersion d := by
  rw [response] at hb
  split at hb
  · rename_i past reads hph
    obtain ⟨d, hd, hrea⟩ := reads_of_quiet_run h hph
    rw [readAll_bundleReader] at hrea
    rw [hrea] at hb
    exact ⟨d, hd, hb, (assemble_eq_some hb).1⟩
  · simp at hb

theorem response_version_lt
    (h : QuietRun (fun i => bundleReader collate (tenantOf i)) Commit
      (init (.fresh tenants)) s)
    {i : ι} {b : BundlePayload} (hb : response tenantOf s i = some b) : b.version < 2 ^ 64 := by
  obtain ⟨d, hd, hget, -⟩ := response_snapshot h hb
  -- every committed state is well formed, so its version fits the column
  have hwf : d.WellFormed := (forall_log_of_run (fresh_wellFormed tenants)
    (fun d d' hwf ⟨req, hreq⟩ => hwf.apply hreq) h.run).2 d hd
  have := (export_ok hwf hget).version
  omega

/-- **Upstream bundle snapshots**: in every interleaving of responses and
mutations in which no mutation commits between the first and the last statement
of a response, a version determines the content. -/
theorem upstream_snapshots
    (h : QuietRun (fun i => bundleReader collate (tenantOf i)) Commit
      (init (.fresh tenants)) s) :
    VersionsDetermine tenantOf s := by
  have huni : ∀ i j b b', tenantOf i = tenantOf j → response tenantOf s i = some b →
      response tenantOf s j = some b' → b.version = b'.version → b = b' := by
    intro i j b b' hten hb hb' hv
    obtain ⟨d, hd, hget, hdv⟩ := response_snapshot h hb
    obtain ⟨d', hd', hget', hdv'⟩ := response_snapshot h hb'
    have hdd : d = d' := eq_of_version_eq (fun _ _ hc => Commit.version_lt hc) h.run
      hd hd' (by rw [← hdv, ← hdv', hv])
    rw [← hdd, ← hten, hget, some_inj] at hget'
    exact hget'
  refine ⟨huni, fun tenantId offered held hoff hheld b hb => ?_⟩
  obtain ⟨hmem, hle⟩ := heldAfter_spec hheld
  refine ⟨hle b hb, fun hv => ?_⟩
  obtain ⟨i, hi, hbi⟩ := hoff b hb
  obtain ⟨j, hj, hbj⟩ := hoff held hmem
  -- below `2 ^ 64` the node's version is the revision
  have hv' : b.version = held.version := by
    have := congrArg UInt64.toNat hv
    rwa [BundlePayload.nodeVersion, BundlePayload.nodeVersion, UInt64.toNat_ofNat_of_lt'
      (response_version_lt h hbi), UInt64.toNat_ofNat_of_lt' (response_version_lt h hbj)] at this
  exact huni i j b held (hi.trans hj.symm) hbi hbj hv'

end Snapshots

/-! ### Two requests of one tenant -/

/-- The operator puts a TTL override on the route. -/
def sampleChange : Request :=
  .updateRoute "acme" "t1" { nxdomainTtlOverride := .value 60 }

abbrev sampleReaders : Fin 2 → Reader UpstreamDb Statement Reads :=
  fun _ => bundleReader (fun _ _ => true) "acme"

theorem quietRun_requests {reqs : List Request} {db d : UpstreamDb} {log : List UpstreamDb}
    (h : db.requests reqs = some d) : ∃ log', QuietRun sampleReaders Commit
      ⟨db, log, fun _ => .idle⟩ ⟨d, log', fun _ => .idle⟩ := by
  induction reqs generalizing db log with
  | nil => exact some_inj.mp h ▸ ⟨log, .refl⟩
  | cons req reqs ih =>
    obtain ⟨db', hreq, hrest⟩ := bind_eq_some_iff.mp h
    obtain ⟨log', hrun⟩ := @ih db' (db' :: log) hrest
    exact ⟨log', .head ⟨.commit ⟨req, hreq⟩, fun _ _ => id⟩ hrun⟩

theorem upstream_snapshots_apart :
    ∃ s : Plane (Fin 2), QuietRun sampleReaders Commit
        (init (.fresh ["acme"])) s ∧
      (response (fun _ => "acme") s 0).map (·.version) = some 4 ∧
      (response (fun _ => "acme") s 1).map (·.version) = some 5 ∧
      VersionsDetermine (fun _ => "acme") s := by
  obtain ⟨d, hd, d', hd', hfst, hsec⟩ : ∃ d, Node.Upstream.sampleUpstream 853 none = some d ∧
      ∃ d', d.apply sampleChange = some d' ∧
        (assemble "acme" (readAll (fun _ _ => true) d "acme")).map (·.version) = some 4 ∧
        (assemble "acme" (readAll (fun _ _ => true) d' "acme")).map (·.version) = some 5 := by
    decide +kernel
  -- the first response, then the change, then the second response
  obtain ⟨log, hrun⟩ := quietRun_requests hd
  have hrun := hrun.trans (quietRun_start (i := 0) rfl (append_nil _).symm)
  have hrun := hrun.tail ⟨.commit ⟨sampleChange, hd'⟩,
    fun _ => Fin.forall_fin_two.mpr ⟨fun h => And.right h rfl, id⟩⟩
  have hrun := hrun.trans (quietRun_start (i := 1) rfl (append_nil _).symm)
  exact ⟨_, hrun, hfst, hsec, upstream_snapshots hrun⟩

/-- The change commits between the tenant policy and the revision of the first
response: the second response has the same version and the new route, and the
node keeps the first. -/
theorem stale_content_new_version :
    ∃ s : Plane (Fin 2), Run sampleReaders Commit
        (init (.fresh ["acme"])) s ∧
      (∃ b b', response (fun _ => "acme") s 0 = some b ∧
        response (fun _ => "acme") s 1 = some b' ∧
        b.version = b'.version ∧ b ≠ b' ∧ heldAfter [b, b'] = some b) ∧
      ¬ VersionsDetermine (fun _ => "acme") s := by
  obtain ⟨d, hd, d', hd', b, hb, b', hb', hver, hne, hheld⟩ :
      ∃ d, Node.Upstream.sampleUpstream 853 none = some d ∧ ∃ d', d.apply sampleChange = some d' ∧
        ∃ b, assemble "acme" { readAll (fun _ _ => true) d "acme" with
          version := bundleVersion d' } = some b ∧
        ∃ b', assemble "acme" (readAll (fun _ _ => true) d' "acme") = some b' ∧
          b.version = b'.version ∧ b ≠ b' ∧ heldAfter [b, b'] = some b := by
    decide +kernel
  -- the change comes after six statements of the first response, before the revision
  obtain ⟨log, hrun⟩ := quietRun_requests hd
  have hrun := hrun.run.trans (quietRun_start (i := 0) rfl (rfl : _ =
    [Statement.routes, .pools, .members, .loaded, .present, .policy] ++ [.version])).run
  have hrun := (hrun.tail (.commit ⟨sampleChange, hd'⟩)).tail (.read (i := 0) rfl)
  have hrun := hrun.trans
    (quietRun_start (i := 1) rfl (append_nil _).symm).run
  exact ⟨_, hrun, ⟨b, b', hb, hb', hver, hne, hheld⟩,
    fun hall => hne (hall.unique 0 1 b b' rfl hb hb' hver)⟩

end Control.Upstream
