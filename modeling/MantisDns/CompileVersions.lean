/-
Versions of compiled bundles: `compile_bundle` in `api/routers.py`.

A call reads the policy row, reads what the compiler needs in further
statements, signs a bundle for the version after the one it read, writes the
bundle and then the group's `latest` pointer, and commits the new version.
Statements see the latest committed state and no lock is held between them, so
calls, policy updates and edits interleave at every step.

* `versions_identify_content` — while the calls do not overlap and none fails
  once it has signed, a version names one bundle, the pointer never goes back,
  and it ends at the newest committed version;
* `overlapping_compiles` — two calls that overlap sign different bundles under
  one version, and the slower one moves the pointer back.
-/
import MantisDns.CategoryBlocking

open Text Function List
open Option hiding join

namespace Control.Compile

/-! ### Signing and storing -/

/-- The signing key, the serializer and the digest of the content address. -/
structure Signing where
  keyId : Str
  serializeToString : Pb.Bundle → List UInt8
  sign : List UInt8 → List UInt8
  sha256Hex : List UInt8 → Str

/-- `sign_bundle`, as the message whose bytes it returns. -/
def signBundle (k : Signing) (bundle : Pb.Bundle) : Pb.Bundle :=
  let unsigned := { bundle with signature := [], signerKeyId := k.keyId }
  { unsigned with signature := k.sign (k.serializeToString unsigned) }

/-- `content_address` of the signed bytes. -/
def contentAddress (k : Signing) (signed : Pb.Bundle) : Str :=
  k.sha256Hex (k.serializeToString signed)

@[simp] theorem signBundle_version (k : Signing) (b : Pb.Bundle) :
    (signBundle k b).version = b.version := rfl

/-! ### The state of a group -/

/-- The committed rows: the group's policy with its `bundle_version`, and the
other tables the compiler reads. -/
structure Committed where
  policy : Policy
  bundleVersion : ℕ
  tables : Db

/-- The body of `PUT /groups/{group_id}/policy`. -/
structure PolicyUpsert where
  onLoadFailure : LoadFailure
  categoryToggles : List CategoryToggle
  overrides : List PolicyOverride

/-- What `upsert_policy` commits; the version is not touched. -/
def Committed.upsertPolicy (db : Committed) (payload : PolicyUpsert) : Committed :=
  { db with
    policy := { db.policy with
      onLoadFailure := payload.onLoadFailure
      categoryToggles := payload.categoryToggles
      overrides := payload.overrides } }

/-- How far a call has come, with what it has read so far. -/
inductive Progress
  /-- The policy row has been read. -/
  | selected (onLoadFailure : LoadFailure)
  /-- The toggles have been read, the feeds of `pending` not yet. -/
  | fetching (onLoadFailure : LoadFailure) (toggles pending : List CategoryToggle)
      (feeds : List Feed)
  | loaded (policy : Policy) (feeds : List Feed)
  | signed (bundle : Pb.Bundle)
  /-- `{digest}.bin` has been written. -/
  | stored (bundle : Pb.Bundle)
  /-- `{group_id}.latest` has been written. -/
  | pointed (bundle : Pb.Bundle)

/-- The bundle a call has signed. -/
def Progress.bundle : Progress → Option Pb.Bundle
  | .signed b | .stored b | .pointed b => some b
  | .selected _ | .fetching _ _ _ _ | .loaded _ _ => none

inductive Phase
  | idle
  | running (nextVersion : ℕ) (progress : Progress)
  | succeeded (version : ℕ)
  | failed

def Phase.isRunning : Phase → Bool
  | .running _ _ => true
  | _ => false

/-- The committed rows, the storage directory, the calls, and every bundle
signed so far. -/
structure State (ι : Type) where
  db : Committed
  bins : Str → Option Pb.Bundle
  latest : Option Str
  phase : ι → Phase
  signed : List Pb.Bundle

variable {ι : Type} [DecidableEq ι]

/-- A group with a fresh policy: version zero and nothing stored. -/
def init (policy : Policy) (tables : Db) : State ι where
  db := ⟨policy, 0, tables⟩
  bins _ := none
  latest := none
  phase _ := .idle
  signed := []

/-- The bundle that the `latest` pointer names. -/
def State.named (s : State ι) : Option Pb.Bundle := s.latest.bind s.bins

def State.set (s : State ι) (i : ι) (p : Phase) : State ι :=
  { s with phase := update s.phase i p }

/-- Call `i` reads the policy row. -/
def State.select (s : State ι) (i : ι) : State ι :=
  s.set i (.running (s.db.bundleVersion + 1) (.selected s.db.policy.onLoadFailure))

/-- One step of a call, or the commit of another transaction. -/
inductive Step (k : Signing) (s : State ι) : State ι → Prop
  | select (i : ι) (h : s.phase i = .idle) : Step k s (s.select i)
  | loadToggles {i : ι} {n : ℕ} {f : LoadFailure} (h : s.phase i = .running n (.selected f)) :
    Step k s (s.set i (.running n
      (.fetching f s.db.policy.categoryToggles s.db.policy.categoryToggles [])))
  | fetchFeeds {i : ι} {n : ℕ} {f : LoadFailure} {toggles rest : List CategoryToggle}
      {toggle : CategoryToggle} {feeds : List Feed}
      (h : s.phase i = .running n (.fetching f toggles (toggle :: rest) feeds)) :
    Step k s (s.set i (.running n (.fetching f toggles rest
      (feeds ++ fetchIngestedFeeds s.db.tables toggle.categoryId))))
  | loadOverrides {i : ι} {n : ℕ} {f : LoadFailure} {toggles : List CategoryToggle}
      {feeds : List Feed} (h : s.phase i = .running n (.fetching f toggles [] feeds)) :
    Step k s (s.set i (.running n (.loaded
      { s.db.policy with onLoadFailure := f, categoryToggles := toggles } feeds)))
  /-- The template is read and the bundle built and signed.  A category occurs
  in one toggle only, so the rows read for the toggles can stand in one table. -/
  | sign (env : CompileEnv) (files : Storage) {i : ι} {n : ℕ} {policy : Policy}
      {feeds : List Feed} {b : Pb.Bundle} (h : s.phase i = .running n (.loaded policy feeds))
      (hb : buildBundle env files ⟨feeds, s.db.tables.templates⟩ policy n = some b) :
    Step k s { s.set i (.running n (.signed (signBundle k b))) with
      signed := signBundle k b :: s.signed }
  | writeBin {i : ι} {n : ℕ} {b : Pb.Bundle} (h : s.phase i = .running n (.signed b)) :
    Step k s { s.set i (.running n (.stored b)) with
      bins := update s.bins (contentAddress k b) (some b) }
  | writeLatest {i : ι} {n : ℕ} {b : Pb.Bundle} (h : s.phase i = .running n (.stored b)) :
    Step k s { s.set i (.running n (.pointed b)) with latest := some (contentAddress k b) }
  | commit {i : ι} {n : ℕ} {b : Pb.Bundle} (h : s.phase i = .running n (.pointed b)) :
    Step k s { s.set i (.succeeded n) with db := { s.db with bundleVersion := n } }
  | fail {i : ι} {n : ℕ} {p : Progress} (h : s.phase i = .running n p) :
    Step k s (s.set i .failed)
  | upsertPolicy (payload : PolicyUpsert) : Step k s { s with db := s.db.upsertPolicy payload }
  /-- Feeds are ingested and templates edited. -/
  | edit (tables : Db) : Step k s { s with db := { s.db with tables } }

/-- Any interleaving of the steps of any calls. -/
def Run (k : Signing) : State ι → State ι → Prop := Relation.ReflTransGen (Step k)

/-- **Versions identify content** between two states of a run: no two signed
bundles share a version, the pointer does not go to a lower version, and once
no call is running it names something at least as new as every committed
version. -/
structure VersionsIdentify (s t : State ι) : Prop where
  unique : ∀ b ∈ t.signed, ∀ b' ∈ t.signed, b.version = b'.version → b = b'
  pointer_le : ∀ b, s.named = some b → ∃ b', t.named = some b' ∧ b.version ≤ b'.version
  committed_le : (∀ i, (t.phase i).isRunning = false) → ∀ i v, t.phase i = .succeeded v →
    ∃ b, t.named = some b ∧ v ≤ b.version.toNat

/-! ### Calls one after the other -/

/-- A call starts only while no other is running. -/
def StartsAlone (s t : State ι) : Prop :=
  ∀ i, s.phase i = .idle → t.phase i ≠ .idle → ∀ j, (s.phase j).isRunning = false

/-- A call that has signed a bundle does not fail any more. -/
def KeepsSigned (s t : State ι) : Prop :=
  ∀ i n p b, s.phase i = .running n p → p.bundle = some b → t.phase i ≠ .failed

/-- A step that overlaps no other call and loses no signed bundle. -/
def ExclusiveStep (k : Signing) (s t : State ι) : Prop :=
  Step k s t ∧ StartsAlone s t ∧ KeepsSigned s t

def ExclusiveRun (k : Signing) : State ι → State ι → Prop :=
  Relation.ReflTransGen (ExclusiveStep k)

theorem ExclusiveRun.run {k : Signing} {s t : State ι} (h : ExclusiveRun k s t) : Run k s t :=
  Relation.ReflTransGen.mono (fun _ _ hstep => hstep.1) _ _ h

/-- What the files hold for a call at this point. -/
def FilesOk (k : Signing) (s : State ι) : Progress → Prop
  | .stored b => s.bins (contentAddress k b) = some b
  | .pointed b => s.named = some b
  | _ => True

/-- What is known of a call in each phase. -/
def PhaseOk (k : Signing) (s : State ι) : Phase → Prop
  | .idle | .failed => True
  | .succeeded v => 0 < v ∧ v ≤ s.db.bundleVersion
  | .running n p => n = s.db.bundleVersion + 1 ∧ FilesOk k s p ∧
      ∀ b, p.bundle = some b → b.version.toNat = n ∧ b ∈ s.signed

/-- The invariant of an exclusive run. -/
structure Inv (k : Signing) (s : State ι) : Prop where
  phase : ∀ i, PhaseOk k s (s.phase i)
  alone : ∀ i j, (s.phase i).isRunning → (s.phase j).isRunning → i = j
  signed_le : ∀ b ∈ s.signed, b.version.toNat ≤ s.db.bundleVersion ∨
    ∃ i n p, s.phase i = .running n p ∧ p.bundle = some b
  unique : ∀ b ∈ s.signed, ∀ b' ∈ s.signed, b.version = b'.version → b = b'
  bins_signed : ∀ d b, s.bins d = some b → b ∈ s.signed
  newest : s.db.bundleVersion = 0 ∨ ∃ b, s.named = some b ∧ s.db.bundleVersion ≤ b.version.toNat

variable {k : Signing} {s t : State ι} {i j : ι} {n : ℕ} {p : Progress} {b : Pb.Bundle}
variable {q : Phase} {b' : Pb.Bundle} {f : LoadFailure}

omit [DecidableEq ι] in
theorem inv_init (policy : Policy) (tables : Db) : Inv k (init policy tables : State ι) where
  phase i := trivial
  alone i j hi := by simp [init, Phase.isRunning] at hi
  signed_le b hb := by simp [init] at hb
  unique b hb := by simp [init] at hb
  bins_signed d b hb := by simp [init] at hb
  newest := .inl rfl

omit [DecidableEq ι] in
theorem Inv.others (hs : Inv k s) (hi : s.phase i = .running n p) (hj : j ≠ i) :
    (s.phase j).isRunning = false := by
  by_contra hrun
  refine hj (hs.alone j i (by simpa using hrun) ?_)
  rw [hi]
  rfl

omit [DecidableEq ι] in
theorem PhaseOk.mono (h : PhaseOk k s q) (hq : q.isRunning = false)
    (hle : s.db.bundleVersion ≤ t.db.bundleVersion) : PhaseOk k t q := by
  cases q with
  | idle | failed => trivial
  | succeeded => exact ⟨h.1, Nat.le_trans h.2 hle⟩
  | running => simp [Phase.isRunning] at hq

theorem Inv.phase_update (hs : Inv k s) (hi : s.phase i = .running n p)
    (hph : t.phase = update s.phase i q) (hle : s.db.bundleVersion ≤ t.db.bundleVersion)
    (hq : PhaseOk k t q) :
    ∀ j, PhaseOk k t (t.phase j) := by
  intro j
  rw [hph]
  by_cases hj : j = i
  · subst hj
    rwa [update_self]
  · rw [update_of_ne hj]
    -- nobody else is running, so only the version they know of has moved
    exact (hs.phase j).mono (hs.others hi hj) hle

theorem Inv.alone_update (hs : Inv k s) (hi : s.phase i = .running n p)
    (hph : t.phase = update s.phase i q) :
    ∀ j j', (t.phase j).isRunning → (t.phase j').isRunning → j = j' := by
  have hne : ∀ j, (t.phase j).isRunning → j = i := by
    intro j hj
    by_contra hji
    rw [hph, update_of_ne hji, hs.others hi hji] at hj
    simp at hj
  intro j j' hj hj'
  rw [hne j hj, hne j' hj']

omit [DecidableEq ι] in
/-- The running call's own bundle is the only one above the committed version. -/
theorem Inv.signed_cases (hs : Inv k s) (hi : s.phase i = .running n p) (hb' : b' ∈ s.signed) :
    b'.version.toNat ≤ s.db.bundleVersion ∨ p.bundle = some b' := by
  rcases hs.signed_le b' hb' with hle | ⟨j, m, q, hj, hq⟩
  · exact .inl hle
  · have hji : j = i := hs.alone j i (by rw [hj]; rfl) (by rw [hi]; rfl)
    subst hji
    rw [hi] at hj
    cases hj
    exact .inr hq

omit [DecidableEq ι] in
theorem Inv.version_le (hs : Inv k s) (hi : s.phase i = .running n p) (hp : p.bundle = some b)
    (hb' : b' ∈ s.signed) : b'.version ≤ b.version := by
  obtain ⟨hn, -, hbun⟩ : PhaseOk k s (.running n p) := hi ▸ hs.phase i
  have hv : b.version.toNat = n := (hbun b hp).1
  rcases hs.signed_cases hi hb' with hle | hq
  · rw [UInt64.le_iff_toNat_le]
    omega
  · rw [hp, some_inj] at hq
    rw [hq]

/-! ### The steps keep the invariant -/

omit [DecidableEq ι] in
theorem filesOk_of_unsigned (hp : p.bundle = none) : FilesOk k s p := by
  cases p with
  | selected | fetching | loaded => trivial
  | signed | stored | pointed => simp [Progress.bundle] at hp

omit [DecidableEq ι] in
theorem Inv.withDb (hs : Inv k s) {db : Committed} (hv : db.bundleVersion = s.db.bundleVersion) :
    Inv k { s with db } where
  phase i := by
    have h := hs.phase i
    show PhaseOk k { s with db } (s.phase i)
    generalize s.phase i = q at h
    cases q with
    | idle | failed => trivial
    | succeeded v =>
      -- only the version is read of the database
      show 0 < v ∧ v ≤ db.bundleVersion
      rw [hv]
      exact h
    | running n p => exact ⟨hv.symm ▸ h.1, by cases p <;> exact h.2.1, h.2.2⟩
  alone := hs.alone
  signed_le b hb := by
    show b.version.toNat ≤ db.bundleVersion ∨ _
    rw [hv]
    exact hs.signed_le b hb
  unique := hs.unique
  bins_signed := hs.bins_signed
  newest := by
    show db.bundleVersion = 0 ∨ ∃ b, s.named = some b ∧ db.bundleVersion ≤ _
    rw [hv]
    exact hs.newest

theorem Inv.select (hs : Inv k s) (hnone : ∀ j, (s.phase j).isRunning = false) :
    Inv k (s.select i) where
  phase j := by
    show PhaseOk k _ (update s.phase i _ j)
    by_cases hj : j = i
    · subst hj
      rw [update_self]
      exact ⟨rfl, trivial, fun b hb => absurd hb (by simp [Progress.bundle])⟩
    · rw [update_of_ne hj]
      exact (hs.phase j).mono (hnone j) le_rfl
  alone := by
    have hne : ∀ j, ((s.select i).phase j).isRunning → j = i := by
      intro j hj
      by_contra hji
      change (update s.phase i _ j).isRunning = true at hj
      rw [update_of_ne hji, hnone] at hj
      simp at hj
    intro j j' hj hj'
    rw [hne j hj, hne j' hj']
  signed_le b hb := by
    -- nobody was running, so nobody held a bundle above the version
    rcases hs.signed_le b hb with hle | ⟨j, m, q, hj, -⟩
    · exact .inl hle
    · have := hnone j
      rw [hj] at this
      simp [Phase.isRunning] at this
  unique := hs.unique
  bins_signed := hs.bins_signed
  newest := hs.newest

theorem Inv.set_unsigned (hs : Inv k s) (hi : s.phase i = .running n p) (hp : p.bundle = none)
    (hq : PhaseOk k (s.set i q) q) : Inv k (s.set i q) where
  phase := hs.phase_update hi rfl le_rfl hq
  alone := hs.alone_update hi rfl
  signed_le b hb := by
    rcases hs.signed_cases hi hb with hle | hpb
    · exact .inl hle
    · exact absurd (hp.symm.trans hpb) (by simp)
  unique := hs.unique
  bins_signed := hs.bins_signed
  newest := hs.newest

theorem Inv.read (hs : Inv k s) (hi : s.phase i = .running n p) (hp : p.bundle = none)
    {q : Progress} (hq : q.bundle = none) : Inv k (s.set i (.running n q)) := by
  have hok : PhaseOk k s (.running n p) := hi ▸ hs.phase i
  refine hs.set_unsigned hi hp ⟨hok.1, filesOk_of_unsigned hq, fun b hb => ?_⟩
  exact absurd (hq.symm.trans hb) (by simp)

theorem Inv.sign (hs : Inv k s) (hi : s.phase i = .running n p) (hp : p.bundle = none)
    (hb : b.version.toNat = n) :
    Inv k { s.set i (.running n (.signed b)) with signed := b :: s.signed } where
  phase := by
    have hok : PhaseOk k s (.running n p) := hi ▸ hs.phase i
    refine hs.phase_update hi rfl le_rfl ⟨hok.1, trivial, fun b' hb' => ?_⟩
    cases hb'
    exact ⟨hb, mem_cons_self⟩
  alone := hs.alone_update hi rfl
  signed_le b' hb' := by
    rcases mem_cons.mp hb' with rfl | hb'
    · exact .inr ⟨i, n, .signed b', update_self .., rfl⟩
    · rcases hs.signed_cases hi hb' with hle | hpb
      · exact .inl hle
      · exact absurd (hp.symm.trans hpb) (by simp)
  unique := by
    have hn : n = s.db.bundleVersion + 1 := (hi ▸ hs.phase i : PhaseOk k s (.running n p)).1
    -- every earlier bundle has a version already committed
    have hold : ∀ b' ∈ s.signed, b'.version ≠ b.version := by
      intro b' hb' heq
      rcases hs.signed_cases hi hb' with hle | hpb
      · rw [heq] at hle
        omega
      · exact absurd (hp.symm.trans hpb) (by simp)
    intro b₁ h₁ b₂ h₂ heq
    rcases mem_cons.mp h₁ with rfl | hold₁ <;> rcases mem_cons.mp h₂ with rfl | hold₂
    · rfl
    · exact absurd heq.symm (hold b₂ hold₂)
    · exact absurd heq (hold b₁ hold₁)
    · exact hs.unique b₁ hold₁ b₂ hold₂ heq
  bins_signed d b' hb' := mem_cons_of_mem _ (hs.bins_signed d b' hb')
  newest := hs.newest

theorem Inv.signed_le_update (hs : Inv k s) (hi : s.phase i = .running n p)
    {q : Progress} (hq : q.bundle = p.bundle) (b' : Pb.Bundle) (hb' : b' ∈ s.signed) :
    b'.version.toNat ≤ s.db.bundleVersion ∨
      ∃ j m r, update s.phase i (.running n q) j = .running m r ∧ r.bundle = some b' := by
  rcases hs.signed_cases hi hb' with hle | hpb
  · exact .inl hle
  · exact .inr ⟨i, n, q, update_self .., hq.trans hpb⟩

theorem Inv.writeBin (hs : Inv k s) (hi : s.phase i = .running n (.signed b)) :
    Inv k { s.set i (.running n (.stored b)) with
      bins := update s.bins (contentAddress k b) (some b) } := by
  obtain ⟨hn, -, hbun⟩ : PhaseOk k s (.running n (.signed b)) := hi ▸ hs.phase i
  obtain ⟨hv, hmem⟩ := hbun b rfl
  refine ⟨hs.phase_update hi rfl le_rfl ⟨hn, update_self .., hbun⟩,
    hs.alone_update hi rfl, hs.signed_le_update hi rfl, hs.unique, ?_, ?_⟩
  · intro d b' hb'
    change update s.bins (contentAddress k b) (some b) d = some b' at hb'
    by_cases hd : d = contentAddress k b
    · rw [hd, update_self, some_inj] at hb'
      exact hb' ▸ hmem
    · rw [update_of_ne hd] at hb'
      exact hs.bins_signed d b' hb'
  · -- the pointer may already name this address: then it names the new bundle
    rcases hs.newest with hzero | ⟨b', hnam, hle⟩
    · exact .inl hzero
    · right
      obtain ⟨d, hd, hbin⟩ := bind_eq_some_iff.mp hnam
      by_cases heq : d = contentAddress k b
      · refine ⟨b, bind_eq_some_iff.mpr ⟨d, hd, ?_⟩, ?_⟩
        · show update s.bins (contentAddress k b) (some b) d = some b
          rw [heq, update_self]
        · show s.db.bundleVersion ≤ _
          omega
      · refine ⟨b', bind_eq_some_iff.mpr ⟨d, hd, ?_⟩, hle⟩
        show update s.bins (contentAddress k b) (some b) d = some b'
        rw [update_of_ne heq, hbin]

theorem Inv.writeLatest (hs : Inv k s) (hi : s.phase i = .running n (.stored b)) :
    Inv k { s.set i (.running n (.pointed b)) with latest := some (contentAddress k b) } := by
  obtain ⟨hn, hbin, hbun⟩ : PhaseOk k s (.running n (.stored b)) := hi ▸ hs.phase i
  have hv : b.version.toNat = n := (hbun b rfl).1
  have hnam : s.bins (contentAddress k b) = some b := hbin
  refine ⟨hs.phase_update hi rfl le_rfl ⟨hn, hnam, hbun⟩, hs.alone_update hi rfl,
    hs.signed_le_update hi rfl, hs.unique, hs.bins_signed, .inr ⟨b, hnam, ?_⟩⟩
  show s.db.bundleVersion ≤ _
  omega

theorem Inv.commit (hs : Inv k s) (hi : s.phase i = .running n (.pointed b)) :
    Inv k { s.set i (.succeeded n) with db := { s.db with bundleVersion := n } } := by
  obtain ⟨hn, hnam, hbun⟩ : PhaseOk k s (.running n (.pointed b)) := hi ▸ hs.phase i
  have hv : b.version.toNat = n := (hbun b rfl).1
  have hle : s.db.bundleVersion ≤ n := by omega
  refine ⟨hs.phase_update hi rfl hle ⟨by omega, le_refl n⟩, hs.alone_update hi rfl, ?_, hs.unique,
    hs.bins_signed, .inr ⟨b, hnam, hv.ge⟩⟩
  intro b' hb'
  -- the committed version is now that of the bundle just signed
  have hle' : b'.version ≤ b.version := hs.version_le hi rfl hb'
  rw [UInt64.le_iff_toNat_le, hv] at hle'
  exact .inl hle'

/-- **An exclusive step keeps the invariant.** -/
theorem Inv.step (hs : Inv k s) (h : ExclusiveStep k s t) : Inv k t := by
  obtain ⟨hstep, halo, hkeep⟩ := h
  cases hstep with
  | select i hi =>
    refine hs.select (halo i hi ?_)
    show update s.phase i _ i ≠ .idle
    rw [update_self]
    simp
  | loadToggles hi | fetchFeeds hi | loadOverrides hi => exact hs.read hi rfl rfl
  | sign env files hi hb =>
    refine hs.sign hi rfl ?_
    rw [signBundle_version]
    exact buildBundle_version hb
  | writeBin hi => exact hs.writeBin hi
  | writeLatest hi => exact hs.writeLatest hi
  | commit hi => exact hs.commit hi
  | @fail i n p hi =>
    refine hs.set_unsigned hi ?_ trivial
    -- a call that has signed does not fail
    rcases hp : p.bundle with _ | b
    · rfl
    · exact absurd (update_self ..) (hkeep i n p b hi hp)
  | upsertPolicy | edit => exact hs.withDb rfl

omit [DecidableEq ι] in
theorem Inv.named_mem (hs : Inv k s) (hb : s.named = some b) : b ∈ s.signed := by
  obtain ⟨d, -, hbin⟩ := bind_eq_some_iff.mp hb
  exact hs.bins_signed d b hbin

/-- **The pointer does not go back** in an exclusive step. -/
theorem Inv.named_le (hs : Inv k s) (h : Step k s t) (hb : s.named = some b) :
    ∃ b', t.named = some b' ∧ b.version ≤ b'.version := by
  cases h with
  | @writeBin i n b₀ hi =>
    obtain ⟨d, hd, hbin⟩ := bind_eq_some_iff.mp hb
    by_cases heq : d = contentAddress k b₀
    · refine ⟨b₀, bind_eq_some_iff.mpr ⟨d, hd, ?_⟩, hs.version_le hi rfl (hs.named_mem hb)⟩
      show update s.bins (contentAddress k b₀) (some b₀) d = some b₀
      rw [heq, update_self]
    · refine ⟨b, bind_eq_some_iff.mpr ⟨d, hd, ?_⟩, le_rfl⟩
      show update s.bins (contentAddress k b₀) (some b₀) d = some b
      rw [update_of_ne heq, hbin]
  | @writeLatest i n b₀ hi =>
    have hok : PhaseOk k s (.running n (.stored b₀)) := hi ▸ hs.phase i
    exact ⟨b₀, hok.2.1, hs.version_le hi rfl (hs.named_mem hb)⟩
  -- no other step touches the files
  | _ => exact ⟨b, hb, le_rfl⟩

theorem Inv.run (hs : Inv k s) (h : ExclusiveRun k s t) : Inv k t := by
  induction h with
  | refl => exact hs
  | tail _ hstep ih => exact ih.step hstep

theorem Inv.named_le_of_run (hs : Inv k s) (h : ExclusiveRun k s t) (hb : s.named = some b) :
    ∃ b', t.named = some b' ∧ b.version ≤ b'.version := by
  induction h with
  | refl => exact ⟨b, hb, le_rfl⟩
  | tail hrun hstep ih =>
    obtain ⟨b₁, hb₁, hle₁⟩ := ih
    obtain ⟨b₂, hb₂, hle₂⟩ := (hs.run hrun).named_le hstep.1 hb₁
    exact ⟨b₂, hb₂, hle₁.trans hle₂⟩

/-! ### A call from its first read to its commit -/

theorem exclusive_of_running (h : Step k s t) (hi : s.phase i = .running n p)
    (hph : t.phase = update s.phase i q) (hq : q ≠ .failed) : ExclusiveStep k s t := by
  refine ⟨h, fun j hj hne => ?_, fun j m r b hj _ => ?_⟩
  · -- an idle call stays idle
    have hji : j ≠ i := by
      rintro rfl
      exact absurd (hj.symm.trans hi) (by simp)
    rw [hph, update_of_ne hji] at hne
    exact absurd hj hne
  · rw [hph]
    by_cases hji : j = i
    · rw [hji, update_self]
      exact hq
    · rw [update_of_ne hji, hj]
      simp

theorem exclusive_select (hi : s.phase i = .idle) (hnone : ∀ j, (s.phase j).isRunning = false) :
    ExclusiveStep k s (s.select i) := by
  refine ⟨.select i hi, fun _ _ _ => hnone, fun j m r b hj _ => ?_⟩
  have := hnone j
  rw [hj] at this
  simp [Phase.isRunning] at this

/-- The state in which a call leaves the group when it commits `signed`. -/
def State.committed (s : State ι) (k : Signing) (i : ι) (n : ℕ) (signed : Pb.Bundle) : State ι where
  db := { s.db with bundleVersion := n }
  bins := update s.bins (contentAddress k signed) (some signed)
  latest := some (contentAddress k signed)
  phase := update s.phase i (.succeeded n)
  signed := signed :: s.signed

theorem set_set (q q' : Phase) : (s.set i q).set i q' = s.set i q' := by
  simp only [State.set, update_idem]

/-- **A call that is let through commits**, here for a policy without toggles: it
signs what it builds from the rows as they are, and the pointer names it. -/
theorem exclusiveRun_committed (env : CompileEnv) (files : Storage)
    (hi : s.phase i = .running n (.selected f)) (htog : s.db.policy.categoryToggles = [])
    (hb : buildBundle env files ⟨[], s.db.tables.templates⟩
      { s.db.policy with onLoadFailure := f, categoryToggles := [] } n = some b) :
    ExclusiveRun k s (s.committed k i n (signBundle k b)) := by
  refine .head (exclusive_of_running (.loadToggles hi) hi rfl (by simp)) ?_
  rw [htog]
  refine .head (exclusive_of_running (.loadOverrides (update_self ..))
    (update_self ..) rfl (by simp)) ?_
  rw [set_set]
  refine .head (exclusive_of_running (.sign env files (update_self ..) hb)
    (update_self ..) rfl (by simp)) ?_
  rw [set_set]
  refine .head (exclusive_of_running (.writeBin (update_self ..))
    (update_self ..) rfl (by simp)) ?_
  refine .head (exclusive_of_running (.writeLatest (update_self ..))
    (update_self ..) rfl (by simp)) ?_
  refine .head (exclusive_of_running (.commit (update_self ..))
    (update_self ..) rfl (by simp)) ?_
  simp only [State.set, update_idem]
  exact .refl

/-- **Compile versions identify content**, for every interleaving of policy
updates and edits with compile calls that do not overlap and do not fail once
they have signed. -/
theorem versions_identify_content {policy : Policy} {tables : Db}
    (hs : ExclusiveRun k (init policy tables) s) (ht : ExclusiveRun k s t) :
    VersionsIdentify s t := by
  have hinv : Inv k s := (inv_init policy tables).run hs
  refine ⟨(hinv.run ht).unique, fun b hb => hinv.named_le_of_run ht hb, ?_⟩
  intro _ i v hi
  obtain ⟨hpos, hle⟩ : PhaseOk k t (.succeeded v) := hi ▸ (hinv.run ht).phase i
  rcases (hinv.run ht).newest with hzero | ⟨b, hb, hb'⟩
  · omega
  · exact ⟨b, hb, hle.trans hb'⟩

/-! A group with an empty policy, and a key whose digest is the text it covers. -/

def sampleSigning : Signing where
  keyId := "k1"
  serializeToString b := utf8 (natText b.version.toNat ++ join "," b.denyOverrides)
  sign := List.reverse
  sha256Hex bytes := bytes.map fun b => Char.ofNat b.toNat

def sampleStart : State (Fin 3) := init (samplePolicy [] []) ⟨[], []⟩

/-- An operator denies one domain. -/
def sampleUpsert : PolicyUpsert := ⟨.failOpen, [], [⟨"bad.example", .deny⟩]⟩

def State.upsert (s : State (Fin 3)) : State (Fin 3) :=
  { s with db := s.db.upsertPolicy sampleUpsert }

def sampleSigned (version : UInt64) (deny : List Str) : Pb.Bundle :=
  signBundle sampleSigning ⟨"tenant", "group", version, 1700000000, [], [], deny,
    .failOpen, none, [], []⟩

/-- The first call, alone. -/
def sampleFirst : State (Fin 3) :=
  (sampleStart.select 0).committed sampleSigning 0 1 (sampleSigned 1 [])

/-- An update and the second call. -/
def sampleSecond : State (Fin 3) :=
  (sampleFirst.upsert.select 1).committed sampleSigning 1 2
    (sampleSigned 2 ["bad.example"])

theorem versions_identify_two_compiles :
    ∃ s t : State (Fin 3), ExclusiveRun sampleSigning sampleStart s ∧
      ExclusiveRun sampleSigning s t ∧ s.named.map (·.version) = some 1 ∧
      t.named.map (·.version) = some 2 ∧ t.signed.length = 2 ∧ VersionsIdentify s t := by
  have hs : ExclusiveRun sampleSigning sampleStart sampleFirst :=
    .head (exclusive_select rfl (by decide))
      (exclusiveRun_committed (sampleCompile 0) (fun _ => none) rfl rfl rfl)
  have hups : ExclusiveStep sampleSigning sampleFirst sampleFirst.upsert :=
    ⟨.upsertPolicy sampleUpsert, fun i hi hne => absurd hi hne,
      fun i n p b hi _ => by rw [show sampleFirst.upsert.phase i = _ from hi]; simp⟩
  have ht : ExclusiveRun sampleSigning sampleFirst sampleSecond :=
    .head hups (.head (exclusive_select rfl (by decide))
      (exclusiveRun_committed (sampleCompile 0) (fun _ => none) rfl rfl rfl))
  exact ⟨sampleFirst, sampleSecond, hs, ht, by decide +kernel, by decide +kernel, rfl,
    versions_identify_content hs ht⟩

/-- The first call has only read the row when a second one compiles, the
operator denies a domain and a third one compiles that. -/
def sampleOvertaken : State (Fin 3) :=
  ((((sampleStart.select 0).select 1).committed sampleSigning 1 1
    (sampleSigned 1 [])).upsert.select 2).committed sampleSigning 2 2
    (sampleSigned 2 ["bad.example"])

/-- Then the first call goes on. -/
def sampleRewound : State (Fin 3) :=
  sampleOvertaken.committed sampleSigning 0 1 (sampleSigned 1 ["bad.example"])

/-- **Overlapping calls**: two signed bundles with version 1 differ, the
pointer goes back from version 2 to version 1, and there it stays although
version 2 was committed. -/
theorem overlapping_compiles :
    ∃ s t : State (Fin 3), Run sampleSigning sampleStart s ∧ Run sampleSigning s t ∧
      (∃ b ∈ t.signed, ∃ b' ∈ t.signed, b.version = b'.version ∧ b ≠ b') ∧
      s.named.map (·.version) = some 2 ∧ t.named.map (·.version) = some 1 ∧
      (∀ i, (t.phase i).isRunning = false) ∧ t.phase 2 = .succeeded 2 ∧
      ¬ VersionsIdentify s t := by
  have hs : Run sampleSigning sampleStart sampleOvertaken := by
    refine .head (.select 0 rfl) (.head (.select 1 rfl) ?_)
    refine .trans (exclusiveRun_committed (i := 1) (sampleCompile 0) (fun _ => none)
      rfl rfl rfl).run ?_
    refine .head (.upsertPolicy sampleUpsert) (.head (.select 2 rfl) ?_)
    exact (exclusiveRun_committed (sampleCompile 0) (fun _ => none) rfl rfl rfl).run
  have ht : Run sampleSigning sampleOvertaken sampleRewound :=
    (exclusiveRun_committed (sampleCompile 0) (fun _ => none) rfl rfl rfl).run
  have hdif : ∃ b ∈ sampleRewound.signed, ∃ b' ∈ sampleRewound.signed,
      b.version = b'.version ∧ b ≠ b' :=
    ⟨sampleSigned 1 ["bad.example"], by simp [sampleRewound, State.committed],
      sampleSigned 1 [], by simp [sampleRewound, sampleOvertaken, State.committed, State.upsert,
        State.select, State.set], rfl, by decide⟩
  refine ⟨sampleOvertaken, sampleRewound, hs, ht, hdif, by decide +kernel, by decide +kernel,
    by decide +kernel, rfl, fun h => ?_⟩
  obtain ⟨b, hb, b', hb', hv, hne⟩ := hdif
  exact hne (h.unique b hb b' hb' hv)

end Control.Compile
