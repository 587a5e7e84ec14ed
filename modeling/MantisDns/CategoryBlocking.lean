/-
From a feed's body to the filter's verdict.

The ingest, compile and decide stages are put together here.

* `ingested_token_blocked` — category blocking has no false negatives;
* `attribution_of_compiled` — which categories the filter can name for a
  query, and `logOnly_false_positive`, a log-only attribution that rests on a
  bloom collision alone;
* `protected_names_never_blocked` — over all runs of ingests and compiles, no
  category blocks a name of `MUST_NEVER_BLOCK`.
-/
import MantisDns.Decide

open Text List Option
open Node hiding decide exactHash

namespace Control

variable {env : CompileEnv} {files : Storage} {db : Db} {policy : Policy} {version : ℕ}
  {b : Pb.Bundle} {c : Pb.CategorySet} {q n : Str} {U : CaseMap} {p : Plane}

/-! ### Bundles and their toggles -/

theorem exists_of_mem_left {α β : Type} {R : α → β → Prop} {l : List α} {l' : List β}
    (h : List.Forall₂ R l l') {a : α} (ha : a ∈ l) : ∃ b ∈ l', R a b := by
  induction h with
  | nil => simp at ha
  | cons hab _ ih =>
    rcases mem_cons.mp ha with rfl | ha
    · exact ⟨_, mem_cons_self, hab⟩
    · obtain ⟨b, hb, hr⟩ := ih ha
      exact ⟨b, mem_cons_of_mem _ hb, hr⟩

theorem compiled_of_mem (h : buildBundle env files db policy version = some b)
    (hc : c ∈ b.categories) :
    ∃ params, Compiled (categoryDomains files db c.categoryId) params c := by
  obtain ⟨toggle, -, htog⟩ := exists_of_mem_left (buildBundle_categories h).flip hc
  rw [htog.categoryId]
  exact htog.compiled

theorem decide_block_of_mem (h : buildBundle env files db policy version = some b)
    {toggle : CategoryToggle} (ht : toggle ∈ policy.categoryToggles)
    (hact : toggle.action = .block)
    (hq : normalize q ∈ categoryDomains files db toggle.categoryId)
    (hal : ∀ o ∈ policy.overrides, o.kind = .allow →
      normalize o.domain ≠ normalize q) :
    (Node.decide b q).decision = .block := by
  obtain ⟨c, hc, hcomp⟩ := exists_of_mem_left (buildBundle_categories h) ht
  obtain ⟨params, hpar⟩ := hcomp.compiled
  obtain ⟨hhit, hconf⟩ := hpar.tests_of_mem hq
  refine (decide_block_iff b q).mpr ⟨?_, .inr ⟨c, hc, ?_⟩⟩
  · rw [(buildBundle_eq_some h).2.1]
    intro d hd
    obtain ⟨o, ho, rfl⟩ := List.mem_map.mp hd
    obtain ⟨ho, hkind⟩ := mem_filter.mp ho
    exact hal o ho (by simpa using hkind)
  · rw [blocks, hcomp.action, hact, hhit, hconf]
    rfl

/-! ### No false negatives -/

/-- The names a feed token stands for: itself and, unless its normal form
starts with `www.` again, the normal form with and without `www.`; each in any
case and with any trailing dots. -/
def Covers (U : CaseMap) (t q : Str) : Prop :=
  Spelling t q ∨
    (¬"www." <+: normalizeDomain U t ∧
      (Spelling (normalizeDomain U t) q ∨ Spelling ("www." ++ normalizeDomain U t) q))

theorem Covers.normalize_eq {t : Str} (h : Covers U t q) (hasc : IsAscii t) (hstr : strip t = t)
    (hne : normalizeDomain U t ≠ []) :
    normalize q = normalizeDomain U t := by
  rw [Covers, normalizeDomain_eq_normalize U hasc hstr] at h
  rw [normalizeDomain_eq_normalize U hasc hstr] at hne ⊢
  -- as it was stored, with the `www.` that the parser dropped, or with one more
  rcases h with h | ⟨hwww, h | h⟩
  · rw [normalize_spelling h]
  · rw [normalize_spelling h, normalize_normalize hwww]
  · rw [normalize_spelling h, normalize_www hne]

/-- **Category blocking has no false negatives.**  Let a feed be ingested with
status "updated" from a body, and compiled into a bundle through an
`ACTION_BLOCK` toggle of its category, with any seeds, sizing and completion
order.  Then every spelling of every ASCII token that the parser accepted is
blocked, unless an allow override normalises to the same name. -/
theorem ingested_token_blocked (U : CaseMap) (ingestEnv : IngestEnv) (files : Storage) (feed : Feed)
    {etag : Option Str} {body : List UInt8} (hbody : fetchBody ingestEnv feed = .ok (etag, body))
    {result : IngestResult}
    (hresult : (fetchAndIngest U ingestEnv files feed).result = some result)
    (hupdated : result.status = .updated)
    {t : Str} (hascii : IsAscii t)
    (htoken : AcceptsToken feed.format U (decodeUtf8Replace body) t)
    (env : CompileEnv) (db : Db) (policy : Policy) (version : ℕ)
    (hfeed : (fetchAndIngest U ingestEnv files feed).feed ∈ db.feeds)
    (henabled : feed.enabled = true) (htoggle : ⟨feed.categoryId, .block⟩ ∈ policy.categoryToggles)
    {b : Pb.Bundle}
    (hbundle : buildBundle env (fetchAndIngest U ingestEnv files feed).files db
      policy version = some b)
    {q : Str} (hq : Covers U t q)
    (hallow : ∀ o ∈ policy.overrides, o.kind = .allow →
      normalize o.domain ≠ normalize q) :
    (Node.decide b q).decision = .block := by
  rcases fetchAndIngest_cases U ingestEnv files feed with
    ⟨-, -, hnot⟩ | ⟨parser, etag', body', hpar, hbody', -, heq⟩
  · exact absurd hupdated (hnot result hresult)
  rw [hbody, Except.ok.injEq, Prod.mk.injEq] at hbody'
  obtain ⟨rfl, rfl⟩ := hbody'
  -- the token's domain is in the parsed set, hence in the file read back
  have hmem : normalizeDomain U t ∈
      loadDomains (fetchAndIngest U ingestEnv files feed).files feed.id := by
    rw [heq]
    exact (mem_loadDomains_replace files feed.id (parse_lineSafe hpar U _) _).mpr
      (htoken.mem_parse hpar)
  obtain ⟨p, hp, line, -, htok, hacc⟩ := htoken
  have hnorm := hq.normalize_eq hascii (token_spec hp htok).1 (accepts_ne_nil hp hacc)
  refine decide_block_of_mem hbundle htoggle rfl ?_ hallow
  rw [hnorm, mem_categoryDomains]
  rw [heq] at hfeed hmem
  refine ⟨_, mem_filter.mpr ⟨mem_filter.mpr ⟨hfeed, ?_⟩, rfl⟩, ?_⟩
  · simpa [storeDomains] using henabled
  · rw [heq]
    exact hmem

/-! A small installation to evaluate the results on: one hosts-file feed with
one line, and the sizing formulas in integer arithmetic. -/

/-- `recommended_params` at the rate `0.0001`, to six digits. -/
def sampleSizing : Sizing :=
  ⟨fun n => (n * 19170117 + 999999) / 1000000, fun m n => (2 * m * 693147 / 1000000 + n) / (2 * n)⟩

def sampleFeed (categoryId : Str) : Feed :=
  ⟨"hosts", categoryId, "lists.example/hosts", .hostfile, "MIT", true,
    none, none, none⟩

/-- A server that answers with the given text. -/
def sampleIngest (text : Str) : IngestEnv where
  resolvePinnedUrl _ := .ok ("192.0.2.1/hosts", "lists.example")
  stream _ _ _ := .response 200 (some "\"v1\"") [utf8 text] none
  sha256 text := natText text.length
  formatDeltaPct previous count := natText (100 * count / previous)
  diskOk := true

def sampleCompile (seed : UInt64) : CompileEnv :=
  ⟨sampleSizing, fun _ => seed, 0, ⟨List.reverse, fun l => l.reverse_perm⟩, 1700000000⟩

def samplePolicy (toggles : List CategoryToggle) (overrides : List PolicyOverride) : Policy :=
  ⟨"tenant", "group", .failOpen, toggles, overrides⟩

def sampleIngested (categoryId text : Str) : Ingested :=
  fetchAndIngest .ascii (sampleIngest text) (fun _ => none) (sampleFeed categoryId)

theorem ingested_hosts_line_blocked :
    ∃ b, buildBundle (sampleCompile 59)
        (sampleIngested "ads" "0.0.0.0 WWW.Ads.Example # banner\n").files
        ⟨[(sampleIngested "ads" "0.0.0.0 WWW.Ads.Example # banner\n").feed], []⟩
        (samplePolicy [⟨"ads", .block⟩] []) 1 = some b ∧
      (Node.decide b "ADS.example.").decision = .block := by
  obtain ⟨b, hb⟩ := isSome_iff_exists.mp (show (buildBundle (sampleCompile 59)
    (sampleIngested "ads" "0.0.0.0 WWW.Ads.Example # banner\n").files
    ⟨[(sampleIngested "ads" "0.0.0.0 WWW.Ads.Example # banner\n").feed], []⟩
    (samplePolicy [⟨"ads", .block⟩] []) 1).isSome = true by decide +kernel)
  refine ⟨b, hb, ?_⟩
  have htok : AcceptsToken .hostfile .ascii
      (decodeUtf8Replace (utf8 "0.0.0.0 WWW.Ads.Example # banner\n"))
      "WWW.Ads.Example" :=
    ⟨_, rfl, "0.0.0.0 WWW.Ads.Example # banner", by decide +kernel, by decide +kernel,
      by decide +kernel⟩
  have hres : (sampleIngested "ads"
      "0.0.0.0 WWW.Ads.Example # banner\n").result = some ⟨.updated, 1, []⟩ := by
    decide +kernel
  have hbody : fetchBody (sampleIngest "0.0.0.0 WWW.Ads.Example # banner\n")
      (sampleFeed "ads") = .ok (some "\"v1\"",
        utf8 "0.0.0.0 WWW.Ads.Example # banner\n") := rfl
  exact ingested_token_blocked .ascii _ (fun _ => none) _ hbody hres rfl (by decide +kernel)
    htok (sampleCompile 59) _ _ 1 (mem_singleton.mpr rfl) rfl (mem_singleton.mpr rfl)
    hb (.inr ⟨by decide +kernel, .inl ⟨"ADS.example", 1, by decide +kernel, rfl⟩⟩)
    (fun o ho => absurd ho not_mem_nil)

/-! ### Attribution -/

/-- The category of a decision holds the name, up to a collision of the 64-bit
exact hash under the category's seed. -/
def HoldsUpToHash (files : Storage) (db : Db) (c : Pb.CategorySet) (n : Str) : Prop :=
  ∃ params ∈ c.bloom, ∃ d ∈ categoryDomains files db c.categoryId,
    Node.exactHash d params.seed = Node.exactHash n params.seed

instance (files : Storage) (db : Db) (c : Pb.CategorySet) (n : Str) :
    Decidable (HoldsUpToHash files db c n) :=
  inferInstanceAs (Decidable (∃ params ∈ c.bloom, ∃ d ∈ _, _))

/-- Each position the category's bloom filter has for `n` was set by one of
the category's domains. -/
def ReportedByBloom (files : Storage) (db : Db) (c : Pb.CategorySet) (n : Str) : Prop :=
  ∃ params ∈ c.bloom, Bloom.Reports (BloomParams.ofWire params).probes
    {d | d ∈ categoryDomains files db c.categoryId} n

theorem holdsUpToHash_of_blocks (h : buildBundle env files db policy version = some b)
    (hc : c ∈ b.categories) (hbls : blocks n c = true) :
    HoldsUpToHash files db c n := by
  obtain ⟨params, hpar⟩ := compiled_of_mem h hc
  rw [blocks, Bool.and_eq_true, Bool.and_eq_true] at hbls
  exact ⟨params, hpar.bloom, hpar.exists_hash_eq hbls.1.2 hbls.2⟩

theorem reportedByBloom_iff (h : buildBundle env files db policy version = some b)
    (hc : c ∈ b.categories) :
    bloomHit c n = true ↔ ReportedByBloom files db c n := by
  obtain ⟨params, hpar⟩ := compiled_of_mem h hc
  rw [hpar.bloomHit_iff]
  constructor
  · exact fun hr => ⟨params, hpar.bloom, hr⟩
  · rintro ⟨params', hpar', hr⟩
    rw [hpar.bloom, mem_some_iff] at hpar'
    exact hpar' ▸ hr

/-- **Which categories the filter can name.**  On a compiled bundle a block
decision names a category that holds the name up to a hash collision; a
log-only decision names a category whose bloom filter reports it; and
`matched_categories` lists exactly the categories whose bloom filters report
it, among them all that hold it. -/
theorem attribution_of_compiled {env : CompileEnv} {files : Storage} {db : Db} {policy : Policy}
    {version : ℕ} {b : Pb.Bundle} (h : buildBundle env files db policy version = some b)
    (q : Str) :
    ((Node.decide b q).decision = .block → ∀ id, (Node.decide b q).matchedCategory = some id →
      ∃ c ∈ b.categories, c.categoryId = id ∧ HoldsUpToHash files db c (normalize q)) ∧
    ((Node.decide b q).matchedRule = .categoryLogOnly → ∃ c ∈ b.categories,
      (Node.decide b q).matchedCategory = some c.categoryId ∧
        ReportedByBloom files db c (normalize q)) ∧
    (∀ id, id ∈ matchedCategories b q ↔
      ∃ c ∈ b.categories, c.categoryId = id ∧ ReportedByBloom files db c (normalize q)) ∧
    ∀ c ∈ b.categories, normalize q ∈ categoryDomains files db c.categoryId →
      c.categoryId ∈ matchedCategories b q := by
  -- each verdict names the category that its own test has found
  refine ⟨fun hblk id hid => ?_, fun hrule => ?_, fun id => ?_, fun c hc hmem => ?_⟩
  · have hv := decide_verdict b q
    generalize Node.decide b q = out at hv hblk hid
    cases hv with
    | overrideAllow | overrideDeny => simp at hid
    | category _ _ c hfind =>
      have hc := mem_of_find?_eq_some hfind
      exact ⟨c, hc, some_inj.mp hid, holdsUpToHash_of_blocks h hc (find?_some hfind)⟩
    | categoryLogOnly => simp [categoryOutcome] at hblk
    | default => simp [defaultOutcome] at hid
  · have hv := decide_verdict b q
    generalize Node.decide b q = out at hv hrule
    cases hv with
    | overrideAllow | overrideDeny => simp at hrule
    | category => simp [categoryOutcome] at hrule
    | categoryLogOnly _ _ _ c hfind =>
      have hc := mem_of_find?_eq_some hfind
      have hlogs := find?_some hfind
      rw [logs, Bool.and_eq_true] at hlogs
      exact ⟨c, hc, rfl, (reportedByBloom_iff h hc).mp hlogs.2⟩
    | default => simp [defaultOutcome] at hrule
  · rw [mem_matchedCategories]
    refine exists_congr fun c => and_congr_right fun hc => ?_
    rw [reportedByBloom_iff h hc, and_comm]
  · obtain ⟨params, hpar⟩ := compiled_of_mem h hc
    exact mem_matchedCategories.mpr ⟨c, hc, hpar.bloomHit_of_mem hmem, rfl⟩

/-- The text, the files and the tables after ingesting one hosts-file line for
the category `ads`. -/
def sampleHosts : Str := "0.0.0.0 ads.example\n"
def sampleFiles : Storage := (sampleIngested "ads" sampleHosts).files
def sampleDb : Db := ⟨[(sampleIngested "ads" sampleHosts).feed], []⟩

theorem attribution_of_ads_example :
    ∃ b, buildBundle (sampleCompile 59) sampleFiles sampleDb
        (samplePolicy [⟨"ads", .block⟩] []) 1 = some b ∧
      ∃ c ∈ b.categories, c.categoryId = "ads" ∧
        HoldsUpToHash sampleFiles sampleDb c "ads.example" := by
  obtain ⟨b, hb, hd⟩ : ∃ b, buildBundle (sampleCompile 59) sampleFiles sampleDb
      (samplePolicy [⟨"ads", .block⟩] []) 1 = some b ∧ Node.decide b "ads.example" =
        ⟨.block, .category, some "ads", some "hosts"⟩ := by decide +kernel
  refine ⟨b, hb, ?_⟩
  exact (attribution_of_compiled hb "ads.example").1 (by rw [hd]) _ (by rw [hd])

/-- A log-only decision and an upstream category for a name that neither is in
the category's set nor shares a hash with it: `example.org` against the single
domain `ads.example`, with the sizes the compiler chooses for one domain. -/
theorem logOnly_false_positive :
    ∃ b, buildBundle (sampleCompile 59) sampleFiles sampleDb
        (samplePolicy [⟨"ads".toList, .logOnly⟩] []) 1 = some b ∧
      (∀ c ∈ b.categories, c.exactHashes ≠ []) ∧
      Node.decide b "example.org".toList =
        ⟨.allow, .categoryLogOnly, some "ads".toList, some "hosts".toList⟩ ∧
      matchedCategories b "example.org".toList = ["ads".toList] ∧
      ∀ c ∈ b.categories, ¬HoldsUpToHash sampleFiles sampleDb c "example.org".toList := by
  decide +kernel

/-! ### Protected names -/

/-- A compile, with the storage and the tables it ran on. -/
structure CompileRecord where
  files : Storage
  db : Db
  bundle : Pb.Bundle

/-- The control plane as ingestion and compilation see it. -/
structure Plane where
  files : Storage
  db : Db
  compiled : List CompileRecord

/-- No stored feed files and nothing compiled. -/
def Plane.init (db : Db) : Plane := ⟨fun _ => none, db, []⟩

/-- The commit of a mutated feed row. -/
def Db.commitFeed (db : Db) (feed : Feed) : Db :=
  { db with feeds := db.feeds.map fun f => if f.id = feed.id then feed else f }

/-- `run_ingest` and `ingest_feed`: the row is committed only when the result
is "updated". -/
def Plane.ingest (U : CaseMap) (env : IngestEnv) (p : Plane) (feed : Feed) : Plane :=
  let out := fetchAndIngest U env p.files feed
  { p with
    files := out.files
    db := if out.result.any (·.status = .updated) then p.db.commitFeed out.feed else p.db }

/-- One event of the control plane. -/
inductive Plane.Step (U : CaseMap) (p : Plane) : Plane → Prop
  | ingest (env : IngestEnv) (feed : Feed) (hfeed : feed ∈ p.db.feeds) :
    Plane.Step U p (p.ingest U env feed)
  /-- Feeds and templates edited through the API. -/
  | edit (db : Db) : Plane.Step U p { p with db }
  | compile (env : CompileEnv) (policy : Policy) (version : ℕ) (b : Pb.Bundle)
      (h : buildBundle env p.files p.db policy version = some b) :
    Plane.Step U p { p with compiled := ⟨p.files, p.db, b⟩ :: p.compiled }

/-- A compile made from safe storage. -/
def CompileRecord.Safe (r : CompileRecord) : Prop :=
  r.files.Safe ∧ ∃ env policy version, buildBundle env r.files r.db policy version = some r.bundle

/-- The invariant of a run. -/
structure Plane.Safe (p : Plane) : Prop where
  files : p.files.Safe
  compiled : ∀ r ∈ p.compiled, r.Safe

theorem Plane.step_safe {p' : Plane} (hstep : Plane.Step U p p') (hp : p.Safe) :
    p'.Safe := by
  cases hstep with
  | ingest env feed => exact ⟨fetchAndIngest_safe U env feed hp.files, hp.compiled⟩
  | edit => exact ⟨hp.files, hp.compiled⟩
  | compile env policy version b h =>
    refine ⟨hp.files, fun r hr => ?_⟩
    rcases mem_cons.mp hr with rfl | hr
    · exact ⟨hp.files, env, policy, version, h⟩
    · exact hp.compiled r hr

theorem Plane.run_safe (hrun : Relation.ReflTransGen (Plane.Step U) (Plane.init db) p) :
    p.Safe := by
  induction hrun with
  | refl => exact ⟨Storage.safe_empty, by simp [Plane.init]⟩
  | tail _ hstep ih => exact Plane.step_safe hstep ih

theorem not_mem_categoryDomains (hsafe : files.Safe) {id name : Str}
    (hname : name ∈ mustNeverBlock) : name ∉ categoryDomains files db id := by
  intro hmem
  obtain ⟨f, -, hd⟩ := mem_categoryDomains.mp hmem
  exact hsafe f.id name hd hname

theorem normalize_mustNeverBlock : ∀ name ∈ mustNeverBlock,
    normalize name = name ∧ normalize ("www." ++ name) = name := by
  decide

/-- The category holds another domain with the name's 64-bit hash. -/
def CollidesWith (files : Storage) (db : Db) (c : Pb.CategorySet) (name : Str) : Prop :=
  ∃ params ∈ c.bloom, ∃ d ∈ categoryDomains files db c.categoryId, d ≠ name ∧
    Node.exactHash d params.seed = Node.exactHash name params.seed

instance (files : Storage) (db : Db) (c : Pb.CategorySet) (name : Str) :
    Decidable (CollidesWith files db c name) :=
  inferInstanceAs (Decidable (∃ params ∈ c.bloom, ∃ d ∈ _, _ ∧ _))

/-- **Critical domains stay reachable.**  After any run of ingests, edits and
compiles that starts without stored files, a compiled category blocks a name
of `MUST_NEVER_BLOCK`, or its `www.` form, only through a hash collision with
another stored domain; and an ingest that does not end in "updated" leaves the
stored file and the recorded row as they were. -/
theorem protected_names_never_blocked {U : CaseMap} {db : Db} {p : Plane}
    (hrun : Relation.ReflTransGen (Plane.Step U) (Plane.init db) p) :
    (∀ r ∈ p.compiled, ∀ name ∈ mustNeverBlock, ∀ q,
      Spelling name q ∨ Spelling ("www." ++ name) q →
      (Node.decide r.bundle q).matchedRule = .category →
      ∃ c ∈ r.bundle.categories,
        (Node.decide r.bundle q).matchedCategory = some c.categoryId ∧
          CollidesWith r.files r.db c name) ∧
    ∀ env feed, (∀ result, (fetchAndIngest U env p.files feed).result = some result →
        result.status ≠ .updated) →
      (p.ingest U env feed).files = p.files ∧ (p.ingest U env feed).db = p.db ∧
        (fetchAndIngest U env p.files feed).feed.lastDomainCount = feed.lastDomainCount := by
  constructor
  · intro r hr name hname q hq hrule
    obtain ⟨hfil, env, policy, version, hbun⟩ := (Plane.run_safe hrun).compiled r hr
    have hnorm : normalize q = name := by
      rcases hq with hq | hq
      · rw [normalize_spelling hq, (normalize_mustNeverBlock name hname).1]
      · rw [normalize_spelling hq, (normalize_mustNeverBlock name hname).2]
    -- the files hold no protected name, so a category that blocks one holds another of its hash
    have hv := decide_verdict r.bundle q
    rw [hnorm] at hv
    generalize Node.decide r.bundle q = out at hv hrule
    cases hv with
    | overrideAllow | overrideDeny => simp at hrule
    | category _ _ c hfind =>
      have hc := mem_of_find?_eq_some hfind
      obtain ⟨params, hpar, d, hd, hhash⟩ :=
        holdsUpToHash_of_blocks hbun hc (find?_some hfind)
      refine ⟨c, hc, rfl, params, hpar, d, hd, ?_, hhash⟩
      rintro rfl
      exact not_mem_categoryDomains hfil hname hd
    | categoryLogOnly => simp [categoryOutcome] at hrule
    | default => simp [defaultOutcome] at hrule
  · intro env feed hnot
    rcases fetchAndIngest_cases U env p.files feed with
      ⟨hfil, hfeed, -⟩ | ⟨parser, etag, body, -, -, -, heq⟩
    · refine ⟨hfil, if_neg ?_, by rw [hfeed]⟩
      intro hany
      obtain ⟨result, hres, hup⟩ := (Option.any_eq_true _ _).mp hany
      exact hnot result hres (of_decide_eq_true hup)
    · exact absurd rfl (hnot _ (by rw [heq]; rfl))

def samplePlane : Plane :=
  (Plane.init ⟨[sampleFeed "ads"], []⟩).ingest .ascii (sampleIngest sampleHosts)
    (sampleFeed "ads")

/-- Ingest one hosts file, compile it, and look at a protected name. -/
theorem google_reachable_after_ads_feed :
    ∃ p, Relation.ReflTransGen (Plane.Step .ascii)
        (Plane.init ⟨[sampleFeed "ads"], []⟩) p ∧
      p.files "hosts" = some "ads.example".toList ∧ p.compiled.length = 1 ∧
      ∀ r ∈ p.compiled,
        (Node.decide r.bundle "WWW.google.com.").matchedRule = .category →
        ∃ c ∈ r.bundle.categories, CollidesWith r.files r.db c "google.com" := by
  have hfile : samplePlane.files "hosts" = some "ads.example".toList := by decide +kernel
  obtain ⟨b, hb⟩ := isSome_iff_exists.mp (show (buildBundle (sampleCompile 59)
    samplePlane.files samplePlane.db (samplePolicy [⟨"ads", .block⟩] []) 1).isSome = true by
    decide +kernel)
  have hing : Plane.Step .ascii (Plane.init ⟨[sampleFeed "ads"], []⟩) samplePlane :=
    .ingest _ _ (mem_singleton.mpr rfl)
  have hrun := (Relation.ReflTransGen.single hing).tail (.compile _ _ _ b hb)
  refine ⟨_, hrun, hfile, rfl, fun r hr hrule => ?_⟩
  obtain ⟨c, hc, -, hcol⟩ := (protected_names_never_blocked hrun).1 r hr "google.com"
    (by decide) _ (.inr ⟨"WWW.google.com", 1, by decide, rfl⟩) hrule
  exact ⟨c, hc, hcol⟩

end Control
