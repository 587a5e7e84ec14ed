/-
Compiling a policy into a bundle: `compiler/build_policy_bundle.py`.

The database is a record of the rows the compiler reads; the randomness (one
seed per category), the sizing arithmetic, the clock and the order in which
worker processes finish are in `CompileEnv`.  `buildBundle` is `none` where
the protobuf bindings refuse a number or a query finds two rows where it
expects one.

* `computeResults_get` — whatever the completion order, `results[i]` is the
  bloom of the `i`-th category;
* `buildBundle_categories` — the bundle's categories are, toggle by toggle,
  compiled from the union of the category's stored domains.
-/
import MantisDns.Ingest
import MantisDns.NextPrime

open Text List
open Option hiding join

namespace Control

variable {entries : List (List Feed × ℕ)} {i version : ℕ} {feeds : List Feed} {domains : List Str}
  {env : CompileEnv} {db : Db} {policy : Policy} {b : Pb.Bundle}

/-! ### Policies and the database -/

/-- The `action` column of a category toggle. -/
inductive ToggleAction
  | block
  | logOnly
  | allow
  | unknown (name : Str)
  deriving DecidableEq

/-- `PolicyCategoryToggle`. -/
structure CategoryToggle where
  categoryId : Str
  action : ToggleAction
  deriving DecidableEq

/-- The `kind` column of an override. -/
inductive OverrideKind
  | allow
  | deny
  | unknown (name : Str)
  deriving DecidableEq

/-- `PolicyOverride`. -/
structure PolicyOverride where
  domain : Str
  kind : OverrideKind
  deriving DecidableEq

/-- The `on_load_failure` column. -/
inductive LoadFailure
  | failOpen
  | failClosed
  | unknown (name : Str)
  deriving DecidableEq

/-- `Policy`, with the tenant of its group. -/
structure Policy where
  tenantId : Str
  groupId : Str
  onLoadFailure : LoadFailure
  categoryToggles : List CategoryToggle
  overrides : List PolicyOverride
  deriving DecidableEq

/-- The `block_mode` column. -/
inductive BlockModeName
  | unspecified
  | nxdomain
  | zeroIp
  | redirect
  | unknown (name : Str)
  deriving DecidableEq

/-- The hot-path columns of `BlockPageTemplate`. -/
structure BlockPageTemplate where
  tenantId : Str
  groupId : Option Str
  blockMode : BlockModeName
  redirectIpv4 : Option Str
  redirectIpv6 : Option Str
  ttlSeconds : ℕ
  deriving DecidableEq

/-- The tables the compiler reads.  Feed rows are listed in the order of
`order_by(Feed.id)`, whatever collation the database has. -/
structure Db where
  feeds : List Feed
  templates : List BlockPageTemplate

/-- `_fetch_ingested_feeds`. -/
def fetchIngestedFeeds (db : Db) (categoryId : Str) : List Feed :=
  (db.feeds.filter fun f => f.categoryId = categoryId && f.enabled).filter
    (·.lastDomainCount.isSome)

/-- `scalar_one_or_none`: raises on two rows. -/
def scalarOneOrNone {α : Type} : List α → Option (Option α)
  | [] => some none
  | [a] => some (some a)
  | _ => none

/-- `resolve_block_template` for a policy's group. -/
def resolveBlockTemplate (db : Db) (tenantId groupId : Str) : Option (Option BlockPageTemplate) :=
  (scalarOneOrNone (db.templates.filter fun t => t.tenantId = tenantId &&
      t.groupId = some groupId)).bind
    fun
    | some override => some (some override)
    | none =>
      scalarOneOrNone (db.templates.filter fun t => t.tenantId = tenantId && t.groupId = none)

/-! ### `_compile_bloom` -/

/-- The union of the feeds' stored domains. -/
def unionDomains (files : Storage) (feedIds : List Str) : List Str :=
  (feedIds.flatMap (loadDomains files)).dedup

/-- `sorted({exact_hash(domain, seed) for domain in domains})`. -/
def exactHashList (domains : List Str) (seed : ℕ) : List ℕ :=
  (domains.map (exactHash · seed)).dedup.insertionSort (· ≤ ·)

/-- An entry of `results`. -/
structure CompiledBloom where
  bloomBytes : List UInt8
  params : BloomParams
  exactHashes : List ℕ

/-- `_compile_bloom`. -/
def compileBloom (sizing : Sizing) (files : Storage) (seed : UInt64) (feedIds : List Str) :
    CompiledBloom :=
  let domains := unionDomains files feedIds
  let params := recommendedParams sizing (max domains.length 1) seed
  ⟨buildBytes params domains, params, exactHashList domains params.seed⟩

/-- The entry of a category without ingested feeds, sized by
`_EMPTY_CATEGORY_PARAMS`. -/
def emptyBloom (sizing : Sizing) (seed : UInt64) : CompiledBloom :=
  let params := recommendedParams sizing 1000 seed
  ⟨(BloomFilterBuilder.new params).bits, params, []⟩

/-- `c` is a filter over exactly `domains`. -/
structure CompiledBloom.Over (c : CompiledBloom) (domains : List Str) : Prop where
  numBits_pos : 0 < c.params.numBits
  numHashes_pos : 0 < c.params.numHashes
  bytes : c.bloomBytes = buildBytes c.params domains
  hashes : c.exactHashes = exactHashList domains c.params.seed

theorem compileBloom_over (sizing : Sizing) (files : Storage) (seed : UInt64)
    (feedIds : List Str) :
    (compileBloom sizing files seed feedIds).Over (unionDomains files feedIds) :=
  ⟨recommendedParams_numBits_pos _ _ _, recommendedParams_numHashes_pos _ _ _, rfl, rfl⟩

theorem emptyBloom_over (sizing : Sizing) (seed : UInt64) :
    (emptyBloom sizing seed).Over [] :=
  ⟨recommendedParams_numBits_pos _ _ _, recommendedParams_numHashes_pos _ _ _, rfl, rfl⟩

/-! ### Collecting the results -/

/-- `as_completed`: yields each submitted future once, in some order. -/
structure CompletionOrder where
  order : List (List Feed × ℕ) → List (List Feed × ℕ)
  perm : ∀ futures, (order futures).Perm futures

/-- What a compile depends on besides the database and the storage. -/
structure CompileEnv where
  sizing : Sizing
  /-- `_random_seed()` of the `i`-th category's worker. -/
  seeds : ℕ → UInt64
  /-- The seed in `_EMPTY_CATEGORY_PARAMS`. -/
  emptySeed : UInt64
  completion : CompletionOrder
  builtAtUnix : Int64

/-- The dictionary `results`. -/
abbrev Results := ℕ → Option CompiledBloom

/-- `results[i] = f(...)` for each listed category. -/
def fillResults (f : List Feed × ℕ → CompiledBloom) (entries : List (List Feed × ℕ))
    (results : Results) : Results :=
  entries.foldl (fun r p => Function.update r p.2 (some (f p))) results

/-- Phase 2 of `build_bundle`: empty categories first, then the computed ones,
through the pool when there is more than one. -/
def computeResults (env : CompileEnv) (files : Storage) (toggleFeeds : List (List Feed)) :
    Results :=
  let needsCompute := toggleFeeds.zipIdx.filter fun p => !p.1.isEmpty
  let empties := toggleFeeds.zipIdx.filter fun p => p.1.isEmpty
  let finished :=
    if needsCompute.length > 1 then env.completion.order needsCompute else needsCompute
  fillResults (fun p => compileBloom env.sizing files (env.seeds p.2) (p.1.map Feed.id)) finished
    (fillResults (fun _ => emptyBloom env.sizing env.emptySeed) empties fun _ => none)

theorem fillResults_of_not_mem (f : List Feed × ℕ → CompiledBloom) (h : ∀ p ∈ entries, p.2 ≠ i)
    (results : Results) :
    fillResults f entries results i = results i := by
  induction entries generalizing results with
  | nil => rfl
  | cons p entries ih =>
    rw [fillResults, foldl_cons]
    refine (ih (fun q hq => h q (mem_cons_of_mem p hq)) _).trans ?_
    exact Function.update_of_ne (h p mem_cons_self).symm _ _

variable {p : List Feed × ℕ} {files : Storage}

/-- An entry that is the only one with its index ends up in the dictionary,
wherever in the order it comes. -/
theorem fillResults_of_mem (f : List Feed × ℕ → CompiledBloom) (hp : p ∈ entries)
    (huniq : ∀ q ∈ entries, q.2 = p.2 → q = p) (results : Results) :
    fillResults f entries results p.2 = some (f p) := by
  induction entries generalizing results with
  | nil => simp at hp
  | cons q entries ih =>
    rw [fillResults, foldl_cons]
    by_cases hmem : p ∈ entries
    · exact ih hmem (fun r hr => huniq r (mem_cons_of_mem q hr)) _
    · -- `p` is the head, and no later entry has its index
      have hqp : p = q := (mem_cons.mp hp).resolve_right hmem
      subst hqp
      refine (fillResults_of_not_mem f (fun r hr hrp => ?_) _).trans (Function.update_self _ _ _)
      exact hmem (huniq r (mem_cons_of_mem _ hr) hrp ▸ hr)

theorem zipIdx_unique {l : List (List Feed)} {q : List Feed × ℕ} (hp : p ∈ l.zipIdx)
    (hq : q ∈ l.zipIdx) (h : q.2 = p.2) : q = p := by
  rw [mem_zipIdx_iff_getElem?] at hp hq
  rw [h, hp] at hq
  exact Prod.ext (some_inj.mp hq).symm h

/-- **The completion order does not matter**: `results[i]` is the bloom over
the `i`-th category's stored domains. -/
theorem computeResults_get (env : CompileEnv) (files : Storage) {toggleFeeds : List (List Feed)}
    (h : toggleFeeds[i]? = some feeds) :
    ∃ c, computeResults env files toggleFeeds i = some c ∧
      c.Over (unionDomains files (feeds.map Feed.id)) := by
  have hmem : (feeds, i) ∈ toggleFeeds.zipIdx := mk_mem_zipIdx_iff_getElem?.mpr h
  have huniq : ∀ q ∈ toggleFeeds.zipIdx, q.2 = i → q = (feeds, i) := fun q hq hqi =>
    zipIdx_unique hmem hq hqi
  -- membership in the finished list is membership in `needs_compute`
  have hfin : ∀ q, q ∈ (if (toggleFeeds.zipIdx.filter fun p => !p.1.isEmpty).length > 1 then
        env.completion.order (toggleFeeds.zipIdx.filter fun p => !p.1.isEmpty)
      else toggleFeeds.zipIdx.filter fun p => !p.1.isEmpty) ↔
      q ∈ toggleFeeds.zipIdx ∧ q.1.isEmpty = false := by
    intro q
    split
    · rw [(env.completion.perm _).mem_iff, mem_filter, Bool.not_eq_true']
    · rw [mem_filter, Bool.not_eq_true']
  rw [computeResults]
  by_cases hemp : feeds = []
  · subst hemp
    refine ⟨_, ?_, emptyBloom_over env.sizing env.emptySeed⟩
    rw [fillResults_of_not_mem]
    · exact fillResults_of_mem (fun _ => emptyBloom env.sizing env.emptySeed)
        (mem_filter.mpr ⟨hmem, rfl⟩) (fun q hq => huniq q (mem_filter.mp hq).1) _
    · intro q hq hqi
      obtain ⟨hq, hne⟩ := (hfin q).mp hq
      rw [huniq q hq hqi] at hne
      simp at hne
  · refine ⟨_, ?_, compileBloom_over env.sizing files (env.seeds i) _⟩
    refine fillResults_of_mem
      (fun p => compileBloom env.sizing files (env.seeds p.2) (p.1.map Feed.id))
      ((hfin (feeds, i)).mpr ⟨hmem, ?_⟩) (fun q hq => huniq q ((hfin q).mp hq).1) _
    simpa using hemp

/-! ### `build_bundle` -/

/-- `_ACTION_MAP.get(toggle.action, ACTION_BLOCK)`. -/
def actionMap : ToggleAction → Pb.Action
  | .block => .block
  | .logOnly => .logOnly
  | .allow => .allow
  | .unknown _ => .block

/-- `_FAILURE_POLICY_MAP.get(policy.on_load_failure, FAIL_OPEN)`. -/
def failurePolicyMap : LoadFailure → Pb.FailurePolicy
  | .failOpen => .failOpen
  | .failClosed => .failClosed
  | .unknown _ => .failOpen

/-- `_BLOCK_MODE_MAP.get(template.block_mode, BLOCK_MODE_NXDOMAIN)`. -/
def blockModeMap : BlockModeName → Pb.BlockMode
  | .unspecified => .unspecified
  | .nxdomain => .nxdomain
  | .zeroIp => .zeroIp
  | .redirect => .redirect
  | .unknown _ => .nxdomain

/-- The `CategorySet` message of one toggle. -/
def categorySet (toggle : CategoryToggle) (feeds : List Feed) (c : CompiledBloom) :
    Option Pb.CategorySet := do
  let numHashes ← Pb.toU32 c.params.numHashes
  let numBits ← Pb.toU64 c.params.numBits
  let seed ← Pb.toU64 c.params.seed
  let exactHashes ← c.exactHashes.mapM Pb.toU64
  return {
    categoryId := toggle.categoryId
    sourceFeedId := join "," (feeds.map Feed.id)
    feedVersion := join "," (feeds.map fun f => f.lastVersion.getD [])
    license := join "," (sorted ((feeds.map Feed.license).filter (· ≠ [])).dedup)
    bloom := some ⟨numHashes, numBits, seed⟩
    bloomBits := c.bloomBytes
    action := (actionMap toggle.action).toI32
    exactHashes }

/-- The `block_response` field: absent for NXDOMAIN. -/
def blockResponse (db : Db) (policy : Policy) : Option (Option Pb.BlockResponse) := do
  let template ← resolveBlockTemplate db policy.tenantId policy.groupId
  match template with
  | none => return none
  | some t =>
    if t.blockMode = .nxdomain then return none
    else
      let ttlSeconds ← Pb.toU32 t.ttlSeconds
      return some ⟨blockModeMap t.blockMode, t.redirectIpv4.getD [], t.redirectIpv6.getD [],
        ttlSeconds⟩

/-- The categories of a bundle, in the order of the policy's toggles. -/
def buildCategories (env : CompileEnv) (files : Storage) (db : Db)
    (toggles : List CategoryToggle) : Option (List Pb.CategorySet) :=
  let toggleFeeds := toggles.map fun t => (t, fetchIngestedFeeds db t.categoryId)
  let results := computeResults env files (toggleFeeds.map Prod.snd)
  toggleFeeds.zipIdx.mapM fun p => (results p.2).bind (categorySet p.1.1 p.1.2)

/-- `build_bundle`; signing adds the last two fields. -/
def buildBundle (env : CompileEnv) (files : Storage) (db : Db) (policy : Policy)
    (version : ℕ) : Option Pb.Bundle := do
  let version ← Pb.toU64 version
  let categories ← buildCategories env files db policy.categoryToggles
  let blockResponse ← blockResponse db policy
  return {
    tenantId := policy.tenantId
    groupId := policy.groupId
    version
    builtAtUnix := env.builtAtUnix
    categories
    allowOverrides := (policy.overrides.filter (·.kind = .allow)).map (·.domain)
    denyOverrides := (policy.overrides.filter (·.kind ≠ .allow)).map (·.domain)
    onLoadFailure := failurePolicyMap policy.onLoadFailure
    blockResponse
    signature := []
    signerKeyId := [] }

/-! ### What a compiled category holds -/

/-- `cat` carries a well-formed filter and the sorted exact hashes of exactly
`domains`. -/
structure Compiled (domains : List Str) (params : Pb.BloomParams) (cat : Pb.CategorySet) :
    Prop where
  bloom : cat.bloom = some params
  numBits_pos : 0 < params.numBits
  numHashes_pos : 0 < params.numHashes
  bits : cat.bloomBits = buildBytes (.ofWire params) domains
  sorted : cat.exactHashes.Pairwise (· ≤ ·)
  mem_exactHashes : ∀ h, h ∈ cat.exactHashes ↔ ∃ d ∈ domains, Node.exactHash d params.seed = h

theorem map_eq_of_forall₂ {α β : Type} {g : β → α} {l : List α} {l' : List β}
    (h : List.Forall₂ (fun a b => g b = a) l l') : l'.map g = l := by
  induction h with
  | nil => rfl
  | cons hx _ ih => rw [map_cons, ih, hx]

theorem exactHashes_wire {seed : UInt64} {hashes : List UInt64}
    (h : (exactHashList domains seed.toNat).mapM Pb.toU64 = some hashes) :
    hashes.Pairwise (· ≤ ·) ∧
      ∀ x, x ∈ hashes ↔ ∃ d ∈ domains, Node.exactHash d seed = x := by
  -- on the wire they are the same numbers, as `u64`
  have hmap : hashes.map UInt64.toNat = exactHashList domains seed.toNat := by
    refine map_eq_of_forall₂ ?_
    exact (forall₂_of_mapM h).imp fun _ _ => Pb.toU64_eq_some
  constructor
  · have hsor : (hashes.map UInt64.toNat).Pairwise (· ≤ ·) := by
      rw [hmap]
      exact pairwise_insertionSort _ _
    rw [pairwise_map] at hsor
    exact hsor.imp UInt64.le_iff_toNat_le.mpr
  · intro x
    have hx : x ∈ hashes ↔ x.toNat ∈ hashes.map UInt64.toNat := by
      rw [List.mem_map]
      exact ⟨fun hx => ⟨x, hx, rfl⟩, fun ⟨y, hy, hyx⟩ => UInt64.toNat_inj.mp hyx ▸ hy⟩
    rw [hx, hmap, exactHashList, mem_insertionSort, mem_dedup, List.mem_map]
    refine exists_congr fun d => and_congr_right fun _ => ?_
    rw [← Node.toNat_exactHash, UInt64.toNat_inj]

/-- What `build_bundle` makes of one toggle over a set of domains. -/
structure CompiledToggle (domains : List Str) (toggle : CategoryToggle) (cat : Pb.CategorySet) :
    Prop where
  categoryId : cat.categoryId = toggle.categoryId
  action : cat.action = (actionMap toggle.action).toI32
  compiled : ∃ params, Compiled domains params cat

theorem categorySet_compiled {toggle : CategoryToggle} {c : CompiledBloom} (hc : c.Over domains)
    {cat : Pb.CategorySet} (h : categorySet toggle feeds c = some cat) :
    CompiledToggle domains toggle cat := by
  simp only [categorySet, bind_eq_bind, bind_eq_some_iff, Option.pure_def, some_inj] at h
  obtain ⟨nh, hnh, nb, hnb, seed, hseed, hashes, hhas, rfl⟩ := h
  have hnh' := Pb.toU32_eq_some hnh
  have hnb' := Pb.toU64_eq_some hnb
  have hseed' := Pb.toU64_eq_some hseed
  -- the parameters that the reader gets are those of the builder
  have hpar : BloomParams.ofWire ⟨nh, nb, seed⟩ = c.params := by
    cases hp : c.params with
    | mk =>
      simp only [hp] at hnh' hnb' hseed'
      simp only [BloomParams.ofWire, hnh', hnb', hseed']
  rw [hc.hashes, ← hseed'] at hhas
  obtain ⟨hsor, hmem⟩ := exactHashes_wire hhas
  refine ⟨rfl, rfl, ⟨nh, nb, seed⟩, rfl, ?_, ?_, ?_, hsor, hmem⟩
  · exact UInt64.lt_iff_toNat_lt.mpr (by rw [hnb']; exact hc.numBits_pos)
  · exact UInt32.lt_iff_toNat_lt.mpr (by rw [hnh']; exact hc.numHashes_pos)
  · rw [hpar]
    exact hc.bytes

/-- The domains of a category: the union over its enabled, ingested feeds. -/
def categoryDomains (files : Storage) (db : Db) (categoryId : Str) : List Str :=
  unionDomains files ((fetchIngestedFeeds db categoryId).map Feed.id)

/-- **The categories of a bundle**, toggle by toggle and for every completion
order and every choice of seeds. -/
theorem buildCategories_spec {toggles : List CategoryToggle} {cats : List Pb.CategorySet}
    (h : buildCategories env files db toggles = some cats) :
    List.Forall₂ (fun toggle cat =>
      CompiledToggle (categoryDomains files db toggle.categoryId) toggle cat) toggles cats := by
  have hrel := forall₂_of_mapM h
  rw [forall₂_iff_get] at hrel ⊢
  obtain ⟨hlen, hget⟩ := hrel
  simp only [length_zipIdx, length_map] at hlen
  refine ⟨hlen, fun i hi hi' => ?_⟩
  have hcat := hget i (by simpa using hi) hi'
  simp only [get_eq_getElem, getElem_zipIdx, getElem_map, zero_add, bind_eq_some_iff] at hcat ⊢
  obtain ⟨c, hc, hset⟩ := hcat
  -- the entry read at `i` is the one computed for the `i`-th toggle
  have hfee : ((toggles.map fun t => (t, fetchIngestedFeeds db t.categoryId)).map Prod.snd)[i]? =
      some (fetchIngestedFeeds db toggles[i].categoryId) := by
    simp [hi]
  obtain ⟨c', hc', hover⟩ := computeResults_get env files hfee
  rw [hc, some_inj] at hc'
  subst hc'
  exact categorySet_compiled hover hset

theorem buildBundle_eq_some (h : buildBundle env files db policy version = some b) :
    buildCategories env files db policy.categoryToggles = some b.categories ∧
      b.allowOverrides = (policy.overrides.filter (·.kind = .allow)).map (·.domain) ∧
      b.denyOverrides = (policy.overrides.filter (·.kind ≠ .allow)).map (·.domain) := by
  simp only [buildBundle, bind_eq_bind, bind_eq_some_iff, Option.pure_def, some_inj] at h
  obtain ⟨_, -, cats, hcats, _, -, rfl⟩ := h
  exact ⟨hcats, rfl, rfl⟩

theorem buildBundle_version (h : buildBundle env files db policy version = some b) :
    b.version.toNat = version := by
  simp only [buildBundle, bind_eq_bind, bind_eq_some_iff, Option.pure_def, some_inj] at h
  obtain ⟨_, hver, _, -, _, -, rfl⟩ := h
  exact Pb.toU64_eq_some hver

theorem buildBundle_categories (h : buildBundle env files db policy version = some b) :
    List.Forall₂ (fun toggle cat =>
      CompiledToggle (categoryDomains files db toggle.categoryId) toggle cat)
      policy.categoryToggles b.categories :=
  buildCategories_spec (buildBundle_eq_some h).1

theorem mem_categoryDomains {categoryId d : Str} :
    d ∈ categoryDomains files db categoryId ↔
      ∃ f ∈ fetchIngestedFeeds db categoryId, d ∈ loadDomains files f.id := by
  rw [categoryDomains, unionDomains, mem_dedup, mem_flatMap]
  exact ⟨fun ⟨id, hid, hd⟩ => by
      obtain ⟨f, hf, rfl⟩ := List.mem_map.mp hid
      exact ⟨f, hf, hd⟩,
    fun ⟨f, hf, hd⟩ => ⟨f.id, List.mem_map_of_mem hf, hd⟩⟩

end Control
