/-
The control plane's "test a domain" endpoint, `test_domain` in
`api/routers.py`, against the filter it simulates.

The endpoint reads the overrides and the feed files directly; the filter
works on the compiled bundle.  `testDomain_predicts_decide` says how far the
two agree, and `tester_misses_logOnly_false_positive` is where they part.
-/
import MantisDns.CategoryBlocking

open Text List
open Node hiding decide

namespace Control

/-! ### The endpoint -/

/-- `[a-z0-9]` under `re.IGNORECASE`, with the four non-ASCII letters whose
case folds into `[a-z]`. -/
def isAlnumIgnoreCase (c : Char) : Bool :=
  isAlnum c || ('A' ≤ c && c ≤ 'Z') || c == 'İ' || c == 'ı' || c == 'ſ' || c == 'K'

/-- `_DOMAIN_RE.match`. -/
def domainRe (s : Str) : Bool := matchesDotted isAlnumIgnoreCase s

/-- `PolicyTestRequest._valid_domain`: the normalised domain, or the
validator's error. -/
def validDomain (U : CaseMap) (v : Str) : Except Str Str :=
  let v := normalizeDomain U v
  if domainRe v then .ok v else .error "not a valid domain name"

/-- `PolicyTestResult`. -/
structure PolicyTestResult where
  domain : Str
  decision : Decision
  matched : MatchedRule
  matchedCategory : Option Str := none
  matchedFeedId : Option Str := none
  deriving DecidableEq

/-- The query of `test_domain`: enabled, ingested feeds of a category. -/
def testFeeds (db : Db) (categoryId : Str) : List Feed :=
  db.feeds.filter fun f => f.categoryId = categoryId && f.enabled && f.lastDomainCount.isSome

/-- The first feed of the category that lists the domain. -/
def matchingFeed (files : Storage) (db : Db) (domain categoryId : Str) : Option Feed :=
  (testFeeds db categoryId).find? fun f => domain ∈ loadDomains files f.id

/-- The result for a category that matched through a feed. -/
def categoryResult (domain : Str) (decision : Decision) (rule : MatchedRule)
    (categoryId : Str) (feed : Feed) : PolicyTestResult :=
  ⟨domain, decision, rule, some categoryId, some feed.id⟩

/-- The loop over the toggles, with `log_only_match` as its accumulator. -/
def testLoop (files : Storage) (db : Db) (domain : Str) :
    Option PolicyTestResult → List CategoryToggle → PolicyTestResult
  | logOnlyMatch, [] => logOnlyMatch.getD ⟨domain, .allow, .default, none, none⟩
  | logOnlyMatch, toggle :: rest =>
    if toggle.action ≠ .block ∧ toggle.action ≠ .logOnly then
      testLoop files db domain logOnlyMatch rest
    else
      match matchingFeed files db domain toggle.categoryId with
      | none => testLoop files db domain logOnlyMatch rest
      | some feed =>
        if toggle.action = .block then
          categoryResult domain .block .category toggle.categoryId feed
        else
          testLoop files db domain
            (logOnlyMatch.or
              (some (categoryResult domain .allow .categoryLogOnly toggle.categoryId feed))) rest

/-- `test_domain` on a validated domain. -/
def testDomain (U : CaseMap) (files : Storage) (db : Db) (policy : Policy) (domain : Str) :
    PolicyTestResult :=
  if policy.overrides.any fun o => o.kind = .allow && normalizeDomain U o.domain = domain then
    ⟨domain, .allow, .overrideAllow, none, none⟩
  else if policy.overrides.any fun o => o.kind = .deny && normalizeDomain U o.domain = domain then
    ⟨domain, .block, .overrideDeny, none, none⟩
  else testLoop files db domain none policy.categoryToggles

/-- What `PolicyUpsert` lets through: one of the three actions, one of the two
kinds, and bounded lengths. -/
structure Policy.Accepted (policy : Policy) : Prop where
  actions : ∀ t ∈ policy.categoryToggles,
    t.categoryId.length ≤ 64 ∧ (t.action = .block ∨ t.action = .logOnly ∨ t.action = .allow)
  kinds : ∀ o ∈ policy.overrides, o.domain.length ≤ 255 ∧ (o.kind = .allow ∨ o.kind = .deny)

/-! ### The loop as a precedence -/

theorem testFeeds_eq (db : Db) (categoryId : Str) :
    testFeeds db categoryId = fetchIngestedFeeds db categoryId := by
  rw [testFeeds, fetchIngestedFeeds, List.filter_filter]
  refine filter_congr fun f _ => ?_
  rw [Bool.and_comm]

theorem matchingFeed_isSome (files : Storage) (db : Db) (domain categoryId : Str) :
    (matchingFeed files db domain categoryId).isSome = true ↔
      domain ∈ categoryDomains files db categoryId := by
  rw [matchingFeed, testFeeds_eq, find?_isSome, mem_categoryDomains]
  simp only [decide_eq_true_eq]

/-- The toggle's category blocks the domain. -/
def toggleBlocks (files : Storage) (db : Db) (domain : Str) (toggle : CategoryToggle) : Bool :=
  toggle.action = .block && domain ∈ categoryDomains files db toggle.categoryId

/-- The toggle's category logs the domain. -/
def toggleLogs (files : Storage) (db : Db) (domain : Str) (toggle : CategoryToggle) : Bool :=
  toggle.action = .logOnly && domain ∈ categoryDomains files db toggle.categoryId

/-- The tester's decision, rule and category. -/
def PolicyTestResult.verdict (r : PolicyTestResult) :
    Decision × MatchedRule × Option Str := (r.decision, r.matched, r.matchedCategory)

/-- What the toggles say: the first that blocks, else the first that logs. -/
def togglesVerdict (files : Storage) (db : Db) (domain : Str)
    (logOnlyMatch : Option (Decision × MatchedRule × Option Str))
    (toggles : List CategoryToggle) : Decision × MatchedRule × Option Str :=
  match toggles.find? (toggleBlocks files db domain) with
  | some t => (.block, .category, some t.categoryId)
  | none =>
    (logOnlyMatch.or ((toggles.find? (toggleLogs files db domain)).map fun t =>
      (.allow, .categoryLogOnly, some t.categoryId))).getD (.allow, .default, none)

theorem testLoop_verdict (files : Storage) (db : Db) (domain : Str)
    (logOnlyMatch : Option PolicyTestResult) (toggles : List CategoryToggle) :
    (testLoop files db domain logOnlyMatch toggles).verdict =
      togglesVerdict files db domain (logOnlyMatch.map PolicyTestResult.verdict) toggles := by
  induction toggles generalizing logOnlyMatch with
  | nil => cases logOnlyMatch <;> rfl
  | cons t rest ih =>
    have hfeed := matchingFeed_isSome files db domain t.categoryId
    rw [testLoop]
    by_cases hskip : t.action ≠ .block ∧ t.action ≠ .logOnly
    · rw [if_pos hskip, ih, togglesVerdict, togglesVerdict,
        find?_cons_of_neg (by simp [toggleBlocks, hskip.1]),
        find?_cons_of_neg (by simp [toggleLogs, hskip.2])]
    rw [if_neg hskip]
    cases hm : matchingFeed files db domain t.categoryId with
    | none =>
      -- no feed lists the domain, so this toggle neither blocks nor logs
      have hnot : domain ∉ categoryDomains files db t.categoryId := by
        rw [← hfeed, hm]
        simp
      rw [ih, togglesVerdict, togglesVerdict, find?_cons_of_neg (by simp [toggleBlocks, hnot]),
        find?_cons_of_neg (by simp [toggleLogs, hnot])]
    | some =>
      have hmem : domain ∈ categoryDomains files db t.categoryId := by
        rw [← hfeed, hm]
        rfl
      by_cases hblk : t.action = .block
      · rw [togglesVerdict, find?_cons_of_pos (by simp [toggleBlocks, hblk, hmem])]
        simp only [if_pos hblk]
        rfl
      · have hlog : t.action = .logOnly := by
          by_contra hlog
          exact hskip ⟨hblk, hlog⟩
        simp only [if_neg hblk]
        rw [ih, togglesVerdict, togglesVerdict, find?_cons_of_neg (by simp [toggleBlocks, hblk]),
          find?_cons_of_pos (by simp [toggleLogs, hlog, hmem])]
        cases logOnlyMatch <;> rfl

/-! ### Tester and filter -/

theorem find?_forall₂ {α β : Type} {R : α → β → Prop} {p : α → Bool} {q : β → Bool}
    {l : List α} {l' : List β} (h : List.Forall₂ R l l')
    (hpq : ∀ a b, R a b → p a = true → q b = true) :
    match l'.find? q with
    | none => l.find? p = none
    | some b => ∃ a ∈ l, R a b ∧ (p a = true → l.find? p = some a) := by
  induction h with
  | nil => rfl
  | @cons a b l l' hab _ ih =>
    by_cases hq : q b = true
    · rw [find?_cons_of_pos hq]
      exact ⟨a, mem_cons_self, hab, fun hp => find?_cons_of_pos hp⟩
    · -- no hit on the right is none on the left
      have hp : ¬p a = true := fun hp => hq (hpq a b hab hp)
      rw [find?_cons_of_neg hq, find?_cons_of_neg hp]
      cases hfind : l'.find? q with
      | none => simpa [hfind] using ih
      | some =>
        simp only [hfind] at ih
        obtain ⟨a', ha', hR, hfst⟩ := ih
        exact ⟨a', mem_cons_of_mem _ ha', hR, hfst⟩

variable {files : Storage} {db : Db} {v : Str}
variable {t : CategoryToggle} {c : Pb.CategorySet} {env : CompileEnv} {policy : Policy}
  {version : ℕ} {b : Pb.Bundle}

/-- A toggle as the API stores it and its compiled category, on which the name
`v` has no hash collision. -/
structure Faithful (files : Storage) (db : Db) (v : Str) (t : CategoryToggle)
    (c : Pb.CategorySet) : Prop where
  compiled : CompiledToggle (categoryDomains files db t.categoryId) t c
  action : t.action = .block ∨ t.action = .logOnly ∨ t.action = .allow
  noCollision : blocks v c = true → v ∈ categoryDomains files db c.categoryId

theorem Faithful.action_eq_block (h : Faithful files db v t c) :
    c.action = Pb.Action.block.toI32 ↔ t.action = .block := by
  rw [h.compiled.action]
  rcases h.action with ha | ha | ha <;> rw [ha] <;> decide

theorem Faithful.action_eq_logOnly (h : Faithful files db v t c) :
    c.action = Pb.Action.logOnly.toI32 ↔ t.action = .logOnly := by
  rw [h.compiled.action]
  rcases h.action with ha | ha | ha <;> rw [ha] <;> decide

theorem Faithful.blocks_iff (h : Faithful files db v t c) :
    toggleBlocks files db v t = true ↔ blocks v c = true := by
  rw [toggleBlocks, Bool.and_eq_true, decide_eq_true_eq, decide_eq_true_eq]
  constructor
  · rintro ⟨hact, hmem⟩
    obtain ⟨params, hpar⟩ := h.compiled.compiled
    obtain ⟨hhit, hconf⟩ := hpar.tests_of_mem hmem
    rw [blocks, h.action_eq_block.mpr hact, hhit, hconf]
    rfl
  · intro hbls
    have hmem := h.noCollision hbls
    rw [h.compiled.categoryId] at hmem
    rw [blocks, Bool.and_eq_true, Bool.and_eq_true, beq_iff_eq] at hbls
    exact ⟨h.action_eq_block.mp hbls.1.1, hmem⟩

theorem Faithful.logs_of_toggleLogs (h : Faithful files db v t c)
    (hlogs : toggleLogs files db v t = true) :
    logs v c = true := by
  rw [toggleLogs, Bool.and_eq_true, decide_eq_true_eq, decide_eq_true_eq] at hlogs
  obtain ⟨params, hpar⟩ := h.compiled.compiled
  rw [logs, h.action_eq_logOnly.mpr hlogs.1, hpar.bloomHit_of_mem hlogs.2]
  rfl

theorem faithful_toggles (hpol : policy.Accepted)
    (hb : buildBundle env files db policy version = some b)
    (hno : ∀ c ∈ b.categories, blocks v c = true → v ∈ categoryDomains files db c.categoryId) :
    List.Forall₂ (Faithful files db v) policy.categoryToggles b.categories := by
  have hleft := (forall₂_and_left _ _).mpr
    ⟨fun t ht => (hpol.actions t ht).2, buildBundle_categories hb⟩
  have hrig := ((forall₂_and_left _ _).mpr ⟨hno, hleft.flip⟩).flip
  exact hrig.imp fun t c h => ⟨h.2.2, h.2.1, h.1⟩

theorem noneFor_iff {U : CaseMap} {overrides : List PolicyOverride} {p : PolicyOverride → Bool}
    {kind : OverrideKind} (hkind : ∀ o ∈ overrides, p o = true ↔ o.kind = kind)
    (hover : ∀ o ∈ overrides, normalize o.domain = v ↔ normalizeDomain U o.domain = v) :
    NoneFor ((overrides.filter p).map (·.domain)) v ↔
      (overrides.any fun o => o.kind = kind && normalizeDomain U o.domain = v) = false := by
  rw [List.any_eq_false, NoneFor]
  constructor
  · intro h o ho hmch
    simp only [Bool.and_eq_true, decide_eq_true_eq] at hmch
    refine h o.domain (List.mem_map.mpr ⟨o, mem_filter.mpr ⟨ho, ?_⟩, rfl⟩) ?_
    · exact (hkind o ho).mpr hmch.1
    · exact (hover o ho).mpr hmch.2
  · intro h d hd hnorm
    obtain ⟨o, ho, rfl⟩ := List.mem_map.mp hd
    obtain ⟨ho, hp⟩ := mem_filter.mp ho
    refine h o ho ?_
    simp only [Bool.and_eq_true, decide_eq_true_eq]
    exact ⟨(hkind o ho).mp hp, (hover o ho).mp hnorm⟩

/-- The filter's decision, rule and category. -/
def outcomeVerdict (o : DecisionOutcome) : Decision × MatchedRule × Option Str :=
  (o.decision, o.matchedRule, o.matchedCategory)

/-- The verdicts of tester and filter once no override applies and no blocking
category has a hash collision on `v`. -/
theorem togglesVerdict_eq (hb : buildBundle env files db policy version = some b)
    (hrel : List.Forall₂ (Faithful files db v) policy.categoryToggles b.categories) :
    togglesVerdict files db v none policy.categoryToggles =
        outcomeVerdict (categoriesOutcome v none b.categories) ∨
      ((togglesVerdict files db v none policy.categoryToggles).1 = .allow ∧
        ∃ c ∈ b.categories, categoriesOutcome v none b.categories =
            categoryOutcome .allow .categoryLogOnly c ∧
          ReportedByBloom files db c v ∧ v ∉ categoryDomains files db c.categoryId) := by
  -- the first blocking toggle belongs to the first blocking category
  have hblk := find?_forall₂ hrel fun t c h => h.blocks_iff.mp
  rw [togglesVerdict, categoriesOutcome]
  cases hfb : b.categories.find? (blocks v) with
  | some =>
    simp only [hfb] at hblk
    obtain ⟨t, -, hf, hfst⟩ := hblk
    rw [hfst (hf.blocks_iff.mpr (find?_some hfb))]
    refine .inl ?_
    simp only [outcomeVerdict, categoryOutcome, hf.compiled.categoryId]
  | none =>
    simp only [hfb] at hblk
    simp only [hblk, Option.none_or]
    have hlog := find?_forall₂ hrel fun t c h => h.logs_of_toggleLogs
    cases hfl : b.categories.find? (logs v) with
    | none =>
      simp only [hfl] at hlog
      rw [hlog]
      exact .inl rfl
    | some c =>
      simp only [hfl] at hlog
      obtain ⟨t, -, hf, hfst⟩ := hlog
      have hc := mem_of_find?_eq_some hfl
      have hlogs := find?_some hfl
      rw [logs, Bool.and_eq_true, beq_iff_eq] at hlogs
      by_cases hmem : v ∈ categoryDomains files db c.categoryId
      · -- a true match: the toggle logs as well, and is the first to
        refine .inl ?_
        rw [hfst]
        · simp [outcomeVerdict, categoryOutcome, hf.compiled.categoryId]
        · rw [toggleLogs, hf.action_eq_logOnly.mp hlogs.1, ← hf.compiled.categoryId]
          simpa using hmem
      · refine .inr ⟨?_, c, hc, rfl, (reportedByBloom_iff hb hc).mp hlogs.2, hmem⟩
        cases policy.categoryToggles.find? (toggleLogs files db v) <;> rfl

/-- **The policy tester predicts the filter.**  For an accepted policy and a
domain `d` the endpoint accepts as `v`, such that the filter normalises `d` to
`v` too and the two normalisers agree which overrides name `v`: tester and
filter have the same decision, rule and category, unless a blocking category
has a 64-bit hash collision on `v`, or the filter's log-only match is a bloom
false positive, and then both still allow. -/
theorem testDomain_predicts_decide {U : CaseMap} {env : CompileEnv} {files : Storage} {db : Db}
    {policy : Policy} {version : ℕ} {b : Pb.Bundle} (hpolicy : policy.Accepted)
    (hb : buildBundle env files db policy version = some b)
    {d v : Str} (hvalid : validDomain U d = .ok v) (hnorm : normalize d = v)
    (hover : ∀ o ∈ policy.overrides,
      normalize o.domain = v ↔ normalizeDomain U o.domain = v) :
    (testDomain U files db policy v).verdict = outcomeVerdict (Node.decide b d) ∨
    (∃ c ∈ b.categories, blocks v c = true ∧ CollidesWith files db c v) ∨
    ((testDomain U files db policy v).decision = .allow ∧ ∃ c ∈ b.categories,
      Node.decide b d = categoryOutcome .allow .categoryLogOnly c ∧
      ReportedByBloom files db c v ∧ v ∉ categoryDomains files db c.categoryId) := by
  obtain ⟨-, hal, hdeny⟩ := buildBundle_eq_some hb
  have hkin : ∀ o ∈ policy.overrides, decide (o.kind = .allow) = true ↔ o.kind = .allow :=
    fun o _ => decide_eq_true_iff
  have hkind : ∀ o ∈ policy.overrides, decide (o.kind ≠ .allow) = true ↔ o.kind = .deny := by
    intro o ho
    rcases (hpolicy.kinds o ho).2 with hk | hk <;> simp [hk]
  have hnoA := noneFor_iff hkin hover
  have hnoD := noneFor_iff hkind hover
  rw [← hal] at hnoA
  rw [← hdeny] at hnoD
  rw [testDomain, Node.decide, hnorm]
  by_cases ha : NoneFor b.allowOverrides v
  case neg =>
    -- an allow override decides both
    have hta := Bool.eq_true_of_not_eq_false fun h => ha (hnoA.mpr h)
    have hfa := Bool.eq_true_of_not_eq_false fun h => ha (any_normalize_eq_false.mp h)
    rw [if_pos hta, if_pos hfa]
    exact .inl rfl
  rw [hnoA.mp ha, any_normalize_eq_false.mpr ha]
  by_cases hd : NoneFor b.denyOverrides v
  case neg =>
    have htd := Bool.eq_true_of_not_eq_false fun h => hd (hnoD.mpr h)
    have hfd := Bool.eq_true_of_not_eq_false fun h => hd (any_normalize_eq_false.mp h)
    rw [htd, hfd]
    exact .inl rfl
  rw [hnoD.mp hd, any_normalize_eq_false.mpr hd, decideLoop_eq]
  simp only [Bool.false_eq_true, if_false]
  by_cases hcol : ∃ c ∈ b.categories, blocks v c = true ∧ v ∉ categoryDomains files db c.categoryId
  · obtain ⟨c, hc, hbls, hnot⟩ := hcol
    obtain ⟨params, hpar, x, hx, hhash⟩ := holdsUpToHash_of_blocks hb hc hbls
    refine .inr (.inl ⟨c, hc, hbls, params, hpar, x, hx, ?_, hhash⟩)
    rintro rfl
    exact hnot hx
  · have hrel := faithful_toggles (v := v) hpolicy hb fun c hc hbls => by
      by_contra hnot
      exact hcol ⟨c, hc, hbls, hnot⟩
    have hver := testLoop_verdict files db v none policy.categoryToggles
    rcases togglesVerdict_eq hb hrel with h | ⟨h, c, hc, hout, hrep, hnot⟩
    · exact .inl (hver.trans h)
    · refine .inr (.inr ⟨?_, c, hc, hout, hrep, hnot⟩)
      exact (congrArg Prod.fst hver).trans h

/-- A policy with one blocking category and one override. -/
def samplePolicyBlock : Policy :=
  samplePolicy [⟨"ads", .block⟩] [⟨"Good.example", .allow⟩]

/-- The tester on the sample feed, for a mixed-case query of its blocked
domain. -/
theorem tester_predicts_ads_example :
    ∃ b, buildBundle (sampleCompile 59) sampleFiles sampleDb samplePolicyBlock 1 = some b ∧
      (testDomain .ascii sampleFiles sampleDb samplePolicyBlock "ads.example").verdict =
        outcomeVerdict (Node.decide b "www.Ads.example.") := by
  obtain ⟨b, hb, hno⟩ : ∃ b, buildBundle (sampleCompile 59) sampleFiles sampleDb samplePolicyBlock
      1 = some b ∧ ∀ c ∈ b.categories, ¬CollidesWith sampleFiles sampleDb c "ads.example" := by
    decide +kernel
  have hblk : (testDomain .ascii sampleFiles sampleDb samplePolicyBlock
      "ads.example").decision = .block := by
    decide +kernel
  have hacc : samplePolicyBlock.Accepted := ⟨by decide +kernel, by decide +kernel⟩
  have hval : validDomain .ascii "www.Ads.example." = .ok "ads.example" := by
    rw [validDomain, if_pos (by decide +kernel)]
    rfl
  refine ⟨b, hb, ?_⟩
  rcases testDomain_predicts_decide hacc hb hval (by decide) (by decide) with
    h | ⟨c, hc, -, hcol⟩ | ⟨hal, -⟩
  · exact h
  · exact absurd hcol (hno c hc)
  · exact absurd (hblk.symm.trans hal) (by decide)

/-- The two part on a bloom false positive of a log-only category: the filter
attributes `example.org` to `ads`, whose only domain is `ads.example`, and the
tester reports no match. -/
theorem tester_misses_logOnly_false_positive :
    (samplePolicy [⟨"ads", .logOnly⟩] []).Accepted ∧
    validDomain .ascii "example.org" = .ok "example.org" ∧
    ∃ b, buildBundle (sampleCompile 59) sampleFiles sampleDb
        (samplePolicy [⟨"ads", .logOnly⟩] []) 1 = some b ∧
      (∀ c ∈ b.categories, ¬HoldsUpToHash sampleFiles sampleDb c "example.org") ∧
      (testDomain .ascii sampleFiles sampleDb (samplePolicy [⟨"ads", .logOnly⟩] [])
        "example.org").verdict = (.allow, .default, none) ∧
      outcomeVerdict (Node.decide b "example.org") =
        (.allow, .categoryLogOnly, some "ads".toList) := by
  refine ⟨⟨by decide +kernel, by decide⟩, ?_, ?_⟩
  · rw [validDomain, if_pos (by decide +kernel)]
    rfl
  · decide +kernel

end Control
