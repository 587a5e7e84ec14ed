/-
The filter's verdict on a name: `decide`, `matched_categories` and `normalize`
of `mantis-filter/src/lib.rs`.

* `decide_verdict` — the loop over the categories as a precedence: allow override,
  deny override, the first blocking category, the first log-only category,
  default;
* `normalize_spelling` — letter case and trailing dots do not matter;
* `Control.Compiled.bloomHit_iff`, `Control.Compiled.confirms_iff` — what the
  two category tests mean on a category made by the compiler.
-/
import MantisDns.BinarySearch
import MantisDns.Compiler

open Text List

namespace Node

variable {t n : Str} {bundle : Pb.Bundle}

/-! ### `normalize` -/

/-- `normalize`. -/
def normalize (domain : Str) : Str :=
  let domain := lowerAscii (trimDots domain)
  match stripPrefix "www." domain with
  | some rest => rest
  | none => domain

theorem normalize_eq_dropWww (d : Str) :
    normalize d = Control.dropWww (lowerAscii (trimDots d)) := by
  rw [normalize]
  by_cases h : "www." <+: lowerAscii (trimDots d)
  · obtain ⟨rest, hrest⟩ := h
    rw [← hrest, Control.dropWww_www]
    simp only [stripPrefix_eq_some.mpr (Eq.refl ("www." ++ rest))]
  · simp only [stripPrefix_eq_none.mpr h]
    rw [Control.dropWww_of_not_prefix h]

theorem normalize_spelling {x q : Str} (h : Spelling x q) : normalize q = normalize x := by
  rw [normalize_eq_dropWww, normalize_eq_dropWww, h.trim_lower]

theorem normalizeDomain_eq_normalize (U : CaseMap) (hasc : IsAscii t) (hstr : strip t = t) :
    Control.normalizeDomain U t = normalize t := by
  rw [Control.normalizeDomain_ascii U hasc hstr, normalize_eq_dropWww]

theorem trim_lower_normalize (t : Str) :
    lowerAscii (trimDots (normalize t)) = normalize t := by
  rw [normalize_eq_dropWww]
  obtain ⟨pre, hpre⟩ := Control.dropWww_suffix (lowerAscii (trimDots t))
  -- a suffix of a lower-case string without trailing dots is one itself
  have htrim : trimDots (Control.dropWww (lowerAscii (trimDots t))) =
      Control.dropWww (lowerAscii (trimDots t)) := by
    refine trimDots_eq_self fun hlast => ?_
    refine getLast?_trimDots (lowerAscii t) ?_
    rw [trimDots_lowerAscii, ← hpre]
    exact mem_getLast?_append_of_mem_getLast? hlast
  rw [htrim]
  have hlow : lowerAscii (pre ++ Control.dropWww (lowerAscii (trimDots t))) =
      pre ++ Control.dropWww (lowerAscii (trimDots t)) := by
    rw [hpre, lowerAscii_idem]
  rw [lowerAscii_append] at hlow
  exact append_inj_right hlow (by simp [lowerAscii])

/-- A normal form that does not start with `www.` again is its own normal
form. -/
theorem normalize_normalize (h : ¬"www." <+: normalize t) :
    normalize (normalize t) = normalize t := by
  rw [normalize_eq_dropWww (normalize t), trim_lower_normalize, Control.dropWww_of_not_prefix h]

theorem normalize_www (hne : normalize t ≠ []) :
    normalize ("www." ++ normalize t) = normalize t := by
  have hlast : (normalize t).getLast? ≠ some '.' := by
    rw [← trim_lower_normalize t, ← trimDots_lowerAscii]
    exact getLast?_trimDots _
  have htrim : trimDots ("www." ++ normalize t) = "www." ++ normalize t := by
    refine trimDots_eq_self ?_
    rwa [getLast?_append_of_ne_nil _ hne]
  have hlow : lowerAscii (normalize t) = normalize t := by
    have := trim_lower_normalize t
    rwa [trimDots_eq_self hlast] at this
  rw [normalize_eq_dropWww, htrim, lowerAscii_append, hlow]
  exact Control.dropWww_www _

/-! ### `decide` -/

/-- `Decision`. -/
inductive Decision
  | allow
  | block
  deriving DecidableEq, Repr

/-- The values of `matched_rule`. -/
inductive MatchedRule
  | overrideAllow
  | overrideDeny
  | category
  | categoryLogOnly
  | default
  deriving DecidableEq, Repr

/-- The rule as it is written to logs and responses. -/
def MatchedRule.text : MatchedRule → Str
  | .overrideAllow => "override_allow"
  | .overrideDeny => "override_deny"
  | .category => "category"
  | .categoryLogOnly => "category_log_only"
  | .default => "default"

/-- `DecisionOutcome`. -/
structure DecisionOutcome where
  decision : Decision
  matchedRule : MatchedRule
  matchedCategory : Option Str
  matchedFeedId : Option Str
  deriving DecidableEq, Repr

/-- `BloomFilter::from_category(..)` is there and might contain the name. -/
def bloomHit (category : Pb.CategorySet) (qname : Str) : Bool :=
  (BloomFilter.fromCategory category).any (·.mightContain qname)

/-- `category_confirms_domain`: a category without exact hashes trusts its
bloom filter. -/
def categoryConfirmsDomain (category : Pb.CategorySet) (qname : Str) : Bool :=
  if category.exactHashes.isEmpty then true
  else
    let seed := (category.bloom.map (·.seed)).getD 0
    Slice.contains category.exactHashes (exactHash qname seed)

/-- The outcome a category leads to. -/
def categoryOutcome (decision : Decision) (rule : MatchedRule) (category : Pb.CategorySet) :
    DecisionOutcome :=
  { decision
    matchedRule := rule
    matchedCategory := some category.categoryId
    matchedFeedId := if category.sourceFeedId.isEmpty then none else some category.sourceFeedId }

/-- The outcome when nothing matches. -/
def defaultOutcome : DecisionOutcome := ⟨.allow, .default, none, none⟩

/-- The loop over the categories, with `log_only_match` as its accumulator. -/
def decideLoop (qname : Str) : Option DecisionOutcome → List Pb.CategorySet → DecisionOutcome
  | logOnlyMatch, [] => logOnlyMatch.getD defaultOutcome
  | logOnlyMatch, category :: rest =>
    if category.action = Pb.Action.block.toI32 then
      if bloomHit category qname && categoryConfirmsDomain category qname then
        categoryOutcome .block .category category
      else decideLoop qname logOnlyMatch rest
    else if category.action = Pb.Action.logOnly.toI32 ∧ logOnlyMatch.isNone then
      if bloomHit category qname then
        decideLoop qname (some (categoryOutcome .allow .categoryLogOnly category)) rest
      else decideLoop qname logOnlyMatch rest
    else decideLoop qname logOnlyMatch rest

/-- `decide`. -/
def decide (bundle : Pb.Bundle) (qname : Str) : DecisionOutcome :=
  let qname := normalize qname
  if bundle.allowOverrides.any (normalize · == qname) then ⟨.allow, .overrideAllow, none, none⟩
  else if bundle.denyOverrides.any (normalize · == qname) then ⟨.block, .overrideDeny, none, none⟩
  else decideLoop qname none bundle.categories

/-- `matched_categories`. -/
def matchedCategories (bundle : Pb.Bundle) (qname : Str) : List Str :=
  bundle.categories.filterMap fun cat =>
    ((BloomFilter.fromCategory cat).filter (·.mightContain (normalize qname))).map fun _ =>
      cat.categoryId

/-! ### The loop as a precedence -/

/-- A category that blocks the (normalised) name. -/
def blocks (qname : Str) (category : Pb.CategorySet) : Bool :=
  category.action == Pb.Action.block.toI32 && bloomHit category qname &&
    categoryConfirmsDomain category qname

/-- A log-only category that matches the (normalised) name. -/
def logs (qname : Str) (category : Pb.CategorySet) : Bool :=
  category.action == Pb.Action.logOnly.toI32 && bloomHit category qname

/-- What the categories say: the first that blocks, else the first that logs. -/
def categoriesOutcome (qname : Str) (logOnlyMatch : Option DecisionOutcome)
    (categories : List Pb.CategorySet) : DecisionOutcome :=
  match categories.find? (blocks qname) with
  | some category => categoryOutcome .block .category category
  | none =>
    (logOnlyMatch.or ((categories.find? (logs qname)).map
      (categoryOutcome .allow .categoryLogOnly))).getD defaultOutcome

theorem decideLoop_eq (qname : Str) (logOnlyMatch : Option DecisionOutcome)
    (categories : List Pb.CategorySet) :
    decideLoop qname logOnlyMatch categories =
      categoriesOutcome qname logOnlyMatch categories := by
  have hne : Pb.Action.block.toI32 ≠ Pb.Action.logOnly.toI32 := by decide
  -- over the categories, with any log-only match that the loop has found so far
  induction categories generalizing logOnlyMatch with
  | nil => simp [decideLoop, categoriesOutcome]
  | cons c rest ih =>
    rw [decideLoop]
    by_cases hblk : c.action = Pb.Action.block.toI32
    · have hlogs : logs qname c = false := by simp [logs, hblk, hne]
      rw [if_pos hblk]
      by_cases hhit : (bloomHit c qname && categoryConfirmsDomain c qname) = true
      · have hb : blocks qname c = true := by simpa [blocks, hblk] using hhit
        rw [if_pos hhit, categoriesOutcome, find?_cons_of_pos hb]
      · have hb : ¬blocks qname c = true := by simpa [blocks, hblk] using hhit
        rw [if_neg hhit, ih, categoriesOutcome, categoriesOutcome, find?_cons_of_neg hb,
          find?_cons_of_neg (by simp [hlogs])]
    · have hb : ¬blocks qname c = true := by simp [blocks, hblk]
      rw [if_neg hblk, categoriesOutcome, find?_cons_of_neg hb]
      by_cases hl : logs qname c = true
      · have hact : c.action = Pb.Action.logOnly.toI32 ∧ bloomHit c qname = true := by
          simpa [logs] using hl
        rw [find?_cons_of_pos hl]
        cases logOnlyMatch with
        | none => simp [hact, ih, categoriesOutcome]
        | some => simp [ih, categoriesOutcome]
      · rw [find?_cons_of_neg hl]
        by_cases hact : c.action = Pb.Action.logOnly.toI32
        · have hhit : bloomHit c qname = false := by simpa [logs, hact] using hl
          simp [hhit, ih, categoriesOutcome]
        · simp [hact, ih, categoriesOutcome]

/-- No override of the list normalises to `n`. -/
def NoneFor (overrides : List Str) (n : Str) : Prop := ∀ d ∈ overrides, normalize d ≠ n

instance (overrides : List Str) (n : Str) : Decidable (NoneFor overrides n) :=
  inferInstanceAs (Decidable (∀ d ∈ overrides, normalize d ≠ n))

theorem any_normalize_eq_false {overrides : List Str} :
    overrides.any (normalize · == n) = false ↔ NoneFor overrides n := by
  rw [List.any_eq_false]
  exact forall₂_congr fun d _ => by rw [beq_iff_eq]

/-- The outcomes `decide` can have on a name that normalises to `n`, in the
order of their precedence. -/
inductive Verdict (bundle : Pb.Bundle) (n : Str) : DecisionOutcome → Prop
  | overrideAllow (hallow : ¬NoneFor bundle.allowOverrides n) :
    Verdict bundle n ⟨.allow, .overrideAllow, none, none⟩
  | overrideDeny (hallow : NoneFor bundle.allowOverrides n)
      (hdeny : ¬NoneFor bundle.denyOverrides n) :
    Verdict bundle n ⟨.block, .overrideDeny, none, none⟩
  | category (hallow : NoneFor bundle.allowOverrides n) (hdeny : NoneFor bundle.denyOverrides n)
      (c : Pb.CategorySet) (hfind : bundle.categories.find? (blocks n) = some c) :
    Verdict bundle n (categoryOutcome .block .category c)
  | categoryLogOnly (hallow : NoneFor bundle.allowOverrides n)
      (hdeny : NoneFor bundle.denyOverrides n)
      (hblocks : bundle.categories.find? (blocks n) = none)
      (c : Pb.CategorySet) (hfind : bundle.categories.find? (logs n) = some c) :
    Verdict bundle n (categoryOutcome .allow .categoryLogOnly c)
  | default (hallow : NoneFor bundle.allowOverrides n) (hdeny : NoneFor bundle.denyOverrides n)
      (hblocks : bundle.categories.find? (blocks n) = none)
      (hlogs : bundle.categories.find? (logs n) = none) :
    Verdict bundle n defaultOutcome

/-- **`decide` follows the precedence.** -/
theorem decide_verdict (bundle : Pb.Bundle) (qname : Str) :
    Verdict bundle (normalize qname) (decide bundle qname) := by
  rw [decide, decideLoop_eq, categoriesOutcome]
  split
  · rename_i hallow
    refine .overrideAllow fun hnone => ?_
    rw [any_normalize_eq_false.mpr hnone] at hallow
    simp at hallow
  rename_i hallow
  have hallow := any_normalize_eq_false.mp (by simpa using hallow)
  split
  · rename_i hdeny
    refine .overrideDeny hallow fun hnone => ?_
    rw [any_normalize_eq_false.mpr hnone] at hdeny
    simp at hdeny
  rename_i hdeny
  have hdeny := any_normalize_eq_false.mp (by simpa using hdeny)
  cases hblocks : bundle.categories.find? (blocks (normalize qname)) with
  | some c => exact .category hallow hdeny c hblocks
  | none =>
    cases hlogs : bundle.categories.find? (logs (normalize qname)) with
    | some c => exact .categoryLogOnly hallow hdeny hblocks c hlogs
    | none => exact .default hallow hdeny hblocks hlogs

theorem Verdict.unique {out out' : DecisionOutcome} (h : Verdict bundle n out)
    (h' : Verdict bundle n out') : out = out' := by
  -- two different verdicts disagree about an override or about a search
  cases h <;> cases h' <;> simp_all

theorem decide_block_iff (bundle : Pb.Bundle) (qname : Str) :
    (decide bundle qname).decision = .block ↔
      NoneFor bundle.allowOverrides (normalize qname) ∧
        (¬NoneFor bundle.denyOverrides (normalize qname) ∨
          ∃ c ∈ bundle.categories, blocks (normalize qname) c = true) := by
  generalize hn : normalize qname = n
  have hv := decide_verdict bundle qname
  rw [hn] at hv
  generalize decide bundle qname = out at hv
  cases hv with
  | overrideAllow hallow => exact ⟨fun h => absurd h (by simp), fun h => absurd h.1 hallow⟩
  | overrideDeny hallow hdeny => exact ⟨fun _ => ⟨hallow, .inl hdeny⟩, fun _ => rfl⟩
  | category hallow hdeny c hfind =>
    exact ⟨fun _ => ⟨hallow, .inr ⟨c, mem_of_find?_eq_some hfind, find?_some hfind⟩⟩,
      fun _ => rfl⟩
  | categoryLogOnly hallow hdeny hblocks =>
    refine ⟨fun h => absurd h (by simp [categoryOutcome]), fun ⟨_, h⟩ => ?_⟩
    obtain ⟨c', hc', hb⟩ := h.resolve_left (not_not_intro hdeny)
    exact absurd hb (find?_eq_none.mp hblocks c' hc')
  | default hallow hdeny hblocks =>
    refine ⟨fun h => absurd h (by simp [defaultOutcome]), fun ⟨_, h⟩ => ?_⟩
    obtain ⟨c', hc', hb⟩ := h.resolve_left (not_not_intro hdeny)
    exact absurd hb (find?_eq_none.mp hblocks c' hc')

theorem decision_congr {bundle' : Pb.Bundle} (qname : Str)
    (hallow : bundle.allowOverrides.Perm bundle'.allowOverrides)
    (hdeny : bundle.denyOverrides.Perm bundle'.denyOverrides)
    (hcat : ∀ c, c.action = Pb.Action.block.toI32 →
      (c ∈ bundle.categories ↔ c ∈ bundle'.categories)) :
    (decide bundle qname).decision = (decide bundle' qname).decision := by
  have hnone : ∀ {l l' : List Str}, l.Perm l' → (NoneFor l (normalize qname) ↔
      NoneFor l' (normalize qname)) := by
    intro l l' hperm
    exact forall_congr' fun d => imp_congr_left hperm.mem_iff
  have hblocks : (∃ c ∈ bundle.categories, blocks (normalize qname) c = true) ↔
      ∃ c ∈ bundle'.categories, blocks (normalize qname) c = true := by
    refine exists_congr fun c => and_congr_left fun hc => hcat c ?_
    rw [blocks, Bool.and_eq_true, Bool.and_eq_true, beq_iff_eq] at hc
    exact hc.1.1
  have hiff : (decide bundle qname).decision = .block ↔
      (decide bundle' qname).decision = .block := by
    rw [decide_block_iff, decide_block_iff, hnone hallow, hnone hdeny, hblocks]
  -- there are two decisions
  cases hd : (decide bundle qname).decision <;> cases hd' : (decide bundle' qname).decision <;>
    simp_all

/-- **Precedence**: an allow override, a deny override, a blocking category wherever it stands,
the first log-only category, the default; the order of the lists does not matter for the
decision, nor do categories that log or allow. -/
theorem decide_precedence (bundle : Pb.Bundle) (qname : Str) :
    (∀ out, decide bundle qname = out ↔ Verdict bundle (normalize qname) out) ∧
    (∀ bundle' : Pb.Bundle, bundle.allowOverrides.Perm bundle'.allowOverrides →
      bundle.denyOverrides.Perm bundle'.denyOverrides →
      bundle.categories.Perm bundle'.categories →
      (decide bundle' qname).decision = (decide bundle qname).decision) ∧
    ∀ (before after : List Pb.CategorySet) (c : Pb.CategorySet),
      c.action = Pb.Action.logOnly.toI32 ∨ c.action = Pb.Action.allow.toI32 →
      (decide { bundle with categories := before ++ c :: after } qname).decision =
        (decide { bundle with categories := before ++ after } qname).decision := by
  refine ⟨fun out => ⟨?_, fun h => (decide_verdict bundle qname).unique h⟩, ?_, ?_⟩
  · rintro rfl
    exact decide_verdict bundle qname
  · intro bundle' hallow hdeny hcat
    exact (decision_congr qname hallow hdeny fun c _ => hcat.mem_iff).symm
  · intro before after c hc
    refine decision_congr qname (.refl _) (.refl _) fun c' hblk => ?_
    have hne : c' ≠ c := by
      rintro rfl
      rcases hc with hc | hc <;> exact absurd (hblk.symm.trans hc) (by decide)
    simp [hne]

/-- A bundle of overrides. -/
def overridesOnly (allowOverrides denyOverrides : List Str) : Pb.Bundle :=
  { tenantId := [], groupId := [], version := 1, builtAtUnix := 0, categories := []
    allowOverrides, denyOverrides, onLoadFailure := .failOpen, blockResponse := none
    signature := [], signerKeyId := [] }

theorem decide_precedence_swapped :
    (["a.test".toList, "b.test".toList].Perm ["b.test".toList, "a.test".toList]) ∧
      (decide (overridesOnly [] ["b.test".toList, "a.test".toList]) "A.test.".toList).decision =
        (decide (overridesOnly [] ["a.test".toList, "b.test".toList]) "A.test.".toList).decision ∧
      (decide (overridesOnly [] ["a.test".toList, "b.test".toList]) "A.test.".toList).decision =
        .block :=
  ⟨.swap _ _ _, (decide_precedence (overridesOnly [] ["a.test".toList, "b.test".toList])
    "A.test.".toList).2.1 (overridesOnly [] ["b.test".toList, "a.test".toList]) (.refl _)
    (.swap _ _ _) (.refl _), by decide +kernel⟩

theorem mem_matchedCategories {qname id : Str} :
    id ∈ matchedCategories bundle qname ↔
      ∃ c ∈ bundle.categories, bloomHit c (normalize qname) = true ∧ c.categoryId = id := by
  rw [matchedCategories, mem_filterMap]
  refine exists_congr fun c => and_congr_right fun _ => ?_
  rw [bloomHit]
  cases BloomFilter.fromCategory c with
  | none => simp
  | some bf => cases h : bf.mightContain (normalize qname) <;> simp [h, Option.filter]

end Node

/-! ### The category tests on compiled categories -/

namespace Control

variable {domains : List Str} {params : Pb.BloomParams} {cat : Pb.CategorySet}

theorem Compiled.fromCategory (h : Compiled domains params cat) :
    Node.BloomFilter.fromCategory cat =
      some (.ofWire params (buildBytes (.ofWire params) domains)) := by
  rw [Node.BloomFilter.fromCategory, h.bloom, h.bits]
  rfl

theorem Compiled.bloomHit_iff (h : Compiled domains params cat) (q : Str) :
    Node.bloomHit cat q = true ↔
      Bloom.Reports (BloomParams.ofWire params).probes {d | d ∈ domains} q := by
  rw [Node.bloomHit, h.fromCategory]
  exact Node.mightContain_buildBytes h.numBits_pos domains q

theorem Compiled.bloomHit_of_mem (h : Compiled domains params cat) {q : Str} (hq : q ∈ domains) :
    Node.bloomHit cat q = true :=
  (h.bloomHit_iff q).mpr (Bloom.reports_of_mem _ hq)

theorem Compiled.ne_nil_of_bloomHit (h : Compiled domains params cat) {q : Str}
    (hq : Node.bloomHit cat q = true) : domains ≠ [] := by
  rintro rfl
  have hemp : {d : Str | d ∈ ([] : List Str)} = ∅ := by simp
  have hrep := (h.bloomHit_iff q).mp hq
  rw [hemp] at hrep
  refine Bloom.not_reports_empty _ ?_ hrep
  have hpos : 0 < params.numHashes.toNat := UInt32.lt_iff_toNat_lt.mp h.numHashes_pos
  rw [← length_pos_iff, BloomParams.probes, length_map, length_range]
  exact hpos

theorem Compiled.confirms_iff (h : Compiled domains params cat) (hne : domains ≠ []) (q : Str) :
    Node.categoryConfirmsDomain cat q = true ↔
      ∃ d ∈ domains, Node.exactHash d params.seed = Node.exactHash q params.seed := by
  obtain ⟨d, hd⟩ := exists_mem_of_ne_nil _ hne
  have hhash : cat.exactHashes ≠ [] :=
    ne_nil_of_mem ((h.mem_exactHashes _).mpr ⟨d, hd, rfl⟩)
  rw [Node.categoryConfirmsDomain, if_neg (by simpa using hhash), h.bloom]
  show Slice.contains cat.exactHashes (Node.exactHash q params.seed) = true ↔ _
  rw [Slice.contains_iff_mem h.sorted, h.mem_exactHashes]

theorem Compiled.exists_hash_eq (h : Compiled domains params cat) {q : Str}
    (hhit : Node.bloomHit cat q = true) (hconf : Node.categoryConfirmsDomain cat q = true) :
    ∃ d ∈ domains, Node.exactHash d params.seed = Node.exactHash q params.seed :=
  (h.confirms_iff (h.ne_nil_of_bloomHit hhit) q).mp hconf

theorem Compiled.tests_of_mem (h : Compiled domains params cat) {q : Str} (hq : q ∈ domains) :
    Node.bloomHit cat q = true ∧ Node.categoryConfirmsDomain cat q = true :=
  ⟨h.bloomHit_of_mem hq, (h.confirms_iff (ne_nil_of_mem hq) q).mpr ⟨q, hq, rfl⟩⟩

end Control
