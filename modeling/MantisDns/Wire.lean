/-
Enforcement at the wire.

Feeds and zones hold names as the text of their ASCII labels; the filter
decides on `Name::to_utf8` of the wire name, which hickory decodes label by
label (`Hickory.Renders`).  Both agree as long as no label starts with `xn--`.

* `wire_enforcement_iff` — exactly when a query for a blocked or hosted wire
  name is treated as such;
* `punycode_bypass` — an internationalised domain that is listed but
  forwarded, and a hosted internationalised zone whose names are forwarded.
-/
import MantisDns.CategoryBlocking
import MantisDns.Response

open Text Dns List

namespace Node

/-! ### How hickory prints wire names -/

/-- The prefix of an internationalised label. -/
def idnaPrefix : Label := utf8 "xn--"

/-- A label of letters, digits and hyphens. -/
def IsLdh (label : Label) : Prop :=
  label ≠ [] ∧ ∀ c ∈ lowerAscii (labelText label), (Control.isAlnum c || c == '-') = true

instance (label : Label) : Decidable (IsLdh label) :=
  @instDecidableAnd (label ≠ []) _ inferInstance
    (List.decidableBAll (fun c : Char => (Control.isAlnum c || c == '-') = true)
      (lowerAscii (labelText label)))

/-- The name whose labels are decoded one by one. -/
def decoded (render : Label → Str) (labels : List Label) : Str :=
  join "." (labels.map render) ++ "."

/-- `Name::to_utf8` on names from the wire: label by label, where a
letter-digit-hyphen label without the prefix `xn--` is printed as itself. -/
structure Hickory.Renders (H : Hickory) (render : Label → Str) : Prop where
  toUtf8_wire : ∀ labels, labels ≠ [] → H.toUtf8 ⟨labels, true⟩ = decoded render labels
  render_plain : ∀ label, IsLdh label → ¬idnaPrefix <+: label → render label = labelText label

/-- The text of a list of labels, in lower case. -/
def lowerLabels (labels : List Label) : List Str := labels.map fun l => lowerAscii (labelText l)

/-- No label is one that hickory decodes. -/
def NoIdna (labels : List Label) : Prop := ∀ l ∈ labels, ¬idnaPrefix <+: l

section Names

variable {H : Hickory} {render : Label → Str}
variable {labels : List Label}

theorem Hickory.Renders.map_render (hH : Hickory.Renders H render) (hldh : ∀ l ∈ labels, IsLdh l)
    (hno : NoIdna labels) :
    (labels.map render).map lowerAscii = lowerLabels labels := by
  rw [List.map_map]
  refine map_congr_left fun l hl => ?_
  rw [Function.comp_apply, hH.render_plain l (hldh l hl) (hno l hl)]

theorem getLast?_of_ldh (hne : labels ≠ []) (hldh : ∀ l ∈ labels, IsLdh l) :
    (join "." (lowerLabels labels)).getLast? ≠ some '.' ∧
      join "." (lowerLabels labels) ≠ [] := by
  -- the text ends with the last label, which is non-empty and has no dot
  obtain ⟨init, last, rfl⟩ := eq_nil_or_concat labels |>.resolve_left hne
  have hlast := hldh last (by simp)
  have htext : lowerAscii (labelText last) ≠ [] := by
    simpa [lowerAscii, labelText] using hlast.1
  have hend : ∃ pre, join "." (lowerLabels (init.concat last)) =
      pre ++ lowerAscii (labelText last) := by
    rw [concat_eq_append, lowerLabels, map_append]
    by_cases hinit : init = []
    · subst hinit
      exact ⟨[], by simp [join]⟩
    · refine ⟨join "." (lowerLabels init) ++ ".", ?_⟩
      rw [join_append _ (by simpa using hinit) (by simp)]
      simp [join, lowerLabels]
  obtain ⟨pre, hpre⟩ := hend
  rw [hpre]
  refine ⟨fun hdot => ?_, by simp [htext]⟩
  rw [getLast?_append_of_ne_nil _ htext] at hdot
  exact absurd (hlast.2 '.' (mem_of_getLast? hdot)) (by decide)

/-- A wire name of plain labels prints as its text, in the case of the wire and
with the final dot. -/
theorem Hickory.Renders.lower_toUtf8 (hH : Hickory.Renders H render) (hne : labels ≠ [])
    (hldh : ∀ l ∈ labels, IsLdh l) (hno : NoIdna labels) :
    lowerAscii (trimDots (H.toUtf8 ⟨labels, true⟩)) = join "." (lowerLabels labels) := by
  rw [hH.toUtf8_wire labels hne, decoded, ← trimDots_lowerAscii, lowerAscii_append, lowerAscii_join,
    hH.map_render hldh hno]
  show trimDots (join "." (lowerLabels labels) ++ ['.']) = _
  rw [trimDots_concat_dot, trimDots_eq_self (getLast?_of_ldh hne hldh).1]

/-- A wire name whose last labels are plain and spell the zone prints as a name
in the zone. -/
theorem Hickory.Renders.inZone (hH : Hickory.Renders H render) (front : List Label)
    (hne : labels ≠ []) (hldh : ∀ l ∈ labels, IsLdh l) (hno : NoIdna labels) :
    Zone.inZone (Zone.normalize (H.toUtf8 ⟨front ++ labels, true⟩))
      (join "." (lowerLabels labels)) = true := by
  by_cases hfro : front = []
  · subst hfro
    rw [nil_append, Zone.normalize, hH.lower_toUtf8 hne hldh hno, Zone.inZone]
    simp
  · have htext : lowerAscii (H.toUtf8 ⟨front ++ labels, true⟩) =
        (lowerAscii (join "." (front.map render)) ++ "." ++
          join "." (lowerLabels labels)) ++ "." := by
      rw [hH.toUtf8_wire _ (by simp [hne]), decoded, map_append,
        join_append _ (by simpa using hfro) (by simpa using hne)]
      simp only [lowerAscii_append, lowerAscii_join "." (labels.map render), hH.map_render hldh hno]
      rfl
    obtain ⟨hlast, hnil⟩ := getLast?_of_ldh hne hldh
    rw [Zone.normalize, ← trimDots_lowerAscii, htext]
    show Zone.inZone (trimDots (_ ++ ['.'])) _ = true
    rw [trimDots_concat_dot, trimDots_eq_self (by rwa [getLast?_append_of_ne_nil _ hnil]),
      Zone.inZone, Zone.isSubdomainOf, Bool.or_eq_true, isSuffixOf_iff_suffix]
    refine .inr ⟨lowerAscii (join "." (front.map render)), ?_⟩
    simp

end Names

/-! ### Telling the exits apart -/

theorem gate_authoritative {env : NodeEnv} {query : Message} {clientIp : IpAddr}
    {response : Message} {question : Query}
    (h : gate env query clientIp = .ok (response, question)) : response.authoritative = false := by
  have hedns : (negotiateEdns query (baseResponse query)).1.authoritative = false := by
    rw [negotiateEdns]
    split <;> rfl
  have hcoo : (negotiateCookie env.serverCookie query
      (negotiateEdns query (baseResponse query)).1 clientIp).authoritative = false := by
    rw [negotiateCookie]
    split
    · exact hedns
    · split
      · exact hedns
      · exact hedns
  simp only [gate] at h
  split_ifs at h
  split at h
  · rw [Except.ok.injEq, Prod.mk.injEq] at h
    rw [← h.1]
    exact hcoo
  all_goals simp at h

theorem resolveRecords_authoritative (env : NodeEnv) (forwarder : Forwarder) (call : ForwardCall)
    (rd : Bool) (cache : DnsCache) (response : Message) :
    (resolveRecords env forwarder call rd cache response).response.authoritative =
      response.authoritative := by
  rw [resolveRecords]
  split
  · rename_i hit _
    cases hit with
    | records => rfl
    | negative kind => cases kind <;> rfl
  · split_ifs
    · rfl
    · rename_i hrd
      show (serveForward env forwarder.ttlPolicy _ call cache response _).1.authoritative = _
      cases forwarder.lookupScoped call with
      | ok records => cases records <;> rfl
      | nxDomain | noRecordsFound | failed => rfl

theorem blockReply_authoritative (H : Hickory) (b : Pb.Bundle) (qname : Str) (qtype : RecordType)
    (response : Message) :
    (blockReply H b qname qtype response).authoritative = response.authoritative := by
  show (applyBlockResponse H b qname qtype response).authoritative = _
  rw [applyBlockResponse]
  split
  · rfl
  · simp only
    split <;> rfl

theorem blockReply_ne_refused (H : Hickory) (b : Pb.Bundle) (qname : Str) (qtype : RecordType)
    (response : Message) :
    (blockReply H b qname qtype response).responseCode ≠ .refused := by
  show (applyBlockResponse H b qname qtype response).responseCode ≠ _
  rw [applyBlockResponse]
  split
  · simp
  · simp only
    split <;> simp

section Enforcement

variable {env : NodeEnv} {forwarder : Forwarder} {query : Message} {zones : Zone.ZoneData}
  {clientIp : IpAddr} {cache : DnsCache} {unmatchedRoute : Bool} {response : Message}
  {question : Query}

/-- The reply is the block response, and nothing was looked up for it. -/
def RepliesBlock (env : NodeEnv) (b : Pb.Bundle) (response : Message) (question : Query)
    (out : Outcome) : Prop :=
  out.response = some (blockReply env.hickory b (env.hickory.toUtf8 question.name)
    question.queryType response) ∧ ∀ name, ¬LooksUp out.trace name

/-- The reply comes from the zone store, and the question was not forwarded. -/
def RepliesFromZone (env : NodeEnv) (question : Query) (out : Outcome) : Prop :=
  (∃ reply, out.response = some reply ∧ reply.authoritative = true) ∧
    ∀ call, Effect.forward call ∈ out.trace → call.qname ≠ env.hickory.toUtf8 question.name

variable (forwarder zones cache unmatchedRoute) in
/-- The authoritative bit of the reply says whether the question was local. -/
theorem buildResponse_authoritative (bundle : Option Pb.Bundle)
    (hgate : gate env query clientIp = .ok (response, question)) :
    ∃ reply, (buildResponse env forwarder query bundle zones clientIp cache
        unmatchedRoute).response = some reply ∧
      (reply.authoritative = false ↔ lookupQuestion env zones question = .notLocal) := by
  have hfal := gate_authoritative hgate
  rw [buildResponse, hgate, lookupQuestion]
  simp only
  -- the zone store sets the bit, and every other exit keeps what the gate has set
  cases hlk : Zone.lookup env.hickory zones (env.hickory.toUtf8 question.name)
      question.queryType with
  | answer records soa target =>
    refine ⟨_, rfl, ?_⟩
    simp only [reduceCtorEq, iff_false, Bool.not_eq_false]
    cases cnameCall query bundle question.queryType target with
    | none => split_ifs <;> rfl
    | some call =>
      split_ifs <;> exact resolveRecords_authoritative env forwarder call true cache _
  | nxDomain soa => exact ⟨_, rfl, by simp⟩
  | notLocal =>
    cases bundle with
    | none =>
      simp only [answerNoBundle]
      split
      · refine ⟨_, rfl, ?_⟩
        rw [resolveRecords_authoritative, hfal]
        simp
      · exact ⟨_, rfl, by simp [hfal]⟩
    | some =>
      simp only [answerPolicy]
      split
      · refine ⟨_, rfl, ?_⟩
        rw [blockReply_authoritative, hfal]
        simp
      · refine ⟨_, rfl, ?_⟩
        rw [resolveRecords_authoritative, hfal]
        simp

variable (forwarder zones cache unmatchedRoute) in
/-- The block response is what a query gets exactly when the printed name is
not local and `decide` blocks it. -/
theorem repliesBlock_iff (b : Pb.Bundle)
    (hgate : gate env query clientIp = .ok (response, question)) :
    RepliesBlock env b response question
        (buildResponse env forwarder query (some b) zones clientIp cache unmatchedRoute) ↔
      lookupQuestion env zones question = .notLocal ∧
        (decide b (env.hickory.toUtf8 question.name)).decision = .block := by
  constructor
  · rintro ⟨hrep, hq⟩
    have hlk : lookupQuestion env zones question = .notLocal := by
      obtain ⟨reply, hrep', hauth⟩ := buildResponse_authoritative forwarder zones cache
        unmatchedRoute (some b) hgate
      rw [hrep, Option.some_inj] at hrep'
      rw [← hauth, ← hrep', blockReply_authoritative]
      exact gate_authoritative hgate
    refine ⟨hlk, ?_⟩
    rw [lookupQuestion] at hlk
    rw [buildResponse, hgate] at hrep hq
    simp only [hlk, answerPolicy] at hrep hq
    cases hd : (decide b (env.hickory.toUtf8 question.name)).decision with
    | block => rfl
    | allow =>
      -- an allowed name is looked up or refused, and neither is the block response
      simp only [hd, Option.some_inj] at hrep hq
      rcases resolveRecords_trace env forwarder
          (policyCall b (env.hickory.toUtf8 question.name) question.queryType)
          query.recursionDesired cache response with htra | ⟨-, -, hcode⟩ | ⟨-, htra⟩
      · refine absurd (.inl ⟨question.queryType, ?_⟩) (hq (env.hickory.toUtf8 question.name))
        rw [htra]
        exact mem_append_left _ (mem_singleton.mpr rfl)
      · rw [hrep] at hcode
        exact absurd hcode (blockReply_ne_refused _ _ _ _ _)
      · refine absurd (.inr ⟨policyCall b (env.hickory.toUtf8 question.name) question.queryType,
          ?_, rfl⟩) (hq (env.hickory.toUtf8 question.name))
        rw [htra]
        exact mem_append_left _ (mem_singleton.mpr rfl)
  · rintro ⟨hlk, hblk⟩
    rw [lookupQuestion] at hlk
    rw [RepliesBlock, buildResponse, hgate]
    simp only [hlk, answerPolicy, hblk]
    refine ⟨trivial, ?_⟩
    rintro name (⟨qtype, h⟩ | ⟨call, h, -⟩)
    · simp [policyEvent] at h
    · simp [policyEvent] at h

variable (forwarder zones cache unmatchedRoute) in
/-- The zone store answers exactly the printed names that are local. -/
theorem repliesFromZone_iff (bundle : Option Pb.Bundle)
    (hgate : gate env query clientIp = .ok (response, question)) :
    RepliesFromZone env question
        (buildResponse env forwarder query bundle zones clientIp cache unmatchedRoute) ↔
      Zone.IsLocal zones (Zone.normalize (env.hickory.toUtf8 question.name)) := by
  obtain ⟨reply, hrep, hauth⟩ := buildResponse_authoritative forwarder zones cache
    unmatchedRoute bundle hgate
  rw [lookupQuestion, Zone.lookup_eq_notLocal] at hauth
  constructor
  · rintro ⟨⟨reply', hrep', htrue⟩, -⟩
    rw [hrep, Option.some_inj] at hrep'
    subst hrep'
    by_contra hloc
    exact absurd (hauth.mpr hloc) (by simp [htrue])
  · intro hloc
    refine ⟨⟨reply, hrep, ?_⟩, fun call hcall hname => ?_⟩
    · rw [← Bool.not_eq_false]
      exact fun hfal => hauth.mp hfal hloc
    · have hnot := not_isLocal_of_resolution (resolution_of_forward hcall)
      rw [hname] at hnot
      exact hnot hloc

/-- The labels of a domain from a plain list are letter-digit-hyphen labels, and
so are the wire labels that spell it. -/
theorem isLdh_of_parseDomainList {U : CaseMap} {text d : Str}
    (hd : d ∈ Control.parseDomainList U text) {labels : List Label}
    (hlabe : lowerLabels labels = d.splitOn '.') : ∀ l ∈ labels, IsLdh l := by
  have hpar : Control.parsers .domainList = some Control.parseDomainList := rfl
  have hsafe := (Control.parse_lineSafe hpar U text d hd).2
  obtain ⟨line, -, t, -, -, hacc⟩ := Control.mem_parse.mp hd
  simp only [Control.domainListAccepts, Control.plainDomainLine, Control.matchesDotted,
    Bool.and_eq_true, Bool.or_eq_true, beq_iff_eq] at hacc
  have hdot : Control.isDotted Control.isAlnum d = true := by
    rcases hacc.2 with h | ⟨hlast, -⟩
    · exact h
    · -- a stored domain has no line break to end with
      exact absurd (hsafe '\n' (mem_of_getLast? hlast)) (by decide)
  rw [Control.isDotted, Bool.and_eq_true, List.all_eq_true] at hdot
  intro l hl
  have hpart : lowerAscii (labelText l) ∈ d.splitOn '.' := by
    rw [← hlabe]
    exact List.mem_map_of_mem hl
  have hlab := hdot.2 _ hpart
  simp only [Control.isLabel, Bool.and_eq_true, List.all_eq_true] at hlab
  refine ⟨?_, hlab.1.1.2⟩
  rintro rfl
  exact absurd hlab.1.2 (by simp [labelText, lowerAscii])

/-- **Enforcement at the wire.**  Let a query pass the protocol gate, and let
hickory print names label by label.

* If its wire name spells, in any case, a domain that a plain-list feed stored
  and an `ACTION_BLOCK` toggle compiled, which does not start with `www.`, is
  in no zone and has no allow override, then the reply is the block response
  exactly when no label starts with `xn--` or the decoded name is itself
  blocked and not local.
* If its wire name ends in letter-digit-hyphen labels that spell a hosted zone,
  then the zone store answers it exactly when none of those labels starts with
  `xn--` or the decoded name is itself in some zone. -/
theorem wire_enforcement_iff {render : Label → Str} (hH : Hickory.Renders env.hickory render)
    (hgate : gate env query clientIp = .ok (response, question)) :
    (∀ {U : CaseMap} {text d : Str} {compileEnv : Control.CompileEnv} {files : Control.Storage}
        {db : Control.Db} {policy : Control.Policy} {version : ℕ} {b : Pb.Bundle}
        {toggle : Control.CategoryToggle} {labels : List Label},
      d ∈ Control.parseDomainList U text →
      Control.buildBundle compileEnv files db policy version = some b →
      toggle ∈ policy.categoryToggles → toggle.action = .block →
      d ∈ Control.categoryDomains files db toggle.categoryId →
      ¬"www." <+: d → ¬Zone.IsLocal zones d →
      (∀ o ∈ policy.overrides, o.kind = .allow → normalize o.domain ≠ d) →
      question.name = ⟨labels, true⟩ → lowerLabels labels = d.splitOn '.' →
      (RepliesBlock env b response question
          (buildResponse env forwarder query (some b) zones clientIp cache unmatchedRoute) ↔
        NoIdna labels ∨ (¬Zone.IsLocal zones (Zone.normalize (decoded render labels)) ∧
          (decide b (decoded render labels)).decision = .block))) ∧
    (∀ {bundle : Option Pb.Bundle} {zone : Str} {front labels : List Label},
      zone ∈ zones.zones → question.name = ⟨front ++ labels, true⟩ →
      lowerLabels labels = zone.splitOn '.' → (∀ l ∈ labels, IsLdh l) →
      (RepliesFromZone env question
          (buildResponse env forwarder query bundle zones clientIp cache unmatchedRoute) ↔
        NoIdna labels ∨
          Zone.IsLocal zones (Zone.normalize (decoded render (front ++ labels))))) := by
  constructor
  · intro U text d compileEnv files db policy version b toggle labels hsto hb htog hact hmem
      hwww hloc hal hname hlab
    have hne : labels ≠ [] := by
      rintro rfl
      exact absurd hlab.symm (splitOn_ne_nil _ _)
    have hdec : env.hickory.toUtf8 question.name = decoded render labels := by
      rw [hname, hH.toUtf8_wire labels hne]
    rw [repliesBlock_iff forwarder zones cache unmatchedRoute b hgate, lookupQuestion,
      Zone.lookup_eq_notLocal, hdec]
    refine ⟨.inr, fun h => h.elim (fun hno => ?_) id⟩
    -- without the prefix the decoded name is the stored domain
    have hldh := isLdh_of_parseDomainList hsto hlab
    have hpri : lowerAscii (trimDots (decoded render labels)) = d := by
      rw [← hH.toUtf8_wire labels hne, hH.lower_toUtf8 hne hldh hno, hlab, join_splitOn]
    have hnorm : normalize (decoded render labels) = d := by
      rw [normalize_eq_dropWww, hpri, Control.dropWww_of_not_prefix hwww]
    refine ⟨?_, ?_⟩
    · rw [Zone.normalize, hpri]
      exact hloc
    · refine Control.decide_block_of_mem hb htog hact ?_ ?_
      · rw [hnorm]
        exact hmem
      · rw [hnorm]
        exact hal
  · intro bundle zone front labels hzone hname hlab hldh
    have hne : labels ≠ [] := by
      rintro rfl
      exact absurd hlab.symm (splitOn_ne_nil _ _)
    have hdec : env.hickory.toUtf8 question.name = decoded render (front ++ labels) := by
      rw [hname, hH.toUtf8_wire _ (by simp [hne])]
    rw [repliesFromZone_iff forwarder zones cache unmatchedRoute bundle hgate, hdec]
    refine ⟨.inr, fun h => h.elim (fun hno => ?_) id⟩
    refine .inl ⟨zone, hzone, ?_⟩
    have hin := hH.inZone front hne hldh hno
    rwa [hlab, join_splitOn, ← hname, hdec] at hin

end Enforcement

theorem sampleHickory_renders : Hickory.Renders sampleHickory sampleRender where
  toUtf8_wire labels hne := by
    show samplePrint sampleRender ⟨labels, true⟩ = _
    rw [samplePrint, if_neg hne]
    rfl
  render_plain label _ hno := by
    rw [sampleRender, if_neg]
    rintro rfl
    exact hno (by decide +kernel)

theorem gate_sampleQuery (name : Str) : ∃ response, gate sampleEnv (sampleQuery name) (.v4 0) =
    .ok (response, ⟨⟨(name.splitOn '.').map utf8, true⟩, .a, .internet⟩) :=
  ⟨_, rfl⟩

def sampleListed (text : Str) : Control.Ingested :=
  Control.fetchAndIngest .ascii (Control.sampleIngest text) (fun _ => none)
    { Control.sampleFeed "ads" with format := .domainList }

/-- One address record for a name in a hosted zone. -/
def sampleHosted (name zone : Str) : List Zone.LocalZoneRecordDto :=
  [⟨name, zone, .a, 300, "192.0.2.7", none⟩]

/-- A listed domain is blocked, and a hosted name answered, in another case. -/
theorem wire_enforcement_plain_names :
    ∃ b data response question response' question',
      Control.buildBundle (Control.sampleCompile 59) (sampleListed "ads.example.com\n".toList).files
        ⟨[(sampleListed "ads.example.com\n".toList).feed], []⟩
        (Control.samplePolicy [⟨"ads".toList, .block⟩] []) 1 = some b ∧
      Zone.publish sampleHickory (sampleHosted "www.corp.lab.".toList "corp.lab".toList) =
        some data ∧
      RepliesBlock sampleEnv b response question (buildResponse sampleEnv sampleForwarder
        (sampleQuery "Ads.Example.COM".toList) (some b) .empty (.v4 0) (.new 10000) false) ∧
      RepliesFromZone sampleEnv question' (buildResponse sampleEnv sampleForwarder
        (sampleQuery "WWW.Corp.lab".toList) none data (.v4 0) (.new 10000) false) ∧
      gate sampleEnv (sampleQuery "Ads.Example.COM".toList) (.v4 0) = .ok (response, question) ∧
      gate sampleEnv (sampleQuery "WWW.Corp.lab".toList) (.v4 0) = .ok (response', question') := by
  obtain ⟨b, hb⟩ := Option.isSome_iff_exists.mp (show (Control.buildBundle
    (Control.sampleCompile 59) (sampleListed "ads.example.com\n").files
    ⟨[(sampleListed "ads.example.com\n").feed], []⟩
    (Control.samplePolicy [⟨"ads", .block⟩] []) 1).isSome = true by decide +kernel)
  obtain ⟨data, hdata, hzone⟩ : ∃ data, Zone.publish sampleHickory
      (sampleHosted "www.corp.lab." "corp.lab") = some data ∧ "corp.lab".toList ∈ data.zones := by
    decide +kernel
  obtain ⟨response, hgate⟩ := gate_sampleQuery "Ads.Example.COM"
  obtain ⟨response', hgate'⟩ := gate_sampleQuery "WWW.Corp.lab"
  have hnoI : NoIdna (("Ads.Example.COM".toList.splitOn '.').map utf8) := by
    unfold NoIdna
    decide +kernel
  have hnoI' : NoIdna (["Corp".toList, "lab".toList].map utf8) := by
    unfold NoIdna
    decide +kernel
  refine ⟨b, data, response, _, response', _, hb, hdata, ?_, ?_, hgate, hgate'⟩
  · exact ((wire_enforcement_iff sampleHickory_renders hgate).1
      (show "ads.example.com".toList ∈ Control.parseDomainList .ascii "ads.example.com\n" by
        decide +kernel) hb (mem_singleton.mpr rfl) rfl (by decide +kernel) (by decide +kernel)
      (by decide +kernel) (fun o ho => absurd ho not_mem_nil) rfl (by decide +kernel)).mpr
      (.inl hnoI)
  · exact ((wire_enforcement_iff sampleHickory_renders hgate').2 hzone
      (show _ = (⟨["WWW".toList].map utf8 ++ ["Corp".toList, "lab".toList].map utf8,
        true⟩ : Name) by
        decide +kernel) (by decide +kernel) (by decide +kernel)).mpr (.inl hnoI')

/-- An internationalised name escapes both: `xn--bcher-kva.com` is listed and
blocked by its category, and `xn--bcher-kva.lab` is a hosted zone, but the
queries for them are forwarded under their decoded names. -/
theorem punycode_bypass :
    (∃ b, Control.buildBundle (Control.sampleCompile 59)
        (sampleListed "xn--bcher-kva.com\n").files
        ⟨[(sampleListed "xn--bcher-kva.com\n").feed], []⟩
        (Control.samplePolicy [⟨"ads", .block⟩] []) 1 = some b ∧
      "xn--bcher-kva.com".toList ∈
        Control.parseDomainList .ascii "xn--bcher-kva.com\n" ∧
      "xn--bcher-kva.com".toList ∈ Control.categoryDomains
        (sampleListed "xn--bcher-kva.com\n").files
        ⟨[(sampleListed "xn--bcher-kva.com\n").feed], []⟩ "ads" ∧
      ¬Zone.IsLocal .empty "xn--bcher-kva.com" ∧
      Effect.forward ⟨"bücher.com.", .a, [], some "group"⟩ ∈
        (buildResponse sampleEnv sampleForwarder (sampleQuery "xn--bcher-kva.com") (some b)
          .empty (.v4 0) (.new 10000) false).trace) ∧
    ∃ data, Zone.publish sampleHickory
        (sampleHosted "www.xn--bcher-kva.lab." "xn--bcher-kva.lab") = some data ∧
      "xn--bcher-kva.lab".toList ∈ data.zones ∧
      Effect.forward ⟨"www.bücher.lab.", .a, [], some "group"⟩ ∈
        (buildResponse sampleEnv sampleForwarder (sampleQuery "www.xn--bcher-kva.lab")
          (some (sampleBundle "ads.example")) data (.v4 0) (.new 10000) false).trace := by
  constructor <;> decide +kernel

end Node
