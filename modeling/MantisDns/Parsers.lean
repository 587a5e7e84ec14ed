/-
Feed text into domain sets: `feeds/parsers.py`.

Each parser goes line by line: it takes a token from the line, normalises it
and keeps the result if it passes the format's test.  The regular expressions
are matched by hand; neither can match in two ways, since the character
classes at each boundary are disjoint.

* `normalizeDomain_ascii` — on ASCII tokens Python's `_normalize_domain` is
  "trim the dots, fold the case, drop one `www.`";
* `parse_lineSafe` — what a parser returns can be written one domain a line
  and read back.
-/
import MantisDns.Text

open Text List Option

namespace Control

/-! ### `_normalize_domain` -/

/-- `if domain.startswith("www."): domain = domain[4:]`. -/
def dropWww (domain : Str) : Str :=
  if "www.".toList.isPrefixOf domain then domain.drop 4 else domain

/-- `_normalize_domain`. -/
def normalizeDomain (U : CaseMap) (domain : Str) : Str :=
  dropWww (trimDots (U.lower (strip domain)))

theorem dropWww_suffix (d : Str) : dropWww d <:+ d := by
  rw [dropWww]
  split
  · exact drop_suffix 4 d
  · exact suffix_refl d

variable {d t text line : Str} {p : LineParser} {U : CaseMap} {format : Format}

theorem dropWww_of_not_prefix (h : ¬"www." <+: d) : dropWww d = d := by
  rw [dropWww, if_neg (by rwa [List.isPrefixOf_iff_prefix])]

theorem dropWww_www (d : Str) : dropWww ("www." ++ d) = d := by
  rw [dropWww, if_pos (List.isPrefixOf_iff_prefix.mpr (prefix_append _ _))]
  rfl

theorem normalizeDomain_ascii (U : CaseMap) (hasc : IsAscii t) (hstr : strip t = t) :
    normalizeDomain U t = dropWww (lowerAscii (trimDots t)) := by
  rw [normalizeDomain, hstr, U.lower_ascii hasc, trimDots_lowerAscii]

theorem normalizeDomain_no_break (U : CaseMap) (h : ∀ c ∈ t, isLineBreak c = false) :
    ∀ c ∈ normalizeDomain U t, isLineBreak c = false := by
  intro c hc
  have hlow : c ∈ U.lower (strip t) :=
    (trimDots_isPrefix _).subset ((dropWww_suffix _).subset hc)
  by_contra hbrk
  have hspa : isSpace c = true := isSpace_of_isLineBreak (by simpa using hbrk)
  exact hbrk (h c (mem_of_mem_strip (U.lower_space hlow hspa)))

/-! ### `parse_hostfile` -/

/-- `_HOSTFILE_LINE.match`: the host after `0.0.0.0` or `127.0.0.1` and at
least one blank. -/
def hostfileLine (line : Str) : Option Str :=
  let start := line.dropWhile isSpace
  ((stripPrefix "0.0.0.0" start).or (stripPrefix "127.0.0.1" start)).bind fun rest =>
    let after := rest.dropWhile isSpace
    let host := after.takeWhile fun c => !isSpace c && c != '#'
    if after = rest ∨ host = [] then none else some host

/-- The token a hosts-file line offers, if any. -/
def hostfileToken (line : Str) : Option Str :=
  let line := strip line
  if line = [] ∨ "#" <+: line then none else hostfileLine line

/-- `domain and domain not in ("localhost", "local")`. -/
def hostfileAccepts (domain : Str) : Bool :=
  domain ≠ [] && domain ≠ "localhost" && domain ≠ "local"

/-! ### `parse_domain_list` -/

/-- The token of a plain list line: everything before a `#`, stripped. -/
def domainListToken (line : Str) : Option Str :=
  let line := strip (line.takeWhile (· ≠ '#'))
  if line = [] then none else some line

/-- `[a-z0-9]`. -/
def isAlnum (c : Char) : Bool := ('a' ≤ c && c ≤ 'z') || ('0' ≤ c && c ≤ '9')

/-- `[a-z0-9]([a-z0-9-]{0,61}[a-z0-9])?`, over some class for `[a-z0-9]`. -/
def isLabel (alnum : Char → Bool) (label : Str) : Bool :=
  label.length ≤ 63 && label.all (fun c => alnum c || c == '-') &&
    label.head?.any alnum && label.getLast?.any alnum

/-- At least two labels, separated by dots. -/
def isDotted (alnum : Char → Bool) (s : Str) : Bool :=
  2 ≤ (s.splitOn '.').length && (s.splitOn '.').all (isLabel alnum)

/-- The pattern `^label(\.label)+$`: `$` also matches before a final newline. -/
def matchesDotted (alnum : Char → Bool) (s : Str) : Bool :=
  isDotted alnum s || (s.getLast? == some '\n' && isDotted alnum s.dropLast)

/-- `_PLAIN_DOMAIN_LINE.match`. -/
def plainDomainLine (s : Str) : Bool := matchesDotted isAlnum s

/-- `domain and _PLAIN_DOMAIN_LINE.match(domain)`. -/
def domainListAccepts (domain : Str) : Bool := domain ≠ [] && plainDomainLine domain

/-! ### The parsers -/

/-- A feed's `format` column. -/
inductive Format
  | hostfile
  | domainList
  | unknown (name : Str)
  deriving DecidableEq

/-- How a parser reads one line: the token it takes and the test on the
normalised domain. -/
structure LineParser where
  token : Str → Option Str
  accepts : Str → Bool

/-- The two line readers behind `parse_hostfile` and `parse_domain_list`. -/
def lineParser : Format → Option LineParser
  | .hostfile => some ⟨hostfileToken, hostfileAccepts⟩
  | .domainList => some ⟨domainListToken, domainListAccepts⟩
  | .unknown _ => none

/-- The domain a line contributes. -/
def LineParser.domain (p : LineParser) (U : CaseMap) (line : Str) : Option Str :=
  (p.token line).bind fun t =>
    let domain := normalizeDomain U t
    if p.accepts domain then some domain else none

/-- The loop over the lines; a Python set is a list without duplicates. -/
def LineParser.parse (p : LineParser) (U : CaseMap) (text : Str) : List Str :=
  ((splitlines text).filterMap (p.domain U)).dedup

/-- `parse_hostfile`. -/
def parseHostfile (U : CaseMap) (text : Str) : List Str :=
  LineParser.parse ⟨hostfileToken, hostfileAccepts⟩ U text

/-- `parse_domain_list`. -/
def parseDomainList (U : CaseMap) (text : Str) : List Str :=
  LineParser.parse ⟨domainListToken, domainListAccepts⟩ U text

/-- `PARSERS.get(format)`. -/
def parsers : Format → Option (CaseMap → Str → List Str)
  | .hostfile => some parseHostfile
  | .domainList => some parseDomainList
  | .unknown _ => none

/-- The parser of `format` takes the token `t` from some line of `text` and
accepts it as a domain. -/
def AcceptsToken (format : Format) (U : CaseMap) (text t : Str) : Prop :=
  ∃ p, lineParser format = some p ∧
    ∃ line ∈ splitlines text, p.token line = some t ∧ p.accepts (normalizeDomain U t) = true

theorem mem_parse :
    d ∈ p.parse U text ↔
      ∃ line ∈ splitlines text, ∃ t, p.token line = some t ∧ normalizeDomain U t = d ∧
        p.accepts d = true := by
  rw [LineParser.parse, mem_dedup, mem_filterMap]
  refine exists_congr fun line => and_congr_right fun _ => ?_
  rw [LineParser.domain, bind_eq_some_iff]
  refine exists_congr fun t => and_congr_right fun _ => ?_
  by_cases h : p.accepts (normalizeDomain U t) = true
  · rw [if_pos h, some_inj]
    exact ⟨fun hd => ⟨hd, hd ▸ h⟩, fun hd => hd.1⟩
  · rw [if_neg h]
    refine ⟨fun hd => absurd hd (by simp), fun ⟨hd, ha⟩ => absurd (hd ▸ ha) h⟩

theorem parsers_eq_some {parse : CaseMap → Str → List Str} (h : parsers format = some parse) :
    ∃ p, lineParser format = some p ∧ parse = fun U text => p.parse U text := by
  cases format with
  | hostfile | domainList => exact ⟨_, rfl, (some_inj.mp h).symm⟩
  | unknown => simp [parsers] at h

theorem AcceptsToken.mem_parse (h : AcceptsToken format U text t) {parse : CaseMap → Str → List Str}
    (hp : parsers format = some parse) : normalizeDomain U t ∈ parse U text := by
  obtain ⟨p, hlp, line, hline, ht, hacc⟩ := h
  obtain ⟨p', hlp', rfl⟩ := parsers_eq_some hp
  rw [hlp, some_inj] at hlp'
  subst hlp'
  exact Control.mem_parse.mpr ⟨line, hline, t, ht, rfl, hacc⟩

/-! ### What the tokens look like -/

theorem mem_of_hostfileToken (h : hostfileToken line = some t) :
    ∀ c ∈ t, c ∈ line ∧ isSpace c = false := by
  rw [hostfileToken] at h
  obtain ⟨-, h⟩ := ite_none_left_eq_some.mp h
  rw [hostfileLine] at h
  simp only [bind_eq_some_iff] at h
  obtain ⟨rest, hrest, h⟩ := h
  obtain ⟨-, h⟩ := ite_none_left_eq_some.mp h
  rw [some_inj] at h
  subst h
  intro c hc
  have hcla := mem_takeWhile_imp hc
  have hrest' : rest ⊆ (strip line).dropWhile isSpace := by
    rcases or_eq_some_iff.mp hrest with hp | ⟨-, hp⟩
    · rw [stripPrefix_eq_some.mp hp]
      exact subset_append_right _ _
    · rw [stripPrefix_eq_some.mp hp]
      exact subset_append_right _ _
  have hmem : c ∈ (strip line).dropWhile isSpace :=
    hrest' ((dropWhile_suffix isSpace).subset ((List.takeWhile_prefix _).subset hc))
  refine ⟨mem_of_mem_strip ((dropWhile_suffix isSpace).subset hmem), ?_⟩
  simp only [Bool.and_eq_true, Bool.not_eq_true'] at hcla
  exact hcla.1

theorem mem_of_domainListToken (h : domainListToken line = some t) :
    t ≠ [] ∧ strip t = t ∧ ∀ c ∈ t, c ∈ line := by
  rw [domainListToken] at h
  obtain ⟨hne, h⟩ := ite_none_left_eq_some.mp h
  rw [some_inj] at h
  subst h
  refine ⟨hne, strip_idem _, fun c hc => ?_⟩
  exact (List.takeWhile_prefix _).subset (mem_of_mem_strip hc)

/-- Tokens carry no outer white space and only characters of their line. -/
theorem token_spec (hp : lineParser format = some p) (h : p.token line = some t) :
    strip t = t ∧ ∀ c ∈ t, c ∈ line := by
  cases format with
  | hostfile =>
    rw [lineParser, some_inj] at hp
    subst hp
    have hmem := mem_of_hostfileToken h
    exact ⟨strip_eq_self fun c hc => (hmem c hc).2, fun c hc => (hmem c hc).1⟩
  | domainList =>
    rw [lineParser, some_inj] at hp
    subst hp
    exact (mem_of_domainListToken h).2
  | unknown => simp [lineParser] at hp

theorem accepts_ne_nil (hp : lineParser format = some p) (h : p.accepts d = true) : d ≠ [] := by
  cases format with
  | hostfile =>
    rw [lineParser, some_inj] at hp
    subst hp
    simp only [hostfileAccepts, Bool.and_eq_true, decide_eq_true_eq] at h
    exact h.1.1
  | domainList =>
    rw [lineParser, some_inj] at hp
    subst hp
    simp only [domainListAccepts, Bool.and_eq_true, decide_eq_true_eq] at h
    exact h.1
  | unknown => simp [lineParser] at hp

/-- Parsed domains are non-empty and free of line breaks, so that a file with
one of them a line reads back as it was written. -/
theorem parse_lineSafe {parse : CaseMap → Str → List Str} (hp : parsers format = some parse)
    (U : CaseMap) (text : Str) :
    ∀ d ∈ parse U text, d ≠ [] ∧ ∀ c ∈ d, isLineBreak c = false := by
  intro d hd
  obtain ⟨p, hlp, rfl⟩ := parsers_eq_some hp
  obtain ⟨line, hline, t, ht, rfl, hacc⟩ := mem_parse.mp hd
  refine ⟨accepts_ne_nil hlp hacc, normalizeDomain_no_break U fun c hc => ?_⟩
  exact isLineBreak_of_mem_splitlines hline c ((token_spec hlp ht).2 c hc)

end Control
