/-
Records that the zone API accepts, and `build_record` on the nodes.

The API checks a record with Python's `ipaddress`, `int`, `str.split` and a pattern for
labels; a node parses what it is sent with the parsers of Rust and of hickory.

* `parses_target` — a target that is accepted, and hickory's parser;
* `buildRData_srv`, `buildRData_caa` — where the two languages split a text differently;
* `accepted_served_iff` — which accepted records become resource records;
* `accepted_skipped` — two that do not.
-/
import MantisDns.OwnerNames

open Text Table Dns List
open Option hiding join

namespace Node.Zone

variable {s : Str}

open Control.Zones Control.Ddns

/-! ### Hickory's names -/

/-- Every label has at most 63 octets, and the name 255. -/
def NameFits (octets : Str → ℕ) (s : Str) : Prop :=
  (∀ l ∈ s.splitOn '.', octets l ≤ 63) ∧ 1 + ((s.splitOn '.').map (octets · + 1)).sum ≤ 255

/-- Labels that stand for themselves: hickory takes one with a leading underscore as it is, and
IDNA leaves letters, digits and single hyphens alone. -/
def isPlain (l : Str) : Bool :=
  IsAscii l && (l.head? = some '_' ||
    ('_' ∉ l && l.getLast? ≠ some '-' && (l.drop 2).take 2 ≠ "--"))

def PlainLabels (s : Str) : Prop := ∀ l ∈ s.splitOn '.', isPlain l = true

/-- What is assumed of hickory's parser.  `octets` counts the octets of a label on the wire: the
characters of a plain label, and more than 63 for a label that has no wire form. -/
structure NameGrammar (H : Hickory) (octets : Str → ℕ) : Prop where
  plain : ∀ {l : Str}, isNameLabel l = true → isPlain l = true → octets l = l.length
  relative : ∀ {s : Str}, isDnsName s = true →
    ((H.parseName s).isSome = true ↔ NameFits octets s)
  absolute : ∀ {s : Str}, isDnsName s = true →
    ((H.parseName (s ++ ['.'])).isSome = true ↔ NameFits octets s)
  space : ∀ {s : Str} {c : Char}, c ∈ s → isSpace c = true → H.parseName s = none

/-! ### Parts of a text -/

theorem dropWhile_of_strip (h : strip s = s) : s.dropWhile isSpace = s := by
  refine (dropWhile_suffix isSpace).eq_of_length_le ?_
  have hle := (List.rdropWhile_prefix isSpace (s.dropWhile isSpace)).length_le
  rwa [← strip, h] at hle

theorem sum_splitOn (s : Str) : ((s.splitOn '.').map (·.length + 1)).sum = s.length + 1 := by
  induction s with
  | nil => rfl
  | cons x s ih =>
    by_cases hx : x = '.'
    · rw [hx, splitOn_dot_cons, map_cons, sum_cons, ih, length_cons, length_nil]
      omega
    · have hsin : '.' ∉ [x] := by simpa using Ne.symm hx
      rw [← singleton_append, splitOn_append_of_not_mem hsin]
      cases h : s.splitOn '.' with
      | nil => exact absurd h (splitOn_ne_nil _ _)
      | cons =>
        rw [h, map_cons, sum_cons] at ih
        simp only [modifyHead_cons, map_cons, sum_cons, length_append, length_cons, length_nil]
        omega

/-- The condition on a target: its labels are plain, or it fits. -/
def TargetFits (octets : Str → ℕ) (target : Str) : Prop :=
  ¬PlainLabels (trimDots target) → NameFits octets (trimDots target)

section Names

variable {H : Hickory} {octets : Str → ℕ} (hH : NameGrammar H octets)

include hH

theorem NameGrammar.fits_of_plain (hs : isDnsName s = true) (hpl : PlainLabels s)
    (hlen : s.length ≤ 253) (hlab : ∀ l ∈ s.splitOn '.', l.length ≤ 63) :
    NameFits octets s := by
  have hoct : ∀ l ∈ s.splitOn '.', octets l = l.length := fun l hl =>
    hH.plain (List.all_eq_true.mp hs l hl) (hpl l hl)
  have hsum : ((s.splitOn '.').map (octets · + 1)).sum = s.length + 1 := by
    rw [← sum_splitOn]
    exact congrArg List.sum (map_congr_left fun l hl => by rw [hoct l hl])
  exact ⟨fun l hl => (hoct l hl).trans_le (hlab l hl), by omega⟩

/-- **A target that is accepted** is parsed, unless a label of it is not plain and its wire form
does not fit. -/
theorem NameGrammar.parses_target {data : Str} (hstr : strip data = data)
    (h : (validateDnsName data false).isSome = true) :
    (H.parseName data).isSome = true ↔ TargetFits octets data := by
  obtain ⟨v, hv⟩ := isSome_iff_exists.mp h
  obtain ⟨rfl, s, hs, hform, hlen, hlab⟩ := exists_of_validateDnsName hv
  rw [hstr] at hform
  -- with or without its final dot
  have hpar : (H.parseName data).isSome = true ↔ NameFits octets s := by
    rcases hform with rfl | rfl
    · exact hH.relative hs
    · exact hH.absolute hs
  have htrim : trimDots data = s := by
    rcases hform with rfl | rfl
    · exact trimDots_of_isDnsName hs
    · rw [trimDots_concat_dot, trimDots_of_isDnsName hs]
  rw [hpar, TargetFits, htrim]
  refine ⟨fun hfits _ => hfits, fun hfits => ?_⟩
  by_cases hpl : PlainLabels s
  · exact hH.fits_of_plain hs hpl hlen (hlab rfl)
  · exact hfits hpl

end Names

variable {c : Char} {s : Str}

/-! ### White space in the two languages -/

/-- The control characters that Python takes for white space, and Rust does not. -/
def isSeparator (c : Char) : Bool := 28 ≤ c.toNat && c.toNat ≤ 31

theorem isSpace_eq (c : Char) : isSpace c = (isWhitespace c || isSeparator c) := by
  rw [Bool.eq_iff_iff]
  simp only [isSpace, isWhitespace, isSeparator, Bool.or_eq_true, Bool.and_eq_true,
    decide_eq_true_eq, beq_iff_eq]
  omega

theorem isWhitespace_of_isSeparator (h : isSeparator c = true) :
    isWhitespace c = false := by
  simp only [isSeparator, Bool.and_eq_true, decide_eq_true_eq] at h
  simp only [isWhitespace, Bool.or_eq_false_iff, Bool.and_eq_false_iff, decide_eq_false_iff_not,
    beq_eq_false_iff_ne]
  omega

/-- The text has none of them. -/
def NoSeparators (s : Str) : Prop := ∀ c ∈ s, isSeparator c = false

theorem noSeparators_of_all (h : s.all (!isSeparator ·) = true) : NoSeparators s :=
  fun c hc => by simpa using List.all_eq_true.mp h c hc

theorem NoSeparators.isSpace (h : NoSeparators s) :
    ∀ c ∈ s, Text.isSpace c = isWhitespace c := by
  intro c hc
  rw [isSpace_eq, h c hc, Bool.or_false]

theorem NoSeparators.words (h : NoSeparators s) :
    Control.Zones.words s = splitWhitespace s := by
  rw [Control.Zones.words, splitWhitespace, splitOnP_congr h.isSpace]

theorem NoSeparators.strip (h : NoSeparators s) : Text.strip s = trim s := by
  have hdrop : s.dropWhile Text.isSpace = s.dropWhile isWhitespace := (takeWhile_congr h.isSpace).2
  have hrest : ∀ c ∈ (s.dropWhile isWhitespace).reverse, Text.isSpace c = isWhitespace c :=
    fun c hc => h.isSpace c ((dropWhile_suffix _).subset (mem_reverse.mp hc))
  rw [Text.strip, trim, hdrop, List.rdropWhile, List.rdropWhile, (takeWhile_congr hrest).2]

theorem mem_trim (hc : c ∈ s) (h : isWhitespace c = false) : c ∈ trim s := by
  have hdrop : ∀ l : Str, c ∈ l → c ∈ l.dropWhile isWhitespace := by
    intro l hl
    rw [← takeWhile_append_dropWhile (p := isWhitespace) (l := l), mem_append] at hl
    refine hl.resolve_left fun htake => ?_
    exact absurd (mem_takeWhile_imp htake) (by simp [h])
  rw [trim, List.rdropWhile, mem_reverse]
  exact hdrop _ (mem_reverse.mpr (hdrop s hc))

theorem exists_word_of_isSeparator (hc : c ∈ s) (h : isSeparator c = true) :
    ∃ w ∈ splitWhitespace s, c ∈ w := by
  obtain ⟨w, hw, hcw⟩ := mem_splitOnP.2 c hc (isWhitespace_of_isSeparator h)
  refine ⟨w, mem_filter.mpr ⟨hw, ?_⟩, hcw⟩
  simpa using ne_nil_of_mem hcw

/-! ### Numbers -/

/-- `[+]?[0-9]+`. -/
def isDecimal (s : Str) : Bool := (digits ((stripPrefix "+" s).getD s)).isSome

/-- What is assumed of Python's library. -/
structure Standard (P : Python) : Prop where
  lower : LowersNames P.toCaseMap
  ipVersion : ∀ s, P.ipVersion s = (Url.ipAddress s).map fun
    | .v4 _ => 4
    | .v6 .. => 6
  int : ∀ {s : Str} {n : ℕ} {k : ℤ},
    digits ((stripPrefix "+" s).getD s) = some n → P.int s = some k → k = n

variable {P : Python} {H : Hickory} {octets : Str → ℕ}
variable {s data : Str} {n : UInt16}

/-- A number that is accepted is a `u16` if it is in decimal digits. -/
theorem Standard.parseU16_isSome (hP : Standard P) (h : (P.int s).any (within 0 65535) = true) :
    (parseU16 s).isSome = true ↔ isDecimal s = true := by
  obtain ⟨k, hk, hwit⟩ := (Option.any_eq_true _ _).mp h
  rw [within_iff] at hwit
  rw [parseU16, isSome_map, parseUnsigned, isDecimal]
  cases hdig : digits ((stripPrefix "+" s).getD s) with
  | none => simp
  | some n =>
    have hn := hP.int hdig hk
    have hlt : n < 2 ^ 16 := by omega
    rw [filter_some, if_pos (decide_eq_true hlt)]

theorem mem_of_parseU16 (h : parseU16 s = some n) (hc : c ∈ s) :
    c = '+' ∨ c.isDigit = true := by
  obtain ⟨m, hm, -⟩ := map_eq_some_iff.mp h
  obtain ⟨hdig, -⟩ := filter_eq_some_iff.mp hm
  rw [digits] at hdig
  obtain ⟨⟨-, hall⟩, -⟩ := ite_some_none_eq_some.mp hdig
  cases hstr : stripPrefix "+" s with
  | none =>
    rw [hstr, getD_none] at hall
    exact .inr (List.all_eq_true.mp hall c hc)
  | some =>
    rw [hstr, getD_some] at hall
    rw [stripPrefix_eq_some.mp hstr] at hc
    rcases mem_append.mp hc with hc | hc
    · exact .inl (mem_singleton.mp hc)
    · exact .inr (List.all_eq_true.mp hall c hc)

theorem not_isSeparator_of_parseU16 (h : parseU16 s = some n) :
    NoSeparators s := by
  intro c hc
  rcases mem_of_parseU16 h hc with rfl | hdig
  · decide
  · simp only [Char.isDigit, Bool.and_eq_true, decide_eq_true_eq, ge_iff_le,
      UInt32.le_iff_toNat_le] at hdig
    have hcode : 48 ≤ c.toNat := hdig.1
    simp only [isSeparator, Bool.and_eq_false_iff, decide_eq_false_iff_not]
    omega

theorem NameGrammar.noSeparators (hH : NameGrammar H octets) {n : Name}
    (h : H.parseName s = some n) : NoSeparators s := by
  intro c hc
  by_contra hsep
  have hspa : isSpace c = true := by
    rw [isSpace_eq, eq_true_of_ne_false hsep, Bool.or_true]
  rw [hH.space hc hspa] at h
  exact nomatch h

/-! ### The data by type -/

/-- The value of a CAA record. -/
def caaValue (data : Str) : Str := strip (data.dropWhile (!isSpace ·))

/-- Which accepted data a node can read. -/
def DataReads (octets : Str → ℕ) (data : Str) : RecordKind → Prop
  | .a | .txt => True
  | .aaaa => '%' ∉ data
  | .cname | .ns | .ptr | .mx => TargetFits octets data
  | .srv => NoSeparators data ∧ ∀ weight port target, words data = [weight, port, target] →
      isDecimal weight = true ∧ isDecimal port = true ∧ TargetFits octets target
  | .caa => NoSeparators data ∧ (caaValue data ≠ ";" → TargetFits octets (caaValue data))

/-- The entry that a kind of record becomes. -/
def entryOf : RecordKind → EntryType
  | .a => .a
  | .aaaa => .aaaa
  | .cname => .cname
  | .mx => .mx
  | .txt => .txt
  | .ns => .ns
  | .ptr => .ptr
  | .srv => .srv
  | .caa => .caa

theorem ofText_text (kind : RecordKind) : EntryType.ofText kind.text = entryOf kind := by
  cases kind <;> rfl

/-- `IPv6Address(data)`: without a percent sign it is an address of Rust. -/
theorem parseIpv6_of_ipv6Address {ip : Url.IpAddress} (h : Url.ipv6Address data = some ip) :
    (∃ bits scopeId, ip = .v6 bits scopeId) ∧
      ((parseIpv6 data).isSome = true ↔ '%' ∉ data) := by
  obtain ⟨hfree, hdata⟩ := Url.cut_spec '%' data
  rw [Url.ipv6Address] at h
  split at h
  · rename_i addr hcut
    rw [hcut] at hfree hdata
    rw [map_none, getD_none, append_nil] at hdata
    obtain ⟨bits, hbits, rfl⟩ := map_eq_some_iff.mp h
    refine ⟨⟨bits, none, rfl⟩, ?_⟩
    rw [hdata, hbits]
    exact iff_of_true rfl hfree
  · -- with a zone id, which Rust does not take
    rename_i addr scopeId hcut
    rw [hcut] at hdata
    rw [map_some, getD_some] at hdata
    obtain ⟨-, h⟩ := ite_none_left_eq_some.mp h
    obtain ⟨bits, -, rfl⟩ := map_eq_some_iff.mp h
    have hper : '%' ∈ data := by
      rw [hdata]
      exact mem_append_right _ mem_cons_self
    refine ⟨⟨bits, some scopeId, rfl⟩, fun hsome => ?_, fun hnot => absurd hper hnot⟩
    obtain ⟨ip, hip⟩ := isSome_iff_exists.mp hsome
    exact not_mem_of_parseIpv6 ⟨by decide, by decide, by decide⟩ hip

theorem Standard.parseIpv4_isSome (hP : Standard P) (h : P.ipVersion data = some 4) :
    (parseIpv4 data).isSome = true := by
  rw [hP.ipVersion, Url.ipAddress] at h
  cases hv4 : parseIpv4 data with
  | some => rfl
  | none =>
    rw [hv4] at h
    obtain ⟨ip, hip, hver⟩ := map_eq_some_iff.mp h
    obtain ⟨⟨bits, scopeId, rfl⟩, -⟩ := parseIpv6_of_ipv6Address hip
    simp at hver

theorem Standard.parseIpv6_isSome (hP : Standard P) (h : P.ipVersion data = some 6) :
    (parseIpv6 data).isSome = true ↔ '%' ∉ data := by
  rw [hP.ipVersion, Url.ipAddress] at h
  cases hv4 : parseIpv4 data with
  | some =>
    rw [hv4] at h
    simp at h
  | none =>
    rw [hv4] at h
    obtain ⟨ip, hip, -⟩ := map_eq_some_iff.mp h
    exact (parseIpv6_of_ipv6Address hip).2

section Data

variable (hP : Standard P) (hH : NameGrammar H octets) {e : LocalZoneRecordDto}
  {priority : Option ℤ}

include hP hH

/-- **SRV**: separators stay inside a word, which is then neither a number nor a name. -/
theorem buildRData_srv (he : e.recordType = .srv)
    (h : validateRecordSemantics P .srv e.data priority = true) :
    (buildRData H e).isSome = true ↔ DataReads octets e.data .srv := by
  obtain ⟨-, h⟩ := Bool.and_eq_true_iff.mp h
  simp only at h
  split at h
  · rename_i weight port target hwor
    simp only [Bool.and_eq_true] at h
    obtain ⟨⟨hwei, hport⟩, htar⟩ := h
    have hstr : strip target = target := by
      have hmem : target ∈ words e.data := by simp [hwor]
      exact strip_eq_self fun c hc => (mem_splitOnP.1 target (mem_filter.mp hmem).1 c hc).2
    -- what the reader makes of the three words, if it cuts the data as the validator does
    have hbu : splitWhitespace e.data = [weight, port, target] →
        ((buildRData H e).isSome = true ↔ isDecimal weight = true ∧ isDecimal port = true ∧
          TargetFits octets target) := by
      intro hspl
      rw [← hP.parseU16_isSome hwei, ← hP.parseU16_isSome hport, ← hH.parses_target hstr htar]
      simp only [buildRData, he, hspl]
      cases parseU16 weight <;> cases parseU16 port <;> cases H.parseName target <;> simp
    constructor
    · intro hsome
      -- a separator would be inside a number or the target, and neither parser takes one
      have hfree : NoSeparators e.data := by
        intro c hc
        by_contra hsep
        obtain ⟨w, hw, hcw⟩ := exists_word_of_isSeparator hc (eq_true_of_ne_false hsep)
        obtain ⟨rdata, hrda⟩ := isSome_iff_exists.mp hsome
        simp only [buildRData, he] at hrda
        split at hrda
        · rename_i weight' port' target' hspl
          simp only [bind_eq_bind, bind_eq_some_iff] at hrda
          obtain ⟨n, hn, m, hm, name, hname, -⟩ := hrda
          rw [hspl] at hw
          have hnone : NoSeparators w := by
            simp only [mem_cons, not_mem_nil, or_false] at hw
            rcases hw with rfl | rfl | rfl
            · exact not_isSeparator_of_parseU16 hn
            · exact not_isSeparator_of_parseU16 hm
            · exact hH.noSeparators hname
          exact hsep (hnone c hcw)
        · exact nomatch hrda
      refine ⟨hfree, fun w p t hwpt => ?_⟩
      obtain ⟨rfl, rfl, rfl⟩ : weight = w ∧ port = p ∧ target = t := by
        simpa using hwor.symm.trans hwpt
      exact (hbu (hfree.words.symm.trans hwor)).mp hsome
    · rintro ⟨hfree, hall⟩
      exact (hbu (hfree.words.symm.trans hwor)).mpr (hall _ _ _ hwor)
  · simp at h

omit hP hH in
theorem isWhitespace_of_dropWhile {data rest : Str} {x : Char}
    (h : data.dropWhile (!isWhitespace ·) = x :: rest) : isWhitespace x = true := by
  have hhead := head?_dropWhile_not (!isWhitespace ·) data
  rw [h] at hhead
  simpa using hhead

omit hP hH in
theorem caaValue_eq {data rest : Str} {x : Char} (hfree : NoSeparators data)
    (hrest : data.dropWhile (!isWhitespace ·) = x :: rest) : caaValue data = trim rest := by
  have hagr : ∀ c ∈ data, (!isSpace c) = !isWhitespace c := fun c hc => by
    rw [hfree.isSpace c hc]
  have hsub : ∀ c ∈ x :: rest, c ∈ data := fun c hc =>
    (dropWhile_suffix (!isWhitespace ·)).subset (hrest ▸ hc)
  have hx : isSpace x = true := by
    rw [hfree.isSpace x (hsub x mem_cons_self), isWhitespace_of_dropWhile hrest]
  have hres : NoSeparators rest := fun c hc => hfree c (hsub c (mem_cons_of_mem _ hc))
  rw [caaValue, (takeWhile_congr hagr).2, hrest, ← hres.strip, strip,
    dropWhile_cons_of_pos hx, ← strip]

omit hP hH in
theorem buildRData_caa_parts (he : e.recordType = .caa) {rdata : RData}
    (h : buildRData H e = some rdata) :
    ∃ x rest, e.data.dropWhile (!isWhitespace ·) = x :: rest ∧
      (e.data.takeWhile (!isWhitespace ·) = "issue" ∨
        e.data.takeWhile (!isWhitespace ·) = "issuewild") ∧
      (trim rest = ";" ∨ ∃ name, H.parseName (trim rest) = some name) := by
  simp only [buildRData, he] at h
  split at h
  · cases h
  · rename_i x rest hrest
    refine ⟨x, rest, hrest, ?_, ?_⟩
    · by_contra htag
      rw [not_or] at htag
      simp only [if_neg htag.1, if_neg htag.2, bind_eq_bind, bind_fun_none, ite_self] at h
      cases h
    · by_cases hsemi : trim rest = ";"
      · exact .inl hsemi
      · rw [if_neg hsemi] at h
        obtain ⟨issuer, hiss, -⟩ := bind_eq_some_iff.mp h
        obtain ⟨name, hname, -⟩ := map_eq_some_iff.mp hiss
        exact .inr ⟨name, hname⟩

omit hP in
theorem noSeparators_of_caa (he : e.recordType = .caa) (h : (buildRData H e).isSome = true) :
    NoSeparators e.data := by
  obtain ⟨rdata, hrda⟩ := isSome_iff_exists.mp h
  obtain ⟨x, rest, hrest, htag, hval⟩ := buildRData_caa_parts he hrda
  intro c hc
  rw [← takeWhile_append_dropWhile (p := (!isWhitespace ·)) (l := e.data), hrest] at hc
  rcases mem_append.mp hc with hc | hc
  · have hiss : NoSeparators "issuewild" := noSeparators_of_all (by decide)
    rcases htag with htag | htag
    · exact hiss c (mem_append_left "wild" (htag ▸ hc))
    · exact hiss c (htag ▸ hc)
  -- behind the tag, a separator is white space, which only `trim` could drop
  by_contra hsep
  have hbla := isWhitespace_of_isSeparator (eq_true_of_ne_false hsep)
  rcases mem_cons.mp hc with rfl | hc
  · rw [isWhitespace_of_dropWhile hrest] at hbla
    exact nomatch hbla
  · have hmem := mem_trim hc hbla
    rcases hval with hval | ⟨name, hname⟩
    · rw [hval] at hmem
      exact hsep (noSeparators_of_all (s := ";") (by decide) c hmem)
    · exact hsep (hH.noSeparators hname c hmem)

omit hP in
/-- **CAA**: a separator stays in the tag or in the issuer. -/
theorem buildRData_caa (he : e.recordType = .caa) (hstri : strip e.data = e.data)
    (h : validateRecordSemantics P .caa e.data priority = true) :
    (buildRData H e).isSome = true ↔ DataReads octets e.data .caa := by
  obtain ⟨-, h⟩ := Bool.and_eq_true_iff.mp h
  have hfold : strip (e.data.dropWhile (!isSpace ·)) = caaValue e.data := rfl
  simp only [dropWhile_of_strip hstri, hfold, Bool.and_eq_true, Bool.or_eq_true,
    decide_eq_true_eq] at h
  obtain ⟨⟨htag, hne⟩, hval⟩ := h
  -- without separators both sides cut the data at the same blank
  have hbu : NoSeparators e.data → ((buildRData H e).isSome = true ↔
      (caaValue e.data ≠ ";" → TargetFits octets (caaValue e.data))) := by
    intro hfree
    have hagr : ∀ c ∈ e.data, (!isSpace c) = !isWhitespace c := fun c hc => by
      rw [hfree.isSpace c hc]
    obtain ⟨htake, hdrop⟩ := takeWhile_congr hagr
    cases hrest : e.data.dropWhile (!isWhitespace ·) with
    | nil => exact absurd (by simp only [caaValue, hdrop, hrest]; rfl) hne
    | cons =>
      by_cases hsemi : caaValue e.data = ";"
      · refine iff_of_true ?_ fun hnot => absurd hsemi hnot
        simp only [buildRData, he, hrest, ← caaValue_eq hfree hrest, ← htake, if_pos hsemi]
        rcases htag with htag | htag <;> simp [htag]
      · have hstr : strip (caaValue e.data) = caaValue e.data := strip_idem _
        rw [forall_prop_of_true hsemi, ← hH.parses_target hstr (hval.resolve_left hsemi)]
        simp only [buildRData, he, hrest, ← caaValue_eq hfree hrest, ← htake, if_neg hsemi]
        rcases htag with htag | htag <;> cases H.parseName (caaValue e.data) <;> simp [htag]
  constructor
  · intro hsome
    have hfree := noSeparators_of_caa hH he hsome
    exact ⟨hfree, (hbu hfree).mp hsome⟩
  · rintro ⟨hfree, hfits⟩
    exact (hbu hfree).mpr hfits

/-- **The match of `build_record`** on data that is accepted. -/
theorem buildRData_isSome {kind : RecordKind} (he : e.recordType = entryOf kind)
    (hstr : strip e.data = e.data)
    (h : validateRecordSemantics P kind e.data priority = true) :
    (buildRData H e).isSome = true ↔ DataReads octets e.data kind := by
  have hdata := (Bool.and_eq_true_iff.mp h).2
  cases kind with
  | a =>
    refine iff_of_true ?_ trivial
    simpa only [buildRData, he, entryOf, isSome_map] using
      hP.parseIpv4_isSome (of_decide_eq_true hdata)
  | aaaa =>
    simpa only [buildRData, he, entryOf, isSome_map, DataReads] using
      hP.parseIpv6_isSome (of_decide_eq_true hdata)
  | txt =>
    refine iff_of_true ?_ trivial
    simp only [buildRData, he, entryOf, isSome_some]
  | srv => exact buildRData_srv hP hH he h
  | caa => exact buildRData_caa hH he hstr h
  | _ =>
    simpa only [buildRData, he, entryOf, isSome_map, DataReads] using
      hH.parses_target hstr hdata

end Data

/-! ### Entries -/

/-- The node decodes the entry and builds a resource record of it. -/
def Served (H : Hickory) (entry : LocalZoneRecord) : Prop :=
  ∃ e record, LocalZoneRecordDto.ofJson entry.json = some e ∧ buildRecord H e = some record

/-- The condition for a record in a zone: the TTL that is sent is not negative, the zone's name
does not end in a newline, and hickory and Rust can read the full name and the data. -/
structure Servable (octets : Str → ℕ) (U : CaseMap) (z : DnsZone) (r : DnsRecord) : Prop where
  ttl : 0 ≤ r.ttl.getD z.ttlDefault
  zone : '\n' ∉ z.name
  name : NameFits octets (fqdn U z r)
  data : DataReads octets r.data r.recordType

/-- A request that is accepted writes the record. -/
def Writes (P : Python) (db : ZoneDb) (r : DnsRecord) : Prop :=
  ∃ db', ((∃ u zoneId p, createRecord P db u zoneId r.id p = some db') ∨
    ∃ u zoneId p, updateRecord P db u zoneId r.id p = some db') ∧ r ∈ db'.records

section Entries

variable {tenants : List Str} {db db' : ZoneDb} {tenantId : Str} {z : DnsZone} {r : DnsRecord}

theorem Writes.checked (hP : Standard P) (hdb : Reachable P tenants db) (h : Writes P db r) :
    RowOk r ∧ validateRecordSemantics P r.recordType r.data r.priority = true := by
  have hrows := reachable_rowOk hP.lower hdb
  obtain ⟨db', ⟨u, zoneId, p, hcre⟩ | ⟨u, zoneId, p, hupd⟩, hr⟩ := h
  · obtain ⟨row, hrow, hid, hfre, hrec, hche⟩ := rowOk_createRecord hP.lower hcre
    rw [hrec] at hr
    rcases mem_append.mp hr with hr | hr
    · -- the id is new
      exact absurd ((reachable_wellFormed hdb).recordIssued r hr) hfre
    · rw [mem_singleton.mp hr]
      exact ⟨hrow, hche⟩
  · obtain ⟨row, hrow, hid, hrec, hche⟩ := rowOk_updateRecord hP.lower hupd hrows
    rw [hrec] at hr
    obtain ⟨old, -, hold⟩ := List.mem_map.mp hr
    split at hold
    · exact hold ▸ ⟨hrow, hche⟩
    · rename_i hne
      exact absurd (congrArg DnsRecord.id hold) hne

theorem buildRecord_isSome (e : LocalZoneRecordDto) :
    (buildRecord H e).isSome = true ↔
      (H.parseName e.name).isSome = true ∧ (buildRData H e).isSome = true := by
  rw [buildRecord]
  cases H.parseName e.name <;> cases buildRData H e <;> simp

theorem NameGrammar.parses_fqdn (hH : NameGrammar H octets) {U : CaseMap} (hU : LowersNames U)
    (hr : Named r.name) (hz : z.Ok U) :
    (H.parseName (fqdn U z r)).isSome = true ↔ '\n' ∉ z.name ∧ NameFits octets (fqdn U z r) := by
  rcases hz.isDnsName_or with ⟨hname, hnew⟩ | hnew
  · rw [hH.relative (hr.fqdn hU hname), and_iff_right hnew]
  · have hmem : '\n' ∈ fqdn U z r := (zone_suffix_fqdn U z r).subset hnew
    rw [hH.space hmem (by decide)]
    exact iff_of_false (by simp) fun h => h.1 hnew

theorem served_iff (hP : Standard P) (hH : NameGrammar H octets) (hrow : RowOk r)
    (hsem : validateRecordSemantics P r.recordType r.data r.priority = true)
    (hr : r.Ok) (hz : z.Ok P.toCaseMap) :
    Served H (localZoneRecord P.toCaseMap z r) ↔ Servable octets P.toCaseMap z r := by
  have hname := hH.parses_fqdn hP.lower hrow.name hz
  -- the entry, once it is decoded
  have hbu : ∀ e, LocalZoneRecordDto.ofJson (localZoneRecord P.toCaseMap z r).json = some e →
      ((buildRecord H e).isSome = true ↔ ('\n' ∉ z.name ∧ NameFits octets (fqdn P.toCaseMap z r)) ∧
        DataReads octets r.data r.recordType) := by
    intro e he
    obtain ⟨hfqdn, -, htype, hdata⟩ := ofJson_localZoneRecord_eq_some he
    have hfqdn : e.name = fqdn P.toCaseMap z r := hfqdn
    have htype : e.recordType = entryOf r.recordType := htype.trans (ofText_text _)
    have hdata : e.data = r.data := hdata
    rw [buildRecord_isSome, hfqdn, hname, ← hdata]
    refine and_congr_right fun _ => buildRData_isSome hP hH htype ?_ (hdata ▸ hsem)
    rw [hdata, hrow.data]
  constructor
  · rintro ⟨e, record, he, hrec⟩
    have hdec := ofJson_localZoneRecord_isSome.mp (isSome_iff_exists.mpr ⟨e, he⟩)
    obtain ⟨⟨hzone, hfits⟩, hdata⟩ := (hbu e he).mp (isSome_iff_exists.mpr ⟨_, hrec⟩)
    exact ⟨hdec.1.1, hzone, hfits, hdata⟩
  · intro h
    -- the columns are 32 bits wide, so only a negative TTL is out of range
    have httl : r.ttl.getD z.ttlDefault ≤ 4294967295 := by
      have hdef := int4_iff.mp hz.ttlDefault
      cases hrt : r.ttl with
      | none =>
        rw [getD_none]
        omega
      | some t =>
        have hint := int4_iff.mp ((Option.all_eq_true _ _).mp hr.ttl t hrt)
        rw [getD_some]
        omega
    have hpri : ∀ p ∈ r.priority, 0 ≤ p ∧ p ≤ 65535 := fun p hp =>
      within_iff.mp ((Option.all_eq_true _ _).mp hr.priority p hp)
    obtain ⟨e, he⟩ := isSome_iff_exists.mp
      (ofJson_localZoneRecord_isSome (r := localZoneRecord P.toCaseMap z r).mpr
        ⟨⟨h.ttl, httl⟩, hpri⟩)
    obtain ⟨record, hrec⟩ := isSome_iff_exists.mp
      ((hbu e he).mpr ⟨⟨h.zone, h.name⟩, h.data⟩)
    exact ⟨e, record, he, hrec⟩

/-- **Which accepted records are served.** -/
theorem accepted_served_iff (hP : Standard P) (hH : NameGrammar H octets)
    (hdb : Reachable P tenants db) (hwrites : Writes P db r) (hlater : Reachable P tenants db')
    (hz : z ∈ db'.servedZones tenantId) (hr : r ∈ db'.recordsOf z) (henabled : r.enabled = true)
    (serial : DnsZone → ℤ) :
    localZoneRecord P.toCaseMap z r ∈ getLocalZoneRecords P.toCaseMap serial db' tenantId ∧
      (Served H (localZoneRecord P.toCaseMap z r) ↔ Servable octets P.toCaseMap z r) := by
  constructor
  · have hsent := List.mem_map_of_mem (f := localZoneRecord P.toCaseMap z)
      (mem_filter.mpr ⟨hr, henabled⟩)
    exact mem_flatMap.mpr ⟨z, hz, mem_append_right _ hsent⟩
  · obtain ⟨hrow, hsem⟩ := hwrites.checked hP hdb
    have hwf := reachable_wellFormed hlater
    exact served_iff hP hH hrow hsem (hwf.recordOk r (mem_of_mem_filter hr))
      (hwf.zoneOk z (mem_of_mem_filter hz))

end Entries

/-! ### Two accepted records that are skipped -/

theorem mem_lowerNameChar {d : Char} (h : d ∈ lowerNameChar c) (hspa : isSpace d = true) :
    d = c := by
  rw [lowerNameChar] at h
  split_ifs at h
  · rcases mem_cons.mp h with rfl | h
    · exact absurd hspa (by decide)
    · rw [mem_singleton.mp h] at hspa
      exact absurd hspa (by decide)
  · rw [mem_singleton.mp h] at hspa
    exact absurd hspa (by decide)
  · rw [mem_singleton.mp h] at hspa ⊢
    exact toNat_toLower_of_isSpace hspa

theorem lowerNameChar_of_ascii (h : c.toNat < 128) : lowerNameChar c = [c.toLower] := by
  rw [lowerNameChar, if_neg, if_neg]
  · rintro rfl
    simp at h
  · rintro rfl
    simp at h

/-- Python's library on the texts that matter here. -/
def namePython : Python where
  lower s := s.flatMap lowerNameChar
  lower_ascii {s} h := by
    rw [lowerAscii, map_eq_flatMap]
    exact flatMap_congr fun c hc => lowerNameChar_of_ascii (h c hc)
  lower_space {s c} hc hspace := by
    obtain ⟨d, hd, hcd⟩ := mem_flatMap.mp hc
    exact mem_lowerNameChar hcd hspace ▸ hd
  ipVersion s := (Url.ipAddress s).map fun
    | .v4 _ => 4
    | .v6 .. => 6
  int s := (digits ((stripPrefix "+" s).getD s)).map Int.ofNat

theorem namePython_standard : Standard namePython where
  lower _ _ := rfl
  ipVersion _ := rfl
  int {s n k} hn hk := by
    rw [namePython] at hk
    simp only [hn, map_some, some_inj] at hk
    exact hk.symm

theorem wireHickory_parses {text : Str} (hs : isDnsName s = true)
    (htext : text = s ∨ text = s ++ ['.']) :
    (wireHickory.parseName text).isSome = true ↔ NameFits wireOctets s := by
  have hbare : (if text.getLast? = some '.' then text.dropLast else text) = s := by
    rcases htext with rfl | rfl
    · exact if_neg (getLast?_of_isDnsName hs)
    · rw [if_pos (by simp), dropLast_concat]
  have hne : ∀ l ∈ s.splitOn '.', l ≠ [] := by
    rintro l hl rfl
    exact absurd (List.all_eq_true.mp hs [] hl) (by decide)
  show (wireParse text).isSome = true ↔ _
  simp only [wireParse, hbare]
  rw [isSome_ite]
  exact and_congr_left' (forall₂_congr fun l hl => and_iff_right (hne l hl))

theorem wireParse_space {c : Char} (hc : c ∈ s) (hspa : isSpace c = true) : wireParse s = none := by
  have hdot : c ≠ '.' := by
    rintro rfl
    exact absurd hspa (by decide)
  have hbare : c ∈ if s.getLast? = some '.' then s.dropLast else s := by
    split
    · rename_i hlast
      rw [← dropLast_append_getLast? _ hlast] at hc
      exact (mem_append.mp hc).resolve_right (by simpa using hdot)
    · exact hc
  -- the label with the white space has no wire form
  obtain ⟨l, hl, hcl⟩ := (mem_splitOnP (p := (· == '.'))).2 c hbare (by simpa using hdot)
  refine if_neg fun h => ?_
  have hlen := (h.1 l hl).2
  rw [wireOctets, if_pos (List.any_eq_true.mpr ⟨c, hcl, hspa⟩)] at hlen
  omega

theorem wireHickory_grammar : NameGrammar wireHickory wireOctets where
  plain {l} hlab hpl := by
    rw [isPlain, Bool.and_eq_true, decide_eq_true_eq] at hpl
    refine wireHickory_limits.ascii hpl.1 (List.any_eq_false.mpr fun c hc => ?_)
    rcases isNameLabel_iff.mp hlab with rfl | ⟨-, -, hcha⟩
    · rw [mem_singleton.mp hc]
      decide
    · simp [isSpace_of_nameChar (.inl (hcha c hc))]
  relative hs := wireHickory_parses hs (.inl rfl)
  absolute hs := wireHickory_parses hs (.inr rfl)
  space := wireParse_space

def sampleZone : ZoneCreate :=
  ⟨"acme", "corp.lab", .«local», true, 300, none⟩

/-- The row that a payload becomes. -/
def acceptedRow (p : RecordIn) : DnsRecord :=
  ⟨"r1", "z1", p.name, p.recordType, p.ttl, p.data, p.priority, p.enabled, none, none⟩

/-- A tenant with one zone. -/
def acceptedTables (records : List DnsRecord) (issued : List Str) : ZoneDb :=
  ⟨["acme"], [⟨"z1", some "acme", "corp.lab", .«local», true, 300, none⟩], records, [], [], issued⟩

theorem acceptedTables_reachable : Reachable namePython ["acme"] (acceptedTables [] ["z1"]) :=
  @reachable_requests _ _ _ [.createZone sampleOperator "z1" sampleZone] (by decide +kernel)

theorem acceptedTables_writes {p : RecordIn}
    (h : createRecord namePython (acceptedTables [] ["z1"]) sampleOperator "z1" "r1" p =
      some (acceptedTables [acceptedRow p] ["r1", "z1"])) :
    Writes namePython (acceptedTables [] ["z1"]) (acceptedRow p) ∧
      Reachable namePython ["acme"] (acceptedTables [acceptedRow p] ["r1", "z1"]) := by
  obtain ⟨events, s, hrun, hdb⟩ := acceptedTables_reachable
  have hreq : s.db.apply namePython (.createRecord sampleOperator "z1" "r1" p) = _ := hdb ▸ h
  exact ⟨⟨_, .inl ⟨_, _, p, h⟩, mem_singleton_self _⟩, events, _, hrun.tail (.request hreq), rfl⟩

instance (entry : LocalZoneRecord) : Decidable (Served H entry) :=
  decidable_of_iff (∃ e, LocalZoneRecordDto.ofJson entry.json = some e ∧
    (buildRecord H e).isSome = true) (by simp [Served, isSome_iff_exists])

/-- A service record of the zone. -/
def sipRecord : RecordIn :=
  ⟨"_sip._tcp", .srv, "5 5060 pbx.corp.lab.", none, some 10, true⟩

theorem accepted_served_sip : ∃ db z r, Reachable namePython ["acme".toList] db ∧
    z ∈ db.servedZones "acme".toList ∧ r ∈ db.recordsOf z ∧ r.data = sipRecord.data ∧
      Served wireHickory (localZoneRecord namePython.toCaseMap z r) := by
  obtain ⟨hwri, hlat⟩ := acceptedTables_writes (p := sipRecord) (by decide +kernel)
  have hz : _ ∈ (acceptedTables [acceptedRow sipRecord] ["r1", "z1"]).servedZones "acme" :=
    mem_singleton_self _
  refine ⟨_, _, acceptedRow sipRecord, hlat, hz, mem_singleton_self _, rfl, ?_⟩
  refine (accepted_served_iff namePython_standard wireHickory_grammar acceptedTables_reachable
    hwri hlat hz (mem_singleton_self _) rfl fun _ => 0).2.mpr
      ⟨by decide, by decide, ⟨by decide +kernel, by decide +kernel⟩, ?_⟩
  have hwor : words (acceptedRow sipRecord).data =
    ["5".toList, "5060".toList, "pbx.corp.lab.".toList] := by decide
  refine ⟨noSeparators_of_all (by decide), fun weight port target h => ?_⟩
  rw [hwor] at h
  obtain ⟨rfl, rfl, rfl⟩ : "5".toList = weight ∧ "5060".toList = port ∧
      "pbx.corp.lab.".toList = target := by simpa only [List.cons.injEq, and_true] using h
  refine ⟨by decide, by decide, fun hnot => absurd ?_ hnot⟩
  show ∀ l ∈ (trimDots "pbx.corp.lab.".toList).splitOn '.', isPlain l = true
  decide

/-- An owner of 253 characters. -/
def longOwner : Str :=
  join "." [List.replicate 63 'a', List.replicate 63 'a', List.replicate 63 'a',
    List.replicate 61 'a']

/-- The payload is accepted, stored and enabled in a served zone, and its record is not served. -/
def Skipped (p : RecordIn) : Prop :=
  ∃ db db' z r, Reachable namePython ["acme".toList] db ∧ Writes namePython db r ∧
    Reachable namePython ["acme".toList] db' ∧ z ∈ db'.servedZones "acme".toList ∧
    r ∈ db'.recordsOf z ∧ r.enabled = true ∧ r.name = p.name ∧ r.data = p.data ∧
    ¬Served wireHickory (localZoneRecord namePython.toCaseMap z r)

theorem skipped_of_tables {p : RecordIn}
    (h : createRecord namePython (acceptedTables [] ["z1"]) sampleOperator "z1" "r1" p =
      some (acceptedTables [acceptedRow p] ["r1", "z1"]) ∧ p.enabled = true ∧
      ∀ z ∈ (acceptedTables [] []).zones, ¬Served wireHickory
        (localZoneRecord namePython.toCaseMap z (acceptedRow p))) : Skipped p := by
  obtain ⟨hcre, hena, hskip⟩ := h
  obtain ⟨hwri, hlat⟩ := acceptedTables_writes hcre
  exact ⟨_, _, _, acceptedRow p, acceptedTables_reachable, hwri, hlat,
    mem_singleton_self _, mem_singleton_self _, hena, rfl, rfl,
    hskip _ (mem_singleton_self _)⟩

/-- An address with a scope id, and an owner that is too long before the zone. -/
theorem accepted_skipped :
    Skipped ⟨"router", .aaaa, "fe80::1%eth0", none, none, true⟩ ∧
      Skipped ⟨longOwner, .a, "10.0.0.5", none, none, true⟩ :=
  ⟨skipped_of_tables (by decide +kernel), skipped_of_tables (by decide +kernel)⟩

end Node.Zone
