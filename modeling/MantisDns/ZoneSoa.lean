/-
Zone names and the SOA that every published zone must have.

`publish` panics when a zone got no SOA that could be built and none can be
synthesized from its name.  Both need the name `hostmaster.<zone>.`, and the
validator of zone names bounds the labels but not the whole name.

* `publish_isSome_iff` — for which served zones `publish` completes, for a parser
  that rejects names and labels by their length only (`WireLimits`);
* `publish_completes_iff`, `local_zones_load_iff` — the same with the cuts of TXT
  data, and for the whole refresh;
* `long_zone_panics` — a zone name that the API accepts and that makes
  `publish` panic.
-/
import MantisDns.LocalZones

open Text Table Dns List
open Option hiding join

namespace Control.Zones

/-! ### Accepted zone names -/

/-- A label of a name that is read without escapes. -/
def PlainLabel (l : Str) : Prop := l ≠ [] ∧ '.' ∉ l ∧ '\\' ∉ l

theorem isWhitespace_of_alnum {c : Char} (h : (isAlnumIgnoreCase c || c == '-') = true) :
    isWhitespace c = false := by
  simp only [isAlnumIgnoreCase, isAlnum, Bool.or_eq_true, Bool.and_eq_true, decide_eq_true_eq,
    beq_iff_eq, Char.le_def, UInt32.le_iff_toNat_le] at h
  rcases h with ((((((hc | hc) | hc) | rfl) | rfl) | rfl) | rfl) | rfl
  · have hc : 97 ≤ c.toNat ∧ c.toNat ≤ 122 := hc
    simp [isWhitespace]
    omega
  · have hc : 48 ≤ c.toNat ∧ c.toNat ≤ 57 := hc
    simp [isWhitespace]
    omega
  · have hc : 65 ≤ c.toNat ∧ c.toNat ≤ 90 := hc
    simp [isWhitespace]
    omega
  all_goals decide

section Labels

variable {l : Str} (h : isLabel isAlnumIgnoreCase l = true)

include h

theorem mem_isLabel : ∀ c ∈ l, (isAlnumIgnoreCase c || c == '-') = true := by
  simp only [isLabel, Bool.and_eq_true] at h
  exact List.all_eq_true.mp h.1.1.2

theorem plainLabel_of_isLabel : PlainLabel l := by
  refine ⟨?_, fun hdot => absurd (mem_isLabel h _ hdot) (by decide),
    fun hsla => absurd (mem_isLabel h _ hsla) (by decide)⟩
  rintro rfl
  exact absurd h (by decide)

end Labels

variable {U : CaseMap} {v name : Str}

/-- What the pattern of zone names matches: labels, and a newline that `$` may
have let through at the end. -/
theorem zoneName_cases (h : zoneName U v = some name) :
    ∃ labels, labels ≠ [] ∧ (∀ l ∈ labels, isLabel isAlnumIgnoreCase l = true) ∧
      (name = join "." labels ∨ name = join "." labels ++ ['\n']) := by
  rw [zoneName] at h
  obtain ⟨hre, h⟩ := ite_none_right_eq_some.mp h
  cases h
  rw [zoneNameRe, Bool.or_eq_true, Bool.and_eq_true, beq_iff_eq] at hre
  rcases hre.2 with hlab | ⟨hlast, hlab⟩
  · exact ⟨_, splitOn_ne_nil _ _, List.all_eq_true.mp hlab, .inl (join_splitOn _).symm⟩
  · refine ⟨_, splitOn_ne_nil _ _, List.all_eq_true.mp hlab, .inr ?_⟩
    rw [join_splitOn]
    exact (dropLast_append_getLast? _ hlast).symm

theorem zoneName_plain (h : zoneName U v = some name) :
    ∃ labels, labels ≠ [] ∧ (∀ l ∈ labels, PlainLabel l) ∧ name = join "." labels := by
  obtain ⟨labels, hne, hlab, rfl | rfl⟩ := zoneName_cases h
  · exact ⟨labels, hne, fun l hl => plainLabel_of_isLabel (hlab l hl), rfl⟩
  · -- the newline joins the last label
    obtain ⟨init, last, rfl⟩ : ∃ init last, labels = init ++ [last] :=
      ⟨_, _, (dropLast_append_getLast hne).symm⟩
    refine ⟨init ++ [last ++ ['\n']], by simp, ?_, (join_concat_append _ _ _ _).symm⟩
    intro l hl
    rcases mem_append.mp hl with hl | hl
    · exact plainLabel_of_isLabel (hlab l (mem_append_left _ hl))
    · obtain ⟨hnil, hdot, hsla⟩ := plainLabel_of_isLabel (hlab last (by simp))
      rw [mem_singleton.mp hl]
      exact ⟨by simp, by simpa using hdot, by simpa using hsla⟩

theorem zoneName_space (h : zoneName U v = some name) :
    ∃ base, (∀ c ∈ base, isWhitespace c = false) ∧ (name = base ∨ name = base ++ ['\n']) := by
  obtain ⟨labels, -, hlab, hname⟩ := zoneName_cases h
  refine ⟨join "." labels, fun c hc => ?_, hname⟩
  rcases mem_join hc with hdot | ⟨l, hl, hc⟩
  · rw [mem_singleton.mp hdot]
    decide
  · exact isWhitespace_of_alnum (mem_isLabel (hlab l hl) c hc)

theorem zoneName_normalize (hU : U.Lowers) (h : zoneName U v = some name) :
    Node.Zone.normalize name = name := by
  rw [zoneName] at h
  obtain ⟨-, h⟩ := ite_none_right_eq_some.mp h
  rw [← some_inj.mp h, Node.Zone.normalize, trimDots_idem, ← trimDots_lowerAscii, hU]

end Control.Zones

namespace Node.Zone

open Control.Zones Control.Ddns Json

/-! ### The words of a SOA -/

def isWord (w : Str) : Bool := w ≠ [] && w.all (!isWhitespace ·)

theorem isWord_iff {w : Str} :
    isWord w = true ↔ w ≠ [] ∧ ∀ c ∈ w, isWhitespace c = false := by
  simp [isWord]

theorem splitWhitespace_word {w rest : Str} {sep : Char} (hw : isWord w = true)
    (hsep : isWhitespace sep = true) :
    splitWhitespace (w ++ sep :: rest) = w :: splitWhitespace rest := by
  obtain ⟨hne, hw⟩ := isWord_iff.mp hw
  rw [splitWhitespace, splitOnP_append_cons_of_forall_mem hw sep hsep,
    filter_cons_of_pos (by simpa using hne), splitWhitespace]

theorem splitWhitespace_last {w : Str} (hw : isWord w = true) : splitWhitespace w = [w] := by
  obtain ⟨hne, hw⟩ := isWord_iff.mp hw
  rw [splitWhitespace, splitOnP_eq_singleton hw, filter_cons_of_pos (by simpa using hne),
    filter_nil]

theorem isWord_around {before name after : Str} (hbef : isWord before = true)
    (hname : ∀ c ∈ name, isWhitespace c = false) (haft : ∀ c ∈ after, isWhitespace c = false) :
    isWord (before ++ name ++ after) = true := by
  obtain ⟨hne, hbef⟩ := isWord_iff.mp hbef
  refine isWord_iff.mpr ⟨by simp [hne], fun c hc => ?_⟩
  simp only [mem_append] at hc
  rcases hc with (hc | hc) | hc
  · exact hbef c hc
  · exact hname c hc
  · exact haft c hc

theorem isWhitespace_of_isDigit {c : Char} (h : c.isDigit = true) : isWhitespace c = false := by
  simp only [Char.isDigit, Bool.and_eq_true, decide_eq_true_eq, ge_iff_le,
    UInt32.le_iff_toNat_le] at h
  have h : 48 ≤ c.toNat ∧ c.toNat ≤ 57 := h
  simp [isWhitespace]
  omega

theorem isWord_intText (n : ℤ) : isWord (intText n) = true := by
  have hdig : ∀ c ∈ natText n.natAbs, isWhitespace c = false := fun c hc =>
    isWhitespace_of_isDigit (Nat.isDigit_of_mem_toDigits (by decide) (by decide) hc)
  rw [isWord_iff, intText]
  split
  · exact ⟨by simp, forall_mem_cons.mpr ⟨rfl, hdig⟩⟩
  · exact ⟨Nat.toDigits_ne_nil, hdig⟩

theorem splitWhitespace_numbers (serial minimum : ℤ) :
    splitWhitespace (intText serial ++ (" 3600 900 604800 " ++ intText minimum)) =
      [intText serial, "3600", "900", "604800", intText minimum] := by
  show splitWhitespace (intText serial ++ ' ' :: ("3600" ++ ' ' :: ("900" ++ ' ' ::
    ("604800" ++ ' ' :: intText minimum)))) = _
  rw [splitWhitespace_word (isWord_intText serial) rfl, splitWhitespace_word rfl rfl,
    splitWhitespace_word rfl rfl, splitWhitespace_word rfl rfl,
    splitWhitespace_last (isWord_intText minimum)]

theorem soaData_eq (name : Str) (serial minimum : ℤ) :
    soaData name serial minimum = "ns1." ++ (name ++ ("." ++ ' ' ::
      ("hostmaster." ++ (name ++ ("." ++ ' ' ::
        (intText serial ++ (" 3600 900 604800 " ++ intText minimum))))))) := by
  have hcut {a n b c d e s t u : Str} {x : Char} (hb : b = d ++ x :: e) (hc : c = d ++ [x]) :
      a ++ n ++ b ++ n ++ c ++ s ++ t ++ u =
        a ++ (n ++ (d ++ x :: (e ++ (n ++ (d ++ x :: (s ++ (t ++ u))))))) := by
    simp [hb, hc]
  exact hcut rfl rfl

theorem splitWhitespace_soaData {name : Str} (hname : ∀ c ∈ name, isWhitespace c = false)
    (serial minimum : ℤ) :
    splitWhitespace (soaData name serial minimum) =
      ["ns1." ++ name ++ ".", "hostmaster." ++ name ++ ".",
        intText serial, "3600", "900", "604800", intText minimum] := by
  have hdot : ∀ c ∈ ".".toList, isWhitespace c = false := (isWord_iff.mp rfl).2
  have htext : soaData name serial minimum = ("ns1." ++ name ++ ".") ++ ' ' ::
      (("hostmaster." ++ name ++ ".") ++ ' ' ::
        (intText serial ++ (" 3600 900 604800 " ++ intText minimum))) := by
    rw [soaData_eq]
    simp only [append_assoc]
  rw [htext, splitWhitespace_word (isWord_around rfl hname hdot) rfl,
    splitWhitespace_word (isWord_around rfl hname hdot) rfl, splitWhitespace_numbers]

theorem splitWhitespace_soaData_newline {base : Str} (hbase : ∀ c ∈ base, isWhitespace c = false)
    (serial minimum : ℤ) :
    (splitWhitespace (soaData (base ++ ['\n']) serial minimum)).length = 9 := by
  have hnone : ∀ c ∈ ([] : Str), isWhitespace c = false := fun c hc => absurd hc (by simp)
  -- the newline ends a word, and its dot stands alone, twice
  have htext : soaData (base ++ ['\n']) serial minimum =
      ("ns1.".toList ++ base ++ []) ++ '\n' :: (".".toList ++ ' ' ::
        (("hostmaster.".toList ++ base ++ []) ++ '\n' :: (".".toList ++ ' ' ::
          (intText serial ++ (" 3600 900 604800 " ++ intText minimum))))) := by
    rw [soaData_eq]
    simp only [append_assoc, nil_append, cons_append]
  rw [htext, splitWhitespace_word (isWord_around rfl hbase hnone) rfl, splitWhitespace_word rfl rfl,
    splitWhitespace_word (isWord_around rfl hbase hnone) rfl, splitWhitespace_word rfl rfl,
    splitWhitespace_numbers]
  rfl

/-! ### Names that fit -/

/-- What is assumed of the name parser: among absolute names of plain labels it
rejects exactly those with a label over 63 octets or with more than 255 octets.
`octets` counts the octets of a label on the wire, which for ASCII text are its
characters; a label with white space that has no wire form counts as over 63. -/
structure WireLimits (H : Hickory) (octets : Str → ℕ) : Prop where
  ascii : ∀ {l : Str}, IsAscii l → l.any isSpace = false → octets l = l.length
  parses : ∀ {labels : List Str}, labels ≠ [] → (∀ l ∈ labels, PlainLabel l) →
    ((H.parseName (join "." labels ++ ".")).isSome ↔
      (∀ l ∈ labels, octets l ≤ 63) ∧ 1 + (labels.map (octets · + 1)).sum ≤ 255)

/-- The wire form of `hostmaster.<name>.` stays within the limits. -/
def HostmasterFits (octets : Str → ℕ) (name : Str) : Prop :=
  (∀ l ∈ name.splitOn '.', octets l ≤ 63) ∧
    12 + ((name.splitOn '.').map (octets · + 1)).sum ≤ 255

section Limits

variable {H : Hickory} {octets : Str → ℕ} (hH : WireLimits H octets)

include hH

theorem WireLimits.parses_host {host before : Str} (hbef : before = host ++ ".")
    (hpl : PlainLabel host) (hasc : IsAscii host) (hspa : host.any isSpace = false)
    (hlen : host.length ≤ 63) {labels : List Str} (hne : labels ≠ [])
    (hlab : ∀ l ∈ labels, PlainLabel l) :
    (H.parseName (before ++ join "." labels ++ ".")).isSome ↔
      (∀ l ∈ labels, octets l ≤ 63) ∧
        host.length + 2 + (labels.map (octets · + 1)).sum ≤ 255 := by
  have hjoin : before ++ join "." labels = join "." (host :: labels) := by
    rw [hbef, join, join, intercalate_cons_of_ne_nil hne]
  rw [hjoin, hH.parses (by simp) (forall_mem_cons.mpr ⟨hpl, hlab⟩),
    forall_mem_cons, map_cons, sum_cons, hH.ascii hasc hspa]
  constructor
  · rintro ⟨⟨-, hl⟩, hsum⟩
    exact ⟨hl, by omega⟩
  · rintro ⟨hl, hsum⟩
    exact ⟨⟨hlen, hl⟩, by omega⟩

variable {U : CaseMap} {v name : Str} (hname : zoneName U v = some name)

include hname

theorem WireLimits.parses_hostmaster :
    (H.parseName ("hostmaster." ++ name ++ ".")).isSome ↔
      HostmasterFits octets name := by
  obtain ⟨labels, hne, hlab, rfl⟩ := zoneName_plain hname
  rw [HostmasterFits, join, show "." = ['.'] from rfl,
    splitOn_intercalate '.' (fun l hl => (hlab l hl).2.1) hne]
  exact @WireLimits.parses_host H octets hH "hostmaster" _ rfl
    ⟨by decide, by decide, by decide⟩ (by decide) rfl (by decide) labels hne hlab

theorem WireLimits.synthesizeSoa_isSome :
    (synthesizeSoa H name).isSome ↔ HostmasterFits octets name := by
  rw [← hH.parses_hostmaster hname]
  constructor
  · intro h
    obtain ⟨soa, hsoa⟩ := isSome_iff_exists.mp h
    simp only [synthesizeSoa, bind_eq_bind, bind_eq_some_iff] at hsoa
    obtain ⟨-, -, -, -, rname, hrn, -⟩ := hsoa
    rw [hrn]
    rfl
  · intro hrn
    obtain ⟨hfit, hsum⟩ := (hH.parses_hostmaster hname).mp hrn
    obtain ⟨labels, hne, hlab, rfl⟩ := zoneName_plain hname
    have hspl : (join "." labels).splitOn '.' = labels :=
      splitOn_intercalate '.' (fun l hl => (hlab l hl).2.1) hne
    rw [hspl] at hfit hsum
    -- `hostmaster.<zone>.` is the longest of the three names
    have hapex := (hH.parses hne hlab).mpr ⟨hfit, by omega⟩
    have hmna := (@WireLimits.parses_host H octets hH "ns1" "ns1." rfl
      ⟨by decide, by decide, by decide⟩ (by decide) rfl (by decide) labels hne hlab).mpr
      ⟨hfit, by rw [show "ns1".toList.length = 3 from rfl]; omega⟩
    obtain ⟨apex, hapex⟩ := isSome_iff_exists.mp hapex
    obtain ⟨mname, hmna⟩ := isSome_iff_exists.mp hmna
    obtain ⟨rname, hrn⟩ := isSome_iff_exists.mp hrn
    rw [synthesizeSoa, hapex, hmna, hrn]
    rfl

end Limits

/-! ### When `publish` completes -/

theorem buildRecord_soa {H : Hickory} {e : LocalZoneRecordDto} {r : Record}
    (h : buildRecord H e = some r) (hr : r.recordType = .soa) :
    e.recordType = .soa ∧ ∃ mname rname rest, splitWhitespace e.data = mname :: rname :: rest ∧
      rest.length = 5 ∧ (H.parseName rname).isSome := by
  simp only [buildRecord, bind_eq_bind, bind_eq_some_iff, Option.pure_def, some_inj] at h
  obtain ⟨name, -, data, hdata, rfl⟩ := h
  obtain ⟨m, n, a, b, c, d, f, rfl⟩ : ∃ m n a b c d f, data = .soa m n a b c d f := by
    cases data with
    | soa m n a b c d f => exact ⟨m, n, a, b, c, d, f, rfl⟩
    | _ => simp [Record.recordType, RData.recordType] at hr
  -- no other branch builds a SOA
  cases he : e.recordType <;> simp only [buildRData, he] at hdata
  case soa =>
    split at hdata
    · rename_i mname rname serial refresh retry expire minimum hwor
      simp only [bind_eq_bind, bind_eq_some_iff] at hdata
      obtain ⟨-, -, x, hx, -⟩ := hdata
      exact ⟨rfl, mname, rname, _, hwor, rfl, by rw [hx]; rfl⟩
    · simp at hdata
  case srv =>
    split at hdata <;> simp [bind_eq_some_iff] at hdata
  case caa =>
    split at hdata
    · simp at hdata
    · split_ifs at hdata <;> simp [bind_eq_some_iff] at hdata
  all_goals simp at hdata

section Served

variable {P : Python} {db : ZoneDb} {tenantId : Str} {serial : DnsZone → ℤ} {r : LocalZoneRecord}

theorem zone_of_mem (h : r ∈ getLocalZoneRecords P.toCaseMap serial db tenantId) :
    ∃ z ∈ db.servedZones tenantId, r.zone = z.name := by
  obtain ⟨z, hz, hr⟩ := mem_flatMap.mp h
  refine ⟨z, hz, ?_⟩
  rcases mem_append.mp hr with hr | hr
  · exact (mem_synthesizeApexRecords hr).1
  · obtain ⟨x, -, rfl⟩ := List.mem_map.mp hr
    rfl

theorem soa_of_mem (h : r ∈ getLocalZoneRecords P.toCaseMap serial db tenantId)
    (hsoa : EntryType.ofText r.recordType = .soa) :
    ∃ z ∈ db.servedZones tenantId,
      r.zone = z.name ∧ r.data = soaData z.name (serial z) z.ttlDefault := by
  obtain ⟨z, hz, hr⟩ := mem_flatMap.mp h
  refine ⟨z, hz, ?_⟩
  rcases mem_append.mp hr with hr | hr
  · obtain ⟨hzone, -, -, ⟨-, hdata⟩ | hns⟩ := mem_synthesizeApexRecords hr
    · exact ⟨hzone, hdata⟩
    · rw [hns] at hsoa
      exact absurd hsoa (by decide)
  · obtain ⟨x, -, rfl⟩ := List.mem_map.mp hr
    -- no stored row has this type
    have hsto (k : RecordKind) : EntryType.ofText k.text ≠ .soa := by
      cases k <;> decide
    exact absurd hsoa (hsto x.recordType)

theorem exists_of_mem_entries {entries : List LocalZoneRecordDto} {e : LocalZoneRecordDto}
    (hent : vec LocalZoneRecordDto.ofJson
      (listJson (getLocalZoneRecords P.toCaseMap serial db tenantId)) = some entries)
    (he : e ∈ entries) :
    ∃ r ∈ getLocalZoneRecords P.toCaseMap serial db tenantId,
      e.zone = r.zone ∧ e.recordType = .ofText r.recordType ∧ e.data = r.data := by
  obtain ⟨j, hj, hdec⟩ := (mem_vec hent).mp he
  obtain ⟨r, hr, rfl⟩ := List.mem_map.mp hj
  exact ⟨r, hr, (ofJson_localZoneRecord_eq_some hdec).2⟩

theorem exists_entry {entries : List LocalZoneRecordDto} {z : DnsZone}
    (hent : vec LocalZoneRecordDto.ofJson
      (listJson (getLocalZoneRecords P.toCaseMap serial db tenantId)) = some entries)
    (hz : z ∈ db.servedZones tenantId) : ∃ e ∈ entries, e.zone = z.name := by
  obtain ⟨r, hr, -⟩ := exists_apexSoa serial db z
  have hj : r.json ∈ (getLocalZoneRecords P.toCaseMap serial db tenantId).map
      LocalZoneRecord.json :=
    List.mem_map_of_mem (mem_flatMap.mpr ⟨z, hz, mem_append_left _ hr⟩)
  have hsome := vec_isSome.mp (isSome_iff_exists.mpr ⟨_, hent⟩) _ hj
  obtain ⟨e, hdec⟩ := isSome_iff_exists.mp hsome
  refine ⟨e, (mem_vec hent).mpr ⟨_, hj, hdec⟩, ?_⟩
  rw [(ofJson_localZoneRecord_eq_some hdec).2.1, (mem_synthesizeApexRecords hr).1]

end Served

theorem WireLimits.fits_of_buildRecord {H : Hickory} {octets : Str → ℕ} (hH : WireLimits H octets)
    {U : CaseMap} {v name : Str} (hname : zoneName U v = some name) {serial minimum : ℤ}
    {e : LocalZoneRecordDto} {r : Record} (hdata : e.data = soaData name serial minimum)
    (hbu : buildRecord H e = some r) (hsoa : r.recordType = .soa) :
    HostmasterFits octets name := by
  obtain ⟨-, mname, rname, rest, hwor, hrest, hrn⟩ := buildRecord_soa hbu hsoa
  rw [hdata] at hwor
  obtain ⟨base, hbase, hcase⟩ := zoneName_space hname
  rcases hcase with rfl | rfl
  · rw [splitWhitespace_soaData hbase, List.cons.injEq, List.cons.injEq] at hwor
    rw [← hwor.2.1] at hrn
    exact (hH.parses_hostmaster hname).mp hrn
  · -- the newline makes two more words than a SOA has
    have hlen := splitWhitespace_soaData_newline hbase serial minimum
    rw [hwor, length_cons, length_cons, hrest] at hlen
    omega

section Completes

variable {P : Python} {tenants : List Str} {db : ZoneDb} {H : Hickory} {octets : Str → ℕ}
  {serial : DnsZone → ℤ} {tenantId : Str} {entries : List LocalZoneRecordDto}

theorem publish_isSome_iff (hwf : db.WellFormed P.toCaseMap) (hU : P.toCaseMap.Lowers)
    (hH : WireLimits H octets)
    (hent : vec LocalZoneRecordDto.ofJson
      (listJson (getLocalZoneRecords P.toCaseMap serial db tenantId)) = some entries) :
    (publish H entries).isSome ↔ ∀ z ∈ db.servedZones tenantId, HostmasterFits octets z.name := by
  have hacc (z : DnsZone) (hz : z ∈ db.servedZones tenantId) :
      ∃ v, zoneName P.toCaseMap v = some z.name :=
    (hwf.zoneOk z (mem_of_mem_filter hz)).name
  have hnorm (z : DnsZone) (hz : z ∈ db.servedZones tenantId) : normalize z.name = z.name := by
    obtain ⟨v, hv⟩ := hacc z hz
    exact zoneName_normalize hU hv
  constructor
  · intro hpub z hz
    obtain ⟨v, hv⟩ := hacc z hz
    obtain ⟨e, he, hzone⟩ := exists_entry hent hz
    rcases publish_isSome.mp hpub e he with ⟨e', he', hzone', -, r, hbu, hsoa⟩ | hsoa
    · -- the zone's own SOA was built
      obtain ⟨x, hx, hxzo, hxty, hxda⟩ := exists_of_mem_entries hent he'
      obtain ⟨z', hz', hxz, hxsoa⟩ := soa_of_mem hx (hxty ▸ (buildRecord_soa hbu hsoa).1)
      rw [hxzo, hxz, hzone, hnorm z' hz', hnorm z hz] at hzone'
      rw [hzone'] at hxsoa
      exact hH.fits_of_buildRecord hv (hxda.trans hxsoa) hbu hsoa
    · rw [hzone, hnorm z hz] at hsoa
      exact (hH.synthesizeSoa_isSome hv).mp hsoa
  · intro hfits
    refine publish_isSome.mpr fun e he => .inr ?_
    obtain ⟨x, hx, hxzo, -⟩ := exists_of_mem_entries hent he
    obtain ⟨z, hz, hxz⟩ := zone_of_mem hx
    obtain ⟨v, hv⟩ := hacc z hz
    rw [hxzo, hxz, hnorm z hz]
    exact (hH.synthesizeSoa_isSome hv).mpr (hfits z hz)

end Completes

/-- **When `publish` completes on what the control plane sends**: every served
zone must leave room for `hostmaster.`; the cuts of long TXT data never fail. -/
theorem publish_completes_iff {P : Python} {tenants : List Str} {db : ZoneDb}
    (hdb : Reachable P tenants db) (hU : P.toCaseMap.Lowers) {H : Hickory} {octets : Str → ℕ}
    (hH : WireLimits H octets) (serial : DnsZone → ℤ) (tenantId : Str)
    {entries : List LocalZoneRecordDto}
    (hentries : vec LocalZoneRecordDto.ofJson
      (listJson (getLocalZoneRecords P.toCaseMap serial db tenantId)) = some entries) :
    ((publish H entries).isSome ∧ ∀ e ∈ entries, ∀ start < strLen e.data,
        isCharBoundary (utf8 e.data) (chunkEnd (utf8 e.data) start) = true) ↔
      ∀ z ∈ db.servedZones tenantId, HostmasterFits octets z.name := by
  rw [← publish_isSome_iff (reachable_wellFormed hdb) hU hH hentries]
  exact and_iff_left fun e _ start hsta => isCharBoundary_chunkEnd hsta

/-- **Which zone tables reach the nodes**: a refresh decodes the list, publishes it
and holds every record that it can build, exactly when no negative TTL is served and
every served zone leaves room for `hostmaster.`. -/
theorem local_zones_load_iff {P : Python} {tenants : List Str} {db : ZoneDb}
    (hdb : Reachable P tenants db) (hU : P.toCaseMap.Lowers) {H : Hickory} {octets : Str → ℕ}
    (hH : WireLimits H octets) (serial : DnsZone → ℤ) (tenantId : Str) :
    (∃ entries data, vec LocalZoneRecordDto.ofJson
        (listJson (getLocalZoneRecords P.toCaseMap serial db tenantId)) = some entries ∧
      publish H entries = some data ∧ ∀ e ∈ entries, ∀ r, buildRecord H e = some r →
        Holds data.records (normalize e.name) r) ↔
      TtlsServed db tenantId ∧ ∀ z ∈ db.servedZones tenantId, HostmasterFits octets z.name := by
  have hwf := reachable_wellFormed hdb
  rw [← list_decodes_iff hwf serial]
  constructor
  · rintro ⟨entries, data, hent, hpub, -⟩
    rw [← publish_isSome_iff hwf hU hH hent, hent, hpub]
    exact ⟨rfl, rfl⟩
  · rintro ⟨hdec, hfits⟩
    obtain ⟨entries, hent⟩ := isSome_iff_exists.mp hdec
    obtain ⟨data, hpub⟩ :=
      isSome_iff_exists.mp ((publish_isSome_iff hwf hU hH hent).mpr hfits)
    exact ⟨entries, data, hent, hpub, fun e he r hr => exists_record_publish hpub he hr⟩

/-! The limits of the wire format, at a parser that reads no escapes. -/

theorem strLen_of_isAscii {s : Str} (h : IsAscii s) : strLen s = s.length := by
  have hone : ∀ c ∈ s, (String.utf8EncodeChar c).length = 1 := by
    intro c hc
    have hsize : c.utf8Size = 1 := Char.utf8Size_eq_one_iff.mpr (by
      have hlt : c.toNat < 128 := h c hc
      rw [UInt32.le_iff_toNat_le]
      exact Nat.le_of_lt_succ hlt)
    rw [String.length_utf8EncodeChar, hsize]
  rw [strLen, utf8, length_flatMap, map_congr_left hone, map_const', sum_replicate,
    smul_eq_mul, mul_one]

theorem wireHickory_limits : WireLimits wireHickory wireOctets where
  ascii hasc hspa := (if_neg (by simp [hspa])).trans (strLen_of_isAscii hasc)
  parses {labels} hne hlab := by
    have hspl : ((join "." labels ++ ".").dropLast).splitOn '.' = labels := by
      rw [show "." = ['.'] from rfl, dropLast_concat]
      exact splitOn_intercalate '.' (fun l hl => (hlab l hl).2.1) hne
    have hlast : (join "." labels ++ ".").getLast? = some '.' := by
      rw [show "." = ['.'] from rfl, getLast?_concat]
    show (wireParse _).isSome ↔ _
    simp only [wireParse, hlast, decide_true, if_true, hspl]
    rw [isSome_ite]
    exact and_congr_left' (forall₂_congr fun l hl => and_iff_right (hlab l hl).1)

theorem publish_completes_www :
    ∃ db entries, Reachable samplePython ["acme"] db ∧
      vec LocalZoneRecordDto.ofJson
        (listJson (getLocalZoneRecords CaseMap.ascii (fun _ => 0) db "acme")) =
          some entries ∧ entries.length = 3 ∧
      (publish wireHickory entries).isSome ∧ ∀ e ∈ entries, ∀ start < strLen e.data,
        isCharBoundary (utf8 e.data) (chunkEnd (utf8 e.data) start) = true := by
  obtain ⟨db, hdb, ⟨entries, hent, hlen⟩, hzs⟩ : ∃ db,
      sampleTables "corp.lab" (some 60) = some db ∧
      (∃ entries, vec LocalZoneRecordDto.ofJson (listJson (getLocalZoneRecords CaseMap.ascii
        (fun _ => 0) db "acme")) = some entries ∧ entries.length = 3) ∧
      ∀ z ∈ db.zones, z.name = "corp.lab" := by
    decide +kernel
  refine ⟨db, entries, reachable_requests hdb, hent, hlen, ?_⟩
  refine (publish_completes_iff (reachable_requests hdb) CaseMap.ascii_lowers wireHickory_limits _ _
    hent).mpr fun z hz => ?_
  rw [hzs z (mem_of_mem_filter hz)]
  exact ⟨by decide, by decide⟩

theorem local_zones_load_www :
    ∃ db entries data, Reachable samplePython ["acme"] db ∧
      vec LocalZoneRecordDto.ofJson
        (listJson (getLocalZoneRecords CaseMap.ascii (fun _ => 0) db "acme")) =
          some entries ∧ entries.length = 3 ∧ publish wireHickory entries = some data ∧
      ∀ e ∈ entries, ∀ r, buildRecord wireHickory e = some r →
        Holds data.records (normalize e.name) r := by
  obtain ⟨db, hdb, ⟨entries, hent, hlen⟩, hzs, hrec⟩ : ∃ db,
      sampleTables "corp.lab" (some 60) = some db ∧
      (∃ entries, vec LocalZoneRecordDto.ofJson (listJson (getLocalZoneRecords CaseMap.ascii
        (fun _ => 0) db "acme")) = some entries ∧ entries.length = 3) ∧
      (∀ z ∈ db.zones, z.name = "corp.lab" ∧ 0 ≤ z.ttlDefault) ∧
      ∀ r ∈ db.records, r.ttl = some 60 := by
    decide +kernel
  have hload := (local_zones_load_iff (reachable_requests hdb) CaseMap.ascii_lowers
    wireHickory_limits (fun _ => 0) "acme").mpr ⟨fun z hz => ?_, fun z hz => ?_⟩
  · obtain ⟨_, data, hdec, hpub, hholds⟩ := hload
    obtain rfl := some_inj.mp (hent.symm.trans hdec)
    exact ⟨db, entries, data, reachable_requests hdb, hent, hlen, hpub, hholds⟩
  · refine ⟨(hzs z (mem_of_mem_filter hz)).2, fun r hr _ t ht => ?_⟩
    rw [hrec r (mem_of_mem_filter hr), mem_some] at ht
    omega
  · rw [(hzs z (mem_of_mem_filter hz)).1]
    exact ⟨by decide, by decide⟩

/-- A zone name of 243 characters: each label is within its limit, and the name
itself within that of names. -/
def longZone : Str :=
  join "." [List.replicate 63 'a', List.replicate 63 'a', List.replicate 63 'a',
    List.replicate 51 'a']

/-- The API accepts the long name, the node can decode the list, and `publish`
panics. -/
theorem long_zone_panics :
    ∃ db entries, Reachable samplePython ["acme"] db ∧
      vec LocalZoneRecordDto.ofJson
        (listJson (getLocalZoneRecords CaseMap.ascii (fun _ => 0) db "acme")) =
          some entries ∧ (wireParse longZone).isSome ∧ publish wireHickory entries = none := by
  obtain ⟨db, hdb, entries, hent, hnone⟩ : ∃ db, sampleTables longZone (some 60) = some db ∧
      ∃ entries, vec LocalZoneRecordDto.ofJson (listJson (getLocalZoneRecords CaseMap.ascii
        (fun _ => 0) db "acme")) = some entries ∧ (publish wireHickory entries).isNone := by
    decide +kernel
  exact ⟨db, entries, reachable_requests hdb, hent, by decide +kernel,
    isNone_iff_eq_none.mp hnone⟩

end Node.Zone
