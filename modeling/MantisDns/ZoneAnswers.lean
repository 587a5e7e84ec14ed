/-
What `ZoneStore::lookup` answers, in terms of the entries that were published.

First the lookup with the slices it takes of the query name, where a slice that
does not start at a character stops it (`Sliced`); then the maps of the
published data as lists of records, and the answer as a choice between the
records of the name and those of the wildcard next to it.

* `Sliced.lookup_eq` — no slice of the lookup panics;
* `records_publish`, `wildcards_publish` — the records under a name;
* `records_lookup` — the records a lookup in a tenant zone returns;
* `lookupSpec_iff` — when these are the ones that the names call for.
-/
import MantisDns.ZonePublish

open Text Dns List Option

namespace Node.Zone

/-! ### Slices of a string -/

/-- `&s[i..]`: there is such a slice only from a character boundary on. -/
def sliceFrom : Str → ℕ → Option Str
  | s, 0 => some s
  | [], _ + 1 => none
  | c :: s, i + 1 => if c.utf8Size ≤ i + 1 then sliceFrom s (i + 1 - c.utf8Size) else none

/-- `s.find('.')`, an index of a byte. -/
def findDot : Str → Option ℕ
  | [] => none
  | c :: s => if c = '.' then some 0 else (findDot s).map (· + c.utf8Size)

theorem sliceFrom_append (s t : Str) : sliceFrom (s ++ t) (strLen s) = some t := by
  induction s with
  | nil => simp [strLen, utf8, sliceFrom]
  | cons c s ih =>
    have hpos := c.utf8Size_pos
    obtain ⟨i, hi⟩ : ∃ i, c.utf8Size + strLen s = i + 1 := ⟨c.utf8Size + strLen s - 1, by omega⟩
    rw [cons_append, strLen_cons, hi, sliceFrom, if_pos (by omega), ← hi,
      Nat.add_sub_cancel_left, ih]

theorem findDot_eq {s : Str} :
    findDot s = none ∧ afterDot s = none ∨
      ∃ label parent, s = label ++ '.' :: parent ∧ findDot s = some (strLen label) ∧
        afterDot s = some parent := by
  induction s with
  | nil => exact .inl ⟨rfl, rfl⟩
  | cons c s ih =>
    rw [findDot, afterDot]
    by_cases hc : c = '.'
    · subst hc
      exact .inr ⟨[], s, rfl, by simp [strLen, utf8], by simp⟩
    · rw [if_neg hc, if_neg hc]
      rcases ih with ⟨hfind, haft⟩ | ⟨label, parent, hs, hfind, haft⟩
      · exact .inl ⟨by rw [hfind, map_none], haft⟩
      · refine .inr ⟨c :: label, parent, by rw [hs, cons_append], ?_, haft⟩
        rw [hfind, map_some, strLen_cons, Nat.add_comm]

/-- The byte of a dot occurs in the encoding of no other character. -/
theorem eq_dot_of_mem_utf8EncodeChar {c : Char} (h : (0x2E : UInt8) ∈ String.utf8EncodeChar c) :
    c = '.' := by
  -- the bytes of a longer encoding are all above 127
  have hhigh {n : ℕ} (hlow : 128 ≤ n) (hlt : n < 256) : (0x2E : UInt8) ≠ UInt8.ofNat n := by
    intro heq
    have hval := congrArg UInt8.toNat heq
    rw [UInt8.toNat_ofNat', Nat.mod_eq_of_lt hlt, show (0x2E : UInt8).toNat = 46 from rfl] at hval
    omega
  simp only [String.utf8EncodeChar] at h
  split_ifs at h with hone
  · rw [mem_singleton] at h
    have hval := congrArg UInt8.toNat h
    rw [UInt8.toNat_ofNat', Nat.mod_eq_of_lt (Nat.lt_of_le_of_lt hone (by decide))] at hval
    exact Char.ext (UInt32.toNat_inj.mp hval.symm)
  all_goals
    simp only [mem_cons, not_mem_nil, or_false] at h
  · exact absurd h (not_or.mpr ⟨hhigh (by omega) (by omega), hhigh (by omega) (by omega)⟩)
  · exact absurd h
      (by simp only [not_or]; refine ⟨?_, ?_, ?_⟩ <;> exact hhigh (by omega) (by omega))
  · exact absurd h
      (by simp only [not_or]; refine ⟨?_, ?_, ?_, ?_⟩ <;> exact hhigh (by omega) (by omega))

theorem exists_of_utf8_dot {s : Str} {i : ℕ} (h : (utf8 s)[i]? = some 0x2E) :
    ∃ before after, s = before ++ '.' :: after ∧ strLen before = i := by
  induction s generalizing i with
  | nil => simp [utf8] at h
  | cons c s ih =>
    rw [utf8_cons] at h
    by_cases hi : i < (String.utf8EncodeChar c).length
    · rw [getElem?_append_left hi] at h
      obtain rfl := eq_dot_of_mem_utf8EncodeChar (mem_of_getElem? h)
      have hzero : i = 0 := by
        have : (String.utf8EncodeChar '.').length = 1 := by decide
        omega
      exact ⟨[], s, rfl, by simp [strLen, utf8, hzero]⟩
    · rw [getElem?_append_right (by omega), String.length_utf8EncodeChar] at h
      rw [String.length_utf8EncodeChar] at hi
      obtain ⟨before, after, hs, hlen⟩ := ih h
      exact ⟨c :: before, after, by rw [hs, cons_append], by rw [strLen_cons, hlen]; omega⟩

theorem utf8_dot (before after : Str) :
    (utf8 (before ++ '.' :: after))[strLen before]? = some 0x2E := by
  have hspl : utf8 (before ++ '.' :: after) = utf8 before ++ 0x2E :: utf8 after := by
    rw [utf8, flatMap_append]
    rfl
  rw [hspl, strLen, getElem?_append_right le_rfl, Nat.sub_self, getElem?_cons_zero]

theorem suffix_unique {s t q : Str} (hs : s <:+ q) (ht : t <:+ q) (hlen : strLen s = strLen t) :
    s = t := by
  -- a proper suffix is shorter by the bytes of a character
  have haux : ∀ {s t : Str}, s <:+ t → strLen s = strLen t → s = t := by
    rintro s t ⟨u, rfl⟩ heq
    rw [strLen_append] at heq
    cases u with
    | nil => rfl
    | cons c =>
      have := c.utf8Size_pos
      rw [strLen_cons] at heq
      omega
  rcases suffix_or_suffix_of_suffix hs ht with h | h
  · exact haux h hlen
  · exact (haux h hlen.symm).symm

/-! ### The lookup with its slices -/

namespace Sliced

/-- `is_subdomain_of`, on bytes. -/
def isSubdomainOf (qname zone : Str) : Option Bool :=
  if strLen qname > strLen zone then do
    let byte ← (utf8 qname)[strLen qname - strLen zone - 1]?
    if byte = 0x2E then
      let rest ← sliceFrom qname (strLen qname - strLen zone)
      return rest == zone
    else return false
  else return false

/-- The condition in `longest_match`. -/
def inZone (qname zone : Str) : Option Bool :=
  if qname == zone then some true else isSubdomainOf qname zone

/-- The filter of `longest_match`. -/
def matching (qname : Str) : List Str → Option (List Str)
  | [] => some []
  | zone :: zones => do
    let hit ← inZone qname zone
    let rest ← matching qname zones
    return if hit then zone :: rest else rest

/-- `longest_match`. -/
def longestMatch (zones : List Str) (qname : Str) : Option (Option Str) :=
  (matching qname zones).map (LongestMatch.maxByKey strLen)

/-- `qname.find('.')`, then `&qname[dot + 1..]`. -/
def parent (qname : Str) : Option (Option Str) :=
  match findDot qname with
  | none => some none
  | some dot => (sliceFrom qname (dot + 1)).map some

variable (H : Hickory)

/-- The loop of `chase_in_zone_cname`. -/
def chaseLoop (data : ZoneData) (qtype : RecordType) :
    ℕ → List Str → List Record → Option (List Record × Option Str)
  | 0, _, answer => some (answer, none)
  | turns + 1, seen, answer =>
    match answer.getLast?.map Record.data with
    | some (.cname target) => do
      let target := normalize (H.toUtf8 target)
      if target ∈ seen then return (answer, none)
      else
        let builtin ← longestMatch builtinEmptyZones target
        if builtin.isSome then return (answer, none)
        else
          let zone ← longestMatch data.zones target
          if zone.isNone then return (answer, some target)
          else
            match data.records target with
            | none => return (answer, none)
            | some targetRecords =>
              let terminal := targetRecords.filter (·.recordType = qtype)
              if terminal ≠ [] then return (answer ++ terminal, none)
              else
                match targetRecords.find? (·.recordType = .cname) with
                | none => return (answer, none)
                | some next => chaseLoop data qtype turns (target :: seen) (answer ++ [next])
    | _ => some (answer, none)

/-- `chase_in_zone_cname`. -/
def chaseInZoneCname (data : ZoneData) (answer : List Record) (qtype : RecordType) :
    Option (List Record × Option Str) :=
  let seen := (answer.head?.map fun record => normalize (H.toUtf8 record.name)).toList
  chaseLoop H data qtype 16 seen answer

/-- The wildcard part of `lookup_in_zone`. -/
def lookupWildcard (data : ZoneData) (recs : List Record) (qname : Str) (qtype : RecordType)
    (soa : Option Record) : Option ZoneLookup :=
  let rewritten (type : RecordType) :=
    (recs.filter (·.recordType = type)).map (rewriteOwner H · qname)
  if rewritten qtype = [] ∧ qtype ≠ .cname then
    if rewritten .cname ≠ [] then do
      let chased ← chaseInZoneCname H data (rewritten .cname) qtype
      return .answer chased.1 soa chased.2
    else some (.answer [] soa none)
  else some (.answer (rewritten qtype) soa none)

/-- `lookup_in_zone` for a name with its own entry. -/
def lookupRecords (data : ZoneData) (recs : List Record) (qtype : RecordType)
    (soa : Option Record) : Option ZoneLookup :=
  let matched := recs.filter (·.recordType = qtype)
  if matched ≠ [] ∨ qtype = .cname then some (.answer matched soa none)
  else
    let cname := recs.filter (·.recordType = .cname)
    if cname ≠ [] then do
      let chased ← chaseInZoneCname H data cname qtype
      return .answer chased.1 soa chased.2
    else some (.answer [] soa none)

/-- `lookup_in_zone`. -/
def lookupInZone (data : ZoneData) (qname zone : Str) (qtype : RecordType) : Option ZoneLookup :=
  let soa := data.apexSoa zone
  match data.records qname with
  | some recs => lookupRecords H data recs qtype soa
  | none =>
    if qname ∈ data.ancestors then some (.answer [] soa none)
    else do
      let parent ← parent qname
      match parent.filter fun parent => strLen zone ≤ strLen parent with
      | none => return .nxDomain soa
      | some parent =>
        match data.wildcards parent with
        | none => return .nxDomain soa
        | some recs => lookupWildcard H data recs qname qtype soa

/-- `ZoneStore::lookup`. -/
def lookup (data : ZoneData) (qname : Str) (qtype : RecordType) : Option ZoneLookup := do
  let qname := normalize qname
  let zone ← longestMatch data.zones qname
  match zone with
  | some zone => lookupInZone H data qname zone qtype
  | none =>
    let builtin ← longestMatch builtinEmptyZones qname
    match builtin with
    | some zone => return .nxDomain (some (builtinSoa H zone))
    | none => return .notLocal

/-! Each of these is the function it models, without a panic. -/

theorem isSubdomainOf_eq (qname zone : Str) :
    isSubdomainOf qname zone = some (Zone.isSubdomainOf qname zone) := by
  rw [isSubdomainOf]
  -- the index is in range if the name is longer than the zone
  by_cases hlen : strLen qname > strLen zone
  · rw [if_pos hlen]
    obtain ⟨byte, hbyte⟩ : ∃ byte, (utf8 qname)[strLen qname - strLen zone - 1]? = some byte :=
      ⟨_, getElem?_eq_getElem (show _ < strLen qname by omega)⟩
    simp only [hbyte, bind_eq_bind, bind_some, Option.pure_def]
    by_cases hdot : byte = 0x2E
    · -- the byte before the slice is a dot, so the slice starts at a character
      subst hdot
      obtain ⟨before, after, rfl, hbef⟩ := exists_of_utf8_dot hbyte
      rw [strLen_append, strLen_cons_dot] at hlen hbef
      have hsli : sliceFrom (before ++ '.' :: after)
          (strLen (before ++ '.' :: after) - strLen zone) = some after := by
        have hind : strLen (before ++ '.' :: after) - strLen zone =
            strLen (before ++ ['.']) := by
          rw [strLen_append, strLen_append, strLen_cons_dot, strLen_cons_dot]
          simp only [strLen, utf8, flatMap_nil, length_nil] at hbef hlen ⊢
          omega
        rw [hind, append_cons before '.' after, sliceFrom_append]
      rw [if_pos rfl, hsli, bind_some, some_inj, Bool.eq_iff_iff, beq_iff_eq, isSubdomainOf_iff]
      constructor
      · rintro rfl
        exact suffix_append _ _
      · intro hsuf
        refine (List.cons.inj (suffix_unique (suffix_append before _) hsuf ?_)).2
        rw [strLen_cons_dot, strLen_cons_dot]
        omega
    · rw [if_neg hdot, some_inj, eq_comm, ← Bool.not_eq_true, isSubdomainOf_iff]
      rintro ⟨before, rfl⟩
      rw [strLen_append, strLen_cons_dot,
        show strLen before + (strLen zone + 1) - strLen zone - 1 = strLen before by omega,
        utf8_dot, some_inj] at hbyte
      exact hdot hbyte.symm
  · rw [if_neg hlen, Option.pure_def, some_inj, eq_comm, ← Bool.not_eq_true, isSubdomainOf_iff]
    exact fun hsuf => hlen (strLen_lt_of_below hsuf)

theorem inZone_eq (qname zone : Str) : inZone qname zone = some (Zone.inZone qname zone) := by
  rw [inZone, isSubdomainOf_eq, Zone.inZone]
  cases qname == zone <;> rfl

theorem matching_eq (qname : Str) (zones : List Str) :
    matching qname zones = some (zones.filter (Zone.inZone qname)) := by
  induction zones with
  | nil => rfl
  | cons zone zones ih =>
    rw [matching, inZone_eq, ih, filter_cons]
    rfl

theorem longestMatch_eq (zones : List Str) (qname : Str) :
    longestMatch zones qname = some (Zone.longestMatch zones qname) := by
  rw [longestMatch, matching_eq, map_some, Zone.longestMatch]

theorem parent_eq (qname : Str) : parent qname = some (afterDot qname) := by
  rw [parent]
  rcases @findDot_eq qname with ⟨hfind, haft⟩ | ⟨label, rest, hq, hfind, haft⟩
  · rw [hfind, haft]
  · have hsli : sliceFrom qname (strLen label + 1) = some rest := by
      rw [hq, append_cons label '.' rest,
        show strLen label + 1 = strLen (label ++ ['.']) by rw [strLen_append]; rfl,
        sliceFrom_append]
    rw [hfind, haft]
    simp only [hsli, map_some]

variable {H} {data : ZoneData} {qtype : RecordType}

theorem chaseLoop_eq (turns : ℕ) (seen : List Str) (answer : List Record) :
    chaseLoop H data qtype turns seen answer =
      some (Zone.chaseLoop H data qtype turns seen answer) := by
  induction turns generalizing seen answer with
  | zero => rfl
  | succ turns ih =>
    rw [chaseLoop.eq_def, Zone.chaseLoop.eq_def]
    dsimp only
    cases answer.getLast?.map Record.data with
    | none => rfl
    | some rdata =>
      cases rdata with
      | cname target =>
        simp only [longestMatch_eq, bind_eq_bind, bind_some, Option.pure_def, ih]
        split_ifs
        · rfl
        · rfl
        · rfl
        · cases data.records (normalize (H.toUtf8 target)) with
          | none => rfl
          | some recs =>
            dsimp only
            split_ifs
            · rfl
            · cases recs.find? (·.recordType = .cname) <;> rfl
      | _ => rfl

theorem chaseInZoneCname_eq (answer : List Record) :
    chaseInZoneCname H data answer qtype = some (Zone.chaseInZoneCname H data answer qtype) :=
  chaseLoop_eq _ _ _

theorem lookupRecords_eq (recs : List Record) (soa : Option Record) :
    lookupRecords H data recs qtype soa = some (Zone.lookupRecords H data recs qtype soa) := by
  simp only [lookupRecords, Zone.lookupRecords, chaseInZoneCname_eq, bind_eq_bind,
    bind_some, Option.pure_def]
  split_ifs <;> rfl

theorem lookupWildcard_eq (recs : List Record) (qname : Str) (soa : Option Record) :
    lookupWildcard H data recs qname qtype soa =
      some (Zone.lookupWildcard H data recs qname qtype soa) := by
  simp only [lookupWildcard, Zone.lookupWildcard, chaseInZoneCname_eq, bind_eq_bind,
    bind_some, Option.pure_def]
  split_ifs <;> rfl

theorem lookupInZone_eq (qname zone : Str) :
    lookupInZone H data qname zone qtype = some (Zone.lookupInZone H data qname zone qtype) := by
  simp only [lookupInZone, Zone.lookupInZone, parent_eq, lookupRecords_eq, lookupWildcard_eq,
    bind_eq_bind, bind_some, Option.pure_def]
  cases data.records qname with
  | some => rfl
  | none =>
    dsimp only
    split_ifs
    · rfl
    · cases (afterDot qname).filter fun parent => strLen zone ≤ strLen parent with
      | none => rfl
      | some parent => cases hwild : data.wildcards parent <;> simp only [hwild]

/-- **No panic**: every slice that a lookup takes starts at a character. -/
theorem lookup_eq (qname : Str) :
    lookup H data qname qtype = some (Zone.lookup H data qname qtype) := by
  simp only [lookup, Zone.lookup, longestMatch_eq, lookupInZone_eq, bind_eq_bind,
    bind_some, Option.pure_def]
  cases Zone.longestMatch data.zones (normalize qname) with
  | some => rfl
  | none => cases Zone.longestMatch builtinEmptyZones (normalize qname) <;> rfl

end Sliced

/-! ### The records under a name -/

section Buckets

variable {H : Hickory} {entries : List LocalZoneRecordDto} {data : ZoneData}
variable {qtype : RecordType}

/-- Those of one type. -/
def recordsAt (H : Hickory) (entries : List LocalZoneRecordDto) (owner : Str)
    (qtype : RecordType) : List Record :=
  (bucket H entries owner).filter (·.recordType = qtype)

theorem recordsAt_of_not_hasEntry (h : ¬HasEntry entries owner) :
    recordsAt H entries owner qtype = [] := by
  rw [recordsAt, bucket_of_not_hasEntry h, filter_nil]

theorem exists_of_mem_recordsAt {r : Record} (h : r ∈ recordsAt H entries owner qtype) :
    ∃ e ∈ entries, normalize e.name = owner ∧ buildRecord H e = some r ∧ r.recordType = qtype := by
  obtain ⟨hr, htype⟩ := mem_filter.mp h
  obtain ⟨e, he, hown, hbu⟩ := mem_bucket.mp hr
  exact ⟨e, he, hown, hbu, of_decide_eq_true htype⟩

end Buckets

/-! ### The zone of a name -/

section Longest

variable {zones : List Str} {name zone : Str}

/-- The longest of the zones that the name lies in. -/
def IsLongest (zones : List Str) (name zone : Str) : Prop :=
  zone ∈ zones ∧ inZone name zone = true ∧
    ∀ z ∈ zones, inZone name z = true → strLen z ≤ strLen zone

theorem suffix_of_inZone (h : inZone name zone = true) : zone <:+ name := by
  rcases inZone_iff.mp h with rfl | hsuf
  · exact suffix_rfl
  · exact (suffix_cons _ _).trans hsuf

theorem longestMatch_eq_some : longestMatch zones name = some zone ↔ IsLongest zones name zone := by
  refine ⟨longestMatch_spec, fun ⟨hzone, hin, hmax⟩ => ?_⟩
  cases hmch : longestMatch zones name with
  | none => exact absurd hin (by rw [longestMatch_eq_none.mp hmch zone hzone]; simp)
  | some z =>
    obtain ⟨hz, hinz, hmaxz⟩ := longestMatch_spec hmch
    rw [suffix_unique (suffix_of_inZone hinz) (suffix_of_inZone hin)
      (le_antisymm (hmax z hz hinz) (hmaxz zone hzone hin))]

theorem IsLongest.eq_of_mem (h : IsLongest zones name zone) (hmem : name ∈ zones) :
    zone = name := by
  have hself : inZone name name = true := inZone_iff.mpr (.inl rfl)
  have hle := strLen_le_of_suffix (suffix_of_inZone h.2.1)
  exact suffix_unique (suffix_of_inZone h.2.1) suffix_rfl
    (le_antisymm hle (h.2.2 name hmem hself))

theorem IsLongest.exists_parent (h : IsLongest zones name zone) (hmem : name ∉ zones) :
    ∃ parent, afterDot name = some parent ∧ strLen zone ≤ strLen parent := by
  have hsuf : ('.' :: zone) <:+ name := by
    rcases inZone_iff.mp h.2.1 with rfl | hsuf
    · exact absurd h.1 hmem
    · exact hsuf
  cases haft : afterDot name with
  | none => exact absurd hsuf (afterDot_eq_none haft)
  | some parent =>
    refine ⟨parent, rfl, ?_⟩
    rcases (afterDot_eq_some haft).mp hsuf with rfl | hbel
    · exact le_rfl
    · exact (strLen_lt_of_below hbel).le

theorem strLen_parent_lt {parent : Str} (h : afterDot name = some parent) :
    strLen parent < strLen name :=
  strLen_lt_of_below ((afterDot_eq_some h).mpr (.inl rfl))

end Longest

/-! ### The answer for a name -/

/-- The records of a result. -/
def ZoneLookup.records : ZoneLookup → List Record
  | .answer rs _ _ => rs
  | _ => []

/-- Some owner lies below the name. -/
def OwnerBelow (entries : List LocalZoneRecordDto) (name : Str) : Prop :=
  ∃ e ∈ entries, ('.' :: name) <:+ normalize e.name

/-- Some entry is published in the zone of this name. -/
def ZoneNamed (entries : List LocalZoneRecordDto) (name : Str) : Prop :=
  ∃ e ∈ entries, normalize e.zone = name

/-- The records of the single-label wildcard at the parent of the name. -/
def wildcardRecords (H : Hickory) (entries : List LocalZoneRecordDto) (name : Str)
    (qtype : RecordType) : List Record :=
  match afterDot name with
  | none => []
  | some parent => recordsAt H entries ("*." ++ parent) qtype

/-- The second record is the first under the query name. -/
def Renamed (H : Hickory) (name : Str) (r r' : Record) : Prop :=
  ∃ owner, H.parseName (name ++ ".") = some owner ∧ r' = { r with name := owner }

section Answer

variable {H : Hickory} {entries : List LocalZoneRecordDto} {data : ZoneData} {qname : Str}
  {qtype : RecordType}
variable {recs : List Record} {soa : Option Record}

theorem records_lookupRecords (hcn : recs.filter (·.recordType = .cname) = []) :
    (lookupRecords H data recs qtype soa).records = recs.filter (·.recordType = qtype) := by
  simp only [lookupRecords, hcn]
  split_ifs with hmat
  · rfl
  · exact (not_not.mp (not_or.mp hmat).1).symm
  · exact (not_not.mp (not_or.mp hmat).1).symm

theorem records_lookupWildcard (hcn : recs.filter (·.recordType = .cname) = []) :
    (lookupWildcard H data recs qname qtype soa).records =
      (recs.filter (·.recordType = qtype)).map (rewriteOwner H · qname) := by
  simp only [lookupWildcard, hcn, map_nil]
  split_ifs with hnone
  · exact absurd rfl ‹[] ≠ []›
  · exact hnone.1.symm
  · rfl

variable (hpub : publish H entries = some data)

include hpub

/-- The records under a name in its zone: its own, none at an empty
non-terminal or an apex, else those of the wildcard. -/
theorem records_lookupInZone {name zone : Str} (hzone : IsLongest data.zones name zone)
    (hcn : recordsAt H entries name .cname = [])
    (hwild : wildcardRecords H entries name .cname = []) :
    (HasEntry entries name →
      (lookupInZone H data name zone qtype).records = recordsAt H entries name qtype) ∧
    (¬HasEntry entries name → name ∈ data.ancestors ∨ name ∈ data.zones →
      (lookupInZone H data name zone qtype).records = []) ∧
    (¬HasEntry entries name → name ∉ data.ancestors → name ∉ data.zones →
      (lookupInZone H data name zone qtype).records =
        (wildcardRecords H entries name qtype).map (rewriteOwner H · name)) := by
  rw [lookupInZone, records_publish hpub]
  -- the entry hides everything, an empty non-terminal and an apex hide the wildcard
  refine ⟨fun hent => ?_, fun hent hemp => ?_, fun hent hanc hapex => ?_⟩
  · rw [if_pos hent]
    exact records_lookupRecords hcn
  · rw [if_neg hent]
    dsimp only
    split_ifs with hanc
    · rfl
    · -- the apex has no parent in its zone
      have hname := hzone.eq_of_mem (hemp.resolve_left hanc)
      have hnone : ((afterDot name).filter fun parent => strLen zone ≤ strLen parent) = none := by
        rw [filter_eq_none_iff, hname]
        intro parent hpar
        have := strLen_parent_lt hpar
        simpa using this
      rw [hnone]
      rfl
  · obtain ⟨parent, hpar, hle⟩ := hzone.exists_parent hapex
    rw [wildcardRecords, hpar] at hwild
    rw [if_neg hent, wildcardRecords, hpar, filter_some, decide_eq_true hle]
    dsimp only
    rw [if_neg hanc, if_pos rfl]
    dsimp only
    rw [wildcards_publish hpub]
    by_cases hbuc : bucket H entries ("*." ++ parent) = []
    · rw [if_pos hbuc, recordsAt, hbuc]
      rfl
    · rw [if_neg hbuc]
      exact records_lookupWildcard hwild

omit hpub in
theorem lookup_of_isLongest {zone : Str} (h : IsLongest data.zones (normalize qname) zone) :
    lookup H data qname qtype = lookupInZone H data (normalize qname) zone qtype := by
  rw [lookup, longestMatch_eq_some.mpr h]

omit hpub in
theorem lookup_of_builtin {zone : Str}
    (hten : ∀ z ∈ data.zones, inZone (normalize qname) z = false)
    (h : IsLongest builtinEmptyZones (normalize qname) zone) :
    lookup H data qname qtype = .nxDomain (some (builtinSoa H zone)) := by
  rw [lookup, longestMatch_eq_none.mpr hten, longestMatch_eq_some.mpr h]

theorem records_lookup (hloc : ∃ z ∈ data.zones, inZone (normalize qname) z = true)
    (hcn : recordsAt H entries (normalize qname) .cname = [])
    (hwild : wildcardRecords H entries (normalize qname) .cname = []) :
    (HasEntry entries (normalize qname) →
      (lookup H data qname qtype).records = recordsAt H entries (normalize qname) qtype) ∧
    (¬HasEntry entries (normalize qname) →
      normalize qname ∈ data.ancestors ∨ normalize qname ∈ data.zones →
      (lookup H data qname qtype).records = []) ∧
    (¬HasEntry entries (normalize qname) →
      normalize qname ∉ data.ancestors → normalize qname ∉ data.zones →
      (lookup H data qname qtype).records =
        (wildcardRecords H entries (normalize qname) qtype).map
          (rewriteOwner H · (normalize qname))) := by
  cases hmch : longestMatch data.zones (normalize qname) with
  | none =>
    obtain ⟨z, hz, hin⟩ := hloc
    rw [longestMatch_eq_none.mp hmch z hz] at hin
    simp at hin
  | some =>
    have hzone := longestMatch_eq_some.mp hmch
    rw [lookup_of_isLongest hzone]
    exact records_lookupInZone hpub hzone hcn hwild

/-! ### The specification -/

omit hpub in
theorem forall₂_renamed {name : Str} {owner : Name} {l : List Record}
    (h : H.parseName (name ++ ".") = some owner) :
    List.Forall₂ (Renamed H name) l (l.map (rewriteOwner H · name)) := by
  rw [forall₂_map_right_iff, forall₂_same]
  intro r _
  refine ⟨owner, h, ?_⟩
  rw [rewriteOwner, h]

end Answer

/-- What a lookup is for: it takes the longest tenant zone, then the longest
builtin one, and, CNAMEs apart, returns the records of the name, or of the
wildcard next to it if the name does not exist. -/
structure LookupSpec (H : Hickory) (entries : List LocalZoneRecordDto) (data : ZoneData)
    (qname : Str) (qtype : RecordType) : Prop where
  noPanic : Sliced.lookup H data qname qtype = some (lookup H data qname qtype)
  notLocal : lookup H data qname qtype = .notLocal ↔
    ∀ zone, ZoneNamed entries zone ∨ zone ∈ builtinEmptyZones →
      normalize qname ≠ zone ∧ ¬('.' :: zone) <:+ normalize qname
  tenant : ∀ zone, IsLongest data.zones (normalize qname) zone →
    lookup H data qname qtype = lookupInZone H data (normalize qname) zone qtype
  builtin : (∀ z ∈ data.zones, inZone (normalize qname) z = false) →
    ∀ zone, IsLongest builtinEmptyZones (normalize qname) zone →
      lookup H data qname qtype = .nxDomain (some (builtinSoa H zone))
  records : (∃ zone, ZoneNamed entries zone ∧ inZone (normalize qname) zone = true) →
    recordsAt H entries (normalize qname) .cname = [] →
    wildcardRecords H entries (normalize qname) .cname = [] →
    (HasEntry entries (normalize qname) ∨ OwnerBelow entries (normalize qname) →
      (lookup H data qname qtype).records = recordsAt H entries (normalize qname) qtype) ∧
    (¬HasEntry entries (normalize qname) → ¬OwnerBelow entries (normalize qname) →
      List.Forall₂ (Renamed H (normalize qname))
        (wildcardRecords H entries (normalize qname) qtype) (lookup H data qname qtype).records)

/-- A wildcard next to the name has records of the type, and the name has no
entry: a zone of this name has owners below it, a name with owners below it
has one whose own zone has a shorter name, and any other name can be written
into the records. -/
def WildcardFits (H : Hickory) (entries : List LocalZoneRecordDto) (name : Str)
    (qtype : RecordType) : Prop :=
  (∃ zone, ZoneNamed entries zone ∧ inZone name zone = true) →
    recordsAt H entries name .cname = [] → wildcardRecords H entries name .cname = [] →
    ¬HasEntry entries name → wildcardRecords H entries name qtype ≠ [] →
    (ZoneNamed entries name → OwnerBelow entries name) ∧
    (¬ZoneNamed entries name → OwnerBelow entries name →
      ∃ e ∈ entries, ('.' :: name) <:+ normalize e.name ∧
        strLen (normalize e.zone) < strLen name) ∧
    (¬ZoneNamed entries name → ¬OwnerBelow entries name →
      (H.parseName (name ++ ".")).isSome)

section Spec

variable {H : Hickory} {entries : List LocalZoneRecordDto} {data : ZoneData}

theorem notLocal_iff (hpub : publish H entries = some data) {qname : Str} {qtype : RecordType} :
    lookup H data qname qtype = .notLocal ↔
      ∀ zone, ZoneNamed entries zone ∨ zone ∈ builtinEmptyZones →
        normalize qname ≠ zone ∧ ¬('.' :: zone) <:+ normalize qname := by
  rw [lookup_eq_notLocal, IsLocal, not_or]
  simp only [not_exists, not_and, inZone_iff, mem_zones_publish hpub, not_or]
  exact ⟨fun h zone hzone => hzone.elim (h.1 zone) (h.2 zone),
    fun h => ⟨fun zone hzone => h zone (.inl hzone), fun zone hzone => h zone (.inr hzone)⟩⟩

theorem ownerBelow_of_mem_ancestors (hpub : publish H entries = some data) {name : Str}
    (h : name ∈ data.ancestors) : OwnerBelow entries name := by
  obtain ⟨e, he, hown, -⟩ := (mem_ancestors_publish hpub).mp h
  exact ⟨e, he, hown⟩

/-- **Lookup specification**: a lookup of the store does what it is for,
exactly when a wildcard is not in the way of a name between two zones, fits
into the zone, and its records can be given the name. -/
theorem lookupSpec_iff (hpub : publish H entries = some data) (qname : Str) (qtype : RecordType) :
    LookupSpec H entries data qname qtype ↔ WildcardFits H entries (normalize qname) qtype := by
  have hzs : ∀ z, z ∈ data.zones ↔ ZoneNamed entries z := fun z => mem_zones_publish hpub
  have hloc (h : ∃ zone, ZoneNamed entries zone ∧ inZone (normalize qname) zone = true) :
      ∃ z ∈ data.zones, inZone (normalize qname) z = true := by
    obtain ⟨zone, hzone, hin⟩ := h
    exact ⟨zone, (hzs zone).mpr hzone, hin⟩
  constructor
  · intro hspec hin hcn hwild hent hne
    obtain ⟨-, hemp, hrew⟩ :=
      @records_lookup H entries data qname qtype hpub (hloc hin) hcn hwild
    -- a wildcard with records shows what the code does with each kind of name
    obtain ⟨hown, hren⟩ := hspec.records hin hcn hwild
    refine ⟨fun hzone => ?_, fun hzone hbel => ?_, fun hzone hbel => ?_⟩
    · -- at an apex the wildcard is not used
      by_contra hbel
      have hall := hren hent hbel
      rw [hemp hent (.inr ((hzs _).mpr hzone)), forall₂_nil_right_iff] at hall
      exact hne hall
    · rw [← mem_ancestors_publish hpub]
      by_contra hanc
      have hall := hown (.inr hbel)
      rw [hrew hent hanc (fun hz => hzone ((hzs _).mp hz)),
        recordsAt_of_not_hasEntry hent, map_eq_nil_iff] at hall
      exact hne hall
    · have hall := hren hent hbel
      rw [hrew hent (mt (ownerBelow_of_mem_ancestors hpub) hbel)
        (fun hz => hzone ((hzs _).mp hz))] at hall
      cases hlist : wildcardRecords H entries (normalize qname) qtype with
      | nil => exact absurd hlist hne
      | cons =>
        rw [hlist, map_cons, forall₂_cons] at hall
        obtain ⟨⟨owner, howne, -⟩, -⟩ := hall
        rw [howne]
        rfl
  · intro hfits
    refine ⟨Sliced.lookup_eq qname, notLocal_iff hpub, fun zone => lookup_of_isLongest,
      fun hten zone => lookup_of_builtin hten, fun hin hcn hwild => ?_⟩
    obtain ⟨hown, hemp, hrew⟩ :=
      @records_lookup H entries data qname qtype hpub (hloc hin) hcn hwild
    by_cases hent : HasEntry entries (normalize qname)
    · exact ⟨fun _ => hown hent, fun h => absurd hent h⟩
    rw [recordsAt_of_not_hasEntry hent]
    by_cases hnone : wildcardRecords H entries (normalize qname) qtype = []
    · -- there is nothing at the wildcard that could be returned
      have hrec : (lookup H data qname qtype).records = [] := by
        by_cases hpla : normalize qname ∈ data.ancestors ∨ normalize qname ∈ data.zones
        · exact hemp hent hpla
        · rw [not_or] at hpla
          rw [hrew hent hpla.1 hpla.2, hnone, map_nil]
      rw [hrec, hnone]
      exact ⟨fun _ => rfl, fun _ _ => .nil⟩
    obtain ⟨hapex, hbet, hpar⟩ := hfits hin hcn hwild hent hnone
    refine ⟨fun hbel => ?_, fun _ hbel => ?_⟩
    · by_cases hzone : ZoneNamed entries (normalize qname)
      · exact hemp hent (.inr ((hzs _).mpr hzone))
      · exact hemp hent (.inl ((mem_ancestors_publish hpub).mpr
          (hbet hzone (hbel.resolve_left hent))))
    · have hzone : ¬ZoneNamed entries (normalize qname) := fun h => hbel (hapex h)
      obtain ⟨owner, howne⟩ := isSome_iff_exists.mp (hpar hzone hbel)
      rw [hrew hent (mt (ownerBelow_of_mem_ancestors hpub) hbel) fun h => hzone ((hzs _).mp h)]
      exact forall₂_renamed howne

end Spec

theorem lookupSpec_sampleHosts :
    ∃ data, publish wireHickory sampleHosts = some data ∧
      LookupSpec wireHickory sampleHosts data "shop.apps.corp.local." .a ∧
      (lookup wireHickory data "shop.apps.corp.local." .a).records.length = 1 := by
  obtain ⟨data, hdata, hone⟩ : ∃ data, publish wireHickory sampleHosts = some data ∧
      (lookup wireHickory data "shop.apps.corp.local." .a).records.length = 1 := by
    decide +kernel
  refine ⟨data, hdata, (lookupSpec_iff hdata _ _).mpr fun _ _ _ _ _ => ⟨?_, ?_, ?_⟩, hone⟩
  · intro hzone
    exact absurd hzone (by unfold ZoneNamed; decide +kernel)
  · intro _ hbel
    exact absurd hbel (by unfold OwnerBelow; decide +kernel)
  · intro _ _
    decide +kernel

/-- One zone below another, with a name between them. -/
def nestedZones : List LocalZoneRecordDto :=
  [⟨"*.corp.lab", "corp.lab", .a, 300, "10.0.0.1", none⟩,
    ⟨"host.a.b.corp.lab", "a.b.corp.lab", .a, 300, "10.0.0.2", none⟩]

/-- The name `b.corp.lab` has no entry and an owner below it, and is given the
address of the wildcard. -/
theorem wildcard_between_zones :
    ∃ data, publish wireHickory nestedZones = some data ∧
      OwnerBelow nestedZones (normalize "b.corp.lab.") ∧
      (lookup wireHickory data "b.corp.lab." .a).records.map Record.data = [.a 0x0A000001] ∧
      ¬LookupSpec wireHickory nestedZones data "b.corp.lab." .a := by
  obtain ⟨data, hdata, hrec⟩ : ∃ data, publish wireHickory nestedZones = some data ∧
      (lookup wireHickory data "b.corp.lab." .a).records.map Record.data = [.a 0x0A000001] := by
    decide +kernel
  have hbel : OwnerBelow nestedZones (normalize "b.corp.lab.") := by
    unfold OwnerBelow
    decide +kernel
  refine ⟨data, hdata, hbel, hrec, fun hspec => ?_⟩
  have hzone : ZoneNamed nestedZones "corp.lab" := by
    unfold ZoneNamed
    decide +kernel
  have hnone := (hspec.records ⟨_, hzone, by decide +kernel⟩ (by decide +kernel)
    (by decide +kernel)).1 (.inr hbel)
  have hemp : recordsAt wireHickory nestedZones (normalize "b.corp.lab.") .a = [] := by
    decide +kernel
  rw [hnone, hemp] at hrec
  simp at hrec

end Node.Zone
