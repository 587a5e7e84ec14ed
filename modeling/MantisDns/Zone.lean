/-
The stub-zone store: `mantis-filter/src/zone_store.rs`.

`publish` turns the control plane's record list into the maps that `lookup`
reads; `chaseInZoneCname` follows CNAMEs through the hosted zones and hands
the first name outside them back for recursion.

* `lookup_eq_notLocal` — a name is not local exactly when it lies in no
  tenant zone and no builtin special-use zone;
* `lookup_recurseTarget` — a recursion target is a normalised name outside
  all of them.
-/
import MantisDns.Dns
import MantisDns.LongestMatch

open Text Dns

namespace Node.Zone

/-! ### Names and zones -/

/-- `BUILTIN_EMPTY_ZONES`. -/
def builtinEmptyZones : List Str :=
  ["local", "localhost", "invalid", "test", "example", "onion", "home.arpa", "10.in-addr.arpa",
    "16.172.in-addr.arpa", "17.172.in-addr.arpa", "18.172.in-addr.arpa", "19.172.in-addr.arpa",
    "20.172.in-addr.arpa", "21.172.in-addr.arpa", "22.172.in-addr.arpa", "23.172.in-addr.arpa",
    "24.172.in-addr.arpa", "25.172.in-addr.arpa", "26.172.in-addr.arpa", "27.172.in-addr.arpa",
    "28.172.in-addr.arpa", "29.172.in-addr.arpa", "30.172.in-addr.arpa", "31.172.in-addr.arpa",
    "168.192.in-addr.arpa", "254.169.in-addr.arpa", "d.f.ip6.arpa", "c.f.ip6.arpa",
    "8.e.f.ip6.arpa", "9.e.f.ip6.arpa", "a.e.f.ip6.arpa", "b.e.f.ip6.arpa"].map String.toList

/-- `normalize`. -/
def normalize (name : Str) : Str := lowerAscii (trimDots name)

/-- `str::len`, in bytes. -/
def strLen (s : Str) : ℕ := (utf8 s).length

/-- `is_subdomain_of`: the byte before the suffix is a dot, so that comparing
bytes is comparing characters. -/
def isSubdomainOf (qname zone : Str) : Bool := ('.' :: zone).isSuffixOf qname

/-- The filter of `longest_match`. -/
def inZone (qname zone : Str) : Bool := qname == zone || isSubdomainOf qname zone

/-- `longest_match`. -/
def longestMatch (zones : List Str) (qname : Str) : Option Str :=
  LongestMatch.maxByKey strLen (zones.filter (inZone qname))

/-- What follows the first dot. -/
def afterDot : Str → Option Str
  | [] => none
  | c :: rest => if c = '.' then some rest else afterDot rest

theorem afterDot_length {s t : Str} (h : afterDot s = some t) : t.length < s.length := by
  induction s with
  | nil => simp [afterDot] at h
  | cons c s ih =>
    rw [afterDot] at h
    split at h
    · cases h
      exact Nat.lt_succ_self _
    · exact Nat.lt_succ_of_lt (ih h)

/-- `strict_ancestors`. -/
def strictAncestors (owner zone : Str) : List Str :=
  match _h : afterDot owner with
  | none => []
  | some next => if strLen next ≤ strLen zone then [] else next :: strictAncestors next zone
  termination_by owner.length
  decreasing_by exact afterDot_length ‹_›

/-! ### The published data -/

/-- A map with string keys. -/
abbrev StrMap (α : Type) := Str → Option α

/-- `ZoneData`. -/
structure ZoneData where
  zones : List Str
  records : StrMap (List Record)
  wildcards : StrMap (List Record)
  ancestors : List Str
  apexSoa : StrMap Record

/-- `ZoneStore::empty`. -/
def ZoneData.empty : ZoneData := ⟨[], fun _ => none, fun _ => none, [], fun _ => none⟩

/-- `record_type` of a published entry. -/
inductive EntryType
  | a
  | aaaa
  | cname
  | ns
  | ptr
  | mx
  | txt
  | srv
  | caa
  | soa
  | other (text : Str)
  deriving DecidableEq

/-- `LocalZoneRecordDto`. -/
structure LocalZoneRecordDto where
  name : Str
  zone : Str
  recordType : EntryType
  ttl : UInt32
  data : Str
  priority : Option UInt16
  deriving DecidableEq

/-- `data.is_char_boundary(i)` on the UTF-8 bytes. -/
def isCharBoundary (bytes : List UInt8) (i : ℕ) : Bool :=
  i == 0 || i == bytes.length || (bytes[i]?).any fun b => b &&& 0xC0 != 0x80

/-- `while end > start && !data.is_char_boundary(end) { end -= 1 }`. -/
def backUp (bytes : List UInt8) (start : ℕ) : ℕ → ℕ
  | 0 => 0
  | e + 1 => if e + 1 > start && !isCharBoundary bytes (e + 1) then backUp bytes start e else e + 1

/-- The end of the chunk that starts at `start`. -/
def chunkEnd (bytes : List UInt8) (start : ℕ) : ℕ :=
  let limit := min (start + 255) bytes.length
  let e := backUp bytes start limit
  if e ≤ start then limit else e

theorem lt_chunkEnd {bytes : List UInt8} {start : ℕ} (h : start < bytes.length) :
    start < chunkEnd bytes start := by
  simp only [chunkEnd]
  split <;> omega

/-- The loop of `chunk_txt` from `start` on. -/
def chunkLoop (bytes : List UInt8) (start : ℕ) : List (List UInt8) :=
  if _h : start < bytes.length then
    (bytes.take (chunkEnd bytes start)).drop start :: chunkLoop bytes (chunkEnd bytes start)
  else []
  termination_by bytes.length - start
  decreasing_by
    have := lt_chunkEnd ‹start < bytes.length›
    omega

/-- `chunk_txt`, each chunk as its bytes. -/
def chunkTxt (data : Str) : List (List UInt8) :=
  if strLen data ≤ 255 then [utf8 data] else chunkLoop (utf8 data) 0

section Records

variable (H : Hickory)

/-- The data of `build_record`, by record type. -/
def buildRData (entry : LocalZoneRecordDto) : Option RData :=
  match entry.recordType with
  | .a => (parseIpv4 entry.data).map .a
  | .aaaa => (parseIpv6 entry.data).map .aaaa
  | .cname => (H.parseName entry.data).map .cname
  | .ns => (H.parseName entry.data).map .ns
  | .ptr => (H.parseName entry.data).map .ptr
  | .mx => (H.parseName entry.data).map (.mx (entry.priority.getD 10))
  | .txt => some (.txt (chunkTxt entry.data))
  | .srv =>
    match splitWhitespace entry.data with
    | [weight, port, target] => do
      let weight ← parseU16 weight
      let port ← parseU16 port
      let target ← H.parseName target
      return .srv (entry.priority.getD 0) weight port target
    | _ => none
  | .caa =>
    -- `splitn(2, char::is_whitespace)`: tag, then the rest
    match entry.data.dropWhile (!isWhitespace ·) with
    | [] => none
    | _ :: rest => do
      let value := trim rest
      let issuer ← if value = ";" then some none else (H.parseName value).map some
      let tag := entry.data.takeWhile (!isWhitespace ·)
      if tag = "issue" then return .caa false .issue issuer
      else if tag = "issuewild" then return .caa false .issuewild issuer
      else none
  | .soa =>
    match splitWhitespace entry.data with
    | [mname, rname, serial, refresh, retry, expire, minimum] => do
      let mname ← H.parseName mname
      let rname ← H.parseName rname
      let serial ← parseU32 serial
      let refresh ← parseI32 refresh
      let retry ← parseI32 retry
      let expire ← parseI32 expire
      let minimum ← parseU32 minimum
      return .soa mname rname serial refresh retry expire minimum
    | _ => none
  | .other _ => none

/-- `build_record`. -/
def buildRecord (entry : LocalZoneRecordDto) : Option Record := do
  let name ← H.parseName entry.name
  let data ← buildRData H entry
  return ⟨name, entry.ttl, data⟩

/-- `synthesize_soa`. -/
def synthesizeSoa (zone : Str) : Option Record := do
  let apex ← H.parseName (zone ++ ".")
  let mname ← H.parseName ("ns1." ++ zone ++ ".")
  let rname ← H.parseName ("hostmaster." ++ zone ++ ".")
  return ⟨apex, 300, .soa mname rname 1 3600 900 604800 300⟩

/-- `builtin_soa`. -/
def builtinSoa (zone : Str) : Record :=
  let apex := (H.parseName (zone ++ ".")).getD .root
  let mname := (H.parseName "localhost.").getD .root
  let rname := (H.parseName "root.localhost.").getD .root
  ⟨apex, 86400, .soa mname rname 1 3600 900 604800 86400⟩

/-! ### `publish` -/

/-- `map.entry(key).or_default()`, then a push of what there is to push. -/
def StrMap.push (m : StrMap (List Record)) (key : Str) (record : Option Record) :
    StrMap (List Record) :=
  Function.update m key (some ((m key).getD [] ++ record.toList))

/-- The loop body over the entries. -/
def publishEntry (data : ZoneData) (entry : LocalZoneRecordDto) : ZoneData :=
  let owner := normalize entry.name
  let zone := normalize entry.zone
  let record := buildRecord H entry
  { data with
    records := StrMap.push data.records owner record
    wildcards :=
      match stripPrefix "*." owner, record with
      | some suffix, some record => StrMap.push data.wildcards suffix (some record)
      | _, _ => data.wildcards
    ancestors := data.ancestors ++ strictAncestors owner zone
    apexSoa :=
      match record with
      | some record =>
        if record.recordType = .soa ∧ owner = zone then
          Function.update data.apexSoa zone (some record)
        else data.apexSoa
      | none => data.apexSoa }

/-- The loop that gives every zone an apex SOA; `none` is its panic. -/
def fillApexSoa : List Str → StrMap Record → Option (StrMap Record)
  | [], apexSoa => some apexSoa
  | zone :: rest, apexSoa =>
    match apexSoa zone with
    | some _ => fillApexSoa rest apexSoa
    | none => do
      let soa ← synthesizeSoa H zone
      fillApexSoa rest (Function.update apexSoa zone (some soa))

/-- `ZoneStore::publish`: the data it installs, unless it panics. -/
def publish (entries : List LocalZoneRecordDto) : Option ZoneData := do
  let zones := ((entries.map fun e => normalize e.zone).insertionSort (· ≤ ·)).dedup
  let data := entries.foldl (publishEntry H) { ZoneData.empty with zones }
  let apexSoa ← fillApexSoa H zones data.apexSoa
  return { data with apexSoa }

/-! ### `lookup` -/

/-- `ZoneLookup`. -/
inductive ZoneLookup
  | notLocal
  | answer (records : List Record) (soa : Option Record) (recurseTarget : Option Str)
  | nxDomain (soa : Option Record)
  deriving DecidableEq

/-- `rewrite_owner`. -/
def rewriteOwner (record : Record) (newOwner : Str) : Record :=
  match H.parseName (newOwner ++ ".") with
  | some name => { record with name }
  | none => record

/-- The loop of `chase_in_zone_cname`, with the turns it has left. -/
def chaseLoop (data : ZoneData) (qtype : RecordType) :
    ℕ → List Str → List Record → List Record × Option Str
  | 0, _, answer => (answer, none)
  | turns + 1, seen, answer =>
    match answer.getLast?.map Record.data with
    | some (.cname target) =>
      let target := normalize (H.toUtf8 target)
      if target ∈ seen then (answer, none)
      else if (longestMatch builtinEmptyZones target).isSome then (answer, none)
      else if (longestMatch data.zones target).isNone then (answer, some target)
      else
        match data.records target with
        | none => (answer, none)
        | some targetRecords =>
          let terminal := targetRecords.filter (·.recordType = qtype)
          if terminal ≠ [] then (answer ++ terminal, none)
          else
            match targetRecords.find? (·.recordType = .cname) with
            | none => (answer, none)
            | some next => chaseLoop data qtype turns (target :: seen) (answer ++ [next])
    | _ => (answer, none)

/-- `chase_in_zone_cname`. -/
def chaseInZoneCname (data : ZoneData) (answer : List Record) (qtype : RecordType) :
    List Record × Option Str :=
  let seen := (answer.head?.map fun record => normalize (H.toUtf8 record.name)).toList
  chaseLoop H data qtype 16 seen answer

/-- The wildcard part of `lookup_in_zone`, for the records at `*.parent`. -/
def lookupWildcard (data : ZoneData) (recs : List Record) (qname : Str) (qtype : RecordType)
    (soa : Option Record) : ZoneLookup :=
  let rewritten (type : RecordType) :=
    (recs.filter (·.recordType = type)).map (rewriteOwner H · qname)
  if rewritten qtype = [] ∧ qtype ≠ .cname then
    if rewritten .cname ≠ [] then
      let chased := chaseInZoneCname H data (rewritten .cname) qtype
      .answer chased.1 soa chased.2
    else .answer [] soa none
  else .answer (rewritten qtype) soa none

/-- `lookup_in_zone` for a name with its own entry. -/
def lookupRecords (data : ZoneData) (recs : List Record) (qtype : RecordType)
    (soa : Option Record) : ZoneLookup :=
  let matched := recs.filter (·.recordType = qtype)
  if matched ≠ [] ∨ qtype = .cname then .answer matched soa none
  else
    let cname := recs.filter (·.recordType = .cname)
    if cname ≠ [] then
      let chased := chaseInZoneCname H data cname qtype
      .answer chased.1 soa chased.2
    else .answer [] soa none

/-- `lookup_in_zone`. -/
def lookupInZone (data : ZoneData) (qname zone : Str) (qtype : RecordType) : ZoneLookup :=
  let soa := data.apexSoa zone
  match data.records qname with
  | some recs => lookupRecords H data recs qtype soa
  | none =>
    if qname ∈ data.ancestors then .answer [] soa none
    else
      match (afterDot qname).filter fun parent => strLen zone ≤ strLen parent with
      | none => .nxDomain soa
      | some parent =>
        match data.wildcards parent with
        | none => .nxDomain soa
        | some recs => lookupWildcard H data recs qname qtype soa

/-- `ZoneStore::lookup`. -/
def lookup (data : ZoneData) (qname : Str) (qtype : RecordType) : ZoneLookup :=
  let qname := normalize qname
  match longestMatch data.zones qname with
  | some zone => lookupInZone H data qname zone qtype
  | none =>
    match longestMatch builtinEmptyZones qname with
    | some zone => .nxDomain (some (builtinSoa H zone))
    | none => .notLocal

end Records

/-! ### What a lookup can answer -/

theorem longestMatch_eq_none {zones : List Str} {qname : Str} :
    longestMatch zones qname = none ↔ ∀ z ∈ zones, inZone qname z = false := by
  rw [longestMatch, LongestMatch.maxByKey_eq_none, List.filter_eq_nil_iff]
  exact forall₂_congr fun z _ => by rw [Bool.not_eq_true]

/-- The name lies in a tenant zone or in a builtin special-use zone. -/
def IsLocal (data : ZoneData) (name : Str) : Prop :=
  (∃ z ∈ data.zones, inZone name z = true) ∨ ∃ z ∈ builtinEmptyZones, inZone name z = true

instance (data : ZoneData) (name : Str) : Decidable (IsLocal data name) :=
  inferInstanceAs (Decidable (_ ∨ _))

theorem not_isLocal_iff {data : ZoneData} {name : Str} :
    ¬IsLocal data name ↔
      longestMatch data.zones name = none ∧ longestMatch builtinEmptyZones name = none := by
  rw [IsLocal, longestMatch_eq_none, longestMatch_eq_none, not_or]
  simp only [not_exists, not_and, Bool.not_eq_true]

theorem normalize_idem (s : Str) : normalize (normalize s) = normalize s := by
  rw [normalize, normalize, trimDots_lowerAscii, trimDots_idem, lowerAscii_idem]

theorem normalize_concat_dot {s : Str} (h : normalize s = s) : normalize (s ++ ".") = s := by
  show lowerAscii (trimDots (s ++ ['.'])) = s
  rw [trimDots_concat_dot]
  exact h

theorem chaseLoop_target {H : Hickory} {data : ZoneData} {qtype : RecordType} {t : Str} :
    ∀ {turns : ℕ} {seen : List Str} {answer : List Record},
      (chaseLoop H data qtype turns seen answer).2 = some t →
        ¬IsLocal data t ∧ normalize t = t := by
  intro turns
  induction turns with
  | zero =>
    intro seen answer h
    simp [chaseLoop] at h
  | succ turns ih =>
    intro seen answer h
    rw [chaseLoop.eq_def] at h
    -- one case for each way out of the loop body
    simp only at h
    split at h
    · split_ifs at h with _ hbi hzone
      · -- the name left every zone: it is handed back
        rw [Option.some_inj] at h
        subst h
        refine ⟨not_isLocal_iff.mpr ⟨?_, ?_⟩, normalize_idem _⟩
        · simpa using hzone
        · simpa using hbi
      · split at h
        · simp at h
        · split_ifs at h
          split at h
          · simp at h
          · exact ih h
    · simp at h

section Lookup

variable {H : Hickory} {data : ZoneData} {qname : Str} {qtype : RecordType}
variable {recs rs : List Record} {soa soa' : Option Record} {t zone : Str}

theorem lookupRecords_target (h : lookupRecords H data recs qtype soa = .answer rs soa' (some t)) :
    ¬IsLocal data t ∧ normalize t = t := by
  simp only [lookupRecords] at h
  split_ifs at h
  · simp at h
  · rw [ZoneLookup.answer.injEq] at h
    exact chaseLoop_target h.2.2
  · simp at h

theorem lookupWildcard_target
    (h : lookupWildcard H data recs qname qtype soa = .answer rs soa' (some t)) :
    ¬IsLocal data t ∧ normalize t = t := by
  simp only [lookupWildcard] at h
  split_ifs at h
  · rw [ZoneLookup.answer.injEq] at h
    exact chaseLoop_target h.2.2
  · simp at h
  · simp at h

theorem lookupInZone_target (h : lookupInZone H data qname zone qtype = .answer rs soa (some t)) :
    ¬IsLocal data t ∧ normalize t = t := by
  rw [lookupInZone] at h
  split at h
  · exact lookupRecords_target h
  · split_ifs at h
    · simp at h
    · split at h
      · simp at h
      · split at h
        · simp at h
        · exact lookupWildcard_target h

theorem lookupInZone_ne_notLocal :
    lookupInZone H data qname zone qtype ≠ .notLocal := by
  rw [lookupInZone]
  split
  · simp only [lookupRecords]
    split_ifs <;> simp
  · split_ifs
    · simp
    · split
      · simp
      · split
        · simp
        · simp only [lookupWildcard]
          split_ifs <;> simp

/-- **Locality**: a name is looked up locally exactly when it lies in a tenant
or builtin zone. -/
theorem lookup_eq_notLocal :
    lookup H data qname qtype = .notLocal ↔ ¬IsLocal data (normalize qname) := by
  rw [not_isLocal_iff, lookup]
  cases hz : longestMatch data.zones (normalize qname) with
  | some => simp [lookupInZone_ne_notLocal]
  | none =>
    cases hb : longestMatch builtinEmptyZones (normalize qname) with
    | some | none => simp

/-- **Recursion targets** lie in no tenant zone and no builtin zone. -/
theorem lookup_recurseTarget (h : lookup H data qname qtype = .answer rs soa (some t)) :
    ¬IsLocal data t ∧ normalize t = t := by
  rw [lookup] at h
  cases hz : longestMatch data.zones (normalize qname) with
  | some =>
    simp only [hz] at h
    exact lookupInZone_target h
  | none =>
    simp only [hz] at h
    split at h <;> simp at h

end Lookup

end Node.Zone
