/-
The names and data of records, from the validators of `api/zone_routers.py` and
`dhcp_internal_routers.py` to the full names that `get_local_zone_records` sends.

* `isDnsName` — texts of labels, as the validators and `str.lower` leave them;
* `exists_of_validateDnsName`, `named_relativeOwner` — what is accepted, and what is
  stored;
* `Named.fqdn` — the full name of a stored record;
* `reachable_rowOk` — every row of every reachable table has such a name, and data
  without white space around it.
-/
import MantisDns.UrlText
import MantisDns.ZoneSoa

open Text Table List Option

namespace Control.Zones

/-! ### Labels -/

/-- What `str.lower` puts after the `i` of `İ`. -/
def combiningDot : Char := Char.ofNat 0x307

/-- `[a-z0-9_-]` ignoring case, with the combining dot that `str.lower` makes of `İ`. -/
def nameChar (c : Char) : Bool := isAlnumIgnoreCase c || c == '_' || c == '-' || c == combiningDot

/-- A label that is not empty and does not start with a hyphen, or a wildcard. -/
def isNameLabel (l : Str) : Bool :=
  l = "*" || (l ≠ [] && l.head? ≠ some '-' && l.all nameChar)

/-- Labels with dots between them, and none at the end. -/
def isDnsName (s : Str) : Bool := (s.splitOn '.').all isNameLabel

/-- `str.lower` on a character of a name. -/
def lowerNameChar (c : Char) : Str :=
  if c = 'İ' then ['i', combiningDot] else if c = 'K' then ['k'] else [c.toLower]

/-- What is assumed of `str.lower` on names. -/
def LowersNames (U : CaseMap) : Prop :=
  ∀ s : Str, (∀ c ∈ s, nameChar c = true ∨ c = '*' ∨ c = '.') → U.lower s = s.flatMap lowerNameChar

theorem splitOn_append_of_not_mem {a : Str} (h : '.' ∉ a) (b : Str) :
    (a ++ b).splitOn '.' = (b.splitOn '.').modifyHead (a ++ ·) := by
  induction a with
  | nil =>
    rw [nil_append]
    cases b.splitOn '.' <;> rfl
  | cons x a ih =>
    rw [mem_cons, not_or] at h
    have hx : (x == '.') = false := beq_eq_false_iff_ne.mpr (Ne.symm h.1)
    have hrest := ih h.2
    rw [List.splitOn, List.splitOn] at hrest
    rw [cons_append, List.splitOn, List.splitOn, splitOnP_cons_eq_if_modifyHead, hx, hrest]
    cases List.splitOnP (fun c => c == '.') b <;> rfl

theorem splitOn_dot_cons (s : Str) : ('.' :: s).splitOn '.' = [] :: s.splitOn '.' := by
  rw [List.splitOn, splitOnP_cons_eq_if_modifyHead]
  rfl

theorem splitOn_append_dot (a b : Str) :
    (a ++ '.' :: b).splitOn '.' = a.splitOn '.' ++ b.splitOn '.' := by
  induction a with
  | nil =>
    rw [nil_append, splitOn_dot_cons]
    rfl
  | cons x a ih =>
    by_cases hx : x = '.'
    · rw [hx, cons_append, splitOn_dot_cons, splitOn_dot_cons, ih, cons_append]
    · have hsin : '.' ∉ [x] := by simpa using Ne.symm hx
      have hcons : ∀ b, (x :: b).splitOn '.' = (b.splitOn '.').modifyHead ([x] ++ ·) :=
        splitOn_append_of_not_mem hsin
      rw [cons_append, hcons, ih, hcons]
      cases h : a.splitOn '.' with
      | nil => exact absurd h (splitOn_ne_nil _ _)
      | cons => rfl

theorem splitOn_flatMap {f : Char → Str} (hdot : f '.' = ['.']) {s : Str}
    (hf : ∀ c ∈ s, c ≠ '.' → '.' ∉ f c) :
    (s.flatMap f).splitOn '.' = (s.splitOn '.').map (·.flatMap f) := by
  induction s with
  | nil => rfl
  | cons x s ih =>
    have hrest := ih fun c hc => hf c (mem_cons_of_mem _ hc)
    by_cases hx : x = '.'
    · rw [hx, flatMap_cons, hdot, singleton_append, splitOn_dot_cons, splitOn_dot_cons, hrest]
      rfl
    · have hsin : '.' ∉ [x] := by simpa using Ne.symm hx
      rw [flatMap_cons, splitOn_append_of_not_mem (hf x mem_cons_self hx), hrest,
        ← singleton_append, splitOn_append_of_not_mem hsin]
      cases s.splitOn '.' with
      | nil => rfl
      | cons => simp

/-! ### Names -/

section Names

variable {s t : Str}

theorem isNameLabel_iff {l : Str} : isNameLabel l = true ↔
    l = "*" ∨ l ≠ [] ∧ l.head? ≠ some '-' ∧ ∀ c ∈ l, nameChar c = true := by
  simp [isNameLabel, and_assoc]

theorem isDnsName_append_dot :
    isDnsName (s ++ '.' :: t) = true ↔ isDnsName s = true ∧ isDnsName t = true := by
  rw [isDnsName, splitOn_append_dot, all_append, Bool.and_eq_true, isDnsName, isDnsName]

theorem mem_isDnsName (h : isDnsName s = true) {c : Char} (hc : c ∈ s) :
    nameChar c = true ∨ c = '*' ∨ c = '.' := by
  rw [← join_splitOn s] at hc
  rcases mem_join hc with hdot | ⟨l, hl, hc⟩
  · exact .inr (.inr (mem_singleton.mp hdot))
  · rcases isNameLabel_iff.mp (List.all_eq_true.mp h l hl) with rfl | ⟨-, -, hcha⟩
    · exact .inr (.inl (mem_singleton.mp hc))
    · exact .inl (hcha c hc)

theorem getLast?_of_isDnsName (h : isDnsName s = true) : s.getLast? ≠ some '.' := by
  intro hlast
  rw [← dropLast_append_getLast? _ hlast, isDnsName_append_dot] at h
  exact absurd h.2 (by decide)

theorem isSpace_of_nameChar {c : Char} (h : nameChar c = true ∨ c = '*' ∨ c = '.') :
    isSpace c = false := by
  rcases h with h | rfl | rfl
  · simp only [nameChar, isAlnumIgnoreCase, isAlnum, Bool.or_eq_true, Bool.and_eq_true,
      decide_eq_true_eq, beq_iff_eq, Char.le_def, UInt32.le_iff_toNat_le] at h
    rcases h with ((((((((hc | hc) | hc) | rfl) | rfl) | rfl) | rfl) | rfl) | rfl) | rfl
    · have hc : 97 ≤ c.toNat ∧ c.toNat ≤ 122 := hc
      simp [isSpace]
      omega
    · have hc : 48 ≤ c.toNat ∧ c.toNat ≤ 57 := hc
      simp [isSpace]
      omega
    · have hc : 65 ≤ c.toNat ∧ c.toNat ≤ 90 := hc
      simp [isSpace]
      omega
    all_goals decide
  · decide
  · decide

theorem strip_of_isDnsName (h : isDnsName s = true) : strip s = s :=
  strip_eq_self fun _ hc => isSpace_of_nameChar (mem_isDnsName h hc)

theorem trimDots_of_isDnsName (h : isDnsName s = true) : trimDots s = s :=
  trimDots_eq_self (getLast?_of_isDnsName h)

theorem isDnsName_of_stripSuffix {zone : Str} (h : isDnsName s = true)
    (hstr : stripSuffix ('.' :: zone) s = some t) : isDnsName t = true := by
  rw [stripSuffix] at hstr
  obtain ⟨hsuf, rfl⟩ := ite_some_none_eq_some.mp hstr
  obtain ⟨front, rfl⟩ := isSuffixOf_iff_suffix.mp hsuf
  rw [isDnsName_append_dot] at h
  simpa using h.1

/-! ### Lower case -/

theorem toLower_nameChar (c : Char) : nameChar c = true →
    nameChar c.toLower = true ∧ (c.toLower = '-' → c = '-') :=
  Url.toLower_cases
    (P := fun c d => nameChar c = true → nameChar d = true ∧ (d = '-' → c = '-'))
    (by decide +kernel) (fun _ _ h => ⟨h, id⟩) c

theorem lowerNameChar_spec {c : Char} (h : nameChar c = true) :
    lowerNameChar c ≠ [] ∧ (∀ d ∈ lowerNameChar c, nameChar d = true) ∧
      ((lowerNameChar c).head? = some '-' → c = '-') := by
  rw [lowerNameChar]
  split_ifs with hI hK
  · refine ⟨by simp, forall_mem_cons.mpr ⟨by decide, fun d hd => ?_⟩,
      fun hhead => absurd hhead (by decide)⟩
    rw [mem_singleton.mp hd, nameChar, beq_self_eq_true, Bool.or_true]
  · refine ⟨by simp, fun d hd => ?_, fun hhead => absurd hhead (by decide)⟩
    rw [mem_singleton.mp hd]
    decide
  · obtain ⟨hchar, hhy⟩ := toLower_nameChar c h
    exact ⟨by simp, by simpa using hchar, by simpa using hhy⟩

theorem isNameLabel_lower {l : Str} (h : isNameLabel l = true) :
    isNameLabel (l.flatMap lowerNameChar) = true := by
  rcases isNameLabel_iff.mp h with rfl | ⟨hne, hhead, hcha⟩
  · decide
  · rw [isNameLabel_iff]
    cases l with
    | nil => exact absurd rfl hne
    | cons x =>
      obtain ⟨hx, hxch, hxhe⟩ := lowerNameChar_spec (hcha x mem_cons_self)
      refine .inr ⟨by simp [hx], fun hhy => hhead ?_, fun c hc => ?_⟩
      · rw [flatMap_cons, head?_append_of_ne_nil _ hx] at hhy
        rw [hxhe hhy]
        rfl
      · obtain ⟨d, hd, hc⟩ := mem_flatMap.mp hc
        exact (lowerNameChar_spec (hcha d hd)).2.1 c hc

theorem dot_not_mem_lowerNameChar {c : Char} (h : nameChar c = true ∨ c = '*' ∨ c = '.')
    (hdot : c ≠ '.') : '.' ∉ lowerNameChar c := by
  rcases h with h | rfl | rfl
  · intro hmem
    exact absurd ((lowerNameChar_spec h).2.1 _ hmem) (by decide)
  · decide
  · exact absurd rfl hdot

theorem isDnsName_lower (h : isDnsName s = true) : isDnsName (s.flatMap lowerNameChar) = true := by
  have hdot : ∀ c ∈ s, c ≠ '.' → '.' ∉ lowerNameChar c := fun c hc =>
    dot_not_mem_lowerNameChar (mem_isDnsName h hc)
  rw [isDnsName, splitOn_flatMap (by decide) hdot, List.all_map, List.all_eq_true]
  exact fun l hl => isNameLabel_lower (List.all_eq_true.mp h l hl)

end Names

/-! ### What is accepted and what is stored -/

/-- A name as the validators let it through: it may end in a dot. -/
def Given (name : Str) : Prop :=
  name = "@" ∨ ∃ s, isDnsName s = true ∧ (name = s ∨ name = s ++ ['.'])

/-- A name as it is stored. -/
def Named (name : Str) : Prop := name = "@" ∨ isDnsName name = true

theorem Named.given {name : Str} (h : Named name) : Given name :=
  h.imp_right fun hname => ⟨name, hname, .inl rfl⟩

theorem isNameLabel_of_isLabel {alnum : Char → Bool} {l : Str}
    (haln : ∀ c, alnum c = true → nameChar c = true ∧ c ≠ '-') (h : isLabel alnum l = true) :
    isNameLabel l = true := by
  simp only [isLabel, Bool.and_eq_true, List.all_eq_true, Bool.or_eq_true, beq_iff_eq] at h
  obtain ⟨⟨⟨-, hcha⟩, hhead⟩, -⟩ := h
  obtain ⟨x, hx, hxal⟩ := (Option.any_eq_true _ _).mp hhead
  refine isNameLabel_iff.mpr (.inr ⟨?_, ?_, fun c hc => ?_⟩)
  · rintro rfl
    simp at hx
  · rw [hx]
    exact fun hhy => (haln x hxal).2 (some_inj.mp hhy)
  · rcases hcha c hc with hc | rfl
    · exact (haln c hc).1
    · decide

theorem isNameLabel_of_ownerLabelRe {l : Str} (h : ownerLabelRe l = true) :
    isNameLabel l = true := by
  refine isNameLabel_of_isLabel (fun c hc => ⟨?_, ?_⟩) h
  · rw [nameChar, hc, Bool.true_or, Bool.true_or]
  · rintro rfl
    exact absurd hc (by decide)

theorem exists_of_validateDnsName {value v : Str} {wildcard : Bool}
    (h : validateDnsName value wildcard = some v) :
    v = strip value ∧ ∃ s, isDnsName s = true ∧ (v = s ∨ v = s ++ ['.']) ∧ s.length ≤ 253 ∧
      (wildcard = false → ∀ l ∈ s.splitOn '.', l.length ≤ 63) := by
  simp only [validateDnsName] at h
  obtain ⟨hcks, hv⟩ := ite_none_left_eq_some.mp h
  cases hv
  -- the name without its final dot
  set bare := if (strip value).getLast? = some '.' then (strip value).dropLast else strip value
    with hbare
  simp only [not_or, not_not, Nat.not_lt] at hcks
  obtain ⟨-, hlen, -, hlab⟩ := hcks
  refine ⟨rfl, bare, ?_, ?_, hlen, ?_⟩
  · rw [isDnsName, List.all_eq_true]
    intro l hl
    split_ifs at hlab with hwild
    · -- the first label is the wildcard
      obtain ⟨-, hhead⟩ := hwild
      cases hspl : bare.splitOn '.' with
      | nil => exact absurd hspl (splitOn_ne_nil _ _)
      | cons =>
        rw [hspl] at hl hhead hlab
        rcases mem_cons.mp hl with rfl | hl
        · rw [some_inj.mp hhead]
          decide
        · exact isNameLabel_of_ownerLabelRe (List.all_eq_true.mp hlab l hl)
    · exact isNameLabel_of_ownerLabelRe (List.all_eq_true.mp hlab l hl)
  · by_cases hdot : (strip value).getLast? = some '.'
    · right
      rw [hbare, if_pos hdot]
      exact (dropLast_append_getLast? _ hdot).symm
    · left
      rw [hbare, if_neg hdot]
  · rintro rfl l hl
    rw [if_neg (by simp)] at hlab
    have hlabe := List.all_eq_true.mp hlab l hl
    simp only [ownerLabelRe, isLabel, Bool.and_eq_true, decide_eq_true_eq] at hlabe
    exact hlabe.1.1.1

theorem strip_of_validateRecordField {v v' : Str} (h : validateRecordField v = some v') :
    strip v' = v' := by
  simp only [validateRecordField] at h
  obtain ⟨-, hv⟩ := ite_none_left_eq_some.mp h
  rw [← some_inj.mp hv, strip_idem]

theorem given_of_recordName {v name : Str} (h : recordName v = some name) : Given name := by
  simp only [recordName, bind_eq_bind, bind_eq_some_iff] at h
  obtain ⟨v', hfie, h⟩ := h
  obtain ⟨hname, rfl⟩ := ite_some_none_eq_some.mp h
  refine hname.imp_right fun hsome => ?_
  obtain ⟨w, hw⟩ := isSome_iff_exists.mp hsome
  obtain ⟨hv, s, hs, hform, -⟩ := exists_of_validateDnsName hw
  rw [strip_of_validateRecordField hfie] at hv
  exact ⟨s, hs, hv ▸ hform⟩

section Stored

variable {U : CaseMap} (hU : LowersNames U) {name : Str}

include hU

theorem named_bare (h : Given name) : Named (trimDots (U.lower (strip name))) := by
  rcases h with rfl | ⟨s, hs, hname⟩
  · left
    rw [show strip "@" = "@" by decide, U.lower_ascii (by decide)]
    decide
  · right
    have hlow := isDnsName_lower hs
    rcases hname with rfl | rfl
    · rw [strip_of_isDnsName hs, hU _ fun c hc => mem_isDnsName hs hc, trimDots_of_isDnsName hlow]
      exact hlow
    · have hcha : ∀ c ∈ s ++ ['.'], nameChar c = true ∨ c = '*' ∨ c = '.' := by
        intro c hc
        rcases mem_append.mp hc with hc | hc
        · exact mem_isDnsName hs hc
        · exact .inr (.inr (mem_singleton.mp hc))
      rw [strip_eq_self fun c hc => isSpace_of_nameChar (hcha c hc), hU _ hcha,
        flatMap_append, show ['.'].flatMap lowerNameChar = ['.'] by decide,
        trimDots_concat_dot, trimDots_of_isDnsName hlow]
      exact hlow

omit hU in
theorem Named.stripSuffix (h : Named name) (zone : Str) :
    Named ((Text.stripSuffix ('.' :: zone) name).getD name) := by
  cases hstr : Text.stripSuffix ('.' :: zone) name with
  | none => exact h
  | some =>
    rcases h with rfl | h
    · -- there is no dot in it
      rw [Text.stripSuffix] at hstr
      obtain ⟨hsuf, -⟩ := ite_some_none_eq_some.mp hstr
      have hdot : '.' ∈ "@".toList :=
        (isSuffixOf_iff_suffix.mp hsuf).subset mem_cons_self
      simp at hdot
    · exact .inr (isDnsName_of_stripSuffix h hstr)

theorem named_relativeOwner (h : Given name) (zoneName : Str) :
    Named (relativeOwner U name zoneName) := by
  simp only [relativeOwner]
  split
  · exact .inl rfl
  · exact (named_bare hU h).stripSuffix _

theorem named_sentOwner {z : DnsZone} {r : DnsRecord} (h : Named r.name) :
    Named (sentOwner U z r) := by
  rw [sentOwner]
  split
  · exact .inl rfl
  · exact (named_bare hU h.given).stripSuffix _

/-- **The full name of a stored record.** -/
theorem Named.fqdn {z : DnsZone} {r : DnsRecord} (h : Named r.name) (hz : isDnsName z.name = true) :
    isDnsName (Zones.fqdn U z r) = true := by
  rw [Zones.fqdn]
  split
  · exact hz
  · rename_i hne
    exact isDnsName_append_dot.mpr ⟨(named_sentOwner hU h).resolve_left hne, hz⟩

end Stored

theorem zone_suffix_fqdn (U : CaseMap) (z : DnsZone) (r : DnsRecord) : z.name <:+ fqdn U z r := by
  rw [fqdn]
  split
  · exact suffix_rfl
  · exact (suffix_cons '.' z.name).trans (suffix_append _ _)

theorem DnsZone.Ok.isDnsName_or {U : CaseMap} {z : DnsZone} (h : z.Ok U) :
    isDnsName z.name = true ∧ '\n' ∉ z.name ∨ '\n' ∈ z.name := by
  obtain ⟨v, hv⟩ := h.name
  obtain ⟨labels, hne, hlab, hname | hname⟩ := zoneName_cases hv
  · left
    have hpl : ∀ l ∈ labels, '.' ∉ l := fun l hl => (plainLabel_of_isLabel (hlab l hl)).2.1
    have hspl : z.name.splitOn '.' = labels := by
      rw [hname]
      exact splitOn_intercalate '.' hpl hne
    have hdns : isDnsName z.name = true := by
      rw [isDnsName, hspl, List.all_eq_true]
      refine fun l hl => isNameLabel_of_isLabel (fun c hc => ⟨?_, ?_⟩) (hlab l hl)
      · rw [nameChar, hc, Bool.true_or, Bool.true_or, Bool.true_or]
      · rintro rfl
        exact absurd hc (by decide)
    refine ⟨hdns, fun hmem => ?_⟩
    exact absurd (isSpace_of_nameChar (mem_isDnsName hdns hmem)) (by decide)
  · -- `$` lets a final newline through
    right
    rw [hname]
    exact mem_append_right _ (mem_singleton_self _)

/-! ### Rows -/

theorem patched {α : Type} {Q : α → Prop} {f : α → Option α} {patch new : Patch α} {old a : α}
    (htra : patch.traverse f = some new) (hreq : new.required old = some a)
    (hf : ∀ b c, f b = some c → Q c) (hold : Q old) : Q a := by
  cases patch with
  | unset =>
    cases htra
    exact some_inj.mp hreq ▸ hold
  | null =>
    cases htra
    simp [Patch.required] at hreq
  | value b =>
    obtain ⟨c, hc, rfl⟩ := map_eq_some_iff.mp htra
    exact some_inj.mp hreq ▸ hf b c hc

/-- A row that the API or the DDNS bridge has written. -/
structure RowOk (r : DnsRecord) : Prop where
  name : Named r.name
  data : strip r.data = r.data

section Rows

variable {P : Python} (hP : LowersNames P.toCaseMap) {db db' : ZoneDb} {u : User} {zoneId id : Str}

include hP

theorem rowOk_createRecord {p : RecordIn} (h : createRecord P db u zoneId id p = some db') :
    ∃ r, RowOk r ∧ r.id = id ∧ id ∉ db.issued ∧ db'.records = db.records ++ [r] ∧
      validateRecordSemantics P r.recordType r.data r.priority = true := by
  rw [createRecord] at h
  split at h
  · rename_i zone name data hzone hname hdata
    obtain ⟨⟨-, hsem, -, -, hid⟩, rfl⟩ := ite_some_none_eq_some.mp h
    exact ⟨_, ⟨named_relativeOwner hP (given_of_recordName hname) _,
      strip_of_validateRecordField hdata⟩, rfl, hid, rfl, hsem⟩
  · simp at h

theorem RowOk.apply {r row : DnsRecord} (hr : RowOk r) {p : RecordUpdate} {zone : DnsZone}
    (h : p.apply P.toCaseMap zone r = some row) : RowOk row := by
  simp only [RecordUpdate.apply, bind_eq_bind, bind_eq_some_iff, Option.pure_def, some_inj] at h
  obtain ⟨_, hname, name, hnew, _, -, _, hdata, data, hnewD, _, -, rfl⟩ := h
  refine ⟨named_relativeOwner hP ?_ _, ?_⟩
  · exact patched hname hnew (fun _ _ hgiv => given_of_recordName hgiv) hr.name.given
  · show strip data = data
    exact patched (Q := fun data => strip data = data) hdata hnewD
      (fun _ _ hfie => strip_of_validateRecordField hfie) hr.data

theorem rowOk_updateRecord {p : RecordUpdate} (h : updateRecord P db u zoneId id p = some db')
    (hrows : ∀ r ∈ db.records, RowOk r) :
    ∃ row, RowOk row ∧ row.id = id ∧ db'.records = replaceRow (·.id) id row db.records ∧
      validateRecordSemantics P row.recordType row.data row.priority = true := by
  rw [updateRecord] at h
  split at h
  · rename_i zone r hzone hfind
    split at h
    · simp at h
    · rename_i row happ
      obtain ⟨⟨-, hsem, -⟩, rfl⟩ := ite_some_none_eq_some.mp h
      have hr := hrows r (mem_of_find?_eq_some hfind)
      have hid : r.id = id := by
        have hmch := find?_some hfind
        simp only [Bool.and_eq_true, decide_eq_true_eq] at hmch
        exact hmch.1
      exact ⟨row, hr.apply hP happ, (RecordUpdate.apply_same happ).id.symm.trans hid, rfl,
        hsem⟩
  · simp at h

/-- **A request** leaves only such rows. -/
theorem rowOk_request {req : Request} (h : db.apply P req = some db')
    (hrows : ∀ r ∈ db.records, RowOk r) : ∀ r ∈ db'.records, RowOk r := by
  have hscs : ∀ f rows, (db.withScopes rows f).records = db.records := by
    intro f rows
    cases f <;> rfl
  -- only the two record endpoints write names and data
  cases req with
  | createZone =>
    obtain ⟨z, -, -, -, -, rfl⟩ := createZone_eq_some h
    exact hrows
  | updateZone =>
    obtain ⟨z, -, row, -, -, -, -, -, rfl⟩ := updateZone_eq_some h
    exact hrows
  | deleteZone | deleteRecord =>
    obtain ⟨-, rfl⟩ := ite_some_none_eq_some.mp h
    exact forall_filter hrows _
  | createRecord =>
    obtain ⟨r, hr, -, -, hrec, -⟩ := rowOk_createRecord hP h
    rw [hrec]
    exact forall_concat hrows hr
  | updateRecord =>
    obtain ⟨row, hrow, -, hrec, -⟩ := rowOk_updateRecord hP h hrows
    rw [hrec]
    exact forall_replaceRow hrow hrows
  | createScope | deleteScope =>
    obtain ⟨-, rfl⟩ := ite_some_none_eq_some.mp h
    simpa only [hscs] using hrows
  | updateScope =>
    simp only [ZoneDb.apply, updateScope] at h
    split at h
    · simp at h
    · split at h
      · simp at h
      · obtain ⟨-, rfl⟩ := ite_some_none_eq_some.mp h
        simpa only [hscs] using hrows

end Rows

end Control.Zones

namespace Control.Ddns

variable {name ip : Str} {job : Job} {effect : Effect}

open Zones

/-! ### Events -/

theorem getLast?_strip (s : Str) {c : Char} (h : (strip s).getLast? = some c) :
    isSpace c = false := by
  rw [strip] at h
  have hne : (s.dropWhile isSpace).rdropWhile isSpace ≠ [] := by
    intro hnil
    rw [hnil] at h
    simp at h
  rw [getLast?_eq_some_getLast hne, some_inj] at h
  rw [← h]
  simpa using rdropWhile_last_not isSpace (s.dropWhile isSpace) hne

theorem named_of_ddnsNameRe (hstr : strip name = name) (h : ddnsNameRe name = true) :
    Named name := by
  have hlabe : ∀ l, ddnsLabel l = true → isNameLabel l = true := by
    refine fun l hl => isNameLabel_of_isLabel (fun c hc => ⟨?_, ?_⟩) hl
    · have haln : isAlnumIgnoreCase c = true := by
        rw [isAlnumIgnoreCase, hc, Bool.true_or, Bool.true_or, Bool.true_or, Bool.true_or]
      rw [nameChar, haln, Bool.true_or, Bool.true_or, Bool.true_or]
    · rintro rfl
      exact absurd hc (by decide)
  rw [ddnsNameRe, Bool.or_eq_true, Bool.and_eq_true, beq_iff_eq] at h
  rcases h with h | ⟨hlast, -⟩
  · rw [ddnsName, Bool.or_eq_true, decide_eq_true_eq] at h
    refine h.imp_right fun hlab => ?_
    rw [isDnsName, List.all_eq_true]
    exact fun l hl => hlabe l (List.all_eq_true.mp hlab l hl)
  · rw [← hstr] at hlast
    exact absurd (getLast?_strip name hlast) (by decide)

/-- What an event is about to write. -/
def EffectOk : Effect → Prop
  | .insert name ip => Named name ∧ strip ip = ip
  | .update _ data => strip data = data
  | .skip | .delete _ => True

def PhaseOk : Phase → Prop
  | .zoned job _ name ip => job.kind = .upsert → Named name ∧ strip ip = ip
  | .ready _ _ _ _ effect => EffectOk effect
  | .idle | .scoped _ | .done => True

theorem Job.target_ok {zone : DnsZone} (hkind : job.kind = .upsert)
    (h : job.target zone = some (name, ip)) : Named name ∧ strip ip = ip := by
  simp only [Job.target, hkind] at h
  obtain ⟨-, h⟩ := ite_none_left_eq_some.mp h
  simp only [bind_eq_bind, bind_eq_some_iff] at h
  obtain ⟨name', hname, ip', hip, h⟩ := h
  obtain ⟨⟨-, hre⟩, heq⟩ := ite_some_none_eq_some.mp h
  cases heq
  exact ⟨named_of_ddnsNameRe (strip_of_validateRecordField hname) hre,
    strip_of_validateRecordField hip⟩

theorem Job.Decides.effectOk {rows : List DnsRecord} (h : job.Decides name ip rows effect)
    (hok : job.kind = .upsert → Named name ∧ strip ip = ip) : EffectOk effect := by
  cases h with
  | @found r hkind hr hmat =>
    rw [Job.upsert]
    split
    · trivial
    · split
      · exact (hok hkind).2
      · trivial
  | missing hkind => exact hok hkind
  | remove => trivial

theorem EffectOk.apply {newId : Str} {db db' : ZoneDb} (heff : EffectOk effect)
    (h : job.apply newId db effect = some db') (hrows : ∀ r ∈ db.records, RowOk r) :
    ∀ r ∈ db'.records, RowOk r := by
  rcases Job.apply_cases h with ⟨-, rfl⟩ | ⟨r, hr, data, rfl, rfl⟩ | ⟨name, ip, rfl, -, -, rfl⟩ |
    ⟨ids, -, rfl⟩
  · exact hrows
  · exact forall_replaceRow ⟨(hrows r hr).name, heff⟩ hrows
  · exact forall_concat hrows ⟨heff.1, heff.2⟩
  · exact forall_filter hrows _

variable {ι : Type} [DecidableEq ι] {P : Python} {events : ι → DhcpEvent} {s t : State ι}

/-- **A step** leaves only such rows. -/
theorem Step.rowOk (hP : LowersNames P.toCaseMap) (h : Step P events s t)
    (hrows : ∀ r ∈ s.db.records, RowOk r) (hph : ∀ i, PhaseOk (s.phase i)) :
    (∀ r ∈ t.db.records, RowOk r) ∧ ∀ i, PhaseOk (t.phase i) := by
  have hset : ∀ i p, PhaseOk p → ∀ j, PhaseOk ((s.set i p).phase j) := by
    intro i p hp j
    by_cases hj : j = i
    · rw [hj, State.set_phase]
      exact hp
    · have hoth : (s.set i p).phase j = s.phase j := Function.update_of_ne hj ..
      rw [hoth]
      exact hph j
  cases h with
  | request h => exact ⟨rowOk_request hP h hrows, hph⟩
  | @scope i job h hjob | @ignore i h hjob | @refuse i job h hzone
  | @rollback i job zone name seen effect h => exact ⟨hrows, hset i _ trivial⟩
  | @zone i job zone name ip h hzone hid htar =>
    exact ⟨hrows, hset i _ fun hkind => Job.target_ok hkind htar⟩
  | @rows i job zone name ip effect h heff =>
    have hzon := hph i
    rw [h] at hzon
    exact ⟨hrows, hset i _ (heff.effectOk hzon)⟩
  | @commit i job zone name newId seen effect db h hdb =>
    have hrdy := hph i
    rw [h] at hrdy
    exact ⟨EffectOk.apply hrdy hdb hrows, hset i _ trivial⟩

/-- **Every reachable table** has only such rows. -/
theorem reachable_rowOk (hP : LowersNames P.toCaseMap) {tenants : List Str} {db : ZoneDb}
    (h : Reachable P tenants db) : ∀ r ∈ db.records, RowOk r := by
  obtain ⟨events, s, hrun, rfl⟩ := h
  have hall : (∀ r ∈ s.db.records, RowOk r) ∧ ∀ i, PhaseOk (s.phase i) := by
    induction hrun with
    | refl => exact ⟨fun r hr => absurd hr not_mem_nil, fun _ => trivial⟩
    | tail _ hstep ih => exact hstep.rowOk hP ih.1 ih.2
  exact hall.1

end Control.Ddns
