/-
What `ZoneStore::publish` stores, and which names `lookup` denies.

The maps of the published data are described by the entries they come from,
first one entry at a time and then for the whole list.

* `publish_isSome` — when `publish` completes;
* `chunkTxt_lossless` — what `chunk_txt` makes of the data of a TXT record;
* `exists_record_publish` — every record that can be built is stored under its
  owner name;
* `nxdomain_sound` — what the absence of a name means for the published owners,
  and `builtin_denies_tenant_parent` is where that is less than RFC 8020 asks.
-/
import MantisDns.Zone

open Text Dns Function List
open Option hiding le_min or_assoc

namespace Node.Zone

variable {zone s t : Str} {start : ℕ}

/-! ### Names below a name -/

theorem isSubdomainOf_iff {name : Str} :
    isSubdomainOf name zone = true ↔ ('.' :: zone) <:+ name :=
  isSuffixOf_iff_suffix

theorem inZone_iff {name : Str} :
    inZone name zone = true ↔ name = zone ∨ ('.' :: zone) <:+ name := by
  rw [inZone, Bool.or_eq_true, beq_iff_eq, isSubdomainOf_iff]

theorem afterDot_eq_none (h : afterDot s = none) : ¬('.' :: t) <:+ s := by
  induction s with
  | nil => simp
  | cons c s ih =>
    rw [afterDot] at h
    split at h
    · simp at h
    · rename_i hc
      rw [suffix_cons_iff, not_or]
      exact ⟨fun heq => hc (List.cons.inj heq).1.symm, ih h⟩

theorem afterDot_eq_some {next : Str} (h : afterDot s = some next) :
    ('.' :: t) <:+ s ↔ t = next ∨ ('.' :: t) <:+ next := by
  induction s with
  | nil => simp [afterDot] at h
  | cons c s ih =>
    rw [afterDot] at h
    rw [suffix_cons_iff]
    split at h
    · -- the first dot
      rename_i hc
      rw [some_inj] at h
      subst h hc
      rw [cons_inj_right]
    · rename_i hc
      rw [← ih h]
      exact ⟨fun hs => hs.resolve_left fun heq => hc (List.cons.inj heq).1.symm, .inr⟩

theorem afterDot_append {label rest : Str} (h : '.' ∉ label) :
    afterDot (label ++ '.' :: rest) = some rest := by
  induction label with
  | nil => simp [afterDot]
  | cons c label ih =>
    rw [mem_cons, not_or] at h
    rw [cons_append, afterDot, if_neg (Ne.symm h.1), ih h.2]

theorem strLen_append (s t : Str) : strLen (s ++ t) = strLen s + strLen t := by
  simp [strLen, utf8]

theorem strLen_le_of_suffix (h : s <:+ t) : strLen s ≤ strLen t := by
  obtain ⟨u, rfl⟩ := h
  rw [strLen_append]
  omega

theorem strLen_cons_dot (s : Str) : strLen ('.' :: s) = strLen s + 1 := by
  rw [show '.' :: s = ['.'] ++ s from rfl, strLen_append, Nat.add_comm]
  rfl

theorem strLen_lt_of_below (h : ('.' :: s) <:+ t) : strLen s < strLen t := by
  have := strLen_le_of_suffix h
  rw [strLen_cons_dot] at this
  omega

theorem mem_strictAncestors {a owner : Str} :
    a ∈ strictAncestors owner zone ↔ ('.' :: a) <:+ owner ∧ strLen zone < strLen a := by
  fun_induction strictAncestors owner zone with
  | case1 owner h => simp [afterDot_eq_none h]
  | case2 owner next h hle =>
    simp only [not_mem_nil, false_iff, not_and, not_lt]
    intro ha
    rcases (afterDot_eq_some h).mp ha with rfl | ha
    · exact hle
    · exact (strLen_lt_of_below ha).le.trans hle
  | case3 owner next h hlt ih =>
    rw [mem_cons, ih, afterDot_eq_some h]
    constructor
    · rintro (rfl | ⟨ha, hlen⟩)
      · exact ⟨.inl rfl, by omega⟩
      · exact ⟨.inr ha, hlen⟩
    · rintro ⟨rfl | ha, hlen⟩
      · exact .inl rfl
      · exact .inr ⟨ha, hlen⟩

/-! ### The longest zone -/

theorem longestMatch_spec {zones : List Str} {name zone : Str}
    (h : longestMatch zones name = some zone) :
    zone ∈ zones ∧ inZone name zone = true ∧
      ∀ z ∈ zones, inZone name z = true → strLen z ≤ strLen zone := by
  obtain ⟨hmem, hle⟩ := LongestMatch.maxByKey_spec h
  obtain ⟨hzone, hin⟩ := mem_filter.mp hmem
  exact ⟨hzone, hin, fun z hz hinz => hle z (mem_filter.mpr ⟨hz, hinz⟩)⟩

/-! ### The slices of `chunk_txt` -/

/-- A character is encoded in at most four bytes, and all but the first are
continuation bytes. -/
theorem utf8EncodeChar_bytes (c : Char) :
    ∃ b rest, String.utf8EncodeChar c = b :: rest ∧ rest.length ≤ 3 ∧ b &&& 0xC0 ≠ 0x80 ∧
      ∀ x ∈ rest, x &&& 0xC0 = 0x80 := by
  have hlead : ∀ n < 256, n < 128 ∨ 192 ≤ n → UInt8.ofNat n &&& 0xC0 ≠ 0x80 := by decide +kernel
  have hnext : ∀ n, UInt8.ofNat (n % 64 + 128) &&& 0xC0 = 0x80 := by
    have : ∀ n < 64, UInt8.ofNat (n + 128) &&& 0xC0 = 0x80 := by decide +kernel
    exact fun n => this _ (Nat.mod_lt _ (by decide))
  simp only [String.utf8EncodeChar]
  split_ifs <;> refine ⟨_, _, rfl, by simp, hlead _ (by omega) (by omega), ?_⟩ <;>
    simp only [forall_mem_cons, hnext, not_mem_nil, false_imp_iff, implies_true, and_self]

theorem utf8_cons (c : Char) (s : Str) : utf8 (c :: s) = String.utf8EncodeChar c ++ utf8 s := by
  rw [utf8, flatMap_cons]
  rfl

theorem strLen_cons (c : Char) (s : Str) : strLen (c :: s) = c.utf8Size + strLen s := by
  rw [strLen, utf8_cons, length_append, String.length_utf8EncodeChar, strLen]

theorem isCharBoundary_iff {i : ℕ} :
    isCharBoundary (utf8 s) i = true ↔ ∃ a b, s = a ++ b ∧ strLen a = i := by
  constructor
  · intro h
    induction s generalizing i with
    | nil =>
      simp only [isCharBoundary, utf8, flatMap_nil, length_nil, Bool.or_self,
        getElem?_nil, any_none, Bool.or_false, beq_iff_eq] at h
      exact ⟨[], [], rfl, h.symm⟩
    | cons c s ih =>
      obtain ⟨b, rest, henc, -, -, hrest⟩ := utf8EncodeChar_bytes c
      have hsize := String.length_utf8EncodeChar c
      rw [utf8_cons] at h
      rw [henc] at h hsize
      simp only [isCharBoundary, Bool.or_eq_true, beq_iff_eq, length_append] at h ih
      rcases h with (rfl | hend) | hbyte
      · exact ⟨[], c :: s, rfl, rfl⟩
      · exact ⟨c :: s, [], (append_nil _).symm, by rw [strLen_cons, hend, hsize, strLen]⟩
      by_cases hlt : i < c.utf8Size
      · -- within the character only its start is a boundary
        cases i with
        | zero => exact ⟨[], c :: s, rfl, rfl⟩
        | succ =>
          obtain ⟨x, hx, hne⟩ := (Option.any_eq_true _ _).mp hbyte
          rw [getElem?_append_left (hsize ▸ hlt), getElem?_cons_succ] at hx
          simp [hrest x (mem_of_getElem? hx)] at hne
      · rw [getElem?_append_right (by omega), hsize] at hbyte
        obtain ⟨a, b', rfl, hlen⟩ := ih (.inr hbyte)
        exact ⟨c :: a, b', rfl, by rw [strLen_cons, hlen]; omega⟩
  · rintro ⟨a, b, rfl, rfl⟩
    cases b with
    | nil => simp [isCharBoundary, strLen]
    | cons c b =>
      -- the byte after `a` starts a character
      obtain ⟨lead, rest, henc, -, hlead, -⟩ := utf8EncodeChar_bytes c
      have hbyte : (utf8 (a ++ c :: b))[strLen a]? = some lead := by
        rw [utf8, flatMap_append, ← utf8, ← utf8, utf8_cons, henc, strLen,
          getElem?_append_right le_rfl]
        simp
      rw [isCharBoundary, hbyte]
      simp [hlead]

theorem exists_isCharBoundary (h : start < strLen s) :
    ∃ e, start < e ∧ e ≤ start + 4 ∧ e ≤ strLen s ∧ isCharBoundary (utf8 s) e = true := by
  have hends : ∃ a b, s = a ++ b ∧ start < strLen a ∧ strLen a ≤ start + 4 := by
    induction s generalizing start with
    | nil => simp [strLen, utf8] at h
    | cons c s ih =>
      have hsize := c.utf8Size_le_four
      rw [strLen_cons] at h
      -- the position is in the first character, or after it
      by_cases hin : start < c.utf8Size
      · exact ⟨[c], s, rfl, by simpa [strLen, utf8] using hin, by simp [strLen, utf8]; omega⟩
      · obtain ⟨a, b, rfl, hlt, hle⟩ := @ih (start - c.utf8Size) (by omega)
        exact ⟨c :: a, b, rfl, by rw [strLen_cons]; omega, by rw [strLen_cons]; omega⟩
  obtain ⟨a, b, rfl, hlt, hle⟩ := hends
  refine ⟨strLen a, hlt, hle, ?_, isCharBoundary_iff.mpr ⟨a, b, rfl, rfl⟩⟩
  rw [strLen_append]
  omega

theorem backUp_spec (bytes : List UInt8) (start e : ℕ) :
    (backUp bytes start e ≤ start ∨ isCharBoundary bytes (backUp bytes start e) = true) ∧
      ∀ k ≤ e, start < k → isCharBoundary bytes k = true → k ≤ backUp bytes start e := by
  induction e with
  | zero => exact ⟨.inl (Nat.zero_le _), fun k hk hlt => by omega⟩
  | succ e ih =>
    rw [backUp]
    split
    · rename_i hback
      simp only [Bool.and_eq_true, decide_eq_true_eq, Bool.not_eq_true'] at hback
      refine ⟨ih.1, fun k hk hlt hbd => ih.2 k ?_ hlt hbd⟩
      have hne : k ≠ e + 1 := by
        rintro rfl
        rw [hback.2] at hbd
        simp at hbd
      omega
    · rename_i hback
      simp only [Bool.and_eq_true, decide_eq_true_eq, Bool.not_eq_true', not_and,
        Bool.not_eq_false] at hback
      refine ⟨?_, fun k hk _ _ => hk⟩
      by_cases hgt : e + 1 > start
      · exact .inr (hback hgt)
      · exact .inl (by omega)

/-- **Slices of `chunk_txt`** end between characters, so that none panics. -/
theorem isCharBoundary_chunkEnd (h : start < strLen s) :
    isCharBoundary (utf8 s) (chunkEnd (utf8 s) start) = true := by
  obtain ⟨k, hlt, hle, hlen, hbd⟩ := exists_isCharBoundary h
  have hlim : k ≤ min (start + 255) (utf8 s).length := le_min (by omega) hlen
  obtain ⟨hend, hmax⟩ := backUp_spec (utf8 s) start (min (start + 255) (utf8 s).length)
  have hk := hmax k hlim hlt hbd
  simp only [chunkEnd]
  rw [if_neg (by omega)]
  exact hend.resolve_left (by omega)

theorem backUp_le (bytes : List UInt8) (start e : ℕ) : backUp bytes start e ≤ e := by
  fun_induction backUp bytes start e <;> omega

theorem chunkEnd_le (bytes : List UInt8) (start : ℕ) : chunkEnd bytes start ≤ start + 255 := by
  have := backUp_le bytes start (min (start + 255) bytes.length)
  simp only [chunkEnd]
  split <;> omega

/-- `data[start..end]`, which panics where no character ends. -/
def slice (bytes : List UInt8) (start e : ℕ) : Option (List UInt8) :=
  if start ≤ e ∧ isCharBoundary bytes start ∧ isCharBoundary bytes e then
    some ((bytes.take e).drop start)
  else none

/-- The loop of `chunk_txt`, where a slice can panic. -/
def chunkLoopSliced (bytes : List UInt8) (start : ℕ) : Option (List (List UInt8)) :=
  if _h : start < bytes.length then do
    let chunk ← slice bytes start (chunkEnd bytes start)
    let chunks ← chunkLoopSliced bytes (chunkEnd bytes start)
    return chunk :: chunks
  else some []
  termination_by bytes.length - start
  decreasing_by
    have := lt_chunkEnd ‹start < bytes.length›
    omega

/-- `chunk_txt`, where a slice can panic. -/
def chunkTxtSliced (data : Str) : Option (List (List UInt8)) :=
  if strLen data ≤ 255 then some [utf8 data] else chunkLoopSliced (utf8 data) 0

theorem chunkLoopSliced_spec (a b : Str) :
    ∃ chunks : List Str, chunkLoopSliced (utf8 (a ++ b)) (strLen a) = some (chunks.map utf8) ∧
      chunkLoop (utf8 (a ++ b)) (strLen a) = chunks.map utf8 ∧ chunks.flatten = b ∧
      ∀ c ∈ chunks, strLen c ≤ 255 ∧ c ≠ [] := by
  induction hn : b.length using Nat.strong_induction_on generalizing a b with
  | _ n ih =>
    rw [chunkLoopSliced, chunkLoop]
    by_cases hlt : strLen a < (utf8 (a ++ b)).length
    · have hcut := isCharBoundary_chunkEnd hlt
      obtain ⟨a', b', heq, hlen⟩ := isCharBoundary_iff.mp hcut
      have hsta : strLen a < chunkEnd (utf8 (a ++ b)) (strLen a) := lt_chunkEnd hlt
      have hend := chunkEnd_le (utf8 (a ++ b)) (strLen a)
      -- `m` is the chunk, between two boundaries
      obtain ⟨m, rfl, rfl⟩ : ∃ m, a' = a ++ m ∧ b = m ++ b' := by
        rcases append_eq_append_iff.mp heq with ⟨m, ha, hb⟩ | ⟨m, ha, -⟩
        · exact ⟨m, ha, hb⟩
        · have := congrArg strLen ha
          rw [strLen_append] at this
          omega
      have hchu : ((utf8 (a ++ (m ++ b'))).take (strLen (a ++ m))).drop (strLen a) = utf8 m := by
        simp [utf8, strLen, ← append_assoc]
      have hslic : slice (utf8 (a ++ (m ++ b'))) (strLen a) (strLen (a ++ m)) = some (utf8 m) := by
        rw [slice, if_pos ⟨by omega, isCharBoundary_iff.mpr ⟨a, _, rfl, rfl⟩, hlen ▸ hcut⟩, hchu]
      rw [← hlen, strLen_append] at hsta hend
      -- `lt_chunkEnd`: the loop moves on
      have hne : m ≠ [] := by
        rintro rfl
        simp [strLen, utf8] at hsta
      obtain ⟨chunks, hsli, hloop, hflat, hall⟩ := ih b'.length
        (by rw [← hn, length_append]; have := length_pos_iff.mpr hne; omega)
        (a ++ m) b' rfl
      rw [append_assoc] at hsli hloop
      rw [dif_pos hlt, dif_pos hlt, ← hlen, hslic, hchu, hloop]
      refine ⟨m :: chunks, by simp [hsli], rfl, by rw [flatten_cons, hflat], ?_⟩
      exact forall_mem_cons.mpr ⟨⟨by omega, hne⟩, hall⟩
    · rw [dif_neg hlt, dif_neg hlt]
      -- at the end nothing is left
      refine ⟨[], rfl, rfl, ?_, nofun⟩
      cases b with
      | nil => rfl
      | cons c =>
        have := c.utf8Size_pos
        rw [← strLen, strLen_append, strLen_cons] at hlt
        omega

/-- **`chunk_txt` splits losslessly**: no slice panics, and the chunks are strings of at
most 255 bytes that together are the input. -/
theorem chunkTxt_lossless (data : Str) :
    ∃ chunks : List Str, chunkTxtSliced data = some (chunks.map utf8) ∧
      chunkTxt data = chunks.map utf8 ∧ chunks.flatten = data ∧
      ∀ c ∈ chunks, strLen c ≤ 255 ∧ (data ≠ [] → c ≠ []) := by
  rw [chunkTxtSliced, chunkTxt]
  split
  · rename_i hsho
    exact ⟨[data], rfl, rfl, by simp, by simpa using hsho⟩
  · obtain ⟨chunks, hsli, hloop, hflat, hall⟩ := chunkLoopSliced_spec [] data
    exact ⟨chunks, hsli, hloop, hflat, fun c hc => ⟨(hall c hc).1, fun _ => (hall c hc).2⟩⟩

/-! ### The maps, entry by entry -/

section Publish

variable {H : Hickory} {entries : List LocalZoneRecordDto} {data : ZoneData}
variable {p : ZoneData → Prop} {q : LocalZoneRecordDto → Prop} {m : StrMap (List Record)}
  {key k z : Str} {record : Option Record} {e : LocalZoneRecordDto}

theorem foldl_publishEntry_iff (hstep : ∀ d e, p (publishEntry H d e) ↔ p d ∨ q e)
    (l : List LocalZoneRecordDto) (data : ZoneData) :
    p (l.foldl (publishEntry H) data) ↔ p data ∨ ∃ e ∈ l, q e := by
  induction l generalizing data with
  | nil => simp
  | cons e l ih =>
    rw [foldl_cons, ih, hstep, or_assoc]
    simp only [mem_cons, exists_eq_or_imp]

/-- The records that can be built of the entries with this owner, in their order. -/
def bucket (H : Hickory) (entries : List LocalZoneRecordDto) (owner : Str) : List Record :=
  (entries.filter fun e => normalize e.name = owner).filterMap (buildRecord H)

/-- Some entry has this owner. -/
def HasEntry (entries : List LocalZoneRecordDto) (owner : Str) : Prop :=
  ∃ e ∈ entries, normalize e.name = owner

instance (entries : List LocalZoneRecordDto) (owner : Str) : Decidable (HasEntry entries owner) :=
  inferInstanceAs (Decidable (∃ e ∈ entries, normalize e.name = owner))

theorem mem_bucket {owner : Str} {r : Record} :
    r ∈ bucket H entries owner ↔
      ∃ e ∈ entries, normalize e.name = owner ∧ buildRecord H e = some r := by
  simp only [bucket, mem_filterMap, mem_filter, decide_eq_true_eq, and_assoc]

theorem bucket_cons (e : LocalZoneRecordDto) (entries : List LocalZoneRecordDto) (owner : Str) :
    bucket H (e :: entries) owner =
      (if normalize e.name = owner then (buildRecord H e).toList else []) ++
        bucket H entries owner := by
  rw [bucket, bucket, filter_cons]
  by_cases hown : normalize e.name = owner
  · rw [if_pos (decide_eq_true hown), if_pos hown, filterMap_cons]
    cases buildRecord H e <;> rfl
  · rw [if_neg (by simpa using hown), if_neg hown, nil_append]

variable {owner : Str}

theorem bucket_of_not_hasEntry (h : ¬HasEntry entries owner) :
    bucket H entries owner = [] := by
  rw [bucket, filter_eq_nil_iff.mpr, filterMap_nil]
  intro e he hown
  exact h ⟨e, he, of_decide_eq_true hown⟩

theorem records_foldl (l : List LocalZoneRecordDto) (data : ZoneData) (k : Str) :
    (l.foldl (publishEntry H) data).records k =
      if HasEntry l k then some ((data.records k).getD [] ++ bucket H l k) else data.records k := by
  induction l generalizing data with
  | nil => rw [foldl_nil, if_neg (by simp [HasEntry])]
  | cons e l ih =>
    have hent : HasEntry (e :: l) k ↔ normalize e.name = k ∨ HasEntry l k := by
      simp only [HasEntry, mem_cons, exists_eq_or_imp]
    have hpush : (publishEntry H data e).records k =
        if normalize e.name = k then some ((data.records k).getD [] ++ (buildRecord H e).toList)
        else data.records k := by
      show StrMap.push data.records (normalize e.name) (buildRecord H e) k = _
      by_cases hk : normalize e.name = k
      · rw [if_pos hk, hk, StrMap.push, update_self]
      · rw [if_neg hk, StrMap.push, update_of_ne (Ne.symm hk)]
    rw [foldl_cons, ih, hpush, bucket_cons]
    simp only [hent]
    by_cases hk : normalize e.name = k
    · -- the entry's own name: the key is there from now on
      by_cases hl : HasEntry l k
      · simp [hk, hl]
      · simp [hk, hl, bucket_of_not_hasEntry hl]
    · simp [hk]

theorem wildcards_foldl (l : List LocalZoneRecordDto) (data : ZoneData) (k : Str) :
    (l.foldl (publishEntry H) data).wildcards k =
      if bucket H l ("*." ++ k) = [] then data.wildcards k
      else some ((data.wildcards k).getD [] ++ bucket H l ("*." ++ k)) := by
  induction l generalizing data with
  | nil => rw [foldl_nil, if_pos (by simp [bucket])]
  | cons e l ih =>
    have hpush : (publishEntry H data e).wildcards k =
        (if normalize e.name = "*." ++ k then buildRecord H e else none).elim (data.wildcards k)
          fun r => some ((data.wildcards k).getD [] ++ [r]) := by
      simp only [publishEntry]
      cases hstr : stripPrefix "*." (normalize e.name) with
      | none =>
        have hne : normalize e.name ≠ "*." ++ k := by
          intro heq
          rw [stripPrefix_eq_some.mpr heq] at hstr
          simp at hstr
        rw [if_neg hne, elim_none]
      | some suffix =>
        rw [stripPrefix_eq_some] at hstr
        cases hrec : buildRecord H e with
        | none => simp
        | some =>
          by_cases hk : suffix = k
          · rw [if_pos (by rw [hstr, hk]), hk]
            exact update_self ..
          · rw [if_neg (by rw [hstr, append_cancel_left_eq]; exact hk)]
            exact update_of_ne (Ne.symm hk) ..
    rw [foldl_cons, ih, hpush, bucket_cons]
    by_cases hk : normalize e.name = "*." ++ k
    · rw [if_pos hk, if_pos hk]
      cases buildRecord H e with
      | none => rfl
      | some =>
        by_cases hl : bucket H l ("*." ++ k) = []
        · rw [if_pos hl, hl]
          simp
        · rw [if_neg hl]
          simp
    · rw [if_neg hk, if_neg hk]
      simp

theorem isSome_apexSoa_publishEntry :
    ((publishEntry H data e).apexSoa z).isSome ↔
      (data.apexSoa z).isSome ∨ normalize e.zone = z ∧ normalize e.name = z ∧
        ∃ r, buildRecord H e = some r ∧ r.recordType = .soa := by
  simp only [publishEntry]
  cases hrec : buildRecord H e with
  | none => simp
  | some =>
    dsimp only
    split
    · rename_i hsoa
      rw [hsoa.2]
      by_cases hz : z = normalize e.zone
      · subst hz
        simp [hsoa.1]
      · rw [update_of_ne hz]
        simp [Ne.symm hz]
    · rename_i hsoa
      constructor
      · exact .inl
      · rintro (h | ⟨rfl, hown, r', hr', htype⟩)
        · exact h
        · rw [← some_inj.mp hr'] at htype
          exact absurd ⟨htype, hown⟩ hsoa

/-! ### The maps of a whole list -/

theorem fillApexSoa_isSome {zones : List Str} {apexSoa : StrMap Record} :
    (fillApexSoa H zones apexSoa).isSome ↔
      ∀ z ∈ zones, (apexSoa z).isSome ∨ (synthesizeSoa H z).isSome := by
  induction zones generalizing apexSoa with
  | nil => simp [fillApexSoa]
  | cons zone zones ih =>
    rw [fillApexSoa, forall_mem_cons]
    cases hzone : apexSoa zone with
    | some => simp [ih]
    | none =>
      cases hsoa : synthesizeSoa H zone with
      | none => simp
      | some =>
        simp only [bind_eq_bind, bind_some, ih, isSome_none, isSome_some, or_true, true_and]
        refine forall₂_congr fun z _ => ?_
        -- the zone that was filled in could have been synthesized anyway
        by_cases hz : z = zone
        · subst hz
          simp [hsoa]
        · rw [update_of_ne hz]

/-- The data before the zones get their SOA. -/
def collected (H : Hickory) (entries : List LocalZoneRecordDto) : ZoneData :=
  entries.foldl (publishEntry H) { ZoneData.empty with
    zones := ((entries.map fun e => normalize e.zone).insertionSort (· ≤ ·)).dedup }

theorem collected_iff (hemp : ∀ zones, ¬p { ZoneData.empty with zones })
    (hstep : ∀ d e, p (publishEntry H d e) ↔ p d ∨ q e) :
    p (collected H entries) ↔ ∃ e ∈ entries, q e := by
  rw [collected, foldl_publishEntry_iff hstep]
  exact or_iff_right (hemp _)

theorem zones_foldl_publishEntry (l : List LocalZoneRecordDto) (data : ZoneData) :
    (l.foldl (publishEntry H) data).zones = data.zones := by
  induction l generalizing data with
  | nil => rfl
  | cons e l ih =>
    rw [foldl_cons, ih]
    rfl

theorem mem_zones_collected :
    z ∈ (collected H entries).zones ↔ ∃ e ∈ entries, normalize e.zone = z := by
  rw [collected, zones_foldl_publishEntry, mem_dedup, mem_insertionSort, List.mem_map]

theorem publish_eq (H : Hickory) (entries : List LocalZoneRecordDto) :
    publish H entries =
      (fillApexSoa H (collected H entries).zones (collected H entries).apexSoa).map fun apexSoa =>
        { collected H entries with apexSoa } := by
  rw [show (collected H entries).zones = _ from zones_foldl_publishEntry _ _]
  show Option.bind (fillApexSoa H _ (collected H entries).apexSoa) _ = _
  cases fillApexSoa H _ (collected H entries).apexSoa <;> rfl

/-- **When `publish` completes**: every zone has a SOA of its own that can be
built, or one can be synthesized. -/
theorem publish_isSome :
    (publish H entries).isSome ↔ ∀ e ∈ entries,
      (∃ e' ∈ entries, normalize e'.zone = normalize e.zone ∧ normalize e'.name = normalize e.zone ∧
        ∃ r, buildRecord H e' = some r ∧ r.recordType = .soa) ∨
      (synthesizeSoa H (normalize e.zone)).isSome := by
  have hapex (z : Str) : ((collected H entries).apexSoa z).isSome ↔ ∃ e' ∈ entries,
      normalize e'.zone = z ∧ normalize e'.name = z ∧
        ∃ r, buildRecord H e' = some r ∧ r.recordType = .soa := by
    exact collected_iff (p := fun d => (d.apexSoa z).isSome) (by simp [ZoneData.empty])
      fun d e => isSome_apexSoa_publishEntry
  rw [publish_eq, isSome_map, fillApexSoa_isSome]
  simp only [mem_zones_collected, hapex, forall_exists_index, and_imp]
  exact ⟨fun h e he => h _ e he rfl, fun h z e he hz => hz ▸ h e he⟩

variable (hpub : publish H entries = some data)

include hpub

theorem publish_collected : ∃ apexSoa, data = { collected H entries with apexSoa } := by
  rw [publish_eq, map_eq_some_iff] at hpub
  obtain ⟨apexSoa, -, rfl⟩ := hpub
  exact ⟨apexSoa, rfl⟩

theorem mem_zones_publish : z ∈ data.zones ↔ ∃ e ∈ entries, normalize e.zone = z := by
  obtain ⟨_, rfl⟩ := publish_collected hpub
  exact mem_zones_collected

/-- **The records under a name** are those of its entries. -/
theorem records_publish (k : Str) :
    data.records k = if HasEntry entries k then some (bucket H entries k) else none := by
  obtain ⟨_, rfl⟩ := publish_collected hpub
  exact records_foldl entries _ k

/-- **The records of a wildcard** are those under its owner name. -/
theorem wildcards_publish (k : Str) :
    data.wildcards k =
      if bucket H entries ("*." ++ k) = [] then none
      else some (bucket H entries ("*." ++ k)) := by
  obtain ⟨_, rfl⟩ := publish_collected hpub
  exact wildcards_foldl entries _ k

theorem isSome_records_publish : (data.records k).isSome ↔ HasEntry entries k := by
  rw [records_publish hpub]
  split_ifs with hent <;> simp [hent]

/-- A record of the map. -/
def Holds (m : StrMap (List Record)) (k : Str) (r : Record) : Prop := ∃ rs, m k = some rs ∧ r ∈ rs

/-- **Every record that can be built** is stored under its owner name. -/
theorem exists_record_publish (he : e ∈ entries) {r : Record} (hr : buildRecord H e = some r) :
    Holds data.records (normalize e.name) r :=
  ⟨_, (records_publish hpub _).trans (if_pos ⟨e, he, rfl⟩), mem_bucket.mpr ⟨e, he, rfl, hr⟩⟩

theorem wildcards_publish_ne_none (he : e ∈ entries) (hown : normalize e.name = "*." ++ k)
    (hbui : (buildRecord H e).isSome) : data.wildcards k ≠ none := by
  obtain ⟨r, hr⟩ := isSome_iff_exists.mp hbui
  have hmem := mem_bucket.mpr ⟨e, he, hown, hr⟩
  rw [wildcards_publish hpub, if_neg (ne_nil_of_mem hmem)]
  simp

theorem mem_ancestors_publish {a : Str} :
    a ∈ data.ancestors ↔
      ∃ e ∈ entries, ('.' :: a) <:+ normalize e.name ∧ strLen (normalize e.zone) < strLen a := by
  obtain ⟨_, rfl⟩ := publish_collected hpub
  refine collected_iff (p := fun d => a ∈ d.ancestors) (by simp [ZoneData.empty]) fun d e => ?_
  rw [← mem_strictAncestors]
  exact mem_append

end Publish

/-! ### Names that do not exist -/

section Nxdomain

variable {H : Hickory} {entries : List LocalZoneRecordDto} {data : ZoneData} {qname : Str}
  {qtype : RecordType} {soa : Option Record}
variable {recs : List Record} {soa' : Option Record} {zone : Str}

theorem lookupRecords_ne_nxDomain :
    lookupRecords H data recs qtype soa' ≠ .nxDomain soa := by
  simp only [lookupRecords]
  split_ifs <;> simp

theorem lookupWildcard_ne_nxDomain :
    lookupWildcard H data recs qname qtype soa' ≠ .nxDomain soa := by
  simp only [lookupWildcard]
  split_ifs <;> simp

theorem lookupInZone_nxDomain (h : lookupInZone H data qname zone qtype = .nxDomain soa) :
    data.records qname = none ∧ qname ∉ data.ancestors ∧
      ∀ parent, afterDot qname = some parent → strLen zone ≤ strLen parent →
        data.wildcards parent = none := by
  rw [lookupInZone] at h
  split at h
  · exact absurd h lookupRecords_ne_nxDomain
  · rename_i hrec
    split_ifs at h with hanc
    refine ⟨hrec, hanc, fun parent hpar hlen => ?_⟩
    rw [hpar, filter_some, decide_eq_true hlen, if_pos rfl] at h
    dsimp only at h
    split at h
    · assumption
    · exact absurd h lookupWildcard_ne_nxDomain

/-- The name is a direct child of what the wildcard stands for. -/
def CoveredBy (name wildcard : Str) : Prop :=
  ∃ label parent, '.' ∉ label ∧ name = label ++ '.' :: parent ∧ wildcard = "*." ++ parent

theorem CoveredBy.below {name wildcard : Str} (h : CoveredBy name wildcard)
    (hzone : isSubdomainOf wildcard zone = true) : isSubdomainOf name zone = true := by
  obtain ⟨label, parent, hlab, rfl, rfl⟩ := h
  rw [isSubdomainOf_iff, show "*." ++ parent = "*" ++ '.' :: parent from rfl,
    afterDot_eq_some (afterDot_append (by decide))] at hzone
  rw [isSubdomainOf_iff, afterDot_eq_some (afterDot_append hlab)]
  exact hzone

/-- **What an NXDOMAIN says about the published names**: no owner name equals the
query, none lies below it in a zone that the query itself lies below, and unless
the query is the apex of a zone, no wildcard below its zone that has a record
covers it. -/
theorem nxdomain_sound (hpub : publish H entries = some data)
    (hentries : ∀ e ∈ entries, inZone (normalize e.name) (normalize e.zone) = true)
    (h : lookup H data qname qtype = .nxDomain soa) :
    (∀ e ∈ entries, normalize e.name ≠ normalize qname) ∧
      (∀ e ∈ entries, isSubdomainOf (normalize qname) (normalize e.zone) = true →
        isSubdomainOf (normalize e.name) (normalize qname) = false) ∧
      ((∀ e ∈ entries, normalize e.zone ≠ normalize qname) →
        ∀ e ∈ entries, (buildRecord H e).isSome →
          isSubdomainOf (normalize e.name) (normalize e.zone) = true →
          ¬CoveredBy (normalize qname) (normalize e.name)) := by
  rw [lookup] at h
  -- a name in the zone of some entry is looked up in a tenant zone
  have hloc : ∀ e ∈ entries, inZone (normalize qname) (normalize e.zone) = true →
      ∃ zone ∈ data.zones, inZone (normalize qname) zone = true ∧
        lookupInZone H data (normalize qname) zone qtype = .nxDomain soa := by
    intro e he hin
    cases hz : longestMatch data.zones (normalize qname) with
    | none =>
      have := longestMatch_eq_none.mp hz _ ((mem_zones_publish hpub).mpr ⟨e, he, rfl⟩)
      rw [this] at hin
      simp at hin
    | some zone =>
      simp only [hz] at h
      exact ⟨zone, (longestMatch_spec hz).1, (longestMatch_spec hz).2.1, h⟩
  have hbel : ∀ e ∈ entries, isSubdomainOf (normalize qname) (normalize e.zone) = true →
      inZone (normalize qname) (normalize e.zone) = true := by
    intro e _ hsub
    rw [inZone, hsub, Bool.or_true]
  refine ⟨fun e he heq => ?_, fun e he hsub => ?_, fun hapex e he hbui hwild hcov => ?_⟩
  · obtain ⟨zone, -, -, hnx⟩ := hloc e he (heq ▸ hentries e he)
    have hsome := (isSome_records_publish hpub).mpr ⟨e, he, heq⟩
    rw [(lookupInZone_nxDomain hnx).1] at hsome
    simp at hsome
  · obtain ⟨zone, -, -, hnx⟩ := hloc e he (hbel e he hsub)
    rw [← Bool.not_eq_true, isSubdomainOf_iff]
    intro hown
    exact (lookupInZone_nxDomain hnx).2.1 ((mem_ancestors_publish hpub).mpr
      ⟨e, he, hown, strLen_lt_of_below (isSubdomainOf_iff.mp hsub)⟩)
  · obtain ⟨zone, hzone, hin, hnx⟩ := hloc e he (hbel e he (hcov.below hwild))
    obtain ⟨label, parent, hlab, hname, hown⟩ := hcov
    have hpar : afterDot (normalize qname) = some parent := by
      rw [hname, afterDot_append hlab]
    -- the zone is not the name itself, so it is no longer than the parent
    have hlen : strLen zone ≤ strLen parent := by
      rcases inZone_iff.mp hin with heq | hsub
      · obtain ⟨e', he', hz'⟩ := (mem_zones_publish hpub).mp hzone
        exact absurd (hz'.trans heq.symm) (hapex e' he')
      · rcases (afterDot_eq_some hpar).mp hsub with rfl | hsub
        · exact le_rfl
        · exact (strLen_lt_of_below hsub).le
    exact wildcards_publish_ne_none hpub he hown hbui
      ((lookupInZone_nxDomain hnx).2.2 parent hpar hlen)

end Nxdomain

/-! ### A parser with the limits of the wire format -/

/-- The octets of a label; one with white space has no wire form. -/
def wireOctets (l : Str) : ℕ := if l.any isSpace then 64 else strLen l

/-- A parser that reads no escapes. -/
def wireParse (s : Str) : Option Name :=
  let isFqdn := s.getLast? = some '.'
  let labels := (if isFqdn then s.dropLast else s).splitOn '.'
  if (∀ l ∈ labels, l ≠ [] ∧ wireOctets l ≤ 63) ∧
      1 + (labels.map (wireOctets · + 1)).sum ≤ 255 then
    some ⟨labels.map utf8, isFqdn⟩
  else none

def wirePrint (name : Name) : Str := name.labels.flatMap fun label => labelText label ++ ['.']

def wireHickory : Hickory := ⟨wirePrint, wirePrint, wireParse, wireParse⟩

/-- A host in a tenant zone under the special-use suffix `local`. -/
def sampleHosts : List LocalZoneRecordDto :=
  [⟨"www.corp.local", "corp.local", .a, 300, "10.0.0.5", none⟩,
    ⟨"*.apps.corp.local", "corp.local", .a, 300, "10.0.0.6", none⟩]

theorem nxdomain_sound_sampleHosts :
    ∃ data, publish wireHickory sampleHosts = some data ∧
      lookup wireHickory data "ftp.corp.local." .a =
        .nxDomain (data.apexSoa "corp.local") ∧
      (∀ e ∈ sampleHosts, normalize e.name ≠ normalize "ftp.corp.local.") ∧
      ∀ e ∈ sampleHosts, (buildRecord wireHickory e).isSome →
        isSubdomainOf (normalize e.name) (normalize e.zone) = true →
        ¬CoveredBy (normalize "ftp.corp.local.") (normalize e.name) := by
  obtain ⟨data, hdata, hlk⟩ : ∃ data, publish wireHickory sampleHosts = some data ∧
      lookup wireHickory data "ftp.corp.local." .a = .nxDomain (data.apexSoa "corp.local") := by
    decide +kernel
  obtain ⟨hown, -, hwild⟩ := nxdomain_sound hdata (by decide) hlk
  exact ⟨data, hdata, hlk, hown, hwild (by decide)⟩

/-- The suffix `local` is denied, with `www.corp.local` below it. -/
theorem builtin_denies_tenant_parent :
    ∃ data, publish wireHickory sampleHosts = some data ∧
      (∃ soa, lookup wireHickory data "local." .a = .nxDomain soa) ∧
      ∃ e ∈ sampleHosts, isSubdomainOf (normalize e.name) (normalize "local.") = true := by
  obtain ⟨data, hdata, hnx⟩ : ∃ data, publish wireHickory sampleHosts = some data ∧
      lookup wireHickory data "local." .a = .nxDomain (some (builtinSoa wireHickory "local")) := by
    decide +kernel
  exact ⟨data, hdata, ⟨_, hnx⟩, by decide⟩

end Node.Zone
