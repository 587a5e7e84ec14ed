/-
IPv6 addresses as text: what the standard library writes, it reads back.

An address is written with its longest run of zero groups left out, and read by
filling up around the `::`.  The two meet in the middle: the groups before the run
and those after it are read back one by one, and the run is what is missing to
eight.

* `parseGroup_groupText`, `parseGroupRun_groupsText` — groups, and groups in a row;
* `longestZeros_spec` — the run that is left out consists of zeros;
* `parseIpv6_ipv6Text` — an address;
* `not_mem_of_parseIpv6` — a text with any other character, such as the slash of a
  delegated net, is none.
-/
import MantisDns.Addresses

open Text List
open Option hiding join

namespace Dns

variable {n : ℕ} {c : Char} {gs groups : List ℕ} {z : Span}

/-! ### Groups -/

theorem hexDigit_digitChar : ∀ n < 16, hexDigit (Nat.digitChar n) = some n := by decide

theorem foldl_groupText (n : ℕ) :
    (groupText n).foldl (fun n c => n.bind fun n => (hexDigit c).map (16 * n + ·)) (some 0) =
      some n := by
  induction n using Nat.strong_induction_on with
  | _ n ih =>
    rw [groupText, Nat.toDigits_eq_if (by decide)]
    split
    · rename_i hlt
      simp [hexDigit_digitChar n hlt]
    · have hrest := ih (n / 16) (by omega)
      rw [groupText] at hrest
      rw [foldl_append, hrest]
      simp only [foldl_cons, foldl_nil, bind_some,
        hexDigit_digitChar (n % 16) (Nat.mod_lt _ (by decide)), map_some, some_inj]
      omega

theorem isSome_hexDigit_groupText (h : c ∈ groupText n) :
    (hexDigit c).isSome := by
  induction n using Nat.strong_induction_on with
  | _ n ih =>
    rw [groupText, Nat.toDigits_eq_if (by decide)] at h
    split at h
    · rename_i hlt
      rw [mem_singleton.mp h, hexDigit_digitChar n hlt]
      rfl
    · rcases mem_append.mp h with h | h
      · exact ih (n / 16) (by omega) h
      · rw [mem_singleton.mp h, hexDigit_digitChar _ (Nat.mod_lt _ (by decide))]
        rfl

theorem groupText_ne_nil (n : ℕ) : groupText n ≠ [] := by
  rw [groupText, Nat.toDigits_eq_if (by decide)]
  split <;> simp

/-- **One group is read back.** -/
theorem parseGroup_groupText (h : n < 65536) : parseGroup (groupText n) = some n := by
  have hlength : (groupText n).length ≤ 4 :=
    (Nat.length_toDigits_le_iff (by decide) (by decide)).mpr h
  rw [parseGroup, if_neg (by simp [groupText_ne_nil, hlength]), foldl_groupText]

theorem parseGroups_map_groupText (h : ∀ g ∈ gs, g < 65536) :
    parseGroups (gs.map groupText) = some gs := by
  induction gs with
  | nil => rfl
  | cons g gs ih =>
    obtain ⟨hg, hgs⟩ := forall_mem_cons.mp h
    cases gs with
    | nil => simp [parseGroups, parseGroup_groupText hg]
    | cons =>
      have hrest := ih hgs
      rw [map_cons, map_cons, parseGroups, parseGroup_groupText hg, bind_some, ← map_cons, hrest]
      · rfl
      · simp

theorem splitOn_groupsText (hne : gs ≠ []) :
    (groupsText gs).splitOn ':' = gs.map groupText := by
  refine splitOn_intercalate ':' ?_ (by simpa using hne)
  intro part hpart
  obtain ⟨g, -, rfl⟩ := List.mem_map.mp hpart
  intro hmem
  exact absurd (isSome_hexDigit_groupText hmem) (by decide)

theorem groupsText_cons_cons (g g' : ℕ) (gs : List ℕ) :
    groupsText (g :: g' :: gs) = groupText g ++ ':' :: groupsText (g' :: gs) := by
  simp [groupsText, join, intercalate_cons_cons]

theorem groupsText_eq_nil_iff : groupsText gs = [] ↔ gs = [] := by
  match gs with
  | [] => simp [groupsText, join]
  | [g] => simp [groupsText, join, groupText_ne_nil]
  | g :: g' :: gs => simp [groupsText_cons_cons]

/-- **Groups in a row are read back.** -/
theorem parseGroupRun_groupsText (h : ∀ g ∈ gs, g < 65536) :
    parseGroupRun (groupsText gs) = some gs := by
  rw [parseGroupRun]
  by_cases hne : gs = []
  · subst hne
    rfl
  · rw [if_neg (mt groupsText_eq_nil_iff.mp hne), splitOn_groupsText hne,
      parseGroups_map_groupText h]

theorem not_mem_groupsText (hc : hexDigit c = none) (hcol : c ≠ ':') :
    c ∉ groupsText gs := by
  intro h
  rcases mem_join h with hsep | ⟨part, hmem, hpart⟩
  · exact hcol (mem_singleton.mp hsep)
  · obtain ⟨g, -, rfl⟩ := List.mem_map.mp hmem
    have hsome := isSome_hexDigit_groupText hpart
    rw [hc] at hsome
    simp at hsome

/-! ### The double colon -/

theorem splitDoubleColon_append {a s : Str} (h : ':' ∉ a) :
    splitDoubleColon (a ++ s) = (splitDoubleColon s).map fun p => (a ++ p.1, p.2) := by
  induction a with
  | nil => simp
  | cons c a ih =>
    obtain ⟨hc, ha⟩ := not_or.mp (mt mem_cons.mpr h)
    have hstep : splitDoubleColon (c :: (a ++ s)) =
        (splitDoubleColon (a ++ s)).map fun p => (c :: p.1, p.2) := by
      rw [splitDoubleColon]
      rintro rest rfl
      exact absurd rfl hc
    rw [cons_append, hstep, ih ha, Option.map_map]
    rfl

theorem not_colon_groupText (n : ℕ) : ':' ∉ groupText n := fun hmem =>
  absurd (isSome_hexDigit_groupText hmem) (by decide)

theorem splitDoubleColon_colon (g : ℕ) (s : Str) :
    splitDoubleColon (':' :: (groupText g ++ s)) =
      (splitDoubleColon (groupText g ++ s)).map fun p => (':' :: p.1, p.2) := by
  obtain ⟨c, rest, hg⟩ := exists_cons_of_ne_nil (groupText_ne_nil g)
  have hc : c ≠ ':' := fun heq => not_colon_groupText g (by simp [hg, heq])
  rw [hg, cons_append, splitDoubleColon]
  intro rest' _ heq
  exact hc (List.cons.inj heq).1

theorem exists_groupsText_cons (g : ℕ) (gs : List ℕ) :
    ∃ rest, groupsText (g :: gs) = groupText g ++ rest := by
  cases gs with
  | nil => exact ⟨[], by simp [groupsText, join]⟩
  | cons g' gs => exact ⟨_, groupsText_cons_cons g g' gs⟩

theorem splitDoubleColon_groupsText_append (gs : List ℕ) (s : Str) :
    splitDoubleColon (groupsText gs ++ s) =
      (splitDoubleColon s).map fun p => (groupsText gs ++ p.1, p.2) := by
  match gs with
  | [] => simp [groupsText, join]
  | [g] =>
    have hone : groupsText [g] = groupText g := by simp [groupsText, join]
    rw [hone, splitDoubleColon_append (not_colon_groupText g)]
  | g :: g' :: gs =>
    have ih := splitDoubleColon_groupsText_append (g' :: gs) s
    obtain ⟨rest, hrest⟩ := exists_groupsText_cons g' gs
    have hcol : splitDoubleColon (':' :: (groupsText (g' :: gs) ++ s)) =
        (splitDoubleColon (groupsText (g' :: gs) ++ s)).map fun p => (':' :: p.1, p.2) := by
      rw [hrest, append_assoc, splitDoubleColon_colon]
    rw [groupsText_cons_cons, append_assoc, splitDoubleColon_append (not_colon_groupText g),
      cons_append, hcol, ih, Option.map_map, Option.map_map]
    simp [Function.comp_def]

theorem splitDoubleColon_groupsText (gs : List ℕ) : splitDoubleColon (groupsText gs) = none := by
  have h := splitDoubleColon_groupsText_append gs []
  rwa [append_nil] at h

theorem splitDoubleColon_groupsText_colons (gs : List ℕ) (s : Str) :
    splitDoubleColon (groupsText gs ++ ':' :: ':' :: s) = some (groupsText gs, s) := by
  rw [splitDoubleColon_groupsText_append]
  simp [splitDoubleColon]

/-! ### The run of zeros -/

/-- A run of zero groups. -/
def Span.Zeros (groups : List ℕ) (z : Span) : Prop :=
  ∃ before after, groups = before ++ List.replicate z.len 0 ++ after ∧ before.length = z.start

theorem Span.Zeros.append (h : z.Zeros groups) (more : List ℕ) :
    z.Zeros (groups ++ more) := by
  obtain ⟨before, after, rfl, hlength⟩ := h
  exact ⟨before, after ++ more, by simp, hlength⟩

/-- The run that the scan is in, with one more zero. -/
def Span.extend (z : Span) (index : ℕ) : Span :=
  if z.len = 0 then ⟨index, 1⟩ else ⟨z.start, z.len + 1⟩

/-- One group of the scan. -/
def scanGroup (acc : Span × Span) (group : ℕ × ℕ) : Span × Span :=
  if group.1 = 0 then
    (if acc.1.len < (acc.2.extend group.2).len then acc.2.extend group.2 else acc.1,
      acc.2.extend group.2)
  else (acc.1, ⟨0, 0⟩)

/-- A run of zeros at the end. -/
def Span.Ends (groups : List ℕ) (z : Span) : Prop :=
  ∃ before, groups = before ++ List.replicate z.len 0 ∧ before.length = z.start

theorem Span.Ends.extend (h : z.len = 0 ∨ z.Ends groups) :
    (z.extend groups.length).Ends (groups ++ [0]) := by
  rw [Span.extend]
  split
  · exact ⟨groups, rfl, rfl⟩
  · rename_i hlen
    obtain ⟨before, hgs, hlength⟩ := h.resolve_left hlen
    refine ⟨before, ?_, hlength⟩
    rw [replicate_succ', ← append_assoc, ← hgs]

theorem Span.Ends.zeros (h : z.Ends groups) : z.Zeros groups := by
  obtain ⟨before, hgs, hlength⟩ := h
  exact ⟨before, [], by rwa [append_nil], hlength⟩

/-- The scan keeps two runs of zeros, of which the second one reaches to where it
is. -/
structure Scanned (groups : List ℕ) (acc : Span × Span) : Prop where
  best : acc.1.Zeros groups
  current : acc.2.len = 0 ∨ acc.2.Ends groups

theorem Scanned.step {acc : Span × Span} (h : Scanned groups acc) (g : ℕ) :
    Scanned (groups ++ [g]) (scanGroup acc (g, groups.length)) := by
  rw [scanGroup]
  by_cases hg : g = 0
  · subst hg
    have hcur := Span.Ends.extend h.current
    rw [if_pos rfl]
    refine ⟨?_, .inr hcur⟩
    by_cases hlon : acc.1.len < (acc.2.extend groups.length).len
    · rw [if_pos hlon]
      exact hcur.zeros
    · rw [if_neg hlon]
      exact Span.Zeros.append h.best _
  · rw [if_neg hg]
    exact ⟨Span.Zeros.append h.best _, .inl rfl⟩

theorem scanned_foldl (groups : List ℕ) :
    Scanned groups (groups.zipIdx.foldl scanGroup (⟨0, 0⟩, ⟨0, 0⟩)) := by
  induction groups using List.reverseRecOn with
  | nil => exact ⟨⟨[], [], rfl, rfl⟩, .inl rfl⟩
  | append_singleton groups g ih =>
    rw [zipIdx_append, foldl_append]
    simpa using ih.step g

/-- **The run that is left out consists of zeros.** -/
theorem longestZeros_spec (groups : List ℕ) : (longestZeros groups).Zeros groups :=
  (scanned_foldl groups).best

/-! ### Addresses -/

theorem segments_lt {ip : BitVec 128} {g : ℕ} (h : g ∈ segments ip) : g < 65536 := by
  obtain ⟨i, -, rfl⟩ := List.mem_map.mp h
  exact Nat.mod_lt _ (by decide)

theorem foldl_segments (ip : BitVec 128) :
    (segments ip).foldl (fun n g => 65536 * n + g) 0 = ip.toNat := by
  have hip : ip.toNat < 2 ^ 128 := ip.isLt
  have hgs : segments ip = [ip.toNat / 65536 ^ 7 % 65536, ip.toNat / 65536 ^ 6 % 65536,
      ip.toNat / 65536 ^ 5 % 65536, ip.toNat / 65536 ^ 4 % 65536, ip.toNat / 65536 ^ 3 % 65536,
      ip.toNat / 65536 ^ 2 % 65536, ip.toNat / 65536 ^ 1 % 65536,
      ip.toNat / 65536 ^ 0 % 65536] := rfl
  rw [hgs]
  simp only [foldl_cons, foldl_nil]
  omega

theorem length_segments (ip : BitVec 128) : (segments ip).length = 8 := rfl

theorem ofNat_foldl_segments (ip : BitVec 128) :
    BitVec.ofNat 128 ((segments ip).foldl (fun n g => 65536 * n + g) 0) = ip := by
  rw [foldl_segments, BitVec.ofNat_toNat, BitVec.setWidth_eq]

section Groups

variable {groups : List ℕ} (hlength : groups.length = 8) (hlt : ∀ g ∈ groups, g < 65536)

include hlength hlt

theorem parseIpv6_groupsText :
    parseIpv6 (groupsText groups) =
      some (BitVec.ofNat 128 (groups.foldl (fun n g => 65536 * n + g) 0)) := by
  have hne : groups ≠ [] := fun h => by simp [h] at hlength
  simp only [parseIpv6, splitDoubleColon_groupsText, splitOn_groupsText hne,
    parseGroups_map_groupText hlt, filter_some, hlength, decide_true, if_true, map_some]

theorem parseIpv6_of_zeros (hz : z.Zeros groups) (hlen : 0 < z.len) :
    parseIpv6 (groupsText (groups.take z.start) ++ "::" ++
        groupsText (groups.drop (z.start + z.len))) =
      some (BitVec.ofNat 128 (groups.foldl (fun n g => 65536 * n + g) 0)) := by
  obtain ⟨before, after, rfl, hsta⟩ := hz
  have htake : (before ++ List.replicate z.len 0 ++ after).take z.start = before := by
    rw [append_assoc, take_left' hsta]
  have hdrop : (before ++ List.replicate z.len 0 ++ after).drop (z.start + z.len) = after :=
    drop_left' (by simp [hsta])
  have hspl : splitDoubleColon (groupsText before ++ "::" ++ groupsText after) =
      some (groupsText before, groupsText after) := by
    rw [append_assoc]
    exact splitDoubleColon_groupsText_colons before (groupsText after)
  have hdot : (groupsText before).contains '.' = false := by
    have hnot : '.' ∉ groupsText before := not_mem_groupsText (by decide) (by decide)
    simpa using hnot
  have hbef : parseGroupRun (groupsText before) = some before :=
    parseGroupRun_groupsText fun g hg => hlt g (by simp [hg])
  have haft : parseGroupRun (groupsText after) = some after :=
    parseGroupRun_groupsText fun g hg => hlt g (by simp [hg])
  simp only [length_append, length_replicate] at hlength
  -- eight groups in all, so the gap is as long as the run of zeros
  have hfill : 8 - before.length - after.length = z.len := by omega
  rw [htake, hdrop]
  simp only [parseIpv6, hspl, hdot, hbef, haft, bind_some, hfill]
  rw [if_neg (by decide), if_pos (by omega)]
  rfl

end Groups

variable {ip : UInt32} {c : Char} {s : Str}

theorem mem_ipv4Text (h : c ∈ ipv4Text ip) :
    c = '.' ∨ c.isDigit = true := by
  have hpart : ∀ n, c ∈ natText n → c.isDigit = true := fun n hn =>
    Nat.isDigit_of_mem_toDigits (by decide) (by decide) hn
  rcases mem_join h with hsep | ⟨part, hmem, hc⟩
  · exact .inl (mem_singleton.mp hsep)
  · obtain ⟨n, -, rfl⟩ := List.mem_map.mp hmem
    exact .inr (hpart n hc)

theorem dot_mem_ipv4Text (ip : UInt32) : '.' ∈ ipv4Text ip := by
  simp [ipv4Text, octets, join, intercalate_cons_cons]

theorem parseGroup_eq_none (hmem : c ∈ s) (hc : hexDigit c = none) :
    parseGroup s = none := by
  have hfold : ∀ acc : Option ℕ,
      s.foldl (fun n c => n.bind fun n => (hexDigit c).map (16 * n + ·)) acc = none := by
    induction s with
    | nil => simp at hmem
    | cons d s ih =>
      intro acc
      rw [foldl_cons]
      rcases mem_cons.mp hmem with rfl | hmem
      · -- nothing is read after a character that is no digit
        have hnone : (acc.bind fun n => (hexDigit c).map (16 * n + ·)) = none := by
          cases acc <;> simp [hc]
        rw [hnone]
        clear ih hmem
        induction s with
        | nil => rfl
        | cons d s ih => exact ih
      · exact ih hmem _
  rw [parseGroup]
  split
  · rfl
  · exact hfold _

theorem parseIpv6_mapped (ip : UInt32) :
    parseIpv6 ("::ffff:".toList ++ ipv4Text ip) =
      some (BitVec.ofNat 128 (0xFFFF * 2 ^ 32 + ip.toNat)) := by
  have hspl : splitDoubleColon ("::ffff:".toList ++ ipv4Text ip) =
      some ([], "ffff:".toList ++ ipv4Text ip) := rfl
  have hcol : ':' ∉ ipv4Text ip := fun hmem => absurd (mem_ipv4Text hmem) (by decide)
  -- `::` comes first, so all groups are after it
  have hpar : ("ffff:".toList ++ ipv4Text ip).splitOn ':' = ["ffff".toList, ipv4Text ip] := by
    have hjoin : "ffff:".toList ++ ipv4Text ip =
        [':'].intercalate ["ffff".toList, ipv4Text ip] := by
      simp [intercalate_cons_cons]
    rw [hjoin]
    refine splitOn_intercalate ':' ?_ (by simp)
    rintro part hpart
    rcases mem_pair.mp hpart with rfl | rfl
    · decide
    · exact hcol
  have htail : parseGroupRun ("ffff:".toList ++ ipv4Text ip) =
      some [0xFFFF, ip.toNat / 65536, ip.toNat % 65536] := by
    have hffff : parseGroup "ffff".toList = some 0xFFFF := by decide
    have hquad : parseGroups [ipv4Text ip] = some [ip.toNat / 65536, ip.toNat % 65536] := by
      simp only [parseGroups, parseGroup_eq_none (dot_mem_ipv4Text ip) rfl, parseIpv4_ipv4Text,
        map_some]
    rw [parseGroupRun, if_neg (by simp), hpar, parseGroups, hffff, hquad]
    · rfl
    · simp
  have hval : [0, 0, 0, 0, 0, 0xFFFF, ip.toNat / 65536, ip.toNat % 65536].foldl
      (fun n g => 65536 * n + g) 0 = 0xFFFF * 2 ^ 32 + ip.toNat := by
    simp only [foldl_cons, foldl_nil]
    omega
  rw [← hval]
  simp only [parseIpv6, hspl, htail]
  rfl

/-- **What is written is read back.** -/
theorem parseIpv6_ipv6Text (ip : BitVec 128) : parseIpv6 (ipv6Text ip) = some ip := by
  rw [ipv6Text]
  split
  · rename_i hmap
    have hlow : (UInt32.ofNat ip.toNat).toNat = ip.toNat % 2 ^ 32 := UInt32.toNat_ofNat'
    rw [parseIpv6_mapped, hlow, ← hmap, Nat.div_add_mod', BitVec.ofNat_toNat, BitVec.setWidth_eq]
  · have hlength := length_segments ip
    have hlt : ∀ g ∈ segments ip, g < 65536 := fun g => segments_lt
    simp only
    split
    · rename_i hlen
      rw [parseIpv6_of_zeros hlength hlt (longestZeros_spec _) (by omega), ofNat_foldl_segments]
    · rw [parseIpv6_groupsText hlength hlt, ofNat_foldl_segments]

/-! ### What is no address -/

/-- A character that stands in no address. -/
def Foreign (c : Char) : Prop := hexDigit c = none ∧ c ≠ ':' ∧ c ≠ '.'

theorem not_mem_of_parseIpv4 (hc : Foreign c) (h : parseIpv4 s = some ip) : c ∉ s := by
  intro hmem
  rw [eq_ipv4Text_of_parseIpv4 h] at hmem
  rcases mem_ipv4Text hmem with rfl | hdig
  · exact hc.2.2 rfl
  · exact absurd hc.1 (by simp [hexDigit, hdig])

theorem not_mem_of_parseGroups {parts : List Str} {gs : List ℕ} (hc : Foreign c)
    (h : parseGroups parts = some gs) : ∀ part ∈ parts, c ∉ part := by
  induction parts generalizing gs with
  | nil => exact fun part hpart => absurd hpart not_mem_nil
  | cons part parts ih =>
    cases parts with
    | nil =>
      intro p hp hmem
      obtain rfl := mem_singleton.mp hp
      rw [parseGroups, parseGroup_eq_none hmem hc.1] at h
      obtain ⟨ip, hip, -⟩ := map_eq_some_iff.mp h
      exact not_mem_of_parseIpv4 hc hip hmem
    | cons =>
      rw [parseGroups, bind_eq_some_iff] at h
      · obtain ⟨g, hg, hrest⟩ := h
        obtain ⟨rest, hrest, -⟩ := map_eq_some_iff.mp hrest
        refine forall_mem_cons.mpr ⟨fun hmem => ?_, ih hrest⟩
        rw [parseGroup_eq_none hmem hc.1] at hg
        exact nomatch hg
      · simp

theorem not_mem_of_splitOn (hcol : c ≠ ':') (h : ∀ part ∈ s.splitOn ':', c ∉ part) : c ∉ s := by
  intro hmem
  have hjoin : [':'].intercalate (s.splitOn ':') = s := intercalate_splitOn ':'
  rw [← hjoin] at hmem
  rcases mem_join hmem with hsep | ⟨part, hpart, hc⟩
  · exact hcol (mem_singleton.mp hsep)
  · exact h part hpart hc

theorem not_mem_of_parseGroupRun (hc : Foreign c) (h : parseGroupRun s = some gs) :
    c ∉ s := by
  rw [parseGroupRun] at h
  split at h
  · rename_i hnil
    rw [hnil]
    exact not_mem_nil
  · exact not_mem_of_splitOn hc.2.1 (not_mem_of_parseGroups hc h)

theorem eq_of_splitDoubleColon {head tail : Str} (h : splitDoubleColon s = some (head, tail)) :
    s = head ++ ':' :: ':' :: tail := by
  fun_induction splitDoubleColon s generalizing head with
  | case1 =>
    cases h
    rfl
  | case2 c rest hne ih =>
    obtain ⟨⟨head', tail'⟩, hrest, heq⟩ := map_eq_some_iff.mp h
    cases heq
    rw [ih hrest]
    rfl
  | case3 => exact nomatch h

/-- **A text with any other character is no address.** -/
theorem not_mem_of_parseIpv6 {ip : BitVec 128} (hc : Foreign c) (h : parseIpv6 s = some ip) :
    c ∉ s := by
  obtain ⟨gs, hgs, -⟩ := map_eq_some_iff.mp h
  cases hspl : splitDoubleColon s with
  | none =>
    simp only [hspl] at hgs
    exact not_mem_of_splitOn hc.2.1
      (not_mem_of_parseGroups hc (filter_eq_some_iff.mp hgs).1)
  | some parts =>
    obtain ⟨head, tail⟩ := parts
    simp only [hspl] at hgs
    split at hgs
    · exact nomatch hgs
    · obtain ⟨hs, hhead, hgs⟩ := bind_eq_some_iff.mp hgs
      obtain ⟨ts, htail, -⟩ := bind_eq_some_iff.mp hgs
      rw [eq_of_splitDoubleColon hspl, mem_append, mem_cons, mem_cons]
      rintro (hmem | hmem | hmem | hmem)
      · exact not_mem_of_parseGroupRun hc hhead hmem
      · exact hc.2.1 hmem
      · exact hc.2.1 hmem
      · exact not_mem_of_parseGroupRun hc htail hmem

end Dns
