/-
Texts of addresses and URLs as Python's `ipaddress` and `urllib.parse` read them.

* `cut`, `rcut` — `str.partition` and `str.rpartition`;
* `ipAddress`, `ipAddress_str` — an address, and reading back what is printed;
* `ipAddress_lowerHost` — the case of the digits does not matter;
* `urlsplit`, `hostname`, `urlunparse` — the parts of a URL, and putting them together;
* `netlocOf_urlunparse`, `hostinfo_v4`, `hostinfo_v6` — a URL that was put together
  with an address as its host has that host.
-/
import MantisDns.Ipv6Text

open Text Dns List Option

namespace Url

variable {c d : Char} {s t addr : Str} {a : IpAddress} {ip : BitVec 128}

/-! ### Cutting a text -/

/-- `str.partition` at a character: what is before it, and what is after it if it occurs. -/
def cut (c : Char) : Str → Str × Option Str
  | [] => ([], none)
  | x :: rest => if x = c then ([], some rest) else (x :: (cut c rest).1, (cut c rest).2)

/-- `str.rpartition`. -/
def rcut (c : Char) (s : Str) : Option Str × Str :=
  match cut c s.reverse with
  | (_, none) => (none, s)
  | (after, some before) => (some before.reverse, after.reverse)

theorem cut_of_not_mem (h : c ∉ s) : cut c s = (s, none) := by
  induction s with
  | nil => rfl
  | cons x rest ih =>
    rw [mem_cons, not_or] at h
    rw [cut, if_neg (Ne.symm h.1), ih h.2]

theorem cut_append (h : c ∉ s) (t : Str) :
    cut c (s ++ c :: t) = (s, some t) := by
  induction s with
  | nil => rw [nil_append, cut, if_pos rfl]
  | cons x rest ih =>
    rw [mem_cons, not_or] at h
    rw [cons_append, cut, if_neg (Ne.symm h.1), ih h.2]

theorem cut_spec (c : Char) (s : Str) : c ∉ (cut c s).1 ∧
    s = (cut c s).1 ++ ((cut c s).2.map (c :: ·)).getD [] := by
  induction s with
  | nil => exact ⟨not_mem_nil, rfl⟩
  | cons x rest ih =>
    rw [cut]
    split
    · rename_i hx
      rw [hx]
      exact ⟨not_mem_nil, rfl⟩
    · rename_i hx
      refine ⟨?_, congrArg (x :: ·) ih.2⟩
      rw [mem_cons, not_or]
      exact ⟨Ne.symm hx, ih.1⟩

theorem mem_of_mem_cut (h : d ∈ (cut c s).1) : d ∈ s := by
  rw [(cut_spec c s).2]
  exact mem_append_left _ h

theorem mem_of_mem_cut_snd (h : (cut c s).2 = some t) (hd : d ∈ t) :
    d ∈ s := by
  rw [(cut_spec c s).2, h]
  exact mem_append_right _ (mem_cons_of_mem c hd)

theorem rcut_of_not_mem (h : c ∉ s) : rcut c s = (none, s) := by
  rw [rcut, cut_of_not_mem (fun hmem => h (mem_reverse.mp hmem))]

theorem rcut_append (h : c ∉ t) (s : Str) :
    rcut c (s ++ c :: t) = (some s, t) := by
  have hrev : (s ++ c :: t).reverse = t.reverse ++ c :: s.reverse := by simp
  rw [rcut, hrev, cut_append (fun hmem => h (mem_reverse.mp hmem))]
  simp only [reverse_reverse]

theorem mem_of_mem_rcut (h : (rcut c s).1 = some t) (hd : d ∈ t) :
    d ∈ s := by
  rw [rcut] at h
  split at h
  · simp at h
  · rename_i after before hcut
    rw [← some_inj.mp h] at hd
    exact mem_reverse.mp (mem_of_mem_cut_snd (congrArg Prod.snd hcut) (mem_reverse.mp hd))

/-! ### `ipaddress` -/

inductive IpAddress
  | v4 (ip : UInt32)
  | v6 (ip : BitVec 128) (scopeId : Option Str)
  deriving DecidableEq

/-- `IPv6Address(s)`: an address, and a scope id behind a percent sign. -/
def ipv6Address (s : Str) : Option IpAddress :=
  match cut '%' s with
  | (addr, none) => (parseIpv6 addr).map fun ip => .v6 ip none
  | (addr, some scopeId) =>
    if scopeId = [] ∨ '%' ∈ scopeId ∨ '/' ∈ scopeId then none
    else (parseIpv6 addr).map fun ip => .v6 ip (some scopeId)

/-- `ipaddress.ip_address(s)`; `none` is its `ValueError`. -/
def ipAddress (s : Str) : Option IpAddress :=
  match parseIpv4 s with
  | some ip => some (.v4 ip)
  | none => ipv6Address s

/-- `IPv6Address._string_from_ip_int`: groups only, also for IPv4-mapped addresses. -/
def hextets (ip : BitVec 128) : Str :=
  let groups := segments ip
  let zeros := longestZeros groups
  if 1 < zeros.len then
    groupsText (groups.take zeros.start) ++ "::" ++
      groupsText (groups.drop (zeros.start + zeros.len))
  else groupsText groups

/-- `str(address)`. -/
def IpAddress.str : IpAddress → Str
  | .v4 ip => ipv4Text ip
  | .v6 ip none => hextets ip
  | .v6 ip (some scopeId) => hextets ip ++ '%' :: scopeId

example : ((ipAddress "::FFFF:127.0.0.1%lo").map (·.str)) =
    some "::ffff:7f00:1%lo" := by decide +kernel

theorem parseIpv6_hextets (ip : BitVec 128) : parseIpv6 (hextets ip) = some ip := by
  have hleng := length_segments ip
  have hlt : ∀ g ∈ segments ip, g < 65536 := fun g => segments_lt
  simp only [hextets]
  split
  · rename_i hlen
    rw [parseIpv6_of_zeros hleng hlt (longestZeros_spec _) (by omega), ofNat_foldl_segments]
  · rw [parseIpv6_groupsText hleng hlt, ofNat_foldl_segments]

theorem colon_mem_hextets (ip : BitVec 128) : ':' ∈ hextets ip := by
  simp only [hextets]
  split
  · exact mem_append_left _ (mem_append_right _ (by decide))
  · obtain ⟨g, g', gs, hseg⟩ : ∃ g g' gs, segments ip = g :: g' :: gs := ⟨_, _, _, rfl⟩
    rw [hseg, groupsText_cons_cons]
    simp

theorem colon_not_mem_of_parseIpv4 {ip : UInt32} (h : parseIpv4 s = some ip) :
    ':' ∉ s := by
  rw [eq_ipv4Text_of_parseIpv4 h]
  exact fun hmem => absurd (mem_ipv4Text hmem) (by decide)

theorem parseIpv4_eq_none (h : ':' ∈ s) : parseIpv4 s = none := by
  cases hpar : parseIpv4 s with
  | none => rfl
  | some => exact absurd h (colon_not_mem_of_parseIpv4 hpar)

theorem foreign_percent : Foreign '%' := ⟨by decide, by decide, by decide⟩

theorem ipAddress_spec (h : ipAddress s = some a) :
    (∃ ip, parseIpv4 s = some ip ∧ a = .v4 ip) ∨
    parseIpv4 s = none ∧ ∃ addr ip, parseIpv6 addr = some ip ∧
      (s = addr ∧ a = .v6 ip none ∨
        ∃ zone, s = addr ++ '%' :: zone ∧ ¬(zone = [] ∨ '%' ∈ zone ∨ '/' ∈ zone) ∧
          a = .v6 ip (some zone)) := by
  rw [ipAddress] at h
  split at h
  · rename_i ip hip
    exact .inl ⟨ip, hip, (some_inj.mp h).symm⟩
  · rename_i hnone
    have hpar := (cut_spec '%' s).2
    rw [ipv6Address] at h
    split at h
    · rename_i addr hcut
      obtain ⟨ip, hip, rfl⟩ := map_eq_some_iff.mp h
      rw [hcut] at hpar
      exact .inr ⟨hnone, addr, ip, hip, .inl ⟨by simpa using hpar, rfl⟩⟩
    · rename_i addr zone hcut
      obtain ⟨hzone, h⟩ := ite_none_left_eq_some.mp h
      obtain ⟨ip, hip, rfl⟩ := map_eq_some_iff.mp h
      rw [hcut] at hpar
      exact .inr ⟨hnone, addr, ip, hip, .inr ⟨zone, hpar, hzone, rfl⟩⟩

theorem ipAddress_of_parseIpv6 (hip : parseIpv6 addr = some ip) (hquad : parseIpv4 addr = none) :
    ipAddress addr = some (.v6 ip none) := by
  simp only [ipAddress, hquad, ipv6Address,
    cut_of_not_mem (not_mem_of_parseIpv6 foreign_percent hip), hip, map_some]

theorem ipAddress_scoped {zone : Str} (hip : parseIpv6 addr = some ip)
    (hzone : ¬(zone = [] ∨ '%' ∈ zone ∨ '/' ∈ zone)) :
    ipAddress (addr ++ '%' :: zone) = some (.v6 ip (some zone)) := by
  have hquad : parseIpv4 (addr ++ '%' :: zone) = none := by
    cases hpar : parseIpv4 (addr ++ '%' :: zone) with
    | none => rfl
    | some => exact absurd (by simp) (not_mem_of_parseIpv4 foreign_percent hpar)
  simp only [ipAddress, hquad, ipv6Address,
    cut_append (not_mem_of_parseIpv6 foreign_percent hip) zone, if_neg hzone, hip, map_some]

/-- **Printing and reading**: `str` of an address that was read is read as that address. -/
theorem ipAddress_str (h : ipAddress s = some a) :
    ipAddress a.str = some a := by
  rcases ipAddress_spec h with ⟨ip, -, rfl⟩ | ⟨-, addr, ip, -, ⟨-, rfl⟩ | ⟨zone, -, hzone, rfl⟩⟩
  · rw [IpAddress.str, ipAddress, parseIpv4_ipv4Text]
  · exact ipAddress_of_parseIpv6 (parseIpv6_hextets ip) (parseIpv4_eq_none (colon_mem_hextets ip))
  · exact ipAddress_scoped (parseIpv6_hextets ip) hzone

/-! ### The case of the digits -/

theorem toLower_of_le (h : 128 ≤ c.toNat) : c.toLower = c := by
  apply char_ext_toNat
  rw [toNat_toLower]
  split <;> omega

theorem toLower_cases {P : Char → Char → Prop}
    (hasc : ∀ n < 128, P (Char.ofNat n) (Char.ofNat n).toLower)
    (hrest : ∀ c, 128 ≤ c.toNat → P c c) (c : Char) : P c c.toLower := by
  by_cases hc : c.toNat < 128
  · have h := hasc c.toNat hc
    rwa [Char.ofNat_toNat] at h
  · rw [toLower_of_le (by omega)]
    exact hrest c (by omega)

theorem hexDigit_toLower (c : Char) : hexDigit c.toLower = hexDigit c :=
  toLower_cases (P := fun c d => hexDigit d = hexDigit c) (by decide +kernel) (fun _ _ => rfl) c

theorem isDigit_toLower (c : Char) : c.toLower.isDigit = c.isDigit :=
  toLower_cases (P := fun c d => d.isDigit = c.isDigit) (by decide +kernel) (fun _ _ => rfl) c

theorem toLower_of_isDigit (h : c.isDigit = true) : c.toLower = c :=
  toLower_cases (P := fun c d => c.isDigit = true → d = c) (by decide +kernel)
    (fun _ _ _ => rfl) c h

theorem toLower_eq_colon (c : Char) : c.toLower = ':' ↔ c = ':' :=
  toLower_cases (P := fun c d => d = ':' ↔ c = ':') (by decide +kernel) (fun _ _ => Iff.rfl) c

theorem toLower_eq_dot (c : Char) : c.toLower = '.' ↔ c = '.' :=
  toLower_cases (P := fun c d => d = '.' ↔ c = '.') (by decide +kernel) (fun _ _ => Iff.rfl) c

theorem splitOn_lowerAscii (hc : ∀ d : Char, d.toLower = c ↔ d = c) (s : Str) :
    (lowerAscii s).splitOn c = (s.splitOn c).map lowerAscii := by
  induction s with
  | nil => rfl
  | cons x rest ih =>
    have hx : (x.toLower == c) = (x == c) := by
      rw [Bool.eq_iff_iff, beq_iff_eq, beq_iff_eq, hc]
    rw [List.splitOn, List.splitOn] at ih
    rw [lowerAscii, map_cons, List.splitOn, List.splitOn, splitOnP_cons_eq_if_modifyHead,
      splitOnP_cons_eq_if_modifyHead, hx, ← lowerAscii, ih]
    split
    · rfl
    · cases List.splitOnP (fun d => d == c) rest <;> rfl

theorem digits_lowerAscii (s : Str) : digits (lowerAscii s) = digits s := by
  by_cases hs : s.all Char.isDigit = true
  · have heq : lowerAscii s = s := by
      rw [lowerAscii]
      refine (map_congr_left fun c hc => ?_).trans (List.map_id s)
      exact toLower_of_isDigit (List.all_eq_true.mp hs c hc)
    rw [heq]
  · have hlow : ¬(lowerAscii s).all Char.isDigit = true := by
      rw [lowerAscii, List.all_map]
      simpa only [Function.comp_def, isDigit_toLower] using hs
    rw [digits, digits, if_neg (fun h => hlow h.2), if_neg (fun h => hs h.2)]

theorem parseOctet_lowerAscii (s : Str) : parseOctet (lowerAscii s) = parseOctet s := by
  have hhead : (lowerAscii s).head? = some '0' ↔ s.head? = some '0' := by
    cases s with
    | nil => exact Iff.rfl
    | cons c =>
      have hc : c.toLower = '0' ↔ c = '0' :=
        toLower_cases (P := fun c d => d = '0' ↔ c = '0') (by decide +kernel) (fun _ _ => Iff.rfl) c
      simpa [lowerAscii] using hc
  have hlen : (lowerAscii s).length = s.length := length_map ..
  simp only [parseOctet, digits_lowerAscii, ne_eq, hhead, hlen]

theorem parseIpv4_lowerAscii (s : Str) : parseIpv4 (lowerAscii s) = parseIpv4 s := by
  rw [parseIpv4, parseIpv4, splitOn_lowerAscii toLower_eq_dot, List.map_map]
  simp only [Function.comp_def, parseOctet_lowerAscii]

theorem parseGroup_lowerAscii (s : Str) : parseGroup (lowerAscii s) = parseGroup s := by
  simp only [parseGroup, lowerAscii, map_eq_nil_iff, length_map, foldl_map, hexDigit_toLower]

theorem parseGroups_lowerAscii (parts : List Str) :
    parseGroups (parts.map lowerAscii) = parseGroups parts := by
  fun_induction parseGroups parts with
  | case1 => rfl
  | case2 last g hlast =>
    simp only [map_cons, map_nil, parseGroups, parseGroup_lowerAscii, hlast]
  | case3 last hlast =>
    simp only [map_cons, map_nil, parseGroups, parseGroup_lowerAscii, hlast, parseIpv4_lowerAscii]
  | case4 part rest hrest ih =>
    cases rest with
    | nil => exact absurd rfl (hrest)
    | cons =>
      simp only [map_cons] at ih ⊢
      simp only [parseGroups, parseGroup_lowerAscii, ih]

theorem parseGroupRun_lowerAscii (s : Str) : parseGroupRun (lowerAscii s) = parseGroupRun s := by
  have hnil : lowerAscii s = [] ↔ s = [] := map_eq_nil_iff
  simp only [parseGroupRun, hnil, splitOn_lowerAscii toLower_eq_colon, parseGroups_lowerAscii]

theorem splitDoubleColon_lowerAscii (s : Str) : splitDoubleColon (lowerAscii s) =
    (splitDoubleColon s).map fun p => (lowerAscii p.1, lowerAscii p.2) := by
  fun_induction splitDoubleColon s with
  | case1 => rfl
  | case2 c rest hne ih =>
    rw [lowerAscii, map_cons, ← lowerAscii, splitDoubleColon, ih]
    · simp only [Option.map_map, Function.comp_def, lowerAscii, map_cons]
    · intro rest' hc hrest
      obtain ⟨d, rest'', rfl, hd, -⟩ := map_eq_cons_iff.mp hrest
      exact hne rest'' ((toLower_eq_colon c).mp hc) (by rw [(toLower_eq_colon d).mp hd])
  | case3 => rfl

/-- **The case of the digits does not matter.** -/
theorem parseIpv6_lowerAscii (s : Str) : parseIpv6 (lowerAscii s) = parseIpv6 s := by
  have hdot : ∀ t : Str, (lowerAscii t).contains '.' = t.contains '.' := by
    intro t
    rw [Bool.eq_iff_iff, List.contains_iff_mem, List.contains_iff_mem, lowerAscii, List.mem_map]
    constructor
    · rintro ⟨d, hd, heq⟩
      rwa [← (toLower_eq_dot d).mp heq]
    · exact fun hmem => ⟨'.', hmem, rfl⟩
  rw [parseIpv6, parseIpv6, splitDoubleColon_lowerAscii]
  cases splitDoubleColon s with
  | none =>
    simp only [map_none, splitOn_lowerAscii toLower_eq_colon, parseGroups_lowerAscii]
  | some =>
    simp only [map_some, hdot, parseGroupRun_lowerAscii]

theorem isAscii_of_parseIpv6 (h : parseIpv6 s = some ip) : IsAscii s := by
  intro c hc
  by_contra hlar
  refine not_mem_of_parseIpv6 (c := c) ⟨?_, ?_, ?_⟩ h hc
  · have hnot : ∀ lo hi : Char, hi.toNat < 128 → ¬(lo ≤ c ∧ c ≤ hi) := by
      intro lo hi hhi hle
      exact hlar (lt_of_le_of_lt hle.2 hhi)
    have hdig : ¬c.isDigit = true := by
      rw [Char.isDigit]
      simp only [Bool.and_eq_true, decide_eq_true_eq]
      exact hnot '0' '9' (by decide)
    rw [hexDigit, if_neg hdig, if_neg (hnot 'a' 'f' (by decide)), if_neg (hnot 'A' 'F' (by decide))]
  · rintro rfl
    exact hlar (by decide)
  · rintro rfl
    exact hlar (by decide)

/-- The host of a URL is lowered up to its scope id. -/
def lowerHost (U : CaseMap) (host : Str) : Str :=
  match cut '%' host with
  | (addr, none) => U.lower addr
  | (addr, some zone) => U.lower addr ++ '%' :: zone

/-- **A lowered address is the same address.** -/
theorem ipAddress_lowerHost (U : CaseMap) (h : ipAddress s = some a) :
    ipAddress (lowerHost U s) = some a := by
  rcases ipAddress_spec h with
    ⟨ip, hip, rfl⟩ | ⟨hquad, addr, ip, hip, ⟨rfl, rfl⟩ | ⟨zone, rfl, hzone, rfl⟩⟩
  · have hasc : IsAscii s := by
      intro c hc
      rw [eq_ipv4Text_of_parseIpv4 hip] at hc
      rcases mem_ipv4Text hc with rfl | hdig
      · decide
      · simp only [Char.isDigit, Bool.and_eq_true, decide_eq_true_eq] at hdig
        exact lt_of_le_of_lt (b := '9'.toNat) hdig.2 (by decide)
    rw [lowerHost, cut_of_not_mem (not_mem_of_parseIpv4 foreign_percent hip)]
    simp only [U.lower_ascii hasc, ipAddress, parseIpv4_lowerAscii, hip]
  · rw [lowerHost, cut_of_not_mem (not_mem_of_parseIpv6 foreign_percent hip)]
    simp only [U.lower_ascii (isAscii_of_parseIpv6 hip)]
    exact ipAddress_of_parseIpv6 ((parseIpv6_lowerAscii s).trans hip)
      ((parseIpv4_lowerAscii s).trans hquad)
  · rw [lowerHost, cut_append (not_mem_of_parseIpv6 foreign_percent hip)]
    simp only [U.lower_ascii (isAscii_of_parseIpv6 hip)]
    exact ipAddress_scoped ((parseIpv6_lowerAscii addr).trans hip) hzone

/-! ### `urllib.parse` -/

/-- What the interpreter brings along: `str.lower`, `unicodedata.normalize("NFKC", ·)` and
`repr`. -/
structure Py where
  case : CaseMap
  nfkc : Str → Str
  repr : Str → Str

/-- The control characters and the space, which are stripped from the left. -/
def isControlOrSpace (c : Char) : Bool := c.toNat ≤ 32

/-- `_UNSAFE_URL_BYTES_TO_REMOVE`. -/
def isUnsafe (c : Char) : Bool := c = '\t' || c = '\r' || c = '\n'

def clean (url : Str) : Str := (url.dropWhile isControlOrSpace).filter (!isUnsafe ·)

/-- `scheme_chars`. -/
def isSchemeChar (c : Char) : Bool := c.isAlphanum || c = '+' || c = '-' || c = '.'

/-- The scheme, and what follows its colon. -/
def splitScheme (url : Str) : Str × Str :=
  match cut ':' url with
  | (scheme, some rest) =>
    if scheme.head?.any Char.isAlpha && scheme.all isSchemeChar then (lowerAscii scheme, rest)
    else ([], url)
  | (_, none) => ([], url)

/-- What ends a netloc. -/
def isDelim (c : Char) : Bool := c = '/' || c = '?' || c = '#'

/-- The netloc behind two slashes, and the rest. -/
def splitNetloc : Str → Str × Str
  | '/' :: '/' :: rest => (rest.takeWhile (!isDelim ·), rest.dropWhile (!isDelim ·))
  | url => ([], url)

def netlocOf (url : Str) : Str := (splitNetloc (splitScheme (clean url)).2).1

/-- `_check_bracketed_host`. -/
def checkBracketedHost (py : Py) (host : Str) : Except Str Unit :=
  match host with
  | 'v' :: rest =>
    -- hexadecimal digits, a dot, and at least one character more
    match cut '.' rest with
    | (version, some (_ :: _)) =>
      if version ≠ [] ∧ version.all fun c => (hexDigit c).isSome then .ok ()
      else .error "IPvFuture address is invalid"
    | _ => .error "IPvFuture address is invalid"
  | _ =>
    match ipAddress host with
    | none => .error (py.repr host ++ " does not appear to be an IPv4 or IPv6 address")
    | some (.v4 _) => .error "An IPv4 address cannot be in brackets"
    | some (.v6 _ _) => .ok ()

/-- `_check_bracketed_netloc`. -/
def checkBracketedNetloc (py : Py) (netloc : Str) : Except Str Unit :=
  let info := (rcut '@' netloc).2
  match cut '[' info with
  | (before, some bracketed) =>
    let (host, after) := cut ']' bracketed
    if before ≠ [] ∨ ((after.getD []).head?.any (· ≠ ':')) then .error "Invalid IPv6 URL"
    else checkBracketedHost py host
  | (_, none) => checkBracketedHost py (cut ':' info).1

/-- The checks of `urlsplit` on the brackets. -/
def checkBrackets (py : Py) (netloc : Str) : Except Str Unit :=
  if '[' ∈ netloc ∧ ']' ∈ netloc then checkBracketedNetloc py netloc
  else if '[' ∈ netloc ∨ ']' ∈ netloc then .error "Invalid IPv6 URL"
  else .ok ()

/-- `_checknetloc`. -/
def checkNetloc (py : Py) (netloc : Str) : Except Str Unit :=
  if netloc.all (·.toNat < 128) then .ok ()
  else
    let n := netloc.filter (· ∉ "@:#?".toList)
    if py.nfkc n ≠ n ∧ (py.nfkc n).any (· ∈ "/?#@:".toList) then
      .error ("netloc '" ++ netloc ++
        "' contains invalid characters under NFKC normalization")
    else .ok ()

structure SplitResult where
  scheme : Str
  netloc : Str
  path : Str
  query : Str
  fragment : Str
  deriving DecidableEq

/-- `urlsplit`. -/
def urlsplit (py : Py) (url : Str) : Except Str SplitResult := do
  let (scheme, rest) := splitScheme (clean url)
  let (netloc, rest) := splitNetloc rest
  checkBrackets py netloc
  checkNetloc py netloc
  let (rest, fragment) := cut '#' rest
  let (path, query) := cut '?' rest
  return { scheme, netloc, path, query := query.getD [], fragment := fragment.getD [] }

/-- `_userinfo`: the user name and the password. -/
def userinfo (netloc : Str) : Option (Str × Option Str) := (rcut '@' netloc).1.map (cut ':')

/-- `_hostinfo`: the host and the port. -/
def hostinfo (netloc : Str) : Str × Option Str :=
  let info := (rcut '@' netloc).2
  let (host, port) :=
    match cut '[' info with
    | (_, some bracketed) =>
      let (host, after) := cut ']' bracketed
      (host, (cut ':' (after.getD [])).2)
    | (_, none) => cut ':' info
  (host, port.filter (· ≠ []))

/-- `hostname`. -/
def hostname (U : CaseMap) (netloc : Str) : Option Str :=
  if (hostinfo netloc).1 = [] then none else some (lowerHost U (hostinfo netloc).1)

/-- `port`. -/
def port (py : Py) (netloc : Str) : Except Str (Option ℕ) :=
  match (hostinfo netloc).2 with
  | none => .ok none
  | some text =>
    match digits text with
    | none => .error ("Port could not be cast to integer value as " ++ py.repr text)
    | some n => if n ≤ 65535 then .ok (some n) else .error "Port out of range 0-65535"

/-- `_splitparams`: the parameters are those of the last segment. -/
def splitParams (path : Str) : Str × Str :=
  match rcut '/' path with
  | (none, last) => ((cut ';' last).1, (cut ';' last).2.getD [])
  | (some dir, last) => (dir ++ '/' :: (cut ';' last).1, (cut ';' last).2.getD [])

/-- `urlunparse` of what `urlparse` found, with another netloc, which is not empty. -/
def urlunparse (r : SplitResult) (netloc : Str) : Str :=
  let (path, params) := splitParams r.path
  let path := if params ≠ [] then path ++ ';' :: params else path
  let path := if path ≠ [] ∧ path.head? ≠ some '/' then '/' :: path else path
  r.scheme ++ "://" ++ netloc ++ path ++
    (if r.query ≠ [] then '?' :: r.query else []) ++
    (if r.fragment ≠ [] then '#' :: r.fragment else [])

/-! ### Taking apart what was put together -/

theorem mem_netlocOf {url : Str} (h : c ∈ netlocOf url) :
    isDelim c = false ∧ isUnsafe c = false := by
  have hsch : ∀ c ∈ (splitScheme (clean url)).2, c ∈ clean url := by
    intro c hc
    rw [splitScheme] at hc
    split at hc
    · rename_i scheme rest hcut
      split at hc
      · exact mem_of_mem_cut_snd (congrArg Prod.snd hcut) hc
      · exact hc
    · exact hc
  rw [netlocOf, splitNetloc.eq_def] at h
  split at h
  · rename_i rest hrest
    have hdel : (!isDelim c) = true := mem_takeWhile_imp (p := fun c => !isDelim c) h
    have hmem : c ∈ clean url := by
      apply hsch
      rw [hrest]
      exact mem_cons_of_mem _ (mem_cons_of_mem _ ((takeWhile_sublist _).subset h))
    have huns : (!isUnsafe c) = true := (mem_filter.mp hmem).2
    exact ⟨by simpa using hdel, by simpa using huns⟩
  · simp at h

theorem urlunparse_eq (r : SplitResult) (netloc : Str) : ∃ tail,
    urlunparse r netloc = r.scheme ++ "://" ++ (netloc ++ tail) ∧
      (tail = [] ∨ ∃ c rest, tail = c :: rest ∧ isDelim c = true) := by
  rw [urlunparse]
  generalize splitParams r.path = parts
  obtain ⟨path, params⟩ := parts
  simp only
  generalize (if params ≠ [] then path ++ ';' :: params else path) = path
  refine ⟨_, by simp only [append_assoc]; rfl, ?_⟩
  -- the first part that is not empty brings its own delimiter
  by_cases hpath : path = []
  · subst hpath
    by_cases hque : r.query = []
    · by_cases hfra : r.fragment = []
      · left
        simp [hque, hfra]
      · right
        exact ⟨'#', r.fragment, by simp [hque, hfra], rfl⟩
    · right
      exact ⟨'?', _, by simp [hque]; rfl, rfl⟩
  · right
    obtain ⟨c, rest, rfl⟩ := exists_cons_of_ne_nil hpath
    by_cases hc : c = '/'
    · exact ⟨'/', _, by simp [hc]; rfl, rfl⟩
    · exact ⟨'/', _, by simp [hc]; rfl, rfl⟩

/-- **The netloc that was put in is the one found.** -/
theorem netlocOf_urlunparse {r : SplitResult} {netloc : Str}
    (hsch : r.scheme = "http" ∨ r.scheme = "https")
    (hnl : ∀ c ∈ netloc, isDelim c = false ∧ isUnsafe c = false) :
    netlocOf (urlunparse r netloc) = netloc := by
  obtain ⟨tail, hurl, htail⟩ := urlunparse_eq r netloc
  have hcle : (netloc ++ tail).filter (!isUnsafe ·) = netloc ++ tail.filter (!isUnsafe ·) := by
    rw [filter_append, filter_eq_self.mpr]
    intro c hc
    simp [(hnl c hc).2]
  have hspl : netlocOf (urlunparse r netloc) =
      (netloc ++ tail.filter (!isUnsafe ·)).takeWhile (!isDelim ·) := by
    rw [hurl, ← hcle]
    rcases hsch with h | h <;> rw [h] <;> rfl
  have hstop : (tail.filter (!isUnsafe ·)).takeWhile (!isDelim ·) = [] := by
    rcases htail with rfl | ⟨c, rest, rfl, hc⟩
    · rfl
    · have hsafe : isUnsafe c = false := by
        simp only [isDelim, Bool.or_eq_true, decide_eq_true_eq] at hc
        rcases hc with (rfl | rfl) | rfl <;> rfl
      rw [filter_cons_of_pos (by simp [hsafe]), takeWhile_cons_of_neg (by simp [hc])]
  rw [hspl, takeWhile_append_of_pos, hstop, append_nil]
  intro c hc
  simp [(hnl c hc).1]

/-- A text in front of the host: nothing, or something that ends in an at sign. -/
def IsUserinfo (u : Str) : Prop := u = [] ∨ ∃ v, u = v ++ ['@']

theorem rcut_userinfo {u info : Str} (hu : IsUserinfo u) (h : '@' ∉ info) :
    (rcut '@' (u ++ info)).2 = info := by
  rcases hu with rfl | ⟨v, rfl⟩
  · rw [nil_append, rcut_of_not_mem h]
  · rw [append_assoc, singleton_append, rcut_append h]

theorem hostinfo_v6 {u ip port : Str} (hu : IsUserinfo u) (hat : '@' ∉ ip) (hbra : ']' ∉ ip)
    (hport : '@' ∉ port) : (hostinfo (u ++ ('[' :: ip ++ ']' :: port))).1 = ip := by
  have hinfo : '@' ∉ '[' :: ip ++ ']' :: port := by simp [hat, hport]
  have hcut : cut '[' ('[' :: ip ++ ']' :: port) = ([], some (ip ++ ']' :: port)) := rfl
  simp only [hostinfo, rcut_userinfo hu hinfo, hcut, cut_append hbra]

theorem hostinfo_v4 {u ip port : Str} (hu : IsUserinfo u) (hip : '@' ∉ ip ∧ '[' ∉ ip ∧ ':' ∉ ip)
    (hport : '@' ∉ port ∧ '[' ∉ port) (hcol : port = [] ∨ ∃ p, port = ':' :: p) :
    (hostinfo (u ++ (ip ++ port))).1 = ip := by
  have hinfo : '@' ∉ ip ++ port := by simp [hip.1, hport.1]
  have hcut : cut '[' (ip ++ port) = (ip ++ port, none) :=
    cut_of_not_mem (by simp [hip.2.1, hport.2])
  have hhost : (cut ':' (ip ++ port)).1 = ip := by
    rcases hcol with rfl | ⟨p, rfl⟩
    · rw [append_nil, cut_of_not_mem hip.2.2]
    · rw [cut_append hip.2.2]
  simp only [hostinfo, rcut_userinfo hu hinfo, hcut, hhost]

end Url
