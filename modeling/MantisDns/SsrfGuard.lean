/-
The SSRF guard: `ssrf_guard.py`.

A URL is fetched by an address that was checked.  The guard reads the URL with
`urllib.parse`, the addresses with `ipaddress`, and asks the system resolver.

* `checkUrlSafe`, `resolvePinnedUrl` — the two entry points for feed URLs;
* `hostAddress_pinned` — the URL that is put together has the chosen address as its
  host;
* `guarded_iff_plain` — the guard keeps its promise exactly for hosts without
  IPv4-mapped addresses of a blocked network and without blocked answers next to
  others;
* `mapped_and_mixed` — a mapped loopback address, and a name with two addresses.
-/
import MantisDns.LongestMatch
import MantisDns.UrlText

open Text Dns Url LongestMatch List Option

namespace Control.SsrfGuard

/-! ### The blocked networks -/

inductive Network
  | v4 (net : Net 32)
  | v6 (net : Net 128)

/-- `addr in net`; never of another version. -/
def Network.contains : Network → IpAddress → Bool
  | .v4 net, .v4 ip => net.contains ip.toBitVec
  | .v6 net, .v6 ip _ => net.contains ip
  | _, _ => false

/-- `_BLOCKED_NETWORKS`. -/
def blockedNetworks : List Network :=
  [.v4 ⟨0x0A000000, 8⟩,      -- 10.0.0.0/8
    .v4 ⟨0xAC100000, 12⟩,    -- 172.16.0.0/12
    .v4 ⟨0xC0A80000, 16⟩,    -- 192.168.0.0/16
    .v4 ⟨0x7F000000, 8⟩,     -- 127.0.0.0/8
    .v4 ⟨0xA9FE0000, 16⟩,    -- 169.254.0.0/16
    .v4 ⟨0x64400000, 10⟩,    -- 100.64.0.0/10
    .v4 ⟨0x00000000, 8⟩,     -- 0.0.0.0/8
    .v6 ⟨1, 128⟩,            -- ::1/128
    .v6 ⟨0xfe800000000000000000000000000000, 10⟩,
    .v6 ⟨0xfc000000000000000000000000000000, 7⟩]

def blocked (a : IpAddress) : Bool := blockedNetworks.any (·.contains a)

/-- `_ip_is_blocked`: what is no address is blocked. -/
def ipIsBlocked (s : Str) : Bool :=
  match ipAddress s with
  | none => true
  | some a => blocked a

/-! ### The resolver -/

inductive Family
  | inet
  | inet6
  deriving DecidableEq

/-- A numeric address of its family; a scope id is a number or the name of an interface, and
has no delimiter of a URL in it. -/
def validAnswer (family : Family) (address : Str) : Bool :=
  match ipAddress address with
  | none => false
  | some (.v4 _) => family = .inet
  | some (.v6 _ scopeId) => family = .inet6 &&
      (scopeId.getD []).all fun c => !isDelim c && !isUnsafe c && c ≠ '@' && c ≠ ']'

/-- The family and `sockaddr[0]` of an answer of `socket.getaddrinfo`. -/
structure Answer where
  family : Family
  address : Str
  valid : validAnswer family address = true

/-- `pinned_host`. -/
def Answer.host (answer : Answer) : Str :=
  match answer.family with
  | .inet6 => '[' :: answer.address ++ [']']
  | .inet => answer.address

structure Env where
  py : Py
  /-- `none` is an `OSError`. -/
  getaddrinfo : Str → Option (List Answer)

/-- `_safe_resolved_ips`. -/
def safeResolvedIps (env : Env) (isBlocked : Str → Bool) (host : Str) : Except Str (List Answer) :=
  match env.getaddrinfo host with
  | none => .error ("host " ++ env.py.repr host ++
      " could not be resolved — refusing fetch")
  | some infos =>
    match infos.filter fun info => !isBlocked info.address with
    | [] => .error ("host " ++ env.py.repr host ++
        " resolves only to blocked addresses")
    | safe => .ok safe

/-! ### The checks of a URL -/

/-- `_parse_http_url`. -/
def parseHttpUrl (py : Py) (url : Str) : Except Str (SplitResult × Str) :=
  match urlsplit py url with
  | .error e => .error ("unparseable URL: " ++ e)
  | .ok parsed =>
    if parsed.scheme ≠ "http" ∧ parsed.scheme ≠ "https" then
      .error ("URL scheme " ++ py.repr parsed.scheme ++
        " is not allowed; only http and https are permitted")
    else
      match (hostname py.case parsed.netloc).filter (· ≠ []) with
      | none => .error "URL has no host component"
      | some host => .ok (parsed, host)

/-- `_check_url_safe`. -/
def checkUrlSafeWith (env : Env) (isBlocked : Str → Bool) (blockedDesc url : Str) :
    Except Str Unit := do
  let (_, host) ← parseHttpUrl env.py url
  match ipAddress host with
  | some literal =>
    if isBlocked literal.str then
      throw ("URL host " ++ env.py.repr host ++ " is " ++ blockedDesc)
  | none => discard (safeResolvedIps env isBlocked host)

/-- The netloc of the pinned URL: the user, the address and the port. -/
def pinnedNetloc (py : Py) (netloc : Str) (answer : Answer) : Except Str Str := do
  let user :=
    match userinfo netloc with
    | some (username, password) =>
      if username = [] then []
      else username ++ ((password.filter (· ≠ [])).map (':' :: ·)).getD [] ++ ['@']
    | none => []
  let portPart :=
    match ← port py netloc with
    | some (n + 1) => ':' :: natText (n + 1)
    | _ => []
  return user ++ (answer.host ++ portPart)

/-- `_resolve_pinned_url`. -/
def resolvePinnedUrlWith (env : Env) (isBlocked : Str → Bool) (blockedDesc url : Str) :
    Except Str (Str × Str) := do
  let (parsed, host) ← parseHttpUrl env.py url
  match ipAddress host with
  | some literal =>
    if isBlocked literal.str then
      throw ("URL host " ++ env.py.repr host ++ " is " ++ blockedDesc)
    else return (url, host)
  | none =>
    match ← safeResolvedIps env isBlocked host with
    | [] => throw []    -- there is always one
    | answer :: _ =>
      let netloc ← pinnedNetloc env.py parsed.netloc answer
      return (urlunparse parsed netloc, host)

/-- `check_url_safe`. -/
def checkUrlSafe (env : Env) (url : Str) : Except Str Unit :=
  checkUrlSafeWith env ipIsBlocked "a private or reserved address" url

/-- `resolve_pinned_url`. -/
def resolvePinnedUrl (env : Env) (url : Str) : Except Str (Str × Str) :=
  resolvePinnedUrlWith env ipIsBlocked "a private or reserved address" url

/-! ### What comes out of the checks -/

variable {env : Env} {py : Py} {url host : Str} {parsed : SplitResult} {answer : Answer}
variable {a : IpAddress} {c : Char} {netloc out text : Str}

/-- The address that the host of a URL is. -/
def hostAddress (U : CaseMap) (url : Str) : Option IpAddress :=
  (hostname U (netlocOf url)).bind ipAddress

theorem netloc_of_urlsplit (h : urlsplit py url = .ok parsed) : parsed.netloc = netlocOf url := by
  simp only [urlsplit, bind, Except.bind] at h
  split at h
  · simp at h
  · split at h
    · simp at h
    · simp only [pure, Except.pure, Except.ok.injEq] at h
      rw [← h]
      rfl

theorem parseHttpUrl_ok (h : parseHttpUrl py url = .ok (parsed, host)) :
    parsed.netloc = netlocOf url ∧
      (parsed.scheme = "http" ∨ parsed.scheme = "https") ∧
      hostname py.case (netlocOf url) = some host := by
  rw [parseHttpUrl] at h
  split at h
  · simp at h
  · rename_i parsed' hspl
    have hnl := netloc_of_urlsplit hspl
    split at h
    · simp at h
    · rename_i hsch
      split at h
      · simp at h
      · rename_i host' hhost
        obtain ⟨rfl, rfl⟩ : parsed' = parsed ∧ host' = host := by simpa using h
        rw [hnl] at hhost
        exact ⟨hnl, by tauto, (filter_eq_some_iff.mp hhost).1⟩

theorem safeResolvedIps_ok {isBlocked : Str → Bool} {safe : List Answer}
    (h : safeResolvedIps env isBlocked host = .ok safe) :
    ∃ infos, env.getaddrinfo host = some infos ∧
      safe = infos.filter fun info => !isBlocked info.address := by
  rw [safeResolvedIps] at h
  split at h
  · simp at h
  · rename_i infos hinf
    refine ⟨infos, hinf, ?_⟩
    split at h
    · simp at h
    · exact (Except.ok.inj h).symm

theorem ipIsBlocked_str {s : Str} (h : ipAddress s = some a) :
    ipIsBlocked a.str = blocked a := by
  rw [ipIsBlocked, ipAddress_str h]

/-! ### The pinned URL -/

/-- What would cut an address off when it stands in a URL. -/
def cuts (c : Char) : Bool := isDelim c || isUnsafe c || c = '@' || c = ']'

theorem foreign_of_cuts (h : cuts c = true) : Foreign c := by
  simp only [cuts, isDelim, isUnsafe, Bool.or_eq_true, decide_eq_true_eq] at h
  rcases h with ((((rfl | rfl) | rfl) | (rfl | rfl) | rfl) | rfl) | rfl <;>
    exact ⟨by decide, by decide, by decide⟩

theorem cuts_of_mem_address (h : c ∈ answer.address) : cuts c = false := by
  have hval := answer.valid
  by_contra hcuts
  rw [Bool.not_eq_false] at hcuts
  have hfor := foreign_of_cuts hcuts
  cases hadd : ipAddress answer.address with
  | none => simp [validAnswer, hadd] at hval
  | some =>
    rcases ipAddress_spec hadd with
      ⟨ip, hip, -⟩ | ⟨-, addr, ip, hip, ⟨heq, -⟩ | ⟨zone, heq, -, rfl⟩⟩
    · exact not_mem_of_parseIpv4 hfor hip h
    · rw [heq] at h
      exact not_mem_of_parseIpv6 hfor hip h
    · rw [heq, mem_append, mem_cons] at h
      rcases h with h | rfl | h
      · exact not_mem_of_parseIpv6 hfor hip h
      · exact absurd hcuts (by decide)
      · simp only [validAnswer, hadd, Bool.and_eq_true, List.all_eq_true, getD_some,
          Bool.not_eq_true', decide_eq_true_eq] at hval
        simp [cuts, hval.2 c h] at hcuts

theorem parseIpv4_of_inet (h : answer.family = .inet) :
    ∃ ip, parseIpv4 answer.address = some ip := by
  have hval := answer.valid
  cases hadd : ipAddress answer.address with
  | none => simp [validAnswer, hadd] at hval
  | some =>
    rcases ipAddress_spec hadd with ⟨ip, hip, -⟩ | ⟨-, addr, ip, hip, ⟨-, rfl⟩ | ⟨zone, -, -, rfl⟩⟩
    · exact ⟨ip, hip⟩
    · simp [validAnswer, hadd, h] at hval
    · simp [validAnswer, hadd, h] at hval

/-- A port: digits behind a colon. -/
def IsPort (text : Str) : Prop := text = [] ∨ ∃ n, text = ':' :: natText n

theorem pinnedNetloc_ok (h : pinnedNetloc py netloc answer = .ok out) :
    ∃ user portPart, IsUserinfo user ∧ (∀ c ∈ user, c ∈ netloc ∨ c = ':' ∨ c = '@') ∧
      IsPort portPart ∧ out = user ++ (answer.host ++ portPart) := by
  simp only [pinnedNetloc, bind, Except.bind] at h
  split at h
  · simp at h
  · rename_i p hport
    simp only [pure, Except.pure, Except.ok.injEq] at h
    -- user info, host and port, put together as they were taken apart
    refine ⟨_, _, ?_, ?_, ?_, h.symm⟩
    · split
      · split
        · exact .inl rfl
        · exact .inr ⟨_, rfl⟩
      · exact .inl rfl
    · intro c hc
      split at hc
      · rename_i username password huser
        obtain ⟨info, hinfo, hcut⟩ := map_eq_some_iff.mp huser
        split at hc
        · simp at hc
        · rw [mem_append, mem_append, mem_singleton] at hc
          rcases hc with (hc | hc) | hc
          · refine .inl (mem_of_mem_rcut hinfo (mem_of_mem_cut (c := ':') ?_))
            rw [hcut]
            exact hc
          · cases hpas : password.filter (· ≠ []) with
            | none =>
              rw [hpas] at hc
              simp at hc
            | some =>
              rw [hpas] at hc
              rcases mem_cons.mp hc with rfl | hc
              · exact .inr (.inl rfl)
              · refine .inl (mem_of_mem_rcut hinfo (mem_of_mem_cut_snd (c := ':') ?_ hc))
                rw [hcut]
                exact (filter_eq_some_iff.mp hpas).1
          · exact .inr (.inr hc)
      · simp at hc
    · split
      · exact .inr ⟨_, rfl⟩
      · exact .inl rfl

theorem mem_port (h : IsPort text) (hc : c ∈ text) :
    c = ':' ∨ c.isDigit = true := by
  rcases h with rfl | ⟨n, rfl⟩
  · simp at hc
  · rcases mem_cons.mp hc with rfl | hc
    · exact .inl rfl
    · exact .inr (Nat.isDigit_of_mem_toDigits (by decide) (by decide) hc)

theorem port_safe (h : IsPort text) (hc : c ∈ text) :
    cuts c = false ∧ c ≠ '[' := by
  rcases mem_port h hc with rfl | hdigi
  · exact ⟨by decide, by decide⟩
  · obtain ⟨k, hk, rfl⟩ := exists_digitChar hdigi
    have hdig : ∀ k < 10, cuts (Nat.digitChar k) = false ∧ Nat.digitChar k ≠ '[' := by decide
    exact hdig k hk

theorem not_cuts (h : cuts c = false) : isDelim c = false ∧ isUnsafe c = false := by
  simp only [cuts, Bool.or_eq_false_iff] at h
  exact ⟨h.1.1.1, h.1.1.2⟩

theorem mem_pinnedNetloc (hnl : ∀ c ∈ netloc, isDelim c = false ∧ isUnsafe c = false)
    (h : pinnedNetloc py netloc answer = .ok out) :
    ∀ c ∈ out, isDelim c = false ∧ isUnsafe c = false := by
  obtain ⟨user, portPart, -, hmem, hport, rfl⟩ := pinnedNetloc_ok h
  intro c hc
  rw [mem_append, mem_append] at hc
  rcases hc with hc | hc | hc
  · rcases hmem c hc with hc | rfl | rfl
    · exact hnl c hc
    · exact ⟨by decide, by decide⟩
    · exact ⟨by decide, by decide⟩
  · rw [Answer.host] at hc
    split at hc
    · simp only [mem_append, mem_cons, not_mem_nil, or_false] at hc
      rcases hc with (rfl | hc) | rfl
      · exact ⟨by decide, by decide⟩
      · exact not_cuts (cuts_of_mem_address hc)
      · exact ⟨by decide, by decide⟩
    · exact not_cuts (cuts_of_mem_address hc)
  · exact not_cuts (port_safe hport hc).1

theorem hostinfo_pinned (h : pinnedNetloc py netloc answer = .ok out) :
    (hostinfo out).1 = answer.address := by
  obtain ⟨user, portPart, huser, -, hport, rfl⟩ := pinnedNetloc_ok h
  have hat : '@' ∉ answer.address := fun h => absurd (cuts_of_mem_address h) (by decide)
  have hclo : ']' ∉ answer.address := fun h => absurd (cuts_of_mem_address h) (by decide)
  have hpor : '@' ∉ portPart := fun h => absurd (port_safe hport h).1 (by decide)
  have hportOpen : '[' ∉ portPart := fun h => (port_safe hport h).2 rfl
  rw [Answer.host]
  cases hfam : answer.family with
  | inet6 =>
    simp only [append_assoc, singleton_append]
    exact hostinfo_v6 huser hat hclo hpor
  | inet =>
    obtain ⟨ip, hip⟩ := parseIpv4_of_inet hfam
    have hopen : '[' ∉ answer.address :=
      not_mem_of_parseIpv4 ⟨by decide, by decide, by decide⟩ hip
    refine hostinfo_v4 huser ⟨hat, hopen, colon_not_mem_of_parseIpv4 hip⟩ ⟨hpor, hportOpen⟩ ?_
    rcases hport with h | ⟨n, h⟩
    · exact .inl h
    · exact .inr ⟨_, h⟩

/-- **The host of the pinned URL is the answer that was chosen.** -/
theorem hostAddress_pinned (hpar : parseHttpUrl py url = .ok (parsed, host))
    (hpin : pinnedNetloc py parsed.netloc answer = .ok netloc)
    (ha : ipAddress answer.address = some a) :
    hostAddress py.case (urlunparse parsed netloc) = some a := by
  obtain ⟨hsou, hsch, -⟩ := parseHttpUrl_ok hpar
  have hnl : netlocOf (urlunparse parsed netloc) = netloc := by
    refine netlocOf_urlunparse hsch (mem_pinnedNetloc (fun c hc => ?_) hpin)
    rw [hsou] at hc
    exact mem_netlocOf hc
  have hne : answer.address ≠ [] := by
    intro hnil
    have hemp : ipAddress [] = none := by decide
    rw [hnil, hemp] at ha
    simp at ha
  rw [hostAddress, hnl, hostname, hostinfo_pinned hpin, if_neg hne, bind_some]
  exact ipAddress_lowerHost py.case ha

/-! ### The promise -/

/-- The addresses that an address stands for: itself, and the IPv4 address in an IPv4-mapped
one. -/
def denoted : IpAddress → List IpAddress
  | .v4 ip => [.v4 ip]
  | .v6 ip scopeId =>
    if ip.toNat / 2 ^ 32 = 0xFFFF then [.v6 ip scopeId, .v4 (UInt32.ofNat ip.toNat)]
    else [.v6 ip scopeId]

/-- Outside the blocked networks, directly and as an IPv4-mapped address. -/
def Outside (a : IpAddress) : Prop := ∀ d ∈ denoted a, blocked d = false

instance (a : IpAddress) : Decidable (Outside a) :=
  inferInstanceAs (Decidable (∀ d ∈ denoted a, blocked d = false))

/-- Each address that a name resolved to is outside. -/
def AllOutside (infos : List Answer) : Prop :=
  ∀ info ∈ infos, ∀ a, ipAddress info.address = some a → Outside a

/-- What the guard is for. -/
structure Guarded (env : Env) (url : Str) : Prop where
  pinned : ∀ pinned host, resolvePinnedUrl env url = .ok (pinned, host) →
    ∃ a, hostAddress env.py.case pinned = some a ∧ Outside a ∧
      (hostAddress env.py.case url = some a ∨ ∃ infos, env.getaddrinfo host = some infos ∧
        ∃ info ∈ infos, ipAddress info.address = some a)
  checked : checkUrlSafe env url = .ok () → ∀ parsed host infos,
    parseHttpUrl env.py url = .ok (parsed, host) → ipAddress host = none →
    env.getaddrinfo host = some infos → AllOutside infos

/-- A literal that is blocked as it stands or outside altogether; answers that are all
blocked as they stand, or all outside. -/
def Plain (env : Env) (url : Str) : Prop :=
  ∀ parsed host, parseHttpUrl env.py url = .ok (parsed, host) →
    (∀ a, ipAddress host = some a → blocked a = true ∨ Outside a) ∧
    (ipAddress host = none → ∀ infos, env.getaddrinfo host = some infos →
      (∀ info ∈ infos, ipIsBlocked info.address = true) ∨ AllOutside infos)

theorem resolvePinnedUrl_ok {pinned : Str} (h : resolvePinnedUrl env url = .ok (pinned, host)) :
    ∃ parsed, parseHttpUrl env.py url = .ok (parsed, host) ∧
      ((∃ a, ipAddress host = some a ∧ blocked a = false ∧ pinned = url) ∨
        ipAddress host = none ∧ ∃ infos, env.getaddrinfo host = some infos ∧
          ∃ answer ∈ infos, ipIsBlocked answer.address = false ∧
            ∃ netloc, pinnedNetloc env.py parsed.netloc answer = .ok netloc ∧
              pinned = urlunparse parsed netloc) := by
  simp only [resolvePinnedUrl, resolvePinnedUrlWith, bind, Except.bind] at h
  split at h
  · simp at h
  rename_i result hpar
  obtain ⟨parsed, host'⟩ := result
  simp only at h
  split at h
  · -- the host is an address
    rename_i a ha
    split at h
    · simp [throw, throwThe, MonadExceptOf.throw] at h
    · rename_i hblo
      rw [ipIsBlocked_str ha] at hblo
      obtain ⟨rfl, rfl⟩ : url = pinned ∧ host' = host := by simpa [pure, Except.pure] using h
      exact ⟨parsed, hpar, .inl ⟨a, ha, by simpa using hblo, rfl⟩⟩
  · -- the host is a name
    rename_i hnone
    split at h
    · simp at h
    rename_i safe hsafe
    obtain ⟨infos, hinf, rfl⟩ := safeResolvedIps_ok hsafe
    split at h
    · simp [throw, throwThe, MonadExceptOf.throw] at h
    · rename_i answer rest hfil
      split at h
      · simp at h
      · rename_i netloc hnl
        obtain ⟨rfl, rfl⟩ : urlunparse parsed netloc = pinned ∧ host' = host := by
          simpa [pure, Except.pure] using h
        have hmem : answer ∈ infos.filter fun info => !ipIsBlocked info.address := by
          rw [hfil]
          exact mem_cons_self
        obtain ⟨hans, hfree⟩ := mem_filter.mp hmem
        exact ⟨parsed, hpar, .inr ⟨hnone, infos, hinf, answer, hans, by simpa using hfree,
          netloc, hnl, rfl⟩⟩

theorem resolvePinnedUrl_literal (hpar : parseHttpUrl env.py url = .ok (parsed, host))
    (ha : ipAddress host = some a) (hfree : blocked a = false) :
    resolvePinnedUrl env url = .ok (url, host) := by
  have hstr : ipIsBlocked a.str = false := (ipIsBlocked_str ha).trans hfree
  simp [resolvePinnedUrl, resolvePinnedUrlWith, bind, Except.bind, hpar, ha, hstr, pure,
    Except.pure]

theorem checkUrlSafe_name (hpar : parseHttpUrl env.py url = .ok (parsed, host))
    (hname : ipAddress host = none) {infos : List Answer}
    (hinf : env.getaddrinfo host = some infos) :
    checkUrlSafe env url = .ok () ↔ ¬∀ info ∈ infos, ipIsBlocked info.address = true := by
  have hnil : (infos.filter fun info => !ipIsBlocked info.address) = [] ↔
      ∀ info ∈ infos, ipIsBlocked info.address = true := by
    rw [filter_eq_nil_iff]
    simp
  rw [← hnil]
  simp only [checkUrlSafe, checkUrlSafeWith, bind, Except.bind, hpar, hname, safeResolvedIps, hinf]
  split
  · rename_i hfil
    exact iff_of_false (by simp [discard, Functor.mapConst, Except.map]) (not_not.mpr hfil)
  · rename_i hne
    exact iff_of_true rfl hne

/-- **The guard keeps its promise for plain hosts, and only for them.** -/
theorem guarded_iff_plain (env : Env) (url : Str) : Guarded env url ↔ Plain env url := by
  constructor
  · intro h parsed host hpar
    obtain ⟨-, -, hhost⟩ := parseHttpUrl_ok hpar
    refine ⟨fun a ha => ?_, fun hname infos hinf => ?_⟩
    · cases hblo : blocked a with
      | true => exact .inl rfl
      | false =>
        obtain ⟨a', ha', hout, -⟩ :=
          h.pinned url host (resolvePinnedUrl_literal hpar ha hblo)
        rw [hostAddress, hhost, bind_some, ha, some_inj] at ha'
        exact .inr (ha' ▸ hout)
    · by_cases hall : ∀ info ∈ infos, ipIsBlocked info.address = true
      · exact .inl hall
      · exact .inr (h.checked ((checkUrlSafe_name hpar hname hinf).mpr hall) parsed host infos
          hpar hname hinf)
  · intro h
    refine ⟨fun pinned host hpin => ?_, fun hok parsed host infos hpar hname hinf => ?_⟩
    · obtain ⟨parsed, hpar, ⟨a, ha, hfree, rfl⟩ | ⟨hname, infos, hinf, answer, hans, hfree,
        netloc, hnl, rfl⟩⟩ := resolvePinnedUrl_ok hpin
      · obtain ⟨-, -, hhost⟩ := parseHttpUrl_ok hpar
        have hadd : hostAddress env.py.case pinned = some a := by
          rw [hostAddress, hhost, bind_some, ha]
        have hout := ((h parsed host hpar).1 a ha).resolve_left (by simp [hfree])
        exact ⟨a, hadd, hout, .inl hadd⟩
      · have hall := ((h parsed host hpar).2 hname infos hinf).resolve_left
          fun hall => by simp [hall answer hans] at hfree
        -- what does not parse as an address is blocked
        cases ha : ipAddress answer.address with
        | none => simp [ipIsBlocked, ha] at hfree
        | some a =>
          exact ⟨a, hostAddress_pinned hpar hnl ha, hall answer hans a ha,
            .inr ⟨infos, hinf, answer, hans, ha⟩⟩
    · exact ((h parsed host hpar).2 hname infos hinf).resolve_left
        ((checkUrlSafe_name hpar hname hinf).mp hok)

/-! A resolver that knows one name. -/

def sampleEnv : Env where
  py := ⟨.ascii, id, id⟩
  getaddrinfo host :=
    if host = "mixed.example" then
      some [⟨.inet, "127.0.0.1", by decide +kernel⟩,
        ⟨.inet, "198.51.100.7", by decide +kernel⟩]
    else none

/-- **The loopback address in IPv6, and a name that also has the loopback address**: the first
is handed out for the fetch, and both pass the check. -/
theorem mapped_and_mixed :
    (resolvePinnedUrl sampleEnv "http://[::ffff:127.0.0.1]/hosts" =
        .ok ("http://[::ffff:127.0.0.1]/hosts", "::ffff:127.0.0.1") ∧
      ¬Guarded sampleEnv "http://[::ffff:127.0.0.1]/hosts") ∧
    checkUrlSafe sampleEnv "http://mixed.example/hosts" = .ok () ∧
      ¬Guarded sampleEnv "http://mixed.example/hosts" := by
  have hlit : resolvePinnedUrl sampleEnv "http://[::ffff:127.0.0.1]/hosts" =
      .ok ("http://[::ffff:127.0.0.1]/hosts", "::ffff:127.0.0.1") := by
    decide +kernel
  have hname : checkUrlSafe sampleEnv "http://mixed.example/hosts" = .ok () := by
    decide +kernel
  refine ⟨⟨hlit, fun h => ?_⟩, hname, fun h => ?_⟩
  · obtain ⟨a, ha, hout, -⟩ := h.pinned _ _ hlit
    have hhost : hostAddress sampleEnv.py.case "http://[::ffff:127.0.0.1]/hosts" =
        some (.v6 0xffff7f000001 none) := by decide +kernel
    obtain rfl := some_inj.mp (hhost.symm.trans ha)
    revert hout
    decide +kernel
  · have hpar : parseHttpUrl sampleEnv.py "http://mixed.example/hosts" =
        .ok (⟨"http", "mixed.example", "/hosts", [], []⟩,
          "mixed.example") := by decide +kernel
    have hout := h.checked hname _ _ _ hpar (by decide +kernel) rfl _ mem_cons_self
      (.v4 0x7f000001) (by decide +kernel)
    revert hout
    decide +kernel

end Control.SsrfGuard
