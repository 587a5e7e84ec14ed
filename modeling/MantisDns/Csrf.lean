/-
`CsrfMiddleware` and `get_current_user` of `auth.py`.

The middleware asks for the double-submitted token unless the `Authorization` header
starts with `bearer ` in any case; `get_current_user` takes the session cookie unless
`HTTPBearer` finds credentials behind the first space.  Both read the same header.

* `startsWith_bearer_iff` — what the middleware tests, in terms of the split at the first
  space;
* `skips_iff` — the two tests agree, but for a scheme with nothing behind it;
* `covered_iff` — which requests with a session cookie need no token;
* `bare_bearer` — one of them.
-/
import MantisDns.Accounts
import MantisDns.UrlText

open Text Url Option List

namespace Control.Csrf

open Accounts (Account)

/-! ### Requests -/

/-- A header as Starlette decodes it. -/
def latin1 (bytes : List UInt8) : Str := bytes.map fun b => Char.ofNat b.toNat

/-- `str.lower` on a character of Latin-1. -/
def lowerLatin1 (c : Char) : Char :=
  if 'A'.toNat ≤ c.toNat ∧ c.toNat ≤ 'Z'.toNat ∨
      0xC0 ≤ c.toNat ∧ c.toNat ≤ 0xDE ∧ c.toNat ≠ 0xD7 then Char.ofNat (c.toNat + 32)
  else c

def lower (s : Str) : Str := s.map lowerLatin1

/-- What the application sees of a request. -/
structure HttpRequest where
  method : Str
  /-- `request.url.path`. -/
  urlPath : Str
  headers : List (List UInt8 × List UInt8)
  cookies : List (Str × Str)

/-- `request.headers.get(name)`: the first one counts. -/
def HttpRequest.header (req : HttpRequest) (name : Str) : Option Str :=
  (req.headers.find? fun h => latin1 h.1 = lower name).map fun h => latin1 h.2

/-- `request.cookies.get(name)`. -/
def HttpRequest.cookie (req : HttpRequest) (name : Str) : Option Str := req.cookies.lookup name

/-- `SESSION_COOKIE_NAME`. -/
def sessionCookieName : Str := "mantis_session"

/-- `CSRF_COOKIE_NAME`. -/
def csrfCookieName : Str := "mantis_csrf"

/-- `CSRF_HEADER_NAME`. -/
def csrfHeaderName : Str := "x-mantis-csrf-token"

/-! ### `get_current_user` -/

/-- `HTTPBearer(auto_error=False)`: the credentials in the header. -/
def httpBearer (authorization : Option Str) : Option Str := do
  let value ← authorization
  let (scheme, rest) := cut ' ' value
  let credentials ← rest
  if credentials ≠ [] ∧ lower scheme = "bearer" then some credentials else none

/-- The claims of a token that is valid. -/
structure Claims where
  sub : Option Str
  tv : Option ℤ

/-- `get_current_user`; `decode` is `jwt.decode` with the server's secret. -/
def getCurrentUser (decode : Str → Option Claims) (users : List Account) (req : HttpRequest) :
    Except (ℕ × Str) Account :=
  match (httpBearer (req.header "Authorization")).or (req.cookie sessionCookieName) with
  | none => .error (401, "missing bearer token or session cookie")
  | some token =>
    match decode token with
    | none => .error (401, "invalid token")
    | some claims =>
      match claims.sub with
      | none => .error (401, "invalid token")
      | some sub =>
        match users.find? (·.id = sub) with
        | none => .error (401, "user no longer exists")
        | some user =>
          if claims.tv.getD 0 = user.tokenVersion then .ok user
          else .error (401,
            "session invalidated by a password change — please log in again")

/-- The user is let in, and by the cookie. -/
def AuthenticatesByCookie (decode : Str → Option Claims) (users : List Account)
    (req : HttpRequest) : Prop :=
  httpBearer (req.header "Authorization") = none ∧
    ∃ user, getCurrentUser decode users req = .ok user

/-! ### The middleware -/

/-- `_SAFE_METHODS`. -/
def safeMethods : List Str := ["GET", "HEAD", "OPTIONS"]

/-- `_CSRF_EXEMPT_PATHS`. -/
def csrfExemptPaths : List Str := ["/api/v1/auth/login"]

inductive Outcome
  /-- The application is called. -/
  | passed
  | rejected (status : ℕ) (content : Str)
  /-- `hmac.compare_digest` takes no text beyond ASCII. -/
  | raised
  deriving DecidableEq

/-- `auth_header.lower().startswith("bearer ")`. -/
def HttpRequest.skips (req : HttpRequest) : Bool :=
  "bearer ".toList.isPrefixOf (lower ((req.header "authorization").getD []))

/-- `needs_check`. -/
def HttpRequest.needsCheck (req : HttpRequest) : Bool :=
  req.method ∉ safeMethods && req.urlPath ∉ csrfExemptPaths && !req.skips &&
    (req.cookie sessionCookieName).isSome

def forbidden : Outcome := .rejected 403 "\x7b\"detail\":\"missing or invalid CSRF token\"\x7d"

/-- The comparison of the two tokens. -/
def compareTokens (cookie header : Option Str) : Outcome :=
  match cookie, header with
  | some cookie, some header =>
    if cookie = [] ∨ header = [] then forbidden
    else if ¬(IsAscii cookie ∧ IsAscii header) then .raised
    else if cookie = header then .passed
    else forbidden
  | _, _ => forbidden

/-- `CsrfMiddleware` on an HTTP request. -/
def csrfMiddleware (req : HttpRequest) : Outcome :=
  if req.needsCheck then compareTokens (req.cookie csrfCookieName) (req.header csrfHeaderName)
  else .passed

/-- The CSRF cookie and header are there, not empty, and equal. -/
def TokensAgree (req : HttpRequest) : Prop :=
  ∃ token, token ≠ [] ∧ req.cookie csrfCookieName = some token ∧
    req.header csrfHeaderName = some token

/-- A request that changes something and is let in by the session cookie. -/
structure Protected (decode : Str → Option Claims) (users : List Account)
    (req : HttpRequest) : Prop where
  method : req.method ∉ safeMethods
  path : req.urlPath ∉ csrfExemptPaths
  user : AuthenticatesByCookie decode users req

/-- The middleware does its work for the request. -/
def Covered (decode : Str → Option Claims) (users : List Account) (req : HttpRequest) : Prop :=
  Protected decode users req → csrfMiddleware req = .passed → TokensAgree req

/-- The header is the word `bearer`, in any case, and a space. -/
def BareBearer (req : HttpRequest) : Prop :=
  (req.header "authorization").map lower = some "bearer ".toList

/-! ### The two readings of the header -/

theorem lowerLatin1_eq_space {c : Char} : lowerLatin1 c = ' ' ↔ c = ' ' := by
  constructor
  · intro h
    rw [lowerLatin1] at h
    split_ifs at h with hupp
    · have hnat := congrArg Char.toNat h
      rw [Char.toNat_ofNat] at hnat
      split_ifs at hnat
      · rcases hupp with ⟨hA, -⟩ | ⟨hA, -⟩
        · have hcode : ' '.toNat = 32 ∧ 'A'.toNat = 65 := ⟨rfl, rfl⟩
          omega
        · have hcode : ' '.toNat = 32 := rfl
          omega
      · simp at hnat
    · exact h
  · rintro rfl
    rfl

theorem space_mem_lower {s : Str} : ' ' ∈ lower s ↔ ' ' ∈ s := by
  simp [lower, lowerLatin1_eq_space]

theorem cut_lower (s : Str) :
    cut ' ' (lower s) = (lower (cut ' ' s).1, (cut ' ' s).2.map lower) := by
  obtain ⟨hfree, hs⟩ := cut_spec ' ' s
  have hfree' : ' ' ∉ lower (cut ' ' s).1 := fun h => hfree (space_mem_lower.mp h)
  cases hrest : (cut ' ' s).2 with
  | none =>
    rw [hrest, map_none, getD_none, append_nil] at hs
    rw [← hs] at hfree' ⊢
    exact cut_of_not_mem hfree'
  | some rest =>
    rw [hrest, map_some, getD_some] at hs
    have hlow : lower s = lower (cut ' ' s).1 ++ ' ' :: lower rest := by
      conv_lhs => rw [hs]
      rw [lower, map_append, map_cons]
      rfl
    rw [hlow, cut_append hfree']
    rfl

/-- **The middleware's test**: the scheme is `bearer` and there is a space. -/
theorem startsWith_bearer_iff (s : Str) : "bearer ".toList.isPrefixOf (lower s) = true ↔
    lower (cut ' ' s).1 = "bearer" ∧ (cut ' ' s).2.isSome = true := by
  have hcut := cut_lower s
  rw [List.isPrefixOf_iff_prefix]
  constructor
  · rintro ⟨rest, hrest⟩
    have hspl : lower s = "bearer" ++ ' ' :: rest := hrest.symm
    rw [hspl, cut_append (by decide)] at hcut
    obtain ⟨hsch, hsome⟩ := Prod.mk.inj hcut
    refine ⟨hsch.symm, ?_⟩
    cases h : (cut ' ' s).2 with
    | none => simp [h] at hsome
    | some => rfl
  · rintro ⟨hsch, hsome⟩
    obtain ⟨rest, hrest⟩ := isSome_iff_exists.mp hsome
    have hspec := (cut_spec ' ' (lower s)).2
    rw [hcut, hsch, hrest] at hspec
    exact ⟨lower rest, hspec.symm⟩

/-- **The two tests differ** on a scheme with nothing behind it. -/
theorem skips_iff {req : HttpRequest}
    (hnone : httpBearer (req.header "Authorization".toList) = none) :
    req.skips = true ↔ BareBearer req := by
  have hname : req.header "Authorization".toList = req.header "authorization".toList := by
    have hlow : lower "Authorization".toList = lower "authorization".toList := by decide
    rw [HttpRequest.header, hlow, HttpRequest.header]
  rw [hname] at hnone
  rw [HttpRequest.skips, BareBearer]
  cases hhea : req.header "authorization".toList with
  | none => decide
  | some value =>
    rw [hhea] at hnone
    rw [getD_some, startsWith_bearer_iff, map_some, some_inj]
    have hspec := (cut_spec ' ' (lower value)).2
    rw [cut_lower] at hspec
    constructor
    · rintro ⟨hsch, hsome⟩
      obtain ⟨rest, hrest⟩ := isSome_iff_exists.mp hsome
      -- otherwise there would be credentials
      have hemp : rest = [] := by
        by_contra hne
        simp [httpBearer, hrest, hne, hsch] at hnone
      rw [hsch, hrest, hemp] at hspec
      exact hspec
    · intro hbare
      have hcut := cut_lower value
      rw [hbare, show "bearer ".toList = "bearer".toList ++ ' ' :: [] from rfl,
        cut_append (by decide)] at hcut
      obtain ⟨hsch, hsome⟩ := Prod.mk.inj hcut
      refine ⟨hsch.symm, ?_⟩
      cases h : (cut ' ' value).2 with
      | none => simp [h] at hsome
      | some => rfl

/-! ### Coverage -/

theorem compareTokens_eq_passed {cookie header : Option Str}
    (h : compareTokens cookie header = .passed) :
    ∃ token, token ≠ [] ∧ cookie = some token ∧ header = some token := by
  match cookie, header with
  | some cookie, some header =>
    simp only [compareTokens, forbidden] at h
    split_ifs at h with hemp hasc heq
    · exact ⟨cookie, fun hnil => hemp (.inl hnil), rfl, congrArg some heq.symm⟩
  | none, _ => simp [compareTokens, forbidden] at h
  | some _, none => simp [compareTokens, forbidden] at h

theorem AuthenticatesByCookie.cookie {decode : Str → Option Claims} {users : List Account}
    {req : HttpRequest} (h : AuthenticatesByCookie decode users req) :
    (req.cookie sessionCookieName).isSome = true := by
  obtain ⟨hnone, user, huser⟩ := h
  cases hcoo : req.cookie sessionCookieName with
  | none =>
    rw [getCurrentUser, hnone, hcoo, none_or] at huser
    exact nomatch huser
  | some => rfl

/-- **Coverage**: the middleware covers a request, unless its `Authorization` header is a bare
`bearer` and the tokens do not happen to agree. -/
theorem covered_iff (decode : Str → Option Claims) (users : List Account) (req : HttpRequest) :
    Covered decode users req ↔ (Protected decode users req → BareBearer req → TokensAgree req) := by
  constructor
  · intro h hpro hbare
    refine h hpro ?_
    have hski : req.skips = true := (skips_iff hpro.user.1).mpr hbare
    rw [csrfMiddleware, HttpRequest.needsCheck, hski]
    simp
  · intro h hpro hpas
    by_cases hbare : BareBearer req
    · exact h hpro hbare
    · have hski : req.skips = false := by
        rw [← Bool.not_eq_true, skips_iff hpro.user.1]
        exact hbare
      have hnee : req.needsCheck = true := by
        simp [HttpRequest.needsCheck, hpro.method, hpro.path, hski, hpro.user.cookie]
      rw [csrfMiddleware, if_pos hnee] at hpas
      exact compareTokens_eq_passed hpas

/-- The token `jwt` is one of `ann`. -/
def sampleDecode (token : Str) : Option Claims :=
  if token = "jwt" then some ⟨some "ann", some 0⟩ else none

/-- A request with the session cookie and an `Authorization` header, and without tokens. -/
def sampleRequest (authorization : String) : HttpRequest where
  method := "POST"
  urlPath := "/api/v1/users"
  headers := [("authorization".toList.map fun c => c.toNat.toUInt8,
    authorization.toList.map fun c => c.toNat.toUInt8)]
  cookies := [(sessionCookieName, "jwt")]

/-- A header with a scheme and nothing behind it is let in by the cookie, without a token. -/
theorem bare_bearer :
    ¬Covered sampleDecode [Accounts.sampleAdmin "ann"] (sampleRequest "Bearer ") := by
  intro h
  have hpas : csrfMiddleware (sampleRequest "Bearer ") = .passed := by decide
  have hpro : Protected sampleDecode [Accounts.sampleAdmin "ann"]
      (sampleRequest "Bearer ") :=
    ⟨by decide, by decide, by decide, Accounts.sampleAdmin "ann", by rfl⟩
  obtain ⟨token, -, hcoo, -⟩ := h hpro hpas
  exact absurd hcoo (by
    have hnone : (sampleRequest "Bearer ").cookie csrfCookieName = none := by decide
    simp [hnone])

/-- Another scheme is not taken for it. -/
example : csrfMiddleware (sampleRequest "Basic dXNlcg==") = forbidden := by decide

end Control.Csrf
