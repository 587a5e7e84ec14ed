/-
Fetching a feed and storing its domains: `feeds/ingest.py`.

`fetchAndIngest` is the routine with every exit it has.  The outside world is
its argument: what the URL guard and the HTTP server say, the hash of the
stored text, and whether the disk takes the write.

* `fetchAndIngest_cases` — the two things one ingest can do: leave everything
  as it was, or replace the feed's file by a set that passed the sanity check;
* `mem_loadDomains_replace` — reading the replaced file back gives exactly the
  parsed set.
-/
import MantisDns.Parsers

open Text List

namespace Control

/-- `MUST_NEVER_BLOCK`. -/
def mustNeverBlock : List Str :=
  ["google.com", "microsoft.com", "apple.com", "cloudflare.com",
    "amazon.com", "github.com"]

/-- `DEFAULT_MAX_DELTA_PCT`. -/
def defaultMaxDeltaPct : ℕ := 50

/-- `DEFAULT_MIN_DOMAINS`. -/
def defaultMinDomains : ℕ := 1

/-- `MAX_FEED_BYTES`. -/
def maxFeedBytes : ℕ := 64 * 1024 * 1024

/-- The columns of a `Feed` row that ingestion and compilation read. -/
structure Feed where
  id : Str
  categoryId : Str
  url : Str
  format : Format
  license : Str
  enabled : Bool
  lastVersion : Option Str
  lastEtag : Option Str
  lastDomainCount : Option ℕ
  deriving DecidableEq

/-- `IngestResult.status`. -/
inductive IngestStatus
  | updated
  | unchanged
  | rejected
  | error
  deriving DecidableEq

/-- `IngestResult`. -/
structure IngestResult where
  status : IngestStatus
  domainCount : ℕ := 0
  reason : Str := []
  deriving DecidableEq

/-- The storage directory: the text of `<feed id>.domains.txt`, if there is one. -/
abbrev Storage := Str → Option Str

/-- What `client.stream` comes to: an `httpx.HTTPError` before the response,
or a response whose body arrives in chunks and may break off with one. -/
inductive Fetch
  | failed (message : Str)
  | response (statusCode : ℕ) (etag : Option Str) (chunks : List (List UInt8))
      (broken : Option Str)

/-- What an ingest meets outside the process. -/
structure IngestEnv where
  /-- `resolve_pinned_url`: the pinned URL and the host, or its `ValueError`. -/
  resolvePinnedUrl : Str → Except Str (Str × Str)
  /-- The server's answer to the pinned URL, `Host` and `If-None-Match`. -/
  stream : Str → Str → Option Str → Fetch
  /-- `hashlib.sha256(...).hexdigest()[:16]`. -/
  sha256 : Str → Str
  /-- The `f"{delta_pct:.1f}"` of a previous and a new count. -/
  formatDeltaPct : ℕ → ℕ → Str
  /-- Whether the temporary file could be written and moved into place. -/
  diskOk : Bool

/-! ### Reading and writing the stored set -/

/-- `sorted(domains)`. -/
def sorted (domains : List Str) : List Str := domains.insertionSort (· ≤ ·)

/-- `"\n".join(sorted(new_domains))`. -/
def domainsText (domains : List Str) : Str := join "\n" (sorted domains)

/-- `load_domains`. -/
def loadDomains (files : Storage) (feedId : Str) : List Str :=
  match files feedId with
  | none => []
  | some text => (splitlines text).dedup

/-- Replaces one feed's file. -/
def Storage.replace (files : Storage) (feedId text : Str) : Storage :=
  Function.update files feedId (some text)

theorem loadDomains_replace_ne (files : Storage) {id id' : Str} (h : id' ≠ id) (text : Str) :
    loadDomains (files.replace id text) id' = loadDomains files id' := by
  rw [loadDomains, loadDomains, Storage.replace, Function.update_of_ne h]

theorem mem_loadDomains_replace (files : Storage) (id : Str) {ds : List Str}
    (hds : ∀ d ∈ ds, d ≠ [] ∧ ∀ c ∈ d, isLineBreak c = false) (d : Str) :
    d ∈ loadDomains (files.replace id (domainsText ds)) id ↔ d ∈ ds := by
  have hsor : ∀ d ∈ sorted ds, d ≠ [] ∧ ∀ c ∈ d, isLineBreak c = false :=
    fun d hd => hds d ((mem_insertionSort _).mp hd)
  rw [loadDomains, Storage.replace, Function.update_self]
  simp only [domainsText, splitlines_join hsor]
  rw [mem_dedup]
  exact mem_insertionSort _

/-! ### `_sanity_check` -/

/-- `str` of a list of plain host names. -/
def listText (names : List Str) : Str :=
  "[" ++ join ", " (names.map fun n => "'" ++ n ++ "'") ++ "]"

/-- The percentage check on the change of the domain count: with counts below
`2 ^ 52` the float comparison decides `|new - previous| / previous * 100 > 50`
exactly. -/
def deltaExceeds (previousCount count : ℕ) : Bool :=
  previousCount > 0 &&
    100 * (Int.natAbs ((count : ℤ) - previousCount)) > defaultMaxDeltaPct * previousCount

/-- The last check of `_sanity_check`, on the change of the count. -/
def deltaReason (formatDeltaPct : ℕ → ℕ → Str) (previous count : ℕ) : Option Str :=
  if deltaExceeds previous count then
    some ("domain count changed " ++ formatDeltaPct previous count ++ "% (" ++
      natText previous ++ " -> " ++ natText count ++ "), exceeds " ++
      natText defaultMaxDeltaPct ++ "% threshold")
  else none

/-- `MUST_NEVER_BLOCK & new_domains`. -/
def protectedHit (newDomains : List Str) : List Str := mustNeverBlock.filter (· ∈ newDomains)

/-- `_sanity_check`: the reason for a rejection, or `none` if the new set
passes. -/
def sanityCheck (formatDeltaPct : ℕ → ℕ → Str) (newDomains : List Str)
    (previousCount : Option ℕ) : Option Str :=
  if newDomains.length < defaultMinDomains then
    some ("domain count " ++ natText newDomains.length ++ " below minimum " ++
      natText defaultMinDomains)
  else if protectedHit newDomains ≠ [] then
    some ("feed contains must-never-block domains: " ++
      listText (sorted (protectedHit newDomains)))
  else
    previousCount.bind fun previous => deltaReason formatDeltaPct previous newDomains.length

theorem not_mem_of_sanityCheck {fmt : ℕ → ℕ → Str} {ds : List Str} {prev : Option ℕ}
    (h : sanityCheck fmt ds prev = none) : ∀ d ∈ ds, d ∉ mustNeverBlock := by
  rw [sanityCheck] at h
  split at h
  · exact absurd h (Option.some_ne_none _)
  · split at h
    · exact absurd h (Option.some_ne_none _)
    · rename_i hhit
      rw [not_not, protectedHit, filter_eq_nil_iff] at hhit
      intro d hd hnev
      exact hhit d hnev (by simpa using hd)

/-! ### `fetch_and_ingest` -/

/-- The download loop: gathers the chunks and gives up above `MAX_FEED_BYTES`. -/
def readBody (body : List UInt8) : List (List UInt8) → Option (List UInt8)
  | [] => some body
  | chunk :: rest =>
    if (body ++ chunk).length > maxFeedBytes then none else readBody (body ++ chunk) rest

/-- `headers["If-None-Match"]`: only a non-empty ETag is sent. -/
def ifNoneMatch (feed : Feed) : Option Str := feed.lastEtag.filter (· ≠ [])

/-- From the URL guard to the end of the download: the ETag and the body, or
the result the routine returns early with. -/
def fetchBody (env : IngestEnv) (feed : Feed) : Except IngestResult (Option Str × List UInt8) :=
  match env.resolvePinnedUrl feed.url with
  | .error e =>
    .error { status := .error, reason := "SSRF guard rejected feed URL: " ++ e }
  | .ok (pinnedUrl, originalHost) =>
    match env.stream pinnedUrl originalHost (ifNoneMatch feed) with
    | .failed e => .error { status := .error, reason := e }
    | .response statusCode etag chunks broken =>
      if statusCode = 304 then
        .error { status := .unchanged, domainCount := feed.lastDomainCount.getD 0 }
      else if statusCode ≠ 200 then
        .error { status := .error, reason := "HTTP " ++ natText statusCode }
      else
        match readBody [] chunks, broken with
        | none, _ =>
          .error { status := .error,
                   reason := "feed body exceeds " ++ natText maxFeedBytes ++
                     "-byte cap" }
        | some _, some e => .error { status := .error, reason := e }
        | some body, none => .ok (etag, body)

/-- What an ingest leaves behind: the storage, the feed object and the result,
which is missing when a disk error propagates. -/
structure Ingested where
  files : Storage
  feed : Feed
  result : Option IngestResult

/-- The tail of the routine: write, rename, record. -/
def storeDomains (env : IngestEnv) (files : Storage) (feed : Feed) (etag : Option Str)
    (newDomains : List Str) : Ingested :=
  let text := domainsText newDomains
  { files := files.replace feed.id text
    feed := { feed with
      lastEtag := etag
      lastDomainCount := some newDomains.length
      lastVersion := some (env.sha256 text) }
    result := some { status := .updated, domainCount := newDomains.length } }

/-- From the sanity check on. -/
def checkAndStore (env : IngestEnv) (files : Storage) (feed : Feed) (etag : Option Str)
    (newDomains : List Str) : Ingested :=
  match sanityCheck env.formatDeltaPct newDomains feed.lastDomainCount with
  | some reason =>
    ⟨files, feed, some { status := .rejected, domainCount := newDomains.length,
                         reason := reason }⟩
  | none =>
    if env.diskOk then storeDomains env files feed etag newDomains else ⟨files, feed, none⟩

/-- The value of a feed's `format` column. -/
def Format.name : Format → Str
  | .hostfile => "hostfile"
  | .domainList => "domain-list"
  | .unknown name => name

/-- `fetch_and_ingest`. -/
def fetchAndIngest (U : CaseMap) (env : IngestEnv) (files : Storage) (feed : Feed) : Ingested :=
  match parsers feed.format with
  | none =>
    ⟨files, feed, some { status := .error,
                         reason := "unknown feed format '" ++ feed.format.name ++
                           "'" }⟩
  | some parser =>
    match fetchBody env feed with
    | .error result => ⟨files, feed, some result⟩
    | .ok (etag, body) => checkAndStore env files feed etag (parser U (decodeUtf8Replace body))

theorem fetchBody_error_status {env : IngestEnv} {feed : Feed} {r : IngestResult}
    (h : fetchBody env feed = .error r) : r.status ≠ .updated := by
  rw [fetchBody.eq_def] at h
  repeat' split at h
  all_goals first
    | (rw [Except.error.injEq] at h; rw [← h]; simp)
    | simp at h

/-- **What one ingest can do.**  Either nothing changes and the result, if
there is one, is not "updated"; or a body was downloaded, its parsed set passed
the sanity check and is what the feed's file now holds. -/
theorem fetchAndIngest_cases (U : CaseMap) (env : IngestEnv) (files : Storage) (feed : Feed) :
    ((fetchAndIngest U env files feed).files = files ∧
      (fetchAndIngest U env files feed).feed = feed ∧
      ∀ r, (fetchAndIngest U env files feed).result = some r → r.status ≠ .updated) ∨
    ∃ parser etag body, parsers feed.format = some parser ∧
      fetchBody env feed = .ok (etag, body) ∧
      sanityCheck env.formatDeltaPct (parser U (decodeUtf8Replace body)) feed.lastDomainCount =
        none ∧
      fetchAndIngest U env files feed =
        storeDomains env files feed etag (parser U (decodeUtf8Replace body)) := by
  rw [fetchAndIngest]
  split
  · exact .inl ⟨rfl, rfl, by rintro r ⟨⟩; simp⟩
  · rename_i parser hpar
    split
    · rename_i result hbody
      refine .inl ⟨rfl, rfl, ?_⟩
      rintro r ⟨⟩
      exact fetchBody_error_status hbody
    · rename_i etag body hbody
      rw [checkAndStore]
      split
      · exact .inl ⟨rfl, rfl, by rintro r ⟨⟩; simp⟩
      · rename_i hsane
        split
        · -- the only branch that stores
          exact .inr ⟨parser, etag, body, hpar, hbody, hsane, rfl⟩
        · exact .inl ⟨rfl, rfl, by simp⟩

/-! ### Protected names never reach the storage -/

/-- No stored file lists a name of `MUST_NEVER_BLOCK`. -/
def Storage.Safe (files : Storage) : Prop :=
  ∀ id, ∀ d ∈ loadDomains files id, d ∉ mustNeverBlock

theorem Storage.safe_empty : Storage.Safe fun _ => none := by
  intro id d hd
  simp [loadDomains] at hd

theorem fetchAndIngest_safe (U : CaseMap) (env : IngestEnv) {files : Storage} (feed : Feed)
    (hsafe : files.Safe) : (fetchAndIngest U env files feed).files.Safe := by
  rcases fetchAndIngest_cases U env files feed with
    ⟨hfil, -, -⟩ | ⟨parser, etag, body, hp, -, hsane, heq⟩
  · rwa [hfil]
  · rw [heq]
    intro id d hd
    by_cases hid : id = feed.id
    · subst hid
      have hmem := (mem_loadDomains_replace files feed.id (parse_lineSafe hp U _) d).mp hd
      exact not_mem_of_sanityCheck hsane d hmem
    · rw [storeDomains, loadDomains_replace_ne files hid] at hd
      exact hsafe id d hd

end Control
