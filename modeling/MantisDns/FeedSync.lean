/-
Feeds between the API and the ingest job: `run_ingest` of `scheduler.py`,
`update_feed` and `delete_feed` of `api/feed_routers.py`.

`run_ingest` loads the row, fetches for as long as it takes, and merges its copy of
the row back.  The feed lock keeps two ingests apart, but the API does not take it.

* `FeedEdits.Stmt` — the job and the API, statement by statement;
* `FeedEdits.ingest_keeps_edits` — while edits wait for the job, its commit keeps what
  the API has set and creates no row;
* `FeedEdits.stale_merge` — an edit during the fetch is reverted, a deletion undone;
* `FeedSource.World.next` — edits, ingests and changes of the sources, one after the other;
* `FeedSource.stored_matches_source` — while no edit makes the remembered ETag mean
  something else, the stored file is the source's;
* `FeedSource.stale_etag` — after a change of the format the old file stays.
-/
import MantisDns.Ingest
import MantisDns.Requests
import MantisDns.Table

open Text Table Requests Function Option

namespace Control

/-! ### Rows -/

/-- A row of `feeds`. -/
structure FeedRow extends Feed where
  intervalSeconds : ℤ
  provider : Str
  fromCatalog : Bool
  lastFetchedAt : Option ℤ
  deriving DecidableEq

/-- What the API sets. -/
structure FeedConfig where
  categoryId : Str
  url : Str
  format : Format
  license : Str
  enabled : Bool
  intervalSeconds : ℤ
  provider : Str

def FeedRow.config (row : FeedRow) : FeedConfig where
  categoryId := row.categoryId
  url := row.url
  format := row.format
  license := row.license
  enabled := row.enabled
  intervalSeconds := row.intervalSeconds
  provider := row.provider

/-- `FeedUpdate`. -/
structure FeedUpdate where
  categoryId : Patch Str := .unset
  url : Patch Str := .unset
  format : Patch Format := .unset
  intervalSeconds : Patch ℤ := .unset
  license : Patch Str := .unset
  provider : Patch Str := .unset
  enabled : Patch Bool := .unset

/-- The `setattr` loop of `update_feed`; `none` where pydantic, the URL guard or a constraint
refuses it. -/
def FeedUpdate.apply (checkUrlSafe : Str → Bool) (p : FeedUpdate) (row : FeedRow) :
    Option FeedRow := do
  let categoryId ← p.categoryId.required row.categoryId
  let url ← p.url.required row.url
  let format ← p.format.required row.format
  let intervalSeconds ← p.intervalSeconds.required row.intervalSeconds
  let license ← p.license.required row.license
  let provider ← p.provider.required row.provider
  let enabled ← p.enabled.required row.enabled
  if p.url.all checkUrlSafe ∧ p.intervalSeconds.all (60 ≤ ·) then
    return { row with categoryId, url, format, intervalSeconds, license, provider, enabled }
  else none

theorem FeedUpdate.frame {checkUrlSafe : Str → Bool} {p : FeedUpdate} {row row' : FeedRow}
    (h : p.apply checkUrlSafe row = some row') :
    row'.id = row.id ∧ row'.lastEtag = row.lastEtag := by
  simp only [FeedUpdate.apply, bind_eq_bind, bind_eq_some_iff] at h
  obtain ⟨_, -, _, -, _, -, _, -, _, -, _, -, _, -, h⟩ := h
  obtain ⟨-, h⟩ := ite_none_right_eq_some.mp h
  cases h
  exact ⟨rfl, rfl⟩

/-- The row after an `UPDATE`. -/
def FeedRow.write (loaded new row : FeedRow) : FeedRow where
  id := row.id
  categoryId := column (·.categoryId) loaded new row
  url := column (·.url) loaded new row
  format := column (·.format) loaded new row
  license := column (·.license) loaded new row
  enabled := column (·.enabled) loaded new row
  lastVersion := column (·.lastVersion) loaded new row
  lastEtag := column (·.lastEtag) loaded new row
  lastDomainCount := column (·.lastDomainCount) loaded new row
  intervalSeconds := column (·.intervalSeconds) loaded new row
  provider := column (·.provider) loaded new row
  fromCatalog := column (·.fromCatalog) loaded new row
  lastFetchedAt := column (·.lastFetchedAt) loaded new row

theorem FeedRow.config_write (loaded new : FeedRow) :
    (loaded.write new loaded).config = new.config := by
  simp only [FeedRow.config, FeedRow.write, column_self]

/-- The object after a `fetch_and_ingest` that stored a new set. -/
def FeedRow.ingested (U : CaseMap) (env : IngestEnv) (files : Storage) (now : ℤ) (feed : FeedRow) :
    FeedRow :=
  { feed with
    toFeed := (fetchAndIngest U env files feed.toFeed).feed
    lastFetchedAt := some now }

theorem FeedRow.config_ingested (U : CaseMap) (env : IngestEnv) (files : Storage) (now : ℤ)
    (feed : FeedRow) : (feed.ingested U env files now).id = feed.id ∧
      (feed.ingested U env files now).config = feed.config := by
  rw [FeedRow.ingested]
  rcases fetchAndIngest_cases U env files feed.toFeed with
    ⟨-, hfeed, -⟩ | ⟨parser, etag, body, -, -, -, heq⟩
  · simp only [hfeed, FeedRow.config, and_self]
  · simp only [heq, storeDomains, FeedRow.config, and_self]

namespace FeedEdits

/-! ### Statements -/

/-- The table and the feed locks. -/
structure Feeds where
  rows : Str → Option FeedRow
  locked : Str → Bool

def Feeds.put (db : Feeds) (id : Str) (row : Option FeedRow) : Feeds :=
  { db with rows := update db.rows id row }

def Feeds.lock (db : Feeds) (id : Str) (held : Bool) : Feeds :=
  { db with locked := update db.locked id held }

/-- The flush after `db.merge`, with the row that the merge found: an `UPDATE`, or an
`INSERT` when there was none.  An `UPDATE` of a deleted row and an `INSERT` over a new one
fail. -/
def mergeFlush (feed : FeedRow) : Option FeedRow → Option FeedRow → Option FeedRow
  | none, none => some feed
  | none, some row => some row
  | some loaded, some row => some (loaded.write feed row)
  | some _, none => none

inductive Phase
  | idle
  | locked (feedId : Str)
  | fetching (feed : FeedRow)
  | fetched (feed : FeedRow)
  | merged (feed : FeedRow) (found : Option FeedRow)
  | patching (loaded new : FeedRow)
  | deleting (feedId : Str)

/-- The object that the job fetches with. -/
def Phase.feed : Phase → Option FeedRow
  | .fetching feed => some feed
  | .fetched feed => some feed
  | .merged feed _ => some feed
  | _ => none

/-- The feed whose lock the job holds. -/
def Phase.holds : Phase → Option Str
  | .locked id => some id
  | p => p.feed.map fun feed => feed.id

/-- The feed that the API is about to change. -/
def Phase.edits : Phase → Option Str
  | .patching loaded _ => some loaded.id
  | .deleting id => some id
  | _ => none

inductive Stmt (U : CaseMap) (checkUrlSafe : Str → Bool) (db : Feeds) :
    Phase → Feeds → Phase → Prop
  -- run_ingest
  | acquire {id : Str} (hfree : db.locked id = false) :
    Stmt U checkUrlSafe db .idle (db.lock id true) (.locked id)
  | expunge {id : Str} {feed : FeedRow} (hfeed : db.rows id = some feed)
      (henabled : feed.enabled = true) :
    Stmt U checkUrlSafe db (.locked id) db (.fetching feed)
  | fetch {feed : FeedRow} {env : IngestEnv} {files : Storage} {r : IngestResult} {now : ℤ}
      (h : (fetchAndIngest U env files feed.toFeed).result = some r) (hr : r.status = .updated) :
    Stmt U checkUrlSafe db (.fetching feed) db (.fetched (feed.ingested U env files now))
  | merge {feed : FeedRow} :
    Stmt U checkUrlSafe db (.fetched feed) db (.merged feed (db.rows feed.id))
  | commit {feed : FeedRow} {found : Option FeedRow} :
    Stmt U checkUrlSafe db (.merged feed found)
      ((db.put feed.id (mergeFlush feed found (db.rows feed.id))).lock feed.id false) .idle
  -- no such feed, another status, or an exception anywhere
  | leave {p : Phase} {id : Str} (hp : p.holds = some id) :
    Stmt U checkUrlSafe db p (db.lock id false) .idle
  -- update_feed
  | load {id : Str} {loaded new : FeedRow} {p : FeedUpdate} (hrow : db.rows id = some loaded)
      (hnew : p.apply checkUrlSafe loaded = some new) :
    Stmt U checkUrlSafe db .idle db (.patching loaded new)
  | update {loaded new row : FeedRow} (hrow : db.rows loaded.id = some row) :
    Stmt U checkUrlSafe db (.patching loaded new)
      (db.put loaded.id (some (loaded.write new row))) .idle
  -- delete_feed
  | find {id : Str} {loaded : FeedRow} (hrow : db.rows id = some loaded) :
    Stmt U checkUrlSafe db .idle db (.deleting id)
  | delete {id : Str} : Stmt U checkUrlSafe db (.deleting id) (db.put id none) .idle
  | rollback {p : Phase} {id : Str} (hp : p.edits = some id) : Stmt U checkUrlSafe db p db .idle

/-! ### Edits that wait -/

/-- The API commits a change of a feed only while no ingest of it is under way. -/
def EditsApart {ι : Type} (s : State ι Feeds Phase) (i : ι) : Prop :=
  ∀ id, (s.phase i).edits = some id → s.db.locked id = false

/-- What the API has set stays, and no row comes or goes. -/
def Keeps (db db' : Feeds) : Prop :=
  ∀ id, (db'.rows id).map FeedRow.config = (db.rows id).map FeedRow.config

/-- Each row is stored under its own id. -/
def Keyed (db : Feeds) : Prop := ∀ id row, db.rows id = some row → row.id = id

/-- What the job knows of the table: it holds the lock, its copy has the columns that the
API sets, and the merge has found the row of now. -/
structure Knows (db : Feeds) (p : Phase) : Prop where
  locked : ∀ id, p.holds = some id → db.locked id = true
  config : ∀ feed, p.feed = some feed →
    (db.rows feed.id).map FeedRow.config = some feed.config
  found : ∀ feed found, p = .merged feed found → found = db.rows feed.id

/-- Two jobs hold different feeds. -/
def Exclusive (p q : Phase) : Prop := ∀ id, p.holds = some id → q.holds ≠ some id

variable {U : CaseMap} {checkUrlSafe : Str → Bool} {db db' : Feeds} {p q : Phase}
variable {feed : FeedRow} {id id' : Str} {row : Option FeedRow}

theorem Phase.holds_of_feed (h : p.feed = some feed) :
    p.holds = some feed.id := by
  cases p with
  | locked => simp [Phase.feed] at h
  | _ => exact congrArg (Option.map fun feed : FeedRow => feed.id) h

theorem Feeds.put_self (id : Str) (row : Option FeedRow) : (db.put id row).rows id = row :=
  update_self ..

theorem Feeds.put_ne (row : Option FeedRow) (h : id' ≠ id) :
    (db.put id row).rows id' = db.rows id' := update_of_ne h ..

theorem Feeds.lock_self (id : Str) (held : Bool) : (db.lock id held).locked id = held :=
  update_self ..

theorem Feeds.lock_ne (held : Bool) (h : id' ≠ id) :
    (db.lock id held).locked id' = db.locked id' := update_of_ne h ..

theorem Knows.congr (h : Knows db q) (hrows : ∀ id, q.holds = some id →
      db'.rows id = db.rows id ∧ db'.locked id = db.locked id) : Knows db' q where
  locked := by
    intro id hid
    rw [(hrows id hid).2]
    exact h.locked id hid
  config := by
    intro feed hfeed
    rw [(hrows feed.id (Phase.holds_of_feed hfeed)).1]
    exact h.config feed hfeed
  found := by
    intro feed found hq
    rw [(hrows feed.id (Phase.holds_of_feed (by rw [hq, Phase.feed]))).1]
    exact h.found feed found hq

theorem Knows.of_holds_none (h : q.holds = none) : Knows db q where
  locked := by
    intro id hid
    exact absurd (h.symm.trans hid) (by simp)
  config := by
    intro feed hfeed
    exact absurd (h.symm.trans (Phase.holds_of_feed hfeed)) (by simp)
  found := by
    intro feed found hq
    have hhol : q.holds = some feed.id := Phase.holds_of_feed (by rw [hq, Phase.feed])
    exact absurd (h.symm.trans hhol) (by simp)

theorem Knows.config_mergeFlush {found : Option FeedRow} (h : Knows db (.merged feed found)) :
    (mergeFlush feed found (db.rows feed.id)).map FeedRow.config =
      (db.rows feed.id).map FeedRow.config := by
  -- nobody has written to the row since the job loaded it
  have hfnd : found = db.rows feed.id := h.found feed found rfl
  have hcon := h.config feed rfl
  cases hrow : db.rows feed.id with
  | none => simp [hrow] at hcon
  | some =>
    rw [hrow, map_some, some_inj] at hcon
    rw [hfnd, hrow, mergeFlush, map_some, map_some, FeedRow.config_write, hcon]

theorem Keeps.put (h : row.map FeedRow.config = (db.rows id).map FeedRow.config) :
    Keeps db (db.put id row) := by
  intro id'
  by_cases hid : id' = id
  · rw [hid, Feeds.put_self, h]
  · rw [Feeds.put_ne _ hid]

/-- **What a step of the job changes**: the columns of the fetch. -/
theorem Stmt.keeps (h : Stmt U checkUrlSafe db p db' q) (hkn : Knows db p)
    (hp : p.holds = some id) : Keeps db db' := by
  cases h with
  | commit => exact Keeps.put hkn.config_mergeFlush
  | update | delete => simp [Phase.holds, Phase.feed] at hp
  | _ => exact fun _ => rfl

/-- **What a statement leaves alone**: the feeds that others have locked. -/
theorem Stmt.frame (h : Stmt U checkUrlSafe db p db' q) (hkey : Keyed db)
    (hloc : db.locked id = true) (hhol : p.holds ≠ some id) (hedi : p.edits ≠ some id) :
    db'.rows id = db.rows id ∧ db'.locked id = db.locked id ∧ q.holds ≠ some id := by
  -- a lock is taken when it is free, and rows are written by its holder or an edit
  cases h with
  | @acquire id' hfree =>
    have hne : id ≠ id' := by
      intro heq
      rw [heq, hfree] at hloc
      exact Bool.noConfusion hloc
    refine ⟨rfl, Feeds.lock_ne _ hne, ?_⟩
    rw [Phase.holds]
    intro heq
    exact hne (some_inj.mp heq).symm
  | @expunge id' feed hfeed =>
    refine ⟨rfl, rfl, ?_⟩
    show some feed.id ≠ some id
    rw [hkey id' feed hfeed]
    exact hhol
  | @fetch feed env files r now =>
    refine ⟨rfl, rfl, ?_⟩
    show some (feed.ingested U env files now).id ≠ some id
    rw [(feed.config_ingested U env files now).1]
    exact hhol
  | merge => exact ⟨rfl, rfl, hhol⟩
  | @commit feed found =>
    have hne : id ≠ feed.id := by
      intro heq
      exact hhol (by rw [heq, Phase.holds_of_feed rfl])
    exact ⟨Feeds.put_ne _ hne, Feeds.lock_ne _ hne, by simp [Phase.holds, Phase.feed]⟩
  | leave hp =>
    have hne := fun heq => hhol (hp.trans (congrArg some (Eq.symm heq)))
    exact ⟨rfl, Feeds.lock_ne _ hne, by simp [Phase.holds, Phase.feed]⟩
  | load | find | rollback => exact ⟨rfl, rfl, by simp [Phase.holds, Phase.feed]⟩
  | update | delete =>
    have hne := fun heq => hedi (congrArg some (Eq.symm heq))
    exact ⟨Feeds.put_ne _ hne, rfl, by simp [Phase.holds, Phase.feed]⟩

theorem Keyed.put (h : Keyed db) (hrow : ∀ r, row = some r → r.id = id) :
    Keyed (db.put id row) := by
  intro id' r hr
  by_cases hid : id' = id
  · rw [hid, Feeds.put_self] at hr
    rw [hid, hrow r hr]
  · rw [Feeds.put_ne _ hid] at hr
    exact h id' r hr

theorem Keyed.mergeFlush (h : Keyed db) (feed : FeedRow) (found : Option FeedRow) (r : FeedRow)
    (hr : mergeFlush feed found (db.rows feed.id) = some r) : r.id = feed.id := by
  cases hrow : db.rows feed.id with
  | none =>
    rw [hrow] at hr
    cases found with
    | none => rw [← some_inj.mp hr]
    | some => simp [FeedEdits.mergeFlush] at hr
  | some row =>
    rw [hrow] at hr
    cases found with
    | none | some =>
      rw [← some_inj.mp hr]
      exact h _ row hrow

theorem Stmt.keyed (h : Stmt U checkUrlSafe db p db' q) (hkey : Keyed db) : Keyed db' := by
  cases h with
  | commit => exact hkey.put (hkey.mergeFlush _ _)
  | @update loaded new row hrow =>
    refine hkey.put fun r hr => ?_
    cases hr
    exact hkey loaded.id row hrow
  | delete => exact hkey.put fun r hr => absurd hr (by simp)
  | _ => exact hkey

theorem Stmt.knows (h : Stmt U checkUrlSafe db p db' q) (hkey : Keyed db) (hkn : Knows db p) :
    Knows db' q := by
  cases h with
  | @acquire id hfree =>
    refine ⟨fun id' hid => ?_, by simp [Phase.feed], by simp⟩
    rw [← some_inj.mp hid, Feeds.lock_self]
  | @expunge id feed hfeed =>
    -- the fresh read, under the lock
    have hid : feed.id = id := hkey id feed hfeed
    refine ⟨fun id' hid' => ?_, fun feed' hfeed' => ?_, by simp⟩
    · cases hid'
      show db.locked feed.id = true
      rw [hid]
      exact hkn.locked id rfl
    · rw [← some_inj.mp hfeed', hid, hfeed, map_some]
  | @fetch feed env files r now =>
    obtain ⟨hid, hcon⟩ := feed.config_ingested U env files now
    refine ⟨fun id' hid' => ?_, fun feed' hfeed' => ?_, by simp⟩
    · cases hid'
      show db.locked (feed.ingested U env files now).id = true
      rw [hid]
      exact hkn.locked feed.id rfl
    · rw [← some_inj.mp hfeed', hcon, hid]
      exact hkn.config feed rfl
  | @merge feed =>
    refine ⟨hkn.locked, hkn.config, fun feed' found heq => ?_⟩
    obtain ⟨rfl, rfl⟩ := Phase.merged.injEq .. ▸ heq
    rfl
  | _ => exact .of_holds_none rfl

theorem Stmt.others (h : Stmt U checkUrlSafe db p db' q)
    (hapa : ∀ id, p.edits = some id → db.locked id = false) (hkey : Keyed db) {r : Phase}
    (hr : Knows db r) (hX : Exclusive p r) : Knows db' r ∧ Exclusive q r := by
  have hfr : ∀ id, r.holds = some id →
      db'.rows id = db.rows id ∧ db'.locked id = db.locked id ∧ q.holds ≠ some id := by
    intro id hid
    have hloc : db.locked id = true := hr.locked id hid
    refine h.frame hkey hloc (fun hp => hX id hp hid) fun hedit => ?_
    rw [hapa id hedit] at hloc
    exact Bool.noConfusion hloc
  exact ⟨hr.congr fun id hid => ⟨(hfr id hid).1, (hfr id hid).2.1⟩,
    fun id hq hid => (hfr id hid).2.2 hq⟩

/-- **Edits survive ingestion**: whatever the requests do, as long as an edit of a feed waits
for its ingest, no step of an ingest changes what the API has set, and none creates a row. -/
theorem ingest_keeps_edits {ι : Type} [DecidableEq ι] {s t : State ι Feeds Phase}
    (hkeyed : Keyed db) (hrun : RunWhile (Stmt U checkUrlSafe) EditsApart ⟨db, fun _ => .idle⟩ s)
    {i : ι} {id : Str} (hi : (s.phase i).holds = some id)
    (hstep : Step (Stmt U checkUrlSafe) s i t) : Keeps s.db t.db := by
  obtain ⟨-, hkn, -⟩ := hrun.induct_pairs (G := Keyed) (I := Knows) (X := Exclusive)
    (fun p q h id hq hp => h id hp hq)
    (fun s i d p hC hG hI hstmt => ⟨hstmt.keyed hG, hstmt.knows hG hI⟩)
    (fun s i d p q hC hG hI hstmt hq hX => hstmt.others hC hG hq hX)
    hkeyed (fun _ => .of_holds_none rfl)
    (fun _ _ _ _ hp => absurd hp (by simp [Phase.holds, Phase.feed]))
  obtain ⟨hstmt⟩ := hstep
  exact hstmt.keeps (hkn i) hi

/-! A feed with one line. -/

def sampleRow : FeedRow where
  id := "hosts"
  categoryId := "ads"
  url := "http://lists.example/hosts"
  format := .hostfile
  license := "MIT"
  enabled := true
  lastVersion := none
  lastEtag := none
  lastDomainCount := none
  intervalSeconds := 86400
  provider := "lists"
  fromCatalog := false
  lastFetchedAt := none

def sampleServer : IngestEnv where
  resolvePinnedUrl _ := .ok ("http://192.0.2.1/hosts", "lists.example")
  stream _ _ _ := .response 200 (some "v1") [utf8 "0.0.0.0 ads.example"] none
  sha256 text := natText text.length
  formatDeltaPct previous count := natText (100 * count / previous)
  diskOk := true

def sampleFeeds : Feeds := Feeds.put ⟨fun _ => none, fun _ => false⟩ sampleRow.id (some sampleRow)

def sampleIngested : FeedRow := sampleRow.ingested .ascii sampleServer (fun _ => none) 0

theorem sampleFeeds_keyed : Keyed sampleFeeds :=
  Keyed.put (fun id row hrow => absurd hrow (by simp)) fun row hrow => by
    rw [← some_inj.mp hrow]

theorem sampleFeeds_rows : sampleFeeds.rows sampleRow.id = some sampleRow := Feeds.put_self ..

theorem sampleIngested_id : sampleIngested.id = sampleRow.id :=
  (sampleRow.config_ingested .ascii sampleServer (fun _ => none) 0).1

def sampleFetched : State Bool Feeds Phase :=
  State.set ⟨sampleFeeds, fun _ => .idle⟩ true (sampleFeeds.lock sampleRow.id true)
    (.fetched sampleIngested)

theorem sampleFetched_run {C : State Bool Feeds Phase → Bool → Prop}
    (hC : ∀ s i, (s.phase i).edits = none → C s i) :
    RunWhile (Stmt .ascii fun _ => true) C ⟨sampleFeeds, fun _ => .idle⟩ sampleFetched := by
  have hres : (fetchAndIngest .ascii sampleServer (fun _ => none) sampleRow.toFeed).result =
      some ⟨.updated, 1, []⟩ := by decide +kernel
  have hloc : RunWhile (Stmt .ascii fun _ => true) C ⟨sampleFeeds, fun _ => .idle⟩ _ :=
    RunWhile.stmt .refl (i := true) (p := .locked sampleRow.id) (hC _ _ rfl) (.acquire rfl)
  have hfet := hloc.stmt (i := true) (p := .fetching sampleRow) (hC _ _ rfl)
    (by rw [phase_set_self]; exact .expunge sampleFeeds_rows rfl)
  rw [set_set] at hfet
  have hfetc := hfet.stmt (i := true) (p := .fetched sampleIngested) (hC _ _ rfl)
    (by rw [phase_set_self]; exact .fetch hres rfl)
  rwa [set_set] at hfetc

/-- An edit that has loaded the row during the fetch waits: the row takes the new ETag. -/
theorem ingest_keeps_sample : ∃ s t : State Bool Feeds Phase,
    RunWhile (Stmt .ascii fun _ => true) EditsApart ⟨sampleFeeds, fun _ => .idle⟩ s ∧
      (s.phase false).edits = some sampleRow.id ∧ Step (Stmt .ascii fun _ => true) s true t ∧
      (t.db.rows sampleRow.id).map (·.lastEtag) = some (some "v1".toList) ∧ Keeps s.db t.db := by
  have hfet := sampleFetched_run (C := EditsApart) fun s i h id hid =>
    absurd (h.symm.trans hid) (by simp)
  have hrow : sampleFetched.db.rows sampleRow.id = some sampleRow := sampleFeeds_rows
  have hload := hfet.stmt (i := false) (fun id hid => absurd hid.symm (some_ne_none id))
    (Stmt.load (p := { enabled := .value false }) hrow rfl)
  have hmer := hload.stmt (i := true) (p := .merged sampleIngested _)
    (fun id hid => absurd hid.symm (some_ne_none id)) Stmt.merge
  refine ⟨_, _, hmer, rfl, .stmt Stmt.commit, by decide +kernel, ?_⟩
  exact ingest_keeps_edits sampleFeeds_keyed hmer (by rw [phase_set_self]; rfl)
    (.stmt Stmt.commit)

/-- **An edit during the fetch.**  A feed that was switched off is switched on again, and
one that was deleted is created again. -/
theorem stale_merge : Keyed sampleFeeds ∧
    (∃ s t : State Bool Feeds Phase,
      RunWhile (Stmt .ascii fun _ => true) (fun _ _ => True) ⟨sampleFeeds, fun _ => .idle⟩ s ∧
        (s.phase true).holds = some sampleRow.id ∧ Step (Stmt .ascii fun _ => true) s true t ∧
        (s.db.rows sampleRow.id).map (·.enabled) = some false ∧
        (t.db.rows sampleRow.id).map (·.enabled) = some true) ∧
    ∃ s t : State Bool Feeds Phase,
      RunWhile (Stmt .ascii fun _ => true) (fun _ _ => True) ⟨sampleFeeds, fun _ => .idle⟩ s ∧
        (s.phase true).holds = some sampleRow.id ∧ Step (Stmt .ascii fun _ => true) s true t ∧
        s.db.rows sampleRow.id = none ∧ (t.db.rows sampleRow.id).isSome := by
  have hfet := sampleFetched_run (C := fun _ _ => True) fun _ _ _ => trivial
  have hrow : sampleFetched.db.rows sampleRow.id = some sampleRow := sampleFeeds_rows
  refine ⟨sampleFeeds_keyed, ?_, ?_⟩
  · -- a PATCH between the download and the merge is undone
    have hload := hfet.stmt (i := false) trivial
      (Stmt.load (p := { enabled := .value false }) hrow rfl)
    have hupd := hload.stmt (i := false) (p := .idle) trivial (Stmt.update hrow)
    have hmer := hupd.stmt (i := true) (p := .merged sampleIngested _) trivial Stmt.merge
    exact ⟨_, _, hmer, congrArg some sampleIngested_id, .stmt Stmt.commit, by decide +kernel,
      by decide +kernel⟩
  · -- a DELETE there is undone as well
    have hfind := hfet.stmt (i := false) trivial (Stmt.find hrow)
    have hdel := hfind.stmt (i := false) (p := .idle) trivial Stmt.delete
    have hmer := hdel.stmt (i := true) (p := .merged sampleIngested _) trivial Stmt.merge
    exact ⟨_, _, hmer, congrArg some sampleIngested_id, .stmt Stmt.commit, by decide +kernel,
      by decide +kernel⟩

end FeedEdits

/-! ### The stored file and its source -/

namespace FeedSource

/-- The rows, the stored files, and what each URL serves. -/
structure World where
  rows : Str → Option FeedRow
  files : Storage
  bodies : Str → List UInt8

inductive Label
  | patch (id : Str) (payload : FeedUpdate)
  | ingest (id : Str) (env : IngestEnv) (now : ℤ)
  | publish (url : Str) (body : List UInt8)

/-- One request or job, from its start to its commit. -/
def World.next (U : CaseMap) (checkUrlSafe : Str → Bool) (w : World) : Label → World
  | .patch id payload =>
    match (w.rows id).bind (payload.apply checkUrlSafe) with
    | some row => { w with rows := update w.rows id (some row) }
    | none => w
  | .ingest id env now =>
    match w.rows id with
    | none => w
    | some row =>
      { w with
        files := (fetchAndIngest U env w.files row.toFeed).files
        rows :=
          -- only a new set is committed
          if (fetchAndIngest U env w.files row.toFeed).result.map (·.status) = some .updated then
            update w.rows id (some (row.ingested U env w.files now))
          else w.rows }
  | .publish url body => { w with bodies := update w.bodies url body }

/-- Which ETags a server gives to which body of a URL. -/
abbrev Tags := Str → List UInt8 → Str → Prop

/-- An ETag of a URL stands for one body; other URLs may use it for theirs. -/
def Tags.Strong (T : Tags) : Prop := ∀ url b b' e, T url b e → T url b' e → b = b'

/-- The server of `url` answers conditional requests correctly. -/
structure Answers (T : Tags) (bodies : Str → List UInt8) (env : IngestEnv) (url : Str) : Prop where
  notModified : ∀ pinned host inm etag chunks broken,
    env.resolvePinnedUrl url = .ok (pinned, host) →
    env.stream pinned host inm = .response 304 etag chunks broken →
    ∃ e, inm = some e ∧ T url (bodies url) e
  ok : ∀ pinned host inm etag chunks, env.resolvePinnedUrl url = .ok (pinned, host) →
    env.stream pinned host inm = .response 200 etag chunks none →
    chunks.flatten = bodies url ∧ ∀ e, etag = some e → T url (bodies url) e

def Label.Correct (T : Tags) (w : World) : Label → Prop
  | .ingest id env _ => ∀ row, w.rows id = some row → Answers T w.bodies env row.url
  | _ => True

/-- A change of the URL or of the format finds no ETag remembered, or one that the new URL
does not use. -/
def Label.EtagSafe (T : Tags) (checkUrlSafe : Str → Bool) (w : World) : Label → Prop
  | .patch id payload => ∀ row row' e, w.rows id = some row →
      payload.apply checkUrlSafe row = some row' → ifNoneMatch row.toFeed = some e →
      (row'.url = row.url ∧ row'.format = row.format) ∨ ∀ b, ¬T row'.url b e
  | _ => True

/-- A run of the system against correct servers. -/
def RunWhile (T : Tags) (U : CaseMap) (checkUrlSafe : Str → Bool) (C : World → Label → Prop) :
    World → World → Prop :=
  Relation.ReflTransGen fun w w' =>
    ∃ l, C w l ∧ Label.Correct T w l ∧ w' = w.next U checkUrlSafe l

/-- The file is what the feed's format makes of `body`. -/
def Stored (U : CaseMap) (files : Storage) (feed : Feed) (body : List UInt8) : Prop :=
  ∃ parser, parsers feed.format = some parser ∧
    files feed.id = some (domainsText (parser U (decodeUtf8Replace body)))

/-- The remembered ETag speaks of the stored file. -/
def Coherent (T : Tags) (U : CaseMap) (w : World) : Prop :=
  ∀ id row, w.rows id = some row → row.id = id ∧
    ∀ e, ifNoneMatch row.toFeed = some e → ∀ b, T row.url b e → Stored U w.files row.toFeed b

theorem readBody_eq {body : List UInt8} {chunks : List (List UInt8)} {out : List UInt8}
    (h : readBody body chunks = some out) : out = body ++ chunks.flatten := by
  induction chunks generalizing body with
  | nil =>
    rw [readBody, some_inj] at h
    rw [List.flatten_nil, List.append_nil, h]
  | cons chunk rest ih =>
    rw [readBody] at h
    obtain ⟨-, h⟩ := ite_none_left_eq_some.mp h
    rw [ih h, List.flatten_cons, List.append_assoc]

variable {T : Tags} {U : CaseMap} {checkUrlSafe : Str → Bool} {env : IngestEnv} {feed : Feed}
  {bodies : Str → List UInt8} {files : Storage}

theorem fetchBody_cases (env : IngestEnv) (feed : Feed) :
    (∃ r, fetchBody env feed = .error r ∧ r.status = .error) ∨
    ∃ pinned host, env.resolvePinnedUrl feed.url = .ok (pinned, host) ∧
      ((∃ etag chunks broken r,
          env.stream pinned host (ifNoneMatch feed) = .response 304 etag chunks broken ∧
            fetchBody env feed = .error r) ∨
        ∃ etag chunks, env.stream pinned host (ifNoneMatch feed) = .response 200 etag chunks none ∧
          fetchBody env feed = .ok (etag, chunks.flatten)) := by
  rw [fetchBody]
  split
  · exact .inl ⟨_, rfl, rfl⟩
  rename_i pinned host hres
  split
  · exact .inl ⟨_, rfl, rfl⟩
  rename_i code etag chunks broken hstr
  split
  · -- 304: nothing is read
    rename_i hcode
    rw [hcode] at hstr
    exact .inr ⟨pinned, host, hres, .inl ⟨etag, chunks, broken, _, hstr, rfl⟩⟩
  split
  · exact .inl ⟨_, rfl, rfl⟩
  rename_i hcode
  split
  · exact .inl ⟨_, rfl, rfl⟩
  · exact .inl ⟨_, rfl, rfl⟩
  · rename_i out hread
    rw [not_not.mp hcode] at hstr
    rw [readBody_eq hread]
    exact .inr ⟨pinned, host, hres, .inr ⟨etag, chunks, hstr, rfl⟩⟩

theorem Answers.fetchBody_ok (h : Answers T bodies env feed.url) {etag : Option Str}
    {body : List UInt8} (hbody : fetchBody env feed = .ok (etag, body)) :
    body = bodies feed.url ∧ ∀ e, etag = some e → T feed.url (bodies feed.url) e := by
  rcases fetchBody_cases env feed with ⟨r, herr, -⟩ | ⟨pinned, host, hres,
    ⟨_, _, _, r, -, herr⟩ | ⟨etag', chunks, hstr, hok⟩⟩
  · exact absurd (hbody.symm.trans herr) (by simp)
  · exact absurd (hbody.symm.trans herr) (by simp)
  · obtain ⟨rfl, rfl⟩ : etag = etag' ∧ body = chunks.flatten := by
      simpa using hbody.symm.trans hok
    exact h.ok _ _ _ _ _ hres hstr

theorem Answers.fetchBody_unchanged (h : Answers T bodies env feed.url) {r : IngestResult}
    (hbody : fetchBody env feed = .error r) (hr : r.status = .unchanged) :
    ∃ e, ifNoneMatch feed = some e ∧ T feed.url (bodies feed.url) e := by
  rcases fetchBody_cases env feed with ⟨r', herr, hsta⟩ | ⟨pinned, host, hres,
    ⟨_, _, _, _, hstr, -⟩ | ⟨_, _, -, hok⟩⟩
  · obtain rfl : r = r' := by simpa using hbody.symm.trans herr
    exact absurd (hr.symm.trans hsta) (by simp)
  · exact h.notModified _ _ _ _ _ _ hres hstr
  · exact absurd (hbody.symm.trans hok) (by simp)

/-- **One ingest**: after "updated" or "unchanged" the file is the source's, if the remembered
ETag spoke of the file. -/
theorem Answers.stored (h : Answers T bodies env feed.url)
    (hetag : ∀ e, ifNoneMatch feed = some e → ∀ b, T feed.url b e → Stored U files feed b)
    {r : IngestResult} (hres : (fetchAndIngest U env files feed).result = some r)
    (hr : r.status = .updated ∨ r.status = .unchanged) :
    Stored U (fetchAndIngest U env files feed).files feed (bodies feed.url) := by
  rcases fetchAndIngest_cases U env files feed with
    ⟨hfil, -, hnot⟩ | ⟨parser, etag, body, hpar, hbody, -, heq⟩
  · have hunc : r.status = .unchanged := hr.resolve_left (hnot r hres)
    rw [hfil]
    rw [fetchAndIngest] at hres
    split at hres
    · rw [← some_inj.mp hres] at hunc
      simp at hunc
    · split at hres
      · rename_i result hbody
        rw [some_inj.mp hres] at hbody
        -- a 304 speaks of the body that the ETag was given for
        obtain ⟨e, he, htag⟩ := h.fetchBody_unchanged hbody hunc
        exact hetag e he _ htag
      · rw [checkAndStore] at hres
        repeat' split at hres
        · rw [← some_inj.mp hres] at hunc
          simp at hunc
        · rw [← some_inj.mp hres] at hunc
          simp at hunc
        · simp at hres
  · refine ⟨parser, hpar, ?_⟩
    rw [heq, (h.fetchBody_ok hbody).1]
    exact update_self ..

theorem World.rows_next_patch {w : World} {id id' : Str} {payload : FeedUpdate} {row : FeedRow}
    (h : (w.next U checkUrlSafe (.patch id payload)).rows id' = some row) :
    w.rows id' = some row ∨
      id' = id ∧ ∃ old, w.rows id = some old ∧ payload.apply checkUrlSafe old = some row := by
  rw [World.next] at h
  split at h
  · rename_i new hnew
    by_cases hid : id' = id
    · subst hid
      obtain ⟨old, hold, happ⟩ := bind_eq_some_iff.mp hnew
      simp only [update_self, some_inj] at h
      exact .inr ⟨rfl, old, hold, h ▸ happ⟩
    · exact .inl ((update_of_ne hid ..).symm.trans h)
  · exact .inl h

theorem World.next_patch (w : World) (id : Str) (payload : FeedUpdate) :
    (w.next U checkUrlSafe (.patch id payload)).files = w.files ∧
      (w.next U checkUrlSafe (.patch id payload)).bodies = w.bodies := by
  rw [World.next]
  split <;> exact ⟨rfl, rfl⟩

/-- **One step** keeps the remembered ETags in line with the files. -/
theorem Coherent.next {w : World} (h : Coherent T U w) (hT : T.Strong) {l : Label}
    (hsafe : l.EtagSafe T checkUrlSafe w) (hcor : l.Correct T w) :
    Coherent T U (w.next U checkUrlSafe l) := by
  cases l with
  | publish => exact h
  | patch id payload =>
    intro id' row hrow
    rw [(w.next_patch id payload).1]
    rcases World.rows_next_patch hrow with hrow | ⟨rfl, old, hold, happ⟩
    · exact h id' row hrow
    · -- the PATCH keeps the ETag, so it must keep what the ETag speaks of
      obtain ⟨hid, hetag⟩ := h id' old hold
      obtain ⟨hid', hlast⟩ := FeedUpdate.frame happ
      refine ⟨hid'.trans hid, fun e he b hb => ?_⟩
      rw [ifNoneMatch, hlast] at he
      rcases hsafe old row e hold happ he with ⟨hurl, hfor⟩ | hnone
      · obtain ⟨parser, hpar, hfile⟩ := hetag e he b (hurl ▸ hb)
        exact ⟨parser, hfor ▸ hpar, hid' ▸ hfile⟩
      · exact absurd hb (hnone b)
  | ingest id env =>
    rw [World.next]
    split
    · exact h
    rename_i row hrow
    obtain ⟨hid, hetag⟩ := h id row hrow
    have hans := hcor row hrow
    rcases fetchAndIngest_cases U env w.files row.toFeed with
      ⟨hfil, -, hnot⟩ | ⟨parser, etag, body, hpar, hbody, -, heq⟩
    · -- nothing is written
      have hsta : ¬(fetchAndIngest U env w.files row.toFeed).result.map (·.status) =
          some .updated := by
        intro hmap
        obtain ⟨r, hr, hupd⟩ := map_eq_some_iff.mp hmap
        exact hnot r hr hupd
      simp only [if_neg hsta, hfil]
      exact h
    · -- the new set and its ETag
      obtain ⟨rfl, htag⟩ := hans.fetchBody_ok hbody
      simp only [heq, storeDomains, map_some, if_true, FeedRow.ingested]
      intro id' row' hrow'
      by_cases hne : id' = id
      · simp only [hne, update_self, some_inj] at hrow'
        rw [← hrow', hne]
        refine ⟨hid, fun e he b hb => ⟨parser, hpar, ?_⟩⟩
        have hbody : b = w.bodies row.url :=
          hT row.url _ _ e hb (htag e (filter_eq_some_iff.mp he).1)
        rw [hbody]
        exact update_self ..
      · simp only [update_of_ne hne] at hrow'
        obtain ⟨hid', hetag'⟩ := h id' row' hrow'
        refine ⟨hid', fun e he b hb => ?_⟩
        obtain ⟨parser', hpar', hfile⟩ := hetag' e he b hb
        refine ⟨parser', hpar', ?_⟩
        have hne' : row'.id ≠ row.id := by
          rw [hid', hid]
          exact hne
        exact (update_of_ne hne' ..).trans hfile

theorem Coherent.run {w₀ w : World} (h : Coherent T U w₀) (hT : T.Strong)
    (hrun : RunWhile T U checkUrlSafe (Label.EtagSafe T checkUrlSafe) w₀ w) : Coherent T U w := by
  induction hrun with
  | refl => exact h
  | tail _ hlast ih =>
    obtain ⟨l, hsafe, hcor, rfl⟩ := hlast
    exact ih.next hT hsafe hcor

/-- **The stored file is the source's.**  In every run of edits, ingests and changes of the
sources in which no edit gives the remembered ETag another meaning: when an ingest ends
with "updated" or "unchanged", the file is what the configured format makes of the body
that the configured URL serves. -/
theorem stored_matches_source (hT : T.Strong) {w₀ w : World}
    (hfresh : ∀ id row, w₀.rows id = some row → row.id = id ∧ row.lastEtag = none)
    (hrun : RunWhile T U checkUrlSafe (Label.EtagSafe T checkUrlSafe) w₀ w) {id : Str} {now : ℤ}
    (hcorrect : Label.Correct T w (.ingest id env now)) {row : FeedRow}
    (hrow : w.rows id = some row)
    {r : IngestResult} (hresult : (fetchAndIngest U env w.files row.toFeed).result = some r)
    (hr : r.status = .updated ∨ r.status = .unchanged) :
    Stored U (w.next U checkUrlSafe (.ingest id env now)).files row.toFeed (w.bodies row.url) := by
  have hsta : Coherent T U w₀ := by
    intro id row hrow
    obtain ⟨hid, hnone⟩ := hfresh id row hrow
    refine ⟨hid, fun e he => absurd he ?_⟩
    rw [ifNoneMatch, hnone]
    simp
  rw [World.next, hrow]
  exact (hcorrect row hrow).stored (hsta.run hT hrun id row hrow).2 hresult hr

/-! One hosts file with an ETag. -/

def sampleBody : List UInt8 := utf8 "0.0.0.0 ads.example"

/-- Every URL has the one body, under one ETag. -/
def sampleTags : Tags := fun _ b e => b = sampleBody ∧ e = "v1"

def sampleServer : IngestEnv where
  resolvePinnedUrl _ := .ok ("http://192.0.2.1/hosts", "lists.example")
  stream _ _ inm :=
    if inm = some "v1".toList then .response 304 (some "v1") [] none
    else .response 200 (some "v1") [sampleBody] none
  sha256 text := natText text.length
  formatDeltaPct previous count := natText (100 * count / previous)
  diskOk := true

def sampleWorld : World where
  rows := update (fun _ => none) FeedEdits.sampleRow.id (some FeedEdits.sampleRow)
  files _ := none
  bodies _ := sampleBody

theorem sampleTags_strong : sampleTags.Strong :=
  fun _ _ _ _ h h' => h.1.trans h'.1.symm

theorem sampleServer_answers (url : Str) :
    Answers sampleTags (fun _ => sampleBody) sampleServer url where
  notModified := by
    intro pinned host inm etag chunks broken _ hstr
    simp only [sampleServer] at hstr
    split at hstr
    · rename_i hinm
      exact ⟨_, hinm, rfl, rfl⟩
    · simp at hstr
  ok := by
    intro pinned host inm etag chunks _ hstr
    simp only [sampleServer] at hstr
    split at hstr
    · simp at hstr
    · rw [Fetch.response.injEq] at hstr
      obtain ⟨-, rfl, rfl, -⟩ := hstr
      exact ⟨by simp, fun e he => ⟨rfl, (some_inj.mp he).symm⟩⟩

/-- The world after the first ingest. -/
def sampleIngested : World := sampleWorld.next .ascii (fun _ => true)
  (.ingest FeedEdits.sampleRow.id sampleServer 0)

def sampleFeed : FeedRow := FeedEdits.sampleRow.ingested .ascii sampleServer (fun _ => none) 0

theorem sampleIngested_rows : sampleIngested.rows FeedEdits.sampleRow.id = some sampleFeed := by
  decide +kernel

theorem sampleWorld_fresh (id : Str) (row : FeedRow) (h : sampleWorld.rows id = some row) :
    row.id = id ∧ row.lastEtag = none := by
  simp only [sampleWorld] at h
  by_cases hid : id = FeedEdits.sampleRow.id
  · rw [hid, update_self, some_inj] at h
    rw [hid, ← h]
    exact ⟨rfl, rfl⟩
  · rw [update_of_ne hid] at h
    simp at h

theorem sampleIngested_run {C : World → Label → Prop}
    (hC : C sampleWorld (.ingest FeedEdits.sampleRow.id sampleServer 0)) :
    RunWhile sampleTags .ascii (fun _ => true) C sampleWorld sampleIngested :=
  .single ⟨_, hC, fun _ _ => sampleServer_answers _, rfl⟩

/-- The second ingest is told "not modified", and the file is right. -/
theorem stored_unchanged : ∃ w : World,
    RunWhile sampleTags .ascii (fun _ => true) (Label.EtagSafe sampleTags fun _ => true)
      sampleWorld w ∧
    (fetchAndIngest .ascii sampleServer w.files sampleFeed.toFeed).result =
      some ⟨.unchanged, 1, []⟩ ∧
    Stored .ascii (w.next .ascii (fun _ => true)
      (.ingest FeedEdits.sampleRow.id sampleServer 0)).files sampleFeed.toFeed sampleBody := by
  have hrun := sampleIngested_run (C := Label.EtagSafe sampleTags fun _ => true) trivial
  have hres : (fetchAndIngest .ascii sampleServer sampleIngested.files sampleFeed.toFeed).result =
      some ⟨.unchanged, 1, []⟩ := by decide +kernel
  refine ⟨_, hrun, hres, ?_⟩
  exact stored_matches_source sampleTags_strong sampleWorld_fresh hrun
    (fun _ _ => sampleServer_answers _) sampleIngested_rows hres (.inr rfl)

/-- **Another format, the same ETag**: the server's 304 is about the body, and the file is
still the one that the hosts parser has made of it. -/
theorem stale_etag : sampleTags.Strong ∧
    (∀ id row, sampleWorld.rows id = some row → row.id = id ∧ row.lastEtag = none) ∧
    ∃ w row, RunWhile sampleTags .ascii (fun _ => true) (fun _ _ => True) sampleWorld w ∧
      Label.Correct sampleTags w (.ingest FeedEdits.sampleRow.id sampleServer 0) ∧
      w.rows FeedEdits.sampleRow.id = some row ∧
      (fetchAndIngest .ascii sampleServer w.files row.toFeed).result = some ⟨.unchanged, 1, []⟩ ∧
      ¬Stored .ascii (w.next .ascii (fun _ => true)
        (.ingest FeedEdits.sampleRow.id sampleServer 0)).files row.toFeed (w.bodies row.url) := by
  have hrun := (sampleIngested_run (C := fun _ _ => True) trivial).tail
    ⟨.patch FeedEdits.sampleRow.id { format := .value .domainList }, trivial, trivial, rfl⟩
  refine ⟨sampleTags_strong, sampleWorld_fresh, _, { sampleFeed with format := .domainList }, hrun,
    fun _ _ => ?_, by decide +kernel, by decide +kernel, ?_⟩
  · rw [(sampleIngested.next_patch _ _).2]
    exact sampleServer_answers _
  rintro ⟨parser, hpar, hfile⟩
  cases hpar
  revert hfile
  decide +kernel

end FeedSource

end Control
