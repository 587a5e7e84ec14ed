/-
Query telemetry from end to end: `emit_zone_telemetry` and the emission of
`build_response`, the emitter and its flush loop (`mantis-filter/src/telemetry.rs`),
and `ingest_query_events` on the control plane.

* `Step` — the channel, the batch and the request of the flush loop, next to a
  control plane whose tables may change at any time;
* `newRows_eq` — a batch is stored as a whole or not at all;
* `posted_isolated_iff` — a request keeps the events apart exactly when the control
  plane accepts all of its events, or none;
* `bootstrap_event_drops_batch` — a local-zone answer before the first bundle, and the
  event that is lost with it.
-/
import MantisDns.Addresses
import MantisDns.NodeApi
import MantisDns.Response

open Text Dns List Option

namespace Telemetry

open Control.NodeApi (QueryEventIn NodeDb Platform ingestQueryEvents queryEvent tenantByGroup
  batchGroups mem_batchGroups unknown_eq_nil_iff branchBefore)
open Control.Routing (NodeCredential Group nodeCanAccessGroup)

/-! ### The filter -/

/-- `QueryEventInput`. -/
structure QueryEventInput where
  event : Node.QueryEvent
  latencyUs : UInt32
  occurredAtMs : UInt64
  deriving DecidableEq

/-- `{:?}` of a `RecordType`, given the names of the types that the filter does not tell apart. -/
def recordTypeText (other : UInt16 → Str) : RecordType → Str
  | .a => "A"
  | .ns => "NS"
  | .cname => "CNAME"
  | .soa => "SOA"
  | .ptr => "PTR"
  | .mx => "MX"
  | .txt => "TXT"
  | .aaaa => "AAAA"
  | .srv => "SRV"
  | .opt => "OPT"
  | .tsig => "TSIG"
  | .ixfr => "IXFR"
  | .axfr => "AXFR"
  | .caa => "CAA"
  | .other code => other code

/-- `{:?}` of a `ResponseCode`. -/
def responseCodeText : ResponseCode → Str
  | .noError => "NoError"
  | .formErr => "FormErr"
  | .servFail => "ServFail"
  | .nxDomain => "NXDomain"
  | .notImp => "NotImp"
  | .refused => "Refused"
  | .badVers => "BADVERS"

/-- `IpAddr::to_string`. -/
def ipAddrText : IpAddr → Str
  | .v4 ip => ipv4Text ip
  | .v6 ip => ipv6Text ip

def decisionText : Node.EventDecision → Str
  | .stubZone => "stub_zone"
  | .block => "block"
  | .allow => "allow"

/-- The JSON object of an event, as the control plane reads it. -/
def eventJson (other : UInt16 → Str) (r : QueryEventInput) : QueryEventIn where
  groupId := r.event.groupId
  qname := r.event.qname
  decision := decisionText r.event.decision
  clientIp := some (ipAddrText r.event.clientIp)
  qtype := some (recordTypeText other r.event.qtype)
  matchedRule := some ((r.event.matchedRule.map (·.text)).getD "stub_zone")
  matchedCategory := r.event.matchedCategory
  matchedFeedId := r.event.matchedFeedId
  responseCode := some (responseCodeText r.event.responseCode)
  cacheHit := r.event.cacheHit
  latencyUs := some r.latencyUs.toNat
  occurredAtMs := some r.occurredAtMs.toNat

/-- `BATCH_SIZE`. -/
def batchSize : ℕ := 500

/-- A filter node and its control plane. -/
structure Setup where
  /-- `channel_capacity`. -/
  capacity : ℕ
  typeText : UInt16 → Str
  platform : Platform
  node : NodeCredential

/-- The channel, the batch of `flush_loop`, the batch that `flush` is posting, and the tables of
the control plane. -/
structure State where
  channel : List QueryEventInput
  batch : List QueryEventInput
  posting : Option (List QueryEventInput)
  db : NodeDb

/-- Some call of `build_response` emits the event. -/
def Emitted (r : QueryEventInput) : Prop :=
  ∃ env forwarder query bundle zones clientIp cache unmatchedRoute,
    Node.Effect.event r.event ∈ (Node.buildResponse env forwarder query bundle zones clientIp cache
      unmatchedRoute).trace

inductive Label
  | emit (r : QueryEventInput)
  | recv
  | tick
  /-- The request reaches the control plane at the time `now`. -/
  | post (now : ℤ)
  | fail
  | control

/-- `TelemetryEmitter::emit`, `flush_loop` and `flush`, and the rest of the control plane. -/
inductive Step (S : Setup) (s : State) : Label → State → Prop
  -- a full channel drops the event
  | emit {r : QueryEventInput} (h : Emitted r) :
    Step S s (.emit r)
      { s with channel := if s.channel.length < S.capacity then s.channel ++ [r] else s.channel }
  | recv {r : QueryEventInput} {rest : List QueryEventInput} (h : s.channel = r :: rest)
      (hidle : s.posting = none) :
    Step S s .recv
      (if batchSize ≤ (s.batch ++ [r]).length then
        { s with channel := rest, batch := [], posting := some (s.batch ++ [r]) }
      else { s with channel := rest, batch := s.batch ++ [r] })
  | tick (h : s.batch ≠ []) (hidle : s.posting = none) :
    Step S s .tick { s with batch := [], posting := some s.batch }
  | post {b : List QueryEventInput} {now : ℤ} (h : s.posting = some b) :
    Step S s (.post now)
      { s with
        posting := none
        db := (ingestQueryEvents S.platform now s.db S.node (b.map (eventJson S.typeText))).2 }
  | fail {b : List QueryEventInput} (h : s.posting = some b) :
    Step S s .fail { s with posting := none }
  | control (db : NodeDb) : Step S s .control { s with db }

def State.init (db : NodeDb) : State := ⟨[], [], none, db⟩

def Run (S : Setup) : State → State → Prop :=
  Relation.ReflTransGen fun s t => ∃ l, Step S s l t

/-! ### What a batch leaves -/

section Ingest

variable {P : Platform} {now : ℤ} {db : NodeDb} {node : NodeCredential}
  {events : List QueryEventIn} {e : QueryEventIn}

/-- The row of an event that the control plane can accept. -/
def acceptRow (P : Platform) (now : ℤ) (db : NodeDb) (node : NodeCredential) (e : QueryEventIn) :
    Option Control.NodeApi.QueryEvent :=
  if e.valid = true ∧ (∃ g ∈ db.groups.groups, g.id = e.groupId) ∧
      ∀ g ∈ db.groups.groups, g.id = e.groupId → nodeCanAccessGroup node g = true then
    queryEvent P now db.groups.groups e
  else none

/-- The groups of a batch are enough to find the tenant of each of its events. -/
theorem queryEvent_batchGroups (he : e ∈ events) :
    queryEvent P now (batchGroups db events) e = queryEvent P now db.groups.groups e := by
  have hten : tenantByGroup (batchGroups db events) e.groupId =
      tenantByGroup db.groups.groups e.groupId := by
    rw [tenantByGroup, tenantByGroup, batchGroups, find?_filter]
    congr 2
    funext g
    by_cases hg : g.id = e.groupId
    · have hmem : ∃ x ∈ events, x.groupId = g.id := ⟨e, he, hg.symm⟩
      simpa [hg] using hmem
    · simp [hg]
  simp only [queryEvent, hten]

theorem acceptRow_of_batch (he : e ∈ events) (hval : e.valid = true)
    (hkno : ∃ g ∈ batchGroups db events, g.id = e.groupId)
    (hacc : ∀ g ∈ batchGroups db events, nodeCanAccessGroup node g = true) :
    acceptRow P now db node e = queryEvent P now (batchGroups db events) e := by
  obtain ⟨g, hg, hid⟩ := hkno
  rw [acceptRow, if_pos, queryEvent_batchGroups he]
  refine ⟨hval, ⟨g, (mem_batchGroups.mp hg).1, hid⟩, fun g' hg' hid' => ?_⟩
  exact hacc g' (mem_batchGroups.mpr ⟨hg', e, he, hid'.symm⟩)

theorem mapM_acceptRow_none (he : e ∈ events) (h : acceptRow P now db node e = none) :
    events.mapM (acceptRow P now db node) = none := by
  rw [← not_isSome_iff_eq_none]
  intro hsome
  obtain ⟨rows, hrows⟩ := isSome_iff_exists.mp hsome
  have hrow := isSome_of_mapM hrows he
  rw [h] at hrow
  simp at hrow

/-- **All or nothing**: a batch is stored as a whole if each of its events is acceptable. -/
theorem ingestQueryEvents_queryEvents (hlen : events.length ≤ 10000) :
    (ingestQueryEvents P now db node events).2.queryEvents =
      db.queryEvents ++ (events.mapM (acceptRow P now db node)).getD [] := by
  -- one event that is not acceptable is enough to lose the batch
  have hfail : ∀ e ∈ events, acceptRow P now db node e = none →
      db.queryEvents = db.queryEvents ++ (events.mapM (acceptRow P now db node)).getD [] := by
    intro e he hnone
    rw [mapM_acceptRow_none he hnone, getD_none, append_nil]
  have hgs : db.groups.groups.filter (·.id ∈ (events.map (·.groupId)).dedup) =
      batchGroups db events := rfl
  simp only [ingestQueryEvents]
  rw [hgs]
  split
  case isTrue hinv =>
    obtain ⟨e, he, hval⟩ : ∃ e ∈ events, e.valid = false := by
      simpa [hlen] using hinv
    exact hfail e he (if_neg fun h => absurd h.1 (by simp [hval]))
  split
  case isTrue hunk =>
    rw [Ne, unknown_eq_nil_iff] at hunk
    push Not at hunk
    obtain ⟨id, hid, hnone⟩ := hunk
    obtain ⟨e, he, rfl⟩ := List.mem_map.mp (mem_dedup.mp hid)
    refine hfail e he (if_neg ?_)
    rintro ⟨-, ⟨g, hg, hgid⟩, -⟩
    exact hnone g (mem_batchGroups.mpr ⟨hg, e, he, hgid.symm⟩) hgid
  split
  case isTrue hfor =>
    obtain ⟨g, hg, hno⟩ : ∃ g ∈ batchGroups db events, nodeCanAccessGroup node g = false := by
      simpa using hfor
    obtain ⟨hg, e, he, hid⟩ := mem_batchGroups.mp hg
    refine hfail e he (if_neg ?_)
    rintro ⟨-, -, hall⟩
    exact absurd (hall g hg hid.symm) (by simp [hno])
  case isFalse hval hkno hacc =>
    have hval' : ∀ e ∈ events, e.valid = true := by
      simpa [hlen] using hval
    have hacc' : ∀ g ∈ batchGroups db events, nodeCanAccessGroup node g = true := by
      simpa using hacc
    have hkno' : ∀ e ∈ events, ∃ g ∈ batchGroups db events, g.id = e.groupId := fun e he =>
      unknown_eq_nil_iff.mp (not_not.mp hkno) _ (mem_dedup.mpr (List.mem_map_of_mem he))
    have hrows : events.mapM (queryEvent P now (batchGroups db events)) =
        events.mapM (acceptRow P now db node) :=
      mapM_congr fun e he => (acceptRow_of_batch he (hval' e he) (hkno' e he) hacc').symm
    rw [hrows]
    cases events.mapM (acceptRow P now db node) with
    | none => simp
    | some => rfl

/-- The rows that a request adds. -/
def newRows (P : Platform) (now : ℤ) (db : NodeDb) (node : NodeCredential)
    (events : List QueryEventIn) : List Control.NodeApi.QueryEvent :=
  (ingestQueryEvents P now db node events).2.queryEvents.drop db.queryEvents.length

theorem newRows_eq (hlen : events.length ≤ 10000) :
    newRows P now db node events = (events.mapM (acceptRow P now db node)).getD [] := by
  rw [newRows, ingestQueryEvents_queryEvents hlen, drop_left]

theorem newRows_singleton : newRows P now db node [e] = (acceptRow P now db node e).toList := by
  rw [newRows_eq (by simp), mapM_cons]
  cases acceptRow P now db node e with
  | none | some => rfl

/-- **Isolation**: what the events leave when each is posted alone, they leave together. -/
def Isolated (P : Platform) (now : ℤ) (db : NodeDb) (node : NodeCredential)
    (events : List QueryEventIn) : Prop :=
  (events.flatMap fun e => newRows P now db node [e]).Sublist (newRows P now db node events)

theorem isolated_iff (hlen : events.length ≤ 10000) :
    Isolated P now db node events ↔
      (∀ e ∈ events, (acceptRow P now db node e).isSome) ∨
        ∀ e ∈ events, acceptRow P now db node e = none := by
  have halo : (events.flatMap fun e => newRows P now db node [e]) =
      events.filterMap (acceptRow P now db node) := by
    simp only [newRows_singleton, filterMap_eq_flatMap_toList]
  rw [Isolated, halo]
  by_cases hall : ∀ e ∈ events, (acceptRow P now db node e).isSome
  · rw [newRows_eq hlen, mapM_of_forall_isSome hall]
    exact iff_of_true (List.Sublist.refl _) (.inl hall)
  · -- the request leaves nothing, so nothing may be left by the events alone
    obtain ⟨e, he, hnone⟩ : ∃ e ∈ events, acceptRow P now db node e = none := by
      simpa using hall
    rw [newRows_eq hlen, mapM_acceptRow_none he hnone, getD_none, sublist_nil, filterMap_eq_nil_iff]
    exact ⟨.inr, fun h => h.resolve_left hall⟩

end Ingest

/-! ### Runs -/

/-- What the flush loop has in hand: events that some call has emitted, fewer than a full
batch until it posts one. -/
structure Inv (s : State) : Prop where
  channel : ∀ r ∈ s.channel, Emitted r
  batch : ∀ r ∈ s.batch, Emitted r
  batch_lt : s.batch.length < batchSize
  posting : ∀ b ∈ s.posting, (∀ r ∈ b, Emitted r) ∧ b.length ≤ batchSize

theorem batchSize_pos : 0 < batchSize := by decide

theorem inv_init (db : NodeDb) : Inv (.init db) :=
  ⟨by simp [State.init], by simp [State.init], batchSize_pos, by simp [State.init]⟩

variable {S : Setup} {s s' : State}

theorem Inv.step (h : Inv s) {l : Label} (hstep : Step S s l s') : Inv s' := by
  cases hstep with
  | @emit r hr =>
    refine ⟨fun r' hr' => ?_, h.batch, h.batch_lt, h.posting⟩
    dsimp only at hr'
    split at hr'
    · rcases mem_append.mp hr' with hr' | hr'
      · exact h.channel r' hr'
      · rwa [mem_singleton.mp hr']
    · exact h.channel r' hr'
  | @recv r rest hcha hidle =>
    have hr : Emitted r := h.channel r (by simp [hcha])
    have hrest : ∀ r' ∈ rest, Emitted r' := fun r' hr' => h.channel r' (by simp [hcha, hr'])
    have hbat : ∀ r' ∈ s.batch ++ [r], Emitted r' := by
      intro r' hr'
      rcases mem_append.mp hr' with hr' | hr'
      · exact h.batch r' hr'
      · rwa [mem_singleton.mp hr']
    -- a full batch is posted at once
    have hlt := h.batch_lt
    have hlen : (s.batch ++ [r]).length = s.batch.length + 1 := by simp
    split
    · refine ⟨hrest, by simp, batchSize_pos, fun b hb => ?_⟩
      rw [← mem_some_iff.mp hb]
      exact ⟨hbat, by omega⟩
    · exact ⟨hrest, hbat, by dsimp only; omega, h.posting⟩
  | tick =>
    refine ⟨h.channel, by simp, batchSize_pos, fun b hb => ?_⟩
    rw [← mem_some_iff.mp hb]
    exact ⟨h.batch, h.batch_lt.le⟩
  | post | fail => exact ⟨h.channel, h.batch, h.batch_lt, by simp⟩
  | control => exact ⟨h.channel, h.batch, h.batch_lt, h.posting⟩

theorem Run.inv (hrun : Run S s s') (h : Inv s) : Inv s' := by
  induction hrun with
  | refl => exact h
  | tail _ hstep ih =>
    obtain ⟨l, hstep⟩ := hstep
    exact ih.step hstep

/-- The event passes the checks of the control plane, which has a row for it. -/
def Acceptable (S : Setup) (now : ℤ) (db : NodeDb) (r : QueryEventInput) : Prop :=
  (acceptRow S.platform now db S.node (eventJson S.typeText r)).isSome = true

/-- Those are the events that are stored when they are posted alone. -/
theorem acceptable_iff {now : ℤ} {db : NodeDb} {r : QueryEventInput} :
    Acceptable S now db r ↔ newRows S.platform now db S.node [eventJson S.typeText r] ≠ [] := by
  rw [Acceptable, newRows_singleton, Ne, toList_eq_nil_iff, ← Ne, ne_none_iff_isSome]

/-- **Faults are isolated** in a request that reaches the control plane exactly when all of its
events are acceptable, or none. -/
theorem posted_isolated_iff {db : NodeDb} {b : List QueryEventInput} (now : ℤ)
    (hrun : Run S (.init db) s) (hb : s.posting = some b) :
    Isolated S.platform now s.db S.node (b.map (eventJson S.typeText)) ↔
      (∀ r ∈ b, Acceptable S now s.db r) ∨ ∀ r ∈ b, ¬Acceptable S now s.db r := by
  have hlen := ((hrun.inv (inv_init db)).posting b hb).2
  rw [batchSize] at hlen
  rw [isolated_iff (by rw [length_map]; omega)]
  simp [Acceptable]

/-! ### A node before its first bundle -/

/-- A node of one group, with the zone `corp.lab`. -/
def startingSetup : Setup :=
  ⟨1024, fun _ => [], Control.NodeApi.samplePlatform, Control.NodeApi.branchNode⟩

def startingRecords : List Node.Zone.LocalZoneRecordDto :=
  [⟨"nas.corp.lab.", "corp.lab", .a, 300, "10.0.0.5", none⟩]

def startingBundle : Pb.Bundle :=
  ⟨"acme", "g1", 1, 0, [], [], [], .failOpen, none, [], []⟩

/-- The answer from the zone. -/
def localEvent (groupId : Str) : QueryEventInput where
  event :=
    { groupId
      clientIp := .v4 0
      qname := "nas.corp.lab."
      qtype := .a
      decision := .stubZone
      matchedRule := none
      matchedCategory := none
      matchedFeedId := none
      responseCode := .noError
      cacheHit := none }
  latencyUs := 40
  occurredAtMs := 0

theorem emitted_localEvent : Emitted (localEvent []) ∧ Emitted (localEvent "g1") := by
  obtain ⟨data, -, hmem⟩ : ∃ data,
      Node.Zone.publish Node.sampleHickory startingRecords = some data ∧
      Node.Effect.event (localEvent []).event ∈
        (Node.buildResponse Node.sampleEnv Node.sampleForwarder
          (Node.sampleQuery "nas.corp.lab") none data (.v4 0) (.new 10000) false).trace ∧
      Node.Effect.event (localEvent "g1").event ∈
        (Node.buildResponse Node.sampleEnv Node.sampleForwarder
          (Node.sampleQuery "nas.corp.lab") (some startingBundle) data (.v4 0) (.new 10000)
          false).trace := by
    decide +kernel
  exact ⟨⟨_, _, _, _, data, _, _, _, hmem.1⟩, ⟨_, _, _, _, data, _, _, _, hmem.2⟩⟩

theorem run_collect {db : NodeDb} {events : List QueryEventInput} (h : ∀ r ∈ events, Emitted r)
    (batch : List QueryEventInput) (hlen : batch.length + events.length < batchSize) :
    Run startingSetup ⟨[], batch, none, db⟩ ⟨[], batch ++ events, none, db⟩ := by
  induction events generalizing batch with
  | nil =>
    rw [append_nil]
    exact .refl
  | cons r events ih =>
    rw [length_cons] at hlen
    have hemit : Step startingSetup ⟨[], batch, none, db⟩ (.emit r) ⟨[r], batch, none, db⟩ :=
      .emit (h r mem_cons_self)
    have hrecv : Step startingSetup ⟨[r], batch, none, db⟩ .recv ⟨[], batch ++ [r], none, db⟩ := by
      have hstep := Step.recv (S := startingSetup) (s := ⟨[r], batch, none, db⟩) rfl rfl
      rwa [if_neg (by simp; omega)] at hstep
    have hrest := ih (fun r' hr' => h r' (mem_cons_of_mem _ hr')) (batch ++ [r])
      (by rw [length_append, length_singleton]; omega)
    rw [append_assoc] at hrest
    exact .head ⟨_, hemit⟩ (.head ⟨_, hrecv⟩ hrest)

theorem run_batch {db : NodeDb} {events : List QueryEventInput} (h : ∀ r ∈ events, Emitted r)
    (hne : events ≠ []) (hlen : events.length < batchSize) :
    Run startingSetup (.init db) ⟨[], [], some events, db⟩ :=
  (run_collect h [] (by simpa using hlen)).tail ⟨.tick, .tick hne rfl⟩

/-- The name is asked for twice once the bundle is loaded. -/
theorem posted_isolated_pair :
    Isolated startingSetup.platform 0 branchBefore startingSetup.node
      ([localEvent "g1", { localEvent "g1" with latencyUs := 50 }].map
        (eventJson startingSetup.typeText)) := by
  have hrun : Run startingSetup (.init branchBefore)
      ⟨[], [], some [localEvent "g1", { localEvent "g1" with latencyUs := 50 }], branchBefore⟩ :=
    run_batch (by simpa using ⟨emitted_localEvent.2, emitted_localEvent.2⟩) (by simp) (by decide)
  refine (posted_isolated_iff 0 hrun rfl).mpr (.inl ?_)
  simp only [Acceptable]
  decide +kernel

/-- The same name is asked for before and after the first bundle is loaded.  The first event has
no group, so the request is refused, and the second is lost. -/
theorem bootstrap_event_drops_batch :
    ∃ s s', Run startingSetup (.init branchBefore) s ∧
      s.posting = some [localEvent [], localEvent "g1"] ∧
      Step startingSetup s (.post 0) s' ∧
      Acceptable startingSetup 0 s.db (localEvent "g1") ∧ s'.db.queryEvents = [] := by
  have hrun : Run startingSetup (.init branchBefore)
      ⟨[], [], some [localEvent [], localEvent "g1"], branchBefore⟩ :=
    run_batch (by simpa using emitted_localEvent) (by simp) (by decide)
  refine ⟨_, _, hrun, rfl, .post rfl, ?_, by decide +kernel⟩
  rw [Acceptable]
  decide +kernel

end Telemetry
