/-
The syslog delivery: `_deliver_one_batch` and `_process_delivery_sink` of
`siem_syslog_delivery.py`, over the events that `ingest_query_events` inserts.

An event is stamped with `ingested_at` when its transaction is flushed, gets its
`seq` when the row reaches the database, and is seen when the transaction commits.
A runner reads the events after the sink's `last_delivered_seq` whose stamp is five
seconds old, sends them and moves `last_delivered_seq`; it locks the sink's row, but
only until its first commit.

* `step` — ingest transactions and runners, in any order;
* `Inv.step` — what each of them keeps, as long as stamps are in the order of `seq`
  and no two runners are between reading and committing for one sink;
* `delivery_complete` — the position never goes back, and never passes an event that
  has not been sent;
* `skipped_and_set_back` — an event that is skipped, and a position that goes back.
-/
import MantisDns.Machine
import MantisDns.Sequenced
import MantisDns.Table
import MantisDns.Text

open Text Table Sequenced Function List Option

namespace Control.SyslogDelivery

/-! ### Sinks -/

def backoffSeconds : List ℕ := [5, 30, 120, 600, 3600]

def maxConsecutiveFailures : ℕ := 6

/-- `DELIVERY_LAG_SECONDS`. -/
def deliveryLag : ℕ := 5 * second

def maxBatchesPerTick : ℕ := 20

/-- `DRAIN_DEADLINE_SECONDS`. -/
def drainDeadline : ℕ := 5 * second

/-- What the delivery reads of an event. -/
structure QueryEvent where
  tenantId : Option Str
  decision : Str
  ingestedAt : ℕ
  deriving DecidableEq

inductive FilterDecision
  | all
  | block
  | allow
  deriving DecidableEq

def FilterDecision.text : FilterDecision → Str
  | .all => "all"
  | .block => "block"
  | .allow => "allow"

/-- What the operator has set. -/
structure SiemSyslog where
  tenantId : Option Str
  filterDecision : FilterDecision
  batchSize : ℕ
  batchSize_pos : 0 < batchSize
  flushIntervalS : ℕ

/-- The columns of the same row that the delivery writes. -/
structure Progress where
  enabled : Bool := true
  lastDeliveredSeq : ℕ := 0
  lastDeliveredAt : Option ℕ := none
  lastError : Option Str := none
  consecutiveFailures : ℕ := 0
  nextRetryAt : Option ℕ := none
  deriving DecidableEq

/-- `if sink.tenant_id`: an empty text filters nothing. -/
def SiemSyslog.tenantMatches (sink : SiemSyslog) (e : QueryEvent) : Bool :=
  match sink.tenantId with
  | none | some [] => true
  | some tenant => e.tenantId = some tenant

def SiemSyslog.matches (sink : SiemSyslog) (e : QueryEvent) : Bool :=
  sink.tenantMatches e &&
    (sink.filterDecision = .all || e.decision = sink.filterDecision.text)

/-- `ingested_at <= safe_cutoff`. -/
def safe (now : ℕ) (e : QueryEvent) : Bool := e.ingestedAt + deliveryLag ≤ now

/-- The rows of the next batch. -/
def SiemSyslog.batch (sink : SiemSyslog) (position now : ℕ) (rows : List (Row QueryEvent)) :
    List (Row QueryEvent) :=
  nextRows (fun e => sink.matches e && safe now e) sink.batchSize (some position) rows

/-- `max_query`: it filters by tenant only. -/
def SiemSyslog.maxSeq (sink : SiemSyslog) (now : ℕ) (rows : List (Row QueryEvent)) : Option ℕ :=
  ((rows.filter fun r => sink.tenantMatches r.event && safe now r.event).map (·.seq)).max?

/-- Whether a tick does anything for the sink. -/
def SiemSyslog.due (sink : SiemSyslog) (p : Progress) (now : ℕ) : Bool :=
  match p.nextRetryAt, p.lastDeliveredAt with
  | some retry, _ => retry ≤ now
  | none, some last => last + sink.flushIntervalS * second ≤ now
  | none, none => true

def Progress.fail (p : Progress) (now : ℕ) (error : Str) : Progress :=
  let failures := p.consecutiveFailures + 1
  { p with
    consecutiveFailures := failures
    lastError := some (error.take 2000)
    nextRetryAt := some (now +
      backoffSeconds.getD (min (failures - 1) (backoffSeconds.length - 1)) 0 * second)
    enabled := if maxConsecutiveFailures ≤ failures then false else p.enabled }

def Progress.deliver (p : Progress) (now seq : ℕ) : Progress :=
  { p with
    lastDeliveredSeq := seq
    lastDeliveredAt := some now
    consecutiveFailures := 0
    lastError := none
    nextRetryAt := none }

/-- The audit entry of a sink that is disabled. -/
def disabledDetail (p : Progress) (error : Str) : Str :=
  "disabled after " ++ natText (p.consecutiveFailures + 1) ++
    " consecutive failures: " ++ error.take 2000

/-- The columns of the row after the flush. -/
def Progress.flushed (before after row : Progress) : Progress where
  enabled := column (·.enabled) before after row
  lastDeliveredSeq := column (·.lastDeliveredSeq) before after row
  lastDeliveredAt := column (·.lastDeliveredAt) before after row
  lastError := column (·.lastError) before after row
  consecutiveFailures := column (·.consecutiveFailures) before after row
  nextRetryAt := column (·.nextRetryAt) before after row

/-! ### Runners -/

/-- A tick of a runner, with the session's object for the sink. -/
structure Tick (σ : Type) where
  sink : σ
  copy : Progress
  now : ℕ
  /-- How many batches may follow the current one. -/
  left : ℕ
  deadline : ℕ

inductive Phase (σ : Type)
  | idle
  /-- The sink was loaded, without a lock. -/
  | loaded (sink : σ) (copy : Progress)
  /-- About to lock the sink's row. -/
  | entered (sink : σ) (copy : Progress) (now : ℕ)
  | reading (t : Tick σ)
  /-- There is no batch; about to ask for the largest number. -/
  | probing (t : Tick σ)
  | jumping (t : Tick σ) (maxSeq : ℕ)
  | sending (t : Tick σ) (rows : List (Row QueryEvent)) (last : Row QueryEvent)
  /-- The batch was sent, and is not committed. -/
  | delivered (t : Tick σ) (count : ℕ) (last : Row QueryEvent)
  | failed (t : Tick σ) (error : Str)
  /-- A batch of `count` events is over; about to go on or not. -/
  | draining (t : Tick σ) (count : ℕ)

structure State (ι ρ σ : Type) where
  clock : ℕ
  /-- Events with a stamp and no number yet. -/
  pending : ι → List QueryEvent
  table : Table ι QueryEvent
  sinks : σ → Progress
  /-- The session that has locked the sink's row. -/
  holder : σ → Option ρ
  phase : ρ → Phase σ
  /-- What was sent to the sink. -/
  sent : σ → List ℕ
  audit : List (σ × Str)

variable {ι ρ σ : Type}

def State.init : State ι ρ σ :=
  ⟨0, fun _ => [], .empty, fun _ => {}, fun _ => none, fun _ => .idle, fun _ => [], []⟩

inductive Label (ι ρ σ : Type)
  | wait (d : ℕ)
  /-- A row gets the default of its `ingested_at`. -/
  | stamp (i : ι) (tenantId : Option Str) (decision : Str)
  /-- The next row of the transaction is inserted. -/
  | draw (i : ι)
  | commit (i : ι)
  | rollback (i : ι)
  /-- A runner takes up a sink. -/
  | tick (j : ρ) (k : σ)
  /-- `refreshed`: whether the locked row replaces the object that the session holds. -/
  | lock (j : ρ) (refreshed : Bool)
  | send (j : ρ) (error : Option Str)
  /-- Any other statement of a runner. -/
  | go (j : ρ)
  /-- An exception, or the end of the process. -/
  | crash (j : ρ)

section Step

variable [DecidableEq ι] [DecidableEq ρ] [DecidableEq σ] (config : σ → SiemSyslog)

def State.goTo (s : State ι ρ σ) (j : ρ) (p : Phase σ) : State ι ρ σ :=
  { s with phase := update s.phase j p }

/-- The session is closed, and its lock is gone. -/
def State.leave (s : State ι ρ σ) (j : ρ) : State ι ρ σ :=
  { s with
    phase := update s.phase j .idle
    holder := fun k => if s.holder k = some j then none else s.holder k }

/-- `db.commit()`, which has to wait while another session has locked the row; afterwards the
session has no lock. -/
def State.save (s : State ι ρ σ) (j : ρ) (k : σ) (before after : Progress) :
    Option (State ι ρ σ) :=
  if s.holder k = none ∨ s.holder k = some j then
    some { s with
      sinks := update s.sinks k (Progress.flushed before after (s.sinks k))
      holder := update s.holder k none }
  else none

/-- `_process_delivery_sink` up to its loop. -/
def State.lock (s : State ι ρ σ) (j : ρ) (refreshed : Bool) : Option (State ι ρ σ) :=
  match s.phase j with
  | .entered k copy now =>
    if s.holder k = none then
      let copy := if refreshed then s.sinks k else copy
      if copy.enabled && (config k).due copy now then
        let t := ⟨k, copy, now, maxBatchesPerTick - 1, s.clock + drainDeadline⟩
        some { s.goTo j (.reading t) with holder := update s.holder k (some j) }
      else some (s.leave j)
    else none
  | _ => none

def State.send (s : State ι ρ σ) (j : ρ) (error : Option Str) : Option (State ι ρ σ) :=
  match s.phase j with
  | .sending t rows last =>
    match error with
    | none => some { s.goTo j (.delivered t rows.length last) with
        sent := update s.sent t.sink (s.sent t.sink ++ rows.map (·.seq)) }
    | some e => some (s.goTo j (.failed t e))
  | _ => none

/-- The rest of `_deliver_one_batch`, and the loop around it. -/
def State.go (s : State ι ρ σ) (j : ρ) : Option (State ι ρ σ) :=
  match s.phase j with
  | .loaded k copy => some (s.goTo j (.entered k copy s.clock))
  | .reading t =>
    let rows := (config t.sink).batch t.copy.lastDeliveredSeq t.now s.table.rows
    match rows.getLast? with
    | none => some (s.goTo j (.probing t))
    | some last => some (s.goTo j (.sending t rows last))
  | .probing t =>
    match (config t.sink).maxSeq t.now s.table.rows with
    | some maxSeq =>
      if t.copy.lastDeliveredSeq < maxSeq then some (s.goTo j (.jumping t maxSeq))
      else some (s.goTo j (.draining t 0))
    | none => some (s.goTo j (.draining t 0))
  | .jumping t maxSeq =>
    (s.save j t.sink t.copy { t.copy with lastDeliveredSeq := maxSeq }).map
      (·.goTo j (.draining t 0))
  | .delivered t count last =>
    (s.save j t.sink t.copy (t.copy.deliver t.now last.seq)).map (·.goTo j (.draining t count))
  | .failed t error =>
    let audit :=
      if maxConsecutiveFailures ≤ t.copy.consecutiveFailures + 1
      then s.audit ++ [(t.sink, disabledDetail t.copy error)] else s.audit
    (s.save j t.sink t.copy (t.copy.fail t.now error)).map
      fun s => { s.leave j with audit := audit }
  | .draining t count =>
    -- the commit has expired the object; it is loaded again, without a lock
    if count < (config t.sink).batchSize ∨ t.deadline ≤ s.clock then some (s.leave j)
    else match t.left with
      | 0 => some (s.leave j)
      | left + 1 => some (s.goTo j (.reading { t with copy := s.sinks t.sink, left := left }))
  | .idle | .entered .. | .sending .. => none

/-- One step; a transaction commits within the lag of the stamps it has given. -/
def step (s : State ι ρ σ) : Label ι ρ σ → Option (State ι ρ σ)
  | .wait d => some { s with clock := s.clock + d }
  | .stamp i tenantId decision => some { s with
      pending := update s.pending i (s.pending i ++ [⟨tenantId, decision, s.clock⟩]) }
  | .draw i =>
    match s.pending i with
    | e :: rest => some { s with
        pending := update s.pending i rest
        table := s.table.apply (.insert i e) }
    | [] => none
  | .commit i =>
    if s.pending i = [] ∧ ∀ r ∈ s.table.drawn i, s.clock ≤ r.event.ingestedAt + deliveryLag then
      some { s with table := s.table.apply (.commit i) }
    else none
  | .rollback i => some { s with
      pending := update s.pending i []
      table := s.table.apply (.rollback i) }
  | .tick j k =>
    match s.phase j with
    | .idle => if (s.sinks k).enabled then some (s.goTo j (.loaded k (s.sinks k))) else none
    | _ => none
  | .lock j refreshed => s.lock config j refreshed
  | .send j error => s.send j error
  | .go j => s.go config j
  | .crash j => some (s.leave j)

def RunWhile (C : State ι ρ σ → Label ι ρ σ → Prop) : State ι ρ σ → State ι ρ σ → Prop :=
  Relation.ReflTransGen fun s s' => ∃ l, C s l ∧ step config s l = some s'

end Step

/-! ### What a position promises -/

variable {config : σ → SiemSyslog} {sink : SiemSyslog} {table : Table ι QueryEvent}
  {clock clock' now n : ℕ} {sent : List ℕ}
variable {op : Op ι QueryEvent} {r : Row QueryEvent} {rows : List (Row QueryEvent)} {m : ℕ}

/-- The transaction is not over its time. -/
def OnTime (clock : ℕ) (table : Table ι QueryEvent) : Op ι QueryEvent → Prop
  | .commit i => ∀ r ∈ table.drawn i, clock < r.event.ingestedAt + deliveryLag
  | .insert .. | .rollback _ => True

/-- **A sink at position `n`**: the events up to there were sent, apart from those that are
too late to be committed. -/
structure Passed (sink : SiemSyslog) (table : Table ι QueryEvent) (clock : ℕ) (sent : List ℕ)
    (n : ℕ) : Prop where
  reached : ∀ r ∈ table.rows, sink.matches r.event = true → r.seq ≤ n → r.seq ∈ sent
  ahead : ∀ i, ∀ r ∈ table.drawn i, sink.matches r.event = true → r.seq ≤ n →
    r.event.ingestedAt + deliveryLag ≤ clock
  below : n < table.next

theorem Passed.mono {sent' : List ℕ} (h : Passed sink table clock sent n) (hsent : sent ⊆ sent') :
    Passed sink table clock sent' n where
  reached r hr hm hn := hsent (h.reached r hr hm hn)
  ahead := h.ahead
  below := h.below

theorem Passed.wait (h : Passed sink table clock sent n) (hclo : clock ≤ clock') :
    Passed sink table clock' sent n where
  reached := h.reached
  ahead i r hr hm hn := (h.ahead i r hr hm hn).trans hclo
  below := h.below

theorem Passed.apply [DecidableEq ι] (h : Passed sink table clock sent n) (op : Op ι QueryEvent)
    (hop : OnTime clock table op) : Passed sink (table.apply op) clock sent n where
  reached := by
    intro r hr hm hn
    rcases Table.mem_rows_apply hr with hseen | ⟨i, rfl, hopen⟩
    · exact h.reached r hseen hm hn
    · have hlate := h.ahead i r hopen hm hn
      have htime : clock < r.event.ingestedAt + deliveryLag := hop r hopen
      omega
  ahead := by
    intro i r hr hm hn
    rcases Table.mem_drawn_apply hr with hr | ⟨event, -, rfl⟩
    · exact h.ahead i r hr hm hn
    · exact absurd hn (not_le.mpr h.below)
  below := h.below.trans_le Table.next_le_apply

/-- Stamps are in the order of the numbers. -/
def Ordered (table : Table ι QueryEvent) : Prop :=
  ∀ r r', table.Has r → table.Has r' → r.seq ≤ r'.seq → r.event.ingestedAt ≤ r'.event.ingestedAt

/-- An event that is inserted has a stamp that is not earlier than the others. -/
def InOrder (table : Table ι QueryEvent) : Op ι QueryEvent → Prop
  | .insert _ e => (∀ r ∈ table.rows, r.event.ingestedAt ≤ e.ingestedAt) ∧
      ∀ i, ∀ r ∈ table.drawn i, r.event.ingestedAt ≤ e.ingestedAt
  | .commit _ | .rollback _ => True

theorem Ordered.apply [DecidableEq ι] (h : Ordered table) (hbel : table.Below)
    (hop : InOrder table op) : Ordered (table.apply op) := by
  intro r r' hr hr' hle
  rcases Table.has_of_apply hr with hold | ⟨i, e, rfl, rfl⟩
  · rcases Table.has_of_apply hr' with hold' | ⟨i, e, rfl, rfl⟩
    · exact h r r' hold hold' hle
    · rcases hold with hseen | ⟨i', hopen⟩
      · exact hop.1 r hseen
      · exact hop.2 i' r hopen
  · rcases Table.has_of_apply hr' with hold' | ⟨i', e', heq, rfl⟩
    · exact absurd hle (not_le.mpr (hbel.lt hold'))
    · rw [(Op.insert.inj heq).2]

/-! ### A batch, and a jump -/

theorem Ordered.safe (h : Ordered table) {r' : Row QueryEvent} (hr : table.Has r)
    (hr' : table.Has r') (hle : r.seq ≤ r'.seq) (hsafe : safe now r'.event = true) :
    r.event.ingestedAt + deliveryLag ≤ now := by
  have hsta := h r r' hr hr' hle
  have hsafe' : r'.event.ingestedAt + deliveryLag ≤ now := of_decide_eq_true hsafe
  omega

theorem mem_batch (hr : r ∈ rows) (hm : sink.matches r.event = true)
    (hold : r.event.ingestedAt + deliveryLag ≤ now) (hn : n < r.seq) :
    r ∈ sink.batch n now rows ∨
      sink.batch n now rows ≠ [] ∧ ∀ r' ∈ sink.batch n now rows, r'.seq ≤ r.seq := by
  have hwan : (sink.matches r.event && safe now r.event) = true := by
    rw [hm, Bool.true_and]
    exact decide_eq_true hold
  have haft : ¬UpTo (some n) r.seq := fun hup => absurd (upTo_some.mp hup) (not_le.mpr hn)
  rcases nextRows_complete (p := fun e => sink.matches e && safe now e) sink.batchSize hr hwan
    haft with hin | ⟨hlong, hall⟩
  · exact .inl hin
  · refine .inr ⟨fun hnil => ?_, hall⟩
    have hlen : (sink.batch n now rows).length = min sink.batchSize _ := length_take
    have hpos := sink.batchSize_pos
    rw [hnil, length_nil] at hlen
    omega

/-- **A batch**: once it is sent, the sink may be at its last event. -/
theorem Passed.batch (h : Passed sink table clock sent n) (hbel : table.Below)
    (hord : Ordered table) (hnow : now ≤ clock) {last : Row QueryEvent}
    (hlast : (sink.batch n now table.rows).getLast? = some last) :
    n < last.seq ∧
      Passed sink table clock (sent ++ (sink.batch n now table.rows).map (·.seq)) last.seq := by
  have hmem : last ∈ sink.batch n now table.rows := mem_of_getLast? hlast
  obtain ⟨hrow, hwan, haft⟩ := mem_nextRows hmem
  rw [upTo_some, not_le] at haft
  have hsafe : safe now last.event = true := (Bool.and_eq_true_iff.mp hwan).2
  refine ⟨haft, fun r hr hm hle => ?_, fun i r hr hm hle => ?_, hbel.rows last hrow⟩
  · rw [mem_append]
    by_cases hn : r.seq ≤ n
    · exact .inl (h.reached r hr hm hn)
    · right
      have hold := hord.safe (.inl hr) (.inl hrow) hle hsafe
      rcases mem_batch hr hm hold (not_le.mp hn) with hin | ⟨-, hall⟩
      · exact List.mem_map_of_mem hin
      · -- the page is full, and ends before `r` unless `r` has the same number
        have hge : last.seq ≤ r.seq := hall last hmem
        rw [le_antisymm hle hge]
        exact List.mem_map_of_mem hmem
  · have := hord.safe (.inr ⟨i, hr⟩) (.inl hrow) hle hsafe
    omega

/-- No event that the sink waits for is old enough. -/
def Idle (sink : SiemSyslog) (table : Table ι QueryEvent) (now n : ℕ) : Prop :=
  ∀ r ∈ table.rows, sink.matches r.event = true → n < r.seq →
    now < r.event.ingestedAt + deliveryLag

theorem idle_of_batch_eq_nil (h : sink.batch n now table.rows = []) : Idle sink table now n := by
  intro r hr hm hn
  by_contra hlate
  rcases mem_batch hr hm (not_lt.mp hlate) hn with hin | ⟨hne, -⟩
  · exact absurd (h ▸ hin : r ∈ []) not_mem_nil
  · exact hne h

theorem Idle.apply [DecidableEq ι] (h : Idle sink table now n) (hnow : now ≤ clock)
    (hop : OnTime clock table op) : Idle sink (table.apply op) now n := by
  intro r hr hm hn
  rcases Table.mem_rows_apply hr with hseen | ⟨i, rfl, hopen⟩
  · exact h r hseen hm hn
  · exact hnow.trans_lt (hop r hopen)

theorem exists_of_maxSeq (h : sink.maxSeq now rows = some m) :
    ∃ r ∈ rows, safe now r.event = true ∧ r.seq = m := by
  have hmem := max?_mem h
  obtain ⟨r, hr, hseq⟩ := List.mem_map.mp hmem
  rw [mem_filter, Bool.and_eq_true] at hr
  exact ⟨r, hr.1, hr.2.2, hseq⟩

/-- **A jump**: with nothing to send, the sink may be at any event that is old enough. -/
theorem Passed.jump (h : Passed sink table clock sent n) (hbel : table.Below)
    (hord : Ordered table) (hnow : now ≤ clock) (hidle : Idle sink table now n)
    (hm : sink.maxSeq now table.rows = some m) : Passed sink table clock sent m := by
  obtain ⟨last, hrow, hsafe, rfl⟩ := exists_of_maxSeq hm
  refine ⟨fun r hr hm hle => ?_, fun i r hr hm hle => ?_, hbel.rows last hrow⟩
  · by_cases hn : r.seq ≤ n
    · exact h.reached r hr hm hn
    · have hlate := hidle r hr hm (not_le.mp hn)
      have hold := hord.safe (.inl hr) (.inl hrow) hle hsafe
      omega
  · have := hord.safe (.inr ⟨i, hr⟩) (.inl hrow) hle hsafe
    omega

/-! ### The invariant -/

/-- When the runner looked at its clock. -/
def Phase.started : Phase σ → Option ℕ
  | .idle | .loaded .. => none
  | .entered _ _ now => some now
  | .reading t | .probing t | .jumping t _ | .sending t .. | .delivered t .. | .failed t _
  | .draining t _ => some t.now

/-- The tick of a runner that is about to read a batch. -/
def Phase.reads : Phase σ → Option (Tick σ)
  | .reading t => some t
  | .idle | .loaded .. | .entered .. | .probing _ | .jumping .. | .sending .. | .delivered ..
  | .failed .. | .draining .. => none

/-- The tick of a runner between reading and committing. -/
def Phase.busy : Phase σ → Option (Tick σ)
  | .probing t | .jumping t _ | .sending t .. | .delivered t .. => some t
  | .idle | .loaded .. | .entered .. | .reading _ | .failed .. | .draining .. => none

/-- What a runner relies on. -/
def Phase.Ready (config : σ → SiemSyslog) (table : Table ι QueryEvent) (clock : ℕ)
    (sent : σ → List ℕ) : Phase σ → Prop
  | .probing t => Idle (config t.sink) table t.now t.copy.lastDeliveredSeq
  | .jumping t m => t.copy.lastDeliveredSeq < m ∧
      Passed (config t.sink) table clock (sent t.sink) m
  | .sending t rows last => t.copy.lastDeliveredSeq < last.seq ∧
      Passed (config t.sink) table clock (sent t.sink ++ rows.map (·.seq)) last.seq
  | .delivered t _ last => t.copy.lastDeliveredSeq < last.seq ∧
      Passed (config t.sink) table clock (sent t.sink) last.seq
  | .idle | .loaded .. | .entered .. | .reading _ | .failed .. | .draining .. => True

/-- **The invariant**: what a position has passed was sent, and a runner between reading and
committing has the sink, at the position it has read, for itself. -/
structure Inv (config : σ → SiemSyslog) (s : State ι ρ σ) : Prop where
  below : s.table.Below
  ordered : Ordered s.table
  passed : ∀ k, Passed (config k) s.table s.clock (s.sent k) (s.sinks k).lastDeliveredSeq
  past : ∀ j, ∀ now ∈ (s.phase j).started, now ≤ s.clock
  fresh : ∀ j, ∀ t ∈ (s.phase j).busy,
    t.copy.lastDeliveredSeq = (s.sinks t.sink).lastDeliveredSeq
  alone : ∀ j j', ∀ t ∈ (s.phase j).busy, ∀ t' ∈ (s.phase j').busy, t.sink = t'.sink → j = j'
  ready : ∀ j, (s.phase j).Ready config s.table s.clock s.sent

theorem inv_init (config : σ → SiemSyslog) : Inv config (State.init : State ι ρ σ) where
  below := Table.below_empty
  ordered r r' hr := by
    rcases hr with hr | ⟨i, hr⟩ <;> exact absurd hr not_mem_nil
  passed k := ⟨fun r hr => absurd hr not_mem_nil, fun i r hr => absurd hr not_mem_nil,
    Nat.one_pos⟩
  past j now hnow := absurd hnow (by simp [State.init, Phase.started])
  fresh j t ht := absurd ht (by simp [State.init, Phase.busy])
  alone j j' t ht := absurd ht (by simp [State.init, Phase.busy])
  ready j := trivial

/-- An event is inserted in the order of the stamps, a transaction commits before its time is
over, and a batch is read from the sink's position of now, while no other runner is between
reading and committing for the sink. -/
def Orderly (s : State ι ρ σ) : Label ι ρ σ → Prop
  | .draw i => ∀ e ∈ (s.pending i).head?, InOrder s.table (.insert i e)
  | .commit i => OnTime s.clock s.table (.commit i)
  | .go j => ∀ t ∈ (s.phase j).reads,
      t.copy.lastDeliveredSeq = (s.sinks t.sink).lastDeliveredSeq ∧
        ∀ j', ∀ t' ∈ (s.phase j').busy, t'.sink ≠ t.sink
  | .wait _ | .stamp .. | .rollback _ | .tick .. | .lock .. | .send .. | .crash _ => True

variable {s s' : State ι ρ σ} {j : ρ} {p : Phase σ}

theorem Phase.Ready.imp {table' : Table ι QueryEvent} {sent sent' : σ → List ℕ}
    (h : p.Ready config table clock sent)
    (hidle : ∀ k, ∀ now ∈ p.started, ∀ n, Idle (config k) table now n →
      Idle (config k) table' now n)
    (hpas : ∀ k S S' n, S ⊆ S' → Passed (config k) table clock S n →
      Passed (config k) table' clock' S' n)
    (hsent : ∀ k, sent k ⊆ sent' k) : p.Ready config table' clock' sent' := by
  cases p with
  | probing t => exact hidle _ t.now rfl _ h
  | jumping | delivered => exact ⟨h.1, hpas _ _ _ _ (hsent _) h.2⟩
  | sending =>
    refine ⟨h.1, hpas _ _ _ _ (append_subset.mpr ⟨?_, subset_append_right _ _⟩) h.2⟩
    exact subset_append_of_subset_left _ (hsent _)
  | idle | loaded | entered | reading | failed | draining => trivial

theorem Inv.wait (h : Inv config s) (d : ℕ) : Inv config { s with clock := s.clock + d } where
  below := h.below
  ordered := h.ordered
  passed k := (h.passed k).wait (Nat.le_add_right _ _)
  past j now hnow := (h.past j now hnow).trans (Nat.le_add_right _ _)
  fresh := h.fresh
  alone := h.alone
  ready j := (h.ready j).imp (fun _ _ _ _ hidle => hidle)
    (fun _ _ _ _ hsub hpas => (hpas.mono hsub).wait (Nat.le_add_right _ _))
    (fun _ => List.Subset.refl _)

theorem Inv.ingest [DecidableEq ι] (h : Inv config s) (op : Op ι QueryEvent)
    (hin : InOrder s.table op) (hon : OnTime s.clock s.table op) (pending : ι → List QueryEvent) :
    Inv config { s with pending := pending, table := s.table.apply op } where
  below := h.below.apply op
  ordered := h.ordered.apply h.below hin
  passed k := (h.passed k).apply op hon
  past := h.past
  fresh := h.fresh
  alone := h.alone
  ready j := (h.ready j).imp (fun _ now hnow _ hidle => hidle.apply (h.past j now hnow) hon)
    (fun _ _ _ _ hsub hpas => (hpas.mono hsub).apply op hon)
    (fun _ => List.Subset.refl _)

/-! ### What a runner does -/

theorem Inv.busy (h : Inv config s) {t : Tick σ} (ht : (s.phase j).busy = some t) :
    t.copy.lastDeliveredSeq = (s.sinks t.sink).lastDeliveredSeq ∧
      ∀ j', j' ≠ j → ∀ t' ∈ (s.phase j').busy, t'.sink ≠ t.sink := by
  refine ⟨h.fresh j t ht, fun j' hne t' ht' heq => ?_⟩
  exact hne (h.alone j' j t' ht' t ht heq)

section Runner

variable [DecidableEq ρ]

/-- **A statement of the runner `j`**, after which it is in the phase `p`: positions change only
where the runner has the sink for itself, and only forward. -/
structure Moves (config : σ → SiemSyslog) (s : State ι ρ σ) (j : ρ) (p : Phase σ)
    (s' : State ι ρ σ) : Prop where
  table : s'.table = s.table
  clock : s'.clock = s.clock
  phase : s'.phase = update s.phase j p
  sent : ∀ k, s.sent k ⊆ s'.sent k
  kept : ∀ k, (∀ t ∈ (s.phase j).busy, t.sink ≠ k) →
    (s'.sinks k).lastDeliveredSeq = (s.sinks k).lastDeliveredSeq
  forward : ∀ k, (s.sinks k).lastDeliveredSeq ≤ (s'.sinks k).lastDeliveredSeq
  passed : ∀ k, Passed (config k) s.table s.clock (s'.sent k) (s'.sinks k).lastDeliveredSeq
  started : ∀ now ∈ p.started, now ≤ s.clock
  busy : ∀ t ∈ p.busy, t.copy.lastDeliveredSeq = (s'.sinks t.sink).lastDeliveredSeq ∧
    ∀ j', j' ≠ j → ∀ t' ∈ (s.phase j').busy, t'.sink ≠ t.sink
  ready : p.Ready config s.table s.clock s'.sent

theorem Moves.inv (h : Inv config s) (hm : Moves config s j p s') : Inv config s' := by
  have hself : s'.phase j = p := by rw [hm.phase, update_self]
  have hoth : ∀ j', j' ≠ j → s'.phase j' = s.phase j' := by
    intro j' hne
    rw [hm.phase, update_of_ne hne]
  -- a runner that has a sink for itself keeps the others from it
  have hapa : ∀ j', j' ≠ j → ∀ t ∈ (s.phase j).busy, ∀ t' ∈ (s.phase j').busy,
      t.sink ≠ t'.sink := by
    intro j' hne t ht t' ht' heq
    exact hne (h.alone j j' t ht t' ht' heq).symm
  refine ⟨hm.table ▸ h.below, hm.table ▸ h.ordered, ?_, ?_, ?_, ?_, ?_⟩
  · intro k
    rw [hm.table, hm.clock]
    exact hm.passed k
  · intro j' now hnow
    rw [hm.clock]
    by_cases hne : j' = j
    · subst hne
      exact hm.started now (hself ▸ hnow)
    · exact h.past j' now (hoth j' hne ▸ hnow)
  · intro j' t ht
    by_cases hne : j' = j
    · subst hne
      exact (hm.busy t (hself ▸ ht)).1
    · rw [hoth j' hne] at ht
      rw [hm.kept t.sink fun t' ht' => hapa j' hne t' ht' t ht]
      exact h.fresh j' t ht
  · intro j₁ j₂ t₁ ht₁ t₂ ht₂ heq
    by_cases h₁ : j₁ = j
    · by_cases h₂ : j₂ = j
      · rw [h₁, h₂]
      · subst h₁
        rw [hself] at ht₁
        rw [hoth j₂ h₂] at ht₂
        exact absurd heq.symm ((hm.busy t₁ ht₁).2 j₂ h₂ t₂ ht₂)
    · rw [hoth j₁ h₁] at ht₁
      by_cases h₂ : j₂ = j
      · subst h₂
        rw [hself] at ht₂
        exact absurd heq ((hm.busy t₂ ht₂).2 j₁ h₁ t₁ ht₁)
      · rw [hoth j₂ h₂] at ht₂
        exact h.alone j₁ j₂ t₁ ht₁ t₂ ht₂ heq
  · intro j'
    rw [hm.table, hm.clock]
    by_cases hne : j' = j
    · subst hne
      rw [hself]
      exact hm.ready
    · rw [hoth j' hne]
      exact (h.ready j').imp (fun _ _ _ _ hidle => hidle)
        (fun _ _ _ _ hsub hpas => hpas.mono hsub) hm.sent

theorem Inv.moves (h : Inv config s) (htab : s'.table = s.table) (hclo : s'.clock = s.clock)
    (hph : s'.phase = update s.phase j p) (hsin : s'.sinks = s.sinks)
    (hsent : s'.sent = s.sent) (hsta : ∀ now ∈ p.started, now ≤ s.clock)
    (hbusy : ∀ t ∈ p.busy, t.copy.lastDeliveredSeq = (s.sinks t.sink).lastDeliveredSeq ∧
      ∀ j', j' ≠ j → ∀ t' ∈ (s.phase j').busy, t'.sink ≠ t.sink)
    (hrdy : p.Ready config s.table s.clock s.sent) : Moves config s j p s' where
  table := htab
  clock := hclo
  phase := hph
  sent k := hsent ▸ List.Subset.refl _
  kept k _ := by rw [hsin]
  forward k := by rw [hsin]
  passed k := by
    rw [hsent, hsin]
    exact h.passed k
  started := hsta
  busy := hsin ▸ hbusy
  ready := hsent ▸ hrdy

theorem Inv.leave (h : Inv config s) (j : ρ) : Moves config s j .idle (s.leave j) :=
  h.moves rfl rfl rfl rfl rfl (fun _ hnow => by simp [Phase.started] at hnow)
    (fun _ ht => by simp [Phase.busy] at ht) trivial

theorem Inv.goTo (h : Inv config s) (hsta : ∀ now ∈ p.started, now ≤ s.clock)
    (hbusy : p.busy = none) (hrdy : p.Ready config s.table s.clock s.sent) :
    Moves config s j p (s.goTo j p) :=
  h.moves rfl rfl rfl rfl rfl hsta (fun t ht => absurd ht (by simp [hbusy])) hrdy

theorem Inv.lock [DecidableEq σ] (h : Inv config s) {refreshed : Bool}
    (hlock : s.lock config j refreshed = some s') : ∃ p, Moves config s j p s' := by
  cases hph : s.phase j with
  | entered k copy now =>
    have hnow : now ≤ s.clock := h.past j now (by rw [hph]; rfl)
    simp only [State.lock, hph] at hlock
    obtain ⟨-, hlock⟩ := ite_none_right_eq_some.mp hlock
    generalize (if refreshed = true then s.sinks k else copy) = copy' at hlock
    split at hlock
    · cases hlock
      refine ⟨_, h.moves rfl rfl rfl rfl rfl (fun n hn => ?_) (fun _ ht => ?_) trivial⟩
      · rwa [← some_inj.mp hn]
      · simp [Phase.busy] at ht
    · cases hlock
      exact ⟨_, h.leave j⟩
  | idle | loaded | reading | probing | jumping | sending | delivered | failed | draining =>
    simp [State.lock, hph] at hlock

/-- **Sending**: only what was sent is counted. -/
theorem Inv.send [DecidableEq σ] (h : Inv config s) {error : Option Str}
    (hsend : s.send j error = some s') : ∃ p, Moves config s j p s' := by
  cases hph : s.phase j with
  | sending t rows last =>
    have hrdy := h.ready j
    have hbusy := h.busy (j := j) (t := t) (by rw [hph]; rfl)
    have hnow : t.now ≤ s.clock := h.past j t.now (by rw [hph]; rfl)
    rw [hph] at hrdy
    cases error with
    | none =>
      simp only [State.send, hph, some_inj] at hsend
      subst hsend
      -- what was sent stays sent
      have hsub : ∀ k, s.sent k ⊆
          update s.sent t.sink (s.sent t.sink ++ rows.map (·.seq)) k := by
        intro k
        by_cases hk : k = t.sink
        · rw [hk, update_self]
          exact subset_append_left _ _
        · rw [update_of_ne hk]
          exact List.Subset.refl _
      refine ⟨.delivered t rows.length last, rfl, rfl, rfl, hsub, fun _ _ => rfl, fun _ => le_rfl,
        fun k => (h.passed k).mono (hsub k), ?_, ?_, hrdy.1, ?_⟩
      · intro now hn
        rwa [← some_inj.mp hn]
      · intro t' ht'
        cases ht'
        exact hbusy
      · simp only [update_self]
        exact hrdy.2
    | some =>
      simp only [State.send, hph, some_inj] at hsend
      subst hsend
      refine ⟨_, h.goTo (fun now hn => ?_) rfl trivial⟩
      rwa [← some_inj.mp hn]
  | idle | loaded | entered | reading | probing | jumping | delivered | failed | draining =>
    simp [State.send, hph] at hsend

/-- **Committing a position** that the runner has got to. -/
theorem Inv.save [DecidableEq σ] (h : Inv config s) {t : Tick σ} (ht : (s.phase j).busy = some t)
    {after : Progress} (hlt : t.copy.lastDeliveredSeq < after.lastDeliveredSeq)
    (hpas : Passed (config t.sink) s.table s.clock (s.sent t.sink) after.lastDeliveredSeq)
    (hnow : t.now ≤ s.clock) {count : ℕ}
    (hsave : (s.save j t.sink t.copy after).map (·.goTo j (.draining t count)) = some s') :
    Moves config s j (.draining t count) s' := by
  obtain ⟨s₁, hs₁, rfl⟩ := map_eq_some_iff.mp hsave
  obtain ⟨-, rfl⟩ := ite_some_none_eq_some.mp hs₁
  -- the position has changed in the session, so it is written
  have hself : (Progress.flushed t.copy after (s.sinks t.sink)).lastDeliveredSeq =
      after.lastDeliveredSeq := if_neg hlt.ne'
  refine ⟨rfl, rfl, rfl, fun k => List.Subset.refl (s.sent k), fun k hk => ?_, fun k => ?_,
    fun k => ?_, fun now hn => ?_, fun _ ht' => absurd ht' (by simp [Phase.busy]), trivial⟩
  · have hne : k ≠ t.sink := (hk t ht).symm
    simp only [State.goTo, update_of_ne hne]
  · by_cases hk : k = t.sink
    · subst hk
      simp only [State.goTo, update_self, hself]
      have := (h.busy ht).1
      omega
    · simp only [State.goTo, update_of_ne hk, le_refl]
  · by_cases hk : k = t.sink
    · subst hk
      simp only [State.goTo, update_self, hself]
      exact hpas
    · simp only [State.goTo, update_of_ne hk]
      exact h.passed k
  · rwa [← some_inj.mp hn]

/-- **Reading a batch** takes the sink. -/
theorem Inv.read (h : Inv config s) {t : Tick σ} (hph : s.phase j = .reading t)
    (hC : t.copy.lastDeliveredSeq = (s.sinks t.sink).lastDeliveredSeq ∧
      ∀ j', ∀ t' ∈ (s.phase j').busy, t'.sink ≠ t.sink) (hp : p.busy = some t)
    (hsta : p.started = some t.now) (hrdy : p.Ready config s.table s.clock s.sent) :
    Moves config s j p (s.goTo j p) := by
  have hnow : t.now ≤ s.clock := h.past j t.now (by rw [hph]; rfl)
  refine h.moves rfl rfl rfl rfl rfl (fun n hn => ?_) (fun t' ht' => ?_) hrdy
  · rwa [← some_inj.mp (hsta.symm.trans hn)]
  · obtain rfl : t = t' := some_inj.mp (hp.symm.trans ht')
    exact ⟨hC.1, fun j' _ => hC.2 j'⟩

theorem Inv.go [DecidableEq σ] (h : Inv config s) (hC : Orderly s (.go j))
    (hgo : s.go config j = some s') : ∃ p, Moves config s j p s' := by
  have hrdy := h.ready j
  have hpast := h.past j
  cases hph : s.phase j with
  | loaded =>
    simp only [State.go, hph, some_inj] at hgo
    subst hgo
    refine ⟨_, h.goTo (fun now hn => ?_) rfl trivial⟩
    rw [← some_inj.mp hn]
  | reading t =>
    rw [hph] at hpast
    have hnow : t.now ≤ s.clock := hpast t.now rfl
    replace hC := hC t (by rw [hph]; rfl)
    have hpas := h.passed t.sink
    rw [← hC.1] at hpas
    simp only [State.go, hph] at hgo
    split at hgo
    case h_1 hnone =>
      cases hgo
      have hnil := getLast?_eq_none_iff.mp hnone
      exact ⟨_, h.read hph hC rfl rfl (idle_of_batch_eq_nil hnil)⟩
    case h_2 last hlast =>
      cases hgo
      exact ⟨_, h.read hph hC rfl rfl (hpas.batch h.below h.ordered hnow hlast)⟩
  | probing t =>
    have hbusy := h.busy (j := j) (t := t) (by rw [hph]; rfl)
    rw [hph] at hrdy hpast
    have hdone : Moves config s j (.draining t 0) (s.goTo j (.draining t 0)) :=
      h.goTo hpast rfl trivial
    simp only [State.go, hph] at hgo
    split at hgo
    case h_1 m hm =>
      split at hgo
      case isTrue hlt =>
        cases hgo
        have hpas := h.passed t.sink
        rw [← hbusy.1] at hpas
        have hjump := hpas.jump h.below h.ordered (hpast t.now rfl) hrdy hm
        refine ⟨_, h.moves rfl rfl rfl rfl rfl hpast (fun t' ht' => ?_) ⟨hlt, hjump⟩⟩
        cases ht'
        exact hbusy
      case isFalse => exact some_inj.mp hgo ▸ ⟨_, hdone⟩
    case h_2 => exact some_inj.mp hgo ▸ ⟨_, hdone⟩
  | jumping t m | delivered t count last =>
    have hbusy : (s.phase j).busy = some t := by rw [hph]; rfl
    rw [hph] at hrdy hpast
    simp only [State.go, hph] at hgo
    exact ⟨_, h.save hbusy hrdy.1 hrdy.2 (hpast t.now rfl) hgo⟩
  | failed t error =>
    simp only [State.go, hph] at hgo
    obtain ⟨s₁, hs₁, rfl⟩ := map_eq_some_iff.mp hgo
    obtain ⟨-, rfl⟩ := ite_some_none_eq_some.mp hs₁
    -- a failure does not write the position
    have hkept : ∀ k, (update s.sinks t.sink (Progress.flushed t.copy
        (t.copy.fail t.now error) (s.sinks t.sink)) k).lastDeliveredSeq =
          (s.sinks k).lastDeliveredSeq := by
      intro k
      by_cases hk : k = t.sink
      · subst hk
        rw [update_self]
        exact if_pos rfl
      · rw [update_of_ne hk]
    refine ⟨.idle, rfl, rfl, rfl, fun k => List.Subset.refl (s.sent k), fun k _ => hkept k,
      fun k => (hkept k).ge, fun k => ?_, fun _ hn => absurd hn (by simp [Phase.started]),
      fun _ ht => absurd ht (by simp [Phase.busy]), trivial⟩
    exact (hkept k).symm ▸ h.passed k
  | draining =>
    rw [hph] at hpast
    simp only [State.go, hph] at hgo
    split at hgo
    · exact some_inj.mp hgo ▸ ⟨_, h.leave j⟩
    · split at hgo
      · exact some_inj.mp hgo ▸ ⟨_, h.leave j⟩
      · exact some_inj.mp hgo ▸ ⟨_, h.goTo hpast rfl trivial⟩
  | idle | entered | sending => simp [State.go, hph] at hgo

end Runner

/-! ### Runs -/

section Run

variable [DecidableEq ι] [DecidableEq ρ] [DecidableEq σ] {l : Label ι ρ σ}

theorem Inv.step (h : Inv config s) (hC : Orderly s l) (hstep : step config s l = some s') :
    Inv config s' ∧
      (∀ k, (s.sinks k).lastDeliveredSeq ≤ (s'.sinks k).lastDeliveredSeq) ∧
      ∀ sink sent n, Passed sink s.table s.clock sent n → Passed sink s'.table s'.clock sent n := by
  -- a step of a runner, by what it moves
  have hrun : ∀ j, (∃ p, Moves config s j p s') → Inv config s' ∧
      (∀ k, (s.sinks k).lastDeliveredSeq ≤ (s'.sinks k).lastDeliveredSeq) ∧
      ∀ sink sent n, Passed sink s.table s.clock sent n →
        Passed sink s'.table s'.clock sent n := by
    rintro j ⟨p, hm⟩
    refine ⟨hm.inv h, hm.forward, fun sink sent n hpas => ?_⟩
    rw [hm.table, hm.clock]
    exact hpas
  cases l with
  | wait d =>
    cases hstep
    exact ⟨h.wait d, fun _ => le_rfl, fun _ _ _ hpas => hpas.wait (Nat.le_add_right _ _)⟩
  | stamp =>
    cases hstep
    exact ⟨⟨h.below, h.ordered, h.passed, h.past, h.fresh, h.alone, h.ready⟩, fun _ => le_rfl,
      fun _ _ _ hpas => hpas⟩
  | draw i =>
    cases hpen : s.pending i with
    | nil => simp [SyslogDelivery.step, hpen] at hstep
    | cons e =>
      simp only [SyslogDelivery.step, hpen, some_inj] at hstep
      subst hstep
      have hin : InOrder s.table (.insert i e) := hC e (by rw [hpen]; rfl)
      exact ⟨h.ingest _ hin trivial _, fun _ => le_rfl,
        fun _ _ _ hpas => hpas.apply (.insert i e) trivial⟩
  | commit i =>
    obtain ⟨-, rfl⟩ := ite_some_none_eq_some.mp hstep
    exact ⟨h.ingest (.commit i) trivial hC _, fun _ => le_rfl,
      fun _ _ _ hpas => hpas.apply (.commit i) hC⟩
  | rollback i =>
    cases hstep
    exact ⟨h.ingest (.rollback i) trivial trivial _, fun _ => le_rfl,
      fun _ _ _ hpas => hpas.apply (.rollback i) trivial⟩
  | tick j =>
    refine hrun j ?_
    cases hph : s.phase j with
    | idle =>
      simp only [SyslogDelivery.step, hph] at hstep
      obtain ⟨-, rfl⟩ := ite_some_none_eq_some.mp hstep
      exact ⟨_, h.goTo (fun _ hn => absurd hn (by simp [Phase.started])) rfl trivial⟩
    | loaded | entered | reading | probing | jumping | sending | delivered | failed | draining =>
      simp [SyslogDelivery.step, hph] at hstep
  | lock j => exact hrun j (h.lock hstep)
  | send j => exact hrun j (h.send hstep)
  | go j => exact hrun j (h.go hC hstep)
  | crash j =>
    cases hstep
    exact hrun j ⟨_, h.leave j⟩

theorem RunWhile.inv (hrun : RunWhile config Orderly s s') (h : Inv config s) :
    Inv config s' ∧
      (∀ k, (s.sinks k).lastDeliveredSeq ≤ (s'.sinks k).lastDeliveredSeq) ∧
      ∀ sink sent n, Passed sink s.table s.clock sent n → Passed sink s'.table s'.clock sent n := by
  induction hrun with
  | refl => exact ⟨h, fun _ => le_rfl, fun _ _ _ hpas => hpas⟩
  | tail _ hstep ih =>
    obtain ⟨l, hC, hstep⟩ := hstep
    obtain ⟨hinv, hfor, hkee⟩ := ih.1.step hC hstep
    exact ⟨hinv, fun k => (ih.2.1 k).trans (hfor k),
      fun sink sent n hpas => hkee sink sent n (ih.2.2 sink sent n hpas)⟩

/-- **Nothing is skipped**: a sink's position never goes back, and what it has passed was sent,
whether it is committed by now or only later, if stamps are in the order of the numbers and no
two runners are between reading and committing for one sink. -/
theorem delivery_complete (hrun : RunWhile config Orderly .init s)
    (hlater : RunWhile config Orderly s s') (k : σ) :
    (s.sinks k).lastDeliveredSeq ≤ (s'.sinks k).lastDeliveredSeq ∧
      ∀ r ∈ s'.table.rows, (config k).matches r.event = true →
        r.seq ≤ (s.sinks k).lastDeliveredSeq → r.seq ∈ s.sent k := by
  have hinv : Inv config s := (hrun.inv (inv_init config)).1
  obtain ⟨-, hfor, hkee⟩ := hlater.inv hinv
  exact ⟨hfor k, (hkee _ _ _ (hinv.passed k)).reached⟩

end Run

/-! ### Sample runs -/

section Samples

instance [Fintype ι] [Fintype ρ] [DecidableEq σ] (s : State ι ρ σ) : DecidablePred (Orderly s)
  | .draw i => inferInstanceAs (Decidable (∀ e ∈ (s.pending i).head?, _ ∧ _))
  | .commit i => inferInstanceAs (Decidable (∀ r ∈ s.table.drawn i, _ < _))
  | .go j => inferInstanceAs (Decidable (∀ t ∈ (s.phase j).reads, _ ∧ _))
  | .wait _ | .stamp .. | .rollback _ | .tick .. | .lock .. | .send .. | .crash _ =>
    isTrue trivial

end Samples

/-- Every event, one at a time. -/
def plain : Unit → SiemSyslog := fun _ => ⟨none, .all, 1, Nat.one_pos, 10⟩

/-- The runner `j` has looked at the clock and locked the sink. -/
def taken {ι ρ : Type} (j : ρ) : List (Label ι ρ Unit) := [.tick j (), .go j, .lock j true]

/-- The runner `j` reads a batch, sends it and commits. -/
def batchOf {ι ρ : Type} (j : ρ) : List (Label ι ρ Unit) := [.go j, .send j none, .go j]

/-- Two events: a runner sends the first and breaks off, another one sends the second. -/
theorem delivery_complete_two : ∃ s : State Bool Bool Unit,
    RunWhile plain Orderly .init s ∧ (s.sinks ()).lastDeliveredSeq = 2 ∧
      1 ∈ s.sent () ∧ 2 ∈ s.sent () := by
  obtain ⟨s, hrun, hseq, hone, htwo⟩ := Machine.exists_run (f := step plain) (C := Orderly)
    (s := (.init : State Bool Bool Unit))
    (P := fun s => (s.sinks ()).lastDeliveredSeq = 2 ∧
      ⟨1, ⟨none, "allow", 0⟩⟩ ∈ s.table.rows ∧ ⟨2, ⟨none, "block", 0⟩⟩ ∈ s.table.rows)
    ([.stamp true none "allow", .stamp false none "block", .draw true, .draw false, .commit true,
      .commit false, .wait (5 * second)] ++ taken true ++ batchOf true ++
      [.crash true, .wait (10 * second)] ++ taken false ++ batchOf false)
    (by decide +kernel)
  have hall := (delivery_complete hrun .refl ()).2
  exact ⟨s, hrun, hseq, hall _ hone rfl (hseq.ge.trans' one_le_two), hall _ htwo rfl hseq.ge⟩

/-- All steps are orderly, but for these. -/
def OrderlyBut {ι ρ σ : Type} (exempt : Label ι ρ σ → Bool) (s : State ι ρ σ)
    (l : Label ι ρ σ) : Prop :=
  exempt l = true ∨ Orderly s l

instance {ι ρ σ : Type} [Fintype ι] [Fintype ρ] [DecidableEq σ] (exempt : Label ι ρ σ → Bool)
    (s : State ι ρ σ) (l : Label ι ρ σ) : Decidable (OrderlyBut exempt s l) :=
  inferInstanceAs (Decidable (_ ∨ _))

theorem skipped_and_set_back :
    (∃ s : State Bool Unit Unit, RunWhile plain (OrderlyBut fun l => l matches .draw _) .init s ∧
      ∃ r ∈ s.table.rows, (plain ()).matches r.event = true ∧
        r.seq ≤ (s.sinks ()).lastDeliveredSeq ∧ r.seq ∉ s.sent ()) ∧
    ∃ s s' : State Unit Bool Unit, RunWhile plain (OrderlyBut fun l => l matches .go _) .init s ∧
      RunWhile plain (OrderlyBut fun l => l matches .go _) s s' ∧
      (s'.sinks ()).lastDeliveredSeq < (s.sinks ()).lastDeliveredSeq := by
  constructor
  · -- the transaction `false` stamps its event after `true` has, and inserts it before
    exact Machine.exists_run
      ([.stamp true none "allow", .wait second, .stamp false none "allow", .draw false,
        .draw true, .commit true, .wait (4 * second)] ++ taken () ++ batchOf () ++ [.commit false])
      (by decide +kernel)
  · -- the runner `true` is slow to send its second batch; `false` has sent it, and another
    -- one, in the meantime
    let event : Label Unit Bool Unit := .stamp () none "allow"
    let late : List (Label Unit Bool Unit) := [.send true none, .go true]
    obtain ⟨s, hrun, hlate⟩ := Machine.exists_run (f := step plain)
      (C := OrderlyBut fun l => l matches .go _) (s := (.init : State Unit Bool Unit))
      (P := fun s => (Machine.run (step plain) (OrderlyBut fun l => l matches .go _) late s).any
        (fun s' => (s'.sinks ()).lastDeliveredSeq < (s.sinks ()).lastDeliveredSeq) = true)
      ([event, event, event, .draw (), .draw (), .draw (), .commit (), .wait (5 * second)] ++
        taken true ++ batchOf true ++ [.go true, .go true, .wait (10 * second)] ++
        taken false ++ batchOf false ++ [.go false] ++ batchOf false)
      (by decide +kernel)
    obtain ⟨s', hrest, hlt⟩ := Machine.exists_run late hlate
    exact ⟨s, s', hrun, hrest, hlt⟩

end Control.SyslogDelivery
