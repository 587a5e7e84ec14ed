/-
The retention of query events: `prune_query_events` of `retention.py`, next to the
syslog delivery and the requests that add and enable sinks.

A prune reads the smallest `last_delivered_seq` of the enabled sinks once, then deletes
old events up to there, a batch and a commit at a time.  `seq` stands for the row's `id`;
`occurredAt` gives the `occurred_at` of a row, which filter nodes report.

* `pruneLoop_eq` — what a prune leaves, undisturbed;
* `le_idlePosition` — how far a tick that finds nothing to send moves a sink;
* `retention_progress_iff` — when a prune deletes all that is old;
* `Inv.step`, `undelivered_kept` — a prune among deliveries and requests deletes only
  what every enabled sink has passed, as long as no sink is enabled behind its back;
* `reenabled_loses` — a sink that is enabled while a prune runs.
-/
import MantisDns.SyslogDelivery

open Text Table Sequenced Machine Function List Option

namespace Control.Retention

open SyslogDelivery (QueryEvent SiemSyslog Progress safe plain)

/-! ### The loop -/

/-- `_BATCH_SIZE`. -/
def batchSize : ℕ := 5000

def day : ℕ := 86400 * second

/-- The rows a `LIMIT` without an order takes. -/
structure Limit where
  pick : List (Row QueryEvent) → List (Row QueryEvent)
  subperm : ∀ l, (pick l).Subperm l
  length_eq : ∀ l, (pick l).length = min batchSize l.length

/-- What a prune goes by: its time, the days to keep, and the position it has read. -/
structure Pass where
  now : ℕ
  days : ℕ
  bound : Option ℕ
  deriving DecidableEq

/-- `occurred_at < cutoff`. -/
def isOld (occurredAt : ℕ → ℕ) (now days seq : ℕ) : Bool := occurredAt seq + days * day < now

/-- The filter of the loop's query. -/
def Pass.prunable (occurredAt : ℕ → ℕ) (pass : Pass) (seq : ℕ) : Bool :=
  isOld occurredAt pass.now pass.days seq && pass.bound.all (seq ≤ ·)

/-- The ids of the next batch. -/
def selectIds (limit : Limit) (prunable : ℕ → Bool) (rows : List (Row QueryEvent)) : List ℕ :=
  (limit.pick (rows.filter (prunable ·.seq))).map (·.seq)

/-- `DELETE ... WHERE id IN ids`. -/
def deleteIds (ids : List ℕ) (rows : List (Row QueryEvent)) : List (Row QueryEvent) :=
  rows.filter (·.seq ∉ ids)

/-- The number that the `DELETE` reports. -/
def deleted (ids : List ℕ) (rows : List (Row QueryEvent)) : ℕ :=
  (rows.filter (·.seq ∈ ids)).length

section Loop

variable {limit : Limit} {prunable : ℕ → Bool} {rows : List (Row QueryEvent)}

theorem mem_selectIds {seq : ℕ} (h : seq ∈ selectIds limit prunable rows) :
    prunable seq = true ∧ ∃ r ∈ rows, r.seq = seq := by
  obtain ⟨r, hr, rfl⟩ := List.mem_map.mp h
  obtain ⟨hrow, hp⟩ := mem_filter.mp ((limit.subperm _).subset hr)
  exact ⟨hp, r, hrow, rfl⟩

theorem length_deleteIds_lt (h : selectIds limit prunable rows ≠ []) :
    (deleteIds (selectIds limit prunable rows) rows).length < rows.length := by
  obtain ⟨seq, hseq⟩ := exists_mem_of_ne_nil _ h
  obtain ⟨-, r, hr, rfl⟩ := mem_selectIds hseq
  exact length_filter_lt_length_iff_exists.mpr ⟨r, hr, by simpa using hseq⟩

/-- The loop of `prune_query_events`, with nothing else going on. -/
def pruneLoop (limit : Limit) (prunable : ℕ → Bool) (rows : List (Row QueryEvent)) :
    List (Row QueryEvent) :=
  if _h : selectIds limit prunable rows = [] then rows
  else
    let rest := deleteIds (selectIds limit prunable rows) rows
    if deleted (selectIds limit prunable rows) rows < batchSize then rest
    else pruneLoop limit prunable rest
  termination_by rows.length
  decreasing_by exact length_deleteIds_lt ‹_›

theorem selectIds_complete (h : (selectIds limit prunable rows).length < batchSize) :
    ∀ r ∈ rows, prunable r.seq = true → r.seq ∈ selectIds limit prunable rows := by
  intro r hr hp
  have hlen := limit.length_eq (rows.filter (prunable ·.seq))
  rw [selectIds, length_map] at h
  have hperm := (limit.subperm (rows.filter (prunable ·.seq))).perm_of_length_le (by omega)
  exact List.mem_map_of_mem (hperm.mem_iff.mpr (mem_filter.mpr ⟨hr, hp⟩))

theorem length_selectIds_le :
    (selectIds limit prunable rows).length ≤ deleted (selectIds limit prunable rows) rows := by
  -- the rows that were picked are among those with a picked number
  have hsub : (limit.pick (rows.filter (prunable ·.seq))).Subperm
      ((rows.filter (prunable ·.seq)).filter (·.seq ∈ selectIds limit prunable rows)) := by
    have hself := (limit.subperm (rows.filter (prunable ·.seq))).filter
      fun r => decide (r.seq ∈ selectIds limit prunable rows)
    rwa [filter_eq_self.mpr] at hself
    exact fun r hr => decide_eq_true (List.mem_map_of_mem hr)
  have hle := hsub.length_le
  rw [filter_comm] at hle
  rw [selectIds, length_map, ← selectIds]
  exact hle.trans (length_filter_le _ _)

/-- **An undisturbed prune** deletes exactly the rows its query finds. -/
theorem pruneLoop_eq (limit : Limit) (prunable : ℕ → Bool) (rows : List (Row QueryEvent)) :
    pruneLoop limit prunable rows = rows.filter (!prunable ·.seq) := by
  fun_induction pruneLoop limit prunable rows with
  | case1 rows hnil =>
    refine (filter_eq_self.mpr fun r hr => ?_).symm
    rw [Bool.not_eq_true']
    by_contra hp
    have hmem := selectIds_complete (by rw [hnil]; decide) r hr (by simpa using hp)
    rw [hnil] at hmem
    simp at hmem
  | case2 rows hne rest hfew =>
    refine filter_congr fun r hr => ?_
    rw [Bool.eq_iff_iff, decide_eq_true_eq, Bool.not_eq_true']
    refine ⟨fun hnot => ?_, fun hp hmem => ?_⟩
    · by_contra hp
      exact hnot (selectIds_complete (length_selectIds_le.trans_lt hfew) r hr (by simpa using hp))
    · exact absurd (mem_selectIds hmem).1 (by simp [hp])
  | case3 rows hne rest hfull ih =>
    rw [ih]
    show List.filter _ (List.filter _ rows) = _
    rw [List.filter_filter]
    refine filter_congr fun r hr => ?_
    by_cases hp : prunable r.seq = true
    · simp [hp]
    · have hnot : r.seq ∉ selectIds limit prunable rows := fun hmem => hp (mem_selectIds hmem).1
      simp [hp, hnot]

end Loop

variable {positions : List ℕ} {seq now : ℕ} {rows : List (Row QueryEvent)}

/-- `prune_query_events`, given the positions of the enabled sinks. -/
def pruneQueryEvents (limit : Limit) (occurredAt : ℕ → ℕ) (now days : ℕ) (positions : List ℕ)
    (rows : List (Row QueryEvent)) : List (Row QueryEvent) :=
  pruneLoop limit (Pass.prunable occurredAt ⟨now, days, positions.min?⟩) rows

theorem all_min? :
    positions.min?.all (seq ≤ ·) = true ↔ ∀ n ∈ positions, seq ≤ n := by
  cases hmin : positions.min? with
  | none =>
    rw [min?_eq_none_iff.mp hmin]
    simp
  | some =>
    rw [all_some, decide_eq_true_eq]
    exact le_min?_iff hmin

/-! ### A tick that finds nothing -/

/-- The position of a sink after a tick that has found nothing to send. -/
def idlePosition (sink : SiemSyslog) (now : ℕ) (rows : List (Row QueryEvent)) (position : ℕ) : ℕ :=
  match sink.maxSeq now rows with
  | some m => if position < m then m else position
  | none => position

/-- **An idle tick** moves the sink to the last event of its tenant that is old enough. -/
theorem le_idlePosition {sink : SiemSyslog} {position : ℕ} :
    seq ≤ idlePosition sink now rows position ↔ seq ≤ position ∨
      ∃ r ∈ rows, sink.tenantMatches r.event = true ∧ safe now r.event = true ∧ seq ≤ r.seq := by
  have hmem : ∀ n, n ∈ (rows.filter fun r =>
      sink.tenantMatches r.event && safe now r.event).map (·.seq) ↔
      ∃ r ∈ rows, sink.tenantMatches r.event = true ∧ safe now r.event = true ∧ r.seq = n := by
    intro n
    simp only [List.mem_map, mem_filter, Bool.and_eq_true, and_assoc]
  rw [idlePosition]
  cases hmax : sink.maxSeq now rows with
  | none =>
    have hnil := max?_eq_none_iff.mp hmax
    refine ⟨.inl, fun h => h.resolve_right ?_⟩
    rintro ⟨r, hr, hten, hsafe, -⟩
    have := (hmem r.seq).mpr ⟨r, hr, hten, hsafe, rfl⟩
    rw [hnil] at this
    simp at this
  | some m =>
    obtain ⟨hm, hle⟩ := max?_eq_some_iff.mp hmax
    obtain ⟨r, hr, hten, hsafe, rfl⟩ := (hmem m).mp hm
    dsimp only
    split_ifs with hlt
    · refine ⟨fun h => .inr ⟨r, hr, hten, hsafe, h⟩, ?_⟩
      rintro (h | ⟨r', hr', hten', hsafe', h⟩)
      · omega
      · exact h.trans (hle _ ((hmem _).mpr ⟨r', hr', hten', hsafe', rfl⟩))
    · refine ⟨.inl, ?_⟩
      rintro (h | ⟨r', hr', hten', hsafe', h⟩)
      · exact h
      · have := hle _ ((hmem _).mpr ⟨r', hr', hten', hsafe', rfl⟩)
        omega

open SyslogDelivery in
/-- The runner of the delivery, when its batch is empty, moves the sink to that position. -/
theorem idle_tick {ι ρ σ : Type} [DecidableEq ι] [DecidableEq ρ] [DecidableEq σ]
    {config : σ → SiemSyslog} {s : State ι ρ σ} {j : ρ} {t : Tick σ}
    (hph : s.phase j = .reading t)
    (hcopy : t.copy.lastDeliveredSeq = (s.sinks t.sink).lastDeliveredSeq)
    (hlock : s.holder t.sink = none ∨ s.holder t.sink = some j)
    (hnil : (config t.sink).batch t.copy.lastDeliveredSeq t.now s.table.rows = []) :
    ∃ s', RunWhile config (fun _ l => l = .go j) s s' ∧
      s'.phase j = .draining t 0 ∧ s'.table = s.table ∧
      (s'.sinks t.sink).lastDeliveredSeq =
        idlePosition (config t.sink) t.now s.table.rows (s.sinks t.sink).lastDeliveredSeq := by
  -- the batch is empty, so the runner asks for the last number
  let s₁ := s.goTo j (.probing t)
  have hread : step config s (.go j) = some s₁ := by
    simp only [step, State.go, hph, hnil, getLast?_nil, s₁]
  have hpro : s₁.phase j = .probing t := update_self ..
  have htab : s₁.table = s.table := rfl
  rw [idlePosition, ← hcopy]
  cases hmax : (config t.sink).maxSeq t.now s.table.rows with
  | none =>
    have hdone : step config s₁ (.go j) = some (s₁.goTo j (.draining t 0)) := by
      simp only [step, State.go, hpro, htab, hmax]
    exact ⟨_, .head ⟨_, rfl, hread⟩ (.single ⟨_, rfl, hdone⟩), update_self .., rfl, hcopy.symm⟩
  | some m =>
    dsimp only
    split_ifs with hlt
    · let s₂ := s₁.goTo j (.jumping t m)
      have hjump : step config s₁ (.go j) = some s₂ := by
        simp only [step, State.go, hpro, htab, hmax, if_pos hlt, s₂]
      have hjum : s₂.phase j = .jumping t m := update_self ..
      have hsave : step config s₂ (.go j) =
          (s₂.save j t.sink t.copy { t.copy with lastDeliveredSeq := m }).map
            (·.goTo j (.draining t 0)) := by
        simp only [step, State.go, hjum]
      have hsaved := hsave.trans (congrArg _ (if_pos hlock))
      refine ⟨_, .head ⟨_, rfl, hread⟩ (.head ⟨_, rfl, hjump⟩ (.single ⟨_, rfl, hsaved⟩)),
        update_self .., rfl, ?_⟩
      simp only [State.goTo, update_self]
      exact if_neg hlt.ne'
    · have hdone : step config s₁ (.go j) = some (s₁.goTo j (.draining t 0)) := by
        simp only [step, State.go, hpro, htab, hmax, if_neg hlt]
      exact ⟨_, .head ⟨_, rfl, hread⟩ (.single ⟨_, rfl, hdone⟩), update_self .., rfl, hcopy.symm⟩

/-! ### A prune after idle ticks -/

/-- The position that a tick leaves, if it finds nothing to send. -/
def idleTick (sink : SiemSyslog) (now : ℕ) (rows : List (Row QueryEvent)) (position : ℕ) :
    Option ℕ :=
  if sink.batch position now rows = [] then some (idlePosition sink now rows position) else none

/-- A tick has just run for each sink, with its position, and left these. -/
def IdleTicks (now : ℕ) (rows : List (Row QueryEvent)) (sinks : List (SiemSyslog × ℕ))
    (positions : List ℕ) : Prop :=
  List.Forall₂ (fun k n => idleTick k.1 now rows k.2 = some n) sinks positions

theorem IdleTicks.forall_le {sinks : List (SiemSyslog × ℕ)} (h : IdleTicks now rows sinks positions)
    (seq : ℕ) :
    (∀ n ∈ positions, seq ≤ n) ↔ ∀ k ∈ sinks, seq ≤ idlePosition k.1 now rows k.2 := by
  induction h with
  | nil => simp
  | cons htick _ ih =>
    rw [forall_mem_cons, forall_mem_cons, ih, ← (ite_some_none_eq_some.mp htick).2]

/-- The prune deletes every old event that is past the delivery lag. -/
def PrunesOld (limit : Limit) (occurredAt : ℕ → ℕ) (now days : ℕ) (positions : List ℕ)
    (rows : List (Row QueryEvent)) : Prop :=
  ∀ r ∈ rows, isOld occurredAt now days r.seq = true → safe now r.event = true →
    r ∉ pruneQueryEvents limit occurredAt now days positions rows

/-- **Progress**: after idle ticks all that is old is deleted exactly when each sink is, or can
get, past it: it was there before the tick, or an event of its own tenant is not before. -/
theorem retention_progress_iff (limit : Limit) (occurredAt : ℕ → ℕ) {now : ℕ} (days : ℕ)
    {sinks : List (SiemSyslog × ℕ)} {positions : List ℕ} {rows : List (Row QueryEvent)}
    (hticks : IdleTicks now rows sinks positions) :
    PrunesOld limit occurredAt now days positions rows ↔
      ∀ k ∈ sinks, ∀ r ∈ rows, isOld occurredAt now days r.seq = true →
        safe now r.event = true → r.seq ≤ k.2 ∨ ∃ r' ∈ rows,
          k.1.tenantMatches r'.event = true ∧ safe now r'.event = true ∧ r.seq ≤ r'.seq := by
  have hdel : ∀ r ∈ rows, isOld occurredAt now days r.seq = true →
      (r ∉ pruneQueryEvents limit occurredAt now days positions rows ↔
        ∀ k ∈ sinks, r.seq ≤ idlePosition k.1 now rows k.2) := by
    intro r hr hold
    rw [pruneQueryEvents, pruneLoop_eq, mem_filter, not_and, Bool.not_eq_true',
      Bool.not_eq_false, Pass.prunable, hold, Bool.true_and, all_min?, hticks.forall_le]
    exact ⟨fun h => h hr, fun h _ => h⟩
  constructor
  · intro h k hk r hr hold hsafe
    exact le_idlePosition.mp ((hdel r hr hold).mp (h r hr hold hsafe) k hk)
  · intro h r hr hold hsafe
    exact (hdel r hr hold).mpr fun k hk => le_idlePosition.mpr (h k hk r hr hold hsafe)

/-- The first rows. -/
def takeLimit : Limit where
  pick := List.take batchSize
  subperm l := (take_sublist _ l).subperm
  length_eq _ := length_take

/-- A sink for the tenant `acme`. -/
def acmeSink : SiemSyslog := ⟨some "acme", .all, 200, by decide, 30⟩

/-- An event of a tenant, from the start of time. -/
def sampleRow (seq : ℕ) (tenant : String) : Row QueryEvent :=
  ⟨seq, ⟨some tenant.toList, "allow", 0⟩⟩

theorem retention_progress_own :
    IdleTicks (2 * day) [sampleRow 1 "globex", sampleRow 2 "acme"] [(acmeSink, 2)] [2] ∧
      PrunesOld takeLimit (fun _ => 0) (2 * day) 1 [2]
        [sampleRow 1 "globex", sampleRow 2 "acme"] := by
  have htic : IdleTicks (2 * day) [sampleRow 1 "globex", sampleRow 2 "acme"] [(acmeSink, 2)]
      [2] := .cons (by decide) .nil
  exact ⟨htic, (retention_progress_iff _ _ _ htic).mpr (by decide)⟩

/-- The sink of `acme` has been sent all there is for it, and keeps the events of `globex`
from being deleted. -/
theorem retention_blocked :
    IdleTicks (2 * day) [sampleRow 1 "globex"] [(acmeSink, 0)] [0] ∧
      ¬PrunesOld takeLimit (fun _ => 0) (2 * day) 1 [0] [sampleRow 1 "globex"] := by
  refine ⟨.cons (by decide) .nil, fun h => ?_⟩
  have hkept : sampleRow 1 "globex" ∈
      pruneQueryEvents takeLimit (fun _ => 0) (2 * day) 1 [0] [sampleRow 1 "globex"] := by
    rw [pruneQueryEvents, pruneLoop_eq]
    decide
  exact h _ (mem_singleton_self _) (by decide) (by decide) hkept

/-! ### Prunes among deliveries and requests -/

inductive PrunePhase
  | idle
  /-- The cutoff is fixed. -/
  | started (now days : ℕ)
  | bounded (pass : Pass)
  /-- About to delete these. -/
  | selected (pass : Pass) (ids : List ℕ)
  deriving DecidableEq

/-- What the prune has read. -/
def PrunePhase.pass : PrunePhase → Option Pass
  | .bounded pass | .selected pass _ => some pass
  | .idle | .started .. => none

/-- `SiemSyslogUpdate`. -/
structure SiemSyslogUpdate where
  /-- Whether there is a `host`. -/
  host : Bool := false
  batchSize : Option { n : ℕ // 0 < n } := none
  flushIntervalS : Option ℕ := none
  filterDecision : Option SyslogDelivery.FilterDecision := none
  enabled : Option Bool := none

/-- What `update_syslog` has loaded. -/
structure Loaded (σ : Type) where
  sink : σ
  config : SiemSyslog
  copy : Progress

structure State (ι ρ σ υ π : Type) where
  delivery : SyslogDelivery.State ι ρ σ
  config : σ → SiemSyslog
  /-- The sinks that exist. -/
  created : List σ
  loaded : υ → Option (Loaded σ)
  prune : π → PrunePhase

inductive Label (ι ρ σ υ π : Type)
  /-- The settings are those that the runners have loaded, at some time. -/
  | delivery (settings : σ → SiemSyslog) (l : SyslogDelivery.Label ι ρ σ)
  /-- A transaction of events commits, at any time. -/
  | commit (i : ι)
  /-- `create_syslog`. -/
  | create (k : σ) (config : SiemSyslog) (enabled : Bool)
  /-- `update_syslog` loads its sink; then it commits. -/
  | load (u : υ) (k : σ)
  | save (u : υ) (payload : SiemSyslogUpdate)
  | start (p : π) (days : ℕ)
  | bound (p : π)
  | select (p : π) (limit : Limit)
  | delete (p : π)
  /-- The prune is over early. -/
  | stop (p : π)

variable {ι ρ σ υ π : Type}

/-- The session's object after `update_syslog`. -/
def updated (payload : SiemSyslogUpdate) (copy : Progress) : Progress :=
  let copy := { copy with enabled := payload.enabled.getD copy.enabled }
  if payload.enabled = some true ∨ payload.host ∧ copy.enabled then
    { copy with consecutiveFailures := 0, nextRetryAt := none, lastError := none }
  else copy

def updatedConfig (payload : SiemSyslogUpdate) (config : SiemSyslog) : SiemSyslog :=
  { config with
    filterDecision := payload.filterDecision.getD config.filterDecision
    batchSize := (payload.batchSize.getD ⟨config.batchSize, config.batchSize_pos⟩).1
    batchSize_pos := (payload.batchSize.getD ⟨config.batchSize, config.batchSize_pos⟩).2
    flushIntervalS := payload.flushIntervalS.getD config.flushIntervalS }

/-- The settings of the row after the flush. -/
def flushedConfig (before after row : SiemSyslog) : SiemSyslog where
  tenantId := row.tenantId
  filterDecision := column (·.filterDecision) before after row
  batchSize := column (·.batchSize) before after row
  batchSize_pos := by
    rw [column]
    split
    · exact row.batchSize_pos
    · exact after.batchSize_pos
  flushIntervalS := column (·.flushIntervalS) before after row

/-- `func.min(SiemSyslog.last_delivered_seq)` over the enabled sinks. -/
def minDeliveredSeq (created : List σ) (sinks : σ → Progress) : Option ℕ :=
  ((created.filter fun k => (sinks k).enabled).map fun k => (sinks k).lastDeliveredSeq).min?

section Step

variable [DecidableEq ι] [DecidableEq ρ] [DecidableEq σ] [DecidableEq υ] [DecidableEq π]
  (occurredAt : ℕ → ℕ)

/-- The row of the sink is written. -/
def State.write (s : State ι ρ σ υ π) (k : σ) (config : SiemSyslog) (row : Progress) :
    State ι ρ σ υ π :=
  { s with
    config := update s.config k config
    delivery := { s.delivery with sinks := update s.delivery.sinks k row } }

def State.goTo (s : State ι ρ σ υ π) (p : π) (phase : PrunePhase) : State ι ρ σ υ π :=
  { s with prune := update s.prune p phase }

/-- The statements of `prune_query_events`. -/
def State.delete (s : State ι ρ σ υ π) (p : π) : Option (State ι ρ σ υ π) :=
  match s.prune p with
  | .selected pass ids =>
    let rows := s.delivery.table.rows
    let s := { s with delivery := { s.delivery with
      table := { s.delivery.table with rows := deleteIds ids rows } } }
    if deleted ids rows < batchSize then some (s.goTo p .idle) else some (s.goTo p (.bounded pass))
  | _ => none

def State.select (s : State ι ρ σ υ π) (p : π) (limit : Limit) : Option (State ι ρ σ υ π) :=
  match s.prune p with
  | .bounded pass =>
    let ids := selectIds limit (pass.prunable occurredAt) s.delivery.table.rows
    if ids = [] then some (s.goTo p .idle) else some (s.goTo p (.selected pass ids))
  | _ => none

def step (s : State ι ρ σ υ π) : Label ι ρ σ υ π → Option (State ι ρ σ υ π)
  | .delivery settings l =>
    (SyslogDelivery.step settings s.delivery l).map fun d => { s with delivery := d }
  | .commit i =>
    if s.delivery.pending i = [] then
      some { s with delivery := { s.delivery with table := s.delivery.table.apply (.commit i) } }
    else none
  | .create k config enabled =>
    if k ∈ s.created then none
    else some { s.write k config { enabled } with created := s.created ++ [k] }
  | .load u k =>
    if k ∈ s.created then
      let row := ⟨k, s.config k, s.delivery.sinks k⟩
      some { s with loaded := update s.loaded u (some row) }
    else none
  | .save u payload =>
    match s.loaded u with
    | some ⟨k, config, copy⟩ =>
      -- the UPDATE waits for a runner that has locked the row
      if s.delivery.holder k = none then
        let config := flushedConfig config (updatedConfig payload config) (s.config k)
        let row := Progress.flushed copy (updated payload copy) (s.delivery.sinks k)
        some { s.write k config row with loaded := update s.loaded u none }
      else none
    | none => none
  | .start p days => match s.prune p with
    | .idle => some (s.goTo p (.started s.delivery.clock days))
    | _ => none
  | .bound p => match s.prune p with
    | .started now days =>
      some (s.goTo p (.bounded ⟨now, days, minDeliveredSeq s.created s.delivery.sinks⟩))
    | _ => none
  | .select p limit => s.select occurredAt p limit
  | .delete p => s.delete p
  | .stop p => some (s.goTo p .idle)

end Step

/-! ### What a prune may rely on -/

variable {settings : σ → SiemSyslog} {occurredAt : ℕ → ℕ} {s s' : State ι ρ σ υ π}

/-- Every prune that has read its bound stays at or below the position. -/
def Below (s : State ι ρ σ υ π) (position : ℕ) : Prop :=
  ∀ p, ∀ pass ∈ (s.prune p).pass, ∃ m ∈ pass.bound, m ≤ position

theorem Below.mono {m n : ℕ} (h : Below s m) (hle : m ≤ n) : Below s n := by
  intro p pass hpass
  obtain ⟨bound, hbd, hm⟩ := h p pass hpass
  exact ⟨bound, hbd, hm.trans hle⟩

/-- **The invariant**: enabled sinks exist, they are not behind a prune that is under way, and
what it deletes next is not beyond the position it has read. -/
structure Inv (s : State ι ρ σ υ π) : Prop where
  exist : ∀ k, (s.delivery.sinks k).enabled = true → k ∈ s.created
  loads : ∀ u, ∀ load ∈ s.loaded u, load.sink ∈ s.created
  passed : ∀ k, (s.delivery.sinks k).enabled = true → Below s (s.delivery.sinks k).lastDeliveredSeq
  within : ∀ p pass ids, s.prune p = .selected pass ids → ∀ seq ∈ ids, ∀ m ∈ pass.bound, seq ≤ m

/-- Nothing is under way that reads the sinks. -/
structure Quiet (s : State ι ρ σ υ π) : Prop where
  exist : ∀ k, (s.delivery.sinks k).enabled = true → k ∈ s.created
  loaded : ∀ u, s.loaded u = none
  prune : ∀ p, s.prune p = .idle

theorem Quiet.inv (h : Quiet s) : Inv s where
  exist := h.exist
  loads u load hload := by
    rw [h.loaded u] at hload
    simp at hload
  passed k _ p pass hpass := by
    rw [h.prune p] at hpass
    simp [PrunePhase.pass] at hpass
  within p pass ids hph := by
    rw [h.prune p] at hph
    simp at hph

/-- The sink and the position that a runner commits next. -/
def moves : SyslogDelivery.Phase σ → Option (σ × ℕ)
  | .jumping t maxSeq => some (t.sink, maxSeq)
  | .delivered t _ last => some (t.sink, last.seq)
  | .idle | .loaded .. | .entered .. | .reading _ | .probing _ | .sending .. | .failed ..
  | .draining .. => none

/-- A runner does not commit a position before the one that is there. -/
def NotBack (d : SyslogDelivery.State ι ρ σ) : SyslogDelivery.Label ι ρ σ → Prop
  | .go j => ∀ move ∈ moves (d.phase j), (d.sinks move.1).lastDeliveredSeq ≤ move.2
  | .wait _ | .stamp .. | .draw _ | .commit _ | .rollback _ | .tick .. | .lock .. | .send ..
  | .crash _ => True

/-- A sink is enabled only when no prune is under way, or all of them have stopped before its
position; and no position goes back. -/
def Careful (s : State ι ρ σ υ π) : Label ι ρ σ υ π → Prop
  | .delivery _ l => NotBack s.delivery l
  | .create _ _ enabled => enabled = true → Below s 0
  | .save u payload => ∀ load ∈ s.loaded u, load.copy.enabled = false →
      payload.enabled = some true → Below s (s.delivery.sinks load.sink).lastDeliveredSeq
  | _ => True

/-- What the sinks may look like after a step: none is enabled that was not, and no enabled one
has gone back. -/
def Advances (sinks sinks' : σ → Progress) : Prop :=
  ∀ k, (sinks' k).enabled = true → (sinks k).enabled = true ∧
    (sinks k).lastDeliveredSeq ≤ (sinks' k).lastDeliveredSeq

theorem Advances.refl (sinks : σ → Progress) : Advances sinks sinks := fun _ h => ⟨h, le_rfl⟩

theorem Advances.update [DecidableEq σ] {sinks : σ → Progress} {k : σ} {row : Progress}
    (h : row.enabled = true → (sinks k).enabled = true ∧
      (sinks k).lastDeliveredSeq ≤ row.lastDeliveredSeq) :
    Advances sinks (update sinks k row) := by
  intro k' hk'
  by_cases hk : k' = k
  · subst hk
    rw [update_self] at hk' ⊢
    exact h hk'
  · rw [update_of_ne hk] at hk' ⊢
    exact ⟨hk', le_rfl⟩

theorem Inv.of_sinks (h : Inv s) (hpru : s'.prune = s.prune)
    (hloa : ∀ u, ∀ load ∈ s'.loaded u, load.sink ∈ s'.created)
    (hsin : ∀ k, (s'.delivery.sinks k).enabled = true →
      k ∈ s'.created ∧ Below s (s'.delivery.sinks k).lastDeliveredSeq) : Inv s' where
  exist k hk := (hsin k hk).1
  loads := hloa
  passed k hk p pass hpass := (hsin k hk).2 p pass (hpru ▸ hpass)
  within p pass ids hph := h.within p pass ids (hpru ▸ hph)

theorem Inv.kept (h : Inv s) {k : σ} (hk : (s.delivery.sinks k).enabled = true) :
    k ∈ s.created ∧ Below s (s.delivery.sinks k).lastDeliveredSeq :=
  ⟨h.exist k hk, h.passed k hk⟩

theorem Inv.advance (h : Inv s) {d : SyslogDelivery.State ι ρ σ}
    (hsin : Advances s.delivery.sinks d.sinks) : Inv { s with delivery := d } :=
  h.of_sinks rfl h.loads fun k hk =>
    ⟨h.exist k (hsin k hk).1, (h.passed k (hsin k hk).1).mono (hsin k hk).2⟩

theorem Inv.goTo [DecidableEq π] (h : Inv s) {p : π} {phase : PrunePhase}
    (hpass : ∀ pass ∈ phase.pass, ∀ k, (s.delivery.sinks k).enabled = true →
      ∃ m ∈ pass.bound, m ≤ (s.delivery.sinks k).lastDeliveredSeq)
    (hids : ∀ pass ids, phase = .selected pass ids → ∀ seq ∈ ids, ∀ m ∈ pass.bound, seq ≤ m) :
    Inv (s.goTo p phase) where
  exist := h.exist
  loads := h.loads
  passed k hk q pass hq := by
    simp only [State.goTo] at hq
    by_cases hqp : q = p
    · subst hqp
      rw [update_self] at hq
      exact hpass pass hq k hk
    · rw [update_of_ne hqp] at hq
      exact h.passed k hk q pass hq
  within q pass ids hq := by
    simp only [State.goTo] at hq
    by_cases hqp : q = p
    · subst hqp
      rw [update_self] at hq
      exact hids pass ids hq
    · rw [update_of_ne hqp] at hq
      exact h.within q pass ids hq

theorem Inv.goTo_of_pass [DecidableEq π] (h : Inv s) {p : π} {phase : PrunePhase}
    (hnone : phase.pass = none) : Inv (s.goTo p phase) := by
  refine h.goTo (fun pass hpass => ?_) fun pass ids hph => ?_
  · rw [hnone] at hpass
    simp at hpass
  · rw [hph] at hnone
    simp [PrunePhase.pass] at hnone

theorem Inv.passed_of_phase (h : Inv s) {p : π} {pass : Pass} (hph : pass ∈ (s.prune p).pass) :
    ∀ k, (s.delivery.sinks k).enabled = true →
      ∃ m ∈ pass.bound, m ≤ (s.delivery.sinks k).lastDeliveredSeq :=
  fun k hk => h.passed k hk p pass hph

section Steps

variable [DecidableEq ρ] [DecidableEq σ]
variable {d d' : SyslogDelivery.State ι ρ σ} {j : ρ}

theorem advances_save {k : σ} {before after : Progress} (hsave : d.save j k before after = some d')
    (hena : after.enabled = true → before.enabled = true)
    (hseq : after.lastDeliveredSeq ≠ before.lastDeliveredSeq →
      (d.sinks k).lastDeliveredSeq ≤ after.lastDeliveredSeq) : Advances d.sinks d'.sinks := by
  obtain ⟨-, rfl⟩ := ite_some_none_eq_some.mp hsave
  refine Advances.update fun hrow => ⟨?_, ?_⟩
  · by_cases hsame : after.enabled = before.enabled
    · have hkept : (Progress.flushed before after (d.sinks k)).enabled = (d.sinks k).enabled :=
        if_pos hsame
      rwa [hkept] at hrow
    · have hset : (Progress.flushed before after (d.sinks k)).enabled = after.enabled :=
        if_neg hsame
      rw [hset] at hrow
      exact absurd (hrow.trans (hena hrow).symm) hsame
  · by_cases hsame : after.lastDeliveredSeq = before.lastDeliveredSeq
    · have hkept : (Progress.flushed before after (d.sinks k)).lastDeliveredSeq =
          (d.sinks k).lastDeliveredSeq := if_pos hsame
      rw [hkept]
    · have hset : (Progress.flushed before after (d.sinks k)).lastDeliveredSeq =
          after.lastDeliveredSeq := if_neg hsame
      rw [hset]
      exact hseq hsame

theorem advances_go (hback : NotBack d (.go j)) (hgo : d.go settings j = some d') :
    Advances d.sinks d'.sinks := by
  rw [NotBack] at hback
  -- the position is written in three phases only
  cases hph : d.phase j with
  | loaded =>
    simp only [SyslogDelivery.State.go, hph, some_inj] at hgo
    exact hgo ▸ .refl _
  | reading =>
    simp only [SyslogDelivery.State.go, hph] at hgo
    split at hgo <;> exact some_inj.mp hgo ▸ .refl _
  | probing =>
    simp only [SyslogDelivery.State.go, hph] at hgo
    split at hgo
    · split at hgo <;> exact some_inj.mp hgo ▸ .refl _
    · exact some_inj.mp hgo ▸ .refl _
  | jumping | delivered =>
    rw [hph] at hback
    simp only [SyslogDelivery.State.go, hph] at hgo
    obtain ⟨d₁, hsave, rfl⟩ := map_eq_some_iff.mp hgo
    have hadv : Advances d.sinks d₁.sinks := advances_save hsave id fun _ => hback _ rfl
    exact hadv
  | failed =>
    simp only [SyslogDelivery.State.go, hph] at hgo
    obtain ⟨d₁, hsave, rfl⟩ := map_eq_some_iff.mp hgo
    have hadv : Advances d.sinks d₁.sinks := by
      refine advances_save hsave (fun haft => ?_) fun hne => absurd rfl hne
      simp only [SyslogDelivery.Progress.fail] at haft
      split at haft
      · simp at haft
      · exact haft
    exact hadv
  | draining =>
    simp only [SyslogDelivery.State.go, hph] at hgo
    split at hgo
    · exact some_inj.mp hgo ▸ .refl _
    · split at hgo <;> exact some_inj.mp hgo ▸ .refl _
  | idle | entered | sending => simp [SyslogDelivery.State.go, hph] at hgo

variable [DecidableEq ι]

/-- **A step of the delivery** enables no sink and sets none back. -/
theorem advances_delivery {l : SyslogDelivery.Label ι ρ σ} (hback : NotBack d l)
    (hstep : SyslogDelivery.step settings d l = some d') :
    Advances d.sinks d'.sinks := by
  -- the sinks change in the steps of a runner only
  cases l with
  | wait | stamp | rollback | crash => exact some_inj.mp hstep ▸ .refl _
  | draw =>
    simp only [SyslogDelivery.step] at hstep
    split at hstep
    · exact some_inj.mp hstep ▸ .refl _
    · simp at hstep
  | commit =>
    obtain ⟨-, rfl⟩ := ite_some_none_eq_some.mp hstep
    exact .refl _
  | tick =>
    simp only [SyslogDelivery.step] at hstep
    split at hstep
    · obtain ⟨-, rfl⟩ := ite_some_none_eq_some.mp hstep
      exact .refl _
    · simp at hstep
  | lock =>
    simp only [SyslogDelivery.step, SyslogDelivery.State.lock] at hstep
    split at hstep
    · obtain ⟨-, hstep⟩ := ite_none_right_eq_some.mp hstep
      split at hstep
      · split at hstep <;> exact some_inj.mp hstep ▸ .refl _
      · split at hstep <;> exact some_inj.mp hstep ▸ .refl _
    · simp at hstep
  | send =>
    simp only [SyslogDelivery.step, SyslogDelivery.State.send] at hstep
    split at hstep
    · split at hstep <;> exact some_inj.mp hstep ▸ .refl _
    · simp at hstep
  | go => exact advances_go hback hstep

variable [DecidableEq υ] [DecidableEq π]
variable {payload : SiemSyslogUpdate} {p : π}

theorem inv_create (h : Inv s) {k : σ} {config : SiemSyslog} {enabled : Bool}
    (hcar : Careful s (.create k config enabled))
    (hstep : step occurredAt s (.create k config enabled) = some s') : Inv s' := by
  obtain ⟨-, hstep⟩ := ite_none_left_eq_some.mp hstep
  cases hstep
  refine h.of_sinks rfl (fun u load hload => ?_) fun k' hk' => ?_
  · exact mem_append_left _ (h.loads u load hload)
  · simp only [State.write] at hk' ⊢
    by_cases hk : k' = k
    · subst hk
      rw [update_self] at hk' ⊢
      exact ⟨mem_append_right _ (mem_singleton_self _), hcar hk'⟩
    · rw [update_of_ne hk] at hk' ⊢
      exact ⟨mem_append_left _ (h.exist k' hk'), h.passed k' hk'⟩

theorem updated_row {copy row : Progress} :
    (Progress.flushed copy (updated payload copy) row).lastDeliveredSeq = row.lastDeliveredSeq ∧
      ((Progress.flushed copy (updated payload copy) row).enabled = true →
        row.enabled = true ∨ copy.enabled = false ∧ payload.enabled = some true) := by
  -- `update_syslog` writes no position
  have hseq : (updated payload copy).lastDeliveredSeq = copy.lastDeliveredSeq := by
    simp only [updated]
    split <;> rfl
  have hena : (updated payload copy).enabled = payload.enabled.getD copy.enabled := by
    simp only [updated]
    split <;> rfl
  refine ⟨if_pos hseq, fun h => ?_⟩
  simp only [Progress.flushed, column, hena] at h
  split_ifs at h with hsame
  · -- the flush left the column alone
    exact .inl h
  · -- the object was changed, to `true`
    rw [h] at hsame
    refine .inr ⟨by simpa using Ne.symm hsame, ?_⟩
    cases hpay : payload.enabled with
    | none =>
      rw [hpay] at h
      exact absurd h.symm hsame
    | some =>
      rw [hpay] at h
      exact congrArg some h

theorem inv_save (h : Inv s) {u : υ} (hcar : Careful s (.save u payload))
    (hstep : step occurredAt s (.save u payload) = some s') : Inv s' := by
  simp only [step] at hstep
  cases hload : s.loaded u with
  | none => simp [hload] at hstep
  | some load =>
    obtain ⟨k, config, copy⟩ := load
    simp only [hload] at hstep
    obtain ⟨-, rfl⟩ := ite_some_none_eq_some.mp hstep
    refine h.of_sinks rfl (fun u' load' hload' => ?_) fun k' hk' => ?_
    · by_cases hu : u' = u
      · subst hu
        simp at hload'
      · simp only [update_of_ne hu] at hload'
        exact h.loads u' load' hload'
    · simp only [State.write] at hk' ⊢
      by_cases hk : k' = k
      · subst hk
        rw [update_self] at hk' ⊢
        rw [updated_row.1]
        refine ⟨h.loads u _ hload, ?_⟩
        rcases updated_row.2 hk' with hon | ⟨hoff, hset⟩
        · exact h.passed k' hon
        · exact hcar _ hload hoff hset
      · rw [update_of_ne hk] at hk' ⊢
        exact h.kept hk'

theorem inv_bound (h : Inv s) (hstep : step occurredAt s (.bound p) = some s') :
    Inv s' := by
  simp only [step] at hstep
  split at hstep
  · cases hstep
    refine h.goTo (fun pass hpass k hk => ?_) fun pass ids hph => absurd hph (by simp)
    cases hpass
    have hmem : (s.delivery.sinks k).lastDeliveredSeq ∈
        ((s.created.filter fun k => (s.delivery.sinks k).enabled).map
          fun k => (s.delivery.sinks k).lastDeliveredSeq) :=
      List.mem_map_of_mem (mem_filter.mpr ⟨h.exist k hk, hk⟩)
    cases hmin : minDeliveredSeq s.created s.delivery.sinks with
    | none =>
      rw [minDeliveredSeq, min?_eq_none_iff] at hmin
      rw [hmin] at hmem
      simp at hmem
    | some m => exact ⟨m, rfl, (le_min?_iff hmin).mp le_rfl _ hmem⟩
  · simp at hstep

theorem inv_select (h : Inv s) {limit : Limit}
    (hstep : step occurredAt s (.select p limit) = some s') : Inv s' := by
  simp only [step, State.select] at hstep
  split at hstep
  · rename_i pass hph
    split_ifs at hstep with hnil
    · cases hstep
      exact h.goTo_of_pass rfl
    · cases hstep
      refine h.goTo (fun pass' hpass' => ?_) fun pass' ids hph' seq hseq m hm => ?_
      · cases hpass'
        exact h.passed_of_phase (p := p) (by rw [hph]; rfl)
      · obtain ⟨rfl, rfl⟩ := PrunePhase.selected.inj hph'
        obtain ⟨-, hall⟩ := Bool.and_eq_true_iff.mp (mem_selectIds hseq).1
        rw [mem_def.mp hm] at hall
        exact of_decide_eq_true hall
  · simp at hstep

theorem inv_delete (h : Inv s) (hstep : step occurredAt s (.delete p) = some s') :
    Inv s' := by
  simp only [step, State.delete] at hstep
  split at hstep
  · rename_i pass ids hph
    have hrows : Inv { s with delivery := { s.delivery with table :=
        { s.delivery.table with rows := deleteIds ids s.delivery.table.rows } } } :=
      h.advance (.refl _)
    split_ifs at hstep
    · cases hstep
      exact hrows.goTo_of_pass rfl
    · cases hstep
      refine hrows.goTo (fun pass' hpass' => ?_) fun _ _ hph' => absurd hph' (by simp)
      cases hpass'
      exact h.passed_of_phase (p := p) (by rw [hph]; rfl)
  · simp at hstep

/-- **A step** that is careful keeps the sinks ahead of the prunes. -/
theorem Inv.step (h : Inv s) {l : Label ι ρ σ υ π} (hcar : Careful s l)
    (hstep : step occurredAt s l = some s') : Inv s' := by
  cases l with
  | delivery =>
    obtain ⟨d, hd, rfl⟩ := map_eq_some_iff.mp hstep
    exact h.advance (advances_delivery hcar hd)
  | commit =>
    obtain ⟨-, rfl⟩ := ite_some_none_eq_some.mp hstep
    exact h.advance (.refl _)
  | create => exact inv_create h hcar hstep
  | load u =>
    obtain ⟨hk, rfl⟩ := ite_some_none_eq_some.mp hstep
    refine h.of_sinks rfl (fun u' load hload => ?_) fun k' hk' => h.kept hk'
    by_cases hu : u' = u
    · subst hu
      simp only [update_self] at hload
      cases hload
      exact hk
    · simp only [update_of_ne hu] at hload
      exact h.loads u' load hload
  | save => exact inv_save h hcar hstep
  | start =>
    simp only [Retention.step] at hstep
    split at hstep
    · cases hstep
      exact h.goTo_of_pass rfl
    · simp at hstep
  | bound => exact inv_bound h hstep
  | select => exact inv_select h hstep
  | delete => exact inv_delete h hstep
  | stop =>
    cases hstep
    exact h.goTo_of_pass rfl

/-- The rows that are gone are of no enabled sink that is still before them. -/
def KeepsUndelivered (s s' : State ι ρ σ υ π) : Prop :=
  ∀ r ∈ s.delivery.table.rows, r ∉ s'.delivery.table.rows →
    ∀ k, (s.delivery.sinks k).enabled = true → (s.config k).matches r.event = true →
      r.seq ≤ (s.delivery.sinks k).lastDeliveredSeq

/-- **Retention keeps what is not delivered**: whatever is deleted, after any run in which no sink
is enabled behind a prune and no position goes back, every enabled sink has passed. -/
theorem undelivered_kept (occurredAt : ℕ → ℕ) {s₀ s s' : State ι ρ σ υ π} {p : π}
    (hquiet : Quiet s₀) (hrun : RunWhile (step occurredAt) Careful s₀ s)
    (hstep : step occurredAt s (.delete p) = some s') : KeepsUndelivered s s' := by
  have h : Inv s := hrun.induct (fun _ _ _ h => h.step) hquiet.inv
  intro r hr hgone k hk _
  simp only [step, State.delete] at hstep
  cases hph : s.prune p with
  | selected pass ids =>
    have hids : r.seq ∈ ids := by
      by_contra hnot
      have hkept : r ∈ deleteIds ids s.delivery.table.rows :=
        mem_filter.mpr ⟨hr, decide_eq_true hnot⟩
      simp only [hph] at hstep
      split_ifs at hstep
      · exact hgone (some_inj.mp hstep ▸ hkept)
      · exact hgone (some_inj.mp hstep ▸ hkept)
    obtain ⟨m, hm, hle⟩ := h.passed k hk p pass (by rw [hph]; rfl)
    exact (h.within p pass ids hph r.seq hids m hm).trans hle
  | idle | started | bounded => simp [hph] at hstep

end Steps

/-! ### Sample runs -/

section Samples

instance (d : SyslogDelivery.State ι ρ σ) : DecidablePred (NotBack d)
  | .go j => inferInstanceAs (Decidable (∀ move ∈ moves (d.phase j), _ ≤ _))
  | .wait _ | .stamp .. | .draw _ | .commit _ | .rollback _ | .tick .. | .lock .. | .send ..
  | .crash _ => isTrue trivial

instance [Fintype π] (s : State ι ρ σ υ π) (position : ℕ) : Decidable (Below s position) :=
  inferInstanceAs (Decidable (∀ p, ∀ pass ∈ (s.prune p).pass, ∃ m ∈ pass.bound, m ≤ position))

instance [Fintype π] (s : State ι ρ σ υ π) : DecidablePred (Careful s)
  | .delivery _ l => inferInstanceAs (Decidable (NotBack s.delivery l))
  | .create _ _ enabled => inferInstanceAs (Decidable (enabled = true → Below s 0))
  | .save u payload => inferInstanceAs (Decidable (∀ load ∈ s.loaded u,
      load.copy.enabled = false → payload.enabled = some true →
        Below s (s.delivery.sinks load.sink).lastDeliveredSeq))
  | .commit _ | .load .. | .start .. | .bound _ | .select .. | .delete _ | .stop _ => isTrue trivial

end Samples

/-- One sink, and nothing else yet. -/
def oneSink (enabled : Bool) : State Unit Unit Unit Unit Unit where
  delivery := { SyslogDelivery.State.init with sinks := fun _ => { enabled } }
  config := plain
  created := [()]
  loaded _ := none
  prune _ := .idle

theorem quiet_oneSink (enabled : Bool) : Quiet (oneSink enabled) where
  exist _ _ := mem_singleton_self _
  loaded _ := rfl
  prune _ := rfl

/-- An event is stored, and two days go by. -/
def oldEvent : List (SyslogDelivery.Label Unit Unit Unit) :=
  [.stamp () none "allow", .draw (), .commit (), .wait (2 * day)]

/-- An event that was sent is deleted. -/
theorem undelivered_kept_sent : ∃ s s' : State Unit Unit Unit Unit Unit,
    RunWhile (step fun _ => 0) Careful (oneSink true) s ∧
      step (fun _ => 0) s (.delete ()) = some s' ∧
      s.delivery.table.rows ≠ [] ∧ s'.delivery.table.rows = [] ∧ KeepsUndelivered s s' := by
  let sent := oldEvent ++ SyslogDelivery.taken () ++ SyslogDelivery.batchOf ()
  obtain ⟨s, hrun, s', hs', hrows, hrows'⟩ := exists_run (f := step fun _ => 0) (C := Careful)
    (s := oneSink true) (P := fun s => ∃ s', step (fun _ => 0) s (.delete ()) = some s' ∧
      s.delivery.table.rows ≠ [] ∧ s'.delivery.table.rows = [])
    (sent.map (.delivery plain) ++ [.start () 1, .bound (), .select () takeLimit])
    (by decide +kernel)
  exact ⟨s, s', hrun, hs', hrows, hrows', undelivered_kept _ (quiet_oneSink true) hrun hs'⟩

/-- A sink is enabled again after the prune has read the positions, and before it deletes. -/
theorem reenabled_loses : ∃ s s' : State Unit Unit Unit Unit Unit,
    Quiet (oneSink false) ∧ RunWhile (step fun _ => 0) (fun _ _ => True) (oneSink false) s ∧
      step (fun _ => 0) s (.delete ()) = some s' ∧ ¬KeepsUndelivered s s' := by
  obtain ⟨s, hrun, s', hs', r, hr, hgone, hena, hmat, hlt⟩ := exists_run
    (f := step fun _ => 0) (C := fun _ _ => True) (s := oneSink false)
    (P := fun s => ∃ s', step (fun _ => 0) s (.delete ()) = some s' ∧
      ∃ r ∈ s.delivery.table.rows, r ∉ s'.delivery.table.rows ∧
        (s.delivery.sinks ()).enabled = true ∧ (s.config ()).matches r.event = true ∧
        (s.delivery.sinks ()).lastDeliveredSeq < r.seq)
    (oldEvent.map (.delivery plain) ++
      [.start () 1, .bound (), .load () (), .save () { enabled := some true },
        .select () takeLimit])
    (by decide +kernel)
  refine ⟨s, s', quiet_oneSink false, hrun, hs', fun hkee => ?_⟩
  exact absurd (hkee r hr hgone () hena hmat) (Nat.not_le.mpr hlt)

end Control.Retention
