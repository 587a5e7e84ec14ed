/-
Runs of the lease daemons that are executed.

A step leaves choices open: how long a tick takes, which packet is taken up, the
random number of a search, whether a probe is answered, which rows a sweep takes
first.  With a choice for each of them a step is a function.

* `Family.query`, `Daemon.statement` — what a handler does next;
* `State.step_of_advance` — a step that is executed is a step;
* `exists_replay`, `exists_replayWatched` — a run is found by executing its moves.
-/
import MantisDns.LeaseMachine
import MantisDns.Machine

open Text Table Option List

namespace Dhcp

variable {ι ν σ κ χ μ : Type} [DecidableEq κ] [DecidableEq χ]
variable {now : ℤ} {T : Leases κ χ} {p q : Phase σ κ χ}

/-! ### One handler -/

instance (F : Family σ κ χ) (job : Job σ χ) (row : Lease κ χ) : Decidable (F.OwnActive job row) :=
  inferInstanceAs (Decidable (_ ∧ _ ∧ _ ∧ _))

omit [DecidableEq χ] in
instance (F : Family σ κ χ) (scopeId : Str) (ip : κ) (r : StaticLease) :
    Decidable (F.ReservedAt scopeId ip r) :=
  inferInstanceAs (Decidable (_ ∧ _ ∧ _))

/-- A query, with a random number and the result of a probe. -/
def Family.query (F : Family σ κ χ) (now : ℤ) (T : Leases κ χ) (reservations : List StaticLease)
    (draw : ℕ) (answered : Bool) : Phase σ κ χ → Option (Phase σ κ χ)
  | .task (.lookup job mode) => some <|
    match T.rows.find? fun row => F.OwnActive job row with
    | some row => .task (.reply job mode.answer row.ip)
    | none => afterLookup job mode
  | .task (.transact job tx) => some (.waiting job tx now)
  | .peeking job probe excluded left => some <|
    match F.scan job.scope T reservations excluded draw with
    | some ip => if probe then .probing job excluded left ip else .task (.reply job .advertise ip)
    | none => .idle
  | .probing job excluded left ip => some <|
    if answered then .marking job excluded left ip else .task (.reply job .advertise ip)
  | .waiting job (.allocate answer) began =>
    some (.selecting job answer began (now + seconds job.leaseSeconds))
  | .waiting job (.claim answer ip) began => some (.checking job answer began ip)
  | .selecting job answer began expires => some <|
    match T.rows.find? fun row => F.OwnActive job row with
    | some row => .renewing job answer began expires row.ip
    | none => .scanning job answer began expires F.attempts
  | .scanning job answer began expires left => some <|
    match F.scan job.scope T reservations [] draw with
    | some ip => .inserting job answer began expires ip
    | none => nextScan job answer began expires left
  | .checking job answer began ip => some <|
    match (T.find (F.scopeId job.scope, ip)).filter fun row =>
      row.state ≠ .declined ∧ row.client ≠ job.client with
    | some _ => .idle
    | none =>
      match F.leaseType ip with
      | .na => .guarding job answer began ip
      | .pd => .inserting job answer began (now + seconds job.leaseSeconds) ip
  | .guarding job answer began ip => some <|
    match reservations.find? fun r =>
      F.ReservedAt (F.scopeId job.scope) ip r ∧ F.owns r.client job.client = false with
    | some _ => .idle
    | none => .inserting job answer began (now + seconds job.leaseSeconds) ip
  | _ => none

theorem Family.reads_of_query {F : Family σ κ χ} {reservations : List StaticLease} {draw : ℕ}
    {answered : Bool} (h : F.query now T reservations draw answered p = some q) :
    Reads F now T reservations p q := by
  have hfnd : ∀ {job : Job σ χ} {row : Lease κ χ},
      (T.rows.find? fun row => F.OwnActive job row) = some row →
        row ∈ T.rows ∧ F.OwnActive job row := by
    intro job row hfind
    exact ⟨mem_of_find?_eq_some hfind, by simpa using find?_some hfind⟩
  have hmis : ∀ {job : Job σ χ}, (T.rows.find? fun row => F.OwnActive job row) = none →
      ∀ row ∈ T.rows, ¬F.OwnActive job row := by
    intro job hnone row hrow
    simpa using find?_eq_none.mp hnone row hrow
  unfold Family.query at h
  -- one case for each phase that has a query
  split at h <;> cases h
  · split
    · exact .found (hfnd ‹_›).1 (hfnd ‹_›).2
    · exact .notFound (hmis ‹_›)
  · exact .start
  · split
    · exact .peek ‹_›
    · exact .peekNone ‹_›
  · split
    · exact .answered
    · exact .silent
  · exact .lockAllocate
  · exact .lockClaim
  · split
    · exact .selected (hfnd ‹_›).1 (hfnd ‹_›).2
    · exact .unselected (hmis ‹_›)
  · split
    · exact .scanned ‹_›
    · exact .collided ‹_›
  · rename_i job answer began ip
    split
    · rename_i row hfil
      obtain ⟨hrow, hheld⟩ := filter_eq_some_iff.mp hfil
      simp only [decide_eq_true_eq] at hheld
      exact .held hrow hheld.1 hheld.2
    · rename_i hfil
      have hfree : F.Unheld T job ip := by
        intro row hrow hst
        by_contra hcl
        simp [hrow, hst, hcl] at hfil
      split
      · exact .unheld ‹_› hfree
      · exact .undelegated ‹_› hfree
  · split
    · rename_i r hfind
      have hoth := find?_some hfind
      simp only [decide_eq_true_eq] at hoth
      exact .reserved (mem_of_find?_eq_some hfind) hoth.1 hoth.2
    · rename_i hnone
      refine .unreserved (unreserved_of_forall fun r hr hat => ?_)
      simpa [hat] using find?_eq_none.mp hnone r hr

/-- A statement that writes; `pick` says which rows a sweep takes if it does not take all. -/
def Daemon.statement (D : Daemon ν σ κ χ μ) (now : ℤ) (T : Leases κ χ) (pick : Lease κ χ → Bool) :
    Phase σ κ χ → Option (Leases κ χ × Phase σ κ χ × List (Event κ χ))
  | .task (.reply job answer ip) => some (T, .idle,
      answer.events (D.scopeId job.scope) ip job.client now (now + seconds job.leaseSeconds))
  | .inserting job answer began expires ip => some (T.upsert (D.leaseRow job ip began expires),
      .idle, answer.events (D.scopeId job.scope) ip job.client now expires)
  | .renewing job answer began expires ip => some (D.renewRow job ip began expires T, .idle,
      answer.events (D.scopeId job.scope) ip job.client now expires)
  | .task (.confirm job expires ip) => some (T.upsert (D.leaseRow job ip now expires), .idle,
      [.grant (D.scopeId job.scope) ip job.client now expires])
  | .marking job excluded left ip => some (D.markDeclined (D.scopeId job.scope) ip now T,
      nextPeek job excluded left ip, [.conflict (D.scopeId job.scope) ip now])
  | .task (.release scopeId client leaseType ip) => some (D.release scopeId client leaseType T,
      .idle, [.release scopeId client ip])
  | .task (.decline scopeId client ip) => some (decline scopeId ip client T, .idle,
      if T.rows.any (heldBy scopeId ip client) then [.decline scopeId ip client now] else [])
  | .expiring called => sweep (Lapsed now) (fun batch => expireRows batch T) (.purging called)
  | .purging called => sweep (D.PastProbation called) T.delete (.freeing called)
  | .freeing called => sweep (D.PastHold called) T.delete .idle
  | _ => none
where
  sweep (eligible : Lease κ χ → Bool) (write : (Lease κ χ → Bool) → Leases κ χ)
      (next : Phase σ κ χ) : Option (Leases κ χ × Phase σ κ χ × List (Event κ χ)) :=
    if (T.rows.filter fun row => eligible row && pick row).length =
        min D.reclaimBatchLimit (T.rows.filter eligible).length then
      some (write fun row => eligible row && pick row, next, [])
    else none

theorem Daemon.writes_of_statement {D : Daemon ν σ κ χ μ} {T' : Leases κ χ}
    {pick : Lease κ χ → Bool} {events : List (Event κ χ)}
    (h : D.statement now T pick p = some (T', q, events)) : Writes D now T p T' q events := by
  have hbat : ∀ {eligible : Lease κ χ → Bool} {write : (Lease κ χ → Bool) → Leases κ χ}
      {next : Phase σ κ χ}, statement.sweep D T pick eligible write next = some (T', q, events) →
      Batch D.reclaimBatchLimit T.rows eligible (fun row => eligible row && pick row) ∧
        (write fun row => eligible row && pick row, next, []) = (T', q, events) := by
    intro eligible write next h
    obtain ⟨hlen, heq⟩ := ite_some_none_eq_some.mp h
    exact ⟨⟨fun row hrow => (Bool.and_eq_true_iff.mp hrow).1, hlen⟩, heq⟩
  unfold Daemon.statement at h
  split at h
  case h_1 | h_2 | h_3 | h_4 | h_5 | h_6 | h_7 => cases h; constructor
  case h_8 | h_9 | h_10 =>
    obtain ⟨hrows, heq⟩ := hbat h
    cases heq
    constructor
    exact hrows
  case h_11 => simp at h

/-! ### All handlers -/

/-- A step with its choices; a packet is for a scope by its number, and taken up as one of
its tasks. -/
inductive Move (ι ν σ κ χ μ : Type)
  | tick (d : ℕ)
  | edit (config : Config σ)
  | refresh (n : ν)
  | receive (i : ι) (n : ν) (scope : ℕ) (msg : μ) (part : ℕ)
  | sweep (i : ι)
  | read (i : ι) (draw : ℕ := 0) (answered : Bool := false)
  | write (i : ι) (pick : Lease κ χ → Bool := fun _ => true)

deriving instance DecidableEq for Job, Tx, Task, Phase

/-- Nothing to do. -/
def Phase.isIdle : Phase σ κ χ → Bool
  | .idle => true
  | _ => false

omit [DecidableEq κ] [DecidableEq χ] in
theorem Phase.eq_idle_of_isIdle (h : p.isIdle = true) : p = .idle := by
  cases p with
  | idle => rfl
  | _ => simp [Phase.isIdle] at h

variable [DecidableEq ι] [DecidableEq ν] [Fintype ι]

def State.advance (D : Daemon ν σ κ χ μ) (s : State ι ν σ κ χ) :
    Move ι ν σ κ χ μ → Option (Label ι ν σ κ χ × State ι ν σ κ χ)
  | .tick d => some (.tick, { s with now := s.now + d })
  | .edit config => some (.edit config, { s with config := config })
  | .refresh n => (D.loadSnapshot s.config).map fun snapshot =>
    (.refresh n, { s with snapshot := Function.update s.snapshot n snapshot })
  | .receive i n k msg part => (s.snapshot n).scopes[k]?.bind fun scope =>
    (D.dispatch n (s.snapshot n) scope msg s.now)[part]?.bind fun task =>
      if (s.phase i).isIdle then some (.receive i task, s.set i (.task task)) else none
  | .sweep i => if (s.phase i).isIdle then some (.sweep i, s.set i (.expiring s.now)) else none
  | .read i draw answered =>
    (D.query s.now s.leases s.config.reservations draw answered (s.phase i)).bind fun q =>
      if ∀ l ∈ D.lock q, D.lock (s.phase i) = some l ∨ ∀ j, j ≠ i → D.lock (s.phase j) ≠ some l
      then some (.read i, s.set i q) else none
  | .write i pick => (D.statement s.now s.leases pick (s.phase i)).map fun w =>
    (.write i, s.commit i w.1 w.2.1 w.2.2)

variable {D : Daemon ν σ κ χ μ} {s t : State ι ν σ κ χ}

/-- **What is executed is a step.** -/
theorem State.step_of_advance {m : Move ι ν σ κ χ μ} {l : Label ι ν σ κ χ}
    (h : s.advance D m = some (l, t)) : Step D s l t := by
  cases m with
  | tick d => cases h; exact .tick d
  | edit config => cases h; exact .edit config
  | refresh =>
    obtain ⟨snapshot, hload, heq⟩ := map_eq_some_iff.mp h
    cases heq
    exact .refresh hload
  | receive =>
    obtain ⟨scope, hsc, h⟩ := bind_eq_some_iff.mp h
    obtain ⟨task, htask, h⟩ := bind_eq_some_iff.mp h
    obtain ⟨hidle, heq⟩ := ite_some_none_eq_some.mp h
    cases heq
    exact .receive (Phase.eq_idle_of_isIdle hidle) (mem_of_getElem? hsc)
      (mem_of_getElem? htask)
  | sweep =>
    obtain ⟨hidle, heq⟩ := ite_some_none_eq_some.mp h
    cases heq
    exact .sweep (Phase.eq_idle_of_isIdle hidle)
  | read =>
    obtain ⟨q, hq, h⟩ := bind_eq_some_iff.mp h
    obtain ⟨hlock, heq⟩ := ite_some_none_eq_some.mp h
    cases heq
    exact .read (Family.reads_of_query hq) hlock
  | write =>
    obtain ⟨⟨T, q, events⟩, hw, heq⟩ := map_eq_some_iff.mp h
    cases heq
    exact .write (Daemon.writes_of_statement hw)

theorem State.exists_write {i : ι} {pick : Lease κ χ → Bool} {P : State ι ν σ κ χ → Prop}
    [DecidablePred P]
    (h : ((s.advance D (.write i pick)).map Prod.snd).any (fun t => P t) = true) :
    ∃ t, Step D s (.write i) t ∧ P t := by
  obtain ⟨t, ht, hP⟩ := (Option.any_eq_true _ _).mp h
  obtain ⟨⟨l, t⟩, hadv, rfl⟩ := map_eq_some_iff.mp ht
  obtain ⟨w, -, heq⟩ := map_eq_some_iff.mp hadv
  obtain ⟨rfl, -⟩ := Prod.mk.inj heq
  exact ⟨t, State.step_of_advance hadv, of_decide_eq_true hP⟩

/-! ### Runs -/

variable {η : Type}

/-- The state after these moves and what is seen of them, as long as the steps pass a check. -/
def replayWatched (D : Daemon ν σ κ χ μ)
    (watch : State ι ν σ κ χ → Label ι ν σ κ χ → State ι ν σ κ χ → η → η)
    (check : State ι ν σ κ χ → η → Label ι ν σ κ χ → Bool) (moves : List (Move ι ν σ κ χ μ))
    (a : State ι ν σ κ χ × η) : Option (State ι ν σ κ χ × η) :=
  moves.foldlM (fun a m => (a.1.advance D m).bind fun r =>
    if check a.1 a.2 r.1 then some (r.2, watch a.1 r.1 r.2 a.2) else none) a

theorem exists_replayWatched {W : State ι ν σ κ χ → Label ι ν σ κ χ → State ι ν σ κ χ → η → η}
    {K : State ι ν σ κ χ → η → Label ι ν σ κ χ → Bool}
    {C : State ι ν σ κ χ → η → Label ι ν σ κ χ → Prop}
    (hok : ∀ s e l, K s e l = true → C s e l) {P : State ι ν σ κ χ × η → Prop}
    [DecidablePred P] {a : State ι ν σ κ χ × η} (moves : List (Move ι ν σ κ χ μ))
    (h : (replayWatched D W K moves a).any (fun b => P b) = true) :
    ∃ b, WatchedRun D W C a b ∧ P b := by
  refine Machine.exists_of_foldlM (fun h => ?_) moves h
  obtain ⟨⟨l, t⟩, hadv, h⟩ := bind_eq_some_iff.mp h
  obtain ⟨hck, rfl⟩ := ite_some_none_eq_some.mp h
  exact ⟨l, hok _ _ _ hck, State.step_of_advance hadv, rfl⟩

/-- The same, when nobody watches. -/
def replay (D : Daemon ν σ κ χ μ) (check : State ι ν σ κ χ → Label ι ν σ κ χ → Bool)
    (moves : List (Move ι ν σ κ χ μ)) (s : State ι ν σ κ χ) : Option (State ι ν σ κ χ) :=
  moves.foldlM (fun s m => (s.advance D m).bind fun r =>
    if check s r.1 then some r.2 else none) s

theorem exists_replay {K : State ι ν σ κ χ → Label ι ν σ κ χ → Bool}
    {C : State ι ν σ κ χ → Label ι ν σ κ χ → Prop} (hok : ∀ s l, K s l = true → C s l)
    {P : State ι ν σ κ χ → Prop} [DecidablePred P] (moves : List (Move ι ν σ κ χ μ))
    (h : (replay D K moves s).any (fun t => P t) = true) : ∃ t, RunWhile D C s t ∧ P t := by
  refine Machine.exists_of_foldlM (fun h => ?_) moves h
  obtain ⟨⟨l, t⟩, hadv, h⟩ := bind_eq_some_iff.mp h
  obtain ⟨hck, rfl⟩ := ite_some_none_eq_some.mp h
  exact ⟨l, hok _ _ hck, State.step_of_advance hadv⟩

end Dhcp
