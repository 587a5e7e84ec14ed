/-
What the sweeps report: `sweep_expired6` of `db6.rs`.

A sweep commits each of its statements by itself.  The rows that the first two
return are gathered, and only after the third one parsed into the result: one row
that does not parse, and all of them are lost.  What IA_PD delegates is stored with
its length, so it never parses.

* `Sweeps`, `watchSweeps` — what sweeps have moved, gathered and returned so far;
* `changedRows_expireRows`, `changedRows_delete` — the rows that a statement
  returns are those of its batch;
* `Accounted.step` — nothing is lost on the way, if nothing is lost at the end;
* `Dhcp6.collect_eq_some_iff` — when a sweep returns anything.
-/
import MantisDns.LeaseReservations
import MantisDns.Ipv6Text

open Text Table Dns Dhcp Function List Option

namespace Dhcp

variable {ι ν σ κ χ μ ρ τ : Type}

/-! ### Sweeps that are watched -/

/-- In a sweep. -/
def Phase.sweeping : Phase σ κ χ → Bool
  | .expiring _ => true
  | .purging _ => true
  | .freeing _ => true
  | _ => false

/-- Of each handler: the rows its sweeps moved to the hold or deleted after their
probation, in order; those among them that the sweep in progress has not returned
yet; and what its sweeps returned. -/
structure Sweeps (ι κ χ ρ : Type) where
  moved : ι → List (Lease κ χ)
  gathered : ι → List (Lease κ χ)
  returned : ι → List ρ

def Sweeps.fresh : Sweeps ι κ χ ρ := ⟨fun _ => [], fun _ => [], fun _ => []⟩

/-! ### What is due and what was told -/

/-- What has to be reported of the rows moved, and what the caller does with a
result: both are judged row by row. -/
structure Reporting (κ χ ρ τ : Type) where
  due : Lease κ χ → Option τ
  told : ρ → Option τ
  result : List (Lease κ χ) → List ρ

variable {R : Reporting κ χ ρ τ} {s t : State ι ν σ κ χ}
  {l : Label ι ν σ κ χ} {w : Sweeps ι κ χ ρ}

/-- Nothing is lost where a sweep ends: its result tells all that is due of the rows
it gathered, and a sweep fails only if nothing is due. -/
def Lossless (R : Reporting κ χ ρ τ) (s : State ι ν σ κ χ) (w : Sweeps ι κ χ ρ) :
    Label ι ν σ κ χ → Prop
  | .write i => (∃ called, s.phase i = .freeing called) →
      (R.result (w.gathered i)).filterMap R.told = (w.gathered i).filterMap R.due
  | .fail i => (s.phase i).sweeping = true → (w.gathered i).filterMap R.due = []
  | _ => True

/-- All that is due was told, or is yet to be returned by a sweep in progress. -/
structure Accounted (R : Reporting κ χ ρ τ) (s : State ι ν σ κ χ) (w : Sweeps ι κ χ ρ) : Prop where
  due : ∀ i, (w.moved i).filterMap R.due =
    (w.returned i).filterMap R.told ++ (w.gathered i).filterMap R.due
  gathered : ∀ i, (s.phase i).sweeping = false → w.gathered i = []

theorem Accounted.congr (h : Accounted R s w) (hph : t.phase = s.phase) : Accounted R t w :=
  ⟨h.due, fun i => hph ▸ h.gathered i⟩

theorem accounted_fresh (now : ℤ) (scopes : List σ) :
    Accounted R (State.fresh now scopes : State ι ν σ κ χ) Sweeps.fresh :=
  ⟨fun _ => rfl, fun _ _ => rfl⟩

variable [DecidableEq ι]

/-- The rows that a statement returns. -/
def Sweeps.gather (w : Sweeps ι κ χ ρ) (i : ι) (rows : List (Lease κ χ)) : Sweeps ι κ χ ρ :=
  { w with
    moved := update w.moved i (w.moved i ++ rows)
    gathered := update w.gathered i (w.gathered i ++ rows) }

/-- The end of a sweep, with its result. -/
def Sweeps.finish (w : Sweeps ι κ χ ρ) (i : ι) (result : List ρ) : Sweeps ι κ χ ρ :=
  { w with
    gathered := update w.gathered i []
    returned := update w.returned i (w.returned i ++ result) }

variable {i : ι} {q : Phase σ κ χ}

theorem Accounted.due_gather (h : Accounted R s w) (i : ι) (rows : List (Lease κ χ)) (j : ι) :
    ((w.gather i rows).moved j).filterMap R.due =
      ((w.gather i rows).returned j).filterMap R.told ++
        ((w.gather i rows).gathered j).filterMap R.due := by
  by_cases hj : j = i
  · subst hj
    simp only [Sweeps.gather, update_self, filterMap_append, h.due j, append_assoc]
  · simp only [Sweeps.gather, update_of_ne hj, h.due j]

theorem Accounted.due_finish (h : Accounted R s w) (i : ι) {result : List ρ}
    (hres : result.filterMap R.told = (w.gathered i).filterMap R.due) (j : ι) :
    ((w.finish i result).moved j).filterMap R.due =
      ((w.finish i result).returned j).filterMap R.told ++
        ((w.finish i result).gathered j).filterMap R.due := by
  by_cases hj : j = i
  · subst hj
    simp only [Sweeps.finish, update_self, filterMap_append, h.due j, hres,
      filterMap_nil, append_nil]
  · simp only [Sweeps.finish, update_of_ne hj, h.due j]

theorem Accounted.set (h : Accounted R s w) (hp : (s.phase i).sweeping = false) :
    Accounted R (s.set i q) w :=
  ⟨h.due, forall_phase_set (P := fun j p => p.sweeping = false → w.gathered j = [])
    (fun _ => h.gathered i hp) fun j _ => h.gathered j⟩

theorem Accounted.gather (h : Accounted R s w) (hq : q.sweeping = true)
    (rows : List (Lease κ χ)) : Accounted R (s.set i q) (w.gather i rows) := by
  refine ⟨h.due_gather i rows, forall_phase_set
    (P := fun j p => p.sweeping = false → (w.gather i rows).gathered j = []) ?_ ?_⟩
  · intro hnot
    simp [hnot] at hq
  · intro j hj hnot
    simp only [Sweeps.gather, update_of_ne hj, h.gathered j hnot]

theorem Accounted.finish (h : Accounted R s w) {result : List ρ}
    (hres : result.filterMap R.told = (w.gathered i).filterMap R.due) :
    Accounted R (s.set i q) (w.finish i result) := by
  refine ⟨h.due_finish i hres, forall_phase_set
    (P := fun j p => p.sweeping = false → (w.finish i result).gathered j = []) ?_ ?_⟩
  · intro _
    simp only [Sweeps.finish, update_self]
  · intro j hj hnot
    simp only [Sweeps.finish, update_of_ne hj, h.gathered j hnot]

variable [DecidableEq κ] [DecidableEq χ]
variable {T : Leases κ χ} {batch : Lease κ χ → Bool} {now : ℤ} {D : Daemon ν σ κ χ μ}

/-- The rows of a table that a statement changed or deleted. -/
def changedRows (T T' : Leases κ χ) : List (Lease κ χ) := T.rows.filter (· ∉ T'.rows)

/-- What is seen of a step.  A sweep that fails returns nothing. -/
def watchSweeps (result : List (Lease κ χ) → List ρ) (s : State ι ν σ κ χ)
    (l : Label ι ν σ κ χ) (t : State ι ν σ κ χ) (w : Sweeps ι κ χ ρ) : Sweeps ι κ χ ρ :=
  match l with
  | .write i =>
    match s.phase i with
    | .expiring _ => w.gather i (changedRows s.leases t.leases)
    | .purging _ => w.gather i (changedRows s.leases t.leases)
    | .freeing _ => w.finish i (result (w.gathered i))
    | _ => w
  | .fail i => if (s.phase i).sweeping then w.finish i [] else w
  | _ => w

theorem changedRows_expireRows {limit : ℕ} (h : Batch limit T.rows (Lapsed now) batch) :
    changedRows T (expireRows batch T) = T.rows.filter batch := by
  refine filter_congr fun row hrow => ?_
  have hmem : row ∈ (expireRows batch T).rows ↔
      (if batch row then { row with state := .expired } else row) = row := by
    rw [Store.mem_rows_iff, find_expireRows, T.mem_rows_iff.mp hrow, map_some, some_inj]
  cases hbat : batch row with
  | false => simp [hmem, hbat]
  | true =>
    have hact : row.state = .active := (of_decide_eq_true (h.1 row hbat)).1
    have hne : { row with state := .expired } ≠ row := fun heq => by
      rw [← heq] at hact
      exact nomatch hact
    simp [hmem, hbat, hne]

theorem changedRows_delete :
    changedRows T (T.delete batch) = T.rows.filter batch := by
  refine filter_congr fun row hrow => ?_
  simp [Store.delete, hrow]

omit [DecidableEq χ] in
theorem Reads.not_sweeping {F : Family σ κ χ} {reservations : List StaticLease} {p q : Phase σ κ χ}
    (h : Reads F now T reservations p q) :
    p.sweeping = false := by
  cases h <;> rfl

theorem Accounted.write (h : Accounted R s w) (hok : Lossless R s w (.write i))
    {T : Leases κ χ} {events : List (Event κ χ)}
    (hwr : Writes D s.now s.leases (s.phase i) T q events) :
    Accounted R (s.commit i T q events)
      (watchSweeps R.result s (.write i) (s.commit i T q events) w) := by
  have hset : ∀ {w' : Sweeps ι κ χ ρ}, Accounted R (s.set i q) w' →
      Accounted R (s.commit i T q events) w' := fun h' => h'.congr rfl
  simp only [watchSweeps]
  generalize hp : s.phase i = p at hwr
  -- the first two statements of a sweep gather, the third one ends it
  cases hwr with
  | expire | purge => exact hset (h.gather rfl _)
  | free => exact hset (h.finish (hok ⟨_, hp⟩))
  | _ => exact hset (h.set (by rw [hp]; rfl))

variable [DecidableEq ν]

/-- **Nothing is lost on the way**: a step keeps the account, if a sweep that ends
tells what is due. -/
theorem Accounted.step (h : Accounted R s w) (hok : Lossless R s w l) (hstep : Step D s l t) :
    Accounted R t (watchSweeps R.result s l t w) := by
  cases hstep with
  | tick | edit | refresh => exact h.congr rfl
  | receive hidle | sweep hidle => exact h.set (by rw [hidle]; rfl)
  | read hread => exact h.set hread.not_sweeping
  | write hwr => exact h.write hok hwr
  | @fail i q hfail =>
    simp only [watchSweeps]
    split
    · rename_i hswe
      exact h.finish (hok hswe).symm
    · rename_i hswe
      exact h.set (Bool.eq_false_iff.mpr hswe)

/-- **All that is due was told, once**, by every handler whose last sweep is over. -/
theorem WatchedRun.due_eq_told {scopes : List σ}
    (h : WatchedRun D (watchSweeps R.result) (Lossless R) (State.fresh now scopes, Sweeps.fresh)
      (s, w)) {i : ι} (hdone : (s.phase i).sweeping = false) :
    (w.moved i).filterMap R.due = (w.returned i).filterMap R.told := by
  have hacc : Accounted R s w :=
    h.induct (accounted_fresh now scopes) fun h hok hstep => h.step hok hstep
  rw [hacc.due i, hacc.gathered i hdone, filterMap_nil, append_nil]

end Dhcp

namespace Dhcp6

variable {row : Lease Key Duid} {rows : List (Lease Key Duid)}

/-! ### `sweep_expired6` -/

structure ExpiredLease6 where
  scopeId : Str
  ip : BitVec 128
  duid : Duid
  hostname : Option Str
  deriving DecidableEq

/-- One row of the result: its address is parsed. -/
def expiredLease6 (row : Lease Key Duid) : Option ExpiredLease6 :=
  (parseIpv6 row.ip.text).map fun ip => ⟨row.scopeId, ip, row.client, row.hostname⟩

/-- The result of `sweep_expired6`: every row, or an error. -/
def collect (rows : List (Lease Key Duid)) : Option (List ExpiredLease6) :=
  rows.mapM expiredLease6

/-- What DDNS has to be told: the leases of addresses that have a host name. -/
def namedLease (row : Lease Key Duid) : Option ExpiredLease6 :=
  match row.ip with
  | .na ip => if row.hostname.isSome then some ⟨row.scopeId, ip, row.client, row.hostname⟩ else none
  | .pd _ _ => none

/-- The sweeps of DHCPv6.  An error is logged and nothing is posted; of a result the
leases with a host name are. -/
def sweepReporting : Reporting Key Duid ExpiredLease6 ExpiredLease6 where
  due := namedLease
  told lease := if lease.hostname.isSome then some lease else none
  result rows := (collect rows).getD []

theorem expiredLease6_na {ip : BitVec 128} (h : row.ip = .na ip) :
    expiredLease6 row = some ⟨row.scopeId, ip, row.client, row.hostname⟩ := by
  rw [expiredLease6, h, Key.text, parseIpv6_ipv6Text]
  rfl

theorem expiredLease6_pd {net : BitVec 128} {len : UInt8} (h : row.ip = .pd net len) :
    expiredLease6 row = none := by
  rw [expiredLease6, map_eq_none_iff, h, Key.text]
  refine eq_none_iff_forall_ne_some.mpr fun ip hip => ?_
  exact not_mem_of_parseIpv6 (c := '/') ⟨by decide, by decide, by decide⟩ hip (by simp)

theorem isSome_expiredLease6_iff :
    (expiredLease6 row).isSome ↔ row.ip.leaseType = .na := by
  cases h : row.ip with
  | na => simp [expiredLease6_na h, Key.leaseType]
  | pd => simp [expiredLease6_pd h, Key.leaseType]

/-- **A sweep returns something exactly when nothing it gathered was delegated.** -/
theorem collect_eq_some_iff {leases : List ExpiredLease6} :
    collect rows = some leases ↔
      (∀ row ∈ rows, row.ip.leaseType = .na) ∧ leases = rows.filterMap expiredLease6 := by
  constructor
  · intro h
    have hall : ∀ row ∈ rows, (expiredLease6 row).isSome := by
      intro row hrow
      exact isSome_of_mapM h hrow
    rw [collect, mapM_of_forall_isSome hall, some_inj] at h
    exact ⟨fun row hrow => isSome_expiredLease6_iff.mp (hall row hrow), h.symm⟩
  · rintro ⟨hna, rfl⟩
    exact mapM_of_forall_isSome fun row hrow => isSome_expiredLease6_iff.mpr (hna row hrow)

theorem told_of_forall_na (h : ∀ row ∈ rows, row.ip.leaseType = .na) :
    (sweepReporting.result rows).filterMap sweepReporting.told =
      rows.filterMap sweepReporting.due := by
  have hcol : collect rows = some (rows.filterMap expiredLease6) :=
    collect_eq_some_iff.mpr ⟨h, rfl⟩
  simp only [sweepReporting, hcol, getD_some, filterMap_filterMap]
  refine filterMap_congr fun row hrow => ?_
  cases hip : row.ip with
  | na => simp [expiredLease6_na hip, namedLease, hip]
  | pd => exact absurd (h row hrow) (by simp [hip, Key.leaseType])

theorem result_of_mem_pd (hrow : row ∈ rows) (hpd : row.ip.leaseType = .pd) :
    sweepReporting.result rows = [] := by
  cases hcol : collect rows with
  | none => simp [sweepReporting, hcol]
  | some =>
    have hna := (collect_eq_some_iff.mp hcol).1 row hrow
    exact absurd (hpd.symm.trans hna) (by decide)

variable {ι ν : Type} [DecidableEq ι] [DecidableEq ν] {s t : State ι ν Scope Key Duid}
  {w : Sweeps ι Key Duid ExpiredLease6}

/-- Of the rows that a sweep gathered none is a named lease, or none is delegated;
and it does not fail with a named lease among them. -/
def KeepsApart (s : State ι ν Scope Key Duid) (w : Sweeps ι Key Duid ExpiredLease6) :
    Label ι ν Scope Key Duid → Prop
  | .write i => (∃ called, s.phase i = .freeing called) →
      (∀ row ∈ w.gathered i, namedLease row = none) ∨
        ∀ row ∈ w.gathered i, row.ip.leaseType = .na
  | .fail i => (s.phase i).sweeping = true → ∀ row ∈ w.gathered i, namedLease row = none
  | _ => True

omit [DecidableEq ι] [DecidableEq ν] in
/-- **That is when nothing is lost.** -/
theorem lossless_iff_keepsApart {l : Label ι ν Scope Key Duid} :
    Lossless sweepReporting s w l ↔ KeepsApart s w l := by
  cases l with
  | write i =>
    refine imp_congr_right fun _ => ?_
    constructor
    · intro htold
      by_cases hna : ∀ row ∈ w.gathered i, row.ip.leaseType = .na
      · exact .inr hna
      · push Not at hna
        obtain ⟨row, hrow, hpd⟩ := hna
        have hpd : row.ip.leaseType = .pd := by
          cases htype : row.ip.leaseType with
          | na => exact absurd htype hpd
          | pd => rfl
        -- one delegated prefix and the whole result is lost
        rw [result_of_mem_pd hrow hpd] at htold
        exact .inl (filterMap_eq_nil_iff.mp htold.symm)
    · rintro (hnone | hna)
      · cases hcol : collect (w.gathered i) with
        | some => exact told_of_forall_na (collect_eq_some_iff.mp hcol).1
        | none =>
          have hdue : (w.gathered i).filterMap sweepReporting.due = [] :=
            filterMap_eq_nil_iff.mpr hnone
          rw [hdue]
          simp [sweepReporting, hcol]
      · exact told_of_forall_na hna
  | fail => exact imp_congr_right fun _ => filterMap_eq_nil_iff
  | _ => exact Iff.rfl

/-- **Every named lease that a sweep moved was reported, once**: in every run of the
sweeps of any number of instances, next to everything else they do, the sweeps of
each handler that are over have returned exactly the named leases they moved. -/
theorem sweeps_report {srv : ν → Server} {sweep : Sweep} {now : ℤ} {scopes : List Scope} {i : ι}
    (h : WatchedRun (daemon srv sweep) (watchSweeps sweepReporting.result) KeepsApart
      (State.fresh now scopes, Sweeps.fresh) (s, w)) (hdone : (s.phase i).sweeping = false) :
    (w.moved i).filterMap namedLease =
      (w.returned i).filter fun lease => lease.hostname.isSome := by
  have hlos : WatchedRun (daemon srv sweep) (watchSweeps sweepReporting.result)
      (Lossless sweepReporting) (State.fresh now scopes, Sweeps.fresh) (s, w) :=
    h.mono fun _ _ _ => lossless_iff_keepsApart.mpr
  rw [← filterMap_eq_filter]
  exact hlos.due_eq_told hdone

/-! ### Examples -/

/-- The sample scope with a net to delegate. -/
def sampleDelegating : Scope :=
  { sampleScope with
    pdPrefix := some 0x20010DB8000000000000000000000000
    pdPrefixLen := some 64 }

def sampleNamed : StaticLease := ⟨"lan", "02", "::1", some "pc", true⟩

/-- It is entered and confirmed; the first client asks for a net; then everything is
swept, when it has expired. -/
def sampleConfirm : List (Move Unit Unit Scope Key Duid Message) :=
  [.edit ⟨[sampleDelegating], [sampleNamed]⟩, .refresh (),
    .receive () () 0 (sampleRequest 2 1) 0, .write ()]

def sampleDelegate : List (Move Unit Unit Scope Key Duid Message) :=
  [.receive () () 0 ⟨.request, some [1], some sampleServer.serverDuid, none, some none⟩ 0,
    .read (), .read (), .read (), .write ()]

def sampleSweep : List (Move Unit Unit Scope Key Duid Message) :=
  [.tick 3600000001, .sweep (), .write (), .write (), .write ()]

/-- A named lease expires alone, and is reported. -/
theorem sweeps_report_named : ∃ (s : State Unit Unit Scope Key Duid)
    (w : Sweeps Unit Key Duid ExpiredLease6),
    WatchedRun sampleDaemon (watchSweeps sweepReporting.result) KeepsApart
      (State.fresh 0 [sampleDelegating], Sweeps.fresh) (s, w) ∧
    (s.phase ()).sweeping = false ∧
    (w.moved ()).filterMap namedLease = [⟨"lan", 1, duidHex [2], some "pc"⟩] ∧
    (w.moved ()).filterMap namedLease =
      (w.returned ()).filter fun lease => lease.hostname.isSome := by
  have hok : ∀ (s : State Unit Unit Scope Key Duid) (w : Sweeps Unit Key Duid ExpiredLease6)
      (l : Label Unit Unit Scope Key Duid),
      (match l with
        | .write i => decide (∀ row ∈ w.gathered i, row.ip.leaseType = .na)
        | .fail _ => false
        | _ => true) = true → KeepsApart s w l := by
    intro s w l hl
    cases l with
    | write => exact fun _ => .inr (of_decide_eq_true hl)
    | fail => simp at hl
    | _ => trivial
  obtain ⟨⟨s, w⟩, hrun, hdone, hmov⟩ := exists_replayWatched (D := sampleDaemon)
    (W := watchSweeps sweepReporting.result)
    (P := fun b => (b.1.phase ()).sweeping = false ∧ (b.2.moved ()).filterMap namedLease =
      [⟨"lan", 1, duidHex [2], some "pc"⟩])
    (a := (State.fresh 0 [sampleDelegating], Sweeps.fresh)) hok (sampleConfirm ++ sampleSweep)
    (by decide +kernel)
  exact ⟨s, w, hrun, hdone, hmov, sweeps_report hrun hdone⟩

/-- A named lease and a delegated net expire together, and nothing is reported. -/
theorem sweep_loses_named : ∃ (s : State Unit Unit Scope Key Duid)
    (w : Sweeps Unit Key Duid ExpiredLease6),
    WatchedRun sampleDaemon (watchSweeps sweepReporting.result) (fun _ _ _ => True)
      (State.fresh 0 [sampleDelegating], Sweeps.fresh) (s, w) ∧
    (s.phase ()).sweeping = false ∧
    (w.moved ()).filterMap namedLease = [⟨"lan", 1, duidHex [2], some "pc"⟩] ∧
    w.returned () = [] := by
  obtain ⟨⟨s, w⟩, hrun, hdone, hmov, hret⟩ := exists_replayWatched (D := sampleDaemon)
    (W := watchSweeps sweepReporting.result)
    (P := fun b => (b.1.phase ()).sweeping = false ∧ (b.2.moved ()).filterMap namedLease =
      [⟨"lan", 1, duidHex [2], some "pc"⟩] ∧ b.2.returned () = [])
    (a := (State.fresh 0 [sampleDelegating], Sweeps.fresh)) (K := fun _ _ _ => true)
    (fun _ _ _ _ => trivial) (sampleConfirm ++ sampleDelegate ++ sampleSweep)
    (by decide +kernel)
  exact ⟨s, w, hrun, hdone, hmov, hret⟩

end Dhcp6
