/-
Readers of several statements under READ COMMITTED.

A reader runs its statements one after the other, each on the state that is
committed at that moment; commits of other transactions may come in between.

* `reads_of_quiet_run` — while no commit comes between the first and the last
  statement of a reader, it returns what it would read from one committed
  state;
* `eq_of_version_eq` — when every commit raises a version, the states of a run
  are told apart by it.
-/
import Mathlib

open List

namespace ReadCommitted

/-- The statements of a reader: `exec` runs one on a committed state and adds
its rows to what has been read. -/
structure Reader (D σ R : Type*) where
  program : List σ
  start : R
  exec : D → R → σ → R

/-- All statements on one state. -/
def Reader.readAll {D σ R : Type*} (r : Reader D σ R) (d : D) : R :=
  r.program.foldl (r.exec d) r.start

/-- A reader that has not begun, or the statements it has run and still has to
run with what it has read. -/
inductive Phase (σ R : Type*)
  | idle
  | reading (past rest : List σ) (reads : R)

/-- Between its first and its last statement. -/
def Phase.Midway {σ R : Type*} : Phase σ R → Prop
  | .idle => False
  | .reading past rest _ => past ≠ [] ∧ rest ≠ []

/-- The committed state, all states committed so far, and the readers. -/
structure State (ι D σ R : Type*) where
  db : D
  log : List D
  phase : ι → Phase σ R

variable {ι D σ R : Type*} [DecidableEq ι]

def init (d : D) : State ι D σ R := ⟨d, [d], fun _ => .idle⟩

def State.set (s : State ι D σ R) (i : ι) (p : Phase σ R) : State ι D σ R :=
  { s with phase := Function.update s.phase i p }

@[simp] theorem phase_set_self (s : State ι D σ R) (i : ι) (p : Phase σ R) :
    (s.set i p).phase i = p := Function.update_self ..

theorem phase_set_ne (s : State ι D σ R) {i j : ι} (p : Phase σ R) (h : j ≠ i) :
    (s.set i p).phase j = s.phase j := Function.update_of_ne h ..

/-- A statement of a reader, or the commit of another transaction. -/
inductive Step (reader : ι → Reader D σ R) (Commit : D → D → Prop) (s : State ι D σ R) :
    State ι D σ R → Prop
  | start (i : ι) (h : s.phase i = .idle) :
    Step reader Commit s (s.set i (.reading [] (reader i).program (reader i).start))
  | read {i : ι} {past rest : List σ} {x : σ} {reads : R}
      (h : s.phase i = .reading past (x :: rest) reads) :
    Step reader Commit s (s.set i (.reading (past ++ [x]) rest ((reader i).exec s.db reads x)))
  | commit {d : D} (h : Commit s.db d) :
    Step reader Commit s { s with db := d, log := d :: s.log }

def Run (reader : ι → Reader D σ R) (Commit : D → D → Prop) :
    State ι D σ R → State ι D σ R → Prop :=
  Relation.ReflTransGen (Step reader Commit)

/-- A commit only while no reader is midway. -/
def CommitsApart (s t : State ι D σ R) : Prop := t.log ≠ s.log → ∀ i, ¬ (s.phase i).Midway

def QuietRun (reader : ι → Reader D σ R) (Commit : D → D → Prop) :
    State ι D σ R → State ι D σ R → Prop :=
  Relation.ReflTransGen fun s t => Step reader Commit s t ∧ CommitsApart s t

variable {reader : ι → Reader D σ R} {Commit : D → D → Prop} {s t : State ι D σ R} {i : ι}

theorem QuietRun.run (h : QuietRun reader Commit s t) : Run reader Commit s t :=
  Relation.ReflTransGen.mono (fun _ _ hstep => hstep.1) _ _ h

/-! ### A run of one reader -/

/-- A reader runs some of its statements, and nothing comes in between. -/
theorem quietRun_reads {past : List σ} {reads : R} (done rest : List σ)
    (hi : s.phase i = .reading past (done ++ rest) reads) :
    QuietRun reader Commit s (s.set i (.reading (past ++ done) rest
      (done.foldl ((reader i).exec s.db) reads))) := by
  induction done generalizing s past reads with
  | nil =>
    have hself : s.set i (.reading (past ++ []) rest reads) = s := by
      rw [append_nil, State.set, ← nil_append rest, ← hi, Function.update_eq_self]
    rw [foldl_nil, hself]
    exact .refl
  | cons x done ih =>
    have hrun := ih (s := s.set i (.reading (past ++ [x]) (done ++ rest)
      ((reader i).exec s.db reads x))) (phase_set_self ..)
    rw [State.set, State.set, Function.update_idem, append_assoc] at hrun
    exact .head ⟨.read hi, fun hlog => absurd rfl hlog⟩ hrun

theorem quietRun_start {done rest : List σ} (hi : s.phase i = .idle)
    (hpro : (reader i).program = done ++ rest) :
    QuietRun reader Commit s (s.set i (.reading done rest
      (done.foldl ((reader i).exec s.db) (reader i).start))) := by
  have hrun : QuietRun reader Commit
      (s.set i (.reading [] (reader i).program (reader i).start)) _ :=
    quietRun_reads done rest (by rw [phase_set_self, hpro])
  rw [State.set, State.set, Function.update_idem] at hrun
  exact .head ⟨.start i hi, fun hlog => absurd rfl hlog⟩ hrun

variable {d : D} {version : D → ℕ}

/-! ### One committed state per reader -/

/-- What a reader has read comes from one committed state, the current one
while it is not at its end. -/
def PhaseOk (reader : ι → Reader D σ R) (s : State ι D σ R) (i : ι) : Phase σ R → Prop
  | .idle => True
  | .reading past rest reads => past ++ rest = (reader i).program ∧
      ∃ d ∈ s.log, reads = past.foldl ((reader i).exec d) (reader i).start ∧ (rest ≠ [] → d = s.db)

structure Inv (reader : ι → Reader D σ R) (s : State ι D σ R) : Prop where
  db_mem : s.db ∈ s.log
  phase : ∀ i, PhaseOk reader s i (s.phase i)

omit [DecidableEq ι] in
theorem inv_init (d : D) : Inv reader (init d) := ⟨mem_singleton.mpr rfl, fun _ => trivial⟩

theorem Inv.set (hs : Inv reader s) {p : Phase σ R} (hp : PhaseOk reader s i p) :
    Inv reader (s.set i p) := by
  refine ⟨hs.db_mem, fun j => ?_⟩
  by_cases hj : j = i
  · subst hj
    rw [phase_set_self]
    cases p with
    | idle => trivial
    | reading => exact hp
  · rw [phase_set_ne s p hj]
    have := hs.phase j
    generalize s.phase j = q at this
    cases q with
    | idle => trivial
    | reading => exact this

theorem Inv.step (hs : Inv reader s) (h : Step reader Commit s t) (hq : CommitsApart s t) :
    Inv reader t := by
  cases h with
  | start => exact hs.set ⟨rfl, s.db, hs.db_mem, rfl, fun _ => rfl⟩
  | @read i past rest x reads h =>
    obtain ⟨hpro, d, hd, hrea, hdb⟩ : PhaseOk reader s i (.reading past (x :: rest) reads) :=
      h ▸ hs.phase i
    have hdb : d = s.db := hdb (by simp)
    refine hs.set ⟨by simpa using hpro, s.db, hs.db_mem, ?_, fun _ => rfl⟩
    rw [foldl_append, hrea, hdb]
    rfl
  | @commit d h =>
    have hnot : ∀ i, ¬ (s.phase i).Midway := hq (by simp)
    refine ⟨mem_cons_self, fun i => ?_⟩
    have hph := hs.phase i
    have hmid := hnot i
    show PhaseOk reader _ i (s.phase i)
    generalize s.phase i = p at hph hmid
    cases p with
    | idle => trivial
    | reading past rest =>
      obtain ⟨hpro, e, he, hrea, -⟩ := hph
      -- a reader that is not midway has read nothing yet, or everything
      by_cases hrest : rest = []
      · exact ⟨hpro, e, mem_cons_of_mem _ he, hrea, fun hne => absurd hrest hne⟩
      · have hpast : past = [] := by
          by_contra hne
          exact hmid ⟨hne, hrest⟩
        subst hpast
        exact ⟨hpro, d, mem_cons_self, hrea, fun _ => rfl⟩

theorem Inv.run (hs : Inv reader s) (h : QuietRun reader Commit s t) : Inv reader t := by
  induction h with
  | refl => exact hs
  | tail _ hstep ih => exact ih.step hstep.1 hstep.2

/-- **A reader that no commit interrupts** reads from one committed state. -/
theorem reads_of_quiet_run (h : QuietRun reader Commit (init d) s) {past : List σ} {reads : R}
    (hi : s.phase i = .reading past [] reads) :
    ∃ d ∈ s.log, reads = (reader i).readAll d := by
  obtain ⟨hpro, d, hd, hrea, -⟩ : PhaseOk reader s i (.reading past [] reads) :=
    hi ▸ ((inv_init d).run h).phase i
  rw [append_nil] at hpro
  exact ⟨d, hd, by rw [hrea, hpro, Reader.readAll]⟩

/-! ### The committed states -/

theorem forall_log_of_run {P : D → Prop} (hd : P d) (hcom : ∀ d d', P d → Commit d d' → P d')
    (h : Run reader Commit (init d) s) :
    P s.db ∧ ∀ e ∈ s.log, P e := by
  induction h with
  | refl => exact ⟨hd, fun e he => mem_singleton.mp he ▸ hd⟩
  | tail _ hstep ih =>
    cases hstep with
    | start | read => exact ih
    | commit h =>
      have hnew := hcom _ _ ih.1 h
      exact ⟨hnew, fun e he => (mem_cons.mp he).elim (fun heq => heq ▸ hnew) (ih.2 e)⟩

theorem log_of_run (hcom : ∀ d d', Commit d d' → version d < version d')
    (h : Run reader Commit (init d) s) :
    (∀ e ∈ s.log, version e ≤ version s.db) ∧
      s.log.Pairwise fun later earlier => version earlier < version later := by
  induction h with
  | refl =>
    exact ⟨fun e he => (mem_singleton.mp he ▸ le_rfl), pairwise_singleton _ _⟩
  | tail _ hstep ih =>
    cases hstep with
    | start | read => exact ih
    | commit h =>
      -- the committed state is newer than all that were logged
      have hlt := hcom _ _ h
      refine ⟨fun e he => ?_, pairwise_cons.mpr ⟨fun e he => ?_, ih.2⟩⟩
      · rcases mem_cons.mp he with rfl | he
        · exact le_rfl
        · exact (ih.1 e he).trans hlt.le
      · exact (ih.1 e he).trans_lt hlt

/-- **Versions tell the committed states of a run apart.** -/
theorem eq_of_version_eq (hcom : ∀ d d', Commit d d' → version d < version d')
    (h : Run reader Commit (init d) s) {e e' : D} (he : e ∈ s.log) (he' : e' ∈ s.log)
    (hv : version e = version e') : e = e' := by
  have hnod : (s.log.map version).Nodup := by
    rw [List.Nodup, pairwise_map]
    exact (log_of_run hcom h).2.imp fun hlt => hlt.ne'
  exact inj_on_of_nodup_map hnod he he' hv

end ReadCommitted
