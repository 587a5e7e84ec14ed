/-
Read, copy, update on one shared cell.

Calls race on a cell.  Each loads the cell, computes a new content from what it
loaded, and stores it with a compare-and-swap; a swap that fails hands it the
content found instead, and it tries again.

* `linearized_of_run` — every interleaving is a sequential execution of the
  calls whose swap succeeded, in the order of their swaps;
* `log_prefix_of_run` — that order only grows, so it respects real time.
-/
import Mathlib

open Function List

namespace Rcu

/-- Where a call is: not started, holding the content it loaded, or finished
with the content it replaced. -/
inductive Phase (P : Type*) where
  | idle
  | loaded (snap : P)
  | done (prev : P)

/-- The cell, the phase of each call, and the calls in the order of their
successful swaps. -/
structure State (ι P : Type*) where
  cell : P
  phase : ι → Phase P
  log : List ι

variable {ι P : Type*} [DecidableEq ι]

/-- No call has started. -/
def init (c : P) : State ι P := ⟨c, fun _ => .idle, []⟩

/-- One atomic step of call `i`, whose update is `f i`. -/
inductive Step (f : ι → P → P) (i : ι) (s : State ι P) : State ι P → Prop where
  | load (h : s.phase i = .idle) :
      Step f i s { s with phase := update s.phase i (.loaded s.cell) }
  | swap (h : s.phase i = .loaded s.cell) :
      Step f i s ⟨f i s.cell, update s.phase i (.done s.cell), s.log ++ [i]⟩
  | retry {snap : P} (h : s.phase i = .loaded snap) (hne : s.cell ≠ snap) :
      Step f i s { s with phase := update s.phase i (.loaded s.cell) }

/-- Any interleaving of steps of any calls. -/
def Run (f : ι → P → P) : State ι P → State ι P → Prop :=
  Relation.ReflTransGen fun s t => ∃ i, Step f i s t

/-- The content after the given calls, one after the other. -/
def after (f : ι → P → P) (c : P) (calls : List ι) : P := calls.foldl (fun c i => f i c) c

variable {f : ι → P → P} {i j : ι} {c : P} {s t : State ι P}

omit [DecidableEq ι] in
theorem after_cons {l : List ι} : after f c (i :: l) = after f (f i c) l := rfl

omit [DecidableEq ι] in
theorem after_append (a b : List ι) : after f c (a ++ b) = after f (after f c a) b :=
  foldl_append

theorem Step.phase_ne (h : Step f i s t) (hj : j ≠ i) : t.phase j = s.phase j := by
  cases h <;> exact update_of_ne hj _ _

theorem Step.not_done {p : P} (h : Step f i s t) : s.phase i ≠ .done p := by
  intro hdone
  cases h with
  | load h | swap h | retry h => exact absurd (h.symm.trans hdone) (by simp)

theorem Step.done {p : P} (h : Step f i s t) (hj : s.phase j = .done p) : t.phase j = .done p := by
  rw [h.phase_ne, hj]
  rintro rfl
  exact h.not_done hj

/-- **What one step can do** to the cell: nothing, while the call does not
finish; or the call's update, when it does. -/
theorem Step.cases_cell (h : Step f i s t) :
    (t.cell = s.cell ∧ t.log = s.log ∧ ∃ snap, t.phase i = .loaded snap) ∨
      (t.cell = f i s.cell ∧ t.log = s.log ++ [i] ∧ t.phase i = .done s.cell) := by
  cases h with
  | load | retry => exact .inl ⟨rfl, rfl, _, update_self ..⟩
  | swap => exact .inr ⟨rfl, rfl, update_self ..⟩

theorem log_prefix_of_run (h : Run f s t) : s.log <+: t.log := by
  induction h with
  | refl => exact prefix_refl _
  | tail _ hstep ih =>
    obtain ⟨i, hstep⟩ := hstep
    rcases hstep.cases_cell with ⟨-, hlog, -⟩ | ⟨-, hlog, -⟩
    · rwa [hlog]
    · rw [hlog]
      exact ih.trans (prefix_append _ _)

/-- The state is the one reached by the logged calls one after the other, each
finished with the content that the calls before it left. -/
structure Linearized (f : ι → P → P) (c : P) (s : State ι P) : Prop where
  nodup : s.log.Nodup
  mem_log : ∀ i, i ∈ s.log ↔ ∃ p, s.phase i = .done p
  cell_eq : s.cell = after f c s.log
  done_eq : ∀ pre i post, s.log = pre ++ i :: post → s.phase i = .done (after f c pre)

omit [DecidableEq ι] in
theorem linearized_init : Linearized f c (init c : State ι P) where
  nodup := nodup_nil
  mem_log i := by simp [init]
  cell_eq := rfl
  done_eq pre i post h := by simp [init] at h

theorem Linearized.step (hs : Linearized f c s) (h : Step f i s t) : Linearized f c t := by
  have hold : i ∉ s.log := fun hi => by
    obtain ⟨p, hp⟩ := (hs.mem_log i).mp hi
    exact h.not_done hp
  rcases h.cases_cell with ⟨hcell, hlog, snap, hph⟩ | ⟨hcell, hlog, hph⟩
  · -- the call did not finish: the log stays, and so do the finished calls
    refine ⟨hlog ▸ hs.nodup, fun j => ?_, by rw [hcell, hlog, hs.cell_eq], ?_⟩
    · rw [hlog, hs.mem_log]
      by_cases hj : j = i
      · subst hj
        rw [← hs.mem_log, hph]
        simp [hold]
      · rw [h.phase_ne hj]
    · intro pre j post hspl
      exact h.done (hs.done_eq pre j post (hlog ▸ hspl))
  · refine ⟨?_, fun j => ?_, ?_, ?_⟩
    · rw [hlog, ← concat_eq_append]
      exact hs.nodup.concat hold
    · rw [hlog, mem_append, mem_singleton, hs.mem_log]
      by_cases hj : j = i
      · subst hj
        simp [hph]
      · simp [hj, h.phase_ne hj]
    · rw [hcell, hlog, after_append, ← hs.cell_eq]
      rfl
    · intro pre j post hspl
      rw [hlog] at hspl
      -- the new call is the last of the log, every other was there before
      rcases eq_nil_or_concat post with rfl | ⟨post', k, rfl⟩
      · obtain ⟨hpre, hji⟩ := append_inj' hspl rfl
        obtain rfl : i = j := by simpa using hji
        rw [hph, hs.cell_eq, hpre]
      · rw [concat_eq_append, ← cons_append, ← append_assoc] at hspl
        exact h.done (hs.done_eq pre j post' (append_inj' hspl rfl).1)

/-- **Linearizability** of every interleaving. -/
theorem linearized_of_run (h : Run f (init c) s) : Linearized f c s := by
  induction h with
  | refl => exact linearized_init
  | tail _ hstep ih => exact ih.step hstep.choose_spec

end Rcu
