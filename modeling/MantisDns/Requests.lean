/-
Requests whose statements interleave.

A request works in statements.  Each one sees what is committed at that moment, and
may commit a change itself; statements of other requests come in between, as under
READ COMMITTED.

* `RunWhile` — runs whose statements meet a condition;
* `RunWhile.induct_pairs` — what a request knows of the committed state is kept if its
  own statements keep it and those of the others do not disturb it, and likewise what
  holds between two requests.
-/
import Mathlib.Logic.Function.Basic
import Mathlib.Logic.Relation

namespace Requests

/-- The committed state, and how far each request is. -/
structure State (ι δ φ : Type) where
  db : δ
  phase : ι → φ

variable {ι δ φ : Type} [DecidableEq ι]

def State.set (s : State ι δ φ) (i : ι) (d : δ) (p : φ) : State ι δ φ :=
  ⟨d, Function.update s.phase i p⟩

/-- One statement of a request; `Stmt d p d' p'` takes the request from `p` to `p'` and the
committed state from `d` to `d'`. -/
inductive Step (Stmt : δ → φ → δ → φ → Prop) (s : State ι δ φ) (i : ι) : State ι δ φ → Prop
  | stmt {d : δ} {p : φ} (h : Stmt s.db (s.phase i) d p) : Step Stmt s i (s.set i d p)

def RunWhile (Stmt : δ → φ → δ → φ → Prop) (C : State ι δ φ → ι → Prop) :
    State ι δ φ → State ι δ φ → Prop :=
  Relation.ReflTransGen fun s t => ∃ i, C s i ∧ Step Stmt s i t

variable {Stmt : δ → φ → δ → φ → Prop} {C : State ι δ φ → ι → Prop} {s t : State ι δ φ}
variable {i : ι} {G : δ → Prop} {I : δ → φ → Prop}

@[simp] theorem db_set (i : ι) (d : δ) (p : φ) : (s.set i d p).db = d := rfl

@[simp] theorem phase_set_self (i : ι) (d : δ) (p : φ) : (s.set i d p).phase i = p :=
  Function.update_self ..

theorem phase_set_ne {j : ι} (d : δ) (p : φ) (h : j ≠ i) : (s.set i d p).phase j = s.phase j :=
  Function.update_of_ne h ..

theorem set_set (i : ι) (d d' : δ) (p p' : φ) : (s.set i d p).set i d' p' = s.set i d' p' := by
  simp only [State.set, Function.update_idem]

theorem RunWhile.stmt {s₀ : State ι δ φ} (h : RunWhile Stmt C s₀ s) {d : δ} {p : φ} (hC : C s i)
    (hstmt : Stmt s.db (s.phase i) d p) : RunWhile Stmt C s₀ (s.set i d p) :=
  Relation.ReflTransGen.tail h ⟨i, hC, .stmt hstmt⟩

/-- **Facts about the committed state, about each request and about two of them**: a
statement keeps the facts of its own request, and does not disturb those of the others. -/
theorem RunWhile.induct_pairs {X : φ → φ → Prop} (hsymm : ∀ p q, X p q → X q p)
    (hself : ∀ s i d p, C s i → G s.db → I s.db (s.phase i) → Stmt s.db (s.phase i) d p →
      G d ∧ I d p)
    (hoth : ∀ s i d p q, C s i → G s.db → I s.db (s.phase i) → Stmt s.db (s.phase i) d p →
      I s.db q → X (s.phase i) q → I d q ∧ X p q) (h : RunWhile Stmt C s t) (hG : G s.db)
    (hI : ∀ i, I s.db (s.phase i)) (hX : ∀ i j, i ≠ j → X (s.phase i) (s.phase j)) :
    G t.db ∧ (∀ i, I t.db (t.phase i)) ∧ ∀ i j, i ≠ j → X (t.phase i) (t.phase j) := by
  induction h with
  | refl => exact ⟨hG, hI, hX⟩
  | tail _ hlast ih =>
    obtain ⟨i, hC, ⟨hstmt⟩⟩ := hlast
    obtain ⟨hG, hI, hX⟩ := ih
    obtain ⟨hG', hI'⟩ := hself _ i _ _ hC hG (hI i) hstmt
    -- a pair with the request that took the step, or one of two others
    have hrest := fun j (hj : j ≠ i) =>
      hoth _ i _ _ _ hC hG (hI i) hstmt (hI j) (hX i j hj.symm)
    refine ⟨hG', fun j => ?_, fun j k hjk => ?_⟩
    · by_cases hj : j = i
      · rw [hj, phase_set_self]
        exact hI'
      · rw [phase_set_ne _ _ hj]
        exact (hrest j hj).1
    · by_cases hj : j = i
      · have hk : k ≠ i := fun hk => hjk (hj.trans hk.symm)
        rw [hj, phase_set_self, phase_set_ne _ _ hk]
        exact (hrest k hk).2
      · rw [phase_set_ne _ _ hj]
        by_cases hk : k = i
        · rw [hk, phase_set_self]
          exact hsymm _ _ (hrest j hj).2
        · rw [phase_set_ne _ _ hk]
          exact hX j k hjk

theorem RunWhile.induct
    (hself : ∀ s i d p, C s i → G s.db → I s.db (s.phase i) → Stmt s.db (s.phase i) d p →
      G d ∧ I d p)
    (hoth : ∀ s i d p q, C s i → G s.db → I s.db (s.phase i) → Stmt s.db (s.phase i) d p →
      I s.db q → I d q) (h : RunWhile Stmt C s t) (hG : G s.db) (hI : ∀ i, I s.db (s.phase i)) :
    G t.db ∧ ∀ i, I t.db (t.phase i) := by
  obtain ⟨hG, hI, -⟩ := h.induct_pairs (X := fun _ _ => True) (fun _ _ _ => trivial) hself
    (fun s i d p q hC hG hI hstmt hq _ => ⟨hoth s i d p q hC hG hI hstmt hq, trivial⟩) hG hI
    fun _ _ _ => trivial
  exact ⟨hG, hI⟩

end Requests
