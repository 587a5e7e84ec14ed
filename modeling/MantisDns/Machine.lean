/-
Machines with labelled steps.

A step is a partial function of the state and a label; a run is constrained by a
condition on the state before each step.

* `RunWhile` — runs whose steps meet a condition;
* `RunWhile.induct` — what such a step keeps, such a run keeps;
* `exists_run` — a run is found by executing its labels;
* `exists_of_foldlM` — so is one of a relation that admits the steps of a function.
-/
import Mathlib.Logic.Relation

open Option

namespace Machine

variable {S L : Type*} {f : S → L → Option S} {C : S → L → Prop} {s s' : S}

/-! ### Following a function -/

/-- A relation that admits the steps of a function leads where the function does. -/
theorem reflTransGen_of_foldlM {R : S → S → Prop} (hstep : ∀ {s l t}, f s l = some t → R s t)
    (labels : List L) (h : labels.foldlM f s = some s') : Relation.ReflTransGen R s s' := by
  induction labels generalizing s with
  | nil => exact some_inj.mp h ▸ .refl
  | cons l rest ih =>
    obtain ⟨s₁, hs₁, hrest⟩ := bind_eq_some_iff.mp h
    exact .head (hstep hs₁) (ih hrest)

theorem exists_of_foldlM {R : S → S → Prop} (hstep : ∀ {s l t}, f s l = some t → R s t)
    {P : S → Prop} [DecidablePred P] (labels : List L)
    (h : (labels.foldlM f s).any (fun t => P t) = true) :
    ∃ t, Relation.ReflTransGen R s t ∧ P t := by
  obtain ⟨t, ht, hP⟩ := (Option.any_eq_true _ _).mp h
  exact ⟨t, reflTransGen_of_foldlM hstep labels ht, of_decide_eq_true hP⟩

/-! ### Runs under a condition -/

def RunWhile (f : S → L → Option S) (C : S → L → Prop) : S → S → Prop :=
  Relation.ReflTransGen fun s s' => ∃ l, C s l ∧ f s l = some s'

/-- **Invariants** are kept by runs. -/
theorem RunWhile.induct {I : S → Prop}
    (hstep : ∀ s l s', I s → C s l → f s l = some s' → I s') (h : RunWhile f C s s')
    (hs : I s) : I s' := by
  induction h with
  | refl => exact hs
  | tail _ hlast ih =>
    obtain ⟨l, hC, hlast⟩ := hlast
    exact hstep _ l _ ih hC hlast

/-- The run with these labels, as long as each step meets `C`. -/
def run (f : S → L → Option S) (C : S → L → Prop) [∀ s l, Decidable (C s l)]
    (labels : List L) (s : S) : Option S :=
  labels.foldlM (fun s l => if C s l then f s l else none) s

theorem exists_run [∀ s l, Decidable (C s l)] {P : S → Prop} [DecidablePred P] (labels : List L)
    (h : (run f C labels s).any (fun t => P t) = true) :
    ∃ t, RunWhile f C s t ∧ P t :=
  exists_of_foldlM (fun hl => ⟨_, ite_none_right_eq_some.mp hl⟩) labels h

end Machine
