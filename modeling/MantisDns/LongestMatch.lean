/-
The longest match: subnets of an address space, and the last of the elements
with the greatest key.

* `Net.contains_of_le` — of two subnets with a common address the one of greater
  length lies within the other;
* `maxByKey_eq_some` — where one element has a greater key than all others, it is
  found in whatever order they come.
-/
import Mathlib

open List

namespace LongestMatch

/-! ### The last maximum -/

section MaxByKey

variable {α : Type} {key : α → ℕ} {l : List α} {m : α}

/-- `Iterator::max_by_key`: the last of the greatest. -/
def maxByKey (key : α → ℕ) : List α → Option α
  | [] => none
  | a :: rest =>
    match maxByKey key rest with
    | none => some a
    | some m => if key a ≤ key m then some m else some a

theorem maxByKey_eq_none : maxByKey key l = none ↔ l = [] := by
  cases l with
  | nil => exact ⟨fun _ => rfl, fun _ => rfl⟩
  | cons a rest =>
    rw [maxByKey]
    cases maxByKey key rest with
    | none => simp
    | some m => by_cases h : key a ≤ key m <;> simp [h]

theorem maxByKey_spec (h : maxByKey key l = some m) : m ∈ l ∧ ∀ a ∈ l, key a ≤ key m := by
  induction l generalizing m with
  | nil => simp [maxByKey] at h
  | cons a rest ih =>
    rw [maxByKey] at h
    cases hrest : maxByKey key rest with
    | none =>
      rw [hrest, Option.some_inj] at h
      rw [maxByKey_eq_none.mp hrest, h]
      simp
    | some =>
      obtain ⟨hmem, hmax⟩ := ih hrest
      rw [hrest] at h
      dsimp only at h
      split at h
      · rename_i hle
        cases h
        exact ⟨mem_cons_of_mem _ hmem, forall_mem_cons.mpr ⟨hle, hmax⟩⟩
      · rename_i hlt
        cases h
        exact ⟨mem_cons_self, forall_mem_cons.mpr
          ⟨le_rfl, fun b hb => (hmax b hb).trans (by omega)⟩⟩

theorem maxByKey_map {β : Type} {key : β → ℕ} (f : α → β) :
    maxByKey key (l.map f) = (maxByKey (key ∘ f) l).map f := by
  induction l with
  | nil => rfl
  | cons a rest ih =>
    rw [map_cons, maxByKey, maxByKey, ih]
    cases maxByKey (key ∘ f) rest with
    | none => rfl
    | some =>
      simp only [Option.map_some, Function.comp_apply]
      split <;> rfl

theorem maxByKey_eq_some (hm : m ∈ l) (hlt : ∀ a ∈ l, a ≠ m → key a < key m) :
    maxByKey key l = some m := by
  cases h : maxByKey key l with
  | none =>
    rw [maxByKey_eq_none.mp h] at hm
    simp at hm
  | some x =>
    obtain ⟨hx, hmax⟩ := maxByKey_spec h
    by_contra hne
    have := hlt x hx fun heq => hne (by rw [heq])
    have := hmax m hm
    omega

end MaxByKey

/-! ### Subnets -/

/-- An address and how many of its leading bits count. -/
structure Net (w : ℕ) where
  addr : BitVec w
  len : Fin (w + 1)
  deriving DecidableEq

def Net.contains {w : ℕ} (n : Net w) (a : BitVec w) : Bool :=
  n.addr >>> (w - n.len) = a >>> (w - n.len)

theorem Net.contains_of_le {w : ℕ} {m n : Net w} {a b : BitVec w} (hle : m.len ≤ n.len)
    (hm : m.contains a = true) (hn : n.contains a = true) (hb : n.contains b = true) :
    m.contains b = true := by
  simp only [Net.contains, decide_eq_true_eq] at hm hn hb ⊢
  have hab : a >>> (w - n.len) = b >>> (w - n.len) := hn.symm.trans hb
  have hshi : w - m.len = (w - n.len) + (n.len - m.len) := by
    have := n.len.isLt
    have : (m.len : ℕ) ≤ n.len := hle
    omega
  rw [hm, hshi, BitVec.shiftRight_add, BitVec.shiftRight_add, hab]

end LongestMatch
