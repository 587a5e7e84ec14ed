/-
Rust's `slice::binary_search`.

`binarySearch` is the branch-light loop of the standard library: the window
`[base, base + size)` is halved until one element is left, and only that one
is compared for equality.

* `binarySearch_sound` — an index it reports holds the key (on any list);
* `contains_iff_mem` — on a sorted list it reports an index exactly when
  the key occurs.
-/
import Mathlib

open List

namespace Slice

variable {α : Type*} [LinearOrder α]
variable {xs : List α} {x : α}

/-- The halving loop: the base left when the window has shrunk to one. -/
def searchLoop (xs : List α) (x : α) (base size : ℕ) : ℕ :=
  if 1 < size then
    let half := size / 2
    let mid := base + half
    match xs[mid]? with
    | some y => searchLoop xs x (if x < y then base else mid) (size - half)
    -- `mid` is below `base + size`, so the unchecked read is always in range
    | none => base
  else base
  termination_by size
  decreasing_by omega

/-- `binary_search`: `ok i` for a match at `i`, `error i` for the insertion
point. -/
def binarySearch (xs : List α) (x : α) : Except ℕ ℕ :=
  match xs[searchLoop xs x 0 xs.length]? with
  | none => .error 0
  | some y =>
    let base := searchLoop xs x 0 xs.length
    if y = x then .ok base else .error (if y < x then base + 1 else base)

/-- `binary_search(..).is_ok()`. -/
def contains (xs : List α) (x : α) : Bool :=
  match binarySearch xs x with
  | .ok _ => true
  | .error _ => false

theorem contains_iff :
    contains xs x = true ↔ xs[searchLoop xs x 0 xs.length]? = some x := by
  unfold contains binarySearch
  rcases h : xs[searchLoop xs x 0 xs.length]? with _ | y
  · simp
  · by_cases hy : y = x
    · simp [hy]
    · simp [hy]

theorem binarySearch_sound (h : contains xs x = true) : x ∈ xs :=
  mem_of_getElem? (contains_iff.mp h)

/-- The loop invariant: on a sorted list, a key that occurs in the window
still occurs in the window when it has shrunk to one element. -/
theorem searchLoop_spec (hs : xs.Pairwise (· ≤ ·)) :
    ∀ {size base k : ℕ}, base + size ≤ xs.length → base ≤ k → k < base + size →
      xs[k]? = some x → xs[searchLoop xs x base size]? = some x := by
  have hle : ∀ {i j : ℕ} {a b : α}, xs[i]? = some a → xs[j]? = some b → i ≤ j → a ≤ b := by
    intro i j a b ha hb hij
    obtain ⟨hi, rfl⟩ := List.getElem?_eq_some_iff.mp ha
    obtain ⟨hj, rfl⟩ := List.getElem?_eq_some_iff.mp hb
    rcases Nat.lt_or_eq_of_le hij with hlt | rfl
    · exact pairwise_iff_getElem.mp hs i j hi hj hlt
    · exact le_refl _
  intro size
  -- on the size of the window; the key occurs at `k`
  induction size using Nat.strongRecOn with
  | _ size ih =>
    intro base k hlen hbase hk hx
    rw [searchLoop]
    by_cases hsize : 1 < size
    · obtain ⟨y, hy⟩ : ∃ y, xs[base + size / 2]? = some y :=
        ⟨_, getElem?_eq_getElem (show base + size / 2 < xs.length by omega)⟩
      rw [if_pos hsize]
      simp only [hy]
      by_cases hxy : x < y
      · -- everything from `mid` on is above the key
        have hkmid : k < base + size / 2 := by
          by_contra hge
          exact absurd (hle hy hx (by omega)) (not_le.mpr hxy)
        rw [if_pos hxy]
        exact ih _ (by omega) (by omega) hbase (by omega) hx
      · rw [if_neg hxy]
        by_cases hkmid : base + size / 2 ≤ k
        · exact ih _ (by omega) (by omega) hkmid (by omega) hx
        · -- the key sits left of `mid`, so the element at `mid` equals it too
          have hyx : y = x := le_antisymm (not_lt.mp hxy) (hle hx hy (by omega))
          exact ih _ (by omega) (by omega) (le_refl _) (by omega) (hyx ▸ hy)
    · rw [if_neg hsize, show base = k by omega]
      exact hx

theorem contains_iff_mem (hs : xs.Pairwise (· ≤ ·)) :
    contains xs x = true ↔ x ∈ xs := by
  constructor
  · exact binarySearch_sound
  · intro hx
    obtain ⟨k, hk⟩ := mem_iff_getElem?.mp hx
    have hklt : k < xs.length := (List.getElem?_eq_some_iff.mp hk).choose
    exact contains_iff.mpr (searchLoop_spec hs (by omega) (Nat.zero_le k) (by omega) hk)

example : contains [2, 3, 5, 7, 11] 7 = true ∧ contains [2, 3, 5, 7, 11] 6 = false := by
  decide +kernel

end Slice
