/-
Bloom filters over an arbitrary key type.

A filter is given by the bit positions `probes x` each key touches.  Its
meaning is `Reports probes S x`: every position of `x` is a position of some
member of `S`.  `build` and `query` are the byte-packed filter, and

* `query_build` — the packed filter answers exactly `Reports`;
* `reports_of_mem` — no false negatives;
* `not_reports_empty` — an empty filter reports nothing.
-/
import MantisDns.BitSet

open List

namespace Bloom

variable {α : Type*} (probes : α → List ℕ)

/-- What a filter built from `S` says about `x`: each position of `x` was set
by some member. -/
def Reports (S : Set α) (x : α) : Prop := ∀ i ∈ probes x, ∃ d ∈ S, i ∈ probes d

theorem reports_of_mem {S : Set α} {x : α} (hx : x ∈ S) : Reports probes S x :=
  fun _ hi => ⟨x, hx, hi⟩

theorem not_reports_empty {x : α} (hx : probes x ≠ []) : ¬Reports probes (∅ : Set α) x := by
  obtain ⟨i, hi⟩ := exists_mem_of_ne_nil _ hx
  intro h
  obtain ⟨d, hd, -⟩ := h i hi
  exact hd

/-- Start from `bytes` zero bytes and set the positions of every member. -/
def build (bytes : ℕ) (S : List α) : List UInt8 :=
  BitSet.setBits (BitSet.zeros bytes) (S.flatMap probes)

/-- Every position of the key is set. -/
def query (bits : List UInt8) (x : α) : Bool := (probes x).all (BitSet.getBit bits)

@[simp] theorem length_build (bytes : ℕ) (S : List α) :
    (build probes bytes S).length = bytes := by
  rw [build, BitSet.length_setBits, BitSet.zeros, length_replicate]

variable {probes}

theorem getBit_build {bytes : ℕ} {S : List α} (h : ∀ d ∈ S, ∀ i ∈ probes d, i / 8 < bytes)
    (j : ℕ) : BitSet.getBit (build probes bytes S) j = true ↔ ∃ d ∈ S, j ∈ probes d := by
  have hran : ∀ i ∈ S.flatMap probes, i / 8 < (BitSet.zeros bytes).length := by
    intro i hi
    obtain ⟨d, hd, hi⟩ := mem_flatMap.mp hi
    rw [BitSet.zeros, length_replicate]
    exact h d hd i hi
  rw [build, BitSet.getBit_setBits hran, BitSet.getBit_zeros, mem_flatMap]
  simp

/-- **The packed filter answers exactly `Reports`**, for any members whose
positions fit into the bytes and any key whatever. -/
theorem query_build {bytes : ℕ} {S : List α} (h : ∀ d ∈ S, ∀ i ∈ probes d, i / 8 < bytes)
    (x : α) : query probes (build probes bytes S) x = true ↔ Reports probes {d | d ∈ S} x := by
  rw [query, List.all_eq_true]
  constructor
  · intro hx i hi
    exact (getBit_build h i).mp (hx i hi)
  · intro hx i hi
    exact (getBit_build h i).mpr (hx i hi)

end Bloom
