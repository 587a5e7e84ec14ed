/-
Sets of naturals packed into bytes, eight to a byte, least significant first.

`setBit` is the write `bits[i // 8] |= 1 << (i % 8)` and `getBit` the read
`bits[i / 8] & (1 << (i % 8)) != 0` (false beyond the last byte).  What the
rest of the development uses is `getBit_setBits`: after a sequence of writes
into range, a bit is set iff it was set before or is one of those written.
-/
import Mathlib

open List

namespace BitSet

/-- `bytearray(n)`: `n` zero bytes. -/
def zeros (n : ℕ) : List UInt8 := List.replicate n 0

/-- `bits[i // 8] |= 1 << (i % 8)`. -/
def setBit (bits : List UInt8) (i : ℕ) : List UInt8 :=
  bits.modify (i / 8) fun b => UInt8.ofNat (b.toNat ||| 1 <<< (i % 8))

/-- `bits.get(i / 8)` is a byte with bit `i % 8` set. -/
def getBit (bits : List UInt8) (i : ℕ) : Bool :=
  match bits[i / 8]? with
  | some byte => byte &&& (1 <<< UInt8.ofNat (i % 8)) != 0
  | none => false

@[simp] theorem length_setBit (bits : List UInt8) (i : ℕ) :
    (setBit bits i).length = bits.length := length_modify ..

theorem byte_and_ne_zero (b : UInt8) {k : ℕ} (hk : k < 8) :
    (b &&& (1 <<< UInt8.ofNat k) != 0) = b.toNat.testBit k := by
  have hshi : ((1 : UInt8) <<< UInt8.ofNat k).toNat = 2 ^ k := by
    have hpow : 2 ^ k < 2 ^ 8 := Nat.pow_lt_pow_right (by omega) hk
    rw [UInt8.toNat_shiftLeft, UInt8.toNat_ofNat', Nat.mod_eq_of_lt (show k < 2 ^ 8 by omega),
      Nat.mod_eq_of_lt hk, show (1 : UInt8).toNat = 1 from rfl, Nat.shiftLeft_eq, one_mul]
    exact Nat.mod_eq_of_lt hpow
  have hand : (b &&& (1 <<< UInt8.ofNat k)).toNat = (b.toNat.testBit k).toNat * 2 ^ k := by
    rw [UInt8.toNat_and, hshi, Nat.and_two_pow]
  have hzero : (b &&& (1 <<< UInt8.ofNat k) = 0) ↔ b.toNat.testBit k = false := by
    rw [← UInt8.toNat_inj, hand, show (0 : UInt8).toNat = 0 from rfl]
    cases b.toNat.testBit k <;> simp
  rcases h : b.toNat.testBit k with _ | _
  · simp [hzero.mpr h]
  · simp [hzero, h]

theorem getBit_eq (bits : List UInt8) (i : ℕ) :
    getBit bits i = (bits[i / 8]?.any fun b => b.toNat.testBit (i % 8)) := by
  unfold getBit
  rcases bits[i / 8]? with _ | b
  · rfl
  · exact byte_and_ne_zero b (Nat.mod_lt i (by omega))

@[simp] theorem getBit_zeros (n i : ℕ) : getBit (zeros n) i = false := by
  rw [getBit_eq, zeros, getElem?_replicate]
  by_cases h : i / 8 < n
  · simp [h]
  · simp [h]

theorem getBit_setBit {bits : List UInt8} {i : ℕ} (hi : i / 8 < bits.length) (j : ℕ) :
    getBit (setBit bits i) j = (getBit bits j || j == i) := by
  rw [getBit_eq, getBit_eq, setBit, getElem?_modify]
  by_cases hbyte : i / 8 = j / 8
  · obtain ⟨b, hb⟩ : ∃ b, bits[j / 8]? = some b :=
      ⟨_, getElem?_eq_getElem (hbyte ▸ hi)⟩
    have hlt : b.toNat ||| 1 <<< (i % 8) < 2 ^ 8 := by
      have hpow : 1 <<< (i % 8) < 2 ^ 8 := by
        rw [Nat.shiftLeft_eq, one_mul]
        exact Nat.pow_lt_pow_right (by omega) (Nat.mod_lt i (by omega))
      exact Nat.or_lt_two_pow b.toNat_lt hpow
    -- in one byte, two bits are told apart by their places in it
    have hij : (j == i) = decide (i % 8 = j % 8) := by
      rw [Bool.eq_iff_iff, beq_iff_eq, decide_eq_true_eq]
      omega
    simp only [if_pos hbyte, hb]
    show (UInt8.ofNat (b.toNat ||| 1 <<< (i % 8))).toNat.testBit (j % 8) = _
    rw [UInt8.toNat_ofNat', Nat.mod_eq_of_lt hlt, Nat.testBit_or, Nat.shiftLeft_eq, one_mul,
      Nat.testBit_two_pow, hij]
    rfl
  · have hij : (j == i) = false := by
      rw [beq_eq_false_iff_ne]
      rintro rfl
      exact hbyte rfl
    simp [hbyte, hij]

/-- Writing a list of bits, one after the other. -/
def setBits (bits : List UInt8) (is : List ℕ) : List UInt8 := is.foldl setBit bits

@[simp] theorem length_setBits (bits : List UInt8) (is : List ℕ) :
    (setBits bits is).length = bits.length := by
  induction is generalizing bits with
  | nil => rfl
  | cons i is ih =>
    rw [setBits, foldl_cons]
    exact (ih _).trans (length_setBit bits i)

theorem setBits_append (bits : List UInt8) (is js : List ℕ) :
    setBits bits (is ++ js) = setBits (setBits bits is) js := foldl_append

theorem getBit_setBits {bits : List UInt8} {is : List ℕ}
    (h : ∀ i ∈ is, i / 8 < bits.length) (j : ℕ) :
    getBit (setBits bits is) j = true ↔ getBit bits j = true ∨ j ∈ is := by
  induction is generalizing bits with
  | nil => simp [setBits]
  | cons i is ih =>
    have hi : i / 8 < bits.length := h i mem_cons_self
    have hrest : ∀ k ∈ is, k / 8 < (setBit bits i).length := by
      intro k hk
      rw [length_setBit]
      exact h k (mem_cons_of_mem i hk)
    rw [show setBits bits (i :: is) = setBits (setBit bits i) is from rfl, ih hrest,
      getBit_setBit hi, Bool.or_eq_true, beq_iff_eq, mem_cons, or_assoc]

end BitSet
