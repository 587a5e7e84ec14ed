/-
The ICMP echo request of `conflict.rs` and its checksum.

The accumulator of `internet_checksum` is a `u32`: a sum that does not fit is `none` here.
Folding the carries back in keeps a sum modulo `0xFFFF` and never makes it zero
(`fold_spec`), so a message with its checksum in place folds to `0xFFFF`.
-/
import Mathlib

open List

namespace Dhcp.Conflict

/-- The 16-bit words of a message, an odd tail padded with a zero. -/
def words : List UInt8 → List ℕ
  | high :: low :: rest => (256 * high.toNat + low.toNat) :: words rest
  | [last] => [256 * last.toNat]
  | [] => []

/-- The loop over `chunks_exact(2)`, and its remainder. -/
def accumulate (sum : ℕ) : List UInt8 → Option ℕ
  | high :: low :: rest =>
    let sum := sum + (256 * high.toNat + low.toNat)
    if sum < 2 ^ 32 then accumulate sum rest else none
  | [last] =>
    let sum := sum + 256 * last.toNat
    if sum < 2 ^ 32 then some sum else none
  | [] => some sum

/-- The loop `while sum >> 16 != 0`. -/
def fold (sum : ℕ) : Option ℕ :=
  if sum / 2 ^ 16 ≠ 0 then
    if sum % 2 ^ 16 + sum / 2 ^ 16 < 2 ^ 32 then fold (sum % 2 ^ 16 + sum / 2 ^ 16) else none
  else some sum

/-- `internet_checksum`. -/
def internetChecksum (data : List UInt8) : Option ℕ := do
  let sum ← fold (← accumulate 0 data)
  return 0xFFFF - sum % 2 ^ 16

/-- `u16::to_be_bytes`. -/
def toBeBytes (n : UInt16) : List UInt8 := [.ofNat (n.toNat / 256), .ofNat n.toNat]

/-- `build_echo_request`. -/
def buildEchoRequest (identifier sequence : UInt16) (payload : List UInt8) :
    Option (List UInt8) := do
  let pkt := [8, 0, 0, 0] ++ toBeBytes identifier ++ toBeBytes sequence ++ payload
  let sum ← internetChecksum pkt
  return (pkt.set 2 (.ofNat (sum / 256))).set 3 (.ofNat sum)

theorem sum_words_le (data : List UInt8) : (words data).sum ≤ 0xFFFF * data.length := by
  fun_induction words data with
  | case1 high low =>
    have hhigh := high.toNat_lt
    have hlow := low.toNat_lt
    rw [sum_cons, length_cons, length_cons]
    omega
  | case2 last =>
    have hlast := last.toNat_lt
    rw [sum_singleton, length_singleton]
    omega
  | case3 => exact le_refl 0

theorem accumulate_eq {sum : ℕ} {data : List UInt8} (h : sum + (words data).sum < 2 ^ 32) :
    accumulate sum data = some (sum + (words data).sum) := by
  fun_induction words data generalizing sum with
  | case1 high low rest ih =>
    rw [sum_cons, ← add_assoc] at h ⊢
    exact (if_pos (by omega)).trans (ih h)
  | case2 => exact if_pos h
  | case3 => rfl

/-- Folding ends, with the same sum modulo `0xFFFF`. -/
theorem fold_spec {sum : ℕ} (h : sum < 2 ^ 32) : ∃ r, fold sum = some r ∧ r < 2 ^ 16 ∧
    r % 0xFFFF = sum % 0xFFFF ∧ (0 < sum → 0 < r) := by
  fun_induction fold sum with
  | case1 sum hcarry hlt ih =>
    obtain ⟨r, hr, hr16, hmod, hpos⟩ := ih hlt
    exact ⟨r, hr, hr16, by omega, fun _ => hpos (by omega)⟩
  | case2 sum hcarry hge => exact absurd (by omega) hge
  | case3 sum => exact ⟨sum, rfl, by omega, rfl, id⟩

/-- **Checksums verify**: an echo request has the given fields and payload, and its words, the
checksum among them, add up without an overflow and fold to `0xFFFF`. -/
theorem buildEchoRequest_verifies (identifier sequence : UInt16) (payload : List UInt8)
    (h : payload.length ≤ 65507) : ∃ pkt, buildEchoRequest identifier sequence payload = some pkt ∧
      pkt.take 2 = [8, 0] ∧ pkt.drop 4 = toBeBytes identifier ++ toBeBytes sequence ++ payload ∧
      accumulate 0 pkt = some (words pkt).sum ∧ fold (words pkt).sum = some 0xFFFF := by
  obtain ⟨rest, hrest⟩ : ∃ rest, rest = toBeBytes identifier ++ toBeBytes sequence ++ payload :=
    ⟨_, rfl⟩
  have hlength : rest.length = payload.length + 4 := by
    rw [hrest, length_append]
    exact Nat.add_comm _ _
  -- the checksum is the second word, whatever it is the sum fits
  have hwords (a b : UInt8) : (words (8 :: 0 :: a :: b :: rest)).sum =
      2048 + (256 * a.toNat + b.toNat + (words rest).sum) := rfl
  have hfits (a b : UInt8) : (words (8 :: 0 :: a :: b :: rest)).sum < 2 ^ 32 := by
    refine lt_of_le_of_lt (sum_words_le _) ?_
    simp only [length_cons]
    omega
  have hsum (a b : UInt8) : accumulate 0 (8 :: 0 :: a :: b :: rest) =
      some (words (8 :: 0 :: a :: b :: rest)).sum := by
    rw [accumulate_eq (by rw [zero_add]; exact hfits a b), zero_add]
  obtain ⟨r, hr, hr16, hmod, -⟩ := fold_spec (hfits 0 0)
  have hchecksum : internetChecksum (8 :: 0 :: 0 :: 0 :: rest) = some (0xFFFF - r) := by
    rw [internetChecksum, hsum, Option.bind_eq_bind, Option.bind_some, hr,
      Option.bind_some, Nat.mod_eq_of_lt hr16]
    rfl
  refine ⟨8 :: 0 :: .ofNat ((0xFFFF - r) / 256) :: .ofNat (0xFFFF - r) :: rest, ?_, rfl, hrest,
    hsum _ _, ?_⟩
  · rw [hrest] at hchecksum ⊢
    exact congrArg (Option.bind · _) hchecksum
  · have hsplit : 256 * ((0xFFFF - r) / 256 % 2 ^ 8) + (0xFFFF - r) % 2 ^ 8 = 0xFFFF - r := by
      omega
    obtain ⟨r', hr', hr16', hmod', hpos'⟩ :=
      fold_spec (hfits (.ofNat ((0xFFFF - r) / 256)) (.ofNat (0xFFFF - r)))
    rw [hwords, UInt8.toNat_zero] at hmod
    rw [hwords, UInt8.toNat_ofNat', UInt8.toNat_ofNat', hsplit] at hmod' hpos'
    rw [hr', Option.some_inj]
    omega

theorem buildEchoRequest_verifies_ping : [1, 2, 3].length ≤ 65507 ∧
    ∃ pkt, buildEchoRequest 7 1 [1, 2, 3] = some pkt ∧
      pkt.take 2 = [8, 0] ∧ pkt.drop 4 = toBeBytes 7 ++ toBeBytes 1 ++ [1, 2, 3] ∧
      accumulate 0 pkt = some (words pkt).sum ∧ fold (words pkt).sum = some 0xFFFF :=
  ⟨by decide, buildEchoRequest_verifies 7 1 [1, 2, 3] (by decide)⟩

end Dhcp.Conflict
