/-
Addresses and identifiers as the standard library and the `hex` crate write
them.

* `ipv4Text`, `parseIpv4_ipv4Text`, `eq_ipv4Text_of_parseIpv4` — `Ipv4Addr`, and
  reading it back: an address has one text;
* `ipv6Text` — `Ipv6Addr`, with the longest run of zeros left out;
* `hexByte` — `hex::encode`, one byte at a time.
-/
import MantisDns.Dns

open Text List
open Option hiding join

namespace Dns

/-! ### IPv4 -/

/-- The four parts of an IPv4 address. -/
def octets (ip : UInt32) : List ℕ :=
  [ip.toNat / 16777216, ip.toNat / 65536 % 256, ip.toNat / 256 % 256, ip.toNat % 256]

/-- `Ipv4Addr::to_string`. -/
def ipv4Text (ip : UInt32) : Str := join "." ((octets ip).map natText)

theorem octets_lt {ip : UInt32} {n : ℕ} (h : n ∈ octets ip) : n < 256 := by
  have hip : ip.toNat < 4294967296 := ip.toNat_lt
  simp only [octets, mem_cons, not_mem_nil, or_false] at h
  omega

theorem octets_value (ip : UInt32) :
    ((ip.toNat / 16777216 * 256 + ip.toNat / 65536 % 256) * 256 + ip.toNat / 256 % 256) * 256 +
      ip.toNat % 256 = ip.toNat := by
  omega

theorem parseOctet_natText : ∀ n < 256, parseOctet (natText n) = some n ∧ '.' ∉ natText n := by
  decide +kernel

/-- **What is written is read back.** -/
theorem parseIpv4_ipv4Text (ip : UInt32) : parseIpv4 (ipv4Text ip) = some ip := by
  have hspl : (ipv4Text ip).splitOn '.' = (octets ip).map natText := by
    refine splitOn_intercalate '.' ?_ (by simp [octets])
    intro part hpart
    obtain ⟨n, hn, rfl⟩ := List.mem_map.mp hpart
    exact (parseOctet_natText n (octets_lt hn)).2
  have hpar : ((octets ip).map natText).map parseOctet = (octets ip).map some := by
    rw [List.map_map]
    refine map_congr_left fun n hn => ?_
    exact (parseOctet_natText n (octets_lt hn)).1
  rw [parseIpv4, hspl, hpar]
  simp only [octets, map_cons, map_nil]
  rw [octets_value, UInt32.ofNat_toNat]

theorem ipv4Text_injective : Function.Injective ipv4Text := by
  intro ip ip' h
  have hpar := parseIpv4_ipv4Text ip
  rw [h, parseIpv4_ipv4Text] at hpar
  exact (some_inj.mp hpar).symm

theorem exists_digitChar {c : Char} (h : c.isDigit = true) : ∃ k < 10, c = Nat.digitChar k := by
  have hc : 48 ≤ c.toNat ∧ c.toNat ≤ 57 := by
    simpa [Char.isDigit, UInt32.le_iff_toNat_le] using h
  have hdig : ∀ k < 10, Nat.digitChar k = Char.ofNat (k + 48) := by decide
  refine ⟨c.toNat - 48, by omega, ?_⟩
  rw [hdig _ (by omega), Nat.sub_add_cancel hc.1, Char.ofNat_toNat]

/-- One, two or three digits are read as a number that is written like them. -/
theorem natText_of_digits : ∀ a < 10, ∀ b < 10, ∀ c < 10,
    ∀ s ∈ [[Nat.digitChar a], [Nat.digitChar a, Nat.digitChar b],
      [Nat.digitChar a, Nat.digitChar b, Nat.digitChar c]],
    (parseOctet s).all (fun n => natText n = s ∧ n < 256) = true := by
  decide +kernel

theorem natText_of_parseOctet {s : Str} {n : ℕ} (h : parseOctet s = some n) :
    natText n = s ∧ n < 256 := by
  have hpar := h
  rw [parseOctet] at hpar
  obtain ⟨hlen, hpar⟩ := ite_none_right_eq_some.mp hpar
  have hdig := (filter_eq_some_iff.mp hpar).1
  rw [digits] at hdig
  obtain ⟨hs, hdig⟩ := ite_none_right_eq_some.mp hdig
  have hall : ∀ c ∈ s, ∃ k < 10, c = Nat.digitChar k := fun c hc =>
    exists_digitChar (List.all_eq_true.mp hs.2 c hc)
  -- one, two or three digits, checked for all of them
  have hread : (parseOctet s).all (fun n => natText n = s ∧ n < 256) = true := by
    match s, hs.1, hlen.1, hall with
    | [c], _, _, hall =>
      obtain ⟨a, ha, rfl⟩ := hall c (by simp)
      exact natText_of_digits a ha 0 (by decide) 0 (by decide) _ (by simp)
    | [c, d], _, _, hall =>
      obtain ⟨a, ha, rfl⟩ := hall c (by simp)
      obtain ⟨b, hb, rfl⟩ := hall d (by simp)
      exact natText_of_digits a ha b hb 0 (by decide) _ (by simp)
    | [c, d, e], _, _, hall =>
      obtain ⟨a, ha, rfl⟩ := hall c (by simp)
      obtain ⟨b, hb, rfl⟩ := hall d (by simp)
      obtain ⟨k, hk, rfl⟩ := hall e (by simp)
      exact natText_of_digits a ha b hb k hk _ (by simp)
  rw [h, all_some, decide_eq_true_eq] at hread
  exact hread

theorem octets_ofNat {a b c d : ℕ} (ha : a < 256) (hb : b < 256) (hc : c < 256) (hd : d < 256) :
    octets (UInt32.ofNat (((a * 256 + b) * 256 + c) * 256 + d)) = [a, b, c, d] := by
  have hlt : ((a * 256 + b) * 256 + c) * 256 + d < UInt32.size := by
    show _ < 4294967296
    omega
  have hval : (UInt32.ofNat (((a * 256 + b) * 256 + c) * 256 + d)).toNat =
      ((a * 256 + b) * 256 + c) * 256 + d := UInt32.toNat_ofNat_of_lt hlt
  rw [octets, hval]
  simp only [List.cons.injEq, and_true]
  omega

/-- **Only what is written is read**: an address has one text. -/
theorem eq_ipv4Text_of_parseIpv4 {s : Str} {ip : UInt32} (h : parseIpv4 s = some ip) :
    s = ipv4Text ip := by
  rw [parseIpv4] at h
  split at h
  · rename_i a b c d hspl
    cases h
    obtain ⟨s₁, rest, hs, h₁, hrest⟩ := map_eq_cons_iff.mp hspl
    obtain ⟨s₂, rest, rfl, h₂, hrest⟩ := map_eq_cons_iff.mp hrest
    obtain ⟨s₃, rest, rfl, h₃, hrest⟩ := map_eq_cons_iff.mp hrest
    obtain ⟨s₄, rest, rfl, h₄, hrest⟩ := map_eq_cons_iff.mp hrest
    obtain rfl := map_eq_nil_iff.mp hrest
    obtain ⟨rfl, ha⟩ := natText_of_parseOctet h₁
    obtain ⟨rfl, hb⟩ := natText_of_parseOctet h₂
    obtain ⟨rfl, hc⟩ := natText_of_parseOctet h₃
    obtain ⟨rfl, hd⟩ := natText_of_parseOctet h₄
    rw [ipv4Text, octets_ofNat ha hb hc hd]
    exact (intercalate_splitOn '.').symm.trans (congrArg _ hs)
  · simp at h

/-! ### IPv6 -/

/-- The eight groups of an IPv6 address. -/
def segments (ip : BitVec 128) : List ℕ :=
  (List.range 8).map fun i => ip.toNat / 65536 ^ (7 - i) % 65536

/-- One group in lower-case hexadecimal. -/
def groupText (n : ℕ) : Str := Nat.toDigits 16 n

/-- A run of groups: where it starts, and how many there are. -/
structure Span where
  start : ℕ
  len : ℕ

/-- The longest run of zero groups, the first one if there are several: the scan
keeps the longest run so far and the one it is in. -/
def longestZeros (groups : List ℕ) : Span :=
  let scan := fun (acc : Span × Span) (group : ℕ × ℕ) =>
    if group.1 = 0 then
      let current : Span := if acc.2.len = 0 then ⟨group.2, 1⟩ else ⟨acc.2.start, acc.2.len + 1⟩
      (if acc.1.len < current.len then current else acc.1, current)
    else (acc.1, ⟨0, 0⟩)
  (groups.zipIdx.foldl scan (⟨0, 0⟩, ⟨0, 0⟩)).1

def groupsText (groups : List ℕ) : Str := join ":" (groups.map groupText)

/-- `Ipv6Addr::to_string`.  An IPv4-mapped address ends in a dotted quad. -/
def ipv6Text (ip : BitVec 128) : Str :=
  if ip.toNat / 2 ^ 32 = 0xFFFF then "::ffff:" ++ ipv4Text (UInt32.ofNat ip.toNat)
  else
    let groups := segments ip
    let zeros := longestZeros groups
    if 1 < zeros.len then
      groupsText (groups.take zeros.start) ++ "::" ++
        groupsText (groups.drop (zeros.start + zeros.len))
    else groupsText groups

example : ipv6Text 0x20010db8000000000001000000000001 = "2001:db8::1:0:0:1" := by
  decide +kernel

/-! ### Bytes -/

/-- Two hexadecimal digits. -/
def hexByte (b : UInt8) : Str := [Nat.digitChar (b.toNat / 16), Nat.digitChar (b.toNat % 16)]

theorem digitChar_hex :
    ∀ n < 16, (Nat.digitChar n).toLower = Nat.digitChar n ∧
      (hexDigit (Nat.digitChar n)).isSome := by
  decide

theorem hexByte_lower {b : UInt8} {c : Char} (h : c ∈ hexByte b) :
    c.toLower = c ∧ (hexDigit c).isSome := by
  have hb : b.toNat < 256 := b.toNat_lt
  simp only [hexByte, mem_cons, not_mem_nil, or_false] at h
  rcases h with rfl | rfl
  · exact digitChar_hex _ (by omega)
  · exact digitChar_hex _ (by omega)

end Dns
