/-
The wire types of `proto/bundle.proto`, as prost hands them to the filter
node.

The control plane fills them through the Python bindings, which refuse an
integer outside the range of its field (`toU32`, `toU64`); the node reads
them as fixed-width integers and lists.
-/
import MantisDns.Text

namespace Pb

/-- `enum Action`. -/
inductive Action
  | unspecified
  | block
  | logOnly
  | allow
  deriving DecidableEq, Repr

/-- The open-enum number an `Action` travels as. -/
def Action.toI32 : Action → Int32
  | .unspecified => 0
  | .block => 1
  | .logOnly => 2
  | .allow => 3

/-- `enum FailurePolicy`. -/
inductive FailurePolicy
  | unspecified
  | failOpen
  | failClosed
  deriving DecidableEq, Repr

/-- `enum BlockMode`. -/
inductive BlockMode
  | unspecified
  | nxdomain
  | zeroIp
  | redirect
  deriving DecidableEq, Repr

/-- `message BloomParams`. -/
structure BloomParams where
  numHashes : UInt32
  numBits : UInt64
  seed : UInt64
  deriving DecidableEq, Repr

/-- `message CategorySet`. -/
structure CategorySet where
  categoryId : Str
  sourceFeedId : Str
  feedVersion : Str
  license : Str
  bloom : Option BloomParams
  bloomBits : List UInt8
  action : Int32
  exactHashes : List UInt64
  deriving DecidableEq, Repr

/-- `message BlockResponse`. -/
structure BlockResponse where
  mode : BlockMode
  redirectIpv4 : Str
  redirectIpv6 : Str
  ttlSeconds : UInt32
  deriving DecidableEq, Repr

/-- `message Bundle`. -/
structure Bundle where
  tenantId : Str
  groupId : Str
  version : UInt64
  builtAtUnix : Int64
  categories : List CategorySet
  allowOverrides : List Str
  denyOverrides : List Str
  onLoadFailure : FailurePolicy
  blockResponse : Option BlockResponse
  signature : List UInt8
  signerKeyId : Str
  deriving DecidableEq, Repr

/-- Assigning a Python integer to a `uint32` field: out of range raises. -/
def toU32 (n : ℕ) : Option UInt32 := if n < 2 ^ 32 then some (UInt32.ofNat n) else none

/-- Assigning a Python integer to a `uint64` or `fixed64` field. -/
def toU64 (n : ℕ) : Option UInt64 := if n < 2 ^ 64 then some (UInt64.ofNat n) else none

theorem toU32_eq_some {n : ℕ} {x : UInt32} (h : toU32 n = some x) : x.toNat = n := by
  rw [toU32] at h
  split at h
  · rw [← Option.some_inj.mp h, UInt32.toNat_ofNat']
    exact Nat.mod_eq_of_lt ‹_›
  · simp at h

theorem toU64_eq_some {n : ℕ} {x : UInt64} (h : toU64 n = some x) : x.toNat = n := by
  rw [toU64] at h
  split at h
  · rw [← Option.some_inj.mp h, UInt64.toNat_ofNat']
    exact Nat.mod_eq_of_lt ‹_›
  · simp at h

end Pb

/-- The numeric order of `u64`. -/
instance linearOrderUInt64 : LinearOrder UInt64 where
  le_refl := UInt64.le_refl
  le_trans _ _ _ := UInt64.le_trans
  le_antisymm _ _ := UInt64.le_antisymm
  le_total := UInt64.le_total
  lt_iff_le_not_ge a b := by
    rw [UInt64.lt_iff_toNat_lt, UInt64.le_iff_toNat_le, UInt64.le_iff_toNat_le]
    omega
  toDecidableLE := inferInstance
