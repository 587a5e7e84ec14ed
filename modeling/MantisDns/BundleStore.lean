/-
The filter node's bundle stores.

`BundleStore::try_publish` verifies a policy bundle and publishes it through
one `rcu`; `UpstreamBundleStore::publish` does the same with an upstream bundle
that was verified when it was fetched.

* `tryPublish`, `UpstreamBundleStore.publish` — the two operations;
* `stores_linearizable` — both stores under arbitrary concurrent calls.
-/
import MantisDns.Bundle
import MantisDns.VersionedStore

open Text

namespace Node

/-! ### Signatures -/

/-- What `verify` takes from other crates: the strict check of `ed25519_dalek`
under a verifying key, and the serialisation of `prost`. -/
structure Crypto (Key : Type) where
  verifyStrict : Key → List UInt8 → List UInt8 → Bool
  encodeToVec : Pb.Bundle → List UInt8

/-- `VerifyError`. -/
inductive VerifyError where
  | missingSignature
  | invalidSignature
  deriving DecidableEq

def VerifyError.text : VerifyError → Str
  | .missingSignature => "signature missing"
  | .invalidSignature => "signature invalid"

variable {Key : Type}

/-- `verify`: the signature is over the message with `signature` cleared. -/
def verify (crypto : Crypto Key) (bundle : Pb.Bundle) (publicKey : Key) : Except VerifyError Unit :=
  -- 64 bytes are what `Signature::from_slice` asks for, so it does not fail after this
  if bundle.signature.length ≠ 64 then .error .missingSignature
  else if crypto.verifyStrict publicKey (crypto.encodeToVec { bundle with signature := [] })
      bundle.signature then .ok ()
  else .error .invalidSignature

/-! ### The policy bundle store -/

/-- The errors of `try_publish`. -/
inductive PublishError where
  | verify (error : VerifyError)
  | stale (incoming current : UInt64)
  deriving DecidableEq

def PublishError.text : PublishError → Str
  | .verify e => e.text
  | .stale incoming current =>
    "refusing to publish stale bundle: incoming version " ++ natText incoming.toNat ++
      " <= current " ++ natText current.toNat

/-- The result that `try_publish` reads off the content `rcu` returns. -/
def publishResult (bundle : Pb.Bundle) : Option Pb.Bundle → Except PublishError Unit
  | some prev =>
    if bundle.version ≤ prev.version then .error (.stale bundle.version prev.version) else .ok ()
  | none => .ok ()

/-- `BundleStore::try_publish` on the content of the store. -/
def tryPublish (crypto : Crypto Key) (current : Option Pb.Bundle) (bundle : Pb.Bundle)
    (publicKey : Key) : Except PublishError Unit × Option Pb.Bundle :=
  match verify crypto bundle publicKey with
  | .error e => (.error (.verify e), current)
  | .ok () => (publishResult bundle current, newer Pb.Bundle.version bundle current)

theorem publishResult_eq_ok (bundle : Pb.Bundle) (prev : Option Pb.Bundle) :
    publishResult bundle prev = .ok () ↔ ∀ p ∈ prev, p.version < bundle.version := by
  cases prev with
  | none | some => simp [publishResult]

/-- The store as a versioned one. -/
def bundleStore : Versioned Pb.Bundle (Except PublishError Unit) where
  version := Pb.Bundle.version
  outcome := publishResult
  Ok r := r = .ok ()
  ok_outcome := publishResult_eq_ok

/-- Concurrent calls of `try_publish`, each with its bundle and key. -/
def tryPublishCalls {ι : Type} (crypto : Crypto Key) (initial : Option Pb.Bundle)
    (bundle : ι → Pb.Bundle) (publicKey : ι → Key) : Calls bundleStore ι where
  initial := initial
  offer := bundle
  reject i :=
    match verify crypto (bundle i) (publicKey i) with
    | .error e => some (.error (.verify e))
    | .ok () => none
  not_ok_of_reject i r h := by
    split at h
    · cases h
      exact fun hok => absurd (show Except.error _ = Except.ok () from hok) (by simp)
    · simp at h

/-- A call that runs alone is `tryPublish`. -/
theorem tryPublishCalls_alone {ι : Type} (crypto : Crypto Key) (initial : Option Pb.Bundle)
    (bundle : ι → Pb.Bundle) (publicKey : ι → Key) (i : ι) (current : Option Pb.Bundle) :
    (tryPublishCalls crypto initial bundle publicKey).alone i current =
      tryPublish crypto current (bundle i) (publicKey i) := by
  rw [Calls.alone, tryPublish]
  simp only [tryPublishCalls]
  cases verify crypto (bundle i) (publicKey i) <;> rfl

/-! ### The upstream bundle store -/

/-- `UpstreamBundle`, as far as storing it goes. -/
structure UpstreamBundle where
  version : UInt64
  tenantId : Str
  deriving DecidableEq

namespace UpstreamBundleStore

/-- Whether `publish` reports the bundle as published. -/
def published (bundle : UpstreamBundle) (prev : Option UpstreamBundle) : Bool :=
  prev.all fun p => p.version < bundle.version

/-- `UpstreamBundleStore::publish` on the content of the store. -/
def publish (current : Option UpstreamBundle) (bundle : UpstreamBundle) :
    Bool × Option UpstreamBundle :=
  (published bundle current, newer UpstreamBundle.version bundle current)

def store : Versioned UpstreamBundle Bool where
  version := UpstreamBundle.version
  outcome := published
  Ok r := r = true
  ok_outcome bundle prev := by cases prev <;> simp [published]

/-- Concurrent calls of `publish`. -/
def calls {ι : Type} (initial : Option UpstreamBundle) (bundle : ι → UpstreamBundle) :
    Calls store ι where
  initial := initial
  offer := bundle
  reject _ := none
  not_ok_of_reject _ _ h := absurd h (by simp)

theorem calls_alone {ι : Type} (initial : Option UpstreamBundle) (bundle : ι → UpstreamBundle)
    (i : ι) (current : Option UpstreamBundle) :
    (calls initial bundle).alone i current = publish current (bundle i) := rfl

end UpstreamBundleStore

/-! ### Concurrent publishers -/

/-- **Both stores are monotone and linearizable**: for all initial contents, all
sets of calls and all interleavings of their atomic steps, where a call alone is
the operation of the source. -/
theorem stores_linearizable {ι : Type} [DecidableEq ι] (crypto : Crypto Key)
    (initial : Option Pb.Bundle) (bundle : ι → Pb.Bundle) (publicKey : ι → Key)
    (initial' : Option UpstreamBundle) (bundle' : ι → UpstreamBundle) :
    (Calls.Linearizable (tryPublishCalls crypto initial bundle publicKey) ∧
      ∀ i current, (tryPublishCalls crypto initial bundle publicKey).alone i current =
        tryPublish crypto current (bundle i) (publicKey i)) ∧
    Calls.Linearizable (UpstreamBundleStore.calls initial' bundle') ∧
      ∀ i current, (UpstreamBundleStore.calls initial' bundle').alone i current =
        UpstreamBundleStore.publish current (bundle' i) :=
  ⟨⟨Calls.linearizable _, tryPublishCalls_alone crypto initial bundle publicKey⟩,
    Calls.linearizable _, UpstreamBundleStore.calls_alone initial' bundle'⟩

end Node
