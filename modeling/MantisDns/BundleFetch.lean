/-
Fetching bundles from the control plane.

A node polls one URL for the policy bundle of each group and one for the
upstream bundle of each tenant.  What it stores is what verifies under the
control plane's key and is newer than what it holds; the URL is the only thing
that ties a body to its slot.

* `slots_hold_served` — a slot only ever holds something signed that was served
  for it, and its version never goes down;
* `replay_across_slots` — a signed bundle of another group, or of another
  tenant, is taken when it is newer.
-/
import MantisDns.BundleStore

open Text Function List Option

namespace Node

/-! ### Responses -/

/-- A response of the control plane; a body is missing if reading it fails. -/
structure HttpResponse where
  status : ℕ
  signatureHeader : Option (List UInt8)
  body : Option (List UInt8)

/-- `Response::error_for_status` fails on client and server errors. -/
def HttpResponse.isError (resp : HttpResponse) : Bool := 400 ≤ resp.status && resp.status < 600

/-- The decoders of `prost`, `serde_json` and `hex`. -/
structure Decoders where
  decode : List UInt8 → Option Pb.Bundle
  fromSlice : List UInt8 → Option UpstreamBundle
  hexDecode : Str → Option (List UInt8)

variable {Key : Type}

/-! ### Policy bundles -/

/-- What `fetch_and_publish_bundle` logs when it returns without an error. -/
inductive FetchLog where
  | notCompiled
  | published
  | unchanged
  | rejected (error : PublishError)
  deriving DecidableEq

/-- The errors it returns. -/
inductive FetchError where
  | transport
  | status
  | decode
  deriving DecidableEq

/-- The log line for the result of `try_publish`, which is told apart by the
text of its error. -/
def publishLog : Except PublishError Unit → FetchLog
  | .ok () => .published
  | .error e =>
    if "refusing to publish stale bundle" <:+: e.text then .unchanged else .rejected e

/-- `fetch_and_publish_bundle` on the content of a store, given the response to
its request; no response is a transport error. -/
def fetchAndPublishBundle (crypto : Crypto Key) (decoders : Decoders) (current : Option Pb.Bundle)
    (publicKey : Key) : Option HttpResponse → Except FetchError FetchLog × Option Pb.Bundle
  | none => (.error .transport, current)
  | some resp =>
    if resp.status = 404 then (.ok .notCompiled, current)
    else if resp.isError then (.error .status, current)
    else match resp.body with
      | none => (.error .transport, current)
      | some bytes =>
        match decoders.decode bytes with
        | none => (.error .decode, current)
        | some bundle =>
          ((.ok (publishLog (tryPublish crypto current bundle publicKey).1)),
            (tryPublish crypto current bundle publicKey).2)

/-! ### Upstream bundles -/

inductive UpstreamFetchError where
  | transport
  | status
  | headerMissing
  | headerNotText
  | headerNotHex
  | signatureLength
  | verification
  | json
  deriving DecidableEq

/-- `HeaderValue::to_str`: visible ASCII, blanks and tabs. -/
def headerText (value : List UInt8) : Option Str :=
  if value.all fun b => b == 9 || (32 ≤ b && b < 127) then
    some (value.map fun b => Char.ofNat b.toNat)
  else none

/-- The text of the signature header of a response. -/
def headerSignature (resp : HttpResponse) : Except UpstreamFetchError Str :=
  match resp.signatureHeader with
  | none => .error .headerMissing
  | some value => (headerText value).elim (.error .headerNotText) .ok

/-- The end of `fetch_upstream_bundle`: the signature is over the body as it
came, and only a body that verifies is parsed. -/
def verifyAndParse (crypto : Crypto Key) (decoders : Decoders) (publicKey : Key)
    (body sig : List UInt8) : Except UpstreamFetchError UpstreamBundle :=
  if sig.length ≠ 64 then .error .signatureLength
  else if !crypto.verifyStrict publicKey body sig then .error .verification
  else (decoders.fromSlice body).elim (.error .json) .ok

/-- `fetch_upstream_bundle`, given the response to its request. -/
def fetchUpstreamBundle (crypto : Crypto Key) (decoders : Decoders) (publicKey : Key) :
    Option HttpResponse → Except UpstreamFetchError UpstreamBundle
  | none => .error .transport
  | some resp =>
    if resp.isError then .error .status
    else match headerSignature resp with
      | .error e => .error e
      | .ok sigHex =>
        match resp.body with
        | none => .error .transport
        | some body =>
          match decoders.hexDecode sigHex with
          | none => .error .headerNotHex
          | some sig => verifyAndParse crypto decoders publicKey body sig

/-! ### What is served -/

/-- The response carries the policy bundle. -/
def Serves (decoders : Decoders) (response : Option HttpResponse) (bundle : Pb.Bundle) : Prop :=
  ∃ resp bytes, response = some resp ∧ resp.isError = false ∧ resp.body = some bytes ∧
    decoders.decode bytes = some bundle

/-- The response carries the upstream bundle in this body. -/
def ServesUpstream (decoders : Decoders) (response : Option HttpResponse) (body : List UInt8)
    (bundle : UpstreamBundle) : Prop :=
  ∃ resp, response = some resp ∧ resp.isError = false ∧ resp.body = some body ∧
    decoders.fromSlice body = some bundle

/-- The bytes that a bundle's signature is over. -/
def signedBytes (crypto : Crypto Key) (bundle : Pb.Bundle) : List UInt8 :=
  crypto.encodeToVec { bundle with signature := [] }

section Fetching

variable {crypto : Crypto Key} {decoders : Decoders} {publicKey : Key}
  {response : Option HttpResponse}

theorem verifyStrict_of_verify {bundle : Pb.Bundle} (h : verify crypto bundle publicKey = .ok ()) :
    crypto.verifyStrict publicKey (signedBytes crypto bundle) bundle.signature = true := by
  rw [verify] at h
  split_ifs at h with hlen hsig
  exact hsig

theorem tryPublish_of_verify {bundle : Pb.Bundle} (current : Option Pb.Bundle)
    (h : verify crypto bundle publicKey = .ok ()) :
    (tryPublish crypto current bundle publicKey).2 = newer Pb.Bundle.version bundle current := by
  rw [tryPublish, h]

theorem fetchAndPublishBundle_of_serves {bundle : Pb.Bundle} (current : Option Pb.Bundle)
    (h : Serves decoders response bundle) :
    (fetchAndPublishBundle crypto decoders current publicKey response).2 =
      (tryPublish crypto current bundle publicKey).2 := by
  obtain ⟨resp, bytes, rfl, herr, hbody, hdec⟩ := h
  have h404 : resp.status ≠ 404 := by
    intro h
    simp [HttpResponse.isError, h] at herr
  simp [fetchAndPublishBundle, h404, herr, hbody, hdec]

/-- **What one fetch can do** to a policy store: nothing, or install a served
bundle that verifies and is newer. -/
theorem fetchAndPublishBundle_cases (current : Option Pb.Bundle) :
    (fetchAndPublishBundle crypto decoders current publicKey response).2 = current ∨
      ∃ bundle, Serves decoders response bundle ∧ verify crypto bundle publicKey = .ok () ∧
        installed Pb.Bundle.version current < (bundle.version.toNat : WithBot ℕ) ∧
        (fetchAndPublishBundle crypto decoders current publicKey response).2 = some bundle := by
  by_cases hsvs : ∃ bundle, Serves decoders response bundle
  · obtain ⟨bundle, hsvs⟩ := hsvs
    rw [fetchAndPublishBundle_of_serves current hsvs]
    cases hver : verify crypto bundle publicKey with
    | error =>
      left
      rw [tryPublish, hver]
    | ok =>
      rw [tryPublish_of_verify current hver]
      rcases newer_cases bundle current with ⟨heq, -⟩ | ⟨heq, hlt⟩
      · exact .inl heq
      · exact .inr ⟨bundle, hsvs, hver, hlt, heq⟩
  · -- every exit without a decoded bundle leaves the store alone
    left
    rw [fetchAndPublishBundle.eq_def]
    repeat' split
    all_goals first
      | rfl
      | exact absurd ⟨_, _, _, rfl, eq_false_of_ne_true ‹_›, ‹_›, ‹_›⟩ hsvs

theorem verifyAndParse_eq_ok {body sig : List UInt8} {bundle : UpstreamBundle}
    (h : verifyAndParse crypto decoders publicKey body sig = .ok bundle) :
    crypto.verifyStrict publicKey body sig = true ∧ decoders.fromSlice body = some bundle := by
  rw [verifyAndParse] at h
  split_ifs at h with hlen hsig
  cases hpar : decoders.fromSlice body with
  | none => simp [hpar] at h
  | some b =>
    rw [hpar] at h
    obtain rfl : b = bundle := Except.ok.inj h
    exact ⟨by simpa using hsig, rfl⟩

theorem fetchUpstreamBundle_eq_ok {bundle : UpstreamBundle}
    (h : fetchUpstreamBundle crypto decoders publicKey response = .ok bundle) :
    ∃ body sig, ServesUpstream decoders response body bundle ∧
      crypto.verifyStrict publicKey body sig = true := by
  rw [fetchUpstreamBundle.eq_def] at h
  repeat' split at h
  all_goals first
    | simp at h
    | skip
  rename_i resp herr _ sigHex hhea _ body hbody _ sig hhex
  obtain ⟨hsig, hpar⟩ := verifyAndParse_eq_ok h
  exact ⟨body, sig, ⟨resp, rfl, eq_false_of_ne_true herr, hbody, hpar⟩, hsig⟩

end Fetching

/-! ### The slots of a node -/

/-- The policy store of each group and the upstream store of each tenant. -/
structure Stores where
  policy : Str → Option Pb.Bundle
  upstream : Str → Option UpstreamBundle

def Stores.empty : Stores := ⟨fun _ => none, fun _ => none⟩

/-- One poll: the slot it is for, the key the node holds, and the response that
whoever is on the other side chose. -/
inductive Poll (Key : Type) where
  | bundle (groupId : Str) (publicKey : Key) (response : Option HttpResponse)
  | upstream (tenantId : Str) (publicKey : Key) (response : Option HttpResponse)

def Poll.key : Poll Key → Key
  | .bundle _ publicKey _ => publicKey
  | .upstream _ publicKey _ => publicKey

/-- The effect of a poll on the slots. -/
def Stores.poll (crypto : Crypto Key) (decoders : Decoders) (s : Stores) : Poll Key → Stores
  | .bundle groupId publicKey response =>
    { s with
      policy := update s.policy groupId
        (fetchAndPublishBundle crypto decoders (s.policy groupId) publicKey response).2 }
  | .upstream tenantId publicKey response =>
    match fetchUpstreamBundle crypto decoders publicKey response with
    | .error _ => s
    | .ok bundle =>
      { s with
        upstream := update s.upstream tenantId
          (UpstreamBundleStore.publish (s.upstream tenantId) bundle).2 }

def Stores.polls (crypto : Crypto Key) (decoders : Decoders) (s : Stores) (ps : List (Poll Key)) :
    Stores :=
  ps.foldl (Stores.poll crypto decoders) s

section Slots

variable {crypto : Crypto Key} {decoders : Decoders}

theorem Stores.poll_policy (s : Stores) (p : Poll Key) (g : Str) :
    (s.poll crypto decoders p).policy g = s.policy g ∨
      ∃ publicKey response bundle, p = .bundle g publicKey response ∧
        Serves decoders response bundle ∧ verify crypto bundle publicKey = .ok () ∧
        installed Pb.Bundle.version (s.policy g) < (bundle.version.toNat : WithBot ℕ) ∧
        (s.poll crypto decoders p).policy g = some bundle := by
  cases p with
  | upstream =>
    left
    -- the upstream poll writes no policy slot
    rw [Stores.poll]
    split <;> rfl
  | bundle g' publicKey response =>
    -- only the slot of its own group
    by_cases hg : g = g'
    · subst hg
      have hupd : (s.poll crypto decoders (.bundle g publicKey response)).policy g =
          (fetchAndPublishBundle crypto decoders (s.policy g) publicKey response).2 :=
        update_self ..
      rw [hupd]
      rcases fetchAndPublishBundle_cases (s.policy g) with heq | ⟨b, hsvs, hver, hlt, heq⟩
      · exact .inl heq
      · exact .inr ⟨publicKey, response, b, rfl, hsvs, hver, hlt, heq⟩
    · exact .inl (update_of_ne hg _ _)

theorem Stores.poll_upstream (s : Stores) (p : Poll Key) (t : Str) :
    (s.poll crypto decoders p).upstream t = s.upstream t ∨
      ∃ publicKey response body sig bundle, p = .upstream t publicKey response ∧
        ServesUpstream decoders response body bundle ∧
        crypto.verifyStrict publicKey body sig = true ∧
        installed UpstreamBundle.version (s.upstream t) < (bundle.version.toNat : WithBot ℕ) ∧
        (s.poll crypto decoders p).upstream t = some bundle := by
  cases p with
  | bundle => exact .inl rfl
  | upstream t' publicKey response =>
    rw [Stores.poll]
    split
    · exact .inl rfl
    · rename_i b hfet
      by_cases ht : t = t'
      · subst ht
        obtain ⟨body, sig, hsvs, hsig⟩ := fetchUpstreamBundle_eq_ok hfet
        -- the version decides
        rcases newer_cases b (s.upstream t) with ⟨heq, -⟩ | ⟨heq, hlt⟩
        · exact .inl ((update_self ..).trans heq)
        · exact .inr ⟨publicKey, response, body, sig, b, rfl, hsvs, hsig, hlt,
            (update_self ..).trans heq⟩
      · exact .inl (update_of_ne ht _ _)

/-- Versions never go down, in any slot. -/
theorem Stores.installed_le_polls (s : Stores) (ps : List (Poll Key)) :
    (∀ g, installed Pb.Bundle.version (s.policy g) ≤
        installed Pb.Bundle.version ((s.polls crypto decoders ps).policy g)) ∧
      ∀ t, installed UpstreamBundle.version (s.upstream t) ≤
        installed UpstreamBundle.version ((s.polls crypto decoders ps).upstream t) := by
  induction ps generalizing s with
  | nil => exact ⟨fun _ => le_rfl, fun _ => le_rfl⟩
  | cons p ps ih =>
    obtain ⟨hpol, hups⟩ := ih (s.poll crypto decoders p)
    refine ⟨fun g => le_trans ?_ (hpol g), fun t => le_trans ?_ (hups t)⟩
    · rcases s.poll_policy p g with heq | ⟨-, -, b, -, -, -, hlt, heq⟩
      · rw [heq]
      · rw [heq]
        exact hlt.le
    · rcases s.poll_upstream p t with heq | ⟨-, -, -, -, b, -, -, -, hlt, heq⟩
      · rw [heq]
      · rw [heq]
        exact hlt.le

/-- If each step keeps a slot or installs something that the step vouches for,
then what an initially empty slot holds is vouched for by some step. -/
theorem exists_of_foldl_eq_some {σ α β : Type} (slot : σ → Option β) (step : σ → α → σ)
    (Vouches : α → β → Prop)
    (hstep : ∀ s p, slot (step s p) = slot s ∨ ∃ b, Vouches p b ∧ slot (step s p) = some b)
    {s : σ} (hs : slot s = none) {ps : List α} {b : β} (h : slot (ps.foldl step s) = some b) :
    ∃ p ∈ ps, Vouches p b := by
  induction ps using List.reverseRecOn with
  | nil => exact absurd (hs.symm.trans h) (by simp)
  | append_singleton ps p ih =>
    rw [foldl_append, foldl_cons, foldl_nil] at h
    rcases hstep (ps.foldl step s) p with heq | ⟨b', hb', heq⟩
    · obtain ⟨p', hmem, hvou⟩ := ih (heq ▸ h)
      exact ⟨p', mem_append_left _ hmem, hvou⟩
    · obtain rfl : b' = b := some_inj.mp (heq.symm.trans h)
      exact ⟨p, by simp, hb'⟩

theorem Stores.policy_served {ps : List (Poll Key)} {g : Str} {b : Pb.Bundle}
    (h : (Stores.empty.polls crypto decoders ps).policy g = some b) :
    ∃ publicKey response, Poll.bundle g publicKey response ∈ ps ∧
      Serves decoders response b ∧ verify crypto b publicKey = .ok () := by
  obtain ⟨-, hmem, publicKey, response, rfl, hser⟩ := exists_of_foldl_eq_some
    (fun s : Stores => s.policy g) (Stores.poll crypto decoders)
    (fun p b => ∃ publicKey response, p = .bundle g publicKey response ∧
      Serves decoders response b ∧ verify crypto b publicKey = .ok ())
    (by
      intro s p
      rcases s.poll_policy p g with heq | ⟨publicKey, response, b, hp, hsvs, hver, -, heq⟩
      · exact .inl heq
      · exact .inr ⟨b, ⟨publicKey, response, hp, hsvs, hver⟩, heq⟩) rfl h
  exact ⟨publicKey, response, hmem, hser⟩

theorem Stores.upstream_served {ps : List (Poll Key)} {t : Str} {b : UpstreamBundle}
    (h : (Stores.empty.polls crypto decoders ps).upstream t = some b) :
    ∃ publicKey response body sig, Poll.upstream t publicKey response ∈ ps ∧
      ServesUpstream decoders response body b ∧ crypto.verifyStrict publicKey body sig = true := by
  obtain ⟨-, hmem, publicKey, response, body, sig, rfl, hser⟩ := exists_of_foldl_eq_some
    (fun s : Stores => s.upstream t) (Stores.poll crypto decoders)
    (fun p b => ∃ publicKey response body sig, p = .upstream t publicKey response ∧
      ServesUpstream decoders response body b ∧ crypto.verifyStrict publicKey body sig = true)
    (by
      intro s p
      rcases s.poll_upstream p t with
        heq | ⟨publicKey, response, body, sig, b, hp, hsvs, hsig, -, heq⟩
      · exact .inl heq
      · exact .inr ⟨b, ⟨publicKey, response, body, sig, hp, hsvs, hsig⟩, heq⟩) rfl h
  exact ⟨publicKey, response, body, sig, hmem, hser⟩

/-- **What ties a bundle to its slot.**  Let only messages in `signed` verify
under the keys that the node holds.  After any polls with any responses:

* a policy slot holds a bundle of `signed` that was served for its group, and
  one of its group if all bundles of `signed` served for it are;
* an upstream slot holds a bundle whose body is in `signed` and was served for
  its tenant, and one of its tenant if all such bodies served for it are;
* further polls never lower the version in a slot. -/
theorem slots_hold_served {keys : Set Key} {signed : Set (List UInt8)}
    (hsigned : ∀ publicKey ∈ keys, ∀ message sig,
      crypto.verifyStrict publicKey message sig = true → message ∈ signed)
    (ps : List (Poll Key)) (hkeys : ∀ p ∈ ps, p.key ∈ keys) :
    (∀ g b, (Stores.empty.polls crypto decoders ps).policy g = some b →
      signedBytes crypto b ∈ signed ∧
      (∃ publicKey response, Poll.bundle g publicKey response ∈ ps ∧ Serves decoders response b) ∧
      ((∀ publicKey response b', Poll.bundle g publicKey response ∈ ps →
        Serves decoders response b' → signedBytes crypto b' ∈ signed → b'.groupId = g) →
        b.groupId = g)) ∧
    (∀ t b, (Stores.empty.polls crypto decoders ps).upstream t = some b →
      (∃ publicKey response, ∃ body ∈ signed, Poll.upstream t publicKey response ∈ ps ∧
        ServesUpstream decoders response body b) ∧
      ((∀ publicKey response, ∀ body ∈ signed, ∀ b', Poll.upstream t publicKey response ∈ ps →
        ServesUpstream decoders response body b' → b'.tenantId = t) → b.tenantId = t)) ∧
    ∀ more : List (Poll Key),
      (∀ g, installed Pb.Bundle.version ((Stores.empty.polls crypto decoders ps).policy g) ≤
        installed Pb.Bundle.version
          (((Stores.empty.polls crypto decoders ps).polls crypto decoders more).policy g)) ∧
      ∀ t, installed UpstreamBundle.version ((Stores.empty.polls crypto decoders ps).upstream t) ≤
        installed UpstreamBundle.version
          (((Stores.empty.polls crypto decoders ps).polls crypto decoders more).upstream t) := by
  refine ⟨fun g b h => ?_, fun t b h => ?_, fun more => Stores.installed_le_polls _ more⟩
  · obtain ⟨publicKey, response, hmem, hsvs, hver⟩ := Stores.policy_served h
    have hin : signedBytes crypto b ∈ signed :=
      hsigned publicKey (hkeys _ hmem) _ _ (verifyStrict_of_verify hver)
    exact ⟨hin, ⟨publicKey, response, hmem, hsvs⟩,
      fun hall => hall publicKey response b hmem hsvs hin⟩
  · obtain ⟨publicKey, response, body, sig, hmem, hsvs, hsig⟩ := Stores.upstream_served h
    have hin : body ∈ signed := hsigned publicKey (hkeys _ hmem) _ _ hsig
    exact ⟨⟨publicKey, response, body, hin, hmem, hsvs⟩,
      fun hall => hall publicKey response body hin b hmem hsvs⟩

end Slots

/-! ### Two groups and two tenants under one key -/

def samplePolicyBundle (groupId : Str) (version : UInt64) (mark : UInt8) : Pb.Bundle :=
  ⟨"tenant", groupId, version, 0, [], [], [], .failOpen, none, List.replicate 64 mark, []⟩

def sampleEncode (bundle : Pb.Bundle) : List UInt8 :=
  utf8 bundle.tenantId ++ 0 :: utf8 bundle.groupId ++ [0, UInt8.ofNat bundle.version.toNat]

/-- The messages that the control plane signed, with their signatures. -/
def sampleIssued : List (List UInt8 × List UInt8) :=
  [(sampleEncode (samplePolicyBundle "staff" 1 1), List.replicate 64 1),
    (sampleEncode (samplePolicyBundle "guests" 2 2), List.replicate 64 2),
    (utf8 "tenant-a 1", List.replicate 64 3),
    (utf8 "tenant-b 2", List.replicate 64 4)]

/-- An ideal signature: exactly what was issued verifies. -/
def sampleCrypto : Crypto Unit where
  verifyStrict _ message sig := sampleIssued.contains (message, sig)
  encodeToVec := sampleEncode

def sampleDecoders : Decoders where
  decode bytes :=
    if bytes = [1] then some (samplePolicyBundle "staff" 1 1)
    else if bytes = [2] then some (samplePolicyBundle "guests" 2 2)
    else none
  fromSlice body :=
    if body = utf8 "tenant-a 1" then some ⟨1, "tenant-a"⟩
    else if body = utf8 "tenant-b 2" then some ⟨2, "tenant-b"⟩
    else none
  hexDecode digits :=
    if digits = (List.replicate 64 "03".toList).flatten then some (List.replicate 64 3)
    else if digits = (List.replicate 64 "04".toList).flatten then some (List.replicate 64 4)
    else none

def sampleResponse (body : List UInt8) : Option HttpResponse := some ⟨200, none, some body⟩

/-- A response with the signature header of 64 equal bytes. -/
def sampleSignedResponse (body : List UInt8) (digits : Str) : Option HttpResponse :=
  some ⟨200, some (utf8 (List.replicate 64 digits).flatten), some body⟩

theorem sampleCrypto_signed (message sig : List UInt8)
    (h : sampleCrypto.verifyStrict () message sig = true) :
    message ∈ sampleIssued.map Prod.fst := by
  have hmem : (message, sig) ∈ sampleIssued := List.contains_iff_mem.mp h
  exact List.mem_map_of_mem (f := Prod.fst) hmem

/-- A node that is served what it asked for. -/
theorem staff_slot_holds_staff :
    (Stores.empty.polls sampleCrypto sampleDecoders
        [.bundle "staff" () (sampleResponse [1])]).policy "staff" =
      some (samplePolicyBundle "staff" 1 1) ∧
    (samplePolicyBundle "staff" 1 1).groupId = "staff" := by
  have hslot : (Stores.empty.polls sampleCrypto sampleDecoders
      [.bundle "staff" () (sampleResponse [1])]).policy "staff" =
        some (samplePolicyBundle "staff" 1 1) := by decide +kernel
  have hsig : ∀ publicKey ∈ (Set.univ : Set Unit), ∀ message sig,
      sampleCrypto.verifyStrict publicKey message sig = true →
      message ∈ {m | m ∈ sampleIssued.map Prod.fst} := fun _ _ => sampleCrypto_signed
  refine ⟨hslot, ((slots_hold_served hsig _ fun _ _ => Set.mem_univ _).1 _ _ hslot).2.2 ?_⟩
  rintro publicKey response b hmem ⟨resp, bytes, rfl, -, hbody, hdec⟩ -
  obtain ⟨-, -, hresp⟩ := Poll.bundle.inj (mem_singleton.mp hmem)
  obtain rfl : bytes = [1] := by
    rw [some_inj.mp hresp] at hbody
    exact (some_inj.mp hbody).symm
  exact congrArg Pb.Bundle.groupId (some_inj.mp hdec).symm

/-- Bundles of another group and of another tenant end up in a slot when they
are served for it and are newer. -/
theorem replay_across_slots :
    (∀ message sig, sampleCrypto.verifyStrict () message sig = true →
      message ∈ sampleIssued.map Prod.fst) ∧
    (∃ b, (Stores.empty.polls sampleCrypto sampleDecoders
        [.bundle "staff" () (sampleResponse [1]),
          .bundle "staff" () (sampleResponse [2])]).policy "staff" = some b ∧
      b.groupId = "guests") ∧
    ∃ b, (Stores.empty.polls sampleCrypto sampleDecoders
        [.upstream "tenant-a" ()
            (sampleSignedResponse (utf8 "tenant-a 1") "03"),
          .upstream "tenant-a" ()
            (sampleSignedResponse (utf8 "tenant-b 2") "04")]).upstream
          "tenant-a" = some b ∧
      b.tenantId = "tenant-b" :=
  ⟨sampleCrypto_signed, ⟨samplePolicyBundle "guests" 2 2, by decide +kernel, rfl⟩,
    ⟨2, "tenant-b"⟩, by decide +kernel, rfl⟩

end Node
