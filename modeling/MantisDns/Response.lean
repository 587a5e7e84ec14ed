/-
The response builder: `build_response` and `resolve_records` of
`mantis-filter/src/lib.rs`.

A call returns the response, the cache it leaves and the trace of what it did:
answers taken from the cache, calls of the forwarder, telemetry events.  The
forwarder, hickory, the clock and the process environment are arguments.

* `buildResponse_trace` — every way out of `build_response`, with its trace;
* `forwarding_discipline` — the forwarder is called at most once, only with
  RD=1 and only for names outside all hosted and builtin zones;
* `noBypass_iff` — a name the policy blocks is resolved exactly when it is the
  external end of a local CNAME chain, and `cname_target_bypass`, such a chain.
-/
import MantisDns.Cache
import MantisDns.Decide
import MantisDns.Protocol
import MantisDns.Zone

open Text Dns List
open Option hiding join

namespace Node

/-! ### The surroundings -/

/-- `TtlPolicy`. -/
structure TtlPolicy where
  minTtlS : UInt32
  maxTtlS : UInt32
  negativeTtlS : UInt32
  deriving DecidableEq

/-- `TtlPolicy::clamp_positive`. -/
def TtlPolicy.clampPositive (policy : TtlPolicy) (ttl : UInt32) : UInt32 :=
  let ttl := max ttl policy.minTtlS
  if policy.maxTtlS > 0 then min ttl policy.maxTtlS else ttl

/-- `TtlPolicy::negative_ttl`. -/
def TtlPolicy.negativeTtl (policy : TtlPolicy) : UInt32 :=
  if policy.negativeTtlS > 0 then policy.negativeTtlS else 60

/-- The result of a lookup: records with their DNSSEC verdict, one of the two
negative `ResolveError`s with the upstream's SOA, or any other error. -/
inductive ForwardResult
  | ok (records : List Record) (authenticated : Bool)
  | nxDomain (soa : Option Record)
  | noRecordsFound (soa : Option Record)
  | failed
  deriving DecidableEq

/-- The arguments of `lookup_scoped`. -/
structure ForwardCall where
  qname : Str
  qtype : RecordType
  categories : List Str
  groupId : Option Str
  deriving DecidableEq

/-- `Forwarder`. -/
structure Forwarder where
  lookupScoped : ForwardCall → ForwardResult
  negativeTtlOverride : ForwardCall → Option UInt32
  ttlPolicy : TtlPolicy

/-- The `decision` of a query event. -/
inductive EventDecision
  | stubZone
  | block
  | allow
  deriving DecidableEq

/-- `QueryEventInput`, without its timings.  A stub-zone event carries no rule
of `decide`. -/
structure QueryEvent where
  groupId : Str
  clientIp : IpAddr
  qname : Str
  qtype : RecordType
  decision : EventDecision
  matchedRule : Option MatchedRule
  matchedCategory : Option Str
  matchedFeedId : Option Str
  responseCode : ResponseCode
  cacheHit : Option Bool
  deriving DecidableEq

/-- What a call does besides answering. -/
inductive Effect
  | cacheHit (qname : Str) (qtype : RecordType)
  | forward (call : ForwardCall)
  | event (e : QueryEvent)
  deriving DecidableEq

/-- The process around `build_response`. -/
structure NodeEnv where
  hickory : Hickory
  /-- `CookieSecret::server_cookie` under the process's secret. -/
  serverCookie : IpAddr → List UInt8 → List UInt8
  /-- `MANTIS_NODE_NAME`. -/
  nodeNameVar : Option Str
  /-- `/proc/sys/kernel/hostname`. -/
  hostname : Option Str
  /-- `MANTIS_BOOTSTRAP_FAIL_OPEN`. -/
  bootstrapVar : Option Str
  iter : IterationOrder
  /-- The times at which the cache is read and written. -/
  readAt : ℕ
  writeAt : ℕ

/-- `bootstrap_fail_open`. -/
def bootstrapFailOpen (env : NodeEnv) : Bool :=
  env.bootstrapVar.any fun v => lowerAscii v == "true" || v == "1"

/-- `node_name`. -/
def nodeName (env : NodeEnv) : Option Str :=
  (env.nodeNameVar.filter (· ≠ [])).or ((env.hostname.map trim).filter (· ≠ []))

/-! ### `resolve_records` -/

/-- What `resolve_records` leaves. -/
structure Resolved where
  hit : Bool
  response : Message
  cache : DnsCache
  trace : List Effect

/-- The response to a cache hit. -/
def serveHit (response : Message) : CacheLookup → Message
  | .records rs authenticated =>
    { response with
      responseCode := .noError
      authenticData := authenticated
      answers := response.answers ++ rs }
  | .negative .nxDomain soa =>
    { response with
      responseCode := .nxDomain
      nameServers := response.nameServers ++ soa.toList }
  | .negative .noData soa =>
    { response with
      responseCode := .noError
      nameServers := response.nameServers ++ soa.toList }
  | .negative .servFail _ => { response with responseCode := .servFail }

/-- `SERVFAIL_CACHE_TTL_S`. -/
def servfailCacheTtlS : UInt32 := 30

/-- The two negative answers of the upstream: its SOA with the tenant's TTL. -/
def serveNegative (env : NodeEnv) (call : ForwardCall) (kind : NegativeKind) (rcode : ResponseCode)
    (soa : Option Record) (ttl : UInt32) (cache : DnsCache) (response : Message) :
    Message × DnsCache :=
  let soa := soa.map fun r => { r with ttl }
  ({ response with
      responseCode := rcode
      nameServers := response.nameServers ++ soa.toList },
    cache.putNegative env.iter env.writeAt call.qname call.qtype.toU16 kind soa ttl)

/-- The response to a forwarder result, and what is cached of it. -/
def serveForward (env : NodeEnv) (policy : TtlPolicy) (negativeTtl : UInt32) (call : ForwardCall)
    (cache : DnsCache) (response : Message) : ForwardResult → Message × DnsCache
  | .ok [] _ => serveNegative env call .noData .noError none negativeTtl cache response
  | .ok (r :: rs) authenticated =>
    let rawTtl := rs.foldl (fun m r => min m r.ttl) r.ttl
    let ttl := policy.clampPositive rawTtl
    let records := (r :: rs).map fun r => { r with ttl }
    ({ response with
        responseCode := .noError
        authenticData := authenticated
        answers := response.answers ++ records },
      cache.put env.iter env.writeAt call.qname call.qtype.toU16 records authenticated ttl)
  | .nxDomain soa => serveNegative env call .nxDomain .nxDomain soa negativeTtl cache response
  | .noRecordsFound soa => serveNegative env call .noData .noError soa negativeTtl cache response
  | .failed => serveNegative env call .servFail .servFail none servfailCacheTtlS cache response

/-- `resolve_records`. -/
def resolveRecords (env : NodeEnv) (forwarder : Forwarder) (call : ForwardCall)
    (recursionDesired : Bool) (cache : DnsCache) (response : Message) : Resolved :=
  match cache.get env.readAt call.qname call.qtype.toU16 with
  | some hit =>
    ⟨true, serveHit response hit, cache, [.cacheHit call.qname call.qtype]⟩
  | none =>
    if !recursionDesired then
      ⟨false, { response with responseCode := .refused }, cache, []⟩
    else
      let policy := forwarder.ttlPolicy
      let negativeTtl := (forwarder.negativeTtlOverride call).getD policy.negativeTtl
      let served := serveForward env policy negativeTtl call cache response
        (forwarder.lookupScoped call)
      ⟨false, served.1, served.2, [.forward call]⟩

/-! ### `build_response` -/

/-- What `build_response` leaves. -/
structure Outcome where
  response : Option Message
  cache : DnsCache
  trace : List Effect

/-- The response every reply starts from. -/
def baseResponse (query : Message) : Message :=
  { Message.new with
    id := query.id
    messageType := .response
    opCode := query.opCode
    recursionDesired := query.recursionDesired
    recursionAvailable := true
    queries := query.queries }

/-- The protocol part: no reply at all, an early reply, or the response so far
with the question to process. -/
def gate (env : NodeEnv) (query : Message) (clientIp : IpAddr) :
    Except (Option Message) (Message × Query) :=
  if !shouldProcess query then .error none
  else
    let negotiated := negotiateEdns query (baseResponse query)
    if negotiated.2 then .error (some { negotiated.1 with responseCode := .badVers })
    else
      let response := negotiateCookie env.serverCookie query negotiated.1 clientIp
      let node := (nodeName env).getD "mantis-filter"
      match validateQuery env.hickory query node, query.queries with
      | .process, question :: _ => .ok (response, question)
      | .process, [] => .error none
      | .answer records, _ =>
        .error (some { response with
          responseCode := .noError
          answers := response.answers ++ records })
      | .reject code, _ => .error (some { response with responseCode := code })

/-- `emit_zone_telemetry`. -/
def zoneEvent (bundle : Option Pb.Bundle) (clientIp : IpAddr) (qname : Str) (qtype : RecordType)
    (response : Message) : Effect :=
  .event
    { groupId := (bundle.map (·.groupId)).getD []
      clientIp, qname, qtype
      decision := .stubZone
      matchedRule := none
      matchedCategory := none
      matchedFeedId := none
      responseCode := response.responseCode
      cacheHit := none }

/-- The addresses and the TTL of a sinkholing block mode. -/
def blockAddresses (bundle : Pb.Bundle) :
    Option (Option UInt32 × Option (BitVec 128) × UInt32) :=
  bundle.blockResponse.bind fun block =>
    let ttl := if block.ttlSeconds > 0 then block.ttlSeconds else 30
    match block.mode with
    | .redirect => some (parseIpv4 block.redirectIpv4, parseIpv6 block.redirectIpv6, ttl)
    | .zeroIp => some (some 0, some 0, ttl)
    | .nxdomain | .unspecified => none

/-- `apply_block_response`. -/
def applyBlockResponse (H : Hickory) (bundle : Pb.Bundle) (qname : Str) (qtype : RecordType)
    (response : Message) : Message :=
  match blockAddresses bundle with
  | none => { response with responseCode := .nxDomain }
  | some (v4, v6, ttl) =>
    let rdata : Option RData :=
      match qtype with
      | .a => v4.map .a
      | .aaaa => v6.map .aaaa
      | _ => none
    match rdata, H.fromUtf8 qname with
    | some data, some name =>
      { response with responseCode := .noError, answers := response.answers ++ [⟨name, ttl, data⟩] }
    | none, _ => { response with responseCode := .noError }
    | some _, none => { response with responseCode := .nxDomain }

/-- The text of the extended error: the category, else the rule. -/
def blockReason (outcome : DecisionOutcome) : Str :=
  match outcome.matchedCategory with
  | some c => "category=" ++ c
  | none => outcome.matchedRule.text

/-- The reply to a blocked name. -/
def blockReply (H : Hickory) (bundle : Pb.Bundle) (qname : Str) (qtype : RecordType)
    (response : Message) : Message :=
  attachExtendedError (applyBlockResponse H bundle qname qtype response) edeFiltered
    (blockReason (decide bundle qname))

/-- The telemetry of a policy decision. -/
def policyEvent (bundle : Pb.Bundle) (clientIp : IpAddr) (qname : Str) (qtype : RecordType)
    (response : Message) (cacheHit : Option Bool) : Effect :=
  let outcome := decide bundle qname
  .event
    { groupId := bundle.groupId
      clientIp, qname, qtype
      decision := match outcome.decision with
        | .block => .block
        | .allow => .allow
      matchedRule := some outcome.matchedRule
      matchedCategory := outcome.matchedCategory
      matchedFeedId := outcome.matchedFeedId
      responseCode := response.responseCode
      cacheHit }

/-- The arguments of `resolve_records` for a name under a tenant's policy. -/
def policyCall (bundle : Pb.Bundle) (qname : Str) (qtype : RecordType) : ForwardCall :=
  ⟨qname, qtype, matchedCategories bundle qname, some bundle.groupId⟩

section Build

variable (env : NodeEnv) (forwarder : Forwarder) (query : Message) (bundle : Option Pb.Bundle)
  (zones : Zone.ZoneData) (clientIp : IpAddr) (cache : DnsCache) (unmatchedRoute : Bool)

/-- The call for the external end of a local CNAME chain, if it is to be
resolved. -/
def cnameCall (qtype : RecordType) (recurseTarget : Option Str) :
    Option ForwardCall :=
  if query.recursionDesired then
    match recurseTarget, bundle with
    | some target, some bundle => some (policyCall bundle (target ++ ".") qtype)
    | _, _ => none
  else none

/-- The `ZoneLookup::Answer` branch. -/
def answerZone (response : Message) (qname : Str) (qtype : RecordType) (records : List Record)
    (soa : Option Record) (recurseTarget : Option Str) : Outcome :=
  let response :=
    { response with authoritative := true, responseCode := .noError,
                    answers := response.answers ++ records }
  let resolved : Resolved :=
    match cnameCall query bundle qtype recurseTarget with
    | none => ⟨false, response, cache, []⟩
    | some call =>
      let resolved := resolveRecords env forwarder call true cache response
      -- the locally authored CNAME is not validated, whatever its target is
      { resolved with response := { resolved.response with authenticData := false } }
  let response :=
    if records = [] then
      { resolved.response with nameServers := resolved.response.nameServers ++ soa.toList }
    else resolved.response
  ⟨some response, resolved.cache,
    resolved.trace ++ [zoneEvent bundle clientIp qname qtype response]⟩

/-- The `ZoneLookup::NxDomain` branch. -/
def answerNxDomain (response : Message) (qname : Str) (qtype : RecordType) (soa : Option Record) :
    Outcome :=
  let response :=
    { response with authoritative := true, responseCode := .nxDomain,
                    nameServers := response.nameServers ++ soa.toList }
  ⟨some response, cache, [zoneEvent bundle clientIp qname qtype response]⟩

/-- The branch before any bundle has loaded. -/
def answerNoBundle (response : Message) (qname : Str) (qtype : RecordType) : Outcome :=
  if !unmatchedRoute && bootstrapFailOpen env then
    let resolved := resolveRecords env forwarder ⟨qname, qtype, [], none⟩ query.recursionDesired
      cache response
    ⟨some resolved.response, resolved.cache, resolved.trace⟩
  else
    ⟨some { response with recursionAvailable := false, responseCode := .servFail }, cache, []⟩

/-- The policy branch. -/
def answerPolicy (bundle : Pb.Bundle) (response : Message) (qname : Str) (qtype : RecordType) :
    Outcome :=
  match (decide bundle qname).decision with
  | .block =>
    let response := blockReply env.hickory bundle qname qtype response
    ⟨some response, cache, [policyEvent bundle clientIp qname qtype response none]⟩
  | .allow =>
    let resolved := resolveRecords env forwarder (policyCall bundle qname qtype)
      query.recursionDesired cache response
    ⟨some resolved.response, resolved.cache,
      resolved.trace ++ [policyEvent bundle clientIp qname qtype resolved.response
        (some resolved.hit)]⟩

/-- `build_response`. -/
def buildResponse : Outcome :=
  match gate env query clientIp with
  | .error reply => ⟨reply, cache, []⟩
  | .ok (response, question) =>
    let qname := env.hickory.toUtf8 question.name
    let qtype := question.queryType
    match Zone.lookup env.hickory zones qname qtype with
    | .answer records soa recurseTarget =>
      answerZone env forwarder query bundle clientIp cache response qname qtype records soa
        recurseTarget
    | .nxDomain soa => answerNxDomain bundle clientIp cache response qname qtype soa
    | .notLocal =>
      match bundle with
      | none => answerNoBundle env forwarder query cache unmatchedRoute response qname qtype
      | some bundle =>
        answerPolicy env forwarder query clientIp cache bundle response qname qtype

end Build

/-! ### Traces -/

/-- The trace looked `name` up, in the cache or upstream. -/
def LooksUp (trace : List Effect) (name : Str) : Prop :=
  (∃ qtype, .cacheHit name qtype ∈ trace) ∨ ∃ call, .forward call ∈ trace ∧ call.qname = name

theorem resolveRecords_trace (env : NodeEnv) (forwarder : Forwarder) (call : ForwardCall)
    (rd : Bool) (cache : DnsCache) (response : Message) :
    (resolveRecords env forwarder call rd cache response).trace =
        [.cacheHit call.qname call.qtype] ∨
    (rd = false ∧ (resolveRecords env forwarder call rd cache response).trace = [] ∧
      (resolveRecords env forwarder call rd cache response).response.responseCode = .refused) ∨
    (rd = true ∧ (resolveRecords env forwarder call rd cache response).trace =
        [.forward call]) := by
  rw [resolveRecords]
  split
  · exact .inl rfl
  · cases rd with
    | false => exact .inr (.inl ⟨rfl, rfl, rfl⟩)
    | true => exact .inr (.inr ⟨rfl, rfl⟩)

/-- An effect that is telemetry. -/
def Effect.isEvent : Effect → Bool
  | .event _ => true
  | _ => false

/-- An effect that calls the forwarder. -/
def Effect.isForward : Effect → Bool
  | .forward _ => true
  | _ => false

section Exits

variable (env : NodeEnv) (forwarder : Forwarder) (query : Message) (bundle : Option Pb.Bundle)
  (zones : Zone.ZoneData) (clientIp : IpAddr) (cache : DnsCache) (unmatchedRoute : Bool)

/-- The zone lookup of a question. -/
def lookupQuestion (question : Query) : Zone.ZoneLookup :=
  Zone.lookup env.hickory zones (env.hickory.toUtf8 question.name) question.queryType

/-- What `build_response` hands to `resolve_records`, if anything: the
arguments and the RD bit. -/
def resolution : Option (ForwardCall × Bool) :=
  match gate env query clientIp with
  | .error _ => none
  | .ok (_, question) =>
    match lookupQuestion env zones question, bundle with
    | .answer _ _ target, bundle =>
      (cnameCall query bundle question.queryType target).map (·, true)
    | .nxDomain _, _ => none
    | .notLocal, none =>
      if !unmatchedRoute && bootstrapFailOpen env then
        some (⟨env.hickory.toUtf8 question.name, question.queryType, [], none⟩,
          query.recursionDesired)
      else none
    | .notLocal, some b =>
      match (decide b (env.hickory.toUtf8 question.name)).decision with
      | .block => none
      | .allow =>
        some (policyCall b (env.hickory.toUtf8 question.name) question.queryType,
          query.recursionDesired)

/-- The lookups of a resolution. -/
def resolutionTrace (response : Message) : List Effect :=
  match resolution env query bundle zones clientIp unmatchedRoute with
  | none => []
  | some (call, rd) => (resolveRecords env forwarder call rd cache response).trace

/-- **Every way out of `build_response`**: its trace is that of its one
resolution, if there is one, followed by telemetry. -/
theorem buildResponse_trace :
    ∃ response events, (∀ e ∈ events, Effect.isEvent e = true) ∧
      (buildResponse env forwarder query bundle zones clientIp cache unmatchedRoute).trace =
        resolutionTrace env forwarder query bundle zones clientIp cache unmatchedRoute response ++
          events := by
  rw [buildResponse]
  simp only [resolutionTrace, resolution, lookupQuestion]
  -- the exits in the order of the source: gate, zones, no bundle, verdict
  cases hgate : gate env query clientIp with
  | error => exact ⟨.new, [], by simp, rfl⟩
  | ok p =>
    obtain ⟨response, question⟩ := p
    simp only
    cases hlk : Zone.lookup env.hickory zones (env.hickory.toUtf8 question.name)
        question.queryType with
    | answer records soa target =>
      simp only [answerZone]
      cases hcall : cnameCall query bundle question.queryType target with
      | none => exact ⟨.new, _, by simp [zoneEvent, Effect.isEvent], rfl⟩
      | some => exact ⟨_, _, by simp [zoneEvent, Effect.isEvent], rfl⟩
    | nxDomain soa => exact ⟨.new, _, by simp [zoneEvent, Effect.isEvent], rfl⟩
    | notLocal =>
      cases bundle with
      | none =>
        simp only [answerNoBundle]
        split
        · exact ⟨_, [], by simp, (append_nil _).symm⟩
        · exact ⟨.new, [], by simp, rfl⟩
      | some b =>
        simp only [answerPolicy]
        cases hd : (decide b (env.hickory.toUtf8 question.name)).decision with
        | block => exact ⟨.new, _, by simp [policyEvent, Effect.isEvent], rfl⟩
        | allow => exact ⟨_, _, by simp [policyEvent, Effect.isEvent], rfl⟩

variable {env forwarder query bundle zones clientIp cache unmatchedRoute}
variable {call : ForwardCall} {rd : Bool}

theorem cnameCall_eq_some {qtype : RecordType} {target : Option Str} :
    cnameCall query bundle qtype target = some call ↔
      ∃ t b, target = some t ∧ bundle = some b ∧ query.recursionDesired = true ∧
        call = policyCall b (t ++ ".") qtype := by
  rw [cnameCall.eq_def]
  cases query.recursionDesired <;> cases target <;> cases bundle <;> simp [eq_comm]

/-- Where a resolution comes from: the external end of a local CNAME chain, or
the question itself when it is not local. -/
theorem resolution_eq_some
    (h : resolution env query bundle zones clientIp unmatchedRoute = some (call, rd)) :
    ∃ response question, gate env query clientIp = .ok (response, question) ∧
      ((∃ records soa t b, lookupQuestion env zones question = .answer records soa (some t) ∧
          bundle = some b ∧ query.recursionDesired = true ∧ rd = true ∧
          call = policyCall b (t ++ ".") question.queryType) ∨
        (lookupQuestion env zones question = .notLocal ∧ rd = query.recursionDesired ∧
          call.qname = env.hickory.toUtf8 question.name ∧
          ((bundle = none ∧ unmatchedRoute = false) ∨ ∃ b, bundle = some b ∧
            (decide b (env.hickory.toUtf8 question.name)).decision = .allow))) := by
  rw [resolution] at h
  cases hgate : gate env query clientIp with
  | error => simp [hgate] at h
  | ok p =>
    obtain ⟨response, question⟩ := p
    refine ⟨response, question, rfl, ?_⟩
    simp only [hgate] at h
    cases hlk : lookupQuestion env zones question with
    | answer records soa =>
      simp only [hlk, map_eq_some_iff] at h
      obtain ⟨c, hc, hpair⟩ := h
      rw [Prod.mk.injEq] at hpair
      obtain ⟨rfl, rfl⟩ := hpair
      obtain ⟨t, b, rfl, rfl, hrd, rfl⟩ := cnameCall_eq_some.mp hc
      exact .inl ⟨records, soa, t, b, rfl, rfl, hrd, rfl, rfl⟩
    | nxDomain => simp [hlk] at h
    | notLocal =>
      refine .inr ⟨rfl, ?_⟩
      cases bundle with
      | none =>
        simp only [hlk] at h
        obtain ⟨hopen, h⟩ := ite_none_right_eq_some.mp h
        rw [some_inj, Prod.mk.injEq] at h
        obtain ⟨rfl, rfl⟩ := h
        rw [Bool.and_eq_true, Bool.not_eq_true'] at hopen
        exact ⟨rfl, rfl, .inl ⟨rfl, hopen.1⟩⟩
      | some b =>
        simp only [hlk] at h
        cases hd : (decide b (env.hickory.toUtf8 question.name)).decision with
        | block => simp [hd] at h
        | allow =>
          simp only [hd, some_inj, Prod.mk.injEq] at h
          obtain ⟨rfl, rfl⟩ := h
          exact ⟨rfl, rfl, .inr ⟨b, rfl, hd⟩⟩

theorem mem_trace_of_not_event {e : Effect} (he : e.isEvent = false)
    (h : e ∈ (buildResponse env forwarder query bundle zones clientIp cache unmatchedRoute).trace) :
    ∃ call rd response,
      resolution env query bundle zones clientIp unmatchedRoute = some (call, rd) ∧
        e ∈ (resolveRecords env forwarder call rd cache response).trace := by
  obtain ⟨response, events, heve, heq⟩ := buildResponse_trace env forwarder query bundle zones
    clientIp cache unmatchedRoute
  rw [heq, mem_append] at h
  rcases h with h | h
  · rw [resolutionTrace] at h
    cases hres : resolution env query bundle zones clientIp unmatchedRoute with
    | none => simp [hres] at h
    | some p =>
      simp only [hres] at h
      exact ⟨p.1, p.2, response, rfl, h⟩
  · rw [heve e h] at he
    simp at he

variable (forwarder cache) in
theorem resolution_prefix_trace
    (h : resolution env query bundle zones clientIp unmatchedRoute = some (call, rd)) :
    ∃ response, (resolveRecords env forwarder call rd cache response).trace <+:
      (buildResponse env forwarder query bundle zones clientIp cache unmatchedRoute).trace := by
  obtain ⟨response, events, -, heq⟩ := buildResponse_trace env forwarder query bundle zones
    clientIp cache unmatchedRoute
  refine ⟨response, events, ?_⟩
  rw [heq, resolutionTrace, h]

theorem resolution_of_forward (h : Effect.forward call ∈
      (buildResponse env forwarder query bundle zones clientIp cache unmatchedRoute).trace) :
    resolution env query bundle zones clientIp unmatchedRoute = some (call, true) := by
  obtain ⟨call', rd, response, hres, hmem⟩ := mem_trace_of_not_event rfl h
  rcases resolveRecords_trace env forwarder call' rd cache response with
    htra | ⟨-, htra, -⟩ | ⟨hrd, htra⟩
  · rw [htra] at hmem
    simp at hmem
  · rw [htra] at hmem
    simp at hmem
  · rw [htra, mem_singleton, Effect.forward.injEq] at hmem
    rw [hres, hrd, hmem]

theorem not_isLocal_of_resolution
    (h : resolution env query bundle zones clientIp unmatchedRoute = some (call, rd)) :
    ¬Zone.IsLocal zones (Zone.normalize call.qname) := by
  obtain ⟨response, question, -, ⟨records, soa, t, b, hlk, -, -, -, rfl⟩ |
    ⟨hlk, -, hname, -⟩⟩ := resolution_eq_some h
  · obtain ⟨hnot, hnorm⟩ := Zone.lookup_recurseTarget hlk
    rw [policyCall, Zone.normalize_concat_dot hnorm]
    exact hnot
  · rw [hname]
    exact Zone.lookup_eq_notLocal.mp hlk

variable (env forwarder query bundle zones clientIp cache unmatchedRoute)

/-- **Forwarding discipline.**  The forwarder is called only with names that
lie in no tenant zone and no builtin zone, only if the query has RD=1, never
for an unmatched route without a bundle, and at most once; and a message with
QR=1 gets no response and has no effect. -/
theorem forwarding_discipline :
    (∀ call, Effect.forward call ∈
        (buildResponse env forwarder query bundle zones clientIp cache unmatchedRoute).trace →
      ¬Zone.IsLocal zones (Zone.normalize call.qname) ∧ query.recursionDesired = true ∧
        ¬(unmatchedRoute = true ∧ bundle = none)) ∧
    ((buildResponse env forwarder query bundle zones clientIp cache unmatchedRoute).trace.filter
      Effect.isForward).length ≤ 1 ∧
    (query.messageType = .response →
      (buildResponse env forwarder query bundle zones clientIp cache unmatchedRoute).response =
          none ∧
        (buildResponse env forwarder query bundle zones clientIp cache unmatchedRoute).trace =
          []) := by
  refine ⟨fun call hcall => ?_, ?_, fun hqr => ?_⟩
  · -- what is forwarded is the one resolution of the query
    have hres := resolution_of_forward hcall
    refine ⟨not_isLocal_of_resolution hres, ?_, ?_⟩
    · obtain ⟨response, question, -, ⟨_, _, _, _, -, -, hrd, -⟩ | ⟨-, hrd, -⟩⟩ :=
        resolution_eq_some hres
      · exact hrd
      · exact hrd.symm
    · rintro ⟨hun, hnone⟩
      obtain ⟨response, question, -, ⟨_, _, _, b, -, hb, -⟩ |
        ⟨-, -, -, ⟨-, hmat⟩ | ⟨b, hb, -⟩⟩⟩ := resolution_eq_some hres
      · exact absurd (hnone.symm.trans hb) (by simp)
      · exact absurd (hun.symm.trans hmat) (by simp)
      · exact absurd (hnone.symm.trans hb) (by simp)
  · -- behind the resolution there is telemetry only
    obtain ⟨response, events, heve, heq⟩ := buildResponse_trace env forwarder query bundle zones
      clientIp cache unmatchedRoute
    have hnone : events.filter Effect.isForward = [] := by
      rw [filter_eq_nil_iff]
      intro e he
      have hev := heve e he
      cases e <;> simp_all [Effect.isEvent, Effect.isForward]
    rw [heq, filter_append, hnone, append_nil]
    refine le_trans (length_filter_le _ _) ?_
    rw [resolutionTrace]
    split
    · simp
    · rename_i call rd _
      rcases resolveRecords_trace env forwarder call rd cache response with
        htra | ⟨-, htra, -⟩ | ⟨-, htra⟩ <;> simp [htra]
  · have hgate : gate env query clientIp = .error none := by
      rw [gate, if_pos (by simp [shouldProcess, hqr])]
    rw [buildResponse, hgate]
    exact ⟨rfl, rfl⟩

/-- The query is answered by a local CNAME chain that ends in an external name
which the policy blocks, and asks for recursion. -/
def EndsInBlocked (b : Pb.Bundle) : Prop :=
  ∃ response question records soa t, gate env query clientIp = .ok (response, question) ∧
    query.recursionDesired = true ∧
    lookupQuestion env zones question = .answer records soa (some t) ∧
    (decide b (t ++ ".")).decision = .block

/-- **Policy and local CNAMEs.**  With a loaded bundle, `build_response` looks up
no name that the bundle blocks, neither in the cache nor upstream, exactly when
the query does not end in a blocked external CNAME target: that target is
handed to `resolve_records` without asking `decide`. -/
theorem noBypass_iff (b : Pb.Bundle) :
    (∀ name, LooksUp (buildResponse env forwarder query (some b) zones clientIp cache
        unmatchedRoute).trace name → (decide b name).decision ≠ .block) ↔
      ¬EndsInBlocked env query zones clientIp b := by
  constructor
  · rintro h ⟨response, question, records, soa, t, hgate, hrd, hlk, hblk⟩
    refine h (t ++ ".") ?_ hblk
    have hres : resolution env query (some b) zones clientIp unmatchedRoute =
        some (policyCall b (t ++ ".") question.queryType, true) := by
      simp only [resolution, hgate, hlk, cnameCall, hrd, if_true, map_some]
    obtain ⟨response', hpre⟩ := resolution_prefix_trace forwarder cache hres
    -- with RD=1 the resolution is a cache hit or a call of the forwarder
    rcases resolveRecords_trace env forwarder (policyCall b (t ++ ".") question.queryType)
        true cache response' with htra | ⟨hrd', -⟩ | ⟨-, htra⟩
    · rw [htra] at hpre
      exact .inl ⟨question.queryType, hpre.subset (mem_singleton.mpr rfl)⟩
    · simp at hrd'
    · rw [htra] at hpre
      exact .inr ⟨_, hpre.subset (mem_singleton.mpr rfl), rfl⟩
  · intro h name hname hblk
    obtain ⟨call, rd, hres, rfl⟩ : ∃ call rd,
        resolution env query (some b) zones clientIp unmatchedRoute = some (call, rd) ∧
          call.qname = name := by
      rcases hname with ⟨qtype, hmem⟩ | ⟨call, hmem, rfl⟩
      · obtain ⟨call, rd, response, hres, htr⟩ := mem_trace_of_not_event rfl hmem
        refine ⟨call, rd, hres, ?_⟩
        rcases resolveRecords_trace env forwarder call rd cache response with
          htra | ⟨-, htra, -⟩ | ⟨-, htra⟩
        · rw [htra, mem_singleton, Effect.cacheHit.injEq] at htr
          exact htr.1.symm
        · simp [htra] at htr
        · simp [htra] at htr
      · exact ⟨call, true, resolution_of_forward hmem, rfl⟩
    obtain ⟨response, question, hgate, ⟨records, soa, t, b', hlk, hb, hrd, -, rfl⟩ |
      ⟨-, -, hname, ⟨hb, -⟩ | ⟨b', hb, hal⟩⟩⟩ := resolution_eq_some hres
    · cases hb
      exact h ⟨response, question, records, soa, t, hgate, hrd, hlk, hblk⟩
    · simp at hb
    · cases hb
      rw [hname, hal] at hblk
      simp at hblk

end Exits

/-! A small node to evaluate the results on: hickory's names with a single
internationalised label, one hosted zone and one deny override. -/

/-- Printing a label: `xn--bcher-kva` is decoded, the rest is printed as it is. -/
def sampleRender (label : Label) : Str :=
  if label = utf8 "xn--bcher-kva" then "bücher" else labelText label

/-- Names separated by dots, with a final dot for a fully qualified one. -/
def samplePrint (render : Label → Str) (name : Name) : Str :=
  if name.labels = [] then "."
  else join ".".toList (name.labels.map render) ++ if name.isFqdn then ".".toList else []

def sampleParse (s : Str) : Option Name :=
  let isFqdn := s.getLast? == some '.'
  let labels := (if isFqdn then s.dropLast else s).splitOn '.'
  if labels.all fun l => l ≠ [] && (utf8 l).length ≤ 63 then some ⟨labels.map utf8, isFqdn⟩
  else none

def sampleHickory : Hickory :=
  ⟨samplePrint sampleRender, samplePrint labelText, sampleParse, sampleParse⟩

def sampleEnv : NodeEnv where
  hickory := sampleHickory
  serverCookie _ cookie := cookie
  nodeNameVar := some "node-1".toList
  hostname := none
  bootstrapVar := none
  iter := ⟨id, fun l => List.Perm.refl l⟩
  readAt := 0
  writeAt := 0

def sampleForwarder : Forwarder := ⟨fun _ => .nxDomain none, fun _ => none, ⟨0, 0, 60⟩⟩

def sampleQuery (name : Str) : Message :=
  { Message.new with
    id := 7
    recursionDesired := true
    queries := [⟨⟨(name.splitOn '.').map utf8, true⟩, .a, .internet⟩] }

def sampleBundle (deny : Str) : Pb.Bundle :=
  ⟨"tenant", "group", 1, 0, [], [], [deny], .failOpen, none, [], []⟩

/-- A blocked name is forwarded when a local CNAME points to it: with
`tracker.corp.lab CNAME ads.example.net` in the hosted zone `corp.lab` and a
deny override for `ads.example.net`, a query for the former calls the forwarder
for the latter. -/
theorem cname_target_bypass :
    ∃ data, Zone.publish sampleHickory [⟨"tracker.corp.lab.", "corp.lab", .cname, 300,
        "ads.example.net.", none⟩] = some data ∧
      (decide (sampleBundle "ads.example.net") "ads.example.net.").decision = .block ∧
      LooksUp (buildResponse sampleEnv sampleForwarder (sampleQuery "tracker.corp.lab")
        (some (sampleBundle "ads.example.net")) data (.v4 0) (.new 10000) false).trace
        "ads.example.net." := by
  obtain ⟨data, hdata, h⟩ : ∃ data, Zone.publish sampleHickory [⟨"tracker.corp.lab.", "corp.lab",
      .cname, 300, "ads.example.net.", none⟩] = some data ∧
      Effect.forward ⟨"ads.example.net.", .a, [], some "group"⟩ ∈
        (buildResponse sampleEnv sampleForwarder (sampleQuery "tracker.corp.lab")
          (some (sampleBundle "ads.example.net")) data (.v4 0) (.new 10000) false).trace := by
    decide +kernel
  exact ⟨data, hdata, by decide +kernel, .inr ⟨_, h, rfl⟩⟩

end Node
