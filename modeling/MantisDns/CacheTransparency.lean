/-
The response cache over whole runs: `resolve_records` of
`mantis-filter/src/lib.rs` against `DnsCache`.

A run is a list of calls, one after the other, each with its own forwarder,
clock readings and response so far.  What is in the cache after a run was put
there by one of its calls, and a hit repeats the answer of that call.

* `serveForward_eq` — the answer to a miss is the answer a hit on the stored
  entry would be;
* `stored_of_mem` — every entry was stored by a call of the run;
* `length_cacheAfter_le` — the bound on the entries;
* `cache_transparent` — hits repeat the stored answer with smaller TTLs.
-/
import MantisDns.Response

open Text Dns List Option

namespace Node

/-! ### The map -/

section Map

variable {cache : DnsCache} {iter : IterationOrder} {now : ℕ} {qname : Str} {qtype : UInt16}
  {kind : CacheLookup} {ttl : UInt32}
variable {key : CacheKey} {e : CacheKey × CacheEntry} {entry : CacheEntry}

theorem exists_of_get {hit : CacheLookup} (h : cache.get now qname qtype = some hit) :
    ∃ entry, (cacheKey qname qtype, entry) ∈ cache.map ∧ now < entry.expiresAt ∧
      hit = entry.kind.withTtl (remainingTtl entry.expiresAt now) := by
  obtain ⟨⟨key, entry⟩, hfil, rfl⟩ := map_eq_some_iff.mp h
  obtain ⟨hfind, hlive⟩ := filter_eq_some_iff.mp hfil
  have hkey : key = cacheKey qname qtype := by simpa using find?_some hfind
  exact ⟨entry, hkey ▸ mem_of_find?_eq_some hfind, of_decide_eq_true hlive, rfl⟩

theorem mem_remove (h : e ∈ (cache.remove key).map) : e ∈ cache.map :=
  (mem_filter.mp h).1

theorem mem_set (h : e ∈ (cache.set key entry).map) : e ∈ cache.map ∨ e = (key, entry) := by
  rcases mem_append.mp h with h | h
  · exact .inl (mem_filter.mp h).1
  · exact .inr (mem_singleton.mp h)

theorem mem_insert (h : e ∈ (cache.insert iter now qname qtype kind ttl).map) :
    e ∈ cache.map ∨
      ttl ≠ 0 ∧ e = (cacheKey qname qtype, ⟨kind, now + ttl.toNat * 1000000000⟩) := by
  rw [DnsCache.insert] at h
  split_ifs at h with hzero
  · exact .inl h
  rcases mem_set h with h | h
  · refine .inl ?_
    split_ifs at h
    · cases hvic : cache.victim iter now with
      | none => simpa [hvic] using h
      | some =>
        rw [hvic] at h
        exact mem_remove h
    · exact h
  · exact .inr ⟨hzero, h⟩

theorem maxEntries_insert :
    (cache.insert iter now qname qtype kind ttl).maxEntries = cache.maxEntries := by
  simp only [DnsCache.insert]
  split_ifs
  · rfl
  · cases cache.victim iter now <;> rfl
  · rfl

theorem exists_victim (hne : cache.map ≠ []) :
    ∃ e ∈ cache.map, cache.victim iter now = some e.1 := by
  rw [DnsCache.victim]
  cases hfind : (iter.order cache.map).find? fun e => e.2.expiresAt ≤ now with
  | some e => exact ⟨e, (iter.perm _).mem_iff.mp (mem_of_find?_eq_some hfind), rfl⟩
  | none =>
    cases hord : iter.order cache.map with
    | nil => exact absurd (hord ▸ iter.perm cache.map).nil_eq.symm hne
    | cons e => exact ⟨e, (iter.perm _).mem_iff.mp (by rw [hord]; simp), rfl⟩

theorem length_remove_lt (he : e ∈ cache.map) :
    (cache.remove e.1).map.length < cache.map.length :=
  length_filter_lt_length_iff_exists.mpr ⟨e, he, by simp⟩

theorem length_set_of_mem (h : key ∈ cache.map.map Prod.fst) :
    (cache.set key entry).map.length ≤ cache.map.length := by
  obtain ⟨e, he, rfl⟩ := List.mem_map.mp h
  have hlt := length_remove_lt he
  rw [DnsCache.set, length_append, length_singleton]
  exact hlt

theorem length_set_le :
    (cache.set key entry).map.length ≤ cache.map.length + 1 := by
  rw [DnsCache.set, length_append, length_singleton]
  exact Nat.succ_le_succ (length_filter_le _ _)

/-- **The bound**: an insertion leaves at most `max_entries` entries. -/
theorem length_insert_le (hmax : 1 ≤ cache.maxEntries)
    (hlen : cache.map.length ≤ cache.maxEntries) :
    (cache.insert iter now qname qtype kind ttl).map.length ≤ cache.maxEntries := by
  simp only [DnsCache.insert]
  split_ifs with hzero hfull
  · exact hlen
  · -- full: one entry leaves before the new one comes in
    have hne : cache.map ≠ [] := by
      intro hnil
      rw [hnil, length_nil] at hfull
      omega
    obtain ⟨e, he, hvic⟩ := @exists_victim cache iter now hne
    rw [hvic, map_some, getD_some]
    have hset := @length_set_le (cache.remove e.1) (cacheKey qname qtype)
      ⟨kind, now + ttl.toNat * 1000000000⟩
    have hlt := length_remove_lt he
    omega
  · rw [not_and, not_not] at hfull
    by_cases hroom : cache.maxEntries ≤ cache.map.length
    · exact (length_set_of_mem (hfull hroom)).trans hlen
    · exact length_set_le.trans (by omega)

end Map

/-! ### One call -/

/-- The TTL an answer is given and stored with. -/
def storedTtl (policy : TtlPolicy) (negativeTtl : UInt32) : ForwardResult → UInt32
  | .ok [] _ => negativeTtl
  | .ok (r :: rs) _ => policy.clampPositive (rs.foldl (fun m r => min m r.ttl) r.ttl)
  | .nxDomain _ => negativeTtl
  | .noRecordsFound _ => negativeTtl
  | .failed => servfailCacheTtlS

/-- What is stored carries the TTL everywhere, and the answer is the one that a
hit on it gives. -/
theorem serveForward_eq (env : NodeEnv) (policy : TtlPolicy) (negativeTtl : UInt32)
    (call : ForwardCall) (cache : DnsCache) (response : Message) (result : ForwardResult) :
    ∃ kind : CacheLookup, kind.withTtl (storedTtl policy negativeTtl result) = kind ∧
      serveForward env policy negativeTtl call cache response result =
        (serveHit response kind,
          cache.insert env.iter env.writeAt call.qname call.qtype.toU16 kind
            (storedTtl policy negativeTtl result)) := by
  cases result with
  | ok records authenticated =>
    cases records with
    | nil => exact ⟨.negative .noData none, rfl, rfl⟩
    | cons r rs =>
      refine ⟨.records ((r :: rs).map fun r' => { r' with
        ttl := policy.clampPositive (rs.foldl (fun m r => min m r.ttl) r.ttl) }) authenticated,
        ?_, ?_⟩
      · rw [CacheLookup.withTtl, List.map_map]
        rfl
      · -- an answer is cached with one TTL for all its records
        rw [serveForward, DnsCache.put, if_neg (by simp)]
        rfl
  | nxDomain soa =>
    refine ⟨.negative .nxDomain (soa.map fun r => { r with ttl := negativeTtl }), ?_, rfl⟩
    rw [CacheLookup.withTtl, Option.map_map]
    rfl
  | noRecordsFound soa =>
    refine ⟨.negative .noData (soa.map fun r => { r with ttl := negativeTtl }), ?_, rfl⟩
    rw [CacheLookup.withTtl, Option.map_map]
    rfl
  | failed =>
    refine ⟨.negative .servFail none, rfl, ?_⟩
    simp [serveForward, serveNegative, serveHit, DnsCache.putNegative, storedTtl]

/-- A call of `resolve_records`. -/
structure CacheCall where
  env : NodeEnv
  forwarder : Forwarder
  call : ForwardCall
  recursionDesired : Bool
  response : Message

namespace CacheCall

/-- The call on a cache. -/
def resolve (c : CacheCall) (cache : DnsCache) : Resolved :=
  resolveRecords c.env c.forwarder c.call c.recursionDesired cache c.response

/-- The key the call reads and writes. -/
def key (c : CacheCall) : CacheKey := cacheKey c.call.qname c.call.qtype.toU16

/-- The TTL of the answer, if the forwarder is asked. -/
def ttl (c : CacheCall) : UInt32 :=
  storedTtl c.forwarder.ttlPolicy
    ((c.forwarder.negativeTtlOverride c.call).getD c.forwarder.ttlPolicy.negativeTtl)
    (c.forwarder.lookupScoped c.call)

variable {c : CacheCall} {cache : DnsCache}

theorem resolve_cases (c : CacheCall) (cache : DnsCache) :
    (∃ hit, cache.get c.env.readAt c.call.qname c.call.qtype.toU16 = some hit ∧
      c.resolve cache = ⟨true, serveHit c.response hit, cache,
        [.cacheHit c.call.qname c.call.qtype]⟩) ∨
    (c.recursionDesired = false ∧
      c.resolve cache = ⟨false, { c.response with responseCode := .refused }, cache, []⟩) ∨
    (c.recursionDesired = true ∧ ∃ kind : CacheLookup, kind.withTtl c.ttl = kind ∧
      c.resolve cache = ⟨false, serveHit c.response kind,
        cache.insert c.env.iter c.env.writeAt c.call.qname c.call.qtype.toU16 kind c.ttl,
        [.forward c.call]⟩) := by
  rw [resolve, resolveRecords]
  cases hget : cache.get c.env.readAt c.call.qname c.call.qtype.toU16 with
  | some hit => exact .inl ⟨hit, rfl, rfl⟩
  | none =>
    cases hrd : c.recursionDesired with
    | false => exact .inr (.inl ⟨rfl, rfl⟩)
    | true =>
      obtain ⟨kind, hkind, hser⟩ := serveForward_eq c.env c.forwarder.ttlPolicy
        ((c.forwarder.negativeTtlOverride c.call).getD c.forwarder.ttlPolicy.negativeTtl) c.call
        cache c.response (c.forwarder.lookupScoped c.call)
      refine .inr (.inr ⟨rfl, kind, hkind, ?_⟩)
      simp only [hser]
      rfl

/-- The call asks the forwarder and stores its answer under the key. -/
structure Stores (c : CacheCall) (cache : DnsCache) (key : CacheKey) (entry : CacheEntry) :
    Prop where
  key_eq : c.key = key
  recursionDesired : c.recursionDesired = true
  trace : (c.resolve cache).trace = [.forward c.call]
  response : (c.resolve cache).response = serveHit c.response entry.kind
  ttl : entry.kind.withTtl c.ttl = entry.kind
  expiresAt : entry.expiresAt = c.env.writeAt + c.ttl.toNat * 1000000000

theorem mem_resolve {key : CacheKey} {entry : CacheEntry}
    (h : (key, entry) ∈ (c.resolve cache).cache.map) :
    (key, entry) ∈ cache.map ∨ c.Stores cache key entry := by
  rcases c.resolve_cases cache with ⟨hit, -, heq⟩ | ⟨-, heq⟩ | ⟨hrd, kind, hkind, heq⟩
  · rw [heq] at h
    exact .inl h
  · rw [heq] at h
    exact .inl h
  · rw [heq] at h
    rcases mem_insert h with h | ⟨-, h⟩
    · exact .inl h
    · cases h
      exact .inr ⟨rfl, hrd, by rw [heq], by rw [heq], hkind, rfl⟩

theorem maxEntries_resolve : (c.resolve cache).cache.maxEntries = cache.maxEntries := by
  rcases c.resolve_cases cache with ⟨hit, -, heq⟩ | ⟨-, heq⟩ | ⟨-, kind, -, heq⟩
  · rw [heq]
  · rw [heq]
  · rw [heq]
    exact maxEntries_insert

theorem length_resolve_le (hmax : 1 ≤ cache.maxEntries)
    (hlen : cache.map.length ≤ cache.maxEntries) :
    (c.resolve cache).cache.map.length ≤ cache.maxEntries := by
  rcases c.resolve_cases cache with ⟨hit, -, heq⟩ | ⟨-, heq⟩ | ⟨-, kind, -, heq⟩
  · rw [heq]
    exact hlen
  · rw [heq]
    exact hlen
  · rw [heq]
    exact length_insert_le hmax hlen

end CacheCall

/-! ### Runs -/

/-- The cache after a list of calls, from an empty one. -/
def cacheAfter (maxEntries : ℕ) (calls : List CacheCall) : DnsCache :=
  calls.foldl (fun cache c => (c.resolve cache).cache) (.new maxEntries)

theorem cacheAfter_concat (maxEntries : ℕ) (calls : List CacheCall) (c : CacheCall) :
    cacheAfter maxEntries (calls ++ [c]) = (c.resolve (cacheAfter maxEntries calls)).cache := by
  rw [cacheAfter, foldl_append]
  rfl

/-- One call at a time, by a clock that does not go back. -/
structure OneByOne (calls : List CacheCall) : Prop where
  within : ∀ c ∈ calls, c.env.readAt ≤ c.env.writeAt
  between : calls.Pairwise fun c d => c.env.writeAt ≤ d.env.readAt

section Runs

variable {maxEntries : ℕ}

/-- **Every entry** was stored by a call of the run. -/
theorem stored_of_mem {calls : List CacheCall} {key : CacheKey} {entry : CacheEntry}
    (h : (key, entry) ∈ (cacheAfter maxEntries calls).map) :
    ∃ before c after, calls = before ++ c :: after ∧
      c.Stores (cacheAfter maxEntries before) key entry := by
  induction calls using List.reverseRecOn with
  | nil => simp [cacheAfter, DnsCache.new] at h
  | append_singleton calls d ih =>
    rw [cacheAfter_concat] at h
    rcases CacheCall.mem_resolve h with h | h
    · obtain ⟨before, c, after, rfl, hsto⟩ := ih h
      exact ⟨before, c, after ++ [d], by simp, hsto⟩
    · exact ⟨calls, d, [], rfl, h⟩

theorem maxEntries_cacheAfter (calls : List CacheCall) :
    (cacheAfter maxEntries calls).maxEntries = maxEntries := by
  induction calls using List.reverseRecOn with
  | nil => rfl
  | append_singleton calls d ih => rw [cacheAfter_concat, CacheCall.maxEntries_resolve, ih]

/-- **At most `max_entries` entries**, after any run. -/
theorem length_cacheAfter_le (hmax : 1 ≤ maxEntries) (calls : List CacheCall) :
    (cacheAfter maxEntries calls).map.length ≤ maxEntries := by
  induction calls using List.reverseRecOn with
  | nil => exact Nat.zero_le _
  | append_singleton calls d ih =>
    have hlen := @CacheCall.length_resolve_le d (cacheAfter maxEntries calls)
    rw [maxEntries_cacheAfter] at hlen
    rw [cacheAfter_concat]
    exact hlen hmax ih

end Runs

/-! ### Hits repeat what was stored -/

/-- The remaining TTL, in whole seconds, and the time since the entry was
stored make up at most its lifetime. -/
theorem remainingTtl_add_le {storedAt now lifetime : ℕ} (hle : storedAt ≤ now)
    (hlive : now < storedAt + lifetime) :
    (remainingTtl (storedAt + lifetime) now).toNat * 1000000000 + (now - storedAt) ≤ lifetime := by
  have hle' : (remainingTtl (storedAt + lifetime) now).toNat ≤
      (storedAt + lifetime - now) / 1000000000 := by
    rw [remainingTtl, UInt32.toNat_ofNat']
    exact (Nat.mod_le _ _).trans (Nat.min_le_left _ _)
  have hspl : ∀ rest ≤ storedAt + lifetime - now, rest + (now - storedAt) ≤ lifetime := by
    intro rest hrest
    omega
  exact hspl _ ((Nat.le_div_iff_mul_le (by decide)).mp hle')

/-- The answer of the call `d` is the one of the earlier call `c`, with every
TTL reduced by at least the time between them. -/
structure Repeats (c d : CacheCall) (first again : Message) : Prop where
  name : lowerAscii c.call.qname = lowerAscii d.call.qname
  type : c.call.qtype.toU16 = d.call.qtype.toU16
  later : c.env.writeAt ≤ d.env.readAt
  live : d.env.readAt < c.env.writeAt + c.ttl.toNat * 1000000000
  responseCode : again.responseCode = first.responseCode
  answer : ∃ (records : List Record) (soa : Option Record) (left : UInt32),
    left.toNat * 1000000000 + (d.env.readAt - c.env.writeAt) ≤ c.ttl.toNat * 1000000000 ∧
    (∀ r ∈ records ++ soa.toList, r.ttl = c.ttl) ∧
    first.answers = c.response.answers ++ records ∧
    again.answers = d.response.answers ++ records.map (fun r => { r with ttl := left }) ∧
    first.nameServers = c.response.nameServers ++ soa.toList ∧
    again.nameServers =
      d.response.nameServers ++ (soa.map fun r => { r with ttl := left }).toList ∧
    (records ≠ [] ∨ c.response.authenticData = d.response.authenticData →
      again.authenticData = first.authenticData)

theorem ttl_of_mem_records {rs : List Record} {authenticated : Bool} {ttl : UInt32}
    (h : (CacheLookup.records rs authenticated).withTtl ttl = .records rs authenticated) :
    ∀ r ∈ rs, r.ttl = ttl := by
  intro r hr
  have hmap : rs.map (fun r => { r with ttl := ttl }) = rs := (CacheLookup.records.inj h).1
  rw [← hmap] at hr
  obtain ⟨r', -, rfl⟩ := List.mem_map.mp hr
  rfl

theorem ttl_of_mem_soa {kind : NegativeKind} {soa : Option Record} {ttl : UInt32}
    (h : (CacheLookup.negative kind soa).withTtl ttl = .negative kind soa) :
    ∀ r ∈ soa.toList, r.ttl = ttl := by
  intro r hr
  have hmap : soa.map (fun r => { r with ttl := ttl }) = soa := (CacheLookup.negative.inj h).2
  rw [← hmap, mem_toList] at hr
  obtain ⟨r', -, rfl⟩ := map_eq_some_iff.mp hr
  rfl

theorem CacheCall.Stores.repeats {c d : CacheCall} {cache : DnsCache} {entry : CacheEntry}
    (h : c.Stores cache d.key entry) (hlat : c.env.writeAt ≤ d.env.readAt)
    (hlive : d.env.readAt < entry.expiresAt) :
    Repeats c d (c.resolve cache).response
      (serveHit d.response
        (entry.kind.withTtl (remainingTtl entry.expiresAt d.env.readAt))) := by
  obtain ⟨hname, htype⟩ := Prod.mk.inj h.key_eq
  rw [h.expiresAt] at hlive ⊢
  have hleft := remainingTtl_add_le hlat hlive
  generalize remainingTtl (c.env.writeAt + c.ttl.toNat * 1000000000) d.env.readAt = left at hleft ⊢
  have httl := h.ttl
  rw [h.response]
  -- a SERVFAIL shows no SOA, and none is stored for it
  cases hkind : entry.kind with
  | records rs =>
    rw [hkind] at httl
    have httls := ttl_of_mem_records httl
    exact ⟨hname, htype, hlat, hlive, rfl, rs, none, left, hleft, by simpa using httls, rfl, rfl,
      by simp [serveHit], by simp [serveHit, CacheLookup.withTtl], fun _ => rfl⟩
  | negative kind soa =>
    rw [hkind] at httl
    have httls := ttl_of_mem_soa httl
    cases kind with
    | nxDomain | noData =>
      exact ⟨hname, htype, hlat, hlive, rfl, [], soa, left, hleft, httls,
        by simp [serveHit], by simp [serveHit, CacheLookup.withTtl], rfl, rfl,
        fun hsame => (hsame.resolve_left (by simp)).symm⟩
    | servFail =>
      exact ⟨hname, htype, hlat, hlive, rfl, [], none, left, hleft, by simp,
        by simp [serveHit], by simp [serveHit, CacheLookup.withTtl], by simp [serveHit],
        by simp [serveHit, CacheLookup.withTtl],
        fun hsame => (hsame.resolve_left (by simp)).symm⟩

/-- The clamped TTL is within `min_ttl_s` and `max_ttl_s`, if these are apart or there is no
`max_ttl_s`; otherwise it is `max_ttl_s` at most. -/
theorem TtlPolicy.clampPositive_bounds (policy : TtlPolicy) (ttl : UInt32) :
    (0 < policy.maxTtlS → policy.clampPositive ttl ≤ policy.maxTtlS) ∧
      (policy.maxTtlS = 0 ∨ policy.minTtlS ≤ policy.maxTtlS →
        policy.minTtlS ≤ policy.clampPositive ttl) := by
  have hmin : policy.minTtlS ≤ max ttl policy.minTtlS := by
    show _ ≤ if ttl ≤ policy.minTtlS then policy.minTtlS else ttl
    split
    · exact UInt32.le_refl _
    · exact (UInt32.le_total ..).resolve_left ‹_›
  rw [clampPositive]
  refine ⟨fun hpos => ?_, fun hle => ?_⟩
  · rw [if_pos hpos]
    exact Std.min_le_right
  · split
    case isTrue hpos =>
      exact Std.le_min_iff.mpr ⟨hmin, hle.resolve_left (UInt32.ne_of_lt hpos).symm⟩
    case isFalse => exact hmin

/-- **The cache is transparent**: in every run, a hit repeats the answer of the
call that stored the entry, before its TTL has run out; a miss with RD=0 asks no
forwarder and stores nothing; and the cache holds at most `max_entries`
entries. -/
theorem cache_transparent {maxEntries : ℕ} (hmax : 1 ≤ maxEntries) {calls : List CacheCall}
    (hcalls : OneByOne calls) :
    (∀ made, made <+: calls → (cacheAfter maxEntries made).map.length ≤ maxEntries) ∧
    ∀ before d after, calls = before ++ d :: after →
      ((d.resolve (cacheAfter maxEntries before)).hit = true →
        ∃ earlier c rest, before = earlier ++ c :: rest ∧
          (c.resolve (cacheAfter maxEntries earlier)).trace = [.forward c.call] ∧
          Repeats c d (c.resolve (cacheAfter maxEntries earlier)).response
            (d.resolve (cacheAfter maxEntries before)).response) ∧
      ((d.resolve (cacheAfter maxEntries before)).hit = false → d.recursionDesired = false →
        (d.resolve (cacheAfter maxEntries before)).trace = [] ∧
        (d.resolve (cacheAfter maxEntries before)).cache = cacheAfter maxEntries before) := by
  refine ⟨fun made _ => length_cacheAfter_le hmax made, ?_⟩
  rintro before d after rfl
  constructor
  · intro hhit
    rcases d.resolve_cases (cacheAfter maxEntries before) with
      ⟨hit, hget, heq⟩ | ⟨-, heq⟩ | ⟨-, kind, -, heq⟩
    · -- the entry was stored by an earlier call
      obtain ⟨entry, hmem, hlive, rfl⟩ := exists_of_get hget
      obtain ⟨earlier, c, rest, rfl, hsto⟩ := stored_of_mem hmem
      refine ⟨earlier, c, rest, rfl, hsto.trace, ?_⟩
      have hlat : c.env.writeAt ≤ d.env.readAt := by
        refine (pairwise_append.mp hcalls.between).2.2 c (by simp) d (by simp)
      rw [heq]
      exact hsto.repeats hlat hlive
    · rw [heq] at hhit
      simp at hhit
    · rw [heq] at hhit
      simp at hhit
  · intro hmiss hrd
    rcases d.resolve_cases (cacheAfter maxEntries before) with
      ⟨hit, -, heq⟩ | ⟨-, heq⟩ | ⟨hrd', -⟩
    · rw [heq] at hmiss
      simp at hmiss
    · rw [heq]
      exact ⟨rfl, rfl⟩
    · exact absurd (hrd.symm.trans hrd') (by simp)

/-- An answer of one address. -/
def addressForwarder : Forwarder :=
  ⟨fun _ => .ok [⟨⟨[], true⟩, 90, .a 0x0A000005⟩] true, fun _ => none, ⟨0, 60, 60⟩⟩

/-- A query that takes no time, so many seconds after the start. -/
def sampleCall (seconds : ℕ) (qname : Str) : CacheCall where
  env := { sampleEnv with readAt := seconds * 1000000000, writeAt := seconds * 1000000000 }
  forwarder := addressForwarder
  call := ⟨qname, .a, [], none⟩
  recursionDesired := true
  response := Message.new

theorem cache_transparent_mixed_case :
    ∃ c d, OneByOne [c, d] ∧ c.call.qname ≠ d.call.qname ∧
      (d.resolve (cacheAfter 1 [c])).hit = true ∧
      ∃ first, Repeats c d first (d.resolve (cacheAfter 1 [c])).response := by
  have hcal : OneByOne [sampleCall 0 "Example.com.", sampleCall 10 "example.COM."] :=
    ⟨by simp [sampleCall], by simp [sampleCall]⟩
  have hhit : ((sampleCall 10 "example.COM.").resolve
      (cacheAfter 1 [sampleCall 0 "Example.com."])).hit = true := by decide +kernel
  obtain ⟨earlier, c, rest, hspl, -, hrep⟩ :=
    ((cache_transparent le_rfl hcal).2 [sampleCall 0 "Example.com."] _ [] rfl).1 hhit
  -- there is one earlier call
  obtain ⟨rfl, hcons⟩ : earlier = [] ∧ [sampleCall 0 "Example.com."] = c :: rest := by
    cases earlier with
    | nil => exact ⟨rfl, hspl⟩
    | cons => exact absurd (List.cons.inj hspl).2 (by simp)
  obtain ⟨rfl, rfl⟩ := List.cons.inj hcons
  exact ⟨_, _, hcal, by decide, hhit, _, hrep⟩

end Node
