/-
The response cache: `mantis-filter/src/cache.rs`.

The map is a list of entries with distinct keys.  The order in which Rust's
`HashMap` iterates is arbitrary and only matters for the choice of a victim
when the cache is full; it is the parameter `IterationOrder`.  Instants are
nanoseconds.
-/
import MantisDns.Dns

open Text Dns List

namespace Node

/-- `NegativeKind`. -/
inductive NegativeKind
  | nxDomain
  | noData
  | servFail
  deriving DecidableEq

/-- `CacheEntryKind`, and the `CacheLookup` a hit returns. -/
inductive CacheLookup
  | records (records : List Record) (authenticated : Bool)
  | negative (kind : NegativeKind) (soa : Option Record)
  deriving DecidableEq

/-- `CacheEntry`. -/
structure CacheEntry where
  kind : CacheLookup
  expiresAt : ℕ
  deriving DecidableEq

/-- The key of an entry: lower-case name and type code. -/
abbrev CacheKey := Str × UInt16

/-- `DnsCache`. -/
structure DnsCache where
  map : List (CacheKey × CacheEntry)
  maxEntries : ℕ
  nodup : (map.map Prod.fst).Nodup

/-- `DnsCache::new`. -/
def DnsCache.new (maxEntries : ℕ) : DnsCache := ⟨[], maxEntries, nodup_nil⟩

/-- The order a `HashMap` is iterated in. -/
structure IterationOrder where
  order : List (CacheKey × CacheEntry) → List (CacheKey × CacheEntry)
  perm : ∀ l, (order l).Perm l

/-- The key of a query. -/
def cacheKey (qname : Str) (qtype : UInt16) : CacheKey := (lowerAscii qname, qtype)

/-- `u32::try_from(expires_at.duration_since(now).as_secs()).unwrap_or(u32::MAX)`. -/
def remainingTtl (expiresAt now : ℕ) : UInt32 :=
  UInt32.ofNat (min ((expiresAt - now) / 1000000000) (2 ^ 32 - 1))

/-- The entry with every TTL replaced by the one that remains. -/
def CacheLookup.withTtl (ttl : UInt32) : CacheLookup → CacheLookup
  | .records rs authenticated => .records (rs.map fun r => { r with ttl }) authenticated
  | .negative kind soa => .negative kind (soa.map fun r => { r with ttl })

/-- `DnsCache::get` at time `now`. -/
def DnsCache.get (cache : DnsCache) (now : ℕ) (qname : Str) (qtype : UInt16) :
    Option CacheLookup :=
  ((cache.map.find? (·.1 = cacheKey qname qtype)).filter fun e => now < e.2.expiresAt).map
    fun e => e.2.kind.withTtl (remainingTtl e.2.expiresAt now)

/-- `map.remove(&key)`. -/
def DnsCache.remove (cache : DnsCache) (key : CacheKey) : DnsCache :=
  { cache with
    map := cache.map.filter (·.1 ≠ key)
    nodup := cache.nodup.sublist (filter_sublist.map Prod.fst) }

/-- `map.insert(key, entry)`. -/
def DnsCache.set (cache : DnsCache) (key : CacheKey) (entry : CacheEntry) : DnsCache :=
  { cache with
    map := cache.map.filter (·.1 ≠ key) ++ [(key, entry)]
    nodup := by
      rw [map_append, nodup_append]
      refine ⟨cache.nodup.sublist (filter_sublist.map Prod.fst), by simp, ?_⟩
      intro k hk k' hk' heq
      obtain ⟨e, he, rfl⟩ := List.mem_map.mp hk
      have hne := (mem_filter.mp he).2
      simp only [map_cons, map_nil, mem_singleton] at hk'
      rw [hk'] at heq
      exact absurd heq (by simpa using hne) }

/-- The entry a full cache gives up: an expired one if the iteration meets
one, else the first it meets. -/
def DnsCache.victim (cache : DnsCache) (iter : IterationOrder) (now : ℕ) : Option CacheKey :=
  (((iter.order cache.map).find? fun e => e.2.expiresAt ≤ now).or
    (iter.order cache.map).head?).map Prod.fst

/-- `DnsCache::insert` at time `now`, with the lifetime in seconds. -/
def DnsCache.insert (cache : DnsCache) (iter : IterationOrder) (now : ℕ) (qname : Str)
    (qtype : UInt16) (kind : CacheLookup) (ttl : UInt32) : DnsCache :=
  if ttl = 0 then cache
  else
    let key := cacheKey qname qtype
    let full := cache.maxEntries ≤ cache.map.length ∧ key ∉ cache.map.map Prod.fst
    let cache :=
      if full then ((cache.victim iter now).map cache.remove).getD cache else cache
    cache.set key ⟨kind, now + ttl.toNat * 1000000000⟩

/-- `DnsCache::put`. -/
def DnsCache.put (cache : DnsCache) (iter : IterationOrder) (now : ℕ) (qname : Str)
    (qtype : UInt16) (records : List Record) (authenticated : Bool) (ttl : UInt32) : DnsCache :=
  if records = [] then cache
  else cache.insert iter now qname qtype (.records records authenticated) ttl

/-- `DnsCache::put_negative`. -/
def DnsCache.putNegative (cache : DnsCache) (iter : IterationOrder) (now : ℕ) (qname : Str)
    (qtype : UInt16) (kind : NegativeKind) (soa : Option Record) (ttl : UInt32) : DnsCache :=
  cache.insert iter now qname qtype (.negative kind soa) ttl

end Node
