/-
The state behind the routes of a node: `refresh_routes` and the servers of
`router.rs`.

A refresh rebuilds all routes from pieces of the old ones and from new, empty
ones: a store, local zones and a cache for each group, and the upstream store
with its forwarder for each tenant.  Pieces are behind pointers, so what two
routes share is a question about addresses.

* `RefreshLoop.separated` — what two routes share, after one refresh;
* `RunWhile.kept` — a group that stays routed keeps its pieces, and the version in its
  store never goes down;
* `tenants_separated` — both over every run, and what answers a client.
-/
import MantisDns.BundleFetch
import MantisDns.Routing
import MantisDns.Zone

open Text Table List

namespace Node.Router

open Control.Routing Dns LongestMatch Node.Routing Node.Zone

/-! ### Pointers

An `Arc` is the address of what it points to. -/

/-- An `Arc<dyn Forwarder>`: the one that the router was created with, or one that
reads an upstream store and a health store. -/
inductive Forwarder
  | given
  | upstreamBundle (addr store health : ℕ)
  deriving DecidableEq

structure TenantUpstreamRuntime where
  store : Option ℕ
  cache : ℕ
  forwarder : Forwarder
  deriving DecidableEq

/-- `RouteEntry`, with the stores. -/
structure RouteEntry extends Routing.RouteEntry where
  store : ℕ
  zones : ℕ
  cache : ℕ
  upstream : TenantUpstreamRuntime
  deriving DecidableEq

structure TenantRouter (Key : Type) where
  publicKey : Key
  fallbackUpstream : TenantUpstreamRuntime
  routes : List RouteEntry

/-- What the stores hold, and the first address that is not in use. -/
structure Heap where
  bundles : ℕ → Option Pb.Bundle
  zones : ℕ → ZoneData
  upstreams : ℕ → Option UpstreamBundle
  next : ℕ

/-- Addresses taken up to `next`, where every store starts empty. -/
def Heap.extend (heap : Heap) (next : ℕ) : Heap where
  bundles p := if p < heap.next then heap.bundles p else none
  zones p := if p < heap.next then heap.zones p else .empty
  upstreams p := if p < heap.next then heap.upstreams p else none
  next := next

theorem Heap.extend_bundles {heap : Heap} {next p : ℕ} (h : p < heap.next) :
    (heap.extend next).bundles p = heap.bundles p := if_pos h

/-! ### Rebuilding the routes -/

/-- `new_tenant_upstream_runtime`, from a free address on. -/
def newTenantUpstreamRuntime (free : ℕ) : TenantUpstreamRuntime where
  store := some free
  cache := free + 3
  forwarder := .upstreamBundle (free + 2) free (free + 1)

/-- The route of an entry whose subnet parses; `free` and the six addresses after it are
for what the entry needs anew. -/
def routeEntry (existing newRoutes : List RouteEntry) (free : ℕ) (net : IpNet)
    (entry : RoutingTableEntry) : RouteEntry where
  net := net
  groupId := entry.groupId
  tenantId := entry.tenantId
  store := ((existing.find? (·.groupId = entry.groupId)).map (·.store)).getD free
  zones := ((existing.find? (·.groupId = entry.groupId)).map (·.zones)).getD (free + 1)
  cache := ((existing.find? (·.groupId = entry.groupId)).map (·.cache)).getD (free + 2)
  upstream :=
    (((existing.find? (·.tenantId = entry.tenantId)).map (·.upstream)).or
      ((newRoutes.find? (·.tenantId = entry.tenantId)).map (·.upstream))).getD
        (newTenantUpstreamRuntime (free + 3))

/-- The loop of `refresh_routes`: the new routes so far, and the first free address. -/
structure RefreshLoop where
  newRoutes : List RouteEntry
  free : ℕ

/-- One pass of the loop. -/
def RefreshLoop.entry (parse : Str → Option IpNet) (existing : List RouteEntry) (l : RefreshLoop)
    (entry : RoutingTableEntry) : RefreshLoop :=
  match parse entry.cidr with
  | none => l
  | some net => ⟨l.newRoutes ++ [routeEntry existing l.newRoutes l.free net entry], l.free + 7⟩

def RefreshLoop.run (parse : Str → Option IpNet) (existing : List RouteEntry) (free : ℕ)
    (entries : List RoutingTableEntry) : RefreshLoop :=
  entries.foldl (RefreshLoop.entry parse existing) ⟨[], free⟩

/-! ### Fetches -/

/-- The tasks that a refresh spawns, each with the pointers and the key it was given. -/
inductive Task (Key : Type)
  | bundle (store : ℕ) (publicKey : Key) (groupId : Str)
  | zone (zones : ℕ) (groupId : Str)
  | upstream (store : Option ℕ) (publicKey : Key) (tenantId : Str)

/-- The tasks of the routes, with one for the upstream of each tenant not seen before. -/
def spawnTasks {Key : Type} (publicKey : Key) : List Str → List RouteEntry → List (Task Key)
  | _, [] => []
  | upstreamTenants, route :: rest =>
    .bundle route.store publicKey route.groupId :: .zone route.zones route.groupId ::
      if route.tenantId ∈ upstreamTenants then spawnTasks publicKey upstreamTenants rest
      else .upstream route.upstream.store publicKey route.tenantId ::
        spawnTasks publicKey (route.tenantId :: upstreamTenants) rest

/-- What the tasks take from elsewhere. -/
structure Libraries (Key : Type) where
  parse : Str → Option IpNet
  hickory : Hickory
  crypto : Crypto Key
  decoders : Decoders
  zoneRecords : List UInt8 → Option (List LocalZoneRecordDto)

section Router

variable {Key : Type} (lib : Libraries Key)

/-- `fetch_local_zone_records`, given the response to its request. -/
def fetchLocalZoneRecords : Option HttpResponse → Option (List LocalZoneRecordDto)
  | none => none
  | some resp => if resp.isError then none else resp.body.bind lib.zoneRecords

/-- A task that gets this response.  A publication that panics ends the task with the
store as it was. -/
def Heap.runTask (heap : Heap) (response : Option HttpResponse) : Task Key → Heap
  | .bundle store publicKey _ =>
    { heap with
      bundles := Function.update heap.bundles store
        (fetchAndPublishBundle lib.crypto lib.decoders (heap.bundles store) publicKey response).2 }
  | .zone zones _ =>
    match (fetchLocalZoneRecords lib response).bind (publish lib.hickory) with
    | none => heap
    | some data => { heap with zones := Function.update heap.zones zones data }
  | .upstream none _ _ => heap
  | .upstream (some store) publicKey _ =>
    match fetchUpstreamBundle lib.crypto lib.decoders publicKey response with
    | .error _ => heap
    | .ok bundle =>
      { heap with
        upstreams := Function.update heap.upstreams store
          (UpstreamBundleStore.publish (heap.upstreams store) bundle).2 }

/-! ### Runs -/

/-- The router, what its stores hold, and the tasks of the refresh under way. -/
structure State (Key : Type) where
  router : TenantRouter Key
  heap : Heap
  tasks : List (Task Key)

/-- `TenantRouter::new`, with the cache of its own at address 0. -/
def State.new (publicKey : Key) : State Key where
  router := ⟨publicKey, ⟨none, 0, .given⟩, []⟩
  heap := ⟨fun _ => none, fun _ => .empty, fun _ => none, 1⟩
  tasks := []

/-- `refresh_routes` with a fetched table, up to the tasks that it then waits for. -/
def State.refreshRoutes (s : State Key) (publicKey : Key) (entries : List RoutingTableEntry) :
    State Key :=
  let l := RefreshLoop.run lib.parse s.router.routes s.heap.next entries
  { router := { s.router with publicKey, routes := l.newRoutes }
    heap := s.heap.extend l.free
    tasks := spawnTasks publicKey [] l.newRoutes }

/-- Refreshes follow one another, and each waits for its tasks; these finish in any order,
whatever they are answered. -/
inductive Step (s : State Key) : State Key → Prop
  | refreshFailed {publicKey : Key} (hidle : s.tasks = []) :
    Step s { s with router := { s.router with publicKey } }
  | refresh {publicKey : Key} {entries : List RoutingTableEntry} (hidle : s.tasks = [])
      (hdistinct : (entries.map (·.groupId)).Nodup) :
    Step s (s.refreshRoutes lib publicKey entries)
  | task {before after : List (Task Key)} {task : Task Key} {response : Option HttpResponse}
      (htasks : s.tasks = before ++ task :: after) :
    Step s { s with heap := s.heap.runTask lib response task, tasks := before ++ after }

def Run : State Key → State Key → Prop := Relation.ReflTransGen (Step lib)

/-- Runs on which the routes have a property all along. -/
def RunWhile (P : List RouteEntry → Prop) : State Key → State Key → Prop :=
  Relation.ReflTransGen fun s t => Step lib s t ∧ P t.router.routes

/-! ### Answering -/

/-- `match_route`. -/
def TenantRouter.matchRoute (router : TenantRouter Key) (ip : IpAddr) : Option RouteEntry :=
  maxByKey (·.net.len) (router.routes.filter (·.net.contains ip))

/-- What the servers hand to `build_response`; no zones are those of the server's own
empty store. -/
structure Answering where
  bundle : Option Pb.Bundle
  zones : Option ℕ
  cache : ℕ
  forwarder : Forwarder
  unmatchedRoute : Bool
  deriving DecidableEq

/-- `run_router_udp_server` and `run_router_tcp_server` on a query from an address. -/
def State.answering (s : State Key) (ip : IpAddr) : Answering :=
  let matched := s.router.matchRoute ip
  let upstream := (matched.map (·.upstream)).getD s.router.fallbackUpstream
  { bundle := matched.bind fun route => s.heap.bundles route.store
    zones := matched.map (·.zones)
    cache := (matched.map (·.cache)).getD upstream.cache
    forwarder := upstream.forwarder
    unmatchedRoute := matched.isNone }

/-- The state of a route. -/
def State.ofRoute (s : State Key) (route : RouteEntry) : Answering where
  bundle := s.heap.bundles route.store
  zones := some route.zones
  cache := route.cache
  forwarder := route.upstream.forwarder
  unmatchedRoute := false

/-- The state for clients without a route: it has no bundle and no zones. -/
def State.unmatched (s : State Key) : Answering where
  bundle := none
  zones := none
  cache := s.router.fallbackUpstream.cache
  forwarder := s.router.fallbackUpstream.forwarder
  unmatchedRoute := true

/-- **What answers a client**: one most specific route of its address, or the unmatched
state if there is none. -/
theorem State.answering_cases (s : State Key) (ip : IpAddr) :
    (∃ route ∈ s.router.routes, route.net.contains ip = true ∧
        (∀ other ∈ s.router.routes, other.net.contains ip = true →
          other.net.len ≤ route.net.len) ∧
        s.answering ip = s.ofRoute route) ∨
      (∀ route ∈ s.router.routes, route.net.contains ip = false) ∧
        s.answering ip = s.unmatched := by
  cases hmch : s.router.matchRoute ip with
  | none =>
    refine .inr ⟨fun route hrt => ?_, by simp [State.answering, hmch, State.unmatched]⟩
    simpa using filter_eq_nil_iff.mp (maxByKey_eq_none.mp hmch) route hrt
  | some route =>
    obtain ⟨hmem, hmax⟩ := maxByKey_spec hmch
    obtain ⟨hrt, hip⟩ := mem_filter.mp hmem
    refine .inl ⟨route, hrt, hip, fun other hoth hcon => ?_, ?_⟩
    · exact hmax other (mem_filter.mpr ⟨hoth, hcon⟩)
    · simp [State.answering, hmch, State.ofRoute]

/-! ### What two routes share -/

/-- The forwarder does not lie beyond an address. -/
def Forwarder.Below (next : ℕ) : Forwarder → Prop
  | .given => True
  | .upstreamBundle addr _ _ => addr < next

/-- Groups share no store, no zones and no cache; tenants share no upstream store and no
forwarder, and their groups have the same; everything lies below `next`. -/
structure Separated (routes : List RouteEntry) (next : ℕ) : Prop where
  store : Shared (·.groupId) (·.store) routes
  zones : Shared (·.groupId) (·.zones) routes
  cache : Shared (·.groupId) (·.cache) routes
  upstreamStore : Shared (·.tenantId) (·.upstream.store) routes
  forwarder : Shared (·.tenantId) (·.upstream.forwarder) routes
  store_lt : ∀ r ∈ routes, r.store < next
  zones_lt : ∀ r ∈ routes, r.zones < next
  cache_lt : ∀ r ∈ routes, r.cache < next
  upstreamStore_lt : ∀ r ∈ routes, ∀ p ∈ r.upstream.store, p < next
  forwarder_below : ∀ r ∈ routes, r.upstream.forwarder.Below next

theorem Forwarder.Below.mono {f : Forwarder} {m n : ℕ} (h : f.Below m) (hle : m ≤ n) :
    f.Below n := by
  cases f with
  | given => trivial
  | upstreamBundle => exact lt_of_lt_of_le h hle

theorem Separated.nil {next : ℕ} : Separated [] next := by
  constructor <;> simp [Shared]

theorem Separated.subset {routes routes' : List RouteEntry} {next : ℕ}
    (h : Separated routes next) (hsub : routes' ⊆ routes) : Separated routes' next where
  store := h.store.subset hsub
  zones := h.zones.subset hsub
  cache := h.cache.subset hsub
  upstreamStore := h.upstreamStore.subset hsub
  forwarder := h.forwarder.subset hsub
  store_lt r hr := h.store_lt r (hsub hr)
  zones_lt r hr := h.zones_lt r (hsub hr)
  cache_lt r hr := h.cache_lt r (hsub hr)
  upstreamStore_lt r hr := h.upstreamStore_lt r (hsub hr)
  forwarder_below r hr := h.forwarder_below r (hsub hr)

section Loop

variable {existing newRoutes : List RouteEntry} {free : ℕ} {net : IpNet}
  {entry : RoutingTableEntry}

theorem find?_group (hnew : ∀ r ∈ newRoutes, r.groupId ≠ entry.groupId) :
    existing.find? (·.groupId = entry.groupId) =
      (existing ++ newRoutes).find? (·.groupId = entry.groupId) := by
  -- the source looks among the old routes only, but the new ones do not have the group
  have hnone : newRoutes.find? (·.groupId = entry.groupId) = none :=
    find?_eq_none.mpr fun r hr => by simpa using hnew r hr
  rw [find?_append, hnone, Option.or_none]

theorem routeEntry_upstream :
    (routeEntry existing newRoutes free net entry).upstream =
      (((existing ++ newRoutes).find? (·.tenantId = entry.tenantId)).map (·.upstream)).getD
        (newTenantUpstreamRuntime (free + 3)) := by
  rw [find?_append]
  dsimp only [routeEntry]
  cases existing.find? (·.tenantId = entry.tenantId) <;> rfl

theorem getD_find? {α β : Type} {p : α → Bool} {f : α → β} {l : List α} {fresh : β}
    {P : β → Prop} (hall : ∀ x ∈ l, P (f x)) (hfre : P fresh) :
    P (((l.find? p).map f).getD fresh) := by
  cases hfind : l.find? p with
  | none => exact hfre
  | some x => exact hall x (mem_of_find?_eq_some hfind)

/-- **One more route** keeps them apart. -/
theorem Separated.concat (h : Separated (existing ++ newRoutes) free)
    (hnew : ∀ r ∈ newRoutes, r.groupId ≠ entry.groupId) :
    Separated (existing ++ newRoutes ++ [routeEntry existing newRoutes free net entry])
      (free + 7) := by
  set rows := existing ++ newRoutes with hrows
  set route := routeEntry existing newRoutes free net entry with hrt
  -- what the new route shares it takes from the first row of its group or tenant
  have hfind : existing.find? (·.groupId = entry.groupId) = rows.find? _ := find?_group hnew
  have hup : route.upstream = _ := routeEntry_upstream
  have hsto : route.store = ((rows.find? (·.groupId = entry.groupId)).map (·.store)).getD free :=
    by rw [← hfind]; rfl
  have hzs : route.zones =
      ((rows.find? (·.groupId = entry.groupId)).map (·.zones)).getD (free + 1) := by
    rw [← hfind]; rfl
  have hcac : route.cache =
      ((rows.find? (·.groupId = entry.groupId)).map (·.cache)).getD (free + 2) := by
    rw [← hfind]; rfl
  have hups : route.upstream.store =
      ((rows.find? (·.tenantId = entry.tenantId)).map (·.upstream.store)).getD
        (some (free + 3)) := by
    rw [hup]
    cases rows.find? (·.tenantId = entry.tenantId) <;> rfl
  have hfor : route.upstream.forwarder =
      ((rows.find? (·.tenantId = entry.tenantId)).map (·.upstream.forwarder)).getD
        (newTenantUpstreamRuntime (free + 3)).forwarder := by
    rw [hup]
    cases rows.find? (·.tenantId = entry.tenantId) <;> rfl
  have hlt : ∀ {f : RouteEntry → ℕ}, (∀ r ∈ rows, f r < free) → ∀ r ∈ rows, f r < free + 7 :=
    fun hf r hr => (hf r hr).trans (by omega)
  -- five columns are shared by their keys, and all numbers stay below the next free one
  constructor
  · refine h.store.concat ?_
    rw [hsto]
    exact h.store.reuse fun r hr => (h.store_lt r hr).ne
  · refine h.zones.concat ?_
    rw [hzs]
    exact h.zones.reuse fun r hr => ((h.zones_lt r hr).trans (by omega)).ne
  · refine h.cache.concat ?_
    rw [hcac]
    exact h.cache.reuse fun r hr => ((h.cache_lt r hr).trans (by omega)).ne
  · refine h.upstreamStore.concat ?_
    rw [hups]
    refine h.upstreamStore.reuse fun r hr heq => ?_
    exact absurd (h.upstreamStore_lt r hr (free + 3) heq) (by omega)
  · refine h.forwarder.concat ?_
    rw [hfor]
    refine h.forwarder.reuse fun r hr heq => ?_
    have hbel := h.forwarder_below r hr
    rw [heq] at hbel
    exact absurd (show free + 3 + 2 < free from hbel) (by omega)
  · refine forall_concat (hlt h.store_lt) ?_
    rw [hsto]
    exact getD_find? (P := (· < free + 7)) (hlt h.store_lt) (by omega)
  · refine forall_concat (hlt h.zones_lt) ?_
    rw [hzs]
    exact getD_find? (P := (· < free + 7)) (hlt h.zones_lt) (by omega)
  · refine forall_concat (hlt h.cache_lt) ?_
    rw [hcac]
    exact getD_find? (P := (· < free + 7)) (hlt h.cache_lt) (by omega)
  · have hall : ∀ r ∈ rows, ∀ p ∈ r.upstream.store, p < free + 7 :=
      fun r hr p hp => (h.upstreamStore_lt r hr p hp).trans (by omega)
    refine forall_concat hall ?_
    rw [hups]
    refine getD_find? (P := fun store : Option ℕ => ∀ p ∈ store, p < free + 7) hall ?_
    simp
  · have hall : ∀ r ∈ rows, r.upstream.forwarder.Below (free + 7) :=
      fun r hr => (h.forwarder_below r hr).mono (by omega)
    refine forall_concat hall ?_
    rw [hfor]
    exact getD_find? (P := Forwarder.Below (free + 7)) hall (show free + 3 + 2 < free + 7 by omega)

variable {parse : Str → Option IpNet}
variable {l : RefreshLoop} {entries : List RoutingTableEntry}

theorem RefreshLoop.separated_foldl (hdistinct : (entries.map (·.groupId)).Nodup)
    (hnew : ∀ r ∈ l.newRoutes, r.groupId ∉ entries.map (·.groupId))
    (h : Separated (existing ++ l.newRoutes) l.free) :
    Separated (existing ++ (entries.foldl (RefreshLoop.entry parse existing) l).newRoutes)
        (entries.foldl (RefreshLoop.entry parse existing) l).free ∧
      l.free ≤ (entries.foldl (RefreshLoop.entry parse existing) l).free := by
  -- entry by entry; one that does not parse is skipped
  induction entries generalizing l with
  | nil => exact ⟨h, le_rfl⟩
  | cons entry rest ih =>
    rw [map_cons, nodup_cons] at hdistinct
    rw [foldl_cons]
    cases hpar : parse entry.cidr with
    | none =>
      have hskip : RefreshLoop.entry parse existing l entry = l := by
        rw [RefreshLoop.entry, hpar]
      rw [hskip]
      exact ih hdistinct.2 (fun r hr hmem => hnew r hr (mem_cons_of_mem _ hmem)) h
    | some net =>
      have hpush : RefreshLoop.entry parse existing l entry =
          ⟨l.newRoutes ++ [routeEntry existing l.newRoutes l.free net entry], l.free + 7⟩ := by
        rw [RefreshLoop.entry, hpar]
      rw [hpush]
      have hgrp : ∀ r ∈ l.newRoutes, r.groupId ≠ entry.groupId :=
        fun r hr heq => hnew r hr (heq ▸ mem_cons_self)
      obtain ⟨hsep, hle⟩ := ih
        (l := ⟨l.newRoutes ++ [routeEntry existing l.newRoutes l.free net entry], l.free + 7⟩)
        hdistinct.2
        (forall_concat (fun r hr hmem => hnew r hr (mem_cons_of_mem _ hmem)) hdistinct.1)
        (by rw [← append_assoc]; exact h.concat hgrp)
      exact ⟨hsep, (Nat.le_add_right _ 7).trans hle⟩

/-- **What routes share after a refresh**, old and new ones together. -/
theorem RefreshLoop.separated (hdistinct : (entries.map (·.groupId)).Nodup)
    (h : Separated existing free) :
    Separated (existing ++ (RefreshLoop.run parse existing free entries).newRoutes)
        (RefreshLoop.run parse existing free entries).free ∧
      free ≤ (RefreshLoop.run parse existing free entries).free :=
  RefreshLoop.separated_foldl (l := ⟨[], free⟩) hdistinct (by simp) (by simpa using h)

theorem RefreshLoop.map_toRouteEntry :
    (entries.foldl (RefreshLoop.entry parse existing) l).newRoutes.map (·.toRouteEntry) =
      l.newRoutes.map (·.toRouteEntry) ++ Routing.refreshRoutes parse entries := by
  induction entries generalizing l with
  | nil => simp [Routing.refreshRoutes]
  | cons entry rest ih =>
    rw [foldl_cons, ih, RefreshLoop.entry]
    cases hpar : parse entry.cidr with
    | none => simp [Routing.refreshRoutes, hpar]
    | some => simp [routeEntry, Routing.refreshRoutes, hpar]

end Loop

/-- The route of an address after a refresh, without its stores, is the one of the table. -/
theorem matchRoute_refreshRoutes (s : State Key) (publicKey : Key)
    (entries : List RoutingTableEntry) (ip : IpAddr) :
    ((s.refreshRoutes lib publicKey entries).router.matchRoute ip).map (·.toRouteEntry) =
      Routing.matchRoute (Routing.refreshRoutes lib.parse entries) ip := by
  have hrts : (s.refreshRoutes lib publicKey entries).router.routes.map (·.toRouteEntry) =
      Routing.refreshRoutes lib.parse entries := RefreshLoop.map_toRouteEntry
  rw [← hrts, Routing.matchRoute, List.filter_map, maxByKey_map]
  rfl

/-! ### Every run -/

variable {lib} {s t : State Key}
variable {heap : Heap} {response : Option HttpResponse} {task : Task Key}
  {P : List RouteEntry → Prop} {r r' : RouteEntry}

theorem Heap.runTask_next :
    (heap.runTask lib response task).next = heap.next := by
  cases task with
  | bundle => rfl
  | zone =>
    rw [Heap.runTask]
    split <;> rfl
  | upstream store =>
    cases store with
    | none => rfl
    | some =>
      rw [Heap.runTask]
      split <;> rfl

theorem Heap.installed_le_runTask (p : ℕ) :
    installed Pb.Bundle.version (heap.bundles p) ≤
      installed Pb.Bundle.version ((heap.runTask lib response task).bundles p) := by
  cases task with
  | bundle store publicKey groupId =>
    -- only the task of this slot writes it, and only a newer bundle
    by_cases hp : p = store
    · subst hp
      have hwr : (heap.runTask lib response (.bundle p publicKey groupId)).bundles p =
          (fetchAndPublishBundle lib.crypto lib.decoders (heap.bundles p) publicKey response).2 :=
        Function.update_self ..
      rw [hwr]
      rcases fetchAndPublishBundle_cases (heap.bundles p) with heq | ⟨bundle, -, -, hlt, heq⟩
      · rw [heq]
      · rw [heq]
        exact hlt.le
    · exact le_of_eq (congrArg _ (Function.update_of_ne hp _ _).symm)
  | zone =>
    rw [Heap.runTask]
    split <;> exact le_rfl
  | upstream store =>
    cases store with
    | none => exact le_rfl
    | some =>
      rw [Heap.runTask]
      split <;> exact le_rfl

/-- **What one step can do**: the routes before and after are kept apart together, and no
store that was in use goes back to an older bundle. -/
theorem Step.separated (h : Step lib s t) (hs : Separated s.router.routes s.heap.next) :
    Separated (s.router.routes ++ t.router.routes) t.heap.next ∧
      ∀ p < s.heap.next, installed Pb.Bundle.version (s.heap.bundles p) ≤
        installed Pb.Bundle.version (t.heap.bundles p) := by
  have hself : s.router.routes ++ s.router.routes ⊆ s.router.routes := by simp
  cases h with
  | refreshFailed => exact ⟨hs.subset hself, fun _ _ => le_rfl⟩
  | refresh hidle hdistinct =>
    refine ⟨(RefreshLoop.separated hdistinct hs).1, fun p hp => ?_⟩
    rw [State.refreshRoutes, Heap.extend_bundles hp]
  | task =>
    refine ⟨?_, fun p _ => Heap.installed_le_runTask p⟩
    rw [Heap.runTask_next]
    exact hs.subset hself

theorem Run.separated {publicKey : Key} (h : Run lib (State.new publicKey) s) :
    Separated s.router.routes s.heap.next := by
  induction h with
  | refl => exact Separated.nil
  | tail _ hstep ih => exact (hstep.separated ih).1.subset (subset_append_right _ _)

theorem RunWhile.property (h : RunWhile lib P s t) (hs : P s.router.routes) :
    P t.router.routes := by
  rcases Relation.ReflTransGen.cases_tail h with rfl | ⟨_, -, hlast⟩
  · exact hs
  · exact hlast.2

/-- A group is routed. -/
def Routed (groupId : Str) (routes : List RouteEntry) : Prop := ∃ r ∈ routes, r.groupId = groupId

/-- A tenant has a routed group. -/
def RoutedTenant (tenantId : Str) (routes : List RouteEntry) : Prop :=
  ∃ r ∈ routes, r.tenantId = tenantId

/-- The new route of a group has the stores of the old one. -/
structure Kept (s t : State Key) (r r' : RouteEntry) : Prop where
  store : r'.store = r.store
  zones : r'.zones = r.zones
  cache : r'.cache = r.cache
  version : installed Pb.Bundle.version (s.heap.bundles r.store) ≤
    installed Pb.Bundle.version (t.heap.bundles r'.store)

theorem RunWhile.separated (h : RunWhile lib P s t) (hs : Separated s.router.routes s.heap.next) :
    Separated t.router.routes t.heap.next := by
  induction h with
  | refl => exact hs
  | tail _ hstep ih => exact (hstep.1.separated ih).1.subset (subset_append_right _ _)

/-- **A group that stays routed** keeps its stores. -/
theorem RunWhile.kept {groupId : Str} (h : RunWhile lib (Routed groupId) s t)
    (hs : Separated s.router.routes s.heap.next) (hr : r ∈ s.router.routes)
    (hgrp : r.groupId = groupId) (hr' : r' ∈ t.router.routes) (hgrp' : r'.groupId = groupId) :
    Kept s t r r' := by
  induction h generalizing r' with
  | refl =>
    have hsame := hgrp'.trans hgrp.symm
    have hsto : r'.store = r.store := (hs.store r' hr' r hr).mpr hsame
    exact ⟨hsto, (hs.zones r' hr' r hr).mpr hsame, (hs.cache r' hr' r hr).mpr hsame,
      le_of_eq (by rw [hsto])⟩
  | @tail u t hrun hstep ih =>
    -- the group had a route before the last step as well
    obtain ⟨m, hm, hmid⟩ := RunWhile.property hrun ⟨r, hr, hgrp⟩
    have hkept := ih hm hmid
    have hu := RunWhile.separated hrun hs
    obtain ⟨hsep, hver⟩ := hstep.1.separated hu
    have hold := mem_append_left t.router.routes hm
    have hnew := mem_append_right u.router.routes hr'
    have hsame := hgrp'.trans hmid.symm
    have hsto : r'.store = m.store := (hsep.store r' hnew m hold).mpr hsame
    refine ⟨hsto.trans hkept.store, ((hsep.zones r' hnew m hold).mpr hsame).trans hkept.zones,
      ((hsep.cache r' hnew m hold).mpr hsame).trans hkept.cache, hkept.version.trans ?_⟩
    rw [hsto]
    exact hver _ (hu.store_lt m hm)

/-- **A tenant that stays routed** keeps its upstream store and forwarder. -/
theorem RunWhile.kept_upstream {tenantId : Str} (h : RunWhile lib (RoutedTenant tenantId) s t)
    (hs : Separated s.router.routes s.heap.next) (hr : r ∈ s.router.routes)
    (hten : r.tenantId = tenantId) (hr' : r' ∈ t.router.routes)
    (hten' : r'.tenantId = tenantId) :
    r'.upstream.store = r.upstream.store ∧ r'.upstream.forwarder = r.upstream.forwarder := by
  induction h generalizing r' with
  | refl =>
    have hsame := hten'.trans hten.symm
    exact ⟨(hs.upstreamStore r' hr' r hr).mpr hsame, (hs.forwarder r' hr' r hr).mpr hsame⟩
  | @tail u t hrun hstep ih =>
    obtain ⟨m, hm, hmid⟩ := RunWhile.property hrun ⟨r, hr, hten⟩
    obtain ⟨hsto, hfor⟩ := ih hm hmid
    have hsep := (hstep.1.separated (RunWhile.separated hrun hs)).1
    have hold := mem_append_left t.router.routes hm
    have hnew := mem_append_right u.router.routes hr'
    have hsame := hten'.trans hmid.symm
    exact ⟨((hsep.upstreamStore r' hnew m hold).mpr hsame).trans hsto,
      ((hsep.forwarder r' hnew m hold).mpr hsame).trans hfor⟩

/-- **Tenants are kept apart.**  In every state that refreshes with any tables of distinct
groups lead to, with any fetches failing:

* routes of different groups share no store, no zones and no cache;
* two routes have the same upstream store, and the same forwarder, exactly when their
  tenant is the same;
* a group keeps its stores as long as it is routed, and the version in its store does
  not go down; a tenant keeps its upstream store and forwarder as long as it is;
* a client is answered from one most specific route of its address, or, without one,
  from the unmatched state. -/
theorem tenants_separated {publicKey : Key} (h : Run lib (State.new publicKey) s) :
    (∀ r ∈ s.router.routes, ∀ r' ∈ s.router.routes,
      (r.groupId ≠ r'.groupId →
        r.store ≠ r'.store ∧ r.zones ≠ r'.zones ∧ r.cache ≠ r'.cache) ∧
      (r.upstream.store = r'.upstream.store ↔ r.tenantId = r'.tenantId) ∧
      (r.upstream.forwarder = r'.upstream.forwarder ↔ r.tenantId = r'.tenantId)) ∧
    (∀ groupId t, RunWhile lib (Routed groupId) s t →
      ∀ r ∈ s.router.routes, r.groupId = groupId →
        Routed groupId t.router.routes ∧
        ∀ r' ∈ t.router.routes, r'.groupId = groupId → Kept s t r r') ∧
    (∀ tenantId t, RunWhile lib (RoutedTenant tenantId) s t →
      ∀ r ∈ s.router.routes, r.tenantId = tenantId →
        ∀ r' ∈ t.router.routes, r'.tenantId = tenantId →
          r'.upstream.store = r.upstream.store ∧ r'.upstream.forwarder = r.upstream.forwarder) ∧
    ∀ ip, (∃ r ∈ s.router.routes, r.net.contains ip = true ∧
        (∀ r' ∈ s.router.routes, r'.net.contains ip = true → r'.net.len ≤ r.net.len) ∧
        s.answering ip = s.ofRoute r) ∨
      (∀ r ∈ s.router.routes, r.net.contains ip = false) ∧
        s.answering ip = s.unmatched ∧ (s.answering ip).bundle = none := by
  have hsep := Run.separated h
  refine ⟨fun r hr r' hr' => ⟨fun hne => ?_, ?_, ?_⟩, fun groupId t hrun r hr hgrp => ?_,
    fun tenantId t hrun r hr hten r' hr' hten' => ?_, fun ip => ?_⟩
  · exact ⟨fun heq => hne ((hsep.store r hr r' hr').mp heq),
      fun heq => hne ((hsep.zones r hr r' hr').mp heq),
      fun heq => hne ((hsep.cache r hr r' hr').mp heq)⟩
  · exact hsep.upstreamStore r hr r' hr'
  · exact hsep.forwarder r hr r' hr'
  · exact ⟨RunWhile.property hrun ⟨r, hr, hgrp⟩,
      fun r' hr' hgrp' => RunWhile.kept hrun hsep hr hgrp hr' hgrp'⟩
  · exact RunWhile.kept_upstream hrun hsep hr hten hr' hten'
  · rcases s.answering_cases ip with hrt | ⟨hnone, heq⟩
    · exact .inl hrt
    · exact .inr ⟨hnone, heq, by rw [heq]; rfl⟩

end Router

/-! Two groups of one tenant and one of another. -/

def sampleLibraries : Libraries Unit where
  parse := Node.Routing.sampleParse
  hickory := ⟨fun _ => [], fun _ => [], fun _ => none, fun _ => none⟩
  crypto := sampleCrypto
  decoders := sampleDecoders
  zoneRecords _ := none

def sampleTable : List RoutingTableEntry :=
  [⟨"10.8.0.0/16", "staff", "acme"⟩,
    ⟨"10.8.1.0/24", "guests", "acme"⟩,
    ⟨"10.9.0.0/16", "lab", "globex"⟩]

/-- The first refresh, of whose tasks one has finished. -/
def sampleState : State Unit :=
  let s := (State.new ()).refreshRoutes sampleLibraries () sampleTable
  { s with
    heap := s.heap.runTask sampleLibraries (sampleResponse [1]) (.bundle 1 () "staff")
    tasks := s.tasks.tail }

theorem sampleState_run : Run sampleLibraries (State.new ()) sampleState := by
  have hfst : Step sampleLibraries (State.new ())
      ((State.new ()).refreshRoutes sampleLibraries () sampleTable) :=
    .refresh rfl (by decide +kernel)
  refine .tail (.single hfst) ?_
  exact @Step.task _ sampleLibraries _ [] _ (.bundle 1 () "staff") (sampleResponse [1]) rfl

theorem tenants_separated_sample :
    (∃ r ∈ sampleState.router.routes, ∃ r' ∈ sampleState.router.routes,
      r.groupId ≠ r'.groupId ∧ r.tenantId = r'.tenantId ∧ r.cache ≠ r'.cache ∧
        r.upstream.store = r'.upstream.store) ∧
    (sampleState.answering (.v4 0x0A080007)).bundle =
      some (samplePolicyBundle "staff" 1 1) ∧
    (sampleState.answering (.v4 0x0B000001)).bundle = none := by
  obtain ⟨hsha, -, -, hans⟩ := tenants_separated sampleState_run
  obtain ⟨r, hr, r', hr', hgrp, hten⟩ : ∃ r ∈ sampleState.router.routes,
      ∃ r' ∈ sampleState.router.routes, r.groupId ≠ r'.groupId ∧ r.tenantId = r'.tenantId := by
    decide +kernel
  obtain ⟨happ, hsto, -⟩ := hsha r hr r' hr'
  refine ⟨⟨r, hr, r', hr', hgrp, hten, (happ hgrp).2.2, hsto.mpr hten⟩, ?_, ?_⟩
  · decide +kernel
  · rcases hans (.v4 0x0B000001) with ⟨r, hr, hip, -⟩ | ⟨-, -, hnone⟩
    · have hout : ∀ r ∈ sampleState.router.routes, r.net.contains (.v4 0x0B000001) = false := by
        decide +kernel
      exact absurd hip (by rw [hout r hr]; decide)
    · exact hnone

end Node.Router
