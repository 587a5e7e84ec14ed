/-
The DHCPv4 daemon.

`handle` says what a packet makes the daemon do, `firstFree` how it searches the
range of a scope; `daemon` is the machine with both.

* `firstFree_spec` — an address found is in the range, has no row and is not
  reserved;
* `handle_request`, `mem_handleRequest_none` — what a REQUEST makes it do;
* `searched_pickConflictFreeCandidate` — probing for conflicts is bounded and sound;
* `heldServed_iff_none` — an address on hold is not offered to the client it is kept for.
-/
import MantisDns.LeaseReplay
import MantisDns.Addresses

open Text Table Dns Dhcp List
open Option hiding join

namespace Dhcp4

variable {mac : Mac} {scope : Scope} {ip : UInt32} {now : ℤ}

/-! ### Clients and scopes -/

/-- `mac_address` of a packet, in lower case. -/
structure Mac where
  text : Str
  lower : lowerAscii text = text
  deriving DecidableEq

/-- The empty text, of packets without a hardware address and of recorded
conflicts. -/
def Mac.none : Mac := ⟨[], rfl⟩

/-- `mac_from_chaddr`, of the bytes that the packet counts as its address. -/
def macFromChaddr (chaddr : List UInt8) : Mac where
  text := join ":" ((chaddr.take 6).map hexByte)
  lower := by
    rw [lowerAscii_join, List.map_map]
    refine congrArg₂ join (by decide) (map_congr_left fun b _ => ?_)
    exact (map_congr_left fun c hc => (hexByte_lower hc).1).trans (List.map_id _)

structure Scope where
  id : Str
  rangeStart : UInt32
  rangeEnd : UInt32
  leaseTimeS : ℤ

def Scope.inPool (scope : Scope) (ip : UInt32) : Bool :=
  scope.rangeStart ≤ ip && ip ≤ scope.rangeEnd

/-- The range, both ends included. -/
def Scope.range (scope : Scope) : List UInt32 :=
  (List.range' scope.rangeStart.toNat
    (scope.rangeEnd.toNat + 1 - scope.rangeStart.toNat)).map UInt32.ofNat

/-- `eq_ignore_ascii_case` of the address entered and the one of a packet.  The
snapshot's map compares them in lower case, which is the same: a packet's
address is ASCII. -/
def owns (entered : Str) (mac : Mac) : Bool := lowerAscii entered = lowerAscii mac.text

theorem owns_unique {entered : Str} {mac' : Mac} (h : owns entered mac = true)
    (h' : owns entered mac' = true) : mac = mac' := by
  have heq : lowerAscii mac.text = lowerAscii mac'.text :=
    (of_decide_eq_true h).symm.trans (of_decide_eq_true h')
  rw [mac.lower, mac'.lower] at heq
  cases mac
  cases mac'
  simpa using heq

/-! ### The pool -/

/-- `taken_or_reserved_addresses`: a reservation whose address does not parse
fails the query. -/
def takenOrReservedAddresses (T : Leases UInt32 Mac) (reservations : List StaticLease)
    (scopeId : Str) : Option (List UInt32) :=
  let leased := (T.rows.filter (·.scopeId = scopeId)).map (·.ip)
  let reserved := (reservations.filter fun r => r.scopeId = scopeId ∧ r.enabled = true).mapM
    fun r => parseIpv4 r.ipAddress
  reserved.map (leased ++ ·)

/-- The first free address of the range: what `allocate` inserts, and what
`peek_free_ip_excluding` returns. -/
def firstFree (scope : Scope) (T : Leases UInt32 Mac) (reservations : List StaticLease)
    (excluded : List UInt32) : Option UInt32 := do
  let taken ← takenOrReservedAddresses T reservations scope.id
  scope.range.find? fun ip => ip ∉ taken ∧ ip ∉ excluded

theorem inPool_of_mem_range (h : ip ∈ scope.range) :
    scope.inPool ip = true := by
  obtain ⟨n, hn, rfl⟩ := List.mem_map.mp h
  have hn := mem_range'_1.mp hn
  have hend : scope.rangeEnd.toNat < UInt32.size := scope.rangeEnd.toNat_lt
  have htoN : (UInt32.ofNat n).toNat = n := UInt32.toNat_ofNat_of_lt (by omega)
  simp only [Scope.inPool, Bool.and_eq_true, decide_eq_true_eq, UInt32.le_iff_toNat_le, htoN]
  omega

/-- **An address that was found is free.** -/
theorem firstFree_spec {T : Leases UInt32 Mac} {reservations : List StaticLease}
    {excluded : List UInt32} (h : firstFree scope T reservations excluded = some ip) :
    scope.inPool ip = true ∧ T.find (scope.id, ip) = none ∧
      ∀ r ∈ reservations, r.enabled = true → r.scopeId = scope.id →
        parseIpv4 r.ipAddress ≠ some ip := by
  simp only [firstFree, bind_eq_bind, bind_eq_some_iff] at h
  obtain ⟨taken, htak, hfind⟩ := h
  have hnot : ip ∉ taken := by
    have hp := find?_some hfind
    simp only [decide_eq_true_eq] at hp
    exact hp.1
  obtain ⟨reserved, hres, rfl⟩ := map_eq_some_iff.mp htak
  rw [mem_append, not_or] at hnot
  refine ⟨inPool_of_mem_range (mem_of_find?_eq_some hfind), ?_, ?_⟩
  · refine T.find_eq_none_iff.mpr fun row hrow hkey => hnot.1 ?_
    obtain ⟨hsc, hip⟩ := Prod.mk.inj hkey
    exact List.mem_map.mpr ⟨row, mem_filter.mpr ⟨hrow, by simpa using hsc⟩, hip⟩
  · intro r hr hena hsc hpar
    have hmem : r ∈ reservations.filter fun r => r.scopeId = scope.id ∧ r.enabled = true :=
      mem_filter.mpr ⟨hr, by simp [hena, hsc]⟩
    exact hnot.2 (mem_of_mapM hres hmem hpar)

def family : Family Scope UInt32 Mac where
  scopeId := Scope.id
  leaseType _ := .na
  nobody := Mac.none
  text := ipv4Text
  parse := parseIpv4
  leaseType_of_parse _ := rfl
  owns := owns
  owns_unique := owns_unique
  attempts := 1
  scan scope T reservations excluded _ := firstFree scope T reservations excluded
  scan_free h := by
    obtain ⟨-, hrow, hreserved⟩ := firstFree_spec h
    exact ⟨rfl, hrow, fun r hr henabled hscope hat => hreserved r hr henabled hscope hat.2⟩

/-! ### Packets -/

inductive MessageType
  | discover
  | request
  | release
  | decline
  | inform
  | other
  deriving DecidableEq

structure Message where
  messageType : MessageType
  chaddr : List UInt8
  ciaddr : UInt32
  requestedIp : Option UInt32
  serverIdentifier : Option UInt32
  hostname : Option Str

structure Server where
  serverIp : UInt32
  conflictDetectionEnabled : Bool
  conflictProbeMaxAttempts : ℕ

/-- How often `pick_conflict_free_candidate` tries. -/
def Server.attempts (srv : Server) : ℕ :=
  max (if srv.conflictDetectionEnabled then srv.conflictProbeMaxAttempts else 1) 1

def leaseS (scope : Scope) : ℤ := max scope.leaseTimeS 1

def handleDiscover (srv : Server) (scope : Scope) (mac : Mac)
    (reservation : Option (Reservation UInt32)) : Task Scope UInt32 Mac :=
  let job : Job Scope Mac := ⟨scope, mac, none, leaseS scope⟩
  match reservation with
  | some res => .reply job .advertise res.ip
  | none => .lookup job (.discover srv.conflictDetectionEnabled srv.attempts)

/-- `handle_request`.  A request that is refused at once needs no task. -/
def handleRequest (scope : Scope) (mac : Mac) (hostname : Option Str) (want : Option UInt32)
    (reservation : Option (Reservation UInt32)) (now : ℤ) : List (Task Scope UInt32 Mac) :=
  let job : Job Scope Mac := ⟨scope, mac, hostname, leaseS scope⟩
  match reservation, want with
  | some res, want =>
    if want.any (· ≠ res.ip) then []
    else [.confirm { job with hostname := hostname.or res.hostname } (now + seconds (leaseS scope))
      res.ip]
  | none, some ip => if scope.inPool ip then [.transact job (.claim .grant ip)] else []
  | none, none => [.transact job (.allocate .grant)]

theorem mem_handleRequest_none {hostname : Option Str} {want : Option UInt32}
    {task : Task Scope UInt32 Mac} (h : task ∈ handleRequest scope mac hostname want none now) :
    ∃ tx : Tx UInt32, tx.answer = .grant ∧
      task = .transact ⟨scope, mac, hostname, leaseS scope⟩ tx := by
  cases want with
  | none => exact ⟨_, rfl, mem_singleton.mp h⟩
  | some =>
    simp only [handleRequest] at h
    split at h
    · exact ⟨_, rfl, mem_singleton.mp h⟩
    · simp at h

/-- A packet for another server. -/
def Message.elsewhere (srv : Server) (msg : Message) : Bool :=
  msg.serverIdentifier.any (· ≠ srv.serverIp)

/-- The address that a REQUEST names. -/
def Message.want (msg : Message) : Option UInt32 :=
  msg.requestedIp.or (if msg.ciaddr = 0 then none else some msg.ciaddr)

/-- `handle`, for a packet of this scope. -/
def handle (srv : Server) (snapshot : Snapshot Scope UInt32) (scope : Scope) (msg : Message)
    (now : ℤ) : List (Task Scope UInt32 Mac) :=
  let mac := macFromChaddr msg.chaddr
  let reservation := family.reservationFor snapshot scope.id mac
  match msg.messageType with
  | .discover => [handleDiscover srv scope mac reservation]
  | .request =>
    if msg.elsewhere srv then []
    else handleRequest scope mac msg.hostname msg.want reservation now
  | .release =>
    if msg.elsewhere srv then [] else [.release scope.id mac .na (some msg.ciaddr)]
  | .decline => (msg.requestedIp.map fun ip => Task.decline scope.id mac ip).toList
  | .inform => []
  | .other => []

theorem handle_request {srv : Server} {snapshot : Snapshot Scope UInt32} {msg : Message}
    (htype : msg.messageType = .request) (hhere : msg.elsewhere srv = false) :
    handle srv snapshot scope msg now =
      handleRequest scope (macFromChaddr msg.chaddr) msg.hostname msg.want
        (family.reservationFor snapshot scope.id (macFromChaddr msg.chaddr)) now := by
  simp [handle, htype, hhere]

def daemon {ν : Type} (srv : ν → Server) (sweep : Sweep) : Daemon ν Scope UInt32 Mac Message where
  toFamily := family
  toSweep := sweep
  dispatch n := handle (srv n)

/-! ### Conflicts -/

/-- What a turn of the search meets: the tables when the range is searched and whether that
query fails, whether the probe is answered, and the leases when the conflict is recorded
and whether that fails. -/
structure Turn where
  leases : Leases UInt32 Mac
  reservations : List StaticLease
  peekFails : Bool
  answered : Bool
  atMark : Leases UInt32 Mac
  markFails : Bool
  now : ℤ

/-- A probe that was sent, and the leases after its conflict was recorded. -/
structure Probe where
  ip : UInt32
  answered : Bool
  marked : Option (Leases UInt32 Mac)

/-- The loop of `pick_conflict_free_candidate`: its result and its probes. -/
def pickLoop (srv : Server) (scope : Scope) :
    ℕ → List UInt32 → (ℕ → Turn) → Option UInt32 × List Probe
  | 0, _, _ => (none, [])
  | left + 1, excluded, turn =>
    let t := turn 0
    match if t.peekFails then none else firstFree scope t.leases t.reservations excluded with
    | none => (none, [])
    | some candidate =>
      if !srv.conflictDetectionEnabled then (some candidate, [])
      else if t.answered then
        let marked :=
          if t.markFails then none else some (family.markDeclined scope.id candidate t.now t.atMark)
        let rest := pickLoop srv scope left (candidate :: excluded) fun k => turn (k + 1)
        (rest.1, ⟨candidate, true, marked⟩ :: rest.2)
      else (some candidate, [⟨candidate, false, none⟩])

def pickConflictFreeCandidate (srv : Server) (scope : Scope) (turn : ℕ → Turn) :
    Option UInt32 × List Probe :=
  pickLoop srv scope srv.attempts [] turn

/-- **The search for a candidate**, of so many turns at most. -/
structure Searched (srv : Server) (scope : Scope) (turn : ℕ → Turn) (attempts : ℕ)
    (out : Option UInt32 × List Probe) : Prop where
  bounded : out.2.length ≤ attempts
  distinct : (out.2.map (·.ip)).Nodup
  recorded : ∀ k p, out.2[k]? = some p → p.answered = true → (turn k).markFails = true ∨
    ∃ T row, p.marked = some T ∧ T.find (scope.id, p.ip) = some row ∧ row.state = .declined
  -- in the tables of the last turn, which has the last probe
  free : ∀ ip, out.1 = some ip → scope.inPool ip = true ∧
    (turn (out.2.length - 1)).leases.find (scope.id, ip) = none ∧
    ∀ r ∈ (turn (out.2.length - 1)).reservations, r.enabled = true → r.scopeId = scope.id →
      parseIpv4 r.ipAddress ≠ some ip
  silent : ∀ ip, out.1 = some ip → (∀ p ∈ out.2, p.ip = ip → p.answered = false) ∧
    (srv.conflictDetectionEnabled = true → ∃ p ∈ out.2, p.ip = ip)

theorem not_mem_excluded {T : Leases UInt32 Mac} {reservations : List StaticLease}
    {excluded : List UInt32} (h : firstFree scope T reservations excluded = some ip) :
    ip ∉ excluded := by
  simp only [firstFree, bind_eq_bind, bind_eq_some_iff] at h
  obtain ⟨taken, -, hfind⟩ := h
  have hp := find?_some hfind
  simp only [decide_eq_true_eq] at hp
  exact hp.2

/-- A turn whose candidate answers, before a search that does not come back to it. -/
theorem Searched.cons {srv : Server} {turn : ℕ → Turn} {left : ℕ}
    {out : Option UInt32 × List Probe} {candidate : UInt32}
    (h : Searched srv scope (fun k => turn (k + 1)) left out)
    (hon : srv.conflictDetectionEnabled = true) (hne : ∀ p ∈ out.2, p.ip ≠ candidate) :
    Searched srv scope turn (left + 1) (out.1, ⟨candidate, true,
      if (turn 0).markFails then none
      else some (family.markDeclined scope.id candidate (turn 0).now (turn 0).atMark)⟩ ::
        out.2) where
  bounded := Nat.succ_le_succ h.bounded
  distinct := by
    refine nodup_cons.mpr ⟨fun hmem => ?_, h.distinct⟩
    obtain ⟨p, hp, heq⟩ := List.mem_map.mp hmem
    exact hne p hp heq
  recorded k p hp hans := by
    cases k with
    | zero =>
      cases hp
      by_cases hfai : (turn 0).markFails = true
      · exact .inl hfai
      · refine .inr ⟨_, _, if_neg hfai, (family.find_markDeclined).trans (if_pos rfl), ?_⟩
        cases (turn 0).atMark.find (scope.id, candidate) <;> rfl
    | succ k => exact h.recorded k p hp hans
  free ip hip := by
    -- the rest ends with a probe, which is one turn later in the whole
    obtain ⟨p, hp, -⟩ := (h.silent ip hip).2 hon
    have hfree := h.free ip hip
    rwa [Nat.sub_add_cancel (length_pos_of_mem hp)] at hfree
  silent ip hip := by
    obtain ⟨hsil, hpro⟩ := h.silent ip hip
    obtain ⟨p, hp, rfl⟩ := hpro hon
    refine ⟨forall_mem_cons.mpr ⟨fun heq => ?_, hsil⟩, fun _ => ?_⟩
    · exact absurd heq.symm (hne p hp)
    · exact ⟨p, mem_cons_of_mem _ hp, rfl⟩

/-- What was excluded is not probed again. -/
theorem pickLoop_spec (srv : Server) (scope : Scope) (left : ℕ) (excluded : List UInt32)
    (turn : ℕ → Turn) :
    Searched srv scope turn left (pickLoop srv scope left excluded turn) ∧
      ∀ p ∈ (pickLoop srv scope left excluded turn).2, p.ip ∉ excluded := by
  induction left generalizing excluded turn with
  | zero => exact ⟨⟨le_rfl, .nil, nofun, nofun, nofun⟩, nofun⟩
  | succ left ih =>
    rw [pickLoop]
    simp only
    split
    · exact ⟨⟨Nat.zero_le _, .nil, nofun, nofun, nofun⟩, nofun⟩
    · rename_i candidate hpeek
      obtain ⟨-, hfind⟩ := ite_none_left_eq_some.mp hpeek
      obtain ⟨hpool, hfree⟩ := firstFree_spec hfind
      have hnew := not_mem_excluded hfind
      cases hon : srv.conflictDetectionEnabled with
      | false =>
        refine ⟨⟨Nat.zero_le _, .nil, nofun, ?_, ?_⟩, nofun⟩
        · rintro ip ⟨⟩
          exact ⟨hpool, hfree⟩
        · exact fun ip _ => ⟨nofun, fun h => nomatch hon.symm.trans h⟩
      | true =>
        simp only [Bool.not_true, Bool.false_eq_true, if_false]
        split
        · -- the candidate is recorded and excluded
          obtain ⟨hrest, hfre⟩ := ih (candidate :: excluded) fun k => turn (k + 1)
          have hoth : ∀ p ∈ (pickLoop srv scope left (candidate :: excluded)
              fun k => turn (k + 1)).2, p.ip ≠ candidate ∧ p.ip ∉ excluded :=
            fun p hp => not_or.mp (mt mem_cons.mpr (hfre p hp))
          refine ⟨hrest.cons hon fun p hp => (hoth p hp).1, ?_⟩
          exact forall_mem_cons.mpr ⟨hnew, fun p hp => (hoth p hp).2⟩
        · refine ⟨⟨Nat.succ_le_succ (Nat.zero_le _), by simp, ?_, ?_, by simp⟩, by simpa using hnew⟩
          · intro k p hp hans
            obtain rfl := mem_singleton.mp (mem_of_getElem? hp)
            exact nomatch hans
          · rintro ip ⟨⟩
            exact ⟨hpool, hfree⟩

/-- **Probing for conflicts is bounded and sound**, whatever the tables are and whichever
probes are answered. -/
theorem searched_pickConflictFreeCandidate (srv : Server) (scope : Scope) (turn : ℕ → Turn) :
    Searched srv scope turn (max 1 srv.conflictProbeMaxAttempts)
      (pickConflictFreeCandidate srv scope turn) := by
  have h := (pickLoop_spec srv scope srv.attempts [] turn).1
  have hle : srv.attempts ≤ max 1 srv.conflictProbeMaxAttempts := by
    rw [Server.attempts]
    split <;> omega
  exact ⟨h.bounded.trans hle, h.distinct, h.recorded, h.free, h.silent⟩

/-! ### Addresses on hold -/

section Hold

variable (srv : Server) (snapshot : Snapshot Scope UInt32) (scope : Scope) (mac : Mac)
  (T : Leases UInt32 Mac) (reservations : List StaticLease) (now : ℤ)

/-- How a DISCOVER can end while the tables stay as they are: with an OFFER, or dropped. -/
def Discovers (offered : Option UInt32) : Prop :=
  Relation.ReflTransGen (Reads family now T reservations)
    (.task (handleDiscover srv scope mac (family.reservationFor snapshot scope.id mac)))
    (offered.elim .idle fun ip => .task (.reply ⟨scope, mac, none, leaseS scope⟩ .advertise ip))

/-- The client's own row on hold, for an address of the range that is not reserved for
anyone else. -/
def OnHold (row : Lease UInt32 Mac) : Prop :=
  row ∈ T.rows ∧ row.scopeId = scope.id ∧ row.client = mac ∧ row.state = .expired ∧
    scope.inPool row.ip = true ∧ ∀ r ∈ reservations, r.enabled = true → r.scopeId = scope.id →
      parseIpv4 r.ipAddress = some row.ip → owns r.client mac = true

/-- Without conflict detection a client that has no reservation is offered the address that is
on hold for it. -/
def HeldServed : Prop :=
  srv.conflictDetectionEnabled = false →
    ∀ mac, family.reservationFor snapshot scope.id mac = none →
      ∀ row, OnHold scope mac T reservations row →
        ∀ offered, Discovers srv snapshot scope mac T reservations now offered →
          offered = some row.ip

variable {srv snapshot scope mac T reservations}

theorem exists_discovers_ne (hoff : srv.conflictDetectionEnabled = false)
    (hnone : family.reservationFor snapshot scope.id mac = none) {row : Lease UInt32 Mac}
    (hrow : OnHold scope mac T reservations row) :
    ∃ offered, Discovers srv snapshot scope mac T reservations now offered ∧
      offered ≠ some row.ip := by
  obtain ⟨hmem, hsc, -, hst, -⟩ := hrow
  have hfind : T.find (scope.id, row.ip) = some row := hsc ▸ T.mem_rows_iff.mp hmem
  simp only [Discovers, hnone, handleDiscover, hoff]
  -- the lookup finds active rows only, and the search avoids every row
  by_cases hown : ∃ own ∈ T.rows, family.OwnActive ⟨scope, mac, none, leaseS scope⟩ own
  · obtain ⟨own, hmem', hown⟩ := hown
    refine ⟨some own.ip, .single (.found hmem' hown), fun heq => ?_⟩
    obtain ⟨hsc', -, -, hact⟩ := hown
    have hkey : own.key = (scope.id, row.ip) := Prod.ext hsc' (some_inj.mp heq)
    rw [some_inj.mp (hfind.symm.trans (hkey ▸ T.mem_rows_iff.mp hmem')), hact] at hst
    exact nomatch hst
  · have hlook : Reads family now T reservations
        (.task (.lookup ⟨scope, mac, none, leaseS scope⟩ (.discover false srv.attempts)))
        (.peeking ⟨scope, mac, none, leaseS scope⟩ false [] srv.attempts) :=
      .notFound fun own hmem' h => hown ⟨own, hmem', h⟩
    have hpeek : ∀ out, firstFree scope T reservations [] = out →
        family.scan scope T reservations [] 0 = out := fun _ => id
    cases hscan : firstFree scope T reservations [] with
    | none => exact ⟨none, .head hlook (.single (.peekNone (hpeek _ hscan))), nofun⟩
    | some ip =>
      refine ⟨some ip, .head hlook (.single (.peek (hpeek _ hscan))), fun heq => ?_⟩
      cases some_inj.mp heq
      exact nomatch (firstFree_spec hscan).2.1.symm.trans hfind

variable (srv snapshot scope T reservations)

/-- **A held address is served to its own client** exactly when there is none. -/
theorem heldServed_iff_none : HeldServed srv snapshot scope T reservations now ↔
    (srv.conflictDetectionEnabled = false →
      ∀ mac, family.reservationFor snapshot scope.id mac = none →
        ∀ row, ¬OnHold scope mac T reservations row) := by
  constructor
  · intro h hoff mac hnone row hrow
    obtain ⟨offered, hdis, hne⟩ := exists_discovers_ne now hoff hnone hrow
    exact hne (h hoff mac hnone row hrow offered hdis)
  · exact fun h hoff mac hnone row hrow => absurd hrow (h hoff mac hnone row)

end Hold

/-! ### A small network -/

deriving instance DecidableEq for Scope

/-- A server and a scope with two addresses. -/
def sampleServer : Server := ⟨0x0A0000FE, true, 4⟩

def sampleDaemon : Daemon Unit Scope UInt32 Mac Message :=
  daemon (fun _ => sampleServer) ⟨86400, 300, 1000⟩

def sampleScope : Scope := ⟨"lan", 0x0A000001, 0x0A000002, 3600⟩

def sampleMac (b : UInt8) : Mac := macFromChaddr (List.replicate 6 b)

def sampleJob (b : UInt8) : Job Scope Mac := ⟨sampleScope, sampleMac b, none, 3600⟩

def sampleDiscover (b : UInt8) : Message := ⟨.discover, List.replicate 6 b, 0, none, none, none⟩

/-- A REQUEST that accepts an offer of the sample server. -/
def sampleRequest (b : UInt8) (ip : UInt32) : Message :=
  ⟨.request, List.replicate 6 b, 0, some ip, some sampleServer.serverIp, none⟩

def sampleDecline (b : UInt8) (ip : UInt32) : Message :=
  ⟨.decline, List.replicate 6 b, 0, some ip, none, none⟩

/-- A REQUEST that is served at once. -/
def sampleClaim {ι : Type} (i : ι) (b : UInt8) (ip : UInt32) :
    List (Move ι Unit Scope UInt32 Mac Message) :=
  [.receive i () 0 (sampleRequest b ip) 0, .read i, .read i, .read i, .read i, .write i]

/-- A range of one address, and the client that it is on hold for. -/
def sampleNarrow : Scope := ⟨"lan", 0x0A000001, 0x0A000001, 3600⟩

def sampleHeld : Lease UInt32 Mac := ⟨"lan", 0x0A000001, sampleMac 1, none, .expired, 0, 0⟩

theorem held_dropped :
    ¬HeldServed ⟨0, false, 4⟩ ⟨[], []⟩ sampleNarrow (Store.empty.upsert sampleHeld) [] 0 := by
  intro h
  have hold : OnHold sampleNarrow (sampleMac 1) (Store.empty.upsert sampleHeld) [] sampleHeld :=
    ⟨mem_singleton_self _, rfl, rfl, rfl, rfl, nofun⟩
  have hscan : family.scan sampleNarrow (Store.empty.upsert sampleHeld) [] [] 0 = none := by decide
  -- no active row, and no other address
  have hdrop : Discovers ⟨0, false, 4⟩ ⟨[], []⟩ sampleNarrow (sampleMac 1)
      (Store.empty.upsert sampleHeld) [] 0 none :=
    .head (.notFound (by decide)) (.single (.peekNone hscan))
  exact nomatch h rfl _ rfl _ hold none hdrop

end Dhcp4
