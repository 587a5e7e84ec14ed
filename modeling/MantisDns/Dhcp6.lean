/-
The DHCPv6 daemon.

Addresses of IA_NA and what IA_PD delegates share one table, so a key of it is
either of the two.  The pool is too large to be scanned: an attempt looks at one
random address.

* `pickRandom_spec` — an address found is in the pool, has no row, and no
  reservation is written like it;
* `handle` — what a message makes the daemon do, for its IA_NA and its IA_PD.
-/
import MantisDns.LeaseReplay
import MantisDns.Addresses

open Text Table Dns Dhcp List

namespace Dhcp6

/-! ### Clients, addresses and scopes -/

def isHexDigit (c : Char) : Bool := (hexDigit c).isSome

/-- `normalize_duid`. -/
def normalizeDuid (s : Str) : Str := lowerAscii (s.filter isHexDigit)

/-- A DUID in its normal form. -/
structure Duid where
  text : Str
  normal : normalizeDuid text = text
  deriving DecidableEq

/-- `hex::encode` of a client identifier, which is in normal form. -/
def duidHex (cid : List UInt8) : Duid where
  text := cid.flatMap hexByte
  normal := by
    have hhex : ∀ c ∈ cid.flatMap hexByte, c.toLower = c ∧ isHexDigit c = true := fun c hc => by
      obtain ⟨b, -, hb⟩ := mem_flatMap.mp hc
      exact hexByte_lower hb
    rw [normalizeDuid, filter_eq_self.mpr fun c hc => (hhex c hc).2]
    exact (map_congr_left fun c hc => (hhex c hc).1).trans (List.map_id _)

/-- The column `ip_address` with `lease_type`: an address, or what is delegated,
with its length. -/
inductive Key
  | na (ip : BitVec 128)
  | pd (net : BitVec 128) (len : UInt8)
  deriving DecidableEq

def Key.leaseType : Key → LeaseType
  | .na _ => .na
  | .pd _ _ => .pd

/-- What is stored as `ip_address`. -/
def Key.text : Key → Str
  | .na ip => ipv6Text ip
  | .pd net len => ipv6Text net ++ '/' :: natText len.toNat

structure Scope where
  id : Str
  poolStart : BitVec 128
  poolEnd : BitVec 128
  pdPrefix : Option (BitVec 128)
  pdPrefixLen : Option UInt8
  preferredLifetimeS : ℤ
  validLifetimeS : ℤ

/-- The ends of the pool, in order. -/
def Scope.low (scope : Scope) : ℕ := min scope.poolStart.toNat scope.poolEnd.toNat

def Scope.high (scope : Scope) : ℕ := max scope.poolStart.toNat scope.poolEnd.toNat

/-- `ipv6_between`. -/
def Scope.inPool (scope : Scope) (ip : BitVec 128) : Bool :=
  scope.low ≤ ip.toNat && ip.toNat ≤ scope.high

def owns (entered : Str) (duid : Duid) : Bool := normalizeDuid entered = duid.text

theorem owns_unique {entered : Str} {duid duid' : Duid} (h : owns entered duid = true)
    (h' : owns entered duid' = true) : duid = duid' := by
  have heq : duid.text = duid'.text := (of_decide_eq_true h).symm.trans (of_decide_eq_true h')
  cases duid
  cases duid'
  simpa using heq

/-! ### The pool -/

/-- One attempt of `allocate_na`: a random address of the pool, unless a row or
an enabled reservation is written like it. -/
def pickRandom (scope : Scope) (T : Leases Key Duid) (reservations : List StaticLease)
    (draw : ℕ) : Option Key :=
  let candidate := Key.na (BitVec.ofNat 128 (scope.low + draw % (scope.high - scope.low + 1)))
  if (T.find (scope.id, candidate)).isSome ∨
      reservations.any fun r => r.enabled ∧ r.scopeId = scope.id ∧ r.ipAddress = candidate.text then
    none
  else some candidate

/-- **An address that was found is free.** -/
theorem pickRandom_spec {scope : Scope} {T : Leases Key Duid} {reservations : List StaticLease}
    {draw : ℕ} {key : Key} (h : pickRandom scope T reservations draw = some key) :
    (∃ ip, key = .na ip ∧ scope.inPool ip = true) ∧ T.find (scope.id, key) = none ∧
      ∀ r ∈ reservations, r.enabled = true → r.scopeId = scope.id → r.ipAddress ≠ key.text := by
  simp only [pickRandom] at h
  obtain ⟨hnot, h⟩ := Option.ite_none_left_eq_some.mp h
  rw [not_or] at hnot
  cases h
  refine ⟨⟨_, rfl, ?_⟩, by simpa using hnot.1, ?_⟩
  · have hhigh : scope.high < 2 ^ 128 := max_lt scope.poolStart.isLt scope.poolEnd.isLt
    have hlow : scope.low ≤ scope.high := le_trans (min_le_left ..) (le_max_left ..)
    have hmod : draw % (scope.high - scope.low + 1) < scope.high - scope.low + 1 :=
      Nat.mod_lt _ (by omega)
    rw [Scope.inPool, BitVec.toNat_ofNat, Nat.mod_eq_of_lt (by omega)]
    simp only [Bool.and_eq_true, decide_eq_true_eq]
    omega
  · intro r hr hena hsc htext
    exact hnot.2 (List.any_eq_true.mpr ⟨r, hr, by simp [hena, hsc, htext]⟩)

def family : Family Scope Key Duid where
  scopeId := Scope.id
  leaseType := Key.leaseType
  nobody := ⟨[], rfl⟩
  text := Key.text
  parse s := (parseIpv6 s).map .na
  leaseType_of_parse h := by
    obtain ⟨ip, -, rfl⟩ := Option.map_eq_some_iff.mp h
    rfl
  owns := owns
  owns_unique := owns_unique
  attempts := 16
  scan scope T reservations _ draw := pickRandom scope T reservations draw
  scan_free h := by
    obtain ⟨⟨ip, rfl, -⟩, hrow, hreserved⟩ := pickRandom_spec h
    exact ⟨rfl, hrow, fun r hr henabled hscope hat => hreserved r hr henabled hscope hat.1⟩

/-! ### Messages -/

inductive MessageType
  | solicit
  | request
  | renew
  | rebind
  | release
  | decline
  | confirm
  | informationRequest
  | other
  deriving DecidableEq

/-- A client's message: of its options the identifiers, and its first IA_NA and
IA_PD, each with what it names. -/
structure Message where
  messageType : MessageType
  clientId : Option (List UInt8)
  serverId : Option (List UInt8)
  iaNa : Option (Option (BitVec 128))
  iaPd : Option (Option (BitVec 128 × UInt8))

structure Server where
  serverDuid : List UInt8

/-- The rules on the Server Identifier that a message has to keep. -/
def Message.addressed (srv : Server) (msg : Message) : Bool :=
  match msg.messageType with
  | .request => msg.serverId = some srv.serverDuid
  | .renew => msg.serverId = some srv.serverDuid
  | .release => msg.serverId = some srv.serverDuid
  | .decline => msg.serverId = some srv.serverDuid
  | .solicit => msg.serverId = none
  | .confirm => msg.serverId = none
  | .rebind => msg.serverId = none
  | .informationRequest => msg.serverId.all (· = srv.serverDuid)
  | .other => true

def valid (scope : Scope) : ℤ := max scope.validLifetimeS 1

def preferred (scope : Scope) : ℤ := min (max scope.preferredLifetimeS 1) (valid scope)

/-- A request; the database functions store the longer of the two lifetimes. -/
def job (scope : Scope) (duid : Duid) (hostname : Option Str) : Job Scope Duid :=
  ⟨scope, duid, hostname, max (valid scope) (preferred scope)⟩

/-- The IA_NA of a SOLICIT. -/
def solicitNa (scope : Scope) (duid : Duid) (reservation : Option (Reservation Key)) :
    Task Scope Key Duid :=
  match reservation with
  | some res => .reply (job scope duid res.hostname) .advertise res.ip
  | none => .lookup (job scope duid none) .solicit

/-- The IA_NA of a REQUEST, RENEW or REBIND. -/
def requestNa (scope : Scope) (duid : Duid) (want : Option (BitVec 128))
    (reservation : Option (Reservation Key)) (isRequest : Bool) (now : ℤ) :
    List (Task Scope Key Duid) :=
  match reservation, want with
  | some res, want =>
    if want.any (Key.na · ≠ res.ip) then []
    else [.confirm (job scope duid res.hostname)
      (now + seconds (max (valid scope) (preferred scope))) res.ip]
  | none, some ip =>
    if scope.inPool ip then [.transact (job scope duid none) (.claim .grant (.na ip))] else []
  | none, none =>
    if isRequest then [.transact (job scope duid none) (.allocate .grant)]
    else [.lookup (job scope duid none) .renew]

/-- An IA_PD: the scope has at most one net to delegate.  A request for another
one is refused, but only after the delegation was written. -/
def delegate (scope : Scope) (duid : Duid) (answer : BitVec 128 × UInt8 → Answer) :
    List (Task Scope Key Duid) :=
  match scope.pdPrefix, scope.pdPrefixLen with
  | some net, some len =>
    [.transact (job scope duid none) (.claim (answer (net, len)) (.pd net len))]
  | _, _ => []

def handleSolicit (scope : Scope) (duid : Duid) (msg : Message)
    (reservation : Option (Reservation Key)) : List (Task Scope Key Duid) :=
  (if msg.iaNa.isSome then [solicitNa scope duid reservation] else []) ++
    if msg.iaPd.isSome then delegate scope duid fun _ => .advertise else []

def handleRequestLike (scope : Scope) (duid : Duid) (msg : Message)
    (reservation : Option (Reservation Key)) (isRequest : Bool) (now : ℤ) :
    List (Task Scope Key Duid) :=
  (match msg.iaNa with
    | some want => requestNa scope duid want reservation isRequest now
    | none => []) ++
  match msg.iaPd with
  | some want => delegate scope duid fun net => if want.all (· = net) then .grant else .refuse
  | none => []

/-- `handle`, for a message of this scope.  The parts of a message are served one
after the other; here each is a task of its own. -/
def handle (srv : Server) (snapshot : Snapshot Scope Key) (scope : Scope) (msg : Message)
    (now : ℤ) : List (Task Scope Key Duid) :=
  match msg.clientId with
  | none => []
  | some cid =>
    if msg.addressed srv = false then []
    else
      let duid := duidHex cid
      let reservation := family.reservationFor snapshot scope.id duid
      match msg.messageType with
      | .solicit => handleSolicit scope duid msg reservation
      | .request => handleRequestLike scope duid msg reservation true now
      | .renew => handleRequestLike scope duid msg reservation false now
      | .rebind => handleRequestLike scope duid msg reservation false now
      | .release =>
        (msg.iaNa.map fun ip => Task.release scope.id duid .na (ip.map .na)).toList ++
          (msg.iaPd.map fun _ => Task.release scope.id duid .pd none).toList
      | .decline => (msg.iaNa.join.map fun ip => Task.decline scope.id duid (.na ip)).toList
      | .confirm => []
      | .informationRequest => []
      | .other => []

section Handle

variable {srv : Server} {snapshot : Snapshot Scope Key} {scope : Scope} {msg : Message} {now : ℤ}
  {cid : List UInt8}

theorem handle_solicit (htype : msg.messageType = .solicit) (hcid : msg.clientId = some cid) :
    handle srv snapshot scope msg now =
      if msg.serverId = none then
        handleSolicit scope (duidHex cid) msg
          (family.reservationFor snapshot scope.id (duidHex cid))
      else [] := by
  by_cases hsid : msg.serverId = none
  · simp [handle, hcid, Message.addressed, htype, hsid]
  · simp [handle, hcid, Message.addressed, htype, hsid]

theorem handle_request (htype : msg.messageType = .request) (hcid : msg.clientId = some cid)
    (hsid : msg.serverId = some srv.serverDuid) :
    handle srv snapshot scope msg now =
      handleRequestLike scope (duidHex cid) msg
        (family.reservationFor snapshot scope.id (duidHex cid)) true now := by
  simp [handle, hcid, Message.addressed, htype, hsid]

end Handle

def daemon {ν : Type} (srv : ν → Server) (sweep : Sweep) : Daemon ν Scope Key Duid Message where
  toFamily := family
  toSweep := sweep
  dispatch n := handle (srv n)

/-! ### A small network -/

deriving instance DecidableEq for Scope

def sampleServer : Server := ⟨[0, 3, 0, 1]⟩

def sampleDaemon : Daemon Unit Scope Key Duid Message :=
  daemon (fun _ => sampleServer) ⟨86400, 300, 1000⟩

def sampleScope : Scope := ⟨"lan", 1, 2, none, none, 3600, 3600⟩

def sampleJob (b : UInt8) : Job Scope Duid := job sampleScope (duidHex [b]) none

def sampleSolicit (b : UInt8) : Message := ⟨.solicit, some [b], none, some none, none⟩

def sampleRequest (b : UInt8) (ip : BitVec 128) : Message :=
  ⟨.request, some [b], some sampleServer.serverDuid, some (some ip), none⟩

def sampleDecline (b : UInt8) (ip : BitVec 128) : Message :=
  ⟨.decline, some [b], some sampleServer.serverDuid, some (some ip), none⟩

def sampleClaim (b : UInt8) (ip : BitVec 128) : List (Move Unit Unit Scope Key Duid Message) :=
  [.receive () () 0 (sampleRequest b ip) 0, .read (), .read (), .read (), .read (), .write ()]

end Dhcp6
