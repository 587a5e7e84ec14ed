/-
The lease daemons: what DHCPv4 and DHCPv6 share.

Any number of instances serve packets on one database.  A packet is a task that
a handler carries out statement by statement; between two statements every
other handler may act.  Allocating and claiming run under an advisory lock of
the scope, everything else (confirming a reservation, releasing, declining,
recording a conflict, sweeping) is a statement of its own that takes no lock.

* `Reads`, `Writes`, `Fails` — what one handler does next;
* `Step`, `RunWhile` — all handlers, the clock, the API and the refresh loops;
* `WatchedRun` — runs together with what is seen of them;
* `LocksApart.step` — two handlers never hold one lock;
* `Writes.find_cases`, `Writes.find_of_not_touches` — where a row comes from, and
  which rows a statement leaves alone;
* `RunWhile.read`, `RunWhile.write` — a handler that acts alone.

What the two protocols do differently is in `Daemon`.
-/
import MantisDns.KeyedTable
import MantisDns.Text

open Text Table Function Option

namespace Dhcp

/-! ### Rows -/

/-- A duration on the clock, which counts microseconds. -/
def seconds (n : ℤ) : ℤ := n * 1000000

/-- `state`: 0, 1 and 2. -/
inductive LeaseState
  | active
  | declined
  | expired
  deriving DecidableEq

/-- `lease_type` of DHCPv6: an address or a delegated one of IA_PD.  DHCPv4 has addresses
only. -/
inductive LeaseType
  | na
  | pd
  deriving DecidableEq

/-- A row of `dhcp_leases` or `dhcp_leases6`, with the address it is for (type
`κ`) and the client that holds it (type `χ`). -/
structure Lease (κ χ : Type) where
  scopeId : Str
  ip : κ
  client : χ
  hostname : Option Str
  state : LeaseState
  allocatedAt : ℤ
  expiresAt : ℤ
  deriving DecidableEq

/-- The unique constraint of both tables. -/
def Lease.key {κ χ : Type} (row : Lease κ χ) : Str × κ := (row.scopeId, row.ip)

/-- In use, and the lease time has not run out. -/
def Lease.Running {κ χ : Type} (now : ℤ) (row : Lease κ χ) : Prop :=
  row.state = .active ∧ now ≤ row.expiresAt

abbrev Leases (κ χ : Type) := Store (Lease.key : Lease κ χ → Str × κ)

/-- A reservation as the API stores it: client and address are the text that
was entered. -/
structure StaticLease where
  scopeId : Str
  client : Str
  ipAddress : Str
  hostname : Option Str
  enabled : Bool
  deriving DecidableEq

/-- The configuration in the database. -/
structure Config (σ : Type) where
  scopes : List σ
  reservations : List StaticLease

/-- `Reservation`, as a daemon keeps it. -/
structure Reservation (κ : Type) where
  scopeId : Str
  client : Str
  ip : κ
  hostname : Option Str

/-- `Snapshot`. -/
structure Snapshot (σ κ : Type) where
  scopes : List σ
  reservations : List (Reservation κ)

/-! ### Tasks and phases -/

/-- What a packet asks for: in which scope, for which client, for how long. -/
structure Job (σ χ : Type) where
  scope : σ
  client : χ
  hostname : Option Str
  leaseSeconds : ℤ

/-- What the client is told when its address is found: an OFFER or ADVERTISE,
an ACK or REPLY, or that there is none for it. -/
inductive Answer
  | advertise
  | grant
  | refuse
  deriving DecidableEq

/-- Why the active lease of a client is looked up: for a DISCOVER (with the
probing and the number of attempts that follow when there is none), for a
SOLICIT, or for a RENEW that names no address. -/
inductive Lookup
  | discover (probe : Bool) (attempts : ℕ)
  | solicit
  | renew
  deriving DecidableEq

def Lookup.answer : Lookup → Answer
  | .discover _ _ => .advertise
  | .solicit => .advertise
  | .renew => .grant

/-- The transactions that take the lock. -/
inductive Tx (κ : Type)
  | allocate (answer : Answer)
  | claim (answer : Answer) (ip : κ)

def Tx.answer {κ : Type} : Tx κ → Answer
  | .allocate answer => answer
  | .claim answer _ => answer

/-- What a packet makes a handler do. -/
inductive Task (σ κ χ : Type)
  | reply (job : Job σ χ) (answer : Answer) (ip : κ)
  | lookup (job : Job σ χ) (mode : Lookup)
  | transact (job : Job σ χ) (tx : Tx κ)
  | confirm (job : Job σ χ) (expires : ℤ) (ip : κ)
  | release (scopeId : Str) (client : χ) (leaseType : LeaseType) (ip : Option κ)
  | decline (scopeId : Str) (client : χ) (ip : κ)

/-- Where a handler is.  `began` is the start of its transaction, which is what
`now()` gives there, and `called` the start of a sweep. -/
inductive Phase (σ κ χ : Type)
  | idle
  | task (task : Task σ κ χ)
  | peeking (job : Job σ χ) (probe : Bool) (excluded : List κ) (left : ℕ)
  | probing (job : Job σ χ) (excluded : List κ) (left : ℕ) (ip : κ)
  | marking (job : Job σ χ) (excluded : List κ) (left : ℕ) (ip : κ)
  | waiting (job : Job σ χ) (tx : Tx κ) (began : ℤ)
  | selecting (job : Job σ χ) (answer : Answer) (began expires : ℤ)
  | renewing (job : Job σ χ) (answer : Answer) (began expires : ℤ) (ip : κ)
  | scanning (job : Job σ χ) (answer : Answer) (began expires : ℤ) (left : ℕ)
  | checking (job : Job σ χ) (answer : Answer) (began : ℤ) (ip : κ)
  | guarding (job : Job σ χ) (answer : Answer) (began : ℤ) (ip : κ)
  | inserting (job : Job σ χ) (answer : Answer) (began expires : ℤ) (ip : κ)
  | expiring (called : ℤ)
  | purging (called : ℤ)
  | freeing (called : ℤ)

/-- About to write an active row. -/
def Phase.Inserts {σ κ χ : Type} (p : Phase σ κ χ) (job : Job σ χ) (ip : κ) : Prop :=
  (∃ answer began expires, p = .inserting job answer began expires ip) ∨
    ∃ expires, p = .task (.confirm job expires ip)

theorem Phase.Inserts.ip_eq {σ κ χ : Type} {p : Phase σ κ χ} {job job' : Job σ χ} {ip ip' : κ}
    (h : p.Inserts job ip) (h' : p.Inserts job' ip') : ip = ip' := by
  rcases h with ⟨_, _, _, rfl⟩ | ⟨_, rfl⟩ <;> rcases h' with ⟨_, _, _, heq⟩ | ⟨_, heq⟩
  · exact (Phase.inserting.inj heq).2.2.2.2
  · cases heq
  · cases heq
  · cases heq
    rfl

/-- What clients were told and what they said, with the time of it. -/
inductive Event (κ χ : Type)
  | offer (scopeId : Str) (ip : κ) (client : χ) (time : ℤ)
  | grant (scopeId : Str) (ip : κ) (client : χ) (time expires : ℤ)
  | release (scopeId : Str) (client : χ) (ip : Option κ)
  | decline (scopeId : Str) (ip : κ) (client : χ) (time : ℤ)
  | conflict (scopeId : Str) (ip : κ) (time : ℤ)
  deriving DecidableEq

/-! ### The protocols -/

/-- What a protocol brings: how addresses are written, to whom a reservation
belongs, and how the pool of a scope is searched.  `scan` is one attempt, on the
rows of one moment, with the addresses that are ruled out and a random number. -/
structure Family (σ κ χ : Type) [DecidableEq κ] where
  scopeId : σ → Str
  leaseType : κ → LeaseType
  /-- The client column of a row that no client asked for. -/
  nobody : χ
  /-- `to_string` of an address, as it is bound in queries. -/
  text : κ → Str
  parse : Str → Option κ
  leaseType_of_parse : ∀ {entered : Str} {ip : κ}, parse entered = some ip → leaseType ip = .na
  /-- Whether a reservation entered for this client is for that one. -/
  owns : Str → χ → Bool
  owns_unique : ∀ {entered : Str} {c c' : χ}, owns entered c = true → owns entered c' = true →
    c = c'
  attempts : ℕ
  scan : σ → Leases κ χ → List StaticLease → List κ → ℕ → Option κ
  scan_free : ∀ {scope : σ} {T : Leases κ χ} {reservations : List StaticLease} {excluded : List κ}
    {draw : ℕ} {ip : κ}, scan scope T reservations excluded draw = some ip →
      leaseType ip = .na ∧ T.find (scopeId scope, ip) = none ∧
        ∀ r ∈ reservations, r.enabled = true → r.scopeId = scopeId scope →
          ¬(r.ipAddress = text ip ∧ parse r.ipAddress = some ip)

/-- The configuration of the sweeps. -/
structure Sweep where
  declineProbationS : ℤ
  expiredHoldS : ℤ
  reclaimBatchLimit : ℕ

/-- A daemon: its protocol, how an instance of it (type `ν`) takes up a packet (type
`μ`) for a scope of its snapshot, and its sweeps. -/
structure Daemon (ν σ κ χ μ : Type) [DecidableEq κ] extends Family σ κ χ, Sweep where
  dispatch : ν → Snapshot σ κ → σ → μ → ℤ → List (Task σ κ χ)

variable {ι ν σ κ χ μ : Type} [DecidableEq κ]

/-- `load_snapshot`: a reservation whose address does not parse fails the load. -/
def Family.loadSnapshot (F : Family σ κ χ) (config : Config σ) : Option (Snapshot σ κ) :=
  let rows := (config.reservations.filter (·.enabled)).mapM fun r =>
    (F.parse r.ipAddress).map fun ip => (⟨r.scopeId, r.client, ip, r.hostname⟩ : Reservation κ)
  rows.map fun reservations => ⟨config.scopes, reservations⟩

/-- `reservation_for`: of several rows for one client the last one read is kept. -/
def Family.reservationFor (F : Family σ κ χ) (snapshot : Snapshot σ κ) (scopeId : Str)
    (client : χ) : Option (Reservation κ) :=
  snapshot.reservations.reverse.find? fun r => r.scopeId = scopeId ∧ F.owns r.client client = true

/-- The rows of `dhcp_static_leases` that a claim of this address asks for. -/
def Family.ReservedAt (F : Family σ κ χ) (scopeId : Str) (ip : κ) (r : StaticLease) : Prop :=
  r.enabled = true ∧ r.scopeId = scopeId ∧ r.ipAddress = F.text ip

/-- The active lease of a client. -/
def Family.OwnActive (F : Family σ κ χ) (job : Job σ χ) (row : Lease κ χ) : Prop :=
  row.scopeId = F.scopeId job.scope ∧ row.client = job.client ∧ F.leaseType row.ip = .na ∧
    row.state = .active

/-- No other client has the address, in use or on hold. -/
def Family.Unheld (F : Family σ κ χ) (T : Leases κ χ) (job : Job σ χ) (ip : κ) : Prop :=
  ∀ row, T.find (F.scopeId job.scope, ip) = some row → row.state ≠ .declined →
    row.client = job.client

/-- The lock that a handler holds, by scope and namespace. -/
def Family.lock (F : Family σ κ χ) : Phase σ κ χ → Option (Str × LeaseType)
  | .selecting job _ _ _ => some (F.scopeId job.scope, .na)
  | .renewing job _ _ _ _ => some (F.scopeId job.scope, .na)
  | .scanning job _ _ _ _ => some (F.scopeId job.scope, .na)
  | .checking job _ _ ip => some (F.scopeId job.scope, F.leaseType ip)
  | .guarding job _ _ ip => some (F.scopeId job.scope, F.leaseType ip)
  | .inserting job _ _ _ ip => some (F.scopeId job.scope, F.leaseType ip)
  | _ => none

/-! ### Statements -/

/-- The row that a request leaves. -/
def Family.leaseRow (F : Family σ κ χ) (job : Job σ χ) (ip : κ) (allocated expires : ℤ) :
    Lease κ χ :=
  ⟨F.scopeId job.scope, ip, job.client, job.hostname, .active, allocated, expires⟩

/-- The renewal's `UPDATE`, which asks for the address only. -/
def Family.renewRow (F : Family σ κ χ) (job : Job σ χ) (ip : κ) (allocated expires : ℤ)
    (T : Leases κ χ) : Leases κ χ :=
  T.updateRow (F.scopeId job.scope, ip)
    (fun row =>
      { row with hostname := job.hostname, expiresAt := expires, allocatedAt := allocated })
    fun _ => rfl

theorem Family.find_renewRow (F : Family σ κ χ) {job : Job σ χ} {ip : κ} {allocated expires : ℤ}
    {T : Leases κ χ} {key : Str × κ} :
    (F.renewRow job ip allocated expires T).find key =
      if (F.scopeId job.scope, ip) = key then (T.find key).map fun row =>
        { row with hostname := job.hostname, expiresAt := expires, allocatedAt := allocated }
      else T.find key :=
  T.find_updateRow

/-- `mark_declined_preemptive`. -/
def Family.markDeclined (F : Family σ κ χ) (scopeId : Str) (ip : κ) (now : ℤ) (T : Leases κ χ) :
    Leases κ χ :=
  T.insertOr ⟨scopeId, ip, F.nobody, none, .declined, now, now⟩
    (fun row => { row with state := .declined }) fun _ => rfl

theorem Family.find_markDeclined (F : Family σ κ χ) {scopeId : Str} {ip : κ} {now : ℤ}
    {T : Leases κ χ} {key : Str × κ} :
    (F.markDeclined scopeId ip now T).find key =
      if (scopeId, ip) = key then
        some (((T.find key).map fun row => { row with state := .declined }).getD
          ⟨scopeId, ip, F.nobody, none, .declined, now, now⟩)
      else T.find key :=
  T.find_insertOr

variable [DecidableEq χ]

/-- `release`: every row of the client, whatever its state. -/
def Family.release (F : Family σ κ χ) (scopeId : Str) (client : χ) (leaseType : LeaseType)
    (T : Leases κ χ) : Leases κ χ :=
  T.delete fun row =>
    row.scopeId = scopeId ∧ row.client = client ∧ F.leaseType row.ip = leaseType

theorem Family.find_release (F : Family σ κ χ) {scopeId : Str} {client : χ} {leaseType : LeaseType}
    {T : Leases κ χ} {key : Str × κ} :
    (F.release scopeId client leaseType T).find key = (T.find key).filter fun row =>
      !decide (row.scopeId = scopeId ∧ row.client = client ∧ F.leaseType row.ip = leaseType) :=
  T.find_delete

/-- The row that a DECLINE is about. -/
def heldBy (scopeId : Str) (ip : κ) (client : χ) (row : Lease κ χ) : Bool :=
  row.key = (scopeId, ip) ∧ row.client = client ∧ row.state = .active

/-- `decline`. -/
def decline (scopeId : Str) (ip : κ) (client : χ) (T : Leases κ χ) : Leases κ χ :=
  T.update (heldBy scopeId ip client) (fun row => { row with state := .declined }) fun _ => rfl

variable {scopeId : Str} {T : Leases κ χ}

theorem find_decline {ip : κ} {client : χ} {key : Str × κ} :
    (decline scopeId ip client T).find key = (T.find key).map fun row =>
      if heldBy scopeId ip client row then { row with state := .declined } else row :=
  T.find_update

omit [DecidableEq κ] [DecidableEq χ] in
/-- The rows of one statement of a sweep: of those it is about, as many as the
limit allows. -/
def Batch (limit : ℕ) (rows : List (Lease κ χ)) (eligible batch : Lease κ χ → Bool) : Prop :=
  (∀ row, batch row = true → eligible row = true) ∧
    (rows.filter batch).length = min limit (rows.filter eligible).length

/-- Active, and the lease time has run out. -/
def Lapsed (now : ℤ) (row : Lease κ χ) : Bool := row.state = .active ∧ row.expiresAt < now

/-- The rows of a batch expire. -/
def expireRows (batch : Lease κ χ → Bool) (T : Leases κ χ) : Leases κ χ :=
  T.update batch (fun row => { row with state := .expired }) fun _ => rfl

omit [DecidableEq χ] in
theorem find_expireRows {batch : Lease κ χ → Bool} {key : Str × κ} :
    (expireRows batch T).find key = (T.find key).map fun row =>
      if batch row then { row with state := .expired } else row :=
  T.find_update

namespace Daemon

variable (D : Daemon ν σ κ χ μ)

/-- Declined, and allocated before the probation cutoff. -/
def PastProbation (called : ℤ) (row : Lease κ χ) : Bool :=
  row.state = .declined ∧ row.allocatedAt < called - seconds D.declineProbationS

/-- Expired, and expired before the hold cutoff. -/
def PastHold (called : ℤ) (row : Lease κ χ) : Bool :=
  row.state = .expired ∧ row.expiresAt < called - seconds D.expiredHoldS

end Daemon

/-! ### One handler -/

/-- What follows a lookup that found nothing. -/
def afterLookup (job : Job σ χ) : Lookup → Phase σ κ χ
  | .discover probe attempts => .peeking job probe [] attempts
  | .solicit => .task (.transact job (.allocate .advertise))
  | .renew => .idle

/-- The next attempt of a DISCOVER, after an address that answered its probe. -/
def nextPeek (job : Job σ χ) (excluded : List κ) (left : ℕ) (ip : κ) : Phase σ κ χ :=
  if left ≤ 1 then .idle else .peeking job true (ip :: excluded) (left - 1)

/-- The next attempt of an allocation, after one that found nothing. -/
def nextScan (job : Job σ χ) (answer : Answer) (began expires : ℤ) (left : ℕ) : Phase σ κ χ :=
  if left ≤ 1 then .idle else .scanning job answer began expires (left - 1)

/-- What a handler does without writing: queries, the clock, and the lock.  A
query for one row may return any row that it is about. -/
inductive Reads (F : Family σ κ χ) (now : ℤ) (T : Leases κ χ) (reservations : List StaticLease) :
    Phase σ κ χ → Phase σ κ χ → Prop
  | found {job : Job σ χ} {mode : Lookup} {row : Lease κ χ} (hrow : row ∈ T.rows)
      (hown : F.OwnActive job row) :
    Reads F now T reservations (.task (.lookup job mode)) (.task (.reply job mode.answer row.ip))
  | notFound {job : Job σ χ} {mode : Lookup} (hnone : ∀ row ∈ T.rows, ¬F.OwnActive job row) :
    Reads F now T reservations (.task (.lookup job mode)) (afterLookup job mode)
  | peek {job : Job σ χ} {probe : Bool} {excluded : List κ} {left draw : ℕ} {ip : κ}
      (hscan : F.scan job.scope T reservations excluded draw = some ip) :
    Reads F now T reservations (.peeking job probe excluded left)
      (if probe then .probing job excluded left ip else .task (.reply job .advertise ip))
  | peekNone {job : Job σ χ} {probe : Bool} {excluded : List κ} {left draw : ℕ}
      (hscan : F.scan job.scope T reservations excluded draw = none) :
    Reads F now T reservations (.peeking job probe excluded left) .idle
  | silent {job : Job σ χ} {excluded : List κ} {left : ℕ} {ip : κ} :
    Reads F now T reservations (.probing job excluded left ip) (.task (.reply job .advertise ip))
  | answered {job : Job σ χ} {excluded : List κ} {left : ℕ} {ip : κ} :
    Reads F now T reservations (.probing job excluded left ip) (.marking job excluded left ip)
  | start {job : Job σ χ} {tx : Tx κ} :
    Reads F now T reservations (.task (.transact job tx)) (.waiting job tx now)
  | lockAllocate {job : Job σ χ} {answer : Answer} {began : ℤ} :
    Reads F now T reservations (.waiting job (.allocate answer) began)
      (.selecting job answer began (now + seconds job.leaseSeconds))
  | lockClaim {job : Job σ χ} {answer : Answer} {began : ℤ} {ip : κ} :
    Reads F now T reservations (.waiting job (.claim answer ip) began)
      (.checking job answer began ip)
  | selected {job : Job σ χ} {answer : Answer} {began expires : ℤ} {row : Lease κ χ}
      (hrow : row ∈ T.rows) (hown : F.OwnActive job row) :
    Reads F now T reservations (.selecting job answer began expires)
      (.renewing job answer began expires row.ip)
  | unselected {job : Job σ χ} {answer : Answer} {began expires : ℤ}
      (hnone : ∀ row ∈ T.rows, ¬F.OwnActive job row) :
    Reads F now T reservations (.selecting job answer began expires)
      (.scanning job answer began expires F.attempts)
  | scanned {job : Job σ χ} {answer : Answer} {began expires : ℤ} {left draw : ℕ} {ip : κ}
      (hscan : F.scan job.scope T reservations [] draw = some ip) :
    Reads F now T reservations (.scanning job answer began expires left)
      (.inserting job answer began expires ip)
  | collided {job : Job σ χ} {answer : Answer} {began expires : ℤ} {left draw : ℕ}
      (hscan : F.scan job.scope T reservations [] draw = none) :
    Reads F now T reservations (.scanning job answer began expires left)
      (nextScan job answer began expires left)
  | held {job : Job σ χ} {answer : Answer} {began : ℤ} {ip : κ} {row : Lease κ χ}
      (hrow : T.find (F.scopeId job.scope, ip) = some row) (hstate : row.state ≠ .declined)
      (hclient : row.client ≠ job.client) :
    Reads F now T reservations (.checking job answer began ip) .idle
  | unheld {job : Job σ χ} {answer : Answer} {began : ℤ} {ip : κ} (hna : F.leaseType ip = .na)
      (hfree : F.Unheld T job ip) :
    Reads F now T reservations (.checking job answer began ip) (.guarding job answer began ip)
  -- what IA_PD delegates cannot be reserved
  | undelegated {job : Job σ χ} {answer : Answer} {began : ℤ} {ip : κ}
      (hpd : F.leaseType ip = .pd) (hfree : F.Unheld T job ip) :
    Reads F now T reservations (.checking job answer began ip)
      (.inserting job answer began (now + seconds job.leaseSeconds) ip)
  | reserved {job : Job σ χ} {answer : Answer} {began : ℤ} {ip : κ} {r : StaticLease}
      (hr : r ∈ reservations) (hat : F.ReservedAt (F.scopeId job.scope) ip r)
      (howner : F.owns r.client job.client = false) :
    Reads F now T reservations (.guarding job answer began ip) .idle
  | unreserved {job : Job σ χ} {answer : Answer} {began : ℤ} {ip : κ}
      (hfree : (∀ r ∈ reservations, ¬F.ReservedAt (F.scopeId job.scope) ip r) ∨
        ∃ r ∈ reservations, F.ReservedAt (F.scopeId job.scope) ip r ∧
          F.owns r.client job.client = true) :
    Reads F now T reservations (.guarding job answer began ip)
      (.inserting job answer began (now + seconds job.leaseSeconds) ip)

/-- What a client is told of an address. -/
def Answer.events (answer : Answer) (scopeId : Str) (ip : κ) (client : χ) (now expires : ℤ) :
    List (Event κ χ) :=
  match answer with
  | .advertise => [.offer scopeId ip client now]
  | .grant => [.grant scopeId ip client now expires]
  | .refuse => []

/-- The statements that write, each with its commit, and the answers.  What the
client is told is settled by its statement, so it is recorded there. -/
inductive Writes (D : Daemon ν σ κ χ μ) (now : ℤ) (T : Leases κ χ) :
    Phase σ κ χ → Leases κ χ → Phase σ κ χ → List (Event κ χ) → Prop
  | reply {job : Job σ χ} {answer : Answer} {ip : κ} :
    Writes D now T (.task (.reply job answer ip)) T .idle
      (answer.events (D.scopeId job.scope) ip job.client now (now + seconds job.leaseSeconds))
  | insert {job : Job σ χ} {answer : Answer} {began expires : ℤ} {ip : κ} :
    Writes D now T (.inserting job answer began expires ip)
      (T.upsert (D.leaseRow job ip began expires)) .idle
      (answer.events (D.scopeId job.scope) ip job.client now expires)
  | renew {job : Job σ χ} {answer : Answer} {began expires : ℤ} {ip : κ} :
    Writes D now T (.renewing job answer began expires ip) (D.renewRow job ip began expires T) .idle
      (answer.events (D.scopeId job.scope) ip job.client now expires)
  | confirm {job : Job σ χ} {expires : ℤ} {ip : κ} :
    Writes D now T (.task (.confirm job expires ip))
      (T.upsert (D.leaseRow job ip now expires)) .idle
      [.grant (D.scopeId job.scope) ip job.client now expires]
  | mark {job : Job σ χ} {excluded : List κ} {left : ℕ} {ip : κ} :
    Writes D now T (.marking job excluded left ip) (D.markDeclined (D.scopeId job.scope) ip now T)
      (nextPeek job excluded left ip) [.conflict (D.scopeId job.scope) ip now]
  | release {scopeId : Str} {client : χ} {leaseType : LeaseType} {ip : Option κ} :
    Writes D now T (.task (.release scopeId client leaseType ip))
      (D.release scopeId client leaseType T) .idle [.release scopeId client ip]
  | decline {scopeId : Str} {client : χ} {ip : κ} :
    Writes D now T (.task (.decline scopeId client ip)) (decline scopeId ip client T) .idle
      (if T.rows.any (heldBy scopeId ip client) then [.decline scopeId ip client now] else [])
  | expire {called : ℤ} {batch : Lease κ χ → Bool}
      (hbatch : Batch D.reclaimBatchLimit T.rows (Lapsed now) batch) :
    Writes D now T (.expiring called) (expireRows batch T) (.purging called) []
  | purge {called : ℤ} {batch : Lease κ χ → Bool}
      (hbatch : Batch D.reclaimBatchLimit T.rows (D.PastProbation called) batch) :
    Writes D now T (.purging called) (T.delete batch) (.freeing called) []
  | free {called : ℤ} {batch : Lease κ χ → Bool}
      (hbatch : Batch D.reclaimBatchLimit T.rows (D.PastHold called) batch) :
    Writes D now T (.freeing called) (T.delete batch) .idle []

omit [DecidableEq χ] in
/-- A statement that fails ends the packet, except where the code carries on:
a failed lookup counts as one that found nothing, and a conflict that could not
be recorded is skipped all the same. -/
inductive Fails : Phase σ κ χ → Phase σ κ χ → Prop
  | abort {p : Phase σ κ χ} : Fails p .idle
  | lookup {job : Job σ χ} {mode : Lookup} :
    Fails (.task (.lookup job mode)) (afterLookup job mode)
  | mark {job : Job σ χ} {excluded : List κ} {left : ℕ} {ip : κ} :
    Fails (.marking job excluded left ip) (nextPeek job excluded left ip)

/-- Where the row of a key comes from: it was there, for the same client, and if
its state changed it was active; or a request has just written it; or a conflict
was recorded. -/
theorem Writes.find_cases {D : Daemon ν σ κ χ μ} {now : ℤ} {T' : Leases κ χ} {p q : Phase σ κ χ}
    {events : List (Event κ χ)} (h : Writes D now T p T' q events) {key : Str × κ} {row : Lease κ χ}
    (hrow : T'.find key = some row) :
    (∃ old, T.find key = some old ∧ row.client = old.client ∧
      (row.state = old.state ∨ old.state = .active ∧ row.state ≠ .active)) ∨
    (∃ job ip, p.Inserts job ip ∧ key = (D.scopeId job.scope, ip) ∧ row.client = job.client) ∨
    ∃ job excluded left ip, p = .marking job excluded left ip ∧ key = (D.scopeId job.scope, ip) ∧
      row.state = .declined := by
  -- where each statement writes, and what it leaves of the row
  cases h with
  | reply => exact .inl ⟨row, hrow, rfl, .inl rfl⟩
  | @insert job answer began expires ip =>
    rw [Store.find_upsert] at hrow
    split at hrow
    · rename_i hkey
      cases hrow
      exact .inr (.inl ⟨job, ip, .inl ⟨_, _, _, rfl⟩, hkey.symm, rfl⟩)
    · exact .inl ⟨row, hrow, rfl, .inl rfl⟩
  | @confirm job expires ip =>
    rw [Store.find_upsert] at hrow
    split at hrow
    · rename_i hkey
      cases hrow
      exact .inr (.inl ⟨job, ip, .inr ⟨_, rfl⟩, hkey.symm, rfl⟩)
    · exact .inl ⟨row, hrow, rfl, .inl rfl⟩
  | renew =>
    rw [Family.find_renewRow] at hrow
    split at hrow
    · obtain ⟨old, hold, rfl⟩ := map_eq_some_iff.mp hrow
      exact .inl ⟨old, hold, rfl, .inl rfl⟩
    · exact .inl ⟨row, hrow, rfl, .inl rfl⟩
  | @mark job excluded left ip =>
    rw [Family.find_markDeclined] at hrow
    split at hrow
    · rename_i hkey
      cases hrow
      refine .inr (.inr ⟨job, excluded, left, ip, rfl, hkey.symm, ?_⟩)
      cases T.find key <;> rfl
    · exact .inl ⟨row, hrow, rfl, .inl rfl⟩
  | release =>
    rw [Family.find_release] at hrow
    exact .inl ⟨row, (filter_eq_some_iff.mp hrow).1, rfl, .inl rfl⟩
  | decline =>
    rw [find_decline] at hrow
    obtain ⟨old, hold, rfl⟩ := map_eq_some_iff.mp hrow
    refine .inl ⟨old, hold, ?_⟩
    split
    · rename_i hheld
      exact ⟨rfl, .inr ⟨(of_decide_eq_true hheld).2.2, by simp⟩⟩
    · exact ⟨rfl, .inl rfl⟩
  | expire hbatch =>
    rw [find_expireRows] at hrow
    obtain ⟨old, hold, rfl⟩ := map_eq_some_iff.mp hrow
    refine .inl ⟨old, hold, ?_⟩
    split
    · rename_i hin
      have hlap := of_decide_eq_true (hbatch.1 old hin)
      exact ⟨rfl, .inr ⟨hlap.1, by simp⟩⟩
    · exact ⟨rfl, .inl rfl⟩
  | purge | free =>
    rw [Store.find_delete] at hrow
    exact .inl ⟨row, (filter_eq_some_iff.mp hrow).1, rfl, .inl rfl⟩

/-- The rows that a handler's next statement is about. -/
inductive Touches (D : Daemon ν σ κ χ μ) (now : ℤ) : Phase σ κ χ → Lease κ χ → Prop
  | insert {job : Job σ χ} {answer : Answer} {began expires : ℤ} {ip : κ} {row : Lease κ χ}
      (h : row.key = (D.scopeId job.scope, ip)) :
    Touches D now (.inserting job answer began expires ip) row
  | renew {job : Job σ χ} {answer : Answer} {began expires : ℤ} {ip : κ} {row : Lease κ χ}
      (h : row.key = (D.scopeId job.scope, ip)) :
    Touches D now (.renewing job answer began expires ip) row
  | confirm {job : Job σ χ} {expires : ℤ} {ip : κ} {row : Lease κ χ}
      (h : row.key = (D.scopeId job.scope, ip)) :
    Touches D now (.task (.confirm job expires ip)) row
  | mark {job : Job σ χ} {excluded : List κ} {left : ℕ} {ip : κ} {row : Lease κ χ}
      (h : row.key = (D.scopeId job.scope, ip)) :
    Touches D now (.marking job excluded left ip) row
  | release {scopeId : Str} {client : χ} {leaseType : LeaseType} {ip : Option κ} {row : Lease κ χ}
      (h : row.scopeId = scopeId ∧ row.client = client ∧ D.leaseType row.ip = leaseType) :
    Touches D now (.task (.release scopeId client leaseType ip)) row
  | decline {scopeId : Str} {client : χ} {ip : κ} {row : Lease κ χ}
      (h : heldBy scopeId ip client row = true) :
    Touches D now (.task (.decline scopeId client ip)) row
  | expire {called : ℤ} {row : Lease κ χ} (h : Lapsed now row = true) :
    Touches D now (.expiring called) row
  | purge {called : ℤ} {row : Lease κ χ} (h : D.PastProbation called row = true) :
    Touches D now (.purging called) row
  | free {called : ℤ} {row : Lease κ χ} (h : D.PastHold called row = true) :
    Touches D now (.freeing called) row

variable {D : Daemon ν σ κ χ μ} {now : ℤ} {T T' : Leases κ χ} {p q : Phase σ κ χ} {row : Lease κ χ}
  {ip : κ} {F : Family σ κ χ}

/-- **Every other row stays as it is.** -/
theorem Writes.find_of_not_touches {events : List (Event κ χ)} (h : Writes D now T p T' q events)
    {key : Str × κ} (hrow : T.find key = some row) (hnot : ¬Touches D now p row) :
    T'.find key = some row := by
  have hkey : row.key = key := Store.key_of_find hrow
  cases h with
  | reply => exact hrow
  | insert =>
    rw [Store.find_upsert, if_neg fun heq => hnot (.insert (hkey.trans heq.symm)), hrow]
  | renew =>
    rw [Family.find_renewRow, if_neg fun heq => hnot (.renew (hkey.trans heq.symm)), hrow]
  | confirm =>
    rw [Store.find_upsert, if_neg fun heq => hnot (.confirm (hkey.trans heq.symm)), hrow]
  | mark =>
    rw [Family.find_markDeclined, if_neg fun heq => hnot (.mark (hkey.trans heq.symm)), hrow]
  | release => exact T.find_delete_of_not hrow (decide_eq_false fun h => hnot (.release h))
  | decline => exact T.find_update_of_not hrow (Bool.eq_false_iff.mpr fun h => hnot (.decline h))
  | expire hbatch =>
    refine T.find_update_of_not hrow (Bool.eq_false_iff.mpr fun hin => ?_)
    exact hnot (.expire (hbatch.1 row hin))
  | purge hbatch =>
    refine T.find_delete_of_not hrow (Bool.eq_false_iff.mpr fun hin => ?_)
    exact hnot (.purge (hbatch.1 row hin))
  | free hbatch =>
    refine T.find_delete_of_not hrow (Bool.eq_false_iff.mpr fun hin => ?_)
    exact hnot (.free (hbatch.1 row hin))

theorem Writes.unheld {events : List (Event κ χ)} {job : Job σ χ} (h : Writes D now T p T' q events)
    (hfree : D.Unheld T job ip) (hins : ∀ job' ip', p.Inserts job' ip' →
      (D.scopeId job.scope, ip) = (D.scopeId job'.scope, ip') → job'.client = job.client) :
    D.Unheld T' job ip := by
  intro row hrow hstate
  rcases h.find_cases hrow with ⟨old, hold, hclient, hcha⟩ | ⟨job', ip', hp, hkey, hclient⟩ |
    ⟨_, _, _, _, -, -, hdec⟩
  · refine hclient.trans (hfree old hold ?_)
    rcases hcha with heq | ⟨hact, -⟩
    · rwa [← heq]
    · rw [hact]
      decide
  · exact hclient.trans (hins job' ip' hp hkey)
  · exact absurd hdec hstate

/-- Between two transactions, with nothing decided: what a statement leaves a
handler in. -/
inductive Phase.Rests : Phase σ κ χ → Prop
  | idle : Rests .idle
  | peeking {job : Job σ χ} {probe : Bool} {excluded : List κ} {left : ℕ} :
    Rests (.peeking job probe excluded left)
  | purging {called : ℤ} : Rests (.purging called)
  | freeing {called : ℤ} : Rests (.freeing called)

omit [DecidableEq κ] [DecidableEq χ] in
theorem nextPeek_rests {job : Job σ χ} {excluded : List κ} {left : ℕ} :
    (nextPeek job excluded left ip).Rests := by
  rw [nextPeek]
  split
  · exact .idle
  · exact .peeking

theorem Writes.rests {events : List (Event κ χ)} (h : Writes D now T p T' q events) : q.Rests := by
  cases h with
  | mark => exact nextPeek_rests
  | expire => exact .purging
  | purge => exact .freeing
  | _ => exact .idle

omit [DecidableEq χ] in
theorem Phase.Rests.lock_eq_none (h : p.Rests) :
    F.lock p = none := by
  cases h <;> rfl

omit [DecidableEq χ] in
theorem Fails.lock_eq_none (h : Fails p q) :
    F.lock q = none := by
  cases h with
  | abort => rfl
  | @lookup job mode => cases mode <;> rfl
  | mark => exact nextPeek_rests.lock_eq_none

/-- What a handler is at work on. -/
def Phase.job : Phase σ κ χ → Option (Job σ χ)
  | .task (.reply job _ _) | .task (.lookup job _) | .task (.transact job _)
  | .task (.confirm job _ _) | .peeking job _ _ _ | .probing job _ _ _ | .marking job _ _ _
  | .waiting job _ _ | .selecting job _ _ _ | .renewing job _ _ _ _ | .scanning job _ _ _ _
  | .checking job _ _ _ | .guarding job _ _ _ | .inserting job _ _ _ _ => some job
  | .idle | .task (.release ..) | .task (.decline ..) | .expiring _ | .purging _ | .freeing _ =>
    none

section Job

variable {F : Family σ κ χ} {now : ℤ} {T T' : Leases κ χ} {reservations : List StaticLease}
  {p q : Phase σ κ χ} {job : Job σ χ}
variable {job' : Job σ χ}

omit [DecidableEq κ] [DecidableEq χ] in
theorem mem_job_afterLookup {mode : Lookup} (h : job ∈ (afterLookup job' mode : Phase σ κ χ).job) :
    job = job' := by
  cases mode with
  | discover | solicit => exact (some_inj.mp h).symm
  | renew => simp [afterLookup, Phase.job] at h

omit [DecidableEq κ] [DecidableEq χ] in
theorem mem_job_nextPeek {excluded : List κ} {left : ℕ}
    (h : job ∈ (nextPeek job' excluded left ip).job) : job = job' := by
  rw [nextPeek] at h
  split at h
  · simp [Phase.job] at h
  · exact (some_inj.mp h).symm

omit [DecidableEq χ] in
theorem Reads.mem_job (h : Reads F now T reservations p q) (hjob : job ∈ q.job) : job ∈ p.job := by
  cases h with
  | notFound => rw [mem_job_afterLookup hjob]; rfl
  | peek => split at hjob <;> exact hjob
  | collided =>
    rw [nextScan] at hjob
    split at hjob
    · simp [Phase.job] at hjob
    · exact hjob
  | peekNone | held | reserved => simp [Phase.job] at hjob
  | _ => exact hjob

theorem Writes.mem_job {events : List (Event κ χ)} (h : Writes D now T p T' q events)
    (hjob : job ∈ q.job) : job ∈ p.job := by
  cases h with
  | mark => rw [mem_job_nextPeek hjob]; rfl
  | _ => simp [Phase.job] at hjob

omit [DecidableEq κ] [DecidableEq χ] in
theorem Fails.mem_job (h : Fails p q) (hjob : job ∈ q.job) : job ∈ p.job := by
  cases h with
  | abort => simp [Phase.job] at hjob
  | lookup => rw [mem_job_afterLookup hjob]; rfl
  | mark => rw [mem_job_nextPeek hjob]; rfl

end Job

/-! ### All handlers -/

/-- The clock, the database, the snapshot of each instance (`ν`), the handlers
(`ι`, of all instances) and what happened so far, the latest first. -/
structure State (ι ν σ κ χ : Type) where
  now : ℤ
  leases : Leases κ χ
  config : Config σ
  snapshot : ν → Snapshot σ κ
  phase : ι → Phase σ κ χ
  log : List (Event κ χ)

/-- A new installation: scopes, but no reservation and no lease yet. -/
def State.fresh (now : ℤ) (scopes : List σ) : State ι ν σ κ χ where
  now := now
  leases := .empty
  config := ⟨scopes, []⟩
  snapshot := fun _ => ⟨scopes, []⟩
  phase := fun _ => .idle
  log := []

/-- Who acts. -/
inductive Label (ι ν σ κ χ : Type)
  | tick
  | edit (config : Config σ)
  | refresh (n : ν)
  | receive (i : ι) (task : Task σ κ χ)
  | sweep (i : ι)
  | read (i : ι)
  | write (i : ι)
  | fail (i : ι)

variable [DecidableEq ι] [DecidableEq ν]

/-- The state with one handler moved on. -/
def State.set (s : State ι ν σ κ χ) (i : ι) (p : Phase σ κ χ) : State ι ν σ κ χ :=
  { s with phase := update s.phase i p }

/-- The state after a statement of one handler. -/
def State.commit (s : State ι ν σ κ χ) (i : ι) (T : Leases κ χ) (p : Phase σ κ χ)
    (events : List (Event κ χ)) : State ι ν σ κ χ :=
  { s.set i p with leases := T, log := events ++ s.log }

/-- The state with other rows and more events. -/
def State.record (s : State ι ν σ κ χ) (T : Leases κ χ) (events : List (Event κ χ)) :
    State ι ν σ κ χ :=
  { s with leases := T, log := events ++ s.log }

inductive Step (D : Daemon ν σ κ χ μ) (s : State ι ν σ κ χ) :
    Label ι ν σ κ χ → State ι ν σ κ χ → Prop
  | tick (d : ℕ) : Step D s .tick { s with now := s.now + d }
  | edit (config : Config σ) : Step D s (.edit config) { s with config := config }
  | refresh {n : ν} {snapshot : Snapshot σ κ} (h : D.loadSnapshot s.config = some snapshot) :
    Step D s (.refresh n) { s with snapshot := update s.snapshot n snapshot }
  | receive {i : ι} {n : ν} {scope : σ} {msg : μ} {task : Task σ κ χ} (hidle : s.phase i = .idle)
      (hscope : scope ∈ (s.snapshot n).scopes)
      (htask : task ∈ D.dispatch n (s.snapshot n) scope msg s.now) :
    Step D s (.receive i task) (s.set i (.task task))
  | sweep {i : ι} (hidle : s.phase i = .idle) : Step D s (.sweep i) (s.set i (.expiring s.now))
  -- a lock is taken when no other handler has it, and kept
  | read {i : ι} {q : Phase σ κ χ}
      (h : Reads D.toFamily s.now s.leases s.config.reservations (s.phase i) q)
      (hlock : ∀ l, D.lock q = some l →
        D.lock (s.phase i) = some l ∨ ∀ j, j ≠ i → D.lock (s.phase j) ≠ some l) :
    Step D s (.read i) (s.set i q)
  | write {i : ι} {T : Leases κ χ} {q : Phase σ κ χ} {events : List (Event κ χ)}
      (h : Writes D s.now s.leases (s.phase i) T q events) :
    Step D s (.write i) (s.commit i T q events)
  | fail {i : ι} {q : Phase σ κ χ} (h : Fails (s.phase i) q) : Step D s (.fail i) (s.set i q)

/-- A run all of whose steps meet a condition on the state before the step. -/
def RunWhile (D : Daemon ν σ κ χ μ) (ok : State ι ν σ κ χ → Label ι ν σ κ χ → Prop) :
    State ι ν σ κ χ → State ι ν σ κ χ → Prop :=
  Relation.ReflTransGen fun s t => ∃ l, ok s l ∧ Step D s l t

variable {D : Daemon ν σ κ χ μ} {ok : State ι ν σ κ χ → Label ι ν σ κ χ → Prop}
  {s t : State ι ν σ κ χ} {i j : ι} {p q : Phase σ κ χ} {T : Leases κ χ} {events : List (Event κ χ)}

section Set

omit [DecidableEq κ] [DecidableEq χ] [DecidableEq ν]

@[simp] theorem phase_set_self : (s.set i p).phase i = p := update_self ..

theorem phase_set_ne (h : j ≠ i) : (s.set i p).phase j = s.phase j := update_of_ne h ..

@[simp] theorem set_set : (s.set i p).set i q = s.set i q := by
  simp only [State.set, update_idem]

@[simp] theorem set_commit : (s.set i p).commit i T q events = s.commit i T q events := by
  simp only [State.commit, State.set, update_idem]

theorem set_of_phase_eq (h : s.phase i = p) : s.set i p = s := by
  rw [State.set, ← h, update_eq_self]

theorem commit_idle (h : s.phase i = .idle) :
    s.commit i T .idle events = s.record T events := by
  rw [State.commit, set_of_phase_eq h, State.record]

theorem forall_phase_set {P : ι → Phase σ κ χ → Prop} (hi : P i p)
    (hoth : ∀ j, j ≠ i → P j (s.phase j)) : ∀ j, P j ((s.set i p).phase j) := by
  intro j
  by_cases hj : j = i
  · subst hj
    rwa [phase_set_self]
  · rw [phase_set_ne hj]
    exact hoth j hj

/-- No two handlers have the same thing. -/
def Apart {β : Type} (f : Phase σ κ χ → Option β) (s : State ι ν σ κ χ) : Prop :=
  ∀ i j b, f (s.phase i) = some b → f (s.phase j) = some b → i = j

variable {β : Type} {f : Phase σ κ χ → Option β}

theorem Apart.set (h : Apart f s)
    (hp : ∀ b, f p = some b → f (s.phase i) = some b ∨ ∀ j, j ≠ i → f (s.phase j) ≠ some b) :
    Apart f (s.set i p) := by
  have hoth : ∀ j b, j ≠ i → f p = some b → f (s.phase j) ≠ some b := by
    intro j b hj hb hjb
    rcases hp b hb with hi | hfree
    · exact hj (h j i b hjb hi)
    · exact hfree j hj hjb
  intro a b x ha hb
  by_cases hai : a = i <;> by_cases hbi : b = i
  · rw [hai, hbi]
  · subst hai
    rw [phase_set_self] at ha
    rw [phase_set_ne hbi] at hb
    exact absurd hb (hoth b x hbi ha)
  · subst hbi
    rw [phase_set_self] at hb
    rw [phase_set_ne hai] at ha
    exact absurd ha (hoth a x hai hb)
  · rw [phase_set_ne hai] at ha
    rw [phase_set_ne hbi] at hb
    exact h a b x ha hb

theorem Apart.commit (h : Apart f s)
    (hp : ∀ b, f p = some b → f (s.phase i) = some b ∨ ∀ j, j ≠ i → f (s.phase j) ≠ some b) :
    Apart f (s.commit i T p events) :=
  h.set hp

end Set

/-- The rule for invariants of runs. -/
theorem RunWhile.induct {P : State ι ν σ κ χ → Prop} (h : RunWhile D ok s t) (hs : P s)
    (hstep : ∀ {s t l}, P s → ok s l → Step D s l t → P t) : P t := by
  induction h with
  | refl => exact hs
  | tail _ hlast ih =>
    obtain ⟨l, hok, hl⟩ := hlast
    exact hstep ih hok hl

theorem Step.forall_job {P : Job σ χ → Prop} {l : Label ι ν σ κ χ} (hstep : Step D s l t)
    (htask : ∀ n snapshot scope msg now, ∀ task ∈ D.dispatch n snapshot scope msg now,
      ∀ job ∈ (Phase.task task).job, P job)
    (hs : ∀ i, ∀ job ∈ (s.phase i).job, P job) : ∀ i, ∀ job ∈ (t.phase i).job, P job := by
  have hset : ∀ i p, (∀ job ∈ p.job, P job) → ∀ j, ∀ job ∈ ((s.set i p).phase j).job, P job :=
    fun i p hp => forall_phase_set (P := fun _ p => ∀ job ∈ p.job, P job) hp fun j _ => hs j
  cases hstep with
  | tick | edit | refresh => exact hs
  | receive _ _ hmem => exact hset _ _ (htask _ _ _ _ _ _ hmem)
  | sweep => exact hset _ _ fun job hjob => absurd hjob (by simp [Phase.job])
  | read h | write h | fail h => exact hset _ _ fun job hjob => hs _ job (h.mem_job hjob)

/-! ### Watched runs -/

section Watched

variable {η : Type}

/-- A run that is watched: at every step what was seen so far (type `η`) is brought
up to date, and the steps meet a condition on both. -/
def WatchedRun (D : Daemon ν σ κ χ μ)
    (watch : State ι ν σ κ χ → Label ι ν σ κ χ → State ι ν σ κ χ → η → η)
    (ok : State ι ν σ κ χ → η → Label ι ν σ κ χ → Prop) :
    State ι ν σ κ χ × η → State ι ν σ κ χ × η → Prop :=
  Relation.ReflTransGen fun a b =>
    ∃ l, ok a.1 a.2 l ∧ Step D a.1 l b.1 ∧ b.2 = watch a.1 l b.1 a.2

variable {watch : State ι ν σ κ χ → Label ι ν σ κ χ → State ι ν σ κ χ → η → η}
  {okw : State ι ν σ κ χ → η → Label ι ν σ κ χ → Prop} {a : State ι ν σ κ χ × η} {e e' : η}

theorem WatchedRun.induct {P : State ι ν σ κ χ → η → Prop}
    (h : WatchedRun D watch okw a (t, e')) (hs : P a.1 a.2)
    (hstep : ∀ {s e l t}, P s e → okw s e l → Step D s l t → P t (watch s l t e)) : P t e' := by
  have hall : ∀ b, WatchedRun D watch okw a b → P b.1 b.2 := by
    intro b hb
    induction hb with
    | refl => exact hs
    | @tail b c _ hlast ih =>
      obtain ⟨l, hok, hl, heq⟩ := hlast
      rw [heq]
      exact hstep ih hok hl
  exact hall _ h

theorem WatchedRun.mono {okw' : State ι ν σ κ χ → η → Label ι ν σ κ χ → Prop}
    {b : State ι ν σ κ χ × η} (h : WatchedRun D watch okw a b)
    (hok : ∀ s e l, okw s e l → okw' s e l) : WatchedRun D watch okw' a b :=
  Relation.ReflTransGen.mono (fun _ _ ⟨l, hl, hstep⟩ => ⟨l, hok _ _ l hl, hstep⟩) a b h

end Watched

/-! ### Locks -/

/-- No lock is held twice. -/
def LocksApart (D : Daemon ν σ κ χ μ) (s : State ι ν σ κ χ) : Prop := Apart D.lock s

theorem LocksApart.step {l : Label ι ν σ κ χ} (h : LocksApart D s) (hstep : Step D s l t) :
    LocksApart D t := by
  cases hstep with
  | tick | edit | refresh => exact h
  | receive | sweep => exact Apart.set h fun l hl => absurd hl (by simp [Family.lock])
  | read _ hlock => exact Apart.set h hlock
  | write hwr => exact h.commit fun l hl => absurd hl (by simp [hwr.rests.lock_eq_none])
  | fail hfail => exact Apart.set h fun l hl => absurd hl (by simp [hfail.lock_eq_none])

omit [DecidableEq ι] [DecidableEq ν] [DecidableEq χ] in
theorem locksApart_fresh (now : ℤ) (scopes : List σ) :
    LocksApart D (State.fresh now scopes : State ι ν σ κ χ) := by
  intro i j l hi
  simp [State.fresh, Family.lock] at hi

/-! ### A handler that acts alone -/

theorem RunWhile.read (h : RunWhile D ok s (t.set i p)) (hok : ok (t.set i p) (.read i))
    (hread : Reads D.toFamily t.now t.leases t.config.reservations p q)
    (hlock : ∀ l, D.lock q = some l → D.lock p = some l ∨
      ∀ j, j ≠ i → D.lock (t.phase j) ≠ some l) :
    RunWhile D ok s (t.set i q) := by
  have hstep : Step D (t.set i p) (.read i) ((t.set i p).set i q) := by
    refine .read (by rwa [phase_set_self]) fun l hl => ?_
    rw [phase_set_self]
    exact (hlock l hl).imp_right fun hfree j hj => by rw [phase_set_ne hj]; exact hfree j hj
  rw [set_set] at hstep
  exact h.tail ⟨_, hok, hstep⟩

theorem step_write (hwr : Writes D t.now t.leases p T q events) :
    Step D (t.set i p) (.write i) ((t.set i p).commit i T q events) :=
  .write (by rwa [phase_set_self])

theorem RunWhile.write (h : RunWhile D ok s (t.set i p)) (hok : ok (t.set i p) (.write i))
    (hidle : t.phase i = .idle) (hwr : Writes D t.now t.leases p T .idle events) :
    RunWhile D ok s (t.record T events) := by
  have hstep := step_write (i := i) hwr
  rw [set_commit, commit_idle hidle] at hstep
  exact h.tail ⟨_, hok, hstep⟩

omit [DecidableEq χ] in
theorem unreserved_of_forall {reservations : List StaticLease} {client : χ}
    (h : ∀ r ∈ reservations, F.ReservedAt scopeId ip r → F.owns r.client client = true) :
    (∀ r ∈ reservations, ¬F.ReservedAt scopeId ip r) ∨
      ∃ r ∈ reservations, F.ReservedAt scopeId ip r ∧ F.owns r.client client = true := by
  by_cases hnone : ∀ r ∈ reservations, ¬F.ReservedAt scopeId ip r
  · exact .inl hnone
  · push Not at hnone
    obtain ⟨r, hr, hat⟩ := hnone
    exact .inr ⟨r, hr, hat, h r hr hat⟩

end Dhcp
