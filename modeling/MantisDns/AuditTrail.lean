/-
The audit trail of the DHCP API: `write_audit_log` of `audit.py`, `get_db` of
`db/session.py`, and the scope and reservation endpoints of `api/dhcp_routers.py`
and `api/dhcp6_routers.py`.

An endpoint works on a session of its own.  `db.add` only puts a row into the
session; it reaches the table with the next `db.commit()`, and `get_db` closes the
session without one.

* `serve_mutate` — what such an endpoint leaves in the database: its change, and
  the audit log as it was;
* `recorded_iff_refused` — a sequence of calls is on record exactly if every call
  of it was refused;
* `unrecorded_scope` — a scope that was created, and no entry.
-/
import MantisDns.ScopeApi

open Text Table

namespace Control.AuditTrail

/-! ### Sessions -/

/-- A row of `audit_log`, without the columns that the database fills in. -/
structure AuditLog where
  actor : Str
  action : Str
  resourceType : Str
  resourceId : Str
  detail : Str
  tenantId : Option Str
  deriving DecidableEq

/-- What is committed. -/
structure Store (δ : Type) where
  db : δ
  auditLog : List AuditLog
  deriving DecidableEq

/-- What the session sees, and the entries that were added to it. -/
structure Session (δ : Type) where
  store : Store δ
  db : δ
  added : List AuditLog

variable {δ : Type}

/-- The part of a handler up to the flush: its checks and its change. -/
def Session.change (s : Session δ) (f : δ → Option δ) : Option (Session δ) :=
  (f s.db).map fun db => { s with db }

/-- `db.commit()`. -/
def Session.commit (s : Session δ) : Session δ where
  store := ⟨s.db, s.store.auditLog ++ s.added⟩
  db := s.db
  added := []

/-- `write_audit_log`. -/
def Session.writeAuditLog (s : Session δ) (entry : AuditLog) : Session δ :=
  { s with added := s.added ++ [entry] }

/-- An endpoint; `none` where it raises. -/
abbrev Handler (δ : Type) := Session δ → Option (Session δ)

/-- A request under `get_db`: a new session, closed without a commit; an exception
rolls back. -/
def serve (handler : Handler δ) (store : Store δ) : Option (Store δ) :=
  (handler ⟨store, store.db, []⟩).map (·.store)

/-- The endpoints below: the change, the commit, the entry. -/
def mutate (f : δ → Option δ) (entry : δ → AuditLog) : Handler δ := fun s => do
  let loaded := s.db
  let s ← s.change f
  let s := s.commit
  return s.writeAuditLog (entry loaded)

/-- **What an endpoint leaves**: the session is closed with the entry still in it. -/
theorem serve_mutate (f : δ → Option δ) (entry : δ → AuditLog) (store : Store δ) :
    serve (mutate f entry) store = (f store.db).map fun db => ⟨db, store.auditLog⟩ := by
  cases hf : f store.db with
  | none => simp [serve, mutate, Session.change, hf]
  | some =>
    simp [serve, mutate, Session.change, Session.commit, Session.writeAuditLog, hf]

/-! ### The endpoints -/

structure Caller extends User where
  email : Str

/-- The tables of DHCPv4 and DHCPv6. -/
structure Tables where
  v4 : Scopes.DhcpDb
  v6 : Scopes6.DhcpDb6

def Tables.on4 (f : Scopes.DhcpDb → Option Scopes.DhcpDb) (db : Tables) : Option Tables :=
  (f db.v4).map fun v4 => { db with v4 }

def Tables.on6 (f : Scopes6.DhcpDb6 → Option Scopes6.DhcpDb6) (db : Tables) : Option Tables :=
  (f db.v6).map fun v6 => { db with v6 }

/-- `scope.tenant_id` of the loaded scope. -/
def Tables.tenant4 (db : Tables) (scopeId : Str) : Option Str :=
  (db.v4.scopes.find? (·.id = scopeId)).map (·.tenantId)

def Tables.tenant6 (db : Tables) (scopeId : Str) : Option Str :=
  (db.v6.scopes.find? (·.id = scopeId)).map (·.tenantId)

/-- The entry of a call, without a detail. -/
def Caller.entry (c : Caller) (action resourceType : String) (resourceId : Str)
    (tenantId : Option Str) : AuditLog :=
  ⟨c.email, action.toList, resourceType.toList, resourceId, [], tenantId⟩

/-- `create_scope`. -/
def createScope (c : Caller) (id : Str) (body : Scopes.ScopeCreate) : Handler Tables :=
  mutate (Tables.on4 fun db => Scopes.createScope db c.toUser id body) fun _ =>
    c.entry "dhcp_scope.create" "dhcp_scope" id (some body.tenantId)

/-- `update_scope`. -/
def updateScope (c : Caller) (scopeId : Str) (body : Scopes.ScopeUpdate) : Handler Tables :=
  mutate (Tables.on4 fun db => Scopes.updateScope db c.toUser scopeId body) fun db =>
    c.entry "dhcp_scope.update" "dhcp_scope" scopeId (db.tenant4 scopeId)

/-- `delete_scope`. -/
def deleteScope (c : Caller) (scopeId : Str) : Handler Tables :=
  mutate (Tables.on4 fun db => Scopes.deleteScope db c.toUser scopeId) fun db =>
    c.entry "dhcp_scope.delete" "dhcp_scope" scopeId (db.tenant4 scopeId)

/-- `create_reservation`. -/
def createReservation (c : Caller) (scopeId id : Str) (body : Scopes.ReservationCreate) :
    Handler Tables :=
  mutate (Tables.on4 fun db => Scopes.createReservation db c.toUser scopeId id body) fun db =>
    c.entry "dhcp_reservation.create" "dhcp_static_lease" id (db.tenant4 scopeId)

/-- `update_reservation`. -/
def updateReservation (c : Caller) (scopeId reservationId : Str)
    (body : Scopes.ReservationUpdate) : Handler Tables :=
  mutate (Tables.on4 fun db => Scopes.updateReservation db c.toUser scopeId reservationId body)
    fun db => c.entry "dhcp_reservation.update" "dhcp_static_lease" reservationId
      (db.tenant4 scopeId)

/-- `delete_reservation`. -/
def deleteReservation (c : Caller) (scopeId reservationId : Str) : Handler Tables :=
  mutate (Tables.on4 fun db => Scopes.deleteReservation db c.toUser scopeId reservationId)
    fun db => c.entry "dhcp_reservation.delete" "dhcp_static_lease" reservationId
      (db.tenant4 scopeId)

/-- `create_scope6`. -/
def createScope6 (c : Caller) (id : Str) (body : Scopes6.ScopeCreate) : Handler Tables :=
  mutate (Tables.on6 fun db => Scopes6.createScope6 db c.toUser id body) fun _ =>
    c.entry "dhcp6_scope.create" "dhcp_scope6" id (some body.tenantId)

/-- `update_scope6`. -/
def updateScope6 (c : Caller) (scopeId : Str) (body : Scopes6.ScopeUpdate) : Handler Tables :=
  mutate (Tables.on6 fun db => Scopes6.updateScope6 db c.toUser scopeId body) fun db =>
    c.entry "dhcp6_scope.update" "dhcp_scope6" scopeId (db.tenant6 scopeId)

/-- `delete_scope6`. -/
def deleteScope6 (c : Caller) (scopeId : Str) : Handler Tables :=
  mutate (Tables.on6 fun db => Scopes6.deleteScope6 db c.toUser scopeId) fun db =>
    c.entry "dhcp6_scope.delete" "dhcp_scope6" scopeId (db.tenant6 scopeId)

/-- `create_reservation6`. -/
def createReservation6 (c : Caller) (scopeId id : Str) (body : Scopes6.ReservationCreate) :
    Handler Tables :=
  mutate (Tables.on6 fun db => Scopes6.createReservation6 db c.toUser scopeId id body) fun db =>
    c.entry "dhcp6_reservation.create" "dhcp_static_lease6" id (db.tenant6 scopeId)

/-- `update_reservation6`. -/
def updateReservation6 (c : Caller) (scopeId reservationId : Str)
    (body : Scopes6.ReservationUpdate) : Handler Tables :=
  mutate (Tables.on6 fun db => Scopes6.updateReservation6 db c.toUser scopeId reservationId body)
    fun db => c.entry "dhcp6_reservation.update" "dhcp_static_lease6" reservationId
      (db.tenant6 scopeId)

/-- `delete_reservation6`. -/
def deleteReservation6 (c : Caller) (scopeId reservationId : Str) : Handler Tables :=
  mutate (Tables.on6 fun db => Scopes6.deleteReservation6 db c.toUser scopeId reservationId)
    fun db => c.entry "dhcp6_reservation.delete" "dhcp_static_lease6" reservationId
      (db.tenant6 scopeId)

/-- The calls that change a scope or a reservation. -/
inductive Call
  | createScope (id : Str) (body : Scopes.ScopeCreate)
  | updateScope (scopeId : Str) (body : Scopes.ScopeUpdate)
  | deleteScope (scopeId : Str)
  | createReservation (scopeId id : Str) (body : Scopes.ReservationCreate)
  | updateReservation (scopeId reservationId : Str) (body : Scopes.ReservationUpdate)
  | deleteReservation (scopeId reservationId : Str)
  | createScope6 (id : Str) (body : Scopes6.ScopeCreate)
  | updateScope6 (scopeId : Str) (body : Scopes6.ScopeUpdate)
  | deleteScope6 (scopeId : Str)
  | createReservation6 (scopeId id : Str) (body : Scopes6.ReservationCreate)
  | updateReservation6 (scopeId reservationId : Str) (body : Scopes6.ReservationUpdate)
  | deleteReservation6 (scopeId reservationId : Str)

def Call.handler (c : Caller) : Call → Handler Tables
  | .createScope id body => AuditTrail.createScope c id body
  | .updateScope scopeId body => AuditTrail.updateScope c scopeId body
  | .deleteScope scopeId => AuditTrail.deleteScope c scopeId
  | .createReservation scopeId id body => AuditTrail.createReservation c scopeId id body
  | .updateReservation scopeId reservationId body =>
    AuditTrail.updateReservation c scopeId reservationId body
  | .deleteReservation scopeId reservationId =>
    AuditTrail.deleteReservation c scopeId reservationId
  | .createScope6 id body => AuditTrail.createScope6 c id body
  | .updateScope6 scopeId body => AuditTrail.updateScope6 c scopeId body
  | .deleteScope6 scopeId => AuditTrail.deleteScope6 c scopeId
  | .createReservation6 scopeId id body => AuditTrail.createReservation6 c scopeId id body
  | .updateReservation6 scopeId reservationId body =>
    AuditTrail.updateReservation6 c scopeId reservationId body
  | .deleteReservation6 scopeId reservationId =>
    AuditTrail.deleteReservation6 c scopeId reservationId

/-! ### Sequences of calls -/

/-- One call by one user. -/
def serveCall (store : Store Tables) (call : Caller × Call) : Option (Store Tables) :=
  serve (call.2.handler call.1) store

/-- The database after some calls; a refused one changes nothing. -/
def after (store : Store Tables) (calls : List (Caller × Call)) : Store Tables :=
  calls.foldl (fun store call => (serveCall store call).getD store) store

/-- Each call that succeeds has left an entry of its caller. -/
def Recorded (store : Store Tables) (calls : List (Caller × Call)) : Prop :=
  ∀ before call rest store', calls = before ++ call :: rest →
    serveCall (after store before) call = some store' →
    ∃ e : AuditLog, e.actor = call.1.email ∧
      store'.auditLog = (after store before).auditLog ++ [e]

/-- No call succeeds. -/
def Refused (store : Store Tables) (calls : List (Caller × Call)) : Prop :=
  ∀ before call rest, calls = before ++ call :: rest →
    serveCall (after store before) call = none

theorem Call.handler_eq (c : Caller) (call : Call) :
    ∃ f entry, call.handler c = mutate f entry := by
  cases call <;> simp only [Call.handler] <;> exact ⟨_, _, rfl⟩

theorem auditLog_of_serveCall {store store' : Store Tables} {call : Caller × Call}
    (h : serveCall store call = some store') : store'.auditLog = store.auditLog := by
  obtain ⟨f, entry, hhan⟩ := call.2.handler_eq call.1
  rw [serveCall, hhan, serve_mutate, Option.map_eq_some_iff] at h
  obtain ⟨db, -, rfl⟩ := h
  rfl

/-- **No entry ever reaches the table**: whatever the calls, they are on record exactly if
none of them succeeds. -/
theorem recorded_iff_refused (store : Store Tables) (calls : List (Caller × Call)) :
    Recorded store calls ↔ Refused store calls := by
  constructor
  · intro h before call rest hcal
    cases hsv : serveCall (after store before) call with
    | none => rfl
    | some store' =>
      obtain ⟨e, -, he⟩ := h before call rest store' hcal hsv
      rw [auditLog_of_serveCall hsv] at he
      simp at he
  · intro h before call rest store' hcal hsv
    rw [h before call rest hcal] at hsv
    simp at hsv

/-- An operator creates a scope. -/
theorem unrecorded_scope :
    ∃ (c : Caller) (body : Scopes.ScopeCreate) (store store' : Store Tables),
      serveCall store (c, .createScope "1".toList body) = some store' ∧
        (store'.db.v4.scopes.map (·.id) = ["1".toList] ∧ store'.auditLog = []) ∧
        ¬Recorded store [(c, .createScope "1".toList body)] := by
  let c : Caller := ⟨⟨.operator, some "red".toList⟩, "ann@red.example".toList⟩
  let body : Scopes.ScopeCreate :=
    { tenantId := "red".toList, name := "lan".toList, subnet := "192.0.2.0/24".toList,
      rangeStart := "192.0.2.10".toList, rangeEnd := "192.0.2.99".toList }
  let store : Store Tables := ⟨⟨.fresh ["red".toList], .fresh ["red".toList]⟩, []⟩
  have hsv : serveCall store (c, .createScope "1".toList body) = some
      ⟨⟨{ Scopes.DhcpDb.fresh ["red".toList] with
          scopes := [{ body with id := "1".toList }], issued := ["1".toList] },
        .fresh ["red".toList]⟩, []⟩ := by
    rw [serveCall, Call.handler, createScope, serve_mutate]
    rfl
  refine ⟨c, body, store, _, hsv, ⟨rfl, rfl⟩, fun h => ?_⟩
  obtain ⟨e, -, he⟩ := h [] (c, .createScope "1".toList body) [] _ rfl hsv
  simp at he

end Control.AuditTrail
