/-
One client per address, under DHCPv4.

A client holds an address while its last word on it is an ACK whose lease time
has not run out.  Claiming and allocating keep the addresses apart under the
lock; what can undo that are the statements outside it, which do not look at
whose row they change.

* `address_exclusive` — no address is held twice, in any run in which a recorded
  conflict, a renewal and a RELEASE only touch the row they are about;
* `address_shared` — without that, two clients hold one address: the conflict
  that a probe found was the client that had just been given the address.
-/
import MantisDns.Dhcp4

open Text Table Dhcp List Option

namespace Dhcp

variable {ι ν σ κ χ : Type} [DecidableEq κ] [DecidableEq χ]

/-! ### Holding an address -/

/-- The events that say whether a client has the address. -/
def Event.concerns (scopeId : Str) (ip : κ) (client : χ) : Event κ χ → Bool
  | .offer _ _ _ _ => false
  | .grant scopeId' ip' client' _ _ => scopeId' = scopeId ∧ ip' = ip ∧ client' = client
  | .release scopeId' client' ip' => scopeId' = scopeId ∧ client' = client ∧ ip' = some ip
  | .decline scopeId' ip' client' _ => scopeId' = scopeId ∧ ip' = ip ∧ client' = client
  | .conflict _ _ _ => false

/-- The last word of the client on the address is a grant. -/
def State.LastGrant (s : State ι ν σ κ χ) (scopeId : Str) (ip : κ) (client : χ) (expires : ℤ) :
    Prop :=
  ∃ time, s.log.find? (Event.concerns scopeId ip client) =
    some (.grant scopeId ip client time expires)

/-- The client was given the address, the time has not run out, and it has
neither released nor declined it since. -/
def State.Holds (s : State ι ν σ κ χ) (scopeId : Str) (ip : κ) (client : χ) : Prop :=
  ∃ expires, s.LastGrant scopeId ip client expires ∧ s.now ≤ expires

theorem holds_of_log_eq {s : State ι ν σ κ χ} {scopeId : Str} {ip : κ} {client : χ}
    {time expires : ℤ} {log : List (Event κ χ)}
    (h : s.log = .grant scopeId ip client time expires :: log) (hnow : s.now ≤ expires) :
    s.Holds scopeId ip client := by
  refine ⟨expires, ⟨time, ?_⟩, hnow⟩
  rw [h]
  exact find?_cons_of_pos (by simp [Event.concerns])

end Dhcp

namespace Dhcp4

variable {ι ν : Type} [DecidableEq ι] [DecidableEq ν] {srv : ν → Server} {sweep : Sweep}
  {s t : State ι ν Scope UInt32 Mac} {l : Label ι ν Scope UInt32 Mac}
variable {snapshot : Snapshot Scope UInt32} {now expires : ℤ} {T : Leases UInt32 Mac}
  {p q : Phase Scope UInt32 Mac} {events : List (Event UInt32 Mac)} {i : ι} {scopeId : Str}
  {ip : UInt32} {client : Mac}

/-! ### The conditions -/

/-- No reservation is ever configured. -/
def NoReservations : Label ι ν Scope UInt32 Mac → Prop
  | .edit config => config.reservations = []
  | _ => True

/-- A statement outside the lock touches no row that a client relies on, except
the one it is about. -/
def TouchesOwn (s : State ι ν Scope UInt32 Mac) : Phase Scope UInt32 Mac → Prop
  | .marking job _ _ ip =>
    ∀ row, s.leases.find (job.scope.id, ip) = some row → ¬row.Running s.now
  | .renewing job _ _ _ ip =>
    ∃ row, s.leases.find (job.scope.id, ip) = some row ∧ row.client = job.client ∧
      row.state = .active
  | .task (.release scopeId client _ ip) =>
    ∀ row ∈ s.leases.rows, row.scopeId = scopeId → row.client = client → row.Running s.now →
      ip = some row.ip
  | _ => True

def TouchesOwnRows (s : State ι ν Scope UInt32 Mac) : Label ι ν Scope UInt32 Mac → Prop
  | .write i => TouchesOwn s (s.phase i)
  | _ => True

/-! ### What a handler knows -/

/-- Past its check, a claim or an allocation knows that no other client has the
address.  Without reservations nothing is confirmed, and DHCPv4 writes no row
without an ACK. -/
def Knows (T : Leases UInt32 Mac) : Phase Scope UInt32 Mac → Prop
  | .task (.reply _ answer _) => answer = .advertise
  | .task (.lookup _ mode) => ∃ probe attempts, mode = .discover probe attempts
  | .task (.transact _ tx) => tx.answer = .grant
  | .task (.confirm _ _ _) => False
  | .waiting _ tx _ => tx.answer = .grant
  | .selecting _ answer _ _ => answer = .grant
  | .renewing _ answer _ _ _ => answer = .grant
  | .scanning _ answer _ _ _ => answer = .grant
  | .checking _ answer _ _ => answer = .grant
  | .guarding job answer _ ip => answer = .grant ∧ family.Unheld T job ip
  | .inserting job answer _ _ ip => answer = .grant ∧ family.Unheld T job ip
  | _ => True

theorem knows_handle {srv : Server} {scope : Scope} {msg : Message} {task : Task Scope UInt32 Mac}
    (T : Leases UInt32 Mac) (hnone : snapshot.reservations = [])
    (h : task ∈ handle srv snapshot scope msg now) : Knows T (.task task) := by
  have hres : ∀ mac, family.reservationFor snapshot scope.id mac = none := fun mac => by
    simp [Family.reservationFor, hnone]
  simp only [handle, hres] at h
  split at h
  · obtain rfl := mem_singleton.mp h
    exact ⟨_, _, rfl⟩
  · split at h
    · simp at h
    · obtain ⟨tx, htx, rfl⟩ := mem_handleRequest_none h
      exact htx
  · split at h
    · simp at h
    · obtain rfl := mem_singleton.mp h
      trivial
  · obtain ⟨ip, -, rfl⟩ := map_eq_some_iff.mp (mem_toList.mp h)
    trivial
  · simp at h
  · simp at h

theorem knows_reads {reservations : List StaticLease} (hp : Knows T p)
    (h : Reads family now T reservations p q) :
    Knows T q := by
  cases h with
  | found =>
    obtain ⟨probe, attempts, rfl⟩ := hp
    rfl
  | notFound =>
    obtain ⟨probe, attempts, rfl⟩ := hp
    trivial
  | peek =>
    split
    · trivial
    · rfl
  | silent => rfl
  | scanned hscan =>
    refine ⟨hp, fun row hrow => ?_⟩
    exact absurd hrow (by simp [(family.scan_free hscan).2.1])
  | collided =>
    rw [nextScan]
    split
    · trivial
    · exact hp
  | unheld _ hfree | undelegated _ hfree => exact ⟨hp, hfree⟩
  | start | lockAllocate | lockClaim | selected | unselected | unreserved => exact hp
  | _ => trivial

theorem knows_of_rests (h : p.Rests) :
    Knows T p := by
  cases h <;> trivial

theorem knows_fails (hp : Knows T p) (h : Fails p q) : Knows T q := by
  cases h with
  | abort => trivial
  | lookup =>
    obtain ⟨probe, attempts, rfl⟩ := hp
    trivial
  | mark => exact knows_of_rests nextPeek_rests

omit [DecidableEq ν] in
theorem knows_writes {T' : Leases UInt32 Mac} {p' : Phase Scope UInt32 Mac}
    (h : Writes (daemon srv sweep) now T p T' q events) (hp : Knows T p) (hp' : Knows T p')
    (hlock : ∀ l, family.lock p = some l → family.lock p' ≠ some l) : Knows T' p' := by
  -- who could write a row of another client at this address would have the same lock
  have hsta : ∀ job ip, family.lock p' = some (job.scope.id, .na) → family.Unheld T job ip →
      family.Unheld T' job ip := by
    intro job ip hl hfree
    refine h.unheld hfree fun job' ip' hins hkey => ?_
    -- the other handler would be inserting at this very address
    obtain ⟨hsc, -⟩ := Prod.mk.inj hkey
    have hl' : family.lock p' = some (job'.scope.id, .na) := by
      rw [hl]
      exact congrArg (fun id => some (id, LeaseType.na)) hsc
    rcases hins with ⟨_, _, _, rfl⟩ | ⟨_, rfl⟩
    · exact absurd hl' (hlock _ rfl)
    · exact absurd hp id
  cases p' with
  | guarding job answer began ip | inserting job answer began expires ip =>
    exact ⟨hp'.1, hsta job ip rfl hp'.2⟩
  | task task => cases task <;> exact hp'
  | _ => exact hp'

/-! ### Every grant has its row -/

/-- The row behind a grant that has not run out. -/
def Backed (s : State ι ν Scope UInt32 Mac) : Prop :=
  ∀ scopeId ip client expires, s.LastGrant scopeId ip client expires → s.now ≤ expires →
    ∃ row, s.leases.find (scopeId, ip) = some row ∧ row.client = client ∧ row.state = .active ∧
      row.expiresAt = expires

omit [DecidableEq ν] in
theorem lastGrant_commit (h : (s.commit i T q events).LastGrant scopeId ip client expires) :
    (∃ time, .grant scopeId ip client time expires ∈ events) ∨
      s.LastGrant scopeId ip client expires ∧
        ∀ e ∈ events, e.concerns scopeId ip client = false := by
  obtain ⟨time, htime⟩ := h
  have htime : (events ++ s.log).find? (Event.concerns scopeId ip client) =
    some (.grant scopeId ip client time expires) := htime
  rw [find?_append, or_eq_some_iff] at htime
  rcases htime with hnew | ⟨hnone, hold⟩
  · exact .inl ⟨time, mem_of_find?_eq_some hnew⟩
  · exact .inr ⟨⟨time, hold⟩, by simpa using hnone⟩

omit [DecidableEq ι] [DecidableEq ν] in
theorem find_of_granted {time : ℤ} (h : Writes (daemon srv sweep) s.now s.leases p T q events)
    (hkn : Knows s.leases p) (htou : TouchesOwn s p)
    (hgr : .grant scopeId ip client time expires ∈ events) :
    ∃ row, T.find (scopeId, ip) = some row ∧ row.client = client ∧ row.state = .active ∧
      row.expiresAt = expires := by
  cases h with
  | reply =>
    cases hkn
    cases mem_singleton.mp hgr
  | insert =>
    obtain ⟨rfl, -⟩ := hkn
    cases mem_singleton.mp hgr
    exact ⟨_, (Store.find_upsert _).trans (if_pos rfl), rfl, rfl, rfl⟩
  | renew =>
    cases hkn
    cases mem_singleton.mp hgr
    -- the renewed row is still there, and still its own
    obtain ⟨own, hown, hcl, hact⟩ := htou
    exact ⟨_, family.find_renewRow.trans ((if_pos rfl).trans (congrArg _ hown)), hcl, hact,
      rfl⟩
  | confirm => exact absurd hkn id
  | mark | release => cases mem_singleton.mp hgr
  | decline =>
    split at hgr
    · cases mem_singleton.mp hgr
    · simp at hgr
  | expire | purge | free => simp at hgr

omit [DecidableEq ι] [DecidableEq ν] in
theorem not_touches_of_running {row : Lease UInt32 Mac}
    (h : Writes (daemon srv sweep) s.now s.leases p T q events) (hkn : Knows s.leases p)
    (htou : TouchesOwn s p) (hrow : row ∈ s.leases.rows) (hrun : row.Running s.now)
    (hsil : ∀ e ∈ events, e.concerns row.scopeId row.ip row.client = false) :
    ¬Touches (daemon srv sweep) s.now p row := by
  have hfind : s.leases.find row.key = some row := s.leases.mem_rows_iff.mp hrow
  intro htouc
  cases htouc with
  | insert hat =>
    -- no other client has the address, so the grant would be to this one
    cases h
    obtain ⟨rfl, hfree⟩ := hkn
    have hcl := hfree row (hat ▸ hfind) (by rw [hrun.1]; decide)
    obtain ⟨hsc, hip⟩ := Prod.mk.inj hat
    have hgr := hsil _ (mem_singleton.mpr rfl)
    simp [Event.concerns, hsc, hip, hcl] at hgr
  | renew hat =>
    cases h
    cases hkn
    obtain ⟨own, hown, hcl, -⟩ := htou
    obtain rfl := some_inj.mp ((hat ▸ hfind).symm.trans hown)
    obtain ⟨hsc, hip⟩ := Prod.mk.inj hat
    have hgr := hsil _ (mem_singleton.mpr rfl)
    simp [Event.concerns, hsc, hip, hcl] at hgr
  | confirm => exact absurd hkn id
  | mark hat => exact htou row (hat ▸ hfind) hrun
  | release hown =>
    cases h
    obtain ⟨hsc, hcl, -⟩ := hown
    have hip := htou row hrow hsc hcl hrun
    have hrel := hsil _ (mem_singleton.mpr rfl)
    simp [Event.concerns, hsc, hcl, hip] at hrel
  | @decline scopeId client ip _ hheld =>
    cases h
    have hany : s.leases.rows.any (heldBy scopeId ip client) = true :=
      List.any_eq_true.mpr ⟨row, hrow, hheld⟩
    rw [if_pos hany] at hsil
    obtain ⟨hat, hcl, -⟩ := of_decide_eq_true hheld
    obtain ⟨hsc, hip⟩ := Prod.mk.inj hat
    have hdec := hsil _ (mem_singleton.mpr rfl)
    simp [Event.concerns, hsc, hip, hcl] at hdec
  | expire hlap => exact absurd (of_decide_eq_true hlap).2 (not_lt.mpr hrun.2)
  | purge hpast | free hpast =>
    exact absurd ((of_decide_eq_true hpast).1.symm.trans hrun.1) (by decide)

omit [DecidableEq ν] in
theorem Backed.write (hs : Backed s)
    (h : Writes (daemon srv sweep) s.now s.leases (s.phase i) T q events)
    (hkn : Knows s.leases (s.phase i)) (htou : TouchesOwn s (s.phase i)) :
    Backed (s.commit i T q events) := by
  intro scopeId ip client expires hlast hnow
  rcases lastGrant_commit hlast with ⟨time, hgr⟩ | ⟨hbef, hsil⟩
  · exact find_of_granted h hkn htou hgr
  · obtain ⟨row, hrow, rfl, hact, rfl⟩ := hs _ _ _ _ hbef hnow
    obtain ⟨hmem, hkey⟩ := s.leases.find_eq_some_iff.mp hrow
    cases hkey
    refine ⟨row, h.find_of_not_touches hrow ?_, rfl, hact, rfl⟩
    exact not_touches_of_running h hkn htou hmem ⟨hact, hnow⟩ hsil

/-! ### Runs -/

structure Inv (srv : ν → Server) (sweep : Sweep) (s : State ι ν Scope UInt32 Mac) : Prop where
  reservations : s.config.reservations = []
  snapshot : ∀ n, (s.snapshot n).reservations = []
  locks : LocksApart (daemon srv sweep) s
  knows : ∀ i, Knows s.leases (s.phase i)
  backed : Backed s

omit [DecidableEq ι] [DecidableEq ν] in
theorem inv_fresh (now : ℤ) (scopes : List Scope) :
    Inv srv sweep (State.fresh now scopes : State ι ν Scope UInt32 Mac) where
  reservations := rfl
  snapshot _ := rfl
  locks := locksApart_fresh now scopes
  knows _ := trivial
  backed _ _ _ _ h := by
    obtain ⟨time, htime⟩ := h
    simp [State.fresh] at htime

theorem loadSnapshot_nil {config : Config Scope} (h : family.loadSnapshot config = some snapshot)
    (hnone : config.reservations = []) :
    snapshot.reservations = [] := by
  simp only [Family.loadSnapshot, hnone, filter_nil, mapM_nil, Option.pure_def,
    map_some, some_inj] at h
  rw [← h]

omit [DecidableEq ν] in
theorem Inv.set (hs : Inv srv sweep s) (hloc : LocksApart (daemon srv sweep) (s.set i p))
    (hp : Knows s.leases p) :
    Inv srv sweep (s.set i p) where
  reservations := hs.reservations
  snapshot := hs.snapshot
  locks := hloc
  knows := forall_phase_set hp fun j _ => hs.knows j
  backed := hs.backed

theorem Inv.step (hs : Inv srv sweep s) (hnone : NoReservations l) (htou : TouchesOwnRows s l)
    (hstep : Step (daemon srv sweep) s l t) : Inv srv sweep t := by
  have hloc := hs.locks.step hstep
  cases hstep with
  | tick d =>
    refine ⟨hs.reservations, hs.snapshot, hloc, hs.knows, ?_⟩
    intro scopeId ip client expires hlast hnow
    have hnow : s.now + d ≤ expires := hnow
    exact hs.backed scopeId ip client expires hlast (by omega)
  | edit => exact ⟨hnone, hs.snapshot, hloc, hs.knows, hs.backed⟩
  | @refresh n snapshot h =>
    refine ⟨hs.reservations, ?_, hloc, hs.knows, hs.backed⟩
    refine (Function.forall_update_iff s.snapshot (p := fun _ S => S.reservations = [])).mpr ?_
    exact ⟨loadSnapshot_nil h hs.reservations, fun m _ => hs.snapshot m⟩
  | receive _ _ htask => exact hs.set hloc (knows_handle _ (hs.snapshot _) htask)
  | sweep => exact hs.set hloc trivial
  | @read i q h _ => exact hs.set hloc (knows_reads (hs.knows i) h)
  | @write i T q events h =>
    refine ⟨hs.reservations, hs.snapshot, hloc, ?_, hs.backed.write h (hs.knows i) htou⟩
    refine forall_phase_set (s := s) (P := fun _ => Knows T) (knows_of_rests h.rests) fun j hj => ?_
    exact knows_writes h (hs.knows i) (hs.knows j) fun l hi hj' => hj (hs.locks j i l hj' hi)
  | @fail i q h => exact hs.set hloc (knows_fails (hs.knows i) h)

/-- **An address has one holder.** -/
theorem address_exclusive {now : ℤ} {scopes : List Scope} {scopeId : Str} {ip : UInt32} {a b : Mac}
    (hrun : RunWhile (daemon srv sweep) (fun s l => NoReservations l ∧ TouchesOwnRows s l)
      (State.fresh now scopes : State ι ν Scope UInt32 Mac) s)
    (ha : s.Holds scopeId ip a) (hb : s.Holds scopeId ip b) : a = b := by
  have hinv : Inv srv sweep s :=
    hrun.induct (inv_fresh now scopes) fun hs hok => hs.step hok.1 hok.2
  obtain ⟨expires, hlast, hnow⟩ := ha
  obtain ⟨row, hrow, hcl, -⟩ := hinv.backed _ _ _ _ hlast hnow
  obtain ⟨expires', hlast', hnow'⟩ := hb
  obtain ⟨row', hrow', hcl', -⟩ := hinv.backed _ _ _ _ hlast' hnow'
  rw [← hcl, ← hcl', some_inj.mp (hrow.symm.trans hrow')]

def sampleIp : UInt32 := 0x0A000001

/-- One client gets the address, another one asks for it in vain and gets the next. -/
theorem address_exclusive_first :
    ∃ s : State Bool Unit Scope UInt32 Mac,
      RunWhile sampleDaemon (fun s l => NoReservations l ∧ TouchesOwnRows s l)
        (State.fresh 0 [sampleScope]) s ∧
      s.Holds "lan" sampleIp (sampleMac 1) ∧ s.Holds "lan" 0x0A000002 (sampleMac 2) ∧
      ∀ b, s.Holds "lan" sampleIp b → sampleMac 1 = b := by
  -- the only rows that are written are new ones
  have hok : ∀ (s : State Bool Unit Scope UInt32 Mac) (l : Label Bool Unit Scope UInt32 Mac),
      (match l with
        | .edit _ => false
        | .write i => (s.phase i matches .inserting ..)
        | _ => true) = true → NoReservations l ∧ TouchesOwnRows s l := by
    intro s l hl
    cases l with
    | edit => simp at hl
    | write i =>
      refine ⟨trivial, ?_⟩
      rw [TouchesOwnRows]
      cases hph : s.phase i with
      | inserting => trivial
      | _ => simp [hph] at hl
    | _ => exact ⟨trivial, trivial⟩
  obtain ⟨s, hrun, hnow, hfst, hsec⟩ := exists_replay (D := sampleDaemon)
    (s := State.fresh 0 [sampleScope])
    (P := fun s => s.now ≤ 3600000000 ∧
      s.log.find? (Event.concerns "lan" sampleIp (sampleMac 1)) =
        some (.grant "lan" sampleIp (sampleMac 1) 0 3600000000) ∧
      s.log = .grant "lan" 0x0A000002 (sampleMac 2) 0 3600000000 :: s.log.tail)
    hok (sampleClaim true 1 sampleIp ++
      [.receive false () 0 (sampleRequest 2 sampleIp) 0, .read false, .read false, .read false] ++
      sampleClaim false 2 0x0A000002)
    (by decide +kernel)
  have hhol : s.Holds "lan" sampleIp (sampleMac 1) := ⟨_, ⟨_, hfst⟩, hnow⟩
  exact ⟨s, hrun, hhol, holds_of_log_eq hsec hnow, fun b hb => address_exclusive hrun hhol hb⟩

/-- A client is given an address while another DISCOVER is probing it; its answer
to the probe costs it the lease, and the other client gets the address. -/
theorem address_shared :
    ∃ s : State Bool Unit Scope UInt32 Mac,
      RunWhile sampleDaemon (fun _ l => NoReservations l)
        (State.fresh 0 [sampleScope]) s ∧
      s.Holds "lan" sampleIp (sampleMac 1) ∧ s.Holds "lan" sampleIp (sampleMac 2) ∧
      sampleMac 1 ≠ sampleMac 2 := by
  -- one client is about to be offered the address when another one gets it; its answer to the
  -- probe turns its lease into a declined one
  obtain ⟨s, hrun, hnow, hfst, hsec⟩ := exists_replay (D := sampleDaemon)
    (s := State.fresh 0 [sampleScope]) (C := fun _ l => NoReservations l)
    (K := fun _ l => !(l matches .edit _))
    (P := fun s => s.now ≤ 3600000000 ∧
      s.log.find? (Event.concerns "lan" sampleIp (sampleMac 1)) =
        some (.grant "lan" sampleIp (sampleMac 1) 0 3600000000) ∧
      s.log = .grant "lan" sampleIp (sampleMac 2) 0 3600000000 :: s.log.tail)
    (fun _ l hl => by cases l with
      | edit => simp at hl
      | _ => trivial)
    ([.receive true () 0 (sampleDiscover 2) 0, .read true, .read true] ++
      sampleClaim false 1 sampleIp ++ [.read true 0 true, .write true] ++
      sampleClaim false 2 sampleIp)
    (by decide +kernel)
  exact ⟨s, hrun, ⟨_, ⟨_, hfst⟩, hnow⟩, holds_of_log_eq hsec hnow, by decide +kernel⟩

end Dhcp4
