/-
Which addresses DHCPv4 acknowledges.

A REQUEST leads to an ACK on four ways: the client's reservation, a claim of the
address it names, the renewal of a row it has, and a new address of the pool.  The
first is a reservation of the client, the second was checked against the range
and the reservations, the last was searched for there.  The renewal checks
nothing: the row may be older than the range and the reservations.

* `Fit` — what a handler has already checked, against the configuration;
* `Fit.read`, `fit_handle`, `Fit.grant` — the checks on the four ways;
* `Allowed.step` — packets in progress stay fit while edits wait for them.
-/
import MantisDns.LeaseReservations

open Text Table Dns Dhcp List Option

namespace Dhcp4

variable {ι ν : Type}
variable {p q : Phase Scope UInt32 Mac} {scope : Scope} {ip : UInt32} {mac : Mac}
  {T : Leases UInt32 Mac} {now : ℤ}

/-! ### Admissible addresses -/

/-- An enabled reservation of the client for this address. -/
def OwnReservation (config : Config Scope) (scopeId : Str) (ip : UInt32) (mac : Mac) : Prop :=
  ∃ r ∈ config.reservations, family.Reserves r (scopeId, ip) ∧ owns r.client mac = true

/-- In the range of the scope, and not reserved for another client. -/
def InRange (config : Config Scope) (scopeId : Str) (ip : UInt32) (mac : Mac) : Prop :=
  (∃ scope ∈ config.scopes, scope.id = scopeId ∧ scope.inPool ip = true) ∧
    ∀ r ∈ config.reservations, family.Reserves r (scopeId, ip) → owns r.client mac = true

/-- The client's own reservation, or an address of the range that nobody else has
reserved. -/
def Admissible (config : Config Scope) (scopeId : Str) (ip : UInt32) (mac : Mac) : Prop :=
  OwnReservation config scopeId ip mac ∨ InRange config scopeId ip mac

/-! ### What was checked -/

/-- What a handler has checked, by where it is.  A DISCOVER is answered with an
offer, whatever becomes of it. -/
def Fit (config : Config Scope) : Phase Scope UInt32 Mac → Prop
  | .task (.reply _ answer _) => answer = .advertise
  | .task (.lookup _ mode) => ∃ probe attempts, mode = .discover probe attempts
  | .task (.transact job (.allocate _)) => job.scope ∈ config.scopes
  | .task (.transact job (.claim _ ip)) => job.scope ∈ config.scopes ∧ job.scope.inPool ip = true
  | .task (.confirm job _ ip) => OwnReservation config job.scope.id ip job.client
  | .waiting job (.allocate _) _ => job.scope ∈ config.scopes
  | .waiting job (.claim _ ip) _ => job.scope ∈ config.scopes ∧ job.scope.inPool ip = true
  | .selecting job _ _ _ => job.scope ∈ config.scopes
  | .renewing job _ _ _ ip => Admissible config job.scope.id ip job.client
  | .scanning job _ _ _ _ => job.scope ∈ config.scopes
  | .checking job _ _ ip => job.scope ∈ config.scopes ∧ job.scope.inPool ip = true
  | .guarding job _ _ ip => job.scope ∈ config.scopes ∧ job.scope.inPool ip = true
  | .inserting job _ _ _ ip => Admissible config job.scope.id ip job.client
  | _ => True

/-- Serving no packet: nothing to do, or sweeping. -/
def Unengaged : Phase Scope UInt32 Mac → Prop
  | .idle => True
  | .expiring _ => True
  | .purging _ => True
  | .freeing _ => True
  | _ => False

variable {config : Config Scope}

theorem fit_of_unengaged (h : Unengaged p) :
    Fit config p := by
  cases p <;> trivial

theorem fit_of_rests (h : p.Rests) :
    Fit config p := by
  cases h <;> trivial

theorem admissible_of_unreserved (hsc : scope ∈ config.scopes) (hpool : scope.inPool ip = true)
    (h : (∀ r ∈ config.reservations, ¬family.ReservedAt scope.id ip r) ∨
      ∃ r ∈ config.reservations, family.ReservedAt scope.id ip r ∧ owns r.client mac = true) :
    Admissible config scope.id ip mac := by
  rcases h with hnone | ⟨r, hr, ⟨hena, hid, htext⟩, howns⟩
  · refine .inr ⟨⟨scope, hsc, rfl, hpool⟩, fun r hr hres => ?_⟩
    -- an address has one text
    obtain ⟨hena, hid, hpar⟩ := hres
    exact absurd ⟨hena, hid, eq_ipv4Text_of_parseIpv4 hpar⟩ (hnone r hr)
  · have hpar : parseIpv4 r.ipAddress = some ip := by
      rw [htext]
      exact parseIpv4_ipv4Text ip
    exact .inl ⟨r, hr, ⟨hena, hid, hpar⟩, howns⟩

theorem admissible_of_firstFree {excluded : List UInt32} (hsc : scope ∈ config.scopes)
    (h : firstFree scope T config.reservations excluded = some ip) :
    Admissible config scope.id ip mac := by
  obtain ⟨hpool, -, hrese⟩ := firstFree_spec h
  refine .inr ⟨⟨scope, hsc, rfl, hpool⟩, fun r hr hres => ?_⟩
  exact absurd hres.2.2 (hrese r hr hres.1 hres.2.1)

/-- **A query keeps what was checked, or checks more**, except that of a renewal:
the rows it may return have to be admissible. -/
theorem Fit.read (h : Fit config p) (hread : Reads family now T config.reservations p q)
    (hren : ∀ job answer began expires, p = .selecting job answer began expires →
      ∀ row ∈ T.rows, family.OwnActive job row →
        Admissible config job.scope.id row.ip job.client) : Fit config q := by
  -- only `scanned`, `selected` and `unreserved` settle on an address
  cases hread with
  | found =>
    obtain ⟨probe, attempts, rfl⟩ := h
    rfl
  | notFound =>
    obtain ⟨probe, attempts, rfl⟩ := h
    trivial
  | @peek _ probe =>
    cases probe
    · rfl
    · trivial
  | peekNone | answered | held | reserved => trivial
  | silent => rfl
  | @start job tx => cases tx <;> exact h
  | lockAllocate | lockClaim | unselected | unheld => exact h
  | selected hrow hown => exact hren _ _ _ _ rfl _ hrow hown
  | scanned hscan => exact admissible_of_firstFree h hscan
  | collided =>
    rw [nextScan]
    split
    · trivial
    · exact h
  | undelegated hpd => simp [family] at hpd
  | unreserved hfree => exact admissible_of_unreserved h.1 h.2 hfree

theorem Fit.fail (h : Fit config p) (hfail : Fails p q) : Fit config q := by
  cases hfail with
  | abort => trivial
  | lookup =>
    obtain ⟨probe, attempts, rfl⟩ := h
    trivial
  | mark => exact fit_of_rests nextPeek_rests

/-- **Every ACK of a handler is of an admissible address.** -/
theorem Fit.grant {srv : ν → Server} {sweep : Sweep} {T' : Leases UInt32 Mac}
    {events : List (Event UInt32 Mac)} (h : Fit config p)
    (hwr : Writes (daemon srv sweep) now T p T' q events) {scopeId : Str} {time expires : ℤ}
    (hgr : Event.grant scopeId ip mac time expires ∈ events) :
    Admissible config scopeId ip mac := by
  have heve : ∀ {answer : Answer} {id : Str} {ip' : UInt32} {mac' : Mac} {a b : ℤ},
      Event.grant scopeId ip mac time expires ∈ answer.events id ip' mac' a b →
        answer = .grant ∧ scopeId = id ∧ ip = ip' ∧ mac = mac' := by
    intro answer id ip' mac' a b hmem
    cases answer <;> simp_all [Answer.events]
  cases hwr with
  | reply =>
    obtain ⟨rfl, -⟩ := heve hgr
    simp [Fit] at h
  | insert | renew =>
    obtain ⟨-, rfl, rfl, rfl⟩ := heve hgr
    exact h
  | confirm =>
    obtain ⟨rfl, rfl, rfl, -, -⟩ := by simpa using hgr
    exact .inl h
  | mark | release | expire | purge | free => simp at hgr
  | decline => split at hgr <;> simp at hgr

/-! ### Packets -/

/-- **A packet that is taken up with a current snapshot starts fit.** -/
theorem fit_handle {snapshot : Snapshot Scope UInt32} {srv : Server} {msg : Message}
    {task : Task Scope UInt32 Mac} (hload : family.loadSnapshot config = some snapshot)
    (hsc : scope ∈ snapshot.scopes) (htask : task ∈ handle srv snapshot scope msg now) :
    Fit config (.task task) := by
  have hcon : scope ∈ config.scopes := by
    obtain ⟨_, -, rfl⟩ := map_eq_some_iff.mp hload
    exact hsc
  -- a REQUEST is checked against the reservation, or else against the pool
  have hreq : ∀ want, task ∈ handleRequest scope (macFromChaddr msg.chaddr) msg.hostname want
      (family.reservationFor snapshot scope.id (macFromChaddr msg.chaddr)) now →
      Fit config (.task task) := by
    intro want hmem
    cases hres : family.reservationFor snapshot scope.id (macFromChaddr msg.chaddr) with
    | some =>
      rw [hres, handleRequest] at hmem
      split at hmem
      · simp at hmem
      · obtain rfl := mem_singleton.mp hmem
        exact Family.row_of_reservationFor hload hres
    | none =>
      rw [hres] at hmem
      cases want with
      | none =>
        obtain rfl := mem_singleton.mp hmem
        exact hcon
      | some =>
        simp only [handleRequest] at hmem
        split at hmem
        · rename_i hpool
          obtain rfl := mem_singleton.mp hmem
          exact ⟨hcon, hpool⟩
        · simp at hmem
  rw [handle] at htask
  cases htype : msg.messageType with
  | discover =>
    simp only [htype, mem_singleton] at htask
    subst htask
    cases family.reservationFor snapshot scope.id (macFromChaddr msg.chaddr) with
    | some => rfl
    | none => exact ⟨_, _, rfl⟩
  | request =>
    simp only [htype] at htask
    split at htask
    · simp at htask
    · exact hreq _ htask
  | release =>
    simp only [htype] at htask
    split at htask
    · simp at htask
    · obtain rfl := mem_singleton.mp htask
      trivial
  | decline =>
    simp only [htype, mem_toList, map_eq_some_iff] at htask
    obtain ⟨ip, -, rfl⟩ := htask
    trivial
  | inform | other => simp [htype] at htask

/-! ### Runs -/

section Runs

variable [DecidableEq ι] [DecidableEq ν] {srv : ν → Server} {sweep : Sweep}
  {s t : State ι ν Scope UInt32 Mac} {l : Label ι ν Scope UInt32 Mac}

/-- Edits come between packets, and a packet is taken up with the configuration of
that moment. -/
def Settled (srv : ν → Server) (s : State ι ν Scope UInt32 Mac) :
    Label ι ν Scope UInt32 Mac → Prop
  | .edit _ => ∀ i, Unengaged (s.phase i)
  | .receive _ task => ∃ n snapshot scope msg, family.loadSnapshot s.config = some snapshot ∧
      scope ∈ snapshot.scopes ∧ task ∈ handle (srv n) snapshot scope msg s.now
  | _ => True

/-- Moreover a renewal only finds rows that the client could have today. -/
def RenewsAdmissible (srv : ν → Server) (s : State ι ν Scope UInt32 Mac)
    (l : Label ι ν Scope UInt32 Mac) : Prop :=
  Settled srv s l ∧ ∀ i job answer began expires, l = .read i →
    s.phase i = .selecting job answer began expires →
      ∀ row ∈ s.leases.rows, family.OwnActive job row →
        Admissible s.config job.scope.id row.ip job.client

/-- Every handler is fit, for the configuration of the moment. -/
def AllFit (s : State ι ν Scope UInt32 Mac) : Prop := ∀ i, Fit s.config (s.phase i)

theorem AllFit.step (h : AllFit s) (hok : RenewsAdmissible srv s l)
    (hstep : Step (daemon srv sweep) s l t) : AllFit t := by
  cases hstep with
  | tick | refresh => exact h
  | edit => exact fun i => fit_of_unengaged (hok.1 i)
  | receive =>
    obtain ⟨n, snapshot, scope, msg, hload, hsc, htask⟩ := hok.1
    exact forall_phase_set (fit_handle hload hsc htask) fun j _ => h j
  | sweep => exact forall_phase_set trivial fun j _ => h j
  | read hread =>
    refine forall_phase_set ((h _).read hread fun job answer began expires hph => ?_)
      fun j _ => h j
    exact hok.2 _ job answer began expires rfl hph
  | write hwr => exact forall_phase_set (fit_of_rests hwr.rests) fun j _ => h j
  | fail hfail => exact forall_phase_set ((h _).fail hfail) fun j _ => h j

/-- **Every ACK is of an admissible address**, in every run in which edits come
between packets, packets are taken up with the current configuration, and renewals
find admissible rows. -/
theorem acks_admissible {now : ℤ} {scopes : List Scope} {events : List (Event UInt32 Mac)}
    {scopeId : Str} {ip : UInt32} {mac : Mac} {time expires : ℤ}
    (hrun : RunWhile (daemon srv sweep) (RenewsAdmissible srv) (State.fresh now scopes) s)
    (hstep : Step (daemon srv sweep) s l t) (hlog : t.log = events ++ s.log)
    (hgrant : Event.grant scopeId ip mac time expires ∈ events) :
    Admissible s.config scopeId ip mac := by
  have hfit : AllFit s := hrun.induct (fun _ => trivial) fun h hok hstep => h.step hok hstep
  -- only a statement adds to the log
  have hnone : ∀ {events : List (Event UInt32 Mac)}, s.log = events ++ s.log → events = [] := by
    intro events heq
    have hlen := congrArg List.length heq
    rw [length_append] at hlen
    exact eq_nil_of_length_eq_zero (by omega)
  cases hstep with
  | write hwr =>
    obtain rfl := append_cancel_right hlog
    exact (hfit _).grant hwr hgrant
  | _ =>
    obtain rfl := hnone hlog
    simp at hgrant

end Runs

/-! ### Examples -/

section Examples

/-- Packets of the sample network that are taken up with the configuration of the
moment. -/
def sampleSettled (s : State Unit Unit Scope UInt32 Mac) : Label Unit Unit Scope UInt32 Mac → Bool
  | .edit _ => (s.phase ()).isIdle
  | .receive _ task => (family.loadSnapshot s.config).any fun snapshot =>
    snapshot.scopes.any fun scope =>
      [sampleRequest 1 0x0A000001, ⟨.request, List.replicate 6 1, 0, none, none, none⟩].any
        fun msg => task ∈ handle sampleServer snapshot scope msg s.now
  | _ => true

theorem settled_of_sampleSettled {s : State Unit Unit Scope UInt32 Mac}
    {l : Label Unit Unit Scope UInt32 Mac} (h : sampleSettled s l = true) :
    Settled (fun _ : Unit => sampleServer) s l := by
  cases l with
  | edit => exact fun _ => Phase.eq_idle_of_isIdle h ▸ trivial
  | receive _ =>
    obtain ⟨snapshot, hload, h⟩ := (Option.any_eq_true _ _).mp h
    obtain ⟨scope, hsc, h⟩ := List.any_eq_true.mp h
    obtain ⟨msg, -, htask⟩ := List.any_eq_true.mp h
    exact ⟨(), snapshot, scope, msg, hload, hsc, of_decide_eq_true htask⟩
  | _ => trivial

/-- The first ACK of the sample network. -/
theorem first_ack_admissible :
    Admissible ⟨[sampleScope], []⟩ "lan" 0x0A000001 (sampleMac 1) := by
  obtain ⟨s, hrun, hscs, hres, hwr⟩ := exists_replay (D := sampleDaemon)
    (s := State.fresh 0 [sampleScope]) (C := RenewsAdmissible fun _ => sampleServer)
    (P := fun s => s.config.scopes = [sampleScope] ∧ s.config.reservations = [] ∧
      ((s.advance sampleDaemon (.write ())).map Prod.snd).any (fun t => t.log =
        [.grant "lan" 0x0A000001 (sampleMac 1) 0 3600000000] ++ s.log) = true)
    (K := fun s l => sampleSettled s l && s.leases.rows.isEmpty)
    (fun s l h => by
      obtain ⟨hset, hrows⟩ := Bool.and_eq_true_iff.mp h
      refine ⟨settled_of_sampleSettled hset, fun _ _ _ _ _ _ _ row hrow => ?_⟩
      rw [List.isEmpty_iff.mp hrows] at hrow
      exact absurd hrow not_mem_nil)
    (sampleClaim () 1 0x0A000001).dropLast (by decide +kernel)
  obtain ⟨t, hstep, hlog⟩ := State.exists_write hwr
  have hadm := acks_admissible hrun hstep hlog (mem_singleton.mpr rfl)
  have hcon : s.config = ⟨[sampleScope], []⟩ := by rw [← hscs, ← hres]
  rwa [hcon] at hadm

/-- A client has the first address, which is then reserved for another one.  A
REQUEST of the client that names no address is acknowledged with it. -/
theorem ack_of_reserved_address :
    ∃ s t : State Unit Unit Scope UInt32 Mac,
      RunWhile sampleDaemon (Settled fun _ => sampleServer) (State.fresh 0 [sampleScope]) s ∧
      ∃ events time expires, Step sampleDaemon s (.write ()) t ∧ t.log = events ++ s.log ∧
        Event.grant "lan" 0x0A000001 (sampleMac 1) time expires ∈ events ∧
        ¬Admissible s.config "lan" 0x0A000001 (sampleMac 1) := by
  obtain ⟨s, hrun, hres, hwr⟩ := exists_replay (D := sampleDaemon)
    (s := State.fresh 0 [sampleScope]) (C := Settled fun _ => sampleServer)
    (P := fun s => s.config.reservations = [sampleReservation] ∧
      ((s.advance sampleDaemon (.write ())).map Prod.snd).any (fun t => t.log =
        [.grant "lan" 0x0A000001 (sampleMac 1) 0 3600000000] ++ s.log) = true)
    (K := sampleSettled) (fun _ _ => settled_of_sampleSettled)
    (sampleClaim () 1 0x0A000001 ++ [.edit ⟨[sampleScope], [sampleReservation]⟩, .refresh (),
      .receive () () 0 ⟨.request, List.replicate 6 1, 0, none, none, none⟩ 0, .read (), .read (),
      .read ()])
    (by decide +kernel)
  obtain ⟨t, hstep, hlog⟩ := State.exists_write hwr
  refine ⟨s, t, hrun, _, _, _, hstep, hlog, mem_singleton.mpr rfl, ?_⟩
  have howns : owns sampleReservation.client (sampleMac 1) = false := by decide +kernel
  -- the only reservation is for this address and not for this client
  rintro (⟨r, hr, -, hr'⟩ | ⟨-, hfree⟩)
  · rw [hres, mem_singleton] at hr
    rw [hr, howns] at hr'
    simp at hr'
  · rw [hres] at hfree
    have hr' := hfree sampleReservation (mem_singleton.mpr rfl) ⟨rfl, rfl, rfl⟩
    exact absurd (howns.symm.trans hr') (by simp)

end Examples

end Dhcp4
