/-
Confirmed reservations and the leases of others.

A REQUEST of a client with a reservation writes the row of the reserved address
without looking at it.  Whether that takes somebody's lease away was decided
earlier, when the reservation was entered.

* `confirm_spares` — a confirmation never overwrites a lease in use, or an
  address in probation, of another client, in every run in which reservations
  are entered for addresses that nobody else has and are still there when they
  are confirmed;
* `confirm_steals` — an address is reserved while a client has it, and the owner
  of the reservation gets it.
-/
import MantisDns.DeclineProbation

open Text Table Dhcp List Option

namespace Dhcp

variable {ι ν σ κ χ μ : Type} [DecidableEq κ] [DecidableEq χ]

/-! ### Reserved addresses -/

/-- An enabled reservation, of this address. -/
def Family.Reserves (F : Family σ κ χ) (r : StaticLease) (key : Str × κ) : Prop :=
  r.enabled = true ∧ r.scopeId = key.1 ∧ F.parse r.ipAddress = some key.2

omit [DecidableEq χ] in
theorem Family.row_of_reservationFor {F : Family σ κ χ} {config : Config σ}
    {snapshot : Snapshot σ κ} {scopeId : Str} {client : χ} {res : Reservation κ}
    (hload : F.loadSnapshot config = some snapshot)
    (h : F.reservationFor snapshot scopeId client = some res) :
    ∃ r ∈ config.reservations, F.Reserves r (scopeId, res.ip) ∧ F.owns r.client client = true := by
  obtain ⟨loaded, hrows, rfl⟩ := map_eq_some_iff.mp hload
  have hmem := mem_reverse.mp (mem_of_find?_eq_some h)
  obtain ⟨r, hr, hread⟩ := exists_of_mem_mapM hrows hmem
  obtain ⟨ip, hip, rfl⟩ := map_eq_some_iff.mp hread
  obtain ⟨hr, hena⟩ := mem_filter.mp hr
  have hfnd := find?_some h
  obtain ⟨hsc, howns⟩ := of_decide_eq_true hfnd
  exact ⟨r, hr, ⟨hena, hsc, hip⟩, howns⟩

/-- The address that a handler probes, or is about to mark. -/
def Family.probes (F : Family σ κ χ) : Phase σ κ χ → Option (Str × κ)
  | .probing job _ _ ip => some (F.scopeId job.scope, ip)
  | .marking job _ _ ip => some (F.scopeId job.scope, ip)
  | _ => none

/-- The address that a handler is about to give away under the lock, and to whom. -/
def Family.gives (F : Family σ κ χ) : Phase σ κ χ → Option ((Str × κ) × χ)
  | .renewing job _ _ _ ip => some ((F.scopeId job.scope, ip), job.client)
  | .inserting job _ _ _ ip => some ((F.scopeId job.scope, ip), job.client)
  | _ => none

/-- Another client relies on the row: it is in use, or it keeps an address in
probation. -/
def Daemon.Live (D : Daemon ν σ κ χ μ) (s : State ι ν σ κ χ) (row : Lease κ χ) : Prop :=
  row.Running s.now ∨ row.state = .declined ∧ D.InProbation s row.key

/-- Nobody else has the reserved address, or is about to get it or to mark it. -/
structure Secured (D : Daemon ν σ κ χ μ) (s : State ι ν σ κ χ) (r : StaticLease) (key : Str × κ) :
    Prop where
  row : ∀ row, s.leases.find key = some row → D.owns r.client row.client = false →
    row.state ≠ .active ∧ ¬(row.state = .declined ∧ D.InProbation s key)
  probes : ∀ i, D.probes (s.phase i) ≠ some key
  gives : ∀ i c, D.gives (s.phase i) = some (key, c) → D.owns r.client c = true

/-- Addresses are entered as they are written out, and each for one client. -/
structure Proper (F : Family σ κ χ) (reservations : List StaticLease) : Prop where
  text : ∀ r ∈ reservations, ∀ key, F.Reserves r key → r.ipAddress = F.text key.2
  owners : ∀ r ∈ reservations, ∀ r' ∈ reservations, ∀ key, F.Reserves r key → F.Reserves r' key →
    ∀ c, F.owns r.client c = true → F.owns r'.client c = true

/-- Reservations are proper, new ones are of addresses that nobody else has, and
one that is confirmed is still there. -/
def ReservesFree (D : Daemon ν σ κ χ μ) (s : State ι ν σ κ χ) : Label ι ν σ κ χ → Prop
  | .edit config =>
    Proper D.toFamily config.reservations ∧
      ∀ r ∈ config.reservations, r ∉ s.config.reservations → ∀ key, D.Reserves r key →
        Secured D s r key
  | .write i =>
    ∀ job expires ip, s.phase i = .task (.confirm job expires ip) →
      ∃ r ∈ s.config.reservations, D.Reserves r (D.scopeId job.scope, ip) ∧
        D.owns r.client job.client = true
  | _ => True

/-! ### One step -/

structure ReservedInv (D : Daemon ν σ κ χ μ) (s : State ι ν σ κ χ) : Prop where
  proper : Proper D.toFamily s.config.reservations
  secured : ∀ r ∈ s.config.reservations, ∀ key, D.Reserves r key → Secured D s r key

section Phases

omit [DecidableEq χ]

variable {F : Family σ κ χ} {D : Daemon ν σ κ χ μ} {s : State ι ν σ κ χ} {p q : Phase σ κ χ}
  {r : StaticLease} {key : Str × κ}

theorem probes_of_rests (h : p.Rests) : F.probes p = none := by
  cases h <;> rfl

theorem gives_of_rests (h : p.Rests) : F.gives p = none := by
  cases h <;> rfl

theorem Fails.probes_gives (h : Fails p q) : F.probes q = none ∧ F.gives q = none := by
  cases h with
  | abort => exact ⟨rfl, rfl⟩
  | @lookup job mode => cases mode <;> exact ⟨rfl, rfl⟩
  | mark => exact ⟨probes_of_rests nextPeek_rests, gives_of_rests nextPeek_rests⟩

theorem ReservedInv.not_scanned {job : Job σ χ} {excluded : List κ} {draw : ℕ} {ip : κ}
    (hs : ReservedInv D s) (hr : r ∈ s.config.reservations)
    (hat : D.Reserves r (D.scopeId job.scope, ip)) :
    D.scan job.scope s.leases s.config.reservations excluded draw ≠ some ip := by
  intro hscan
  obtain ⟨-, -, hfree⟩ := D.scan_free hscan
  exact hfree r hr hat.1 hat.2.1 ⟨hs.proper.text r hr _ hat, hat.2.2⟩

theorem ReservedInv.probes_read {i : ι} (hs : ReservedInv D s) (hr : r ∈ s.config.reservations)
    (hat : D.Reserves r key)
    (h : Reads D.toFamily s.now s.leases s.config.reservations (s.phase i) q) :
    D.probes q ≠ some key := by
  have hi := (hs.secured r hr key hat).probes i
  generalize s.phase i = p at h hi
  cases h with
  | @peek job probe excluded left draw ip hscan =>
    split
    · rintro ⟨⟩
      exact hs.not_scanned hr hat hscan
    · exact (some_ne_none _).symm
  | answered => exact hi
  | @notFound job mode => cases mode <;> exact (some_ne_none _).symm
  | collided =>
    rw [nextScan]
    split <;> exact (some_ne_none _).symm
  | _ => exact (some_ne_none _).symm

theorem ReservedInv.gives_read {i : ι} {c : χ} (hs : ReservedInv D s)
    (hr : r ∈ s.config.reservations) (hat : D.Reserves r key)
    (h : Reads D.toFamily s.now s.leases s.config.reservations (s.phase i) q)
    (hq : D.gives q = some (key, c)) : D.owns r.client c = true := by
  have hsec := hs.secured r hr key hat
  generalize s.phase i = p at h
  cases h with
  | @selected job answer began expires row hrow hown =>
    cases hq
    have hfind : s.leases.find (D.scopeId job.scope, row.ip) = some row :=
      s.leases.find_eq_some_iff.mpr ⟨hrow, Prod.ext hown.1 rfl⟩
    -- the client has the lease, so the reservation is its own
    by_contra hoth
    exact (hsec.row row hfind (hown.2.1 ▸ Bool.eq_false_iff.mpr hoth)).1 hown.2.2.2
  | scanned hscan =>
    cases hq
    exact absurd hscan (hs.not_scanned hr hat)
  | undelegated hpd =>
    cases hq
    exact absurd (hpd.symm.trans (D.leaseType_of_parse hat.2.2)) (by decide)
  | unreserved hfree =>
    cases hq
    have htext := hs.proper.text r hr _ hat
    rcases hfree with hnone | ⟨r', hr', hat', howns⟩
    · exact absurd ⟨hat.1, hat.2.1, htext⟩ (hnone r hr)
    · have hpar : r'.ipAddress = r.ipAddress := hat'.2.2.trans htext.symm
      exact hs.proper.owners r' hr' r hr _ ⟨hat'.1, hat'.2.1, hpar ▸ hat.2.2⟩ hat _ howns
  | peek => split at hq <;> cases hq
  | @notFound job mode => cases mode <;> cases hq
  | collided =>
    rw [nextScan] at hq
    split at hq <;> cases hq
  | _ => cases hq

end Phases

variable [DecidableEq ι] {D : Daemon ν σ κ χ μ} {s t : State ι ν σ κ χ}
  {l : Label ι ν σ κ χ} {r : StaticLease} {key : Str × κ}

omit [DecidableEq χ] in
theorem Secured.set {i : ι} {p : Phase σ κ χ} (h : Secured D s r key)
    (hpro : D.probes p ≠ some key)
    (hgiv : ∀ c, D.gives p = some (key, c) → D.owns r.client c = true) :
    Secured D (s.set i p) r key where
  row := h.row
  probes := forall_phase_set (P := fun _ p => D.probes p ≠ some key) hpro fun j _ => h.probes j
  gives := forall_phase_set
    (P := fun _ p => ∀ c, D.gives p = some (key, c) → D.owns r.client c = true) hgiv
    fun j _ => h.gives j

theorem ReservedInv.row_write {i : ι} {T : Leases κ χ} {q : Phase σ κ χ}
    {events : List (Event κ χ)} {row : Lease κ χ} (hs : ReservedInv D s)
    (hr : r ∈ s.config.reservations) (hat : D.Reserves r key)
    (hok : ReservesFree D s (.write i)) (h : Writes D s.now s.leases (s.phase i) T q events)
    (hrow : T.find key = some row) (hoth : D.owns r.client row.client = false) :
    row.state ≠ .active ∧
      ¬(row.state = .declined ∧ D.InProbation (s.commit i T q events) key) := by
  have hsec := hs.secured r hr key hat
  -- the row was there before, or its handler has just written it, or it is a conflict
  rcases h.find_cases hrow with ⟨old, hold, hcl, hcha⟩ | ⟨job, ip, hins, rfl, hcl⟩ |
    ⟨job, excluded, left, ip, hmar, rfl, -⟩
  · obtain ⟨hact, hpro⟩ := hsec.row old hold (hcl ▸ hoth)
    have hst : row.state = old.state := hcha.resolve_right fun hlap => hact hlap.1
    rw [hst]
    refine ⟨hact, ?_⟩
    rintro ⟨hdec, e, he, time, hmark, hnow⟩
    rcases mem_append.mp he with hnew | hlog
    · -- neither a conflict nor a DECLINE can be about this address now
      rcases (h.of_marked hnew hmark).2.2 with ⟨job, excluded, left, ip, hmar, rfl⟩ |
        ⟨row', hrow', hact'⟩
      · exact hsec.probes i (by rw [hmar]; rfl)
      · obtain rfl := some_inj.mp (hold.symm.trans hrow')
        exact hact hact'
    · exact hpro ⟨hdec, e, hlog, time, hmark, hnow⟩
  · -- only the owner of the reservation writes a row here
    refine absurd ?_ (Bool.eq_false_iff.mp hoth)
    rw [hcl]
    rcases hins with ⟨answer, began, expires, hph⟩ | ⟨expires, hph⟩
    · exact hsec.gives i _ (by rw [hph]; rfl)
    · obtain ⟨r', hr', hat', howns⟩ := hok job expires ip hph
      exact hs.proper.owners r' hr' r hr _ hat' hat _ howns
  · exact absurd (by rw [hmar]; rfl) (hsec.probes i)

variable [DecidableEq ν]

theorem ReservedInv.step (hs : ReservedInv D s) (hok : ReservesFree D s l) (hstep : Step D s l t) :
    ReservedInv D t := by
  cases hstep with
  | tick d =>
    refine ⟨hs.proper, fun r hr key hat => ?_⟩
    have h := hs.secured r hr key hat
    refine ⟨fun row hrow hoth => ⟨(h.row row hrow hoth).1, ?_⟩, h.probes, h.gives⟩
    rintro ⟨hdec, e, he, time, hmar, hnow⟩
    have hnow : s.now + d < time + seconds D.declineProbationS := hnow
    exact (h.row row hrow hoth).2 ⟨hdec, e, he, time, hmar, by omega⟩
  | edit =>
    refine ⟨hok.1, fun r hr key hat => ?_⟩
    -- a new reservation has to be free, the others were secured before
    have hsec : Secured D s r key := by
      by_cases hold : r ∈ s.config.reservations
      · exact hs.secured r hold key hat
      · exact hok.2 r hr hold key hat
    exact ⟨hsec.row, hsec.probes, hsec.gives⟩
  | refresh =>
    refine ⟨hs.proper, fun r hr key hat => ?_⟩
    have h := hs.secured r hr key hat
    exact ⟨h.row, h.probes, h.gives⟩
  | receive | sweep =>
    exact ⟨hs.proper, fun r hr key hat => (hs.secured r hr key hat).set nofun nofun⟩
  | read h _ =>
    refine ⟨hs.proper, fun r hr key hat => (hs.secured r hr key hat).set ?_ fun c hc => ?_⟩
    · exact hs.probes_read hr hat h
    · exact hs.gives_read hr hat h hc
  | @write i T q events h =>
    refine ⟨hs.proper, fun r hr key hat => ?_⟩
    have hset : Secured D (s.set i q) r key :=
      (hs.secured r hr key hat).set (by simp [probes_of_rests h.rests])
        (by simp [gives_of_rests h.rests])
    exact ⟨fun row hrow hoth => hs.row_write hr hat hok h hrow hoth, hset.probes, hset.gives⟩
  | fail h =>
    refine ⟨hs.proper, fun r hr key hat => (hs.secured r hr key hat).set ?_ ?_⟩
    · simp [h.probes_gives.1]
    · simp [h.probes_gives.2]

omit [DecidableEq ι] [DecidableEq ν] [DecidableEq χ] in
theorem reservedInv_fresh (now : ℤ) (scopes : List σ) :
    ReservedInv D (State.fresh now scopes : State ι ν σ κ χ) where
  proper := ⟨fun _ hr => absurd hr not_mem_nil, fun _ hr => absurd hr not_mem_nil⟩
  secured _ hr := absurd hr not_mem_nil

/-! ### Runs -/

/-- No confirmation that is about to be written overwrites a row that another
client relies on. -/
def ConfirmsSpare (D : Daemon ν σ κ χ μ) (s : State ι ν σ κ χ) : Prop :=
  ∀ i job expires ip, s.phase i = .task (.confirm job expires ip) → ReservesFree D s (.write i) →
    ∀ row, s.leases.find (D.scopeId job.scope, ip) = some row → row.client ≠ job.client →
      ¬D.Live s row

theorem confirmsSpare_of_run {now : ℤ} {scopes : List σ}
    (h : RunWhile D (ReservesFree D) (State.fresh now scopes) s) : ConfirmsSpare D s := by
  intro i job expires ip hph hok row hrow hcl hlive
  have hs : ReservedInv D s := h.induct (reservedInv_fresh now scopes) fun hs hok => hs.step hok
  obtain ⟨r, hr, hat, howns⟩ := hok job expires ip hph
  have hoth : D.owns r.client row.client = false :=
    Bool.eq_false_iff.mpr fun hown => hcl (D.owns_unique hown howns)
  obtain ⟨hact, hpro⟩ := (hs.secured r hr _ hat).row row hrow hoth
  rcases hlive with hrun | hdec
  · exact hact hrun.1
  · rw [Store.key_of_find hrow] at hdec
    exact hpro hdec

/-- **A confirmed reservation takes nobody's lease**, under both daemons. -/
theorem confirm_spares (now : ℤ) :
    (∀ (srv : ν → Dhcp4.Server) (sweep : Sweep) (scopes : List Dhcp4.Scope)
        (s : State ι ν Dhcp4.Scope UInt32 Dhcp4.Mac),
      RunWhile (Dhcp4.daemon srv sweep) (ReservesFree (Dhcp4.daemon srv sweep))
        (State.fresh now scopes) s →
      ConfirmsSpare (Dhcp4.daemon srv sweep) s) ∧
    ∀ (srv : ν → Dhcp6.Server) (sweep : Sweep) (scopes : List Dhcp6.Scope)
        (s : State ι ν Dhcp6.Scope Dhcp6.Key Dhcp6.Duid),
      RunWhile (Dhcp6.daemon srv sweep) (ReservesFree (Dhcp6.daemon srv sweep))
        (State.fresh now scopes) s →
      ConfirmsSpare (Dhcp6.daemon srv sweep) s :=
  ⟨fun _ _ _ _ h => confirmsSpare_of_run h, fun _ _ _ _ h => confirmsSpare_of_run h⟩

/-! ### Examples -/

/-- A condition on runs that can be executed.  The only edit enters a reservation
of a declined address, when its probation is over and nothing goes on. -/
def reservesDeclined [Fintype ι] (D : Daemon ν σ κ χ μ) (s : State ι ν σ κ χ) :
    Label ι ν σ κ χ → Bool
  | .edit config =>
    match config.reservations with
    | [r] => (D.parse r.ipAddress).any fun ip =>
      r.ipAddress = D.text ip ∧
        (s.leases.find (r.scopeId, ip)).any (fun row => row.state = .declined) = true ∧
        s.log.all (fun e => e.marked.all fun mark =>
          mark.2 + seconds D.declineProbationS ≤ s.now) = true ∧
        ∀ i, (s.phase i).isIdle = true
    | _ => false
  | .write i =>
    match s.phase i with
    | .task (.confirm job _ ip) => s.config.reservations.any fun r =>
      r.enabled = true ∧ r.scopeId = D.scopeId job.scope ∧ D.parse r.ipAddress = some ip ∧
        D.owns r.client job.client = true
    | _ => true
  | _ => true

omit [DecidableEq ι] [DecidableEq ν] [DecidableEq χ] in
theorem reservesFree_of_reservesDeclined [Fintype ι] {l : Label ι ν σ κ χ}
    (h : reservesDeclined D s l = true) : ReservesFree D s l := by
  cases l with
  | edit =>
    rw [reservesDeclined] at h
    split at h
    case h_2 => simp at h
    case h_1 r hcon =>
    obtain ⟨ip, hpar, h⟩ := (Option.any_eq_true _ _).mp h
    obtain ⟨htext, hrow, hmark, hidle⟩ := of_decide_eq_true h
    obtain ⟨row, hrow, hst⟩ := (Option.any_eq_true _ _).mp hrow
    have hkey : ∀ key, D.Reserves r key → key = (r.scopeId, ip) := fun key hat =>
      Prod.ext hat.2.1.symm (some_inj.mp (hat.2.2.symm.trans hpar))
    have hidle i := Phase.eq_idle_of_isIdle (hidle i)
    refine ⟨⟨?_, ?_⟩, ?_⟩ <;> rw [hcon] <;> intro r' hr' <;>
      obtain rfl := mem_singleton.mp hr'
    · intro key hat
      rw [hkey key hat]
      exact htext
    · intro r'' hr'' key hat hat' c howns
      obtain rfl := mem_singleton.mp hr''
      exact howns
    · intro _ key hat
      obtain rfl := hkey key hat
      refine ⟨fun row' hrow' _ => ?_, fun i => by rw [hidle]; exact nofun,
        fun i c => by rw [hidle]; exact nofun⟩
      obtain rfl := some_inj.mp (hrow.symm.trans hrow')
      rw [of_decide_eq_true hst]
      refine ⟨by decide, ?_⟩
      -- all marks are old enough
      rintro ⟨-, e, he, time, hmar, hnow⟩
      have hold := List.all_eq_true.mp hmark e he
      rw [hmar, all_some, decide_eq_true_eq] at hold
      exact absurd hnow (not_lt.mpr hold)
  | write =>
    intro job expires ip hph
    rw [reservesDeclined, hph] at h
    obtain ⟨r, hr, h⟩ := List.any_eq_true.mp h
    obtain ⟨hena, hsc, hpar, howns⟩ := of_decide_eq_true h
    exact ⟨r, hr, ⟨hena, hsc, hpar⟩, howns⟩
  | _ => trivial

end Dhcp

namespace Dhcp4

/-- A reservation of the first address, for the second client. -/
def sampleReservation : StaticLease :=
  ⟨"lan", (sampleMac 2).text, "10.0.0.1", none, true⟩

/-- It is entered, read, and confirmed to its client. -/
def sampleReserve : List (Move Bool Unit Scope UInt32 Mac Message) :=
  [.edit ⟨[sampleScope], [sampleReservation]⟩, .refresh (),
    .receive true () 0 (sampleRequest 2 0x0A000001) 0]

/-- An address is reserved while a client has it, and is taken away from it. -/
theorem confirm_steals :
    ∃ s : State Bool Unit Scope UInt32 Mac,
      RunWhile sampleDaemon (fun _ _ => True) (State.fresh 0 [sampleScope]) s ∧
      ∃ i job expires ip row, s.phase i = .task (.confirm job expires ip) ∧
        s.leases.find (job.scope.id, ip) = some row ∧ row.client ≠ job.client ∧
        row.Running s.now ∧
        ∃ t, Step sampleDaemon s (.write i) t ∧
          (t.leases.find (job.scope.id, ip)).map (·.client) = some job.client := by
  obtain ⟨s, hrun, hph, hrow, hnow, hwr⟩ := exists_replay (D := sampleDaemon)
    (s := State.fresh 0 [sampleScope])
    (P := fun s => s.phase true = .task (.confirm (sampleJob 2) 3600000000 0x0A000001) ∧
      s.leases.find ("lan", 0x0A000001) =
        some (family.leaseRow (sampleJob 1) 0x0A000001 0 3600000000) ∧ s.now ≤ 3600000000 ∧
      ((s.advance sampleDaemon (.write true)).map Prod.snd).any (fun t =>
        (t.leases.find ("lan", 0x0A000001)).map (·.client) = some (sampleMac 2)) = true)
    (K := fun _ _ => true) (fun _ _ _ => trivial)
    (sampleClaim false 1 0x0A000001 ++ sampleReserve) (by decide +kernel)
  exact ⟨s, hrun, true, _, _, _, _, hph, hrow, by decide +kernel, ⟨rfl, hnow⟩,
    State.exists_write hwr⟩

end Dhcp4

namespace Dhcp6

def sampleReservation : StaticLease := ⟨"lan", "02", "::1", none, true⟩

end Dhcp6

namespace Dhcp

/-- Once the probation of a declined lease is over, its address is reserved for
another client and confirmed. -/
theorem confirm_spares_declined :
    (∃ s : State Bool Unit Dhcp4.Scope UInt32 Dhcp4.Mac,
      RunWhile Dhcp4.sampleDaemon (ReservesFree Dhcp4.sampleDaemon)
        (State.fresh 0 [Dhcp4.sampleScope]) s ∧ ConfirmsSpare Dhcp4.sampleDaemon s ∧
      ∃ i job expires ip row, s.phase i = .task (.confirm job expires ip) ∧
        ReservesFree Dhcp4.sampleDaemon s (.write i) ∧
        s.leases.find (job.scope.id, ip) = some row ∧ row.client ≠ job.client ∧
        row.state = .declined) ∧
    ∃ s : State Unit Unit Dhcp6.Scope Dhcp6.Key Dhcp6.Duid,
      RunWhile Dhcp6.sampleDaemon (ReservesFree Dhcp6.sampleDaemon)
        (State.fresh 0 [Dhcp6.sampleScope]) s ∧ ConfirmsSpare Dhcp6.sampleDaemon s ∧
      ∃ i job expires ip row, s.phase i = .task (.confirm job expires ip) ∧
        ReservesFree Dhcp6.sampleDaemon s (.write i) ∧
        s.leases.find (job.scope.id, ip) = some row ∧ row.client ≠ job.client ∧
        row.state = .declined := by
  obtain ⟨s, hrun, hph, hrow, hnext⟩ := exists_replay (D := Dhcp4.sampleDaemon)
    (s := State.fresh 0 [Dhcp4.sampleScope])
    (P := fun s =>
      s.phase true = .task (.confirm (Dhcp4.sampleJob 2) 90000000000 0x0A000001) ∧
      s.leases.find ("lan", 0x0A000001) = some { Dhcp4.family.leaseRow
        (Dhcp4.sampleJob 1) 0x0A000001 0 3600000000 with state := .declined } ∧
      reservesDeclined Dhcp4.sampleDaemon s (.write true) = true)
    (K := reservesDeclined Dhcp4.sampleDaemon) (fun _ _ => reservesFree_of_reservesDeclined)
    (Dhcp4.sampleClaim false 1 0x0A000001 ++
      [.receive false () 0 (Dhcp4.sampleDecline 1 0x0A000001) 0, .write false,
        .tick 86400000000] ++ Dhcp4.sampleReserve)
    (by decide +kernel)
  obtain ⟨s6, hrun6, hph6, hrow6, hnext6⟩ := exists_replay (D := Dhcp6.sampleDaemon)
    (s := State.fresh 0 [Dhcp6.sampleScope])
    (P := fun s =>
      s.phase () = .task (.confirm (Dhcp6.sampleJob 2) 90000000000 (.na 1)) ∧
      s.leases.find ("lan", .na 1) = some { Dhcp6.family.leaseRow
        (Dhcp6.sampleJob 1) (.na 1) 0 3600000000 with state := .declined } ∧
      reservesDeclined Dhcp6.sampleDaemon s (.write ()) = true)
    (K := reservesDeclined Dhcp6.sampleDaemon) (fun _ _ => reservesFree_of_reservesDeclined)
    (Dhcp6.sampleClaim 1 1 ++ [.receive () () 0 (Dhcp6.sampleDecline 1 1) 0, .write (),
      .tick 86400000000, .edit ⟨[Dhcp6.sampleScope], [Dhcp6.sampleReservation]⟩, .refresh (),
      .receive () () 0 (Dhcp6.sampleRequest 2 1) 0])
    (by decide +kernel)
  exact ⟨⟨s, hrun, (confirm_spares 0).1 _ _ _ _ hrun, true, _, _, _, _, hph,
      reservesFree_of_reservesDeclined hnext, hrow, by decide +kernel, rfl⟩,
    ⟨s6, hrun6, (confirm_spares 0).2 _ _ _ _ hrun6, (), _, _, _, _, hph6,
      reservesFree_of_reservesDeclined hnext6, hrow6, by decide +kernel, rfl⟩⟩

end Dhcp
