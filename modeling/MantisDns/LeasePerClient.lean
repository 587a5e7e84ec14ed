/-
One active lease per client, under DHCPv4.

Rows are keyed by address, so nothing in the table keeps a client from having
two.  What the code relies on is the client: it has one request under way, and
asks for the address that it has.

* `one_lease_per_client` — with such clients, no client has two active leases,
  whatever addresses are requested and whatever is reserved meanwhile;
* `two_leases` — a client that asks for another address keeps the first one.
-/
import MantisDns.Dhcp4

open Text Table Dhcp

namespace Dhcp4

variable {ι ν : Type} [DecidableEq ι] [DecidableEq ν] {srv : ν → Server} {sweep : Sweep}
  {s t : State ι ν Scope UInt32 Mac} {l : Label ι ν Scope UInt32 Mac}
  {T T' : Leases UInt32 Mac} {p q : Phase Scope UInt32 Mac} {now : ℤ}
  {events : List (Event UInt32 Mac)}
variable {reservations : List StaticLease} {c : Str × Mac} {job : Job Scope Mac} {ip : UInt32}

/-! ### Requests under way -/

/-- Whose request a handler serves, and in which scope. -/
def requester : Phase Scope UInt32 Mac → Option (Str × Mac)
  | .task (.transact job _) => some (job.scope.id, job.client)
  | .task (.confirm job _ _) => some (job.scope.id, job.client)
  | .task (.lookup job .solicit) => some (job.scope.id, job.client)
  | .waiting job _ _ => some (job.scope.id, job.client)
  | .selecting job _ _ _ => some (job.scope.id, job.client)
  | .renewing job _ _ _ _ => some (job.scope.id, job.client)
  | .scanning job _ _ _ _ => some (job.scope.id, job.client)
  | .checking job _ _ _ => some (job.scope.id, job.client)
  | .guarding job _ _ _ => some (job.scope.id, job.client)
  | .inserting job _ _ _ _ => some (job.scope.id, job.client)
  | _ => none

/-- The active leases of the job's client, in its scope, are all for this
address. -/
def OnlyAt (T : Leases UInt32 Mac) (job : Job Scope Mac) (ip : UInt32) : Prop :=
  ∀ row ∈ T.rows, family.OwnActive job row → row.ip = ip

/-- A client asks for nothing else than the address it has. -/
def AsksForOwn (T : Leases UInt32 Mac) : Task Scope UInt32 Mac → Prop
  | .transact job (.claim _ ip) => OnlyAt T job ip
  | .confirm job _ ip => OnlyAt T job ip
  | _ => True

/-- A client has one request under way, and asks for the address it has. -/
def OneRequest (s : State ι ν Scope UInt32 Mac) : Label ι ν Scope UInt32 Mac → Prop
  | .receive _ task =>
    AsksForOwn s.leases task ∧
      ∀ c, requester (.task task) = some c → ∀ j, requester (s.phase j) ≠ some c
  | _ => True

/-- What a handler knows of its client's leases. -/
def KnowsOwn (T : Leases UInt32 Mac) : Phase Scope UInt32 Mac → Prop
  | .task task => AsksForOwn T task
  | .waiting job (.claim _ ip) _ => OnlyAt T job ip
  | .scanning job _ _ _ _ => ∀ row ∈ T.rows, ¬family.OwnActive job row
  | .checking job _ _ ip => OnlyAt T job ip
  | .guarding job _ _ ip => OnlyAt T job ip
  | .inserting job _ _ _ ip => OnlyAt T job ip
  | _ => True

/-! ### One handler -/

theorem requester_reads (h : Reads family now T reservations p q) (hq : requester q = some c) :
    requester p = some c := by
  cases h with
  | @notFound job mode =>
    cases mode with
    | solicit => exact hq
    | _ => simp [afterLookup, requester] at hq
  | peek =>
    split at hq <;> simp [requester] at hq
  | collided =>
    rw [nextScan] at hq
    split at hq
    · simp [requester] at hq
    · exact hq
  | found | silent | answered | peekNone | held | reserved => simp [requester] at hq
  | _ => exact hq

theorem knowsOwn_reads (hp : KnowsOwn T p) (h : Reads family now T reservations p q) :
    KnowsOwn T q := by
  cases h with
  | @notFound job mode => cases mode <;> trivial
  | peek =>
    split <;> trivial
  | unselected hnone => exact hnone
  | scanned => exact fun row hrow hown => absurd hown (hp row hrow)
  | collided =>
    rw [nextScan]
    split
    · trivial
    · exact hp
  | @start job tx =>
    cases tx with
    | allocate => trivial
    | claim => exact hp
  | lockClaim | unheld | undelegated | unreserved => exact hp
  | _ => trivial

theorem requester_of_rests (h : p.Rests) : requester p = none := by
  cases h <;> rfl

theorem knowsOwn_of_rests (T : Leases UInt32 Mac) (h : p.Rests) : KnowsOwn T p := by
  cases h <;> trivial

theorem knowsOwn_fails (T : Leases UInt32 Mac) (h : Fails p q) : KnowsOwn T q := by
  cases h with
  | abort => trivial
  | @lookup job mode => cases mode <;> trivial
  | mark => exact knowsOwn_of_rests T nextPeek_rests

theorem requester_fails (h : Fails p q) (hq : requester q = some c) :
    requester p = some c := by
  cases h with
  | abort => simp [requester] at hq
  | @lookup job mode =>
    cases mode with
    | solicit => exact hq
    | _ => simp [afterLookup, requester] at hq
  | mark => simp [requester_of_rests nextPeek_rests] at hq

omit [DecidableEq ν] in
theorem ownActive_writes (h : Writes (daemon srv sweep) now T p T' q events)
    {row : Lease UInt32 Mac} (hrow : row ∈ T'.rows) (hown : family.OwnActive job row) :
    (∃ old ∈ T.rows, family.OwnActive job old ∧ old.ip = row.ip) ∨
      ∃ job', p.Inserts job' row.ip ∧ job'.scope.id = job.scope.id ∧ job'.client = job.client := by
  obtain ⟨hsc, hcl, hna, hact⟩ := hown
  rcases h.find_cases (T'.mem_rows_iff.mp hrow) with ⟨old, hold, hsame, hcha⟩ |
    ⟨job', ip, hins, hkey, hwri⟩ | ⟨_, _, _, _, -, -, hdec⟩
  · obtain ⟨hmem, hkey⟩ := T.find_eq_some_iff.mp hold
    obtain ⟨hid, hip⟩ := Prod.mk.inj hkey
    have hst : old.state = .active := by
      rcases hcha with heq | ⟨hold, -⟩
      · rw [← heq, hact]
      · exact hold
    exact .inl ⟨old, hmem, ⟨hid.trans hsc, hsame.symm.trans hcl, rfl, hst⟩, hip⟩
  · obtain ⟨hid, rfl⟩ := Prod.mk.inj hkey
    exact .inr ⟨job', hins, hid.symm.trans hsc, hwri.symm.trans hcl⟩
  · exact absurd (hact.symm.trans hdec) (by decide)

theorem requester_of_inserts (h : p.Inserts job ip) :
    requester p = some (job.scope.id, job.client) := by
  rcases h with ⟨_, _, _, rfl⟩ | ⟨_, rfl⟩ <;> rfl

theorem onlyAt_of_inserts (h : p.Inserts job ip) (hp : KnowsOwn T p) : OnlyAt T job ip := by
  rcases h with ⟨_, _, _, rfl⟩ | ⟨_, rfl⟩ <;> exact hp

omit [DecidableEq ν] in
theorem knowsOwn_writes {p' : Phase Scope UInt32 Mac}
    (h : Writes (daemon srv sweep) now T p T' q events) (hp' : KnowsOwn T p')
    (hoth : ∀ c, requester p = some c → requester p' ≠ some c) : KnowsOwn T' p' := by
  -- a new active row belongs to the client whose handler wrote it
  have hnew : ∀ (job : Job Scope Mac) (row : Lease UInt32 Mac),
      requester p' = some (job.scope.id, job.client) → row ∈ T'.rows → family.OwnActive job row →
      ∃ old ∈ T.rows, family.OwnActive job old ∧ old.ip = row.ip := by
    intro job row hreq hrow hown
    rcases ownActive_writes h hrow hown with hold | ⟨job', hins, hsc, hcl⟩
    · exact hold
    · refine absurd ?_ (hoth _ (requester_of_inserts hins))
      rw [hreq, hsc, hcl]
  have honly : ∀ (job : Job Scope Mac) (ip : UInt32),
      requester p' = some (job.scope.id, job.client) → OnlyAt T job ip → OnlyAt T' job ip := by
    intro job ip hreq hat row hrow hown
    obtain ⟨old, hmem, hold, hip⟩ := hnew job row hreq hrow hown
    exact hip.symm.trans (hat old hmem hold)
  cases p' with
  | task task =>
    cases task with
    | transact job tx =>
      cases tx with
      | allocate => trivial
      | claim answer ip => exact honly job ip rfl hp'
    | confirm job expires ip => exact honly job ip rfl hp'
    | _ => trivial
  | waiting job tx =>
    cases tx with
    | allocate => trivial
    | claim answer ip => exact honly job ip rfl hp'
  | scanning job =>
    intro row hrow hown
    obtain ⟨old, hmem, hold, -⟩ := hnew job row rfl hrow hown
    exact hp' old hmem hold
  | checking job answer began ip | guarding job answer began ip
  | inserting job answer began expires ip => exact honly job ip rfl hp'
  | _ => trivial

/-! ### Runs -/

/-- Each client has at most one active lease in a scope. -/
def OneLease (T : Leases UInt32 Mac) : Prop :=
  ∀ row ∈ T.rows, ∀ row' ∈ T.rows, row.scopeId = row'.scopeId → row.client = row'.client →
    row.state = .active → row'.state = .active → row = row'

omit [DecidableEq ν] in
theorem OneLease.writes (hT : OneLease T) (h : Writes (daemon srv sweep) now T p T' q events)
    (hp : KnowsOwn T p) : OneLease T' := by
  intro row hrow row' hrow' hsc hcl hact hact'
  let job : Job Scope Mac := ⟨⟨row.scopeId, 0, 0, 0⟩, row.client, none, 0⟩
  -- against a row that was there, the written one is at the same address
  have hwrit : ∀ {old : Lease UInt32 Mac} {job' : Job Scope Mac} {ip : UInt32}, old ∈ T.rows →
      family.OwnActive job old → p.Inserts job' ip → job'.scope.id = job.scope.id →
      job'.client = job.client → old.ip = ip := by
    rintro old job' ip hold ⟨hid, hmac, hna, hst⟩ hins hsame hwri
    exact onlyAt_of_inserts hins hp old hold
      ⟨hid.trans hsame.symm, hmac.trans hwri.symm, hna, hst⟩
  have hip : row.ip = row'.ip := by
    rcases ownActive_writes h hrow
        (show family.OwnActive job row from ⟨rfl, rfl, rfl, hact⟩) with
      ⟨old, hold, hown, hip⟩ | ⟨writer, hins, hsame, hwri⟩ <;>
    rcases ownActive_writes h hrow'
        (show family.OwnActive job row' from ⟨hsc.symm, hcl.symm, rfl, hact'⟩) with
      ⟨old', hold', hown', hip'⟩ | ⟨writer', hins', hsame', hwri'⟩
    · rw [← hip, ← hip', hT old hold old' hold' (hown.1.trans hown'.1.symm)
        (hown.2.1.trans hown'.2.1.symm) hown.2.2.2 hown'.2.2.2]
    · exact hip.symm.trans (hwrit hold hown hins' hsame' hwri')
    · exact ((hip'.symm.trans (hwrit hold' hown' hins hsame hwri))).symm
    · exact hins.ip_eq hins'
  exact T'.keyed row hrow row' hrow' (Prod.ext hsc hip)

structure OwnInv (s : State ι ν Scope UInt32 Mac) : Prop where
  one : OneLease s.leases
  apart : Apart requester s
  knows : ∀ i, KnowsOwn s.leases (s.phase i)

omit [DecidableEq ν] in
theorem OwnInv.set {i : ι} (hs : OwnInv s) (hp : KnowsOwn s.leases p)
    (hreq : ∀ c, requester p = some c → requester (s.phase i) = some c ∨
      ∀ j, j ≠ i → requester (s.phase j) ≠ some c) : OwnInv (s.set i p) where
  one := hs.one
  apart := hs.apart.set hreq
  knows := forall_phase_set hp fun j _ => hs.knows j

theorem OwnInv.step (hs : OwnInv s) (hok : OneRequest s l) (hstep : Step (daemon srv sweep) s l t) :
    OwnInv t := by
  cases hstep with
  | tick | edit | refresh => exact ⟨hs.one, hs.apart, hs.knows⟩
  | receive => exact hs.set hok.1 fun c hc => .inr fun j _ => hok.2 c hc j
  | sweep => exact hs.set trivial fun c hc => absurd hc (by simp [requester])
  | @read i q h _ =>
    exact hs.set (knowsOwn_reads (hs.knows i) h) fun c hc => .inl (requester_reads h hc)
  | @write i T q events h =>
    refine ⟨hs.one.writes h (hs.knows i), ?_, ?_⟩
    · exact hs.apart.commit fun c hc => absurd hc (by simp [requester_of_rests h.rests])
    · refine forall_phase_set (s := s) (P := fun _ => KnowsOwn T) (knowsOwn_of_rests T h.rests)
        fun j hj => ?_
      exact knowsOwn_writes h (hs.knows j) fun c hi hj' => hj (hs.apart j i c hj' hi)
  | @fail i q h => exact hs.set (knowsOwn_fails s.leases h) fun c hc => .inl (requester_fails h hc)

omit [DecidableEq ι] [DecidableEq ν] in
theorem ownInv_fresh (now : ℤ) (scopes : List Scope) :
    OwnInv (State.fresh now scopes : State ι ν Scope UInt32 Mac) where
  one row hrow := absurd hrow List.not_mem_nil
  apart i j c hi := absurd hi (by simp [State.fresh, requester])
  knows _ := trivial

/-- **A client has one active lease**, so the row that a renewal or another
DISCOVER finds is the one there is. -/
theorem one_lease_per_client {now : ℤ} {scopes : List Scope} {row row' : Lease UInt32 Mac}
    (hrun : RunWhile (daemon srv sweep) OneRequest
      (State.fresh now scopes : State ι ν Scope UInt32 Mac) s)
    (hrow : row ∈ s.leases.rows) (hrow' : row' ∈ s.leases.rows)
    (hscope : row.scopeId = row'.scopeId) (hclient : row.client = row'.client)
    (hactive : row.state = .active) (hactive' : row'.state = .active) : row = row' :=
  (hrun.induct (ownInv_fresh now scopes) fun hs hok => hs.step hok).one
    row hrow row' hrow' hscope hclient hactive hactive'

/-- Two clients get an address each, and the first one asks for its own again. -/
theorem one_lease_per_client_first :
    ∃ s : State Bool Unit Scope UInt32 Mac,
      RunWhile sampleDaemon OneRequest (State.fresh 0 [sampleScope]) s ∧
      s.leases.rows.length = 2 ∧
      ∃ row ∈ s.leases.rows, row.client = sampleMac 1 ∧ row.state = .active ∧
        ∀ row' ∈ s.leases.rows, row'.scopeId = row.scopeId → row'.client = row.client →
          row'.state = .active → row' = row := by
  -- each request is for the address that its client has, and no other one is under way
  have hok : ∀ (s : State Bool Unit Scope UInt32 Mac) (l : Label Bool Unit Scope UInt32 Mac),
      (match l with
        | .receive _ task =>
          (match task with
          | .transact job (.claim _ ip) =>
            decide ((∀ row ∈ s.leases.rows, family.OwnActive job row → row.ip = ip) ∧
              ∀ j, requester (s.phase j) = none)
          | _ => false)
        | _ => true) = true → OneRequest s l := by
    intro s l hl
    cases l with
    | receive i task =>
      dsimp only at hl
      split at hl
      · obtain ⟨hown, hq⟩ := of_decide_eq_true hl
        exact ⟨hown, fun c _ j hj => absurd ((hq j).symm.trans hj) (by simp)⟩
      · cases hl
    | _ => trivial
  obtain ⟨s, hrun, hlen, row, hrow, hcl, hact⟩ := exists_replay (D := sampleDaemon)
    (s := State.fresh 0 [sampleScope])
    (P := fun s => s.leases.rows.length = 2 ∧
      ∃ row ∈ s.leases.rows, row.client = sampleMac 1 ∧ row.state = .active)
    hok (sampleClaim false 1 0x0A000001 ++ sampleClaim true 2 0x0A000002 ++
      sampleClaim true 1 0x0A000001) (by decide +kernel)
  exact ⟨s, hrun, hlen, row, hrow, hcl, hact, fun row' hrow' hsc hsame hact' =>
    one_lease_per_client hrun hrow' hrow hsc hsame hact' hact⟩

/-- A client asks for a second address and has two. -/
theorem two_leases :
    ∃ s : State Bool Unit Scope UInt32 Mac,
      RunWhile sampleDaemon (fun _ _ => True) (State.fresh 0 [sampleScope]) s ∧
      ∃ row ∈ s.leases.rows, ∃ row' ∈ s.leases.rows, row.scopeId = row'.scopeId ∧
        row.client = row'.client ∧ row.state = .active ∧ row'.state = .active ∧ row ≠ row' := by
  exact exists_replay (K := fun _ _ => true) (fun _ _ _ => trivial)
    (sampleClaim false 1 0x0A000001 ++ sampleClaim false 1 0x0A000002) (by decide +kernel)

end Dhcp4
