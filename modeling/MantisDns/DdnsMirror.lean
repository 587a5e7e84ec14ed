/-
DDNS and the leases of a DHCPv4 server.

One server handles packets and sweeps one at a time, and each event that it posts
is handled at once.  What is published should be the leases in use that have a host
name.  A grant is posted with the new name only, a RELEASE with the address that the
packet carries and the name of one row, a DECLINE not at all, and a sweep reports
its rows when it is over.

* `notices`, `watchDdns` — what is posted, and what the control plane makes of it;
* `Named` — host names are valid, and each belongs to one client;
* `Tidy` — a statement ends no other named lease than the one its event is about;
* `Mirrored.step` — then what is published follows the leases;
* `ddns_mirrors_leases` — between packets the two agree;
* `renamed_leaves_stale` — a client that changes its name leaves a record behind.
-/
import MantisDns.SweepReports
import MantisDns.DdnsHosts

open Text Table Dns Dhcp Control.Ddns List Option
open Control.Zones (ZoneDb)

namespace Dhcp4

/-! ### What is posted -/

/-- `V4Event`, as `post_v4` sends it. -/
def notice (kind : EventKind) (scopeId : Str) (ip : UInt32) (hostname : Option Str) (mac : Mac) :
    DhcpEvent where
  event := kind
  ip := ipv4Text ip
  hostname := hostname.getD []
  family := .v4
  mac := mac.text
  scopeId := scopeId

/-- The zone, the ids that new rows get, and which of the rows that a statement
returns is the first. -/
structure World extends Bridge where
  family_eq : family = .v4
  newId : List Str → Str
  newId_fresh : ∀ issued, newId issued ∉ issued
  first : List (Lease UInt32 Mac) → Option (Lease UInt32 Mac)
  first_mem : ∀ {rows : List (Lease UInt32 Mac)} {row : Lease UInt32 Mac},
    first rows = some row → row ∈ rows

/-- The rows that a RELEASE deletes. -/
def released (scopeId : Str) (mac : Mac) (T : Leases UInt32 Mac) : List (Lease UInt32 Mac) :=
  T.rows.filter fun row => row.scopeId = scopeId ∧ row.client = mac

/-- What a handler posts after its next statement. -/
def notices (W : World) (s : State Unit Unit Scope UInt32 Mac)
    (gathered : List (Lease UInt32 Mac)) : Phase Scope UInt32 Mac → List DhcpEvent
  | .inserting job .grant _ _ ip => [notice .add job.scope.id ip job.hostname job.client]
  | .renewing job .grant _ _ ip => [notice .add job.scope.id ip job.hostname job.client]
  | .task (.confirm job _ ip) => [notice .add job.scope.id ip job.hostname job.client]
  -- the name is that of a row, the address that of the packet
  | .task (.release scopeId mac _ (some ciaddr)) =>
    match (W.first (released scopeId mac s.leases)).bind (·.hostname) with
    | some hostname => [notice .expire scopeId ciaddr (some hostname) mac]
    | none => []
  | .freeing _ =>
    (gathered.filter fun row =>
      row.hostname.isSome && (s.snapshot ()).scopes.any (·.id = row.scopeId)).map
        fun row => notice .expire row.scopeId row.ip row.hostname row.client
  | _ => []

/-- An event that is handled at once. -/
def World.deliver (W : World) (db : ZoneDb) (ev : DhcpEvent) : ZoneDb :=
  (dhcpEvent W.U db (W.newId db.issued) ev).getD db

/-- The rows that the sweep in progress has gathered, and the tables of the control
plane. -/
structure Posted where
  gathered : List (Lease UInt32 Mac)
  db : ZoneDb

/-- What is gathered after a statement. -/
def gatheredAfter (s t : State Unit Unit Scope UInt32 Mac) (gathered : List (Lease UInt32 Mac)) :
    Phase Scope UInt32 Mac → List (Lease UInt32 Mac)
  | .expiring _ => gathered ++ changedRows s.leases t.leases
  | .purging _ => gathered ++ changedRows s.leases t.leases
  | .freeing _ => []
  | _ => gathered

def watchDdns (W : World) (s : State Unit Unit Scope UInt32 Mac)
    (l : Label Unit Unit Scope UInt32 Mac) (t : State Unit Unit Scope UInt32 Mac) (w : Posted) :
    Posted :=
  match l with
  | .write i => ⟨gatheredAfter s t w.gathered (s.phase i),
      (notices W s w.gathered (s.phase i)).foldl W.deliver w.db⟩
  | .fail i => { w with gathered := if (s.phase i).sweeping then [] else w.gathered }
  | _ => w

/-! ### Names -/

/-- The name under which a lease is published. -/
def World.nameOf (W : World) (row : Lease UInt32 Mac) : Option Str := row.hostname.map W.name

/-- A lease in use that has a host name. -/
def InUse (row : Lease UInt32 Mac) : Prop := row.state = .active ∧ row.hostname.isSome = true

/-- The address that a handler grants with its next statement. -/
def granted : Phase Scope UInt32 Mac → Option (Job Scope Mac × UInt32)
  | .inserting job _ _ _ ip => some (job, ip)
  | .renewing job _ _ _ ip => some (job, ip)
  | .task (.confirm job _ ip) => some (job, ip)
  | _ => none

/-- DDNS is enabled in the scope, and the host name is valid and belongs to the client. -/
def World.Names (W : World) (scopeId : Str) (hostname : Str) (mac : Mac) : Prop :=
  ∀ kind ip, W.Effective (notice kind scopeId ip (some hostname) mac)

/-- Grants come with names of this kind, if they come with a name. -/
def Named (W : World) (s : State Unit Unit Scope UInt32 Mac) :
    Label Unit Unit Scope UInt32 Mac → Prop
  | .write i => ∀ job ip, granted (s.phase i) = some (job, ip) → ∀ hostname,
      job.hostname = some hostname → W.Names job.scope.id hostname job.client
  | _ => True

/-- A statement ends no other named lease than the one its event is about. -/
structure TidyWrite (W : World) (s : State Unit Unit Scope UInt32 Mac) (w : Posted)
    (p : Phase Scope UInt32 Mac) : Prop where
  /-- The address is granted under the name that is published for it, and the name is
  published for no other. -/
  grant : ∀ job ip, granted p = some (job, ip) → ∀ row ∈ s.leases.rows, InUse row →
    (row.key = (job.scope.id, ip) ↔ W.nameOf row = job.hostname.map W.name)
  /-- A RELEASE carries the address of the named lease that it ends, and the first row
  has its name. -/
  release : ∀ scopeId mac leaseType ciaddr, p = .task (.release scopeId mac leaseType ciaddr) →
    ∀ row ∈ s.leases.rows, InUse row →
      (row.scopeId = scopeId ∧ row.client = mac ↔
        ∃ gone, W.first (released scopeId mac s.leases) = some gone ∧ ciaddr = some row.ip ∧
          W.nameOf row = W.nameOf gone)
  /-- A lease that is declined has no name. -/
  decline : ∀ scopeId mac ip, p = .task (.decline scopeId mac ip) → ∀ row ∈ s.leases.rows,
    heldBy scopeId ip mac row = true → row.hostname = none
  /-- The scopes of the rows that a sweep reports are still served, and no lease in use
  has the name and address of one of them. -/
  sweep : ∀ called, p = .freeing called → ∀ gone ∈ w.gathered, gone.hostname.isSome = true →
    (s.snapshot ()).scopes.any (·.id = gone.scopeId) = true ∧
      ∀ row ∈ s.leases.rows, InUse row → ¬(W.nameOf row = W.nameOf gone ∧ row.ip = gone.ip)

def Tidy (W : World) (s : State Unit Unit Scope UInt32 Mac) (w : Posted) :
    Label Unit Unit Scope UInt32 Mac → Prop
  | .write i => TidyWrite W s w (s.phase i)
  -- a sweep does not fail with a named lease among the rows that it expired
  | .fail i => (s.phase i).sweeping = true → ∀ gone ∈ w.gathered, ¬InUse gone
  | _ => True

/-! ### The invariant -/

/-- A named lease that is published: in use, or expired by the sweep in progress. -/
def Shown (T : Leases UInt32 Mac) (gathered : List (Lease UInt32 Mac)) (row : Lease UInt32 Mac) :
    Prop :=
  (row ∈ T.rows ∨ row ∈ gathered) ∧ InUse row

/-- What a handler has found out that still holds. -/
def Known (T : Leases UInt32 Mac) : Phase Scope UInt32 Mac → Prop
  | .task (.lookup _ mode) => ∃ probe attempts, mode = .discover probe attempts
  | .task (.transact _ tx) => tx.answer = .grant
  | .task (.release _ _ leaseType _) => leaseType = .na
  | .probing job _ _ ip => T.find (job.scope.id, ip) = none
  | .marking job _ _ ip => T.find (job.scope.id, ip) = none
  | .waiting _ tx _ => tx.answer = .grant
  | .selecting _ answer _ _ => answer = .grant
  | .renewing job answer _ _ ip => answer = .grant ∧
      ∃ row, T.find (job.scope.id, ip) = some row ∧ family.OwnActive job row
  | .scanning _ answer _ _ _ => answer = .grant
  | .checking _ answer _ _ => answer = .grant
  | .guarding _ answer _ _ => answer = .grant
  | .inserting _ answer _ _ _ => answer = .grant
  | _ => True

structure Mirrored (W : World) (s : State Unit Unit Scope UInt32 Mac) (w : Posted) (t : Hosts) :
    Prop where
  represents : W.Represents t w.db
  shows : ∀ name ip, t name = some ip ↔
    ∃ row, Shown s.leases w.gathered row ∧ W.nameOf row = some name ∧ ipv4Text row.ip = ip
  named : ∀ row, row ∈ s.leases.rows ∨ row ∈ w.gathered → ∀ hostname,
    row.hostname = some hostname → W.Names row.scopeId hostname row.client
  gathered : (s.phase ()).sweeping = false → w.gathered = []
  known : Known s.leases (s.phase ())

section Events

variable {W : World} {t : Hosts} {db : ZoneDb} {scopeId hostname : Str} {ip : UInt32} {mac : Mac}

theorem represents_add (h : W.Represents t db) (hname : W.Names scopeId hostname mac) :
    W.Represents (t.add (W.name hostname) (ipv4Text ip))
      (W.deliver db (notice .add scopeId ip (some hostname) mac)) := by
  obtain ⟨db', hdb', hrep⟩ := h.add (hname .add ip) rfl (validateRecordField_ipv4Text ip)
    (W.newId_fresh db.issued)
  rw [World.deliver, hdb']
  exact hrep

theorem deliver_nameless :
    W.deliver db (notice .add scopeId ip none mac) = db := by
  have hjob : jobOf W.U db (notice .add scopeId ip none mac) = none := by
    simp [jobOf, notice, strip]
  rw [World.deliver, dhcpEvent, prepare, hjob]
  rfl

theorem represents_expire (h : W.Represents t db) (hname : W.Names scopeId hostname mac) :
    W.Represents (t.expire (W.name hostname) (ipv4Text ip))
      (W.deliver db (notice .expire scopeId ip (some hostname) mac)) := by
  obtain ⟨db', hdb', hrep⟩ := h.expire (hname .expire ip) rfl (validateRecordField_ipv4Text ip)
    (W.newId db.issued)
  rw [World.deliver, hdb']
  exact hrep

theorem represents_expires {rows : List (Lease UInt32 Mac)} (h : W.Represents t db)
    (hnam : ∀ row ∈ rows, row.hostname.isSome = true ∧ ∀ hostname, row.hostname = some hostname →
      W.Names row.scopeId hostname row.client) :
    ∃ t', W.Represents t' ((rows.map fun row =>
        notice .expire row.scopeId row.ip row.hostname row.client).foldl W.deliver db) ∧
      ∀ name ip, t' name = some ip ↔ t name = some ip ∧
        ∀ row ∈ rows, ¬(W.nameOf row = some name ∧ ipv4Text row.ip = ip) := by
  induction rows generalizing t db with
  | nil => exact ⟨t, h, fun name ip => by simp⟩
  | cons row rows ih =>
    obtain ⟨⟨hsome, hnames⟩, hrest⟩ := forall_mem_cons.mp hnam
    obtain ⟨hostname, hhost⟩ := isSome_iff_exists.mp hsome
    have hfst : W.Represents (t.expire (W.name hostname) (ipv4Text row.ip)) (W.deliver db
        (notice .expire row.scopeId row.ip (some hostname) row.client)) :=
      represents_expire h (hnames hostname hhost)
    rw [← hhost] at hfst
    obtain ⟨t', hrep, hiff⟩ := ih hfst hrest
    refine ⟨t', hrep, fun name ip => ?_⟩
    have hname : W.nameOf row = some (W.name hostname) := by rw [World.nameOf, hhost]; rfl
    rw [hiff, Hosts.expire_eq_some_iff, forall_mem_cons, and_assoc, hname, some_inj,
      eq_comm (a := W.name hostname), eq_comm (a := ipv4Text row.ip)]

end Events

/-! ### One statement -/

section Writes

variable {W : World} {t : Hosts} {s : State Unit Unit Scope UInt32 Mac} {w : Posted}
  {T : Leases UInt32 Mac} {events : List (Event UInt32 Mac)}
variable {row : Lease UInt32 Mac} {q : Phase Scope UInt32 Mac} {scopeId : Str} {mac : Mac}
  {called : ℤ} {ip : UInt32} {batch : Lease UInt32 Mac → Bool}

theorem nameOf_eq_some (h : InUse row) :
    ∃ hostname, row.hostname = some hostname ∧ W.nameOf row = some (W.name hostname) := by
  obtain ⟨hostname, hhost⟩ := isSome_iff_exists.mp h.2
  exact ⟨hostname, hhost, by rw [World.nameOf, hhost]; rfl⟩

theorem Mirrored.keep (h : Mirrored W s w t) {gathered : List (Lease UInt32 Mac)}
    (hsho : ∀ row, Shown T gathered row ↔ Shown s.leases w.gathered row)
    (hfrom : ∀ row, row ∈ T.rows ∨ row ∈ gathered → ∀ hostname, row.hostname = some hostname →
      W.Names row.scopeId hostname row.client) (hgat : q.sweeping = false → gathered = [])
    (hkno : Known T q) :
    Mirrored W (s.commit () T q events) ⟨gathered, w.db⟩ t where
  represents := h.represents
  shows name ip := by
    rw [h.shows]
    exact exists_congr fun row => and_congr_left fun _ => (hsho row).symm
  named := hfrom
  gathered hq := hgat hq
  known := hkno

/-- **A grant.**  The row of its address is written, and its name is published. -/
theorem Mirrored.grant (h : Mirrored W s w t) (new : Lease UInt32 Mac)
    (hrows : ∀ row, row ∈ T.rows ↔ row = new ∨ row ∈ s.leases.rows ∧ row.key ≠ new.key)
    (hst : new.state = .active)
    (hnam : ∀ hostname, new.hostname = some hostname → W.Names new.scopeId hostname new.client)
    (htidy : ∀ row ∈ s.leases.rows, InUse row → (row.key = new.key ↔ W.nameOf row = W.nameOf new))
    (hgat : w.gathered = []) :
    ∃ t', Mirrored W (s.commit () T .idle events)
      ⟨w.gathered, W.deliver w.db (notice .add new.scopeId new.ip new.hostname new.client)⟩ t' := by
  have hnamed : ∀ row, row ∈ T.rows ∨ row ∈ w.gathered → ∀ hostname,
      row.hostname = some hostname → W.Names row.scopeId hostname row.client := by
    intro row hrow
    rw [hgat, or_iff_left not_mem_nil, hrows] at hrow
    rcases hrow with rfl | ⟨hrow, -⟩
    · exact hnam
    · exact h.named row (.inl hrow)
  have hsho : ∀ row, Shown T w.gathered row ↔
      row = new ∧ new.hostname.isSome = true ∨
        Shown s.leases w.gathered row ∧ W.nameOf row ≠ W.nameOf new := by
    intro row
    rw [Shown, Shown, hgat, or_iff_left not_mem_nil, or_iff_left not_mem_nil, hrows]
    constructor
    · rintro ⟨rfl | ⟨hrow, hkey⟩, huse⟩
      · exact .inl ⟨rfl, huse.2⟩
      · exact .inr ⟨⟨hrow, huse⟩, fun heq => hkey ((htidy row hrow huse).mpr heq)⟩
    · rintro (⟨rfl, hsome⟩ | ⟨⟨hrow, huse⟩, hname⟩)
      · exact ⟨.inl rfl, hst, hsome⟩
      · exact ⟨.inr ⟨hrow, fun heq => hname ((htidy row hrow huse).mp heq)⟩, huse⟩
  cases hhost : new.hostname with
  | none =>
    -- nothing is published, and nothing was
    have hnew : W.nameOf new = none := by rw [World.nameOf, hhost]; rfl
    rw [deliver_nameless]
    refine ⟨t, h.represents, fun name ip => ?_, hnamed, fun _ => hgat, trivial⟩
    rw [h.shows]
    refine exists_congr fun row => and_congr_left fun hname => ?_
    show _ ↔ Shown T w.gathered row
    rw [hsho, hhost, hnew]
    simp [hname.1]
  | some hostname =>
    have hnew : W.nameOf new = some (W.name hostname) := by rw [World.nameOf, hhost]; rfl
    refine ⟨t.add (W.name hostname) (ipv4Text new.ip),
      represents_add h.represents (hnam hostname hhost), fun name ip => ?_, hnamed,
      fun _ => hgat, trivial⟩
    show _ ↔ ∃ row, Shown T w.gathered row ∧ _
    rw [Hosts.add_apply]
    constructor
    · intro hip
      split at hip
      · rename_i hname
        refine ⟨new, (hsho new).mpr (.inl ⟨rfl, by simp [hhost]⟩), ?_, some_inj.mp hip⟩
        rw [hnew, hname]
      · rename_i hname
        obtain ⟨row, hrow, hrn, hrowI⟩ := (h.shows name ip).mp hip
        refine ⟨row, (hsho row).mpr (.inr ⟨hrow, ?_⟩), hrn, hrowI⟩
        rw [hrn, hnew]
        exact fun heq => hname (some_inj.mp heq)
    · rintro ⟨row, hrow, hrn, rfl⟩
      rcases (hsho row).mp hrow with ⟨rfl, -⟩ | ⟨hrow, hne⟩
      · rw [hnew, some_inj] at hrn
        rw [if_pos hrn.symm]
      · have hname : name ≠ W.name hostname := by
          rintro rfl
          exact hne (hrn.trans hnew.symm)
        rw [if_neg hname]
        exact (h.shows name _).mpr ⟨row, hrow, hrn, rfl⟩

theorem mem_release :
    row ∈ (family.release scopeId mac .na s.leases).rows ↔
      row ∈ s.leases.rows ∧ ¬(row.scopeId = scopeId ∧ row.client = mac) := by
  have hna : family.leaseType row.ip = .na := rfl
  simp only [Family.release, Store.delete, mem_filter, hna, and_true, Bool.not_eq_true',
    decide_eq_false_iff_not]

/-- **A RELEASE.**  The rows of the client go, and one name is cleared. -/
theorem Mirrored.release (h : Mirrored W s w t) {ciaddr : Option UInt32}
    (hgat : w.gathered = []) (htidy : ∀ row ∈ s.leases.rows, InUse row →
      (row.scopeId = scopeId ∧ row.client = mac ↔
        ∃ gone, W.first (released scopeId mac s.leases) = some gone ∧ ciaddr = some row.ip ∧
          W.nameOf row = W.nameOf gone)) :
    ∃ t', Mirrored W (s.commit () (family.release scopeId mac .na s.leases) .idle events)
      ⟨w.gathered, (notices W s w.gathered (.task (.release scopeId mac .na ciaddr))).foldl
        W.deliver w.db⟩ t' := by
  have hnam : ∀ row, row ∈ (family.release scopeId mac .na s.leases).rows ∨ row ∈ w.gathered →
      ∀ hostname, row.hostname = some hostname → W.Names row.scopeId hostname row.client := by
    intro row hrow
    rw [hgat, or_iff_left not_mem_nil, mem_release] at hrow
    exact h.named row (.inl hrow.1)
  -- by tidiness the leases that go are those that the notice is about
  have hsho : ∀ row, Shown (family.release scopeId mac .na s.leases) w.gathered row ↔
      Shown s.leases w.gathered row ∧ ¬∃ gone, W.first (released scopeId mac s.leases) = some gone ∧
        ciaddr = some row.ip ∧ W.nameOf row = W.nameOf gone := by
    intro row
    rw [Shown, Shown, hgat, or_iff_left not_mem_nil, or_iff_left not_mem_nil, mem_release]
    constructor
    · rintro ⟨⟨hrow, hnot⟩, huse⟩
      exact ⟨⟨hrow, huse⟩, fun hgone => hnot ((htidy row hrow huse).mpr hgone)⟩
    · rintro ⟨⟨hrow, huse⟩, hnot⟩
      exact ⟨⟨hrow, fun hmch => hnot ((htidy row hrow huse).mp hmch)⟩, huse⟩
  by_cases hpos : ∃ gone hostname ip, W.first (released scopeId mac s.leases) = some gone ∧
      gone.hostname = some hostname ∧ ciaddr = some ip
  · obtain ⟨gone, hostname, ip, hfst, hhost, rfl⟩ := hpos
    obtain ⟨hgone, hmch⟩ := mem_filter.mp (W.first_mem hfst)
    obtain ⟨rfl, rfl⟩ := of_decide_eq_true hmch
    have hname : W.nameOf gone = some (W.name hostname) := by rw [World.nameOf, hhost]; rfl
    refine ⟨t.expire (W.name hostname) (ipv4Text ip), ?_, fun name ip' => ?_, hnam,
      fun _ => hgat, trivial⟩
    · simp only [notices, hfst, bind_some, hhost]
      exact represents_expire h.represents (h.named gone (.inl hgone) hostname hhost)
    · rw [Hosts.expire_eq_some_iff, h.shows, ← exists_and_right]
      refine exists_congr fun row => ?_
      show _ ↔ Shown (family.release gone.scopeId gone.client .na s.leases) w.gathered row ∧ _
      rw [hsho]
      have hiff : ∀ {name ip'}, W.nameOf row = some name → ipv4Text row.ip = ip' →
          ((∃ gone', W.first (released gone.scopeId gone.client s.leases) = some gone' ∧
            some ip = some row.ip ∧ W.nameOf row = W.nameOf gone') ↔
              name = W.name hostname ∧ ip' = ipv4Text ip) := by
        rintro name _ hrn rfl
        simp only [hfst, some_inj, exists_eq_left', hrn, hname]
        rw [and_comm, ipv4Text_injective.eq_iff, eq_comm (a := ip)]
      constructor
      · rintro ⟨⟨hrow, hrn, hrowI⟩, hnot⟩
        exact ⟨⟨hrow, fun hgone => hnot ((hiff hrn hrowI).mp hgone)⟩, hrn, hrowI⟩
      · rintro ⟨⟨hrow, hnot⟩, hrn, hrowI⟩
        exact ⟨⟨hrow, hrn, hrowI⟩, fun hgone => hnot ((hiff hrn hrowI).mpr hgone)⟩
  · -- nothing is posted, and no named lease goes
    have hnone : notices W s w.gathered (.task (.release scopeId mac .na ciaddr)) = [] := by
      cases ciaddr with
      | none => rfl
      | some ip =>
        simp only [notices]
        split
        · rename_i hostname hbind
          obtain ⟨gone, hfst, hhost⟩ := bind_eq_some_iff.mp hbind
          exact absurd ⟨gone, hostname, ip, hfst, hhost, rfl⟩ hpos
        · rfl
    rw [hnone]
    refine ⟨t, h.keep (fun row => ?_) hnam (fun _ => hgat) trivial⟩
    rw [hsho, and_iff_left_iff_imp]
    rintro hrow ⟨gone, hfst, hip, hname⟩
    obtain ⟨hostname, -, hrn⟩ := nameOf_eq_some (W := W) hrow.2
    rw [hrn] at hname
    obtain ⟨hostname', hhost', -⟩ := map_eq_some_iff.mp hname.symm
    exact hpos ⟨gone, hostname', row.ip, hfst, hhost', hip⟩

/-- **The end of a sweep.**  The names of the rows that it gathered are cleared. -/
theorem Mirrored.sweepEnd (h : Mirrored W s w t) (hsub : ∀ row ∈ T.rows, row ∈ s.leases.rows)
    (hact : ∀ row ∈ s.leases.rows, row.state = .active → row ∈ T.rows)
    (htidy : ∀ gone ∈ w.gathered, gone.hostname.isSome = true →
      (s.snapshot ()).scopes.any (·.id = gone.scopeId) = true ∧
        ∀ row ∈ s.leases.rows, InUse row → ¬(W.nameOf row = W.nameOf gone ∧ row.ip = gone.ip)) :
    ∃ t', Mirrored W (s.commit () T .idle events)
      ⟨[], (notices W s w.gathered (.freeing called)).foldl W.deliver w.db⟩ t' := by
  -- every gathered lease with a name is told, since its scope is loaded
  have hpos : ∀ gone, gone ∈ (w.gathered.filter fun row =>
      row.hostname.isSome && (s.snapshot ()).scopes.any (·.id = row.scopeId)) ↔
        gone ∈ w.gathered ∧ gone.hostname.isSome = true := by
    intro gone
    rw [mem_filter, Bool.and_eq_true]
    exact and_congr_right fun hgone => and_iff_left_of_imp fun hsome => (htidy gone hgone hsome).1
  obtain ⟨t', hrep, hiff⟩ := represents_expires h.represents fun gone hgone =>
    have hmem := (hpos gone).mp hgone
    ⟨hmem.2, h.named gone (.inr hmem.1)⟩
  refine ⟨t', hrep, fun name ip => ?_, fun row hrow => ?_, fun _ => rfl, trivial⟩
  · rw [hiff, h.shows]
    show _ ↔ ∃ row, Shown T [] row ∧ _
    constructor
    · rintro ⟨⟨row, ⟨hrow | hrow, huse⟩, hname, hip⟩, hnot⟩
      · exact ⟨row, ⟨.inl (hact row hrow huse.1), huse⟩, hname, hip⟩
      · exact absurd ⟨hname, hip⟩ (hnot row ((hpos row).mpr ⟨hrow, huse.2⟩))
    · rintro ⟨row, ⟨hrow, huse⟩, hname, rfl⟩
      have hrow := hsub row (hrow.resolve_right not_mem_nil)
      refine ⟨⟨row, ⟨.inl hrow, huse⟩, hname, rfl⟩, fun gone hgone hsame => ?_⟩
      obtain ⟨hgone, hsome⟩ := (hpos gone).mp hgone
      exact (htidy gone hgone hsome).2 row hrow huse
        ⟨hname.trans hsame.1.symm, (ipv4Text_injective hsame.2).symm⟩
  · exact h.named row (.inl (hsub row (hrow.resolve_right not_mem_nil)))

theorem mem_upsert {new : Lease UInt32 Mac} :
    row ∈ (s.leases.upsert new).rows ↔ row = new ∨ row ∈ s.leases.rows ∧ row.key ≠ new.key := by
  simp only [Store.upsert, mem_append, mem_filter, decide_eq_true_eq, mem_singleton]
  exact or_comm

theorem mem_renewRow {job : Job Scope Mac} {began expires : ℤ} {old : Lease UInt32 Mac}
    (hold : s.leases.find (job.scope.id, ip) = some old) :
    row ∈ (family.renewRow job ip began expires s.leases).rows ↔
      row = { old with hostname := job.hostname, expiresAt := expires, allocatedAt := began } ∨
        row ∈ s.leases.rows ∧ row.key ≠ old.key := by
  have hkey : old.key = (job.scope.id, ip) := Store.key_of_find hold
  rw [Store.mem_rows_iff, Family.find_renewRow, Store.mem_rows_iff, hkey]
  show (if (job.scope.id, ip) = row.key then _ else _) = _ ↔ _
  split
  · rename_i heq
    rw [← heq, hold, map_some, some_inj, eq_comm]
    simp
  · rename_i hne
    constructor
    · exact fun hrow => .inr ⟨hrow, fun heq => hne heq.symm⟩
    · rintro (rfl | ⟨hrow, -⟩)
      · exact absurd hkey.symm hne
      · exact hrow

theorem Known.of_rests (h : q.Rests) : Known T q := by
  cases h <;> exact trivial

theorem Mirrored.quiet (h : Mirrored W s w t) (hgat : w.gathered = []) (hq : q.Rests)
    (hrows : ∀ row, InUse row → (row ∈ T.rows ↔ row ∈ s.leases.rows))
    (hfrom : ∀ row ∈ T.rows, row.hostname = none ∨ ∃ old ∈ s.leases.rows,
      row.hostname = old.hostname ∧ row.scopeId = old.scopeId ∧ row.client = old.client) :
    Mirrored W (s.commit () T q events) ⟨w.gathered, w.db⟩ t := by
  refine h.keep (fun row => and_congr_left fun huse => or_congr_left (hrows row huse)) ?_
    (fun _ => hgat) (.of_rests hq)
  rintro row (hrow | hrow) hostname hhost
  · rcases hfrom row hrow with hnone | ⟨old, hold, hname, hsc, hcl⟩
    · rw [hnone] at hhost
      exact nomatch hhost
    · rw [hsc, hcl]
      exact h.named old (.inl hold) hostname (hname ▸ hhost)
  · exact h.named row (.inr hrow) hostname hhost

theorem Mirrored.decline (h : Mirrored W s w t) (hgat : w.gathered = [])
    (htidy : ∀ row ∈ s.leases.rows, heldBy scopeId ip mac row = true → row.hostname = none) :
    Mirrored W (s.commit () (Dhcp.decline scopeId ip mac s.leases) .idle events)
      ⟨w.gathered, w.db⟩ t := by
  refine h.quiet hgat .idle (fun row huse => ?_) fun row hrow => ?_
  · show row ∈ s.leases.rows.map (fun row => if heldBy scopeId ip mac row then _ else row) ↔ _
    rw [List.mem_map]
    constructor
    · rintro ⟨old, hold, rfl⟩
      split at huse
      · cases huse.1
      · rename_i hheld
        rwa [if_neg hheld]
    · intro hrow
      refine ⟨row, hrow, if_neg fun hheld => ?_⟩
      exact absurd huse.2 (by simp [htidy row hrow hheld])
  · obtain ⟨old, hold, rfl⟩ := List.mem_map.mp hrow
    refine .inr ⟨old, hold, ?_⟩
    split <;> exact ⟨rfl, rfl, rfl⟩

theorem Mirrored.mark (h : Mirrored W s w t) (hgat : w.gathered = []) (hq : q.Rests)
    (hfree : s.leases.find (scopeId, ip) = none) :
    Mirrored W (s.commit () (family.markDeclined scopeId ip s.now s.leases) q events)
      ⟨w.gathered, w.db⟩ t := by
  -- a conflict is recorded where no row is
  have hmem : ∀ row, row ∈ (family.markDeclined scopeId ip s.now s.leases).rows ↔
      row = ⟨scopeId, ip, family.nobody, none, .declined, s.now, s.now⟩ ∨ row ∈ s.leases.rows := by
    intro row
    rw [Store.mem_rows_iff, Family.find_markDeclined, Store.mem_rows_iff]
    split
    · rename_i heq
      rw [← heq, hfree, map_none, getD_none, some_inj, eq_comm]
      simp
    · rename_i hne
      refine (or_iff_right fun heq => hne ?_).symm
      rw [heq]
      rfl
  refine h.quiet hgat hq (fun row huse => ?_) fun row hrow => ?_
  · rw [hmem]
    refine or_iff_right fun heq => ?_
    rw [heq] at huse
    cases huse.1
  · rcases (hmem row).mp hrow with rfl | hrow
    · exact .inl rfl
    · exact .inr ⟨row, hrow, rfl, rfl, rfl⟩

theorem Mirrored.sweepExpire (h : Mirrored W s w t) :
    Mirrored W (s.commit () (expireRows batch s.leases) (.purging called) events)
      ⟨w.gathered ++ s.leases.rows.filter batch, w.db⟩ t := by
  have hmem : ∀ row, row ∈ (expireRows batch s.leases).rows ↔
      ∃ old ∈ s.leases.rows, (if batch old then { old with state := .expired } else old) = row :=
    fun row => List.mem_map
  -- an expired row is in use no more, but it has been gathered
  refine h.keep (fun row => and_congr_left fun huse => ?_) ?_ nofun trivial
  · rw [hmem, mem_append, mem_filter]
    constructor
    · rintro (⟨old, hold, rfl⟩ | hrow | ⟨hrow, -⟩)
      · split at huse
        · exact nomatch huse.1
        · rename_i hnot
          rw [if_neg hnot]
          exact .inl hold
      · exact .inr hrow
      · exact .inl hrow
    · rintro (hrow | hrow)
      · by_cases hin : batch row = true
        · exact .inr (.inr ⟨hrow, hin⟩)
        · exact .inl ⟨row, hrow, if_neg hin⟩
      · exact .inr (.inl hrow)
  · rintro row (hrow | hrow) hostname hhost
    · obtain ⟨old, hold, rfl⟩ := (hmem row).mp hrow
      have hsame : (if batch old then { old with state := .expired } else old).hostname =
          old.hostname ∧ (if batch old then { old with state := .expired } else old).scopeId =
          old.scopeId ∧ (if batch old then { old with state := .expired } else old).client =
          old.client := by
        split <;> exact ⟨rfl, rfl, rfl⟩
      rw [hsame.2.1, hsame.2.2]
      exact h.named old (.inl hold) hostname (hsame.1 ▸ hhost)
    · rcases mem_append.mp hrow with hrow | hrow
      · exact h.named row (.inr hrow) hostname hhost
      · exact h.named row (.inl (mem_of_mem_filter hrow)) hostname hhost

theorem Mirrored.sweepPurge (h : Mirrored W s w t)
    (hbat : ∀ row, batch row = true → row.state = .declined) :
    Mirrored W (s.commit () (s.leases.delete batch) (.freeing called) events)
      ⟨w.gathered ++ s.leases.rows.filter batch, w.db⟩ t := by
  have hmem : ∀ row, row ∈ (s.leases.delete batch).rows ↔
      row ∈ s.leases.rows ∧ batch row = false := by
    intro row
    simp [Store.delete]
  -- declined leases are gathered too, but they are not shown
  refine h.keep (fun row => and_congr_left fun huse => ?_) ?_ (fun hq => by cases hq) trivial
  · have hnot : batch row = false := by
      rw [Bool.eq_false_iff]
      exact fun hin => absurd ((hbat row hin).symm.trans huse.1) (by decide)
    rw [hmem, mem_append, mem_filter, hnot]
    simp
  · rintro row (hrow | hrow) hostname hhost
    · exact h.named row (.inl ((hmem row).mp hrow).1) hostname hhost
    · rcases mem_append.mp hrow with hrow | hrow
      · exact h.named row (.inr hrow) hostname hhost
      · exact h.named row (.inl (mem_of_mem_filter hrow)) hostname hhost

variable {srv : Unit → Server} {sweep : Sweep}

/-- **What is published follows the leases, statement by statement.** -/
theorem Mirrored.write (h : Mirrored W s w t) (hnam : Named W s (.write ()))
    (htidy : TidyWrite W s w (s.phase ()))
    (hwr : Writes (daemon srv sweep) s.now s.leases (s.phase ()) T q events) :
    ∃ t', Mirrored W (s.commit () T q events)
      (watchDdns W s (.write ()) (s.commit () T q events) w) t' := by
  have hkno := h.known
  have hgat := h.gathered
  simp only [Named] at hnam
  simp only [watchDdns]
  generalize s.phase () = p at hwr hkno hgat hnam htidy
  cases hwr with
  | reply =>
    exact ⟨t, h.quiet (hgat rfl) .idle (fun row _ => Iff.rfl)
      fun row hrow => .inr ⟨row, hrow, rfl, rfl, rfl⟩⟩
  | @insert job answer began expires ip =>
    obtain rfl : answer = .grant := hkno
    exact h.grant (family.leaseRow job ip began expires) (fun row => mem_upsert) rfl
      (hnam job ip rfl) (htidy.grant job ip rfl) (hgat rfl)
  | @renew job answer began expires ip =>
    obtain ⟨rfl, old, hold, hown⟩ := hkno
    have hkey : old.key = (job.scope.id, ip) := Store.key_of_find hold
    obtain ⟨hsc, hip⟩ := Prod.mk.inj hkey
    -- the UPDATE keeps the address and the client of the row
    have hnoti : notice .add old.scopeId old.ip job.hostname old.client =
        notice .add job.scope.id ip job.hostname job.client := by
      rw [hsc, hip, hown.2.1]
    show ∃ t', Mirrored W _ ⟨w.gathered, W.deliver w.db
      (notice .add job.scope.id ip job.hostname job.client)⟩ t'
    rw [← hnoti]
    refine h.grant { old with
      hostname := job.hostname, expiresAt := expires, allocatedAt := began }
      (fun row => mem_renewRow hold) hown.2.2.2 (fun hostname hhost => ?_) ?_ (hgat rfl)
    · show W.Names old.scopeId hostname old.client
      rw [hsc, hown.2.1]
      exact hnam job ip rfl hostname hhost
    · intro row hrow huse
      show row.key = old.key ↔ _
      rw [hkey]
      exact htidy.grant job ip rfl row hrow huse
  | @confirm job expires ip =>
    exact h.grant (family.leaseRow job ip s.now expires) (fun row => mem_upsert) rfl
      (hnam job ip rfl) (htidy.grant job ip rfl) (hgat rfl)
  | mark => exact ⟨t, h.mark (hgat rfl) nextPeek_rests hkno⟩
  | @release scopeId mac leaseType ciaddr =>
    obtain rfl : leaseType = .na := hkno
    exact h.release (hgat rfl) (htidy.release scopeId mac .na ciaddr rfl)
  | @decline scopeId mac ip =>
    exact ⟨t, h.decline (hgat rfl) (htidy.decline scopeId mac ip rfl)⟩
  | @expire called batch hbat =>
    have hcha : changedRows s.leases (expireRows batch s.leases) = s.leases.rows.filter batch :=
      changedRows_expireRows hbat
    refine ⟨t, ?_⟩
    simp only [gatheredAfter]
    rw [show (s.commit () (expireRows batch s.leases) (.purging called) []).leases =
      expireRows batch s.leases from rfl, hcha]
    exact h.sweepExpire
  | @purge called batch hbat =>
    refine ⟨t, ?_⟩
    simp only [gatheredAfter]
    rw [show (s.commit () (s.leases.delete batch) (.freeing called) []).leases =
      s.leases.delete batch from rfl, changedRows_delete]
    exact h.sweepPurge fun row hin => (of_decide_eq_true (hbat.1 row hin)).1
  | @free called batch hbat =>
    refine h.sweepEnd (fun row hrow => mem_of_mem_filter hrow) (fun row hrow hact => ?_)
      (htidy.sweep called rfl)
    -- only expired rows are freed
    have hnot : batch row = false := by
      rw [Bool.eq_false_iff]
      intro hin
      have hexp := (of_decide_eq_true (hbat.1 row hin)).1
      exact absurd (hexp.symm.trans hact) (by decide)
    exact mem_filter.mpr ⟨hrow, by simp [hnot]⟩

end Writes

/-! ### Every step -/

section Steps

variable {W : World} {t : Hosts} {s s' : State Unit Unit Scope UInt32 Mac} {w : Posted}
  {srv : Unit → Server} {sweep : Sweep} {l : Label Unit Unit Scope UInt32 Mac}
variable {now : ℤ} {T : Leases UInt32 Mac} {p q : Phase Scope UInt32 Mac}

theorem known_handle {server : Server} {snapshot : Snapshot Scope UInt32} {scope : Scope}
    {msg : Message} {task : Task Scope UInt32 Mac}
    (h : task ∈ handle server snapshot scope msg now) : Known T (.task task) := by
  simp only [handle] at h
  -- DISCOVER, REQUEST, RELEASE, DECLINE, and the two types without a task
  split at h
  · obtain rfl := mem_singleton.mp h
    cases family.reservationFor snapshot scope.id (macFromChaddr msg.chaddr) with
    | none => exact ⟨_, _, rfl⟩
    | some => exact trivial
  · split at h
    · simp at h
    · cases hres : family.reservationFor snapshot scope.id (macFromChaddr msg.chaddr) with
      | none =>
        rw [hres] at h
        obtain ⟨tx, htx, rfl⟩ := mem_handleRequest_none h
        exact htx
      | some =>
        rw [hres] at h
        simp only [handleRequest] at h
        split at h
        · simp at h
        · obtain rfl := mem_singleton.mp h
          exact trivial
  · split at h
    · simp at h
    · obtain rfl := mem_singleton.mp h
      rfl
  · obtain ⟨ip, -, rfl⟩ := map_eq_some_iff.mp (mem_toList.mp h)
    exact trivial
  · simp at h
  · simp at h

theorem Known.read {reservations : List StaticLease} (hp : Known T p)
    (h : Reads family now T reservations p q) :
    Known T q := by
  cases h with
  | notFound =>
    obtain ⟨probe, attempts, rfl⟩ := hp
    exact trivial
  | @peek job probe excluded left draw ip hscan =>
    split
    · exact (family.scan_free hscan).2.1
    · exact trivial
  | answered | start | lockAllocate | lockClaim | unselected | scanned | unheld | unreserved =>
    exact hp
  | @selected job answer began expires row hrow hown =>
    exact ⟨hp, row, T.find_eq_some_iff.mpr ⟨hrow, Prod.ext hown.1 rfl⟩, hown⟩
  | collided =>
    rw [nextScan]
    split
    · exact trivial
    · exact hp
  | undelegated hpd => cases hpd
  | _ => exact trivial

theorem Known.fail (hp : Known T p) (h : Fails p q) : Known T q := by
  cases h with
  | abort => exact trivial
  | lookup =>
    obtain ⟨probe, attempts, rfl⟩ := hp
    exact trivial
  | mark => exact .of_rests nextPeek_rests

theorem Mirrored.set (h : Mirrored W s w t) {gathered : List (Lease UInt32 Mac)}
    (hkno : Known s.leases q) (hsub : ∀ row ∈ gathered, row ∈ w.gathered)
    (hsho : ∀ row ∈ w.gathered, InUse row → row ∈ gathered)
    (hgat : q.sweeping = false → gathered = []) :
    Mirrored W (s.set () q) { w with gathered := gathered } t where
  represents := h.represents
  shows name ip := by
    rw [h.shows]
    refine exists_congr fun row => and_congr_left fun _ => and_congr_left fun huse => ?_
    exact or_congr_right ⟨fun hrow => hsho row hrow huse, hsub row⟩
  named row hrow := h.named row (hrow.imp_right (hsub row))
  gathered hq := hgat hq
  known := hkno

theorem Mirrored.move (h : Mirrored W s w t) (hp : (s.phase ()).sweeping = false)
    (hkno : Known s.leases q) :
    Mirrored W (s.set () q) w t :=
  h.set hkno (fun _ hrow => hrow) (fun _ hrow _ => hrow) fun _ => h.gathered hp

/-- **Every step keeps what is published in line.** -/
theorem Mirrored.step (h : Mirrored W s w t) (hnam : Named W s l) (htidy : Tidy W s w l)
    (hstep : Step (daemon srv sweep) s l s') : ∃ t', Mirrored W s' (watchDdns W s l s' w) t' := by
  cases hstep with
  | tick | edit | refresh => exact ⟨t, h.represents, h.shows, h.named, h.gathered, h.known⟩
  | receive hidle hsc htask =>
    exact ⟨t, h.move (by rw [hidle]; rfl) (known_handle htask)⟩
  | sweep hidle => exact ⟨t, h.move (by rw [hidle]; rfl) trivial⟩
  | read hread => exact ⟨t, h.move hread.not_sweeping (h.known.read hread)⟩
  | write hwr => exact h.write hnam htidy hwr
  | @fail i q hfail =>
    -- a sweep that fails forgets what it gathered, which `htidy` allows for dead rows only
    refine ⟨t, h.set (h.known.fail hfail) ?_ ?_ ?_⟩
    · intro row hrow
      split at hrow
      · simp at hrow
      · exact hrow
    · intro row hrow huse
      split
      · rename_i hswe
        exact absurd huse (htidy hswe row hrow)
      · exact hrow
    · intro _
      split
      · rfl
      · rename_i hswe
        exact h.gathered (Bool.eq_false_iff.mpr hswe)

/-- **DDNS mirrors the leases.**  In every run of one server whose grants have valid
names of their own and whose statements end no other named lease than the one they
are posted for, the records that clients own are, between packets, the leases in use
that have a host name. -/
theorem ddns_mirrors_leases {now : ℤ} {scopes : List Scope} {db : ZoneDb}
    (hdb : W.Represents (fun _ => none) db)
    (h : WatchedRun (daemon srv sweep) (watchDdns W) (fun s w l => Named W s l ∧ Tidy W s w l)
      (State.fresh now scopes, ⟨[], db⟩) (s, w)) (hidle : s.phase () = .idle) (name ip o : Str) :
    (∃ r ∈ w.db.records, W.Owned name ip o r) ↔
      ∃ row ∈ s.leases.rows, row.state = .active ∧ W.nameOf row = some name ∧
        ipv4Text row.ip = ip ∧ macFmt W.U row.client.text = some o := by
  have hfre : Mirrored W (State.fresh now scopes) ⟨[], db⟩ fun _ => none := by
    refine ⟨hdb, fun name ip => ⟨fun hip => ?_, ?_⟩, fun row hrow => ?_, fun _ => rfl, trivial⟩
    · cases hip
    · rintro ⟨row, hrow, -⟩
      exact absurd hrow.1 (by simp [State.fresh, Store.empty])
    · exact absurd hrow (by simp [State.fresh, Store.empty])
  obtain ⟨t, hmir⟩ := h.induct (P := fun s w => ∃ t, Mirrored W s w t) ⟨_, hfre⟩
    fun hmir hok hstep => hmir.elim fun t ht => ht.step hok.1 hok.2 hstep
  have hgat : w.gathered = [] := hmir.gathered (by rw [hidle]; rfl)
  -- whose a name is follows from the name
  have howne : ∀ row ∈ s.leases.rows, W.nameOf row = some name →
      ∃ o', macFmt W.U row.client.text = some o' ∧ W.owners name = some o' := by
    intro row hrow hname
    obtain ⟨hostname, hhost, rfl⟩ := map_eq_some_iff.mp hname
    obtain ⟨o', -, howne, hown⟩ := (hmir.named row (.inl hrow) hostname hhost .add 0).owner
    exact ⟨o', howne, hown⟩
  rw [hmir.represents.published_iff, hmir.shows]
  constructor
  · rintro ⟨⟨row, ⟨hrow, hact, -⟩, hname, hip⟩, ho⟩
    rw [hgat, or_iff_left not_mem_nil] at hrow
    obtain ⟨o', hmac, hown⟩ := howne row hrow hname
    obtain rfl : o' = o := some_inj.mp (hown.symm.trans ho)
    exact ⟨row, hrow, hact, hname, hip, hmac⟩
  · rintro ⟨row, hrow, hact, hname, hip, hmac⟩
    obtain ⟨o', hmac', hown⟩ := howne row hrow hname
    obtain rfl : o' = o := some_inj.mp (hmac'.symm.trans hmac)
    have hsome : row.hostname.isSome = true := by
      obtain ⟨hostname, hhost, -⟩ := map_eq_some_iff.mp hname
      rw [hhost]
      rfl
    exact ⟨⟨row, ⟨.inl hrow, hact, hsome⟩, hname, hip⟩, hown⟩

end Steps

/-! ### Examples -/

/-- A zone for the sample scope, where the first client has two names. -/
def sampleWorld : World where
  U := .ascii
  family := .v4
  zone := ⟨"z", none, "lab", .local, true, 300, none⟩
  scopes := [⟨"lan", "red", true, some "z", 300⟩]
  owners name :=
    if name = "pc" ∨ name = "laptop" then some (sampleMac 1).text else none
  family_eq := rfl
  newId issued := List.replicate ((issued.map List.length).sum + 1) '0'
  newId_fresh issued hmem := by
    have hle := single_le_sum (by simp) _ (List.mem_map_of_mem (f := List.length) hmem)
    simp at hle
  first := List.head?
  first_mem := mem_of_mem_head?

/-- The control plane, with that zone and no record. -/
def sampleDb : ZoneDb where
  tenants := ["red"]
  zones := [sampleWorld.zone]
  records := []
  scopes := sampleWorld.scopes
  scopes6 := []
  issued := ["z", "lan"]

theorem sampleDb_represents : sampleWorld.Represents (fun _ => none) sampleDb where
  zone := rfl
  scopes := rfl
  keyed := nofun
  issued := nofun
  owned := nofun
  unknown _ _ := rfl
  rows _ _ _ := .nil

theorem sampleNames {hostname : Str} (h : hostname = "pc" ∨ hostname = "laptop") :
    sampleWorld.Names "lan" hostname (sampleMac 1) := by
  have hval : strip hostname ≠ [] ∧ Control.Zones.validateRecordField (sampleWorld.name hostname) =
      some (sampleWorld.name hostname) ∧ ddnsNameRe (sampleWorld.name hostname) = true ∧
      sampleWorld.owners (sampleWorld.name hostname) = some (sampleMac 1).text := by
    rcases h with rfl | rfl <;> decide +kernel
  have hmac : macFmt sampleWorld.U (sampleMac 1).text = some (sampleMac 1).text := by decide +kernel
  intro kind ip
  exact ⟨rfl, ⟨rfl, by decide⟩, ⟨_, rfl, rfl, rfl, by decide⟩, hval.1, hval.2.1, hval.2.2.1,
    (sampleMac 1).text, by decide, hmac, hval.2.2.2⟩

/-- Grants in the sample network have one of the two names. -/
def sampleNamed (s : State Unit Unit Scope UInt32 Mac) : Label Unit Unit Scope UInt32 Mac → Bool
  | .write i => (granted (s.phase i)).all fun grant =>
    grant.1.scope.id = "lan".toList ∧ grant.1.client = sampleMac 1 ∧
      grant.1.hostname.all (fun name => name = "pc".toList ∨ name = "laptop".toList) = true
  | _ => true

theorem named_of_sampleNamed {s : State Unit Unit Scope UInt32 Mac}
    {l : Label Unit Unit Scope UInt32 Mac} (h : sampleNamed s l = true) :
    Named sampleWorld s l := by
  cases l with
  | write =>
    intro job ip hgra name hname
    rw [sampleNamed, hgra, all_some] at h
    obtain ⟨hsc, hcl, h⟩ := of_decide_eq_true h
    have hsc : job.scope.id = "lan".toList := hsc
    have hcl : job.client = sampleMac 1 := hcl
    rw [hname, all_some, decide_eq_true_eq] at h
    rw [hsc, hcl]
    exact sampleNames h
  | _ => trivial

def sampleNamedClaim (hostname : String) : List (Move Unit Unit Scope UInt32 Mac Message) :=
  .receive () () 0 { sampleRequest 1 0x0A000001 with hostname := some hostname.toList } 0 ::
    (sampleClaim () 1 0x0A000001).tail

/-- A new row is written into an empty table, and nothing fails. -/
def sampleTidy (s : State Unit Unit Scope UInt32 Mac) : Label Unit Unit Scope UInt32 Mac → Bool
  | .write i => s.leases.rows.isEmpty && (s.phase i matches .inserting ..)
  | .fail _ => false
  | _ => true

/-- A lease with a host name is published. -/
theorem named_lease_published : ∃ (s : State Unit Unit Scope UInt32 Mac) (w : Posted),
    WatchedRun sampleDaemon (watchDdns sampleWorld)
      (fun s w l => Named sampleWorld s l ∧ Tidy sampleWorld s w l)
      (State.fresh 0 [sampleScope], ⟨[], sampleDb⟩) (s, w) ∧ s.phase () = .idle ∧
    ∃ r ∈ w.db.records,
      sampleWorld.Owned "pc".toList "10.0.0.1".toList (sampleMac 1).text r := by
  -- the table is empty when the row is written, so nothing else is shown under the name
  have hok : ∀ (s : State Unit Unit Scope UInt32 Mac) (w : Posted)
      (l : Label Unit Unit Scope UInt32 Mac),
      (sampleNamed s l && sampleTidy s l) = true →
        Named sampleWorld s l ∧ Tidy sampleWorld s w l := by
    intro s w l hl
    obtain ⟨hnam, hl⟩ := Bool.and_eq_true_iff.mp hl
    refine ⟨named_of_sampleNamed hnam, ?_⟩
    cases l with
    | write =>
      obtain ⟨hrows, hph⟩ := Bool.and_eq_true_iff.mp hl
      rw [List.isEmpty_iff] at hrows
      rw [Tidy]
      split at hph
      · rename_i heq
        rw [heq]
        refine ⟨fun _ _ _ row hrow => absurd (hrows ▸ hrow) not_mem_nil, ?_, ?_, ?_⟩
        all_goals
          intros
          contradiction
      · simp at hph
    | fail => cases hl
    | _ => trivial
  obtain ⟨⟨s, w⟩, hrun, hidle, row, hrow, hact, hname, hip, hmac⟩ :=
    exists_replayWatched (D := sampleDaemon) (W := watchDdns sampleWorld)
      (a := (State.fresh 0 [sampleScope], ⟨[], sampleDb⟩))
      (P := fun b => b.1.phase () = .idle ∧ ∃ row ∈ b.1.leases.rows, row.state = .active ∧
        sampleWorld.nameOf row = some "pc".toList ∧ ipv4Text row.ip = "10.0.0.1".toList ∧
        macFmt sampleWorld.U row.client.text = some (sampleMac 1).text)
      hok (sampleNamedClaim "pc") (by decide +kernel)
  exact ⟨s, w, hrun, hidle, (ddns_mirrors_leases sampleDb_represents hrun hidle _ _ _).mpr
    ⟨row, hrow, hact, hname, hip, hmac⟩⟩

/-- A client renews its lease under another name, and the record of the first name
stays. -/
theorem renamed_leaves_stale :
    sampleWorld.Represents (fun _ => none) sampleDb ∧
    ∃ (s : State Unit Unit Scope UInt32 Mac) (w : Posted),
      WatchedRun sampleDaemon (watchDdns sampleWorld) (fun s _ l => Named sampleWorld s l)
        (State.fresh 0 [sampleScope], ⟨[], sampleDb⟩) (s, w) ∧ s.phase () = .idle ∧
      (∃ r ∈ w.db.records,
        sampleWorld.Owned "pc".toList "10.0.0.1".toList (sampleMac 1).text r) ∧
      ∀ row ∈ s.leases.rows, sampleWorld.nameOf row ≠ some "pc".toList := by
  obtain ⟨⟨s, w⟩, hrun, hsta⟩ := exists_replayWatched (D := sampleDaemon)
    (W := watchDdns sampleWorld) (a := (State.fresh 0 [sampleScope], ⟨[], sampleDb⟩))
    (P := fun b => b.1.phase () = .idle ∧
      (∃ r ∈ b.2.db.records,
        sampleWorld.Owned "pc".toList "10.0.0.1".toList (sampleMac 1).text r) ∧
      ∀ row ∈ b.1.leases.rows, sampleWorld.nameOf row ≠ some "pc".toList)
    (K := fun s _ l => sampleNamed s l) (fun _ _ _ => named_of_sampleNamed)
    (sampleNamedClaim "pc" ++ sampleNamedClaim "laptop") (by decide +kernel)
  exact ⟨sampleDb_represents, s, w, hrun, hsta⟩

end Dhcp4
