/-
What DHCPv6 promises, and what it has recorded.

A REPLY to a REQUEST, RENEW or REBIND gives an address for the scope's valid
lifetime, counted from when it is sent.  Four ways lead there over a statement that
writes the expiry; a RENEW or REBIND that names no address only looks the client's
lease up, and promises the full lifetime whatever is left of it.

* `Serves` — the daemons, and replies that go out some time after their statement;
* `Recorded.write`, `recorded_of_written` — what a statement leaves of a promise, and
  what it promises itself;
* `promises_recorded` — every promise has its row, in every run in which leases that are
  looked up are fresh, rows behind a reply are left alone and replies are prompt;
* `renewal_unrecorded` — a RENEW that names no address, late in its lease.
-/
import MantisDns.Dhcp6

open Text Table Dhcp List Option

namespace Dhcp6

/-! ### Replies -/

/-- The address of an IA_NA in a REPLY. -/
structure Promise where
  scopeId : Str
  ip : BitVec 128
  duid : Duid
  /-- The valid lifetime, in seconds. -/
  valid : ℤ
  /-- When the expiry was computed, or the lease was looked up. -/
  since : ℤ
  deriving DecidableEq

def Promise.key (p : Promise) : Str × Key := (p.scopeId, .na p.ip)

/-- What a statement promises. -/
def written : Phase Scope Key Duid → Option Promise
  | .inserting job .grant _ expires (.na ip) | .renewing job .grant _ expires (.na ip)
  | .task (.confirm job expires (.na ip)) =>
    some ⟨job.scope.id, ip, job.client, valid job.scope, expires - seconds job.leaseSeconds⟩
  | _ => none

/-- What the lookup of a RENEW or REBIND promises. -/
def lookedUp (now : ℤ) : Phase Scope Key Duid → Phase Scope Key Duid → Option Promise
  | .task (.lookup _ .renew), .task (.reply job .grant (.na ip)) =>
    some ⟨job.scope.id, ip, job.client, valid job.scope, now⟩
  | _, _ => none

variable {ι ν : Type}

def promised (s : State ι ν Scope Key Duid) (l : Label ι ν Scope Key Duid)
    (t : State ι ν Scope Key Duid) : Option Promise :=
  match l with
  | .write i => written (s.phase i)
  | .read i => lookedUp s.now (s.phase i) (t.phase i)
  | _ => none

inductive Act (ι ν : Type)
  | step (l : Label ι ν Scope Key Duid)
  /-- A reply is sent, at whatever time. -/
  | send (p : Promise)

section Serves

variable [DecidableEq ι] [DecidableEq ν]

/-- The daemons, with the replies that are not sent yet. -/
inductive Serves (D : Daemon ν Scope Key Duid Message)
    (a : State ι ν Scope Key Duid × List Promise) :
    Act ι ν → State ι ν Scope Key Duid × List Promise → Prop
  | step {l : Label ι ν Scope Key Duid} {t : State ι ν Scope Key Duid} (h : Step D a.1 l t) :
    Serves D a (.step l) (t, a.2 ++ (promised a.1 l t).toList)
  | send {p : Promise} (h : p ∈ a.2) : Serves D a (.send p) (a.1, a.2.erase p)

def ServesWhile (D : Daemon ν Scope Key Duid Message)
    (ok : State ι ν Scope Key Duid × List Promise → Act ι ν → Prop) :
    State ι ν Scope Key Duid × List Promise → State ι ν Scope Key Duid × List Promise → Prop :=
  Relation.ReflTransGen fun a b => ∃ act, ok a act ∧ Serves D a act b

end Serves

/-- If the reply is sent now, its row is there: up to a second, for the time it promises. -/
def Kept (s : State ι ν Scope Key Duid) (p : Promise) : Prop :=
  ∃ row, s.leases.find p.key = some row ∧ row.client = p.duid ∧ row.state = .active ∧
    s.now + seconds p.valid ≤ row.expiresAt + seconds 1

/-! ### The conditions -/

/-- A statement of the client itself, which does not shorten the lease. -/
inductive Extends : Phase Scope Key Duid → Lease Key Duid → Prop
  | insert {job : Job Scope Duid} {answer : Answer} {began expires : ℤ} {ip : Key}
      {row : Lease Key Duid} (hclient : job.client = row.client)
      (hexpires : row.expiresAt ≤ expires) :
    Extends (.inserting job answer began expires ip) row
  | renew {job : Job Scope Duid} {answer : Answer} {began expires : ℤ} {ip : Key}
      {row : Lease Key Duid} (hclient : job.client = row.client)
      (hexpires : row.expiresAt ≤ expires) :
    Extends (.renewing job answer began expires ip) row
  | confirm {job : Job Scope Duid} {expires : ℤ} {ip : Key} {row : Lease Key Duid}
      (hclient : job.client = row.client) (hexpires : row.expiresAt ≤ expires) :
    Extends (.task (.confirm job expires ip)) row

/-- The reply is not older than a second. -/
def Promise.Timely (now : ℤ) (p : Promise) : Prop := now ≤ p.since + seconds 1

/-- A renewal under the lock still finds the lease that it has selected. -/
def RenewsOwn (T : Leases Key Duid) : Phase Scope Key Duid → Prop
  | .renewing job .grant _ _ ip =>
    ∃ row, T.find (job.scope.id, ip) = some row ∧ row.client = job.client ∧ row.state = .active
  | _ => True

/-- A lease that is looked up for a RENEW or REBIND runs for the full lifetime. -/
def FindsFresh (now : ℤ) (T : Leases Key Duid) : Phase Scope Key Duid → Prop
  | .task (.lookup job .renew) => ∀ row ∈ T.rows, family.OwnActive job row →
      now + seconds (valid job.scope) ≤ row.expiresAt
  | _ => True

/-- Lookups find fresh leases, the row behind a timely reply is not touched but to extend it,
and replies are sent in time. -/
def Prompt (D : Daemon ν Scope Key Duid Message)
    (a : State ι ν Scope Key Duid × List Promise) : Act ι ν → Prop
  | .step (.read i) => FindsFresh a.1.now a.1.leases (a.1.phase i)
  | .step (.write i) => RenewsOwn a.1.leases (a.1.phase i) ∧
      ∀ p ∈ a.2, p.Timely a.1.now → ∀ row, a.1.leases.find p.key = some row →
        Touches D a.1.now (a.1.phase i) row → Extends (a.1.phase i) row
  | .step _ => True
  | .send p => p.Timely a.1.now

/-! ### What is recorded -/

variable {D : Daemon ν Scope Key Duid Message} {now : ℤ} {T T' : Leases Key Duid}
  {ph q : Phase Scope Key Duid} {events : List (Event Key Duid)} {p : Promise}

/-- The row behind a promise. -/
def Recorded (T : Leases Key Duid) (p : Promise) : Prop :=
  ∃ row, T.find p.key = some row ∧ row.client = p.duid ∧ row.state = .active ∧
    p.since + seconds p.valid ≤ row.expiresAt

theorem Recorded.kept {s : State ι ν Scope Key Duid} (h : Recorded s.leases p)
    (htim : p.Timely s.now) : Kept s p := by
  obtain ⟨row, hrow, hclient, hst, hexpires⟩ := h
  refine ⟨row, hrow, hclient, hst, ?_⟩
  have htime : s.now ≤ p.since + seconds 1 := htim
  omega

/-- **Statements spare a recorded promise** if they do not touch its row, or extend it. -/
theorem Recorded.write (h : Recorded T p) (hwr : Writes D now T ph T' q events)
    (hok : ∀ row, T.find p.key = some row → Touches D now ph row → Extends ph row) :
    Recorded T' p := by
  obtain ⟨row, hrow, hclient, hst, hexpires⟩ := h
  have hkey : row.key = p.key := Store.key_of_find hrow
  -- a statement that touches the row has to extend it
  by_cases htou : Touches D now ph row
  · have hext := hok row hrow htou
    cases hext with
    | insert hown hlon =>
      cases hwr
      cases htou with
      | insert hat =>
        refine ⟨_, (Store.find_upsert _).trans (if_pos (hat.symm.trans hkey)), ?_, rfl, ?_⟩
        · exact hown.trans hclient
        · exact hexpires.trans hlon
    | renew hown hlon =>
      cases hwr
      cases htou with
      | renew hat =>
        refine ⟨_, (D.find_renewRow).trans ((if_pos (hat.symm.trans hkey)).trans
          (congrArg _ hrow)), hclient, hst, ?_⟩
        exact hexpires.trans hlon
    | confirm hown hlon =>
      cases hwr
      cases htou with
      | confirm hat =>
        refine ⟨_, (Store.find_upsert _).trans (if_pos (hat.symm.trans hkey)), ?_, rfl, ?_⟩
        · exact hown.trans hclient
        · exact hexpires.trans hlon
  · exact ⟨row, hwr.find_of_not_touches hrow htou, hclient, hst, hexpires⟩

variable {srv : ν → Server} {sweep : Sweep}

/-- **What a statement promises is recorded.** -/
theorem recorded_of_written (hwr : Writes (daemon srv sweep) now T ph T' q events)
    (hp : written ph = some p) (hjob : ∀ job ∈ ph.job, valid job.scope ≤ job.leaseSeconds)
    (hown : RenewsOwn T ph) : Recorded T' p := by
  -- the row is written for the job's time, which is no less than what is told
  have htime : ∀ job : Job Scope Duid, ∀ expires : ℤ, valid job.scope ≤ job.leaseSeconds →
      expires - seconds job.leaseSeconds + seconds (valid job.scope) ≤ expires := by
    intro job expires hle
    simp only [seconds]
    omega
  cases hwr with
  | @insert job answer began expires key =>
    cases answer <;> cases key <;> simp only [written, some_inj, reduceCtorEq] at hp
    subst hp
    exact ⟨_, (Store.find_upsert _).trans (if_pos rfl), rfl, rfl, htime job expires (hjob job rfl)⟩
  | @renew job answer began expires key =>
    cases answer <;> cases key <;> simp only [written, some_inj, reduceCtorEq] at hp
    subst hp
    obtain ⟨row, hrow, hclient, hst⟩ := hown
    exact ⟨_, family.find_renewRow.trans ((if_pos rfl).trans (congrArg _ hrow)), hclient, hst,
      htime job expires (hjob job rfl)⟩
  | @confirm job expires key =>
    cases key <;> simp only [written, some_inj, reduceCtorEq] at hp
    subst hp
    exact ⟨_, (Store.find_upsert _).trans (if_pos rfl), rfl, rfl, htime job expires (hjob job rfl)⟩
  | reply | mark | release | decline | expire | purge | free => simp [written] at hp

theorem recorded_of_lookedUp {reservations : List StaticLease}
    (hread : Reads family now T reservations ph q) (hp : lookedUp now ph q = some p)
    (hfre : FindsFresh now T ph) : Recorded T p := by
  cases hread with
  | @found job mode row hrow hown =>
    cases mode with
    | renew =>
      obtain ⟨hsc, hclient, hna, hst⟩ := hown
      cases hip : row.ip with
      | na =>
        simp only [hip, Lookup.answer, lookedUp, some_inj] at hp
        subst hp
        refine ⟨row, ?_, hclient, hst, hfre row hrow ⟨hsc, hclient, hna, hst⟩⟩
        exact T.find_eq_some_iff.mpr ⟨hrow, Prod.ext hsc hip⟩
      | pd =>
        rw [hip] at hna
        simp [family, Key.leaseType] at hna
    | discover | solicit => simp [lookedUp] at hp
  | @notFound job mode => cases mode <;> simp [afterLookup, lookedUp] at hp
  | _ => simp [lookedUp] at hp

/-! ### Runs -/

section Jobs

variable {scope : Scope} {duid : Duid} {task : Task Scope Key Duid} {j : Job Scope Duid}
variable {reservation : Option (Reservation Key)} {isRequest : Bool} {msg : Message}

/-- A task that is made at this time for this scope. -/
def Made (scope : Scope) (now : ℤ) : Task Scope Key Duid → Prop
  | .reply j _ _ | .lookup j _ | .transact j _ => ∃ duid hostname, j = job scope duid hostname
  | .confirm j expires _ => (∃ duid hostname, j = job scope duid hostname) ∧
      expires = now + seconds j.leaseSeconds
  | .release .. | .decline .. => True

theorem made_of_mem_requestNa {want : Option (BitVec 128)}
    (h : task ∈ requestNa scope duid want reservation isRequest now) : Made scope now task := by
  rw [requestNa.eq_def] at h
  split at h
  · split at h
    · simp at h
    · rw [mem_singleton.mp h]
      exact ⟨⟨duid, _, rfl⟩, rfl⟩
  · split at h
    · rw [mem_singleton.mp h]
      exact ⟨duid, none, rfl⟩
    · simp at h
  · split at h
    all_goals
      rw [mem_singleton.mp h]
      exact ⟨duid, none, rfl⟩

theorem made_of_mem_delegate {answer : BitVec 128 × UInt8 → Answer}
    (h : task ∈ delegate scope duid answer) : Made scope now task := by
  rw [delegate.eq_def] at h
  split at h
  · rw [mem_singleton.mp h]
    exact ⟨duid, none, rfl⟩
  · simp at h

theorem made_of_mem_handleSolicit (h : task ∈ handleSolicit scope duid msg reservation) :
    Made scope now task := by
  rcases mem_append.mp h with hna | hpd
  · split at hna
    · rw [mem_singleton.mp hna]
      cases reservation with
      | some res => exact ⟨duid, res.hostname, rfl⟩
      | none => exact ⟨duid, none, rfl⟩
    · simp at hna
  · split at hpd
    · exact made_of_mem_delegate hpd
    · simp at hpd

theorem made_of_mem_handleRequestLike
    (h : task ∈ handleRequestLike scope duid msg reservation isRequest now) :
    Made scope now task := by
  rcases mem_append.mp h with hna | hpd
  · split at hna
    · exact made_of_mem_requestNa hna
    · simp at hna
  · split at hpd
    · exact made_of_mem_delegate hpd
    · simp at hpd

theorem made_of_mem_handle {server : Server} {snapshot : Snapshot Scope Key}
    (h : task ∈ handle server snapshot scope msg now) : Made scope now task := by
  cases hcid : msg.clientId with
  | none => simp [handle, hcid] at h
  | some =>
    simp only [handle, hcid] at h
    split at h
    · simp at h
    · split at h
      · exact made_of_mem_handleSolicit h
      · exact made_of_mem_handleRequestLike h
      · exact made_of_mem_handleRequestLike h
      · exact made_of_mem_handleRequestLike h
      · rcases mem_append.mp h with hna | hpd
        · obtain ⟨ip, -, rfl⟩ := map_eq_some_iff.mp (mem_toList.mp hna)
          trivial
        · obtain ⟨ip, -, rfl⟩ := map_eq_some_iff.mp (mem_toList.mp hpd)
          trivial
      · obtain ⟨ip, -, rfl⟩ := map_eq_some_iff.mp (mem_toList.mp h)
        trivial
      all_goals simp at h

theorem Made.leaseSeconds (h : Made scope now task) (hj : j ∈ (Phase.task task).job) :
    j.leaseSeconds = valid j.scope := by
  have hjob : ∃ duid hostname, j = job scope duid hostname := by
    cases task with
    | reply | lookup | transact => exact some_inj.mp hj ▸ h
    | confirm => exact some_inj.mp hj ▸ h.1
    | release | decline => simp [Phase.job] at hj
  obtain ⟨duid, hostname, rfl⟩ := hjob
  exact max_eq_left (min_le_right _ _)

end Jobs

/-- **The invariant**: a reply that can still be sent in time has its row. -/
structure PromiseInv (a : State ι ν Scope Key Duid × List Promise) : Prop where
  jobs : ∀ i, ∀ job ∈ (a.1.phase i).job, valid job.scope ≤ job.leaseSeconds
  recorded : ∀ p ∈ a.2, p.Timely a.1.now → Recorded a.1.leases p

variable [DecidableEq ι] [DecidableEq ν] {a b : State ι ν Scope Key Duid × List Promise}
  {act : Act ι ν}

theorem PromiseInv.serves (h : PromiseInv a) (hok : Prompt (daemon srv sweep) a act)
    (hsvs : Serves (daemon srv sweep) a act b) : PromiseInv b := by
  cases hsvs with
  | send => exact ⟨h.jobs, fun p hp' => h.recorded p (mem_of_mem_erase hp')⟩
  | @step l t hstep =>
    refine ⟨hstep.forall_job (fun _ _ _ _ _ _ hmem _ hj =>
      ((made_of_mem_handle hmem).leaseSeconds hj).ge) h.jobs, ?_⟩
    intro p hp htim
    rcases mem_append.mp hp with hold | hnew
    · cases hstep with
      | tick d =>
        have hnow : a.1.now + d ≤ p.since + seconds 1 := htim
        exact h.recorded p hold (show a.1.now ≤ p.since + seconds 1 by omega)
      | edit | refresh | receive | sweep | read | fail => exact h.recorded p hold htim
      | write hwr => exact (h.recorded p hold htim).write hwr (hok.2 p hold htim)
    · have hpro : promised a.1 l t = some p := mem_toList.mp hnew
      cases hstep with
      | tick | edit | refresh | receive | sweep | fail => simp [promised] at hpro
      | @read i q hread =>
        simp only [promised, phase_set_self] at hpro
        exact recorded_of_lookedUp hread hpro hok
      | write hwr => exact recorded_of_written hwr hpro (h.jobs _) hok.1

theorem ServesWhile.inv {scopes : List Scope}
    (hrun : ServesWhile (daemon srv sweep) (Prompt (daemon srv sweep))
      (State.fresh now scopes, []) a) : PromiseInv a := by
  induction hrun with
  | refl => exact ⟨fun i job hjob => absurd hjob (by simp [State.fresh, Phase.job]),
      fun p hp => absurd hp not_mem_nil⟩
  | tail _ hlast ih =>
    obtain ⟨act, hact, hsvs⟩ := hlast
    exact ih.serves hact hsvs

/-- **Promises are recorded**: when a REPLY is sent, the lease table holds an active row of the
client for its address that runs, up to a second, as long as the reply says. -/
theorem promises_recorded {scopes : List Scope}
    (hrun : ServesWhile (daemon srv sweep) (Prompt (daemon srv sweep))
      (State.fresh now scopes, []) a)
    (hok : Prompt (daemon srv sweep) a (.send p))
    (hsend : Serves (daemon srv sweep) a (.send p) b) : Kept a.1 p := by
  have hinv : PromiseInv a := hrun.inv
  cases hsend with
  | send hp => exact (hinv.recorded p hp hok).kept hok

/-! ### Examples -/

section Examples

theorem exists_servesWhile [Fintype ι]
    {ok : State ι ν Scope Key Duid × List Promise → Act ι ν → Prop}
    {K : State ι ν Scope Key Duid → Label ι ν Scope Key Duid → Bool}
    (hok : ∀ a l, K a.1 l = true → ok a (.step l))
    {P : State ι ν Scope Key Duid × List Promise → Prop} [DecidablePred P]
    (moves : List (Move ι ν Scope Key Duid Message))
    (h : (replayWatched D (fun s l t out => out ++ (promised s l t).toList)
      (fun s _ l => K s l) moves a).any (fun b => P b) = true) :
    ∃ b, ServesWhile D ok a b ∧ P b := by
  obtain ⟨b, hrun, hb⟩ := exists_replayWatched (C := fun s out l => ok (s, out) (.step l))
    (fun s out l => hok (s, out) l) moves h
  refine ⟨b, Relation.ReflTransGen.mono ?_ _ _ hrun, hb⟩
  rintro a b ⟨l, hl, hstep, hout⟩
  obtain ⟨t, out⟩ := b
  obtain rfl : out = a.2 ++ (promised a.1 l t).toList := hout
  exact ⟨.step l, hl, .step hstep⟩

/-- The first row is written, after lookups that find none. -/
def addsFirst (s : State Unit Unit Scope Key Duid) : Label Unit Unit Scope Key Duid → Bool
  | .read _ => s.leases.rows.isEmpty
  | .write i => s.leases.rows.isEmpty && (s.phase i matches .inserting ..)
  | _ => true

theorem prompt_of_addsFirst {a : State Unit Unit Scope Key Duid × List Promise}
    {l : Label Unit Unit Scope Key Duid} (h : addsFirst a.1 l = true) :
    Prompt sampleDaemon a (.step l) := by
  cases l with
  | read =>
    rw [Prompt, FindsFresh.eq_def]
    split
    · intro row hrow
      rw [List.isEmpty_iff.mp h] at hrow
      simp at hrow
    · trivial
  | write =>
    obtain ⟨hrows, hph⟩ := Bool.and_eq_true_iff.mp h
    rw [Prompt]
    refine ⟨?_, fun p _ _ row hrow => ?_⟩
    · split at hph
      · rename_i heq
        rw [heq]
        trivial
      · simp at hph
    · have hmem := mem_of_find?_eq_some hrow
      rw [List.isEmpty_iff.mp hrows] at hmem
      simp at hmem
  | _ => trivial

/-- What the REPLY to the first client of the sample network says. -/
def samplePromise : Promise := ⟨"lan", 1, duidHex [1], 3600, 0⟩

/-- The first REPLY of the sample network. -/
theorem promises_recorded_first :
    ∃ a b : State Unit Unit Scope Key Duid × List Promise,
      ServesWhile sampleDaemon (Prompt sampleDaemon) (State.fresh 0 [sampleScope], []) a ∧
      Serves sampleDaemon a (.send samplePromise) b ∧ Kept a.1 samplePromise := by
  obtain ⟨a, hrun, hout, hnow⟩ := exists_servesWhile (D := sampleDaemon)
    (a := (State.fresh 0 [sampleScope], []))
    (P := fun a => samplePromise ∈ a.2 ∧ a.1.now ≤ 0 + seconds 1)
    (fun _ _ => prompt_of_addsFirst) (sampleClaim 1 1) (by decide +kernel)
  exact ⟨a, _, hrun, .send hout, promises_recorded hrun hnow (.send hout)⟩

/-- A RENEW that names no address. -/
def sampleRenew (b : UInt8) : Message :=
  ⟨.renew, some [b], some sampleServer.serverDuid, some none, none⟩

/-- All steps are prompt, but for lookups. -/
def PromptBut (a : State Unit Unit Scope Key Duid × List Promise) (act : Act Unit Unit) : Prop :=
  act = .step (.read ()) ∨ Prompt sampleDaemon a act

/-- Fifty minutes into its lease of an hour the client renews it, without naming the address:
the REPLY gives it another hour, and the row ends in ten minutes. -/
theorem renewal_unrecorded :
    ∃ (a b : State Unit Unit Scope Key Duid × List Promise) (p : Promise),
      ServesWhile sampleDaemon PromptBut (State.fresh 0 [sampleScope], []) a ∧
      Prompt sampleDaemon a (.send p) ∧ Serves sampleDaemon a (.send p) b ∧ ¬Kept a.1 p := by
  have hok : ∀ (a : State Unit Unit Scope Key Duid × List Promise) l,
      ((l matches .read _) || addsFirst a.1 l) = true → PromptBut a (.step l) := by
    intro a l hl
    rcases Bool.or_eq_true_iff.mp hl with hread | hpro
    · split at hread
      · exact .inl rfl
      · simp at hread
    · exact .inr (prompt_of_addsFirst hpro)
  obtain ⟨a, hrun, hout, hnow, hfind⟩ := exists_servesWhile (D := sampleDaemon)
    (a := (State.fresh 0 [sampleScope], []))
    (K := fun s l => (l matches .read _) || addsFirst s l)
    (P := fun a => (⟨"lan", 1, duidHex [1], 3600, 3000000000⟩ : Promise) ∈ a.2 ∧
      a.1.now = 3000000000 ∧ a.1.leases.find ("lan", .na 1) =
        some (family.leaseRow (sampleJob 1) (.na 1) 0 3600000000))
    hok (sampleClaim 1 1 ++ [.tick 3000000000, .receive () () 0 (sampleRenew 1) 0, .read ()])
    (by decide +kernel)
  have htim : a.1.now ≤ 3000000000 + seconds 1 := by
    rw [hnow]
    decide
  refine ⟨a, _, ⟨_, _, _, _, 3000000000⟩, hrun, htim, .send hout, ?_⟩
  rintro ⟨row, hrow, -, -, hexpires⟩
  rw [← some_inj.mp (hfind.symm.trans hrow), hnow] at hexpires
  -- the row still expires an hour after the first grant
  have hsho : ¬(3000000000 + seconds 3600 ≤ 3600000000 + seconds 1) := by decide
  exact hsho hexpires

end Examples

end Dhcp6
