/-
Packets that are served alone.

While one handler serves a packet and no other acts, what it does is a function
of the table, up to the clock and the free choices.  `Served.induct` is the rule
for that; the rest of the file says what each kind of task comes to.

* `Served.reply_eq`, `Served.confirm_eq`, `Served.claim_cases` — a reply, a
  confirmed reservation, and a claim: it is refused, or its row is written;
* `exists_served_claim`, `served_claim_refused`, `exists_served_delegation` —
  claims do end, and a reservation of another client can refuse one;
* `Served.unheld_of_offered` — an address that is offered is held by no other
  client.
-/
import MantisDns.DeclineProbation

open Text Table Dhcp List

namespace Dhcp

variable {ι ν σ κ χ μ : Type} [DecidableEq κ] [DecidableEq χ] [DecidableEq ι] [DecidableEq ν]

/-! ### One task -/

/-- No handler is at work. -/
def State.Quiet (s : State ι ν σ κ χ) : Prop := ∀ j, s.phase j = .idle

/-- The statements of one handler, and the clock. -/
def Own (i : ι) : Label ι ν σ κ χ → Prop
  | .tick => True
  | .read j => j = i
  | .write j => j = i
  | _ => False

/-- A handler carries out a task while no other acts. -/
def Served (D : Daemon ν σ κ χ μ) (i : ι) (s : State ι ν σ κ χ) (task : Task σ κ χ)
    (t : State ι ν σ κ χ) : Prop :=
  RunWhile D (fun _ => Own i) (s.set i (.task task)) t ∧ t.phase i = .idle

/-- Only the table, the log and the clock have changed. -/
structure Undisturbed (s t : State ι ν σ κ χ) : Prop where
  config : t.config = s.config
  snapshot : t.snapshot = s.snapshot
  quiet : t.Quiet

variable {D : Daemon ν σ κ χ μ} {s t : State ι ν σ κ χ} {i : ι} {job : Job σ χ} {answer : Answer}
  {ip : κ}

/-- **The rule for tasks that are served alone**: what holds at first of the
table, the log and the handler's phase, and is kept by its queries and its
statements, holds when it is idle again. -/
theorem Served.induct {task : Task σ κ χ} {P : Leases κ χ → List (Event κ χ) → Phase σ κ χ → Prop}
    (h : Served D i s task t) (hq : s.Quiet) (hsta : P s.leases s.log (.task task))
    (hread : ∀ {now T log p q}, P T log p →
      Reads D.toFamily now T s.config.reservations p q → P T log q)
    (hwr : ∀ {now T log p T' q events}, P T log p → Writes D now T p T' q events →
      P T' (events ++ log) q) :
    Undisturbed s t ∧ P t.leases t.log .idle := by
  -- nobody else moves, so only the queries and statements of this handler count
  have hinv : (t.config = s.config ∧ t.snapshot = s.snapshot ∧ ∀ j, j ≠ i → t.phase j = .idle) ∧
      P t.leases t.log (t.phase i) := by
    refine h.1.induct (P := fun u => (u.config = s.config ∧ u.snapshot = s.snapshot ∧
      ∀ j, j ≠ i → u.phase j = .idle) ∧ P u.leases u.log (u.phase i)) ?_ ?_
    · refine ⟨⟨rfl, rfl, fun j hj => (phase_set_ne hj).trans (hq j)⟩, ?_⟩
      rw [phase_set_self]
      exact hsta
    · rintro u v l ⟨⟨hcon, hsna, hoth⟩, hP⟩ hown hstep
      cases hstep with
      | tick => exact ⟨⟨hcon, hsna, hoth⟩, hP⟩
      | read hrea =>
        obtain rfl : _ = i := hown
        refine ⟨⟨hcon, hsna, fun j hj => (phase_set_ne hj).trans (hoth j hj)⟩, ?_⟩
        rw [phase_set_self]
        exact hread hP (hcon ▸ hrea)
      | write hwri =>
        obtain rfl : _ = i := hown
        refine ⟨⟨hcon, hsna, fun j hj => (phase_set_ne hj).trans (hoth j hj)⟩, ?_⟩
        exact (phase_set_self (s := u)).symm ▸ hwr hP hwri
      | edit | refresh | receive | sweep | fail => exact absurd hown id
  obtain ⟨⟨hcon, hsna, hoth⟩, hP⟩ := hinv
  refine ⟨⟨hcon, hsna, fun j => ?_⟩, h.2 ▸ hP⟩
  by_cases hj : j = i
  · rw [hj, h.2]
  · exact hoth j hj

/-! ### What the tasks come to -/

theorem Served.reply_eq (h : Served D i s (.reply job answer ip) t) (hq : s.Quiet) :
    Undisturbed s t ∧ t.leases = s.leases ∧ ∃ time expires,
      t.log = answer.events (D.scopeId job.scope) ip job.client time expires ++ s.log := by
  have h := h.induct (P := fun T log p => T = s.leases ∧
    (p = .task (.reply job answer ip) ∧ log = s.log ∨ p = .idle ∧ ∃ time expires,
      log = answer.events (D.scopeId job.scope) ip job.client time expires ++ s.log)) hq
    ⟨rfl, .inl ⟨rfl, rfl⟩⟩ ?_ ?_
  · exact ⟨h.1, h.2.1, (h.2.2.resolve_left nofun).2⟩
  · rintro now T log p q ⟨rfl, ⟨rfl, rfl⟩ | ⟨rfl, -⟩⟩ hread <;> cases hread
  · rintro now T log p T' q events ⟨rfl, ⟨rfl, rfl⟩ | ⟨rfl, -⟩⟩ hwr <;> cases hwr
    exact ⟨rfl, .inr ⟨rfl, _, _, rfl⟩⟩

theorem Served.confirm_eq {expires : ℤ} (h : Served D i s (.confirm job expires ip) t)
    (hq : s.Quiet) : ∃ time,
      t.log = .grant (D.scopeId job.scope) ip job.client time expires :: s.log := by
  have h := h.induct (P := fun _ log p => p = .task (.confirm job expires ip) ∧ log = s.log ∨
    p = .idle ∧ ∃ time, log = .grant (D.scopeId job.scope) ip job.client time expires :: s.log)
    hq (.inl ⟨rfl, rfl⟩) ?_ ?_
  · exact (h.2.resolve_left nofun).2
  · rintro now T log p q (⟨rfl, rfl⟩ | ⟨rfl, -⟩) hread <;> cases hread
  · rintro now T log p T' q events (⟨rfl, rfl⟩ | ⟨rfl, -⟩) hwr <;> cases hwr
    exact .inr ⟨rfl, _, rfl⟩

/-- A claim on its way through the lock, up to its refusal or its row. -/
inductive Claiming (D : Daemon ν σ κ χ μ) (s : State ι ν σ κ χ) (job : Job σ χ) (answer : Answer)
    (ip : κ) : Leases κ χ → List (Event κ χ) → Phase σ κ χ → Prop
  | task : Claiming D s job answer ip s.leases s.log (.task (.transact job (.claim answer ip)))
  | waiting {began : ℤ} :
    Claiming D s job answer ip s.leases s.log (.waiting job (.claim answer ip) began)
  | checking {began : ℤ} : Claiming D s job answer ip s.leases s.log (.checking job answer began ip)
  | guarding {began : ℤ} : Claiming D s job answer ip s.leases s.log (.guarding job answer began ip)
  | inserting {began expires : ℤ} :
    Claiming D s job answer ip s.leases s.log (.inserting job answer began expires ip)
  | refused (h : ¬D.Unheld s.leases job ip ∨ ∃ r ∈ s.config.reservations,
      D.ReservedAt (D.scopeId job.scope) ip r ∧ D.owns r.client job.client = false) :
    Claiming D s job answer ip s.leases s.log .idle
  | written {time began expires : ℤ} :
    Claiming D s job answer ip (s.leases.upsert (D.leaseRow job ip began expires))
      (answer.events (D.scopeId job.scope) ip job.client time expires ++ s.log) .idle

omit [DecidableEq χ] [DecidableEq ι] [DecidableEq ν] in
theorem Claiming.reads {now : ℤ} {T : Leases κ χ} {log : List (Event κ χ)} {p q : Phase σ κ χ}
    (hp : Claiming D s job answer ip T log p)
    (h : Reads D.toFamily now T s.config.reservations p q) :
    Claiming D s job answer ip T log q := by
  cases hp with
  | task =>
    cases h
    exact .waiting
  | waiting =>
    cases h
    exact .checking
  | checking =>
    cases h with
    | held hrow hst hcl => exact .refused (.inl fun hfree => hcl (hfree _ hrow hst))
    | unheld => exact .guarding
    | undelegated => exact .inserting
  | guarding =>
    cases h with
    | reserved hr hat hown => exact .refused (.inr ⟨_, hr, hat, hown⟩)
    | unreserved => exact .inserting
  | _ => cases h

omit [DecidableEq ι] [DecidableEq ν] in
theorem Claiming.writes {now : ℤ} {T T' : Leases κ χ} {log events : List (Event κ χ)}
    {p q : Phase σ κ χ} (hp : Claiming D s job answer ip T log p)
    (h : Writes D now T p T' q events) : Claiming D s job answer ip T' (events ++ log) q := by
  cases hp with
  | inserting =>
    cases h
    exact .written
  | _ => cases h

theorem Served.claim_cases (h : Served D i s (.transact job (.claim answer ip)) t)
    (hq : s.Quiet) :
    Undisturbed s t ∧
      ((t.leases = s.leases ∧ t.log = s.log ∧
          (¬D.Unheld s.leases job ip ∨ ∃ r ∈ s.config.reservations,
            D.ReservedAt (D.scopeId job.scope) ip r ∧ D.owns r.client job.client = false)) ∨
        ∃ time began expires, t.leases = s.leases.upsert (D.leaseRow job ip began expires) ∧
          t.log = answer.events (D.scopeId job.scope) ip job.client time expires ++ s.log) := by
  obtain ⟨hfr, hend⟩ :=
    h.induct (P := Claiming D s job answer ip) hq .task Claiming.reads Claiming.writes
  refine ⟨hfr, ?_⟩
  generalize t.leases = T, t.log = log at hend
  cases hend with
  | refused hwhy => exact .inl ⟨rfl, rfl, hwhy⟩
  | written => exact .inr ⟨_, _, _, rfl, rfl⟩

/-! ### Claims do end -/

variable (i job answer ip) in
theorem runWhile_checking (hq : s.Quiet) :
    RunWhile D (fun _ => Own i) (s.set i (.task (.transact job (.claim answer ip))))
      (s.set i (.checking job answer s.now ip)) := by
  have hunl : ∀ l j, j ≠ i → D.lock (s.phase j) ≠ some l := by
    intro l j _
    rw [hq j]
    exact nofun
  refine RunWhile.read ?_ rfl .lockClaim fun l _ => .inr (hunl l)
  refine RunWhile.read ?_ rfl .start fun l hl => absurd hl (by simp [Family.lock])
  exact .refl

theorem exists_served_claim (hq : s.Quiet) (hna : D.leaseType ip = .na)
    (hfree : D.Unheld s.leases job ip)
    (hres : ∀ r ∈ s.config.reservations, D.ReservedAt (D.scopeId job.scope) ip r →
      D.owns r.client job.client = true) :
    ∃ t, Served D i s (.transact job (.claim answer ip)) t := by
  have hgua := (runWhile_checking i job answer ip hq).read rfl (.unheld hna hfree)
    fun l hl => .inl hl
  have hins := hgua.read rfl (.unreserved (unreserved_of_forall hres))
    fun l hl => .inl hl
  exact ⟨_, hins.write rfl (hq i) .insert, hq i⟩

theorem served_claim_refused {r : StaticLease} (hq : s.Quiet) (hna : D.leaseType ip = .na)
    (hfree : D.Unheld s.leases job ip) (hr : r ∈ s.config.reservations)
    (hat : D.ReservedAt (D.scopeId job.scope) ip r) (hown : D.owns r.client job.client = false) :
    Served D i s (.transact job (.claim answer ip)) s := by
  -- the address is not held, so the claim goes on to the reservations
  have hgua := (runWhile_checking i job answer ip hq).read rfl (.unheld hna hfree)
    fun l hl => .inl hl
  have href := hgua.read rfl (.reserved hr hat hown)
    fun l hl => absurd hl (by simp [Family.lock])
  rw [set_of_phase_eq (hq i)] at href
  exact ⟨href, hq i⟩

theorem exists_served_delegation (hq : s.Quiet) (hpd : D.leaseType ip = .pd) :
    ∃ t, Served D i s (.transact job (.claim answer ip)) t := by
  by_cases hfree : D.Unheld s.leases job ip
  · have hins := (runWhile_checking i job answer ip hq).read rfl (.undelegated hpd hfree)
      fun l hl => .inl hl
    exact ⟨_, hins.write rfl (hq i) .insert, hq i⟩
  · simp only [Family.Unheld, not_forall] at hfree
    obtain ⟨row, hrow, hst, hcl⟩ := hfree
    have href := (runWhile_checking i job answer ip hq).read rfl
      (.held hrow hst hcl)
      fun l hl => absurd hl (by simp [Family.lock])
    exact ⟨_, href, phase_set_self⟩

/-! ### Offers -/

/-- Looking for an address for this job: one that is found is held by no other
client. -/
def Family.Seeks (F : Family σ κ χ) (job : Job σ χ) (T : Leases κ χ) : Phase σ κ χ → Prop
  | .idle => True
  | .task (.reply job' _ ip) => job' = job ∧ F.Unheld T job ip
  | .task (.lookup job' _) => job' = job
  | .task (.transact job' (.allocate _)) => job' = job
  | .peeking job' _ _ _ => job' = job
  | .probing job' _ _ ip => job' = job ∧ F.Unheld T job ip
  | .marking job' _ _ _ => job' = job
  | .waiting job' (.allocate _) _ => job' = job
  | .selecting job' _ _ _ => job' = job
  | .renewing job' _ _ _ ip => job' = job ∧ F.Unheld T job ip
  | .scanning job' _ _ _ _ => job' = job
  | .inserting job' _ _ _ ip => job' = job ∧ F.Unheld T job ip
  | _ => False

section Seeks

omit [DecidableEq ι] [DecidableEq ν]

variable {T T' : Leases κ χ} {p q : Phase σ κ χ} {now : ℤ} {events : List (Event κ χ)}
variable {F : Family σ κ χ} {reservations : List StaticLease}

omit [DecidableEq χ] in
theorem Family.unheld_of_own {row : Lease κ χ} (hrow : row ∈ T.rows) (hown : F.OwnActive job row) :
    F.Unheld T job row.ip := by
  intro row' hrow' _
  have hfind : T.find (F.scopeId job.scope, row.ip) = some row :=
    T.find_eq_some_iff.mpr ⟨hrow, Prod.ext hown.1 rfl⟩
  rw [← Option.some_inj.mp (hfind.symm.trans hrow')]
  exact hown.2.1

omit [DecidableEq χ] in
theorem Family.unheld_of_scan {excluded : List κ} {draw : ℕ}
    (h : F.scan job.scope T reservations excluded draw = some ip) :
    F.Unheld T job ip :=
  fun row hrow => absurd ((F.scan_free h).2.1.symm.trans hrow) (by simp)

omit [DecidableEq χ] in
theorem seeks_reads (hp : F.Seeks job T p) (h : Reads F now T reservations p q) :
    F.Seeks job T q := by
  cases h with
  | found hrow hown | selected hrow hown =>
    cases hp
    exact ⟨rfl, Family.unheld_of_own hrow hown⟩
  | @notFound job' mode => cases mode <;> first | exact hp | trivial
  | peek hscan =>
    cases hp
    split
    · exact ⟨rfl, Family.unheld_of_scan hscan⟩
    · exact ⟨rfl, Family.unheld_of_scan hscan⟩
  | silent | lockAllocate | unselected => exact hp
  | answered => exact hp.1
  | @start job' tx =>
    cases tx with
    | allocate => exact hp
    | claim => exact absurd hp id
  | scanned hscan =>
    cases hp
    exact ⟨rfl, Family.unheld_of_scan hscan⟩
  | collided =>
    rw [nextScan]
    split
    · trivial
    · exact hp
  | peekNone => trivial
  | _ => exact absurd hp id

theorem seeks_writes (hp : D.Seeks job T p) (h : Writes D now T p T' q events) :
    D.Seeks job T' q := by
  cases h with
  | mark =>
    rw [nextPeek]
    split
    · trivial
    · exact hp
  | reply | insert | renew => trivial
  | _ => exact absurd hp id

theorem unheld_writes {address : κ} (hp : D.Seeks job T p) (h : Writes D now T p T' q events)
    (hfree : D.Unheld T job address) : D.Unheld T' job address := by
  refine h.unheld hfree fun job' ip' hins _ => ?_
  rcases hins with ⟨_, _, _, rfl⟩ | ⟨_, rfl⟩
  · rw [hp.1]
  · exact absurd hp id

omit [DecidableEq χ] in
theorem unheld_of_promises {key : Str × κ} (hp : F.Seeks job T p) (hkey : F.promises p = some key) :
    F.Unheld T job key.2 := by
  cases p with
  | task task =>
    cases task with
    | reply =>
      cases hkey
      exact hp.2
    | confirm => exact absurd hp id
    | _ => cases hkey
  | inserting | renewing =>
    cases hkey
    exact hp.2
  | _ => cases hkey

end Seeks

/-- The event was added to the log. -/
def Added (s t : State ι ν σ κ χ) (e : Event κ χ) : Prop :=
  ∃ added, t.log = added ++ s.log ∧ e ∈ added

/-- **An offered address is held by no other client.** -/
theorem Served.unheld_of_offered {task : Task σ κ χ} {scopeId : Str} {client : χ} {time : ℤ}
    (h : Served D i s task t) (hq : s.Quiet) (hsee : D.Seeks job s.leases (.task task))
    (hof : Added s t (.offer scopeId ip client time)) : D.Unheld t.leases job ip := by
  obtain ⟨-, -, added, hlog, hoff⟩ := h.induct (P := fun T log p => D.Seeks job T p ∧
      ∃ added, log = added ++ s.log ∧
        ∀ e ∈ added, ∀ key time, e.promised = some (key, time) → D.Unheld T job key.2)
    hq ⟨hsee, [], rfl, fun _ he => absurd he not_mem_nil⟩
    (fun hP hread => ⟨seeks_reads hP.1 hread, hP.2⟩)
    (by
      rintro now T log p T' q events ⟨hp, added, rfl, hold⟩ hwr
      refine ⟨seeks_writes hp hwr, events ++ added, (append_assoc ..).symm, ?_⟩
      intro e he key time hpro
      refine unheld_writes hp hwr ?_
      rcases mem_append.mp he with hnew | hbef
      · exact unheld_of_promises hp (hwr.of_promised hnew hpro).2
      · exact hold e hbef key time hpro)
  obtain ⟨added', hlog', hmem⟩ := hof
  obtain rfl := append_cancel_right (hlog'.symm.trans hlog)
  exact hoff _ hmem _ _ rfl

end Dhcp
