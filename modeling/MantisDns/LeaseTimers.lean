/-
The times in the replies of both daemons, and the expiry that is stored for them.

The times of a scope are columns of 32 bits with a sign and any value.  A reply has them as
`u32`, after casts and products that wrap around; the database functions store an expiry,
counted from when they read the clock.

* `computes_of_step`, `Daemon.Timed.storesLease` — an expiry is computed from the clock once,
  kept, and written;
* `Dhcp6.lifetimes_ordered` — the times of DHCPv6 are in order, and rows expire when the reply
  says;
* `Dhcp4.Loader.timersOrdered_iff` — those of DHCPv4 are in order if the operator has
  entered them so.
-/
import MantisDns.LeasePromises
import MantisDns.ScopeLoader

open Text Table Dns Dhcp List Option

namespace Dhcp

/-! ### The expiry -/

variable {ι ν σ κ χ μ : Type} [DecidableEq κ]
variable {D : Daemon ν σ κ χ μ} {s t : State ι ν σ κ χ} {l : Label ι ν σ κ χ} {now : ℤ}
  {p q : Phase σ κ χ} {life : σ → ℤ}

/-- The expiry that a handler has computed for its row. -/
def expiry : Phase σ κ χ → Option (Job σ χ × ℤ)
  | .selecting job _ _ expires | .scanning job _ _ expires _ | .renewing job _ _ expires _
  | .inserting job _ _ expires _ | .task (.confirm job expires _) => some (job, expires)
  | _ => none

/-- The row that a handler's next statement writes for its reply. -/
def storing : Phase σ κ χ → Option (Job σ χ × κ)
  | .renewing job _ _ _ ip | .inserting job _ _ _ ip | .task (.confirm job _ ip) => some (job, ip)
  | _ => none

/-- When each handler has read the clock for its expiry: it had none until then. -/
def watchClock (s : State ι ν σ κ χ) (_ : Label ι ν σ κ χ) (_ : State ι ν σ κ χ)
    (clock : ι → ℤ) (i : ι) : ℤ :=
  if (expiry (s.phase i)).isNone then s.now else clock i

theorem toNat_ofInt (x : ℤ) : ((UInt32.ofInt x).toNat : ℤ) = x % 2 ^ 32 := by
  rw [UInt32.ofInt, UInt32.toNat_ofNat']
  omega

/-- The jobs of a daemon lease for as long as their scope says, and an expiry that comes with a
task is counted from now. -/
def Daemon.Timed (D : Daemon ν σ κ χ μ) (life : σ → ℤ) : Prop :=
  ∀ n snapshot scope msg now, ∀ task ∈ D.dispatch n snapshot scope msg now,
    (∀ job ∈ (Phase.task task).job, job.leaseSeconds = life job.scope) ∧
      ∀ x ∈ expiry (.task task), x.2 = now + seconds x.1.leaseSeconds

/-- Whatever expiry a handler has now it had before, or has just computed. -/
def Computes (now : ℤ) (p q : Phase σ κ χ) : Prop :=
  ∀ x ∈ expiry q, expiry p = some x ∨ expiry p = none ∧ x.2 = now + seconds x.1.leaseSeconds

section

omit [DecidableEq κ]

theorem Computes.of_none (h : expiry q = none) : Computes now p q := by
  intro x hx
  rw [h] at hx
  exact nomatch hx

theorem expiry_afterLookup {job : Job σ χ} {mode : Lookup} :
    expiry (afterLookup job mode : Phase σ κ χ) = none := by
  cases mode <;> rfl

theorem expiry_of_rests (h : q.Rests) : expiry q = none := by
  cases h <;> rfl

theorem expiry_of_fails (h : Fails p q) : expiry q = none := by
  cases h with
  | abort => rfl
  | lookup => exact expiry_afterLookup
  | mark => exact expiry_of_rests nextPeek_rests

end

theorem computes_of_reads {F : Family σ κ χ} {T : Leases κ χ} {reservations : List StaticLease}
    (h : Reads F now T reservations p q) : Computes now p q := by
  cases h with
  | selected | unselected | scanned => exact fun _ => .inl
  | lockAllocate | undelegated | unreserved =>
    rintro x ⟨⟩
    exact .inr ⟨rfl, rfl⟩
  | collided =>
    rw [nextScan]
    split
    · exact .of_none rfl
    · exact fun _ => .inl
  | notFound => exact .of_none expiry_afterLookup
  | peek => split <;> exact .of_none rfl
  | _ => exact .of_none rfl

variable [DecidableEq ι] [DecidableEq ν] [DecidableEq χ]

/-- **An expiry is computed from the clock once**, and kept until it is stored. -/
theorem computes_of_step (hD : D.Timed life) (hstep : Step D s l t) (j : ι) :
    Computes s.now (s.phase j) (t.phase j) := by
  have hset : ∀ i q, Computes s.now (s.phase i) q →
      Computes s.now (s.phase j) ((s.set i q).phase j) := fun i q hq =>
    forall_phase_set (P := fun j => Computes s.now (s.phase j)) hq (fun _ _ _ => .inl) j
  cases hstep with
  | tick | edit | refresh => exact fun _ => .inl
  | receive hidle _ htask =>
    refine hset _ _ fun x hx => .inr ⟨?_, (hD _ _ _ _ _ _ htask).2 x hx⟩
    rw [hidle]
    rfl
  | sweep => exact hset _ _ (.of_none rfl)
  | read h => exact hset _ _ (computes_of_reads h)
  | write h => exact hset _ _ (.of_none (expiry_of_rests h.rests))
  | fail h => exact hset _ _ (.of_none (expiry_of_fails h))

structure TimerInv (life : σ → ℤ) (s : State ι ν σ κ χ) (clock : ι → ℤ) : Prop where
  jobs : ∀ i, ∀ job ∈ (s.phase i).job, job.leaseSeconds = life job.scope
  expiry : ∀ i, ∀ x ∈ expiry (s.phase i), x.2 = clock i + seconds x.1.leaseSeconds

theorem TimerInv.step {clock : ι → ℤ} (hD : D.Timed life) (h : TimerInv life s clock)
    (hstep : Step D s l t) : TimerInv life t (watchClock s l t clock) := by
  refine ⟨hstep.forall_job (fun _ _ _ _ _ _ hmem => (hD _ _ _ _ _ _ hmem).1) h.jobs,
    fun i x hx => ?_⟩
  rcases computes_of_step hD hstep i x hx with hold | ⟨hnone, hnew⟩
  · rw [watchClock, hold]
    exact h.expiry i x hold
  · rw [watchClock, hnone]
    exact hnew

/-- Whatever a handler writes for its reply in this scope expires after so many seconds, counted
from when the handler has read the clock. -/
def Daemon.StoresLease (ι : Type) [DecidableEq ι] (D : Daemon ν σ κ χ μ) (scope : σ) (lease : ℤ) :
    Prop :=
  ∀ (now : ℤ) (scopes : List σ) (s t : State ι ν σ κ χ) (clock : ι → ℤ) (i : ι) (job : Job σ χ)
    (ip : κ) (row : Lease κ χ),
    WatchedRun D watchClock (fun _ _ _ => True) (State.fresh now scopes, fun _ => now) (s, clock) →
    storing (s.phase i) = some (job, ip) → job.scope = scope → Step D s (.write i) t →
    t.leases.find (D.scopeId scope, ip) = some row → row.expiresAt = clock i + seconds lease

theorem Daemon.Timed.storesLease (hD : D.Timed life) (scope : σ) :
    D.StoresLease ι scope (life scope) := by
  rintro now scopes s t clock i job ip row hrun hsto rfl hstep hrow
  have hinv : TimerInv life s clock := hrun.induct
    ⟨(fun _ _ hjob => nomatch hjob), (fun _ _ hx => nomatch hx)⟩ fun h _ => h.step hD
  have hjob := hinv.jobs i job
  have hexp := hinv.expiry i
  cases hstep with
  | write h =>
    generalize s.phase i = p at h hsto hjob hexp
    cases h with
    | insert | confirm =>
      cases hsto
      rw [← some_inj.mp (((Store.find_upsert _).trans (if_pos rfl)).symm.trans hrow), ← hjob rfl]
      exact hexp _ rfl
    | renew =>
      cases hsto
      obtain ⟨old, -, rfl⟩ := map_eq_some_iff.mp
        ((D.find_renewRow.trans (if_pos rfl)).symm.trans hrow)
      rw [← hjob rfl]
      exact hexp _ rfl
    | _ => exact nomatch hsto

end Dhcp

namespace Dhcp6

variable {ι ν : Type}

/-! ### The replies of DHCPv6 -/

/-- `Scope6`, with the times for renewals. -/
structure Scope6 extends Scope where
  renewTimeS : Option ℤ
  rebindTimeS : Option ℤ
  preferred_int4 : int4 preferredLifetimeS = true
  valid_int4 : int4 validLifetimeS = true

/-- An IA_NA with its address, or an IA_PD with what it delegates. -/
structure Ia where
  t1 : UInt32
  t2 : UInt32
  preferred : UInt32
  valid : UInt32

/-- `t1_t2`. -/
def t1T2 (scope : Scope6) (preferred : UInt32) : UInt32 × UInt32 :=
  let t2 := min ((scope.rebindTimeS.map .ofInt).getD (preferred * 8 / 10)) preferred
  let t1 := min ((scope.renewTimeS.map .ofInt).getD (preferred / 2)) t2
  (t1, t2)

/-- What `handle_solicit` and `handle_request_like` compute for their reply. -/
def Scope6.ia (scope : Scope6) : Ia :=
  let valid := .ofInt (max scope.validLifetimeS 1)
  let preferred := min (.ofInt (max scope.preferredLifetimeS 1)) valid
  let times := t1T2 scope preferred
  ⟨times.1, times.2, preferred, valid⟩

/-- `iana_success` and `iapd_success`; a refusal has a status and no times. -/
def Scope6.answer (scope : Scope6) : Answer → Option Ia
  | .advertise | .grant => some scope.ia
  | .refuse => none

theorem valid_ia (scope : Scope6) : (scope.ia.valid.toNat : ℤ) = valid scope.toScope := by
  have hint := int4_iff.mp scope.valid_int4
  have hcast : scope.ia.valid = .ofInt (valid scope.toScope) := rfl
  rw [hcast, UInt32.ofInt, UInt32.toNat_ofNat', valid]
  omega

theorem ia_ordered (scope : Scope6) : scope.ia.t1 ≤ scope.ia.t2 ∧
    scope.ia.t2 ≤ scope.ia.preferred ∧ scope.ia.preferred ≤ scope.ia.valid ∧
      1 ≤ scope.ia.valid := by
  refine ⟨Std.min_le_right, Std.min_le_right, Std.min_le_right, ?_⟩
  have hval := valid_ia scope
  have hpos : 1 ≤ valid scope.toScope := le_max_right _ _
  rw [UInt32.le_iff_toNat_le]
  show 1 ≤ _
  omega

theorem timed_daemon (srv : ν → Server) (sweep : Sweep) : (daemon srv sweep).Timed valid := by
  intro n snapshot scope msg now task hmem
  have hmade := made_of_mem_handle hmem
  refine ⟨fun _ => hmade.leaseSeconds, fun x hx => ?_⟩
  cases task with
  | confirm => exact some_inj.mp hx ▸ hmade.2
  | _ => exact nomatch hx

/-- **Lifetimes are ordered**, in every reply with an address or with what is delegated, and
whatever a handler writes for its reply expires after the valid lifetime of the reply. -/
theorem lifetimes_ordered [DecidableEq ι] [DecidableEq ν] (srv : ν → Server) (sweep : Sweep)
    (scope : Scope6) :
    (∀ answer, ∀ ia ∈ scope.answer answer,
      ia.t1 ≤ ia.t2 ∧ ia.t2 ≤ ia.preferred ∧ ia.preferred ≤ ia.valid ∧ 1 ≤ ia.valid) ∧
    (daemon srv sweep).StoresLease ι scope.toScope scope.ia.valid.toNat := by
  constructor
  · intro answer ia hia
    cases answer with
    | advertise | grant => exact some_inj.mp hia ▸ ia_ordered scope
    | refuse => exact nomatch hia
  · rw [valid_ia]
    exact (timed_daemon srv sweep).storesLease scope.toScope

/-- The sample scope, with the default times for renewals. -/
def sampleScope6 : Scope6 := ⟨sampleScope, none, none, rfl, rfl⟩

/-- The reply is made five seconds after the start, and its row is written two seconds later. -/
theorem lifetimes_ordered_first :
    ∃ (s t : State Unit Unit Scope Key Duid) (row : Lease Key Duid), s.now = 7000000 ∧
      Step sampleDaemon s (.write ()) t ∧ t.leases.find ("lan", .na 1) = some row ∧
        row.expiresAt = 5000000 + seconds 3600 := by
  obtain ⟨⟨s, clock⟩, hrun, hnow, hclo, hsto, hwr⟩ := exists_replayWatched (D := sampleDaemon)
    (W := watchClock) (C := fun _ _ _ => True) (K := fun _ _ _ => true)
    (a := (State.fresh 0 [sampleScope], fun _ : Unit => 0))
    (P := fun a => a.1.now = 7000000 ∧ a.2 () = 5000000 ∧
      storing (a.1.phase ()) = some (sampleJob 1, .na 1) ∧
      ((a.1.advance sampleDaemon (.write ())).map Prod.snd).any
        (fun t => (t.leases.find ("lan", .na 1)).isSome = true) = true)
    (fun _ _ _ _ => trivial) (.tick 5000000 :: (sampleClaim 1 1).dropLast ++ [.tick 2000000])
    (by decide +kernel)
  obtain ⟨t, hstep, hfnd⟩ := State.exists_write hwr
  obtain ⟨row, hrow⟩ := isSome_iff_exists.mp hfnd
  have hexp := (lifetimes_ordered _ _ sampleScope6).2 _ _ _ _ _ _ _ _ _ hrun hsto rfl hstep hrow
  exact ⟨s, t, row, hnow, hstep, hrow, hexp.trans (congrArg (· + _) hclo)⟩

end Dhcp6

namespace Dhcp4.Loader

open Control.Scopes

/-! ### The replies of DHCPv4 -/

/-- Options 51, 58 and 59. -/
structure Timers where
  leaseTime : UInt32
  renewal : UInt32
  rebinding : UInt32

/-- What `options::build` sends of them. -/
def Scope.timers (scope : Scope) : Timers :=
  let lease := .ofInt (max scope.leaseTimeS 1)
  ⟨lease, (scope.renewTimeS.map .ofInt).getD (lease / 2),
    (scope.rebindTimeS.map .ofInt).getD (lease * 7 / 8)⟩

theorem timed_daemon {ν : Type} (srv : ν → Server) (sweep : Sweep) :
    (daemon srv sweep).Timed leaseS := by
  intro n snapshot scope msg now task hmem
  have hmem : task ∈ handle (srv n) snapshot scope msg now := hmem
  -- every job is made with the lease time of its scope
  rw [handle] at hmem
  split at hmem
  · rw [mem_singleton.mp hmem, handleDiscover.eq_def]
    split
    all_goals exact ⟨by rintro job ⟨⟩; rfl, by rintro _ ⟨⟩⟩
  · split at hmem
    · cases hmem
    · rw [handleRequest.eq_def] at hmem
      split at hmem
      · split at hmem
        · cases hmem
        · rw [mem_singleton.mp hmem]
          exact ⟨by rintro job ⟨⟩; rfl, by rintro x ⟨⟩; rfl⟩
      · split at hmem
        · rw [mem_singleton.mp hmem]
          exact ⟨by rintro job ⟨⟩; rfl, by rintro _ ⟨⟩⟩
        · cases hmem
      · rw [mem_singleton.mp hmem]
        exact ⟨by rintro job ⟨⟩; rfl, by rintro _ ⟨⟩⟩
  · split at hmem
    · cases hmem
    · rw [mem_singleton.mp hmem]
      exact ⟨by rintro _ ⟨⟩, by rintro _ ⟨⟩⟩
  · obtain ⟨ip, -, rfl⟩ := map_eq_some_iff.mp (mem_toList.mp hmem)
    exact ⟨by rintro _ ⟨⟩, by rintro _ ⟨⟩⟩
  · cases hmem
  · cases hmem

/-- T1, T2 and the lease time are in order, and rows are written for the lease time. -/
structure TimersOrdered (ι : Type) {ν : Type} [DecidableEq ι] [DecidableEq ν] (srv : ν → Server)
    (sweep : Sweep) (scope : Scope) : Prop where
  renewal : scope.timers.renewal ≤ scope.timers.rebinding
  rebinding : scope.timers.rebinding ≤ scope.timers.leaseTime
  stores : (daemon srv sweep).StoresLease ι scope.toScope scope.timers.leaseTime.toNat

/-- The times with their signs, and the default of T2 as it is computed. -/
def Scope.InOrder (scope : Scope) : Prop :=
  let renew := scope.renewTimeS.getD (leaseS scope.toScope / 2)
  let rebind := scope.rebindTimeS.getD (leaseS scope.toScope * 7 % 2 ^ 32 / 8)
  0 ≤ renew ∧ renew ≤ rebind ∧ rebind ≤ leaseS scope.toScope

theorem toNat_timers {scope : Scope} (h : int4 scope.leaseTimeS = true) :
    (scope.timers.leaseTime.toNat : ℤ) = leaseS scope.toScope ∧
    (scope.timers.renewal.toNat : ℤ) =
      (scope.renewTimeS.map (· % 2 ^ 32)).getD (leaseS scope.toScope / 2) ∧
    (scope.timers.rebinding.toNat : ℤ) =
      (scope.rebindTimeS.map (· % 2 ^ 32)).getD (leaseS scope.toScope * 7 % 2 ^ 32 / 8) := by
  -- a lease time is between 1 and the maximum of the column
  have hlease : ((UInt32.ofInt (leaseS scope.toScope)).toNat : ℤ) = leaseS scope.toScope := by
    have hint := int4_iff.mp h
    rw [toNat_ofInt, leaseS]
    omega
  refine ⟨hlease, ?_, ?_⟩
  · rw [Scope.timers]
    cases scope.renewTimeS with
    | none =>
      show (((UInt32.ofInt (leaseS scope.toScope) / 2).toNat : ℕ) : ℤ) = leaseS scope.toScope / 2
      rw [UInt32.toNat_div, Int.natCast_ediv, hlease]
      rfl
    | some v => exact toNat_ofInt v
  · rw [Scope.timers]
    cases scope.rebindTimeS with
    | none =>
      show (((UInt32.ofInt (leaseS scope.toScope) * 7 / 8).toNat : ℕ) : ℤ) =
        leaseS scope.toScope * 7 % 2 ^ 32 / 8
      rw [UInt32.toNat_div, UInt32.toNat_mul, Int.natCast_ediv, Int.natCast_emod, Int.natCast_mul,
        hlease]
      rfl
    | some v => exact toNat_ofInt v

theorem ordered_iff_inOrder {scope : Scope} (hlease : int4 scope.leaseTimeS = true)
    (hrenew : scope.renewTimeS.all int4 = true) (hrebind : scope.rebindTimeS.all int4 = true) :
    scope.timers.renewal ≤ scope.timers.rebinding ∧
      scope.timers.rebinding ≤ scope.timers.leaseTime ↔ scope.InOrder := by
  obtain ⟨hl, h1, h2⟩ := toNat_timers hlease
  have hint := int4_iff.mp hlease
  rw [UInt32.le_iff_toNat_le, UInt32.le_iff_toNat_le, Scope.InOrder]
  rw [leaseS] at *
  -- a time below zero is sent as one beyond every lease
  rcases hr : scope.renewTimeS with _ | r <;> rcases hb : scope.rebindTimeS with _ | b <;>
    simp only [hr, hb, all_some, int4_iff, map_none, map_some,
      getD_none, getD_some] at hrenew hrebind h1 h2 ⊢ <;> omega

/-- **The times are in order** exactly if they were entered so: nothing bounds T1 and T2, and the
default of T2 wraps around for long leases. -/
theorem timersOrdered_iff {ι ν : Type} [DecidableEq ι] [DecidableEq ν] (srv : ν → Server)
    (sweep : Sweep) {tenants : List Str} {db : DhcpDb} (h : Accepted tenants db) {row : DhcpScope}
    (hrow : row ∈ db.scopes) (subnet : LongestMatch.Net 32) (rangeStart rangeEnd : UInt32) :
    TimersOrdered ι srv sweep (scopeOf row subnet rangeStart rangeEnd) ↔
      (scopeOf row subnet rangeStart rangeEnd).InOrder := by
  have hsto := h.kept.scopes_storable row hrow
  simp only [ScopeCreate.storable, Bool.and_eq_true] at hsto
  obtain ⟨⟨⟨⟨⟨⟨⟨⟨⟨-, hlease⟩, -⟩, hrenew⟩, hrebind⟩, -⟩, -⟩, -⟩, -⟩, -⟩ := hsto
  have hiff : _ ↔ (scopeOf row subnet rangeStart rangeEnd).InOrder :=
    ordered_iff_inOrder hlease hrenew hrebind
  refine ⟨fun h => hiff.mp ⟨h.renewal, h.rebinding⟩, fun h => ?_⟩
  obtain ⟨hren, hreb⟩ := hiff.mpr h
  refine ⟨hren, hreb, ?_⟩
  rw [(toNat_timers hlease).1]
  exact (timed_daemon srv sweep).storesLease _

theorem timersOrdered_default : ∃ db, Accepted Dhcp.sampleTenants db ∧ ∃ row ∈ db.scopes,
    ∃ scope, readScope Dhcp.Loader.sampleCrates row = .ok (some scope) ∧
      TimersOrdered Unit (fun _ : Unit => sampleServer) ⟨86400, 300, 1000⟩ scope :=
  ⟨_, Dhcp.accepted_sampleDb4, _, mem_cons_self, _, rfl,
    (timersOrdered_iff _ _ Dhcp.accepted_sampleDb4 mem_cons_self _ _ _).mpr
      (show (0 : ℤ) ≤ 43200 ∧ (43200 : ℤ) ≤ 75600 ∧ (75600 : ℤ) ≤ 86400 by decide)⟩

/-- The lease time is a day, and clients are told to renew after two. -/
theorem renewal_after_lease : ∃ db, Accepted Dhcp.sampleTenants db ∧ ∃ row ∈ db.scopes,
    ∃ scope, readScope Dhcp.Loader.sampleCrates row = .ok (some scope) ∧
      ¬scope.timers.renewal ≤ scope.timers.leaseTime :=
  ⟨_, .single ⟨Dhcp.sampleOperator "red",
    .createScope "1" { Dhcp.sampleScope4 with renewTimeS := some 172800 }, rfl⟩, _,
    mem_singleton_self _, _, rfl, by decide +kernel⟩

end Dhcp4.Loader
