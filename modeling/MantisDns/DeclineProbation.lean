/-
The probation of declined addresses.

An address that its client declines, or that answers a probe, is to be left
alone for a while.  All that keeps it from clients is its row in the declined
state: a search of the pool and a lookup of leases pass over it.  A claim, a
confirmation and the offer of a reserved address do not look at that state, a
RELEASE and the sweep may drop the row too early, and the row does not say when
it was declined.

* `MindsDeclined` — those steps alone mind the declined rows;
* `probation_honoured` — then no address is promised within its probation:
  searches, offers, allocations, renewals, probes and expiries keep it;
* `granted_in_probation` — a client declines its address, and the next client
  that asks for it gets it at once.
-/
import MantisDns.Dhcp4
import MantisDns.Dhcp6

open Text Table Dhcp List

namespace Dhcp

variable {ι ν σ κ χ μ : Type} [DecidableEq κ] [DecidableEq χ]

/-! ### Marks and promises -/

/-- The address that is marked as declined, and when. -/
def Event.marked : Event κ χ → Option ((Str × κ) × ℤ)
  | .decline scopeId ip _ time => some ((scopeId, ip), time)
  | .conflict scopeId ip time => some ((scopeId, ip), time)
  | _ => none

/-- The address that a client is offered or granted, and when. -/
def Event.promised : Event κ χ → Option ((Str × κ) × ℤ)
  | .offer scopeId ip _ time => some ((scopeId, ip), time)
  | .grant scopeId ip _ time _ => some ((scopeId, ip), time)
  | _ => none

/-- No address is promised before the end of a probation that began earlier in
the log. -/
def Honoured (probationS : ℤ) (log : List (Event κ χ)) : Prop :=
  log.Pairwise fun later earlier => ∀ key marked promised, earlier.marked = some (key, marked) →
    later.promised = some (key, promised) → marked + seconds probationS ≤ promised

/-- The address was marked, and its probation has not ended. -/
def Daemon.InProbation (D : Daemon ν σ κ χ μ) (s : State ι ν σ κ χ) (key : Str × κ) : Prop :=
  ∃ e ∈ s.log, ∃ time, e.marked = some (key, time) ∧ s.now < time + seconds D.declineProbationS

/-- The address that a handler is about to write and tell its client. -/
def Family.promises (F : Family σ κ χ) : Phase σ κ χ → Option (Str × κ)
  | .task (.reply job _ ip) => some (F.scopeId job.scope, ip)
  | .task (.confirm job _ ip) => some (F.scopeId job.scope, ip)
  | .inserting job _ _ _ ip => some (F.scopeId job.scope, ip)
  | .renewing job _ _ _ ip => some (F.scopeId job.scope, ip)
  | _ => none

/-- The address that a handler has settled on, after its last look at the row. -/
def Family.chosen (F : Family σ κ χ) : Phase σ κ χ → Option (Str × κ)
  | .task (.reply job _ ip) => some (F.scopeId job.scope, ip)
  | .probing job _ _ ip => some (F.scopeId job.scope, ip)
  | .guarding job _ _ ip => some (F.scopeId job.scope, ip)
  | .inserting job _ _ _ ip => some (F.scopeId job.scope, ip)
  | .renewing job _ _ _ ip => some (F.scopeId job.scope, ip)
  | _ => none

/-- The address that a handler is about to mark. -/
def Family.marks (F : Family σ κ χ) (T : Leases κ χ) : Phase σ κ χ → Option (Str × κ)
  | .marking job _ _ ip => some (F.scopeId job.scope, ip)
  | .task (.decline scopeId client ip) =>
    if T.rows.any (heldBy scopeId ip client) then some (scopeId, ip) else none
  | _ => none

def IsDeclined (T : Leases κ χ) (key : Str × κ) : Prop :=
  ∃ row, T.find key = some row ∧ row.state = .declined

/-- What is asked of a handler whose statement does not mind declined rows by itself, and of
one that marks an address. -/
def Daemon.Minds (D : Daemon ν σ κ χ μ) (s : State ι ν σ κ χ) : Phase σ κ χ → Prop
  -- the claim asks for the states 0 and 2 only, the confirmation for nothing
  | .checking job _ _ ip => ¬IsDeclined s.leases (D.scopeId job.scope, ip)
  | .task (.confirm job _ ip) => ¬IsDeclined s.leases (D.scopeId job.scope, ip)
  | .task (.release scopeId client leaseType _) => ∀ row ∈ s.leases.rows,
    row.scopeId = scopeId ∧ row.client = client ∧ D.leaseType row.ip = leaseType →
      row.state = .declined → ¬D.InProbation s row.key
  -- the sweep counts from `allocated_at`, which may be before the mark
  | .purging called => ∀ row ∈ s.leases.rows, D.PastProbation called row = true →
    ∀ e ∈ s.log, ∀ time, e.marked = some (row.key, time) → row.allocatedAt < time →
      time + seconds D.declineProbationS ≤ s.now
  | p => ∀ key, D.marks s.leases p = some key → ∀ j, D.chosen (s.phase j) ≠ some key

/-- The steps at which a declined row could be overlooked mind it; of the packets only a
DISCOVER or SOLICIT of a client with a reservation is such a step. -/
def MindsDeclined (D : Daemon ν σ κ χ μ) (s : State ι ν σ κ χ) : Label ι ν σ κ χ → Prop
  | .receive _ (.reply job _ ip) => ¬IsDeclined s.leases (D.scopeId job.scope, ip)
  | .read i => D.Minds s (s.phase i)
  | .write i => D.Minds s (s.phase i)
  | _ => True

/-! ### One statement -/

section Write

variable {D : Daemon ν σ κ χ μ} {now : ℤ} {T T' : Leases κ χ} {p q : Phase σ κ χ}
  {events : List (Event κ χ)} {e : Event κ χ} {key : Str × κ} {time : ℤ}

omit [DecidableEq κ] [DecidableEq χ] in
theorem Answer.of_mem_events {answer : Answer} {scopeId : Str} {ip : κ} {client : χ} {expires : ℤ}
    (he : e ∈ answer.events scopeId ip client now expires) :
    e.marked = none ∧ e.promised = some ((scopeId, ip), now) := by
  cases answer with
  | refuse => exact absurd he not_mem_nil
  | _ =>
    obtain rfl := mem_singleton.mp he
    exact ⟨rfl, rfl⟩

theorem Writes.of_marked (h : Writes D now T p T' q events) (he : e ∈ events)
    (hmar : e.marked = some (key, time)) :
    time = now ∧ (∃ row, T'.find key = some row ∧ row.state = .declined) ∧
      ((∃ job excluded left ip, p = .marking job excluded left ip ∧
        key = (D.scopeId job.scope, ip)) ∨ ∃ row, T.find key = some row ∧ row.state = .active) := by
  have hans : e.marked ≠ none := by simp [hmar]
  cases h with
  | reply | insert | renew => exact absurd (Answer.of_mem_events he).1 hans
  | confirm | release =>
    obtain rfl := mem_singleton.mp he
    cases hmar
  | @mark job excluded left ip =>
    obtain rfl := mem_singleton.mp he
    cases hmar
    refine ⟨rfl, ⟨_, D.find_markDeclined.trans (if_pos rfl), ?_⟩, .inl ⟨_, _, _, _, rfl, rfl⟩⟩
    cases T.find (D.scopeId job.scope, ip) <;> rfl
  | @decline scopeId client ip =>
    split at he
    · rename_i hany
      -- a DECLINE marks what it finds active
      obtain ⟨row, hmem, hheld⟩ := List.any_eq_true.mp hany
      obtain rfl := mem_singleton.mp he
      cases hmar
      have hrow : T.find (scopeId, ip) = some row :=
        T.find_eq_some_iff.mpr ⟨hmem, (of_decide_eq_true hheld).1⟩
      refine ⟨rfl, ⟨{ row with state := .declined }, ?_, rfl⟩, .inr ⟨row, hrow, ?_⟩⟩
      · rw [find_decline, hrow, Option.map_some, if_pos hheld]
      · exact (of_decide_eq_true hheld).2.2
    · simp at he
  | expire | purge | free => simp at he

theorem Writes.of_promised (h : Writes D now T p T' q events) (he : e ∈ events)
    (hpro : e.promised = some (key, time)) : time = now ∧ D.promises p = some key := by
  have hans : ∀ {address : Str × κ}, e.promised = some (address, now) →
      time = now ∧ some address = some key := by
    intro address hadd
    cases hadd.symm.trans hpro
    exact ⟨rfl, rfl⟩
  cases h with
  | reply | insert | renew => exact hans (Answer.of_mem_events he).2
  | confirm =>
    obtain rfl := mem_singleton.mp he
    cases hpro
    exact ⟨rfl, rfl⟩
  | mark | release =>
    obtain rfl := mem_singleton.mp he
    cases hpro
  | decline =>
    split at he
    · obtain rfl := mem_singleton.mp he
      cases hpro
    · simp at he
  | expire | purge | free => simp at he

theorem Writes.pairwise_events (h : Writes D now T p T' q events)
    (R : Event κ χ → Event κ χ → Prop) : events.Pairwise R := by
  have hans : ∀ {answer : Answer} {scopeId : Str} {ip : κ} {client : χ} {expires : ℤ},
      (answer.events scopeId ip client now expires).Pairwise R := by
    intro answer
    cases answer <;> simp [Answer.events]
  cases h with
  | reply | insert | renew => exact hans
  | decline =>
    split
    · exact pairwise_singleton ..
    · exact .nil
  | _ => simp

theorem Writes.declined_cases (h : Writes D now T p T' q events) (hdec : IsDeclined T' key) :
    IsDeclined T key ∨ D.marks T p = some key := by
  obtain ⟨row, hrow, hst⟩ := hdec
  -- only a conflict and a DECLINE set the state; the other statements keep or clear it
  cases h with
  | reply => exact .inl ⟨row, hrow, hst⟩
  | insert | confirm =>
    rw [Store.find_upsert] at hrow
    split at hrow
    · cases hrow
      cases hst
    · exact .inl ⟨row, hrow, hst⟩
  | renew =>
    rw [Family.find_renewRow] at hrow
    split at hrow
    · obtain ⟨old, hold, rfl⟩ := Option.map_eq_some_iff.mp hrow
      exact .inl ⟨old, hold, hst⟩
    · exact .inl ⟨row, hrow, hst⟩
  | mark =>
    rw [Family.find_markDeclined] at hrow
    split at hrow
    · rename_i hkey
      exact .inr (congrArg some hkey)
    · exact .inl ⟨row, hrow, hst⟩
  | release =>
    rw [Family.find_release] at hrow
    exact .inl ⟨row, (Option.filter_eq_some_iff.mp hrow).1, hst⟩
  | decline =>
    rw [find_decline] at hrow
    obtain ⟨old, hold, rfl⟩ := Option.map_eq_some_iff.mp hrow
    split at hst
    · rename_i hheld
      obtain ⟨hmem, rfl⟩ := T.find_eq_some_iff.mp hold
      right
      rw [Family.marks, if_pos (List.any_eq_true.mpr ⟨old, hmem, hheld⟩),
        (of_decide_eq_true hheld).1]
    · exact .inl ⟨old, hold, hst⟩
  | expire =>
    rw [find_expireRows] at hrow
    obtain ⟨old, hold, rfl⟩ := Option.map_eq_some_iff.mp hrow
    split at hst
    · cases hst
    · exact .inl ⟨old, hold, hst⟩
  | purge | free =>
    rw [Store.find_delete] at hrow
    exact .inl ⟨row, (Option.filter_eq_some_iff.mp hrow).1, hst⟩

end Write

/-! ### Phases -/

section Phases

variable {F : Family σ κ χ} {D : Daemon ν σ κ χ μ} {now called : ℤ} {T T' : Leases κ χ}
  {reservations : List StaticLease} {p q : Phase σ κ χ}

/-- The start of a sweep that has not purged yet. -/
def Phase.sweptAt : Phase σ κ χ → Option ℤ
  | .expiring called => some called
  | .purging called => some called
  | _ => none

omit [DecidableEq χ] in
theorem Reads.sweptAt_eq_none (h : Reads F now T reservations p q) : q.sweptAt = none := by
  cases h with
  | @notFound job mode => cases mode <;> rfl
  | peek => split <;> rfl
  | collided =>
    rw [nextScan]
    split <;> rfl
  | _ => rfl

omit [DecidableEq χ] in
theorem Fails.chosen_sweptAt (h : Fails p q) : F.chosen q = none ∧ q.sweptAt = none := by
  cases h with
  | abort => exact ⟨rfl, rfl⟩
  | @lookup job mode => cases mode <;> exact ⟨rfl, rfl⟩
  | mark =>
    rw [nextPeek]
    split <;> exact ⟨rfl, rfl⟩

theorem Writes.chosen_eq_none {events : List (Event κ χ)} (h : Writes D now T p T' q events) :
    D.chosen q = none := by
  have hres := h.rests
  cases hres <;> rfl

theorem Writes.sweptAt {events : List (Event κ χ)} (h : Writes D now T p T' q events)
    (hq : q.sweptAt = some called) : p.sweptAt = some called := by
  cases h with
  | expire => exact hq
  | mark =>
    rw [nextPeek] at hq
    split at hq <;> cases hq
  | _ => cases hq

end Phases

/-! ### Runs -/

/-- Every address in probation has its declined row, and no handler has settled on an
address with such a row. -/
structure ProbationInv (D : Daemon ν σ κ χ μ) (s : State ι ν σ κ χ) : Prop where
  declined : ∀ key, D.InProbation s key → IsDeclined s.leases key
  chosen : ∀ i key, D.chosen (s.phase i) = some key → ¬IsDeclined s.leases key
  sweeps : ∀ i called, (s.phase i).sweptAt = some called → called ≤ s.now
  honoured : Honoured D.declineProbationS s.log

variable {D : Daemon ν σ κ χ μ} {s t : State ι ν σ κ χ} {l : Label ι ν σ κ χ} {i : ι}
  {key : Str × κ} {T : Leases κ χ} {q : Phase σ κ χ} {events : List (Event κ χ)}

/-- **What a handler settles on it has looked at**: a search finds addresses without a row, and a
lookup finds active leases. -/
theorem ProbationInv.chosen_read (hs : ProbationInv D s) (hok : D.Minds s (s.phase i))
    (h : Reads D.toFamily s.now s.leases s.config.reservations (s.phase i) q)
    (hq : D.chosen q = some key) : ¬IsDeclined s.leases key := by
  rintro ⟨row, hrow, hst⟩
  have hi := hs.chosen i key
  generalize s.phase i = p at h hi hok
  cases h with
  | found hmem hown | selected hmem hown =>
    cases hq
    have hkey := s.leases.find_eq_some_iff.mpr ⟨hmem, rfl⟩
    rw [Lease.key, hown.1, hrow] at hkey
    cases hkey
    exact absurd (hst.symm.trans hown.2.2.2) (by decide)
  | peek hscan =>
    split at hq
    all_goals
      cases hq
      cases (D.scan_free hscan).2.1.symm.trans hrow
  | scanned hscan =>
    cases hq
    cases (D.scan_free hscan).2.1.symm.trans hrow
  -- a probe without an answer and the look at the reservations keep the address
  | silent | unreserved => exact hi hq ⟨row, hrow, hst⟩
  | unheld | undelegated =>
    cases hq
    exact hok ⟨row, hrow, hst⟩
  | @notFound job mode => cases mode <;> cases hq
  | collided =>
    rw [nextScan] at hq
    split at hq <;> cases hq
  | _ => cases hq

theorem ProbationInv.not_promised (hs : ProbationInv D s) (hok : D.Minds s (s.phase i))
    (hkey : D.promises (s.phase i) = some key) : ¬IsDeclined s.leases key := by
  have hi := hs.chosen i key
  generalize s.phase i = p at hkey hi hok
  rw [Family.promises.eq_def] at hkey
  split at hkey
  · exact hi hkey
  · cases hkey
    exact hok
  · exact hi hkey
  · exact hi hkey
  · cases hkey

theorem ProbationInv.declined_write (hs : ProbationInv D s)
    (h : Writes D s.now s.leases (s.phase i) T q events) (hok : D.Minds s (s.phase i))
    (hin : D.InProbation s key) : IsDeclined T key := by
  obtain ⟨row, hrow, hst⟩ := hs.declined key hin
  obtain ⟨hmem, rfl⟩ := s.leases.find_eq_some_iff.mp hrow
  by_cases htou : Touches D s.now (s.phase i) row
  · have hi := hs.chosen i row.key
    have hswe := hs.sweeps i
    generalize s.phase i = p at h htou hi hswe hok
    cases htou with
    | insert hat | renew hat => exact absurd ⟨row, hrow, hst⟩ (hi (congrArg some hat.symm))
    | confirm hat => exact absurd (hat ▸ ⟨row, hrow, hst⟩) hok
    | mark hat =>
      -- marked once more
      cases h
      refine ⟨_, D.find_markDeclined.trans (if_pos hat.symm), ?_⟩
      rw [hrow]
      rfl
    | release hown => exact absurd hin (hok row hmem hown hst)
    | decline hheld => exact absurd (hst.symm.trans (of_decide_eq_true hheld).2.2) (by decide)
    | expire hlap => exact absurd (hst.symm.trans (of_decide_eq_true hlap).1) (by decide)
    | @purge called _ hpast =>
      -- the cutoff lies in the past, so a mark that is not over came after `allocated_at`
      obtain ⟨e, he, time, hmar, hnow⟩ := hin
      have hcal : called ≤ s.now := hswe called rfl
      have hcut := (of_decide_eq_true hpast).2
      exact absurd (hok row hmem hpast e he time hmar (by omega)) (not_le.mpr hnow)
    | free hpast => exact absurd (hst.symm.trans (of_decide_eq_true hpast).1) (by decide)
  · exact ⟨row, h.find_of_not_touches hrow htou, hst⟩

theorem ProbationInv.chosen_write (hs : ProbationInv D s)
    (h : Writes D s.now s.leases (s.phase i) T q events) (hok : D.Minds s (s.phase i)) {j : ι}
    (hj : D.chosen (s.phase j) = some key) : ¬IsDeclined T key := by
  intro hdec
  rcases h.declined_cases hdec with hold | hmark
  · exact hs.chosen j key hj hold
  · generalize s.phase i = p at hmark hok
    rw [Family.marks.eq_def] at hmark
    split at hmark
    · exact hok key hmark j hj
    · exact hok key hmark j hj
    · cases hmark

variable [DecidableEq ι]

omit [DecidableEq χ] in
theorem ProbationInv.set {p : Phase σ κ χ} (hs : ProbationInv D s)
    (hcho : ∀ key, D.chosen p = some key → ¬IsDeclined s.leases key)
    (hswe : ∀ called, p.sweptAt = some called → called ≤ s.now) :
    ProbationInv D (s.set i p) where
  declined := hs.declined
  chosen := forall_phase_set
    (P := fun _ p => ∀ key, D.chosen p = some key → ¬IsDeclined s.leases key) hcho
    fun j _ => hs.chosen j
  sweeps := forall_phase_set (P := fun _ p => ∀ called, p.sweptAt = some called → called ≤ s.now)
    hswe fun j _ => hs.sweeps j
  honoured := hs.honoured

theorem ProbationInv.commit (hs : ProbationInv D s)
    (h : Writes D s.now s.leases (s.phase i) T q events) (hok : D.Minds s (s.phase i)) :
    ProbationInv D (s.commit i T q events) where
  declined := by
    rintro key ⟨e, he, time, hmar, hnow⟩
    rcases mem_append.mp he with hnew | hold
    · exact (h.of_marked hnew hmar).2.1
    · exact hs.declined_write h hok ⟨e, hold, time, hmar, hnow⟩
  chosen := forall_phase_set (P := fun _ p => ∀ key, D.chosen p = some key → ¬IsDeclined T key)
    (fun key hkey => absurd hkey (by simp [h.chosen_eq_none]))
    fun j _ key => hs.chosen_write h hok
  sweeps := forall_phase_set (P := fun _ p => ∀ called, p.sweptAt = some called → called ≤ s.now)
    (fun called hq => hs.sweeps i called (h.sweptAt hq)) fun j _ => hs.sweeps j
  honoured := by
    refine pairwise_append.mpr ⟨h.pairwise_events _, hs.honoured, ?_⟩
    intro later hlat earlier hear key marked promised hmar hprom
    obtain ⟨rfl, hpro⟩ := h.of_promised hlat hprom
    by_contra hearl
    -- the address would be in probation, so its row would be declined
    exact hs.not_promised hok hpro
      (hs.declined key ⟨earlier, hear, marked, hmar, not_le.mp hearl⟩)

variable [DecidableEq ν]

theorem ProbationInv.step (hs : ProbationInv D s) (hok : MindsDeclined D s l)
    (hstep : Step D s l t) : ProbationInv D t := by
  cases hstep with
  | tick d =>
    refine ⟨?_, hs.chosen, fun i called hcal => ?_, hs.honoured⟩
    · rintro key ⟨e, he, time, hmar, hnow⟩
      have hnow : s.now + d < time + seconds D.declineProbationS := hnow
      exact hs.declined key ⟨e, he, time, hmar, by omega⟩
    · have hle := hs.sweeps i called hcal
      show called ≤ s.now + d
      omega
  | edit | refresh => exact ⟨hs.declined, hs.chosen, hs.sweeps, hs.honoured⟩
  | @receive i n scope msg task =>
    refine hs.set (fun key hkey => ?_) fun called hcal => by cases hcal
    -- of the tasks of a packet only a reply has settled on an address
    cases task with
    | reply =>
      cases hkey
      exact hok
    | _ => cases hkey
  | sweep =>
    refine hs.set (fun key hkey => by cases hkey) fun called hcal => ?_
    cases hcal
    exact le_rfl
  | read h =>
    refine hs.set (fun key => hs.chosen_read hok h) fun called hcal => ?_
    simp [h.sweptAt_eq_none] at hcal
  | write h => exact hs.commit h hok
  | fail h =>
    refine hs.set (fun key hkey => ?_) fun called hcal => ?_
    · simp [h.chosen_sweptAt.1] at hkey
    · simp [(h.chosen_sweptAt (F := D.toFamily)).2] at hcal

omit [DecidableEq ι] [DecidableEq ν] [DecidableEq χ] in
theorem probationInv_fresh (now : ℤ) (scopes : List σ) :
    ProbationInv D (State.fresh now scopes : State ι ν σ κ χ) where
  declined := by
    rintro key ⟨e, he, -⟩
    exact absurd he not_mem_nil
  chosen _ _ hkey := by cases hkey
  sweeps _ _ hcal := by cases hcal
  honoured := .nil

theorem honoured_of_run {now : ℤ} {scopes : List σ}
    (h : RunWhile D (MindsDeclined D) (State.fresh now scopes) s) :
    Honoured D.declineProbationS s.log :=
  (h.induct (probationInv_fresh now scopes) fun hs hok => hs.step hok).honoured

/-- **The probation of a declined address is honoured**, by both daemons. -/
theorem probation_honoured (now : ℤ) :
    (∀ (srv : ν → Dhcp4.Server) (sweep : Sweep) (scopes : List Dhcp4.Scope)
        (s : State ι ν Dhcp4.Scope UInt32 Dhcp4.Mac),
      RunWhile (Dhcp4.daemon srv sweep) (MindsDeclined (Dhcp4.daemon srv sweep))
        (State.fresh now scopes) s →
      Honoured sweep.declineProbationS s.log) ∧
    ∀ (srv : ν → Dhcp6.Server) (sweep : Sweep) (scopes : List Dhcp6.Scope)
        (s : State ι ν Dhcp6.Scope Dhcp6.Key Dhcp6.Duid),
      RunWhile (Dhcp6.daemon srv sweep) (MindsDeclined (Dhcp6.daemon srv sweep))
        (State.fresh now scopes) s →
      Honoured sweep.declineProbationS s.log :=
  ⟨fun _ _ _ _ h => honoured_of_run h, fun _ _ _ _ h => honoured_of_run h⟩

/-- A condition on runs that can be executed: addresses without a row are claimed, and a
DECLINE comes when no address is chosen. -/
def Daemon.claimsUnused [Fintype ι] (D : Daemon ν σ κ χ μ) (s : State ι ν σ κ χ) :
    Phase σ κ χ → Bool
  | .checking job _ _ ip => (s.leases.find (D.scopeId job.scope, ip)).isNone
  | .task (.decline ..) => ∀ j, (D.chosen (s.phase j)).isNone = true
  | .task (.confirm ..) | .task (.release ..) | .marking .. | .purging _ => false
  | _ => true

omit [DecidableEq ι] [DecidableEq ν] in
theorem minds_of_claimsUnused [Fintype ι] {p : Phase σ κ χ} (h : D.claimsUnused s p = true) :
    D.Minds s p := by
  rw [Daemon.Minds.eq_def]
  split
  · rintro ⟨row, hrow, -⟩
    simp [Daemon.claimsUnused, hrow] at h
  · cases h
  · cases h
  · cases h
  · intro key hmark j
    rw [Family.marks.eq_def] at hmark
    split at hmark
    · cases h
    · have hnone := of_decide_eq_true h j
      simp [Option.isNone_iff_eq_none.mp hnone]
    · cases hmark

def claimsUnused [Fintype ι] (D : Daemon ν σ κ χ μ) (s : State ι ν σ κ χ) : Label ι ν σ κ χ → Bool
  | .receive _ (.reply ..) => false
  | .read i => D.claimsUnused s (s.phase i)
  | .write i => D.claimsUnused s (s.phase i)
  | _ => true

omit [DecidableEq ι] [DecidableEq ν] in
theorem mindsDeclined_of_claimsUnused [Fintype ι] (h : claimsUnused D s l = true) :
    MindsDeclined D s l := by
  cases l with
  | receive i task =>
    cases task with
    | reply => cases h
    | _ => trivial
  | read | write => exact minds_of_claimsUnused h
  | _ => trivial

end Dhcp

namespace Dhcp4

/-- A client gets an address and declines it. -/
def sampleDeclined : List (Move Bool Unit Scope UInt32 Mac Message) :=
  sampleClaim false 1 0x0A000001 ++ [.receive true () 0 (sampleDecline 1 0x0A000001) 0, .write true]

/-- A client that asks for the address of a declined lease gets it at once. -/
theorem granted_in_probation :
    ∃ s : State Bool Unit Scope UInt32 Mac,
      RunWhile sampleDaemon (fun _ _ => True) (State.fresh 0 [sampleScope]) s ∧
      ¬Honoured sampleDaemon.declineProbationS s.log := by
  obtain ⟨s, hrun, hlog⟩ := exists_replay (D := sampleDaemon) (s := State.fresh 0 [sampleScope])
    (P := fun s => s.log = [.grant "lan" 0x0A000001 (sampleMac 2) 0 3600000000,
      .decline "lan" 0x0A000001 (sampleMac 1) 0,
      .grant "lan" 0x0A000001 (sampleMac 1) 0 3600000000])
    (K := fun _ _ => true) (fun _ _ _ => trivial)
    (sampleDeclined ++ sampleClaim false 2 0x0A000001)
    (by decide +kernel)
  refine ⟨s, hrun, fun h => ?_⟩
  rw [hlog] at h
  have hear : (0 : ℤ) + seconds 86400 ≤ 0 :=
    rel_of_pairwise_cons h (mem_cons_self ..) _ _ _ rfl rfl
  exact absurd hear (by decide)

end Dhcp4

namespace Dhcp

/-- After a DECLINE a search finds the other address; and a DHCPv6 client gets another one
than the one that was declined. -/
theorem probation_honoured_other :
    (∃ s : State Bool Unit Dhcp4.Scope UInt32 Dhcp4.Mac,
      RunWhile Dhcp4.sampleDaemon (MindsDeclined Dhcp4.sampleDaemon)
        (State.fresh 0 [Dhcp4.sampleScope]) s ∧
      s.log = [.offer "lan" 0x0A000002 (Dhcp4.sampleMac 2) 0,
        .decline "lan" 0x0A000001 (Dhcp4.sampleMac 1) 0,
        .grant "lan" 0x0A000001 (Dhcp4.sampleMac 1) 0 3600000000] ∧ Honoured 86400 s.log) ∧
    ∃ s : State Unit Unit Dhcp6.Scope Dhcp6.Key Dhcp6.Duid,
      RunWhile Dhcp6.sampleDaemon (MindsDeclined Dhcp6.sampleDaemon)
        (State.fresh 0 [Dhcp6.sampleScope]) s ∧
      s.log = [.grant "lan" (.na 2) (Dhcp6.duidHex [2]) 0 3600000000,
        .decline "lan" (.na 1) (Dhcp6.duidHex [1]) 0,
        .grant "lan" (.na 1) (Dhcp6.duidHex [1]) 0 3600000000] ∧ Honoured 86400 s.log := by
  -- the search for another client passes over the declined address
  obtain ⟨s, hrun, hlog⟩ := exists_replay (D := Dhcp4.sampleDaemon)
    (s := State.fresh 0 [Dhcp4.sampleScope])
    (P := fun s => s.log = [.offer "lan" 0x0A000002 (Dhcp4.sampleMac 2) 0,
      .decline "lan" 0x0A000001 (Dhcp4.sampleMac 1) 0,
      .grant "lan" 0x0A000001 (Dhcp4.sampleMac 1) 0 3600000000])
    (K := claimsUnused Dhcp4.sampleDaemon) (fun _ _ => mindsDeclined_of_claimsUnused)
    (Dhcp4.sampleDeclined ++ [.receive false () 0 (Dhcp4.sampleDiscover 2) 0, .read false,
      .read false, .read false, .write false])
    (by decide +kernel)
  obtain ⟨s6, hrun6, hlog6⟩ := exists_replay (D := Dhcp6.sampleDaemon)
    (s := State.fresh 0 [Dhcp6.sampleScope])
    (P := fun s => s.log = [.grant "lan" (.na 2) (Dhcp6.duidHex [2]) 0 3600000000,
      .decline "lan" (.na 1) (Dhcp6.duidHex [1]) 0,
      .grant "lan" (.na 1) (Dhcp6.duidHex [1]) 0 3600000000])
    (K := claimsUnused Dhcp6.sampleDaemon) (fun _ _ => mindsDeclined_of_claimsUnused)
    (Dhcp6.sampleClaim 1 1 ++ [.receive () () 0 (Dhcp6.sampleDecline 1 1) 0, .write ()] ++
      Dhcp6.sampleClaim 2 2)
    (by decide +kernel)
  exact ⟨⟨s, hrun, hlog, (probation_honoured 0).1 _ _ _ _ hrun⟩,
    ⟨s6, hrun6, hlog6, (probation_honoured 0).2 _ _ _ _ hrun6⟩⟩

end Dhcp
