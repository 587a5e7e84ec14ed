/-
Offers that can be accepted.

A client that is offered an address asks for it next, and should get it.  The
offer of an address from the pool is of one that a request may claim; the offer
of the client's active lease is of whatever address that lease is for.

* `offer_accepted_iff` — an offer is accepted exactly when it is of a reservation,
  or of an address in the pool that is not reserved for another client;
* `offer_refused` — the offer of a lease outside the range is refused.
-/
import MantisDns.ServedAlone

open Text Table Dhcp List Option

namespace Dhcp

variable {ι ν σ κ χ μ : Type} [DecidableEq κ] [DecidableEq χ] [DecidableEq ι] [DecidableEq ν]

/-! ### Packets -/

/-- The tasks of a packet, one after the other. -/
inductive ServedAll (D : Daemon ν σ κ χ μ) (i : ι) :
    State ι ν σ κ χ → List (Task σ κ χ) → State ι ν σ κ χ → Prop
  | nil {s : State ι ν σ κ χ} : ServedAll D i s [] s
  | cons {s u t : State ι ν σ κ χ} {task : Task σ κ χ} {tasks : List (Task σ κ χ)}
      (h : Served D i s task u) (hrest : ServedAll D i u tasks t) :
    ServedAll D i s (task :: tasks) t

/-- Meanwhile the client was offered the address. -/
def Offered (s t : State ι ν σ κ χ) (scopeId : Str) (ip : κ) (client : χ) : Prop :=
  ∃ time, Added s t (.offer scopeId ip client time)

/-- Meanwhile the client was granted the address. -/
def Granted (s t : State ι ν σ κ χ) (scopeId : Str) (ip : κ) (client : χ) : Prop :=
  ∃ time expires, Added s t (.grant scopeId ip client time expires)

/-- The packet can be served, and whenever it is, the client gets the address. -/
def Accepted (D : Daemon ν σ κ χ μ) (i : ι) (s : State ι ν σ κ χ) (tasks : List (Task σ κ χ))
    (scopeId : Str) (ip : κ) (client : χ) : Prop :=
  (∃ t, ServedAll D i s tasks t) ∧ ∀ t, ServedAll D i s tasks t → Granted s t scopeId ip client

/-- The address can be had: the client has a reservation, or it is in the pool
and no other client has reserved it. -/
def Family.Acceptable (F : Family σ κ χ) (config : Config σ) (snapshot : Snapshot σ κ)
    (scopeId : Str) (client : χ) (ip : κ) (inPool : Bool) : Prop :=
  (F.reservationFor snapshot scopeId client).isSome = true ∨
    inPool = true ∧ ∀ r ∈ config.reservations, F.ReservedAt scopeId ip r →
      F.owns r.client client = true

variable {D : Daemon ν σ κ χ μ} {s t u : State ι ν σ κ χ} {i : ι} {job : Job σ χ} {ip : κ}
  {tasks tail : List (Task σ κ χ)} {scopeId : Str} {client : χ}

theorem ServedAll.frame (h : ServedAll D i s tasks t) (hq : s.Quiet) :
    Undisturbed s t ∧ ∃ added, t.log = added ++ s.log := by
  induction h with
  | nil => exact ⟨⟨rfl, rfl, hq⟩, [], rfl⟩
  | cons h _ ih =>
    obtain ⟨hfr, added, hlog⟩ := h.induct (P := fun _ log _ => ∃ added, log = added ++ _) hq
      ⟨[], rfl⟩ (fun hP _ => hP)
      (by
        rintro now T log p T' q events ⟨added, rfl⟩ -
        exact ⟨events ++ added, (append_assoc ..).symm⟩)
    obtain ⟨hfr', added', hlog'⟩ := ih hfr.quiet
    refine ⟨⟨hfr'.config.trans hfr.config, hfr'.snapshot.trans hfr.snapshot,
      hfr'.quiet⟩, added' ++ added, ?_⟩
    rw [hlog', hlog, append_assoc]

theorem servedAll_append :
    ServedAll D i s (tasks ++ tail) t ↔ ∃ u, ServedAll D i s tasks u ∧ ServedAll D i u tail t := by
  constructor
  · intro h
    induction tasks generalizing s with
    | nil => exact ⟨s, .nil, h⟩
    | cons task tasks ih =>
      cases h with
      | cons h hrest =>
        obtain ⟨v, hv, htail⟩ := ih hrest
        exact ⟨v, .cons h hv, htail⟩
  · rintro ⟨u, h, htail⟩
    induction h with
    | nil => exact htail
    | cons h _ ih => exact .cons h (ih htail)

/-! ### What is delegated on the side -/

/-- Claims of what IA_PD delegates. -/
def Delegations (F : Family σ κ χ) (tasks : List (Task σ κ χ)) : Prop :=
  ∀ task ∈ tasks, ∃ job answer ip, task = .transact job (.claim answer ip) ∧ F.leaseType ip = .pd

omit [DecidableEq χ] [DecidableEq ι] [DecidableEq ν] in
theorem delegations_nil {F : Family σ κ χ} : Delegations F [] :=
  fun _ h => absurd h not_mem_nil

theorem exists_servedAll_delegations (hq : s.Quiet) (htas : Delegations D.toFamily tasks) :
    ∃ t, ServedAll D i s tasks t := by
  induction tasks generalizing s with
  | nil => exact ⟨s, .nil⟩
  | cons task tasks ih =>
    obtain ⟨job, answer, ip, rfl, hpd⟩ := htas task (mem_cons_self ..)
    have hser : ∃ u, Served D i s (.transact job (.claim answer ip)) u :=
      exists_served_delegation hq hpd
    obtain ⟨u, hu⟩ := hser
    obtain ⟨t, ht⟩ := ih (hu.claim_cases hq).1.quiet
      fun task' h' => htas task' (mem_cons_of_mem _ h')
    exact ⟨t, .cons hu ht⟩

theorem ServedAll.delegations (h : ServedAll D i s tasks t) (hq : s.Quiet)
    (htas : Delegations D.toFamily tasks) :
    (∀ scopeId ip, D.leaseType ip = .na →
        t.leases.find (scopeId, ip) = s.leases.find (scopeId, ip)) ∧
      ∃ added, t.log = added ++ s.log ∧
        ∀ e ∈ added, ∀ key time, e.promised = some (key, time) → D.leaseType key.2 = .pd := by
  induction h with
  | nil => exact ⟨fun _ _ _ => rfl, [], rfl, fun e he => absurd he not_mem_nil⟩
  | @cons s u t task tasks h _ ih =>
    obtain ⟨job, answer, ip, rfl, hpd⟩ := htas task (mem_cons_self ..)
    obtain ⟨hfr, hcas⟩ := h.claim_cases hq
    obtain ⟨hfind, added, hlog, hadd⟩ :=
      ih hfr.quiet fun task' h' => htas task' (mem_cons_of_mem _ h')
    rcases hcas with ⟨hls, hsame, -⟩ | ⟨time, began, expires, hls, hnew⟩
    · exact ⟨fun scopeId ip' hna => hls ▸ hfind scopeId ip' hna, added, hsame ▸ hlog, hadd⟩
    · refine ⟨fun scopeId ip' hna => ?_,
        added ++ answer.events (D.scopeId job.scope) ip job.client time expires, ?_, ?_⟩
      · -- a delegated prefix has another key
        rw [hfind scopeId ip' hna, hls, Store.find_upsert, if_neg]
        intro hkey
        obtain ⟨-, rfl⟩ := Prod.mk.inj hkey
        exact absurd (hpd.symm.trans hna) (by decide)
      · rw [hlog, hnew, append_assoc]
      · intro e he key time' hpro
        rcases mem_append.mp he with hlat | hown
        · exact hadd e hlat key time' hpro
        · cases (Answer.of_mem_events hown).2.symm.trans hpro
          exact hpd

omit [DecidableEq κ] [DecidableEq χ] [DecidableEq ι] [DecidableEq ν] in
theorem not_added_self {e : Event κ χ} : ¬Added s s e := by
  rintro ⟨added, hlog, hmem⟩
  obtain rfl := append_cancel_right ((nil_append s.log).trans hlog)
  simp at hmem

theorem Added.of_delegations {e : Event κ χ} {time : ℤ} (h : Added s t e)
    (hpro : e.promised = some ((scopeId, ip), time)) (hna : D.leaseType ip = .na)
    (hbef : ∃ added, u.log = added ++ s.log) (htail : ServedAll D i u tail t) (hq : u.Quiet)
    (htas : Delegations D.toFamily tail) : Added s u e := by
  obtain ⟨added, hlog, hmem⟩ := h
  obtain ⟨first, hfst⟩ := hbef
  obtain ⟨-, rest, hrest, hpd⟩ := htail.delegations hq htas
  rw [hrest, hfst, ← append_assoc] at hlog
  obtain rfl := append_cancel_right hlog
  refine ⟨first, hfst, (mem_append.mp hmem).resolve_left fun hside => ?_⟩
  exact absurd ((hpd e hside _ _ hpro).symm.trans hna) (by decide)

omit [DecidableEq κ] [DecidableEq χ] [DecidableEq ι] [DecidableEq ν] in
theorem Added.append {e : Event κ χ} (h : Added s u e) (hlat : ∃ added, t.log = added ++ u.log) :
    Added s t e := by
  obtain ⟨added, hlog, hmem⟩ := h
  obtain ⟨later, hlat⟩ := hlat
  exact ⟨later ++ added, by rw [hlat, hlog, append_assoc], mem_append_right _ hmem⟩

theorem accepted_append (hq : s.Quiet) (hna : D.leaseType ip = .na)
    (htail : Delegations D.toFamily tail) :
    Accepted D i s (tasks ++ tail) scopeId ip client ↔
      Accepted D i s tasks scopeId ip client := by
  constructor
  · rintro ⟨⟨t, ht⟩, hall⟩
    obtain ⟨u, hu, -⟩ := servedAll_append.mp ht
    refine ⟨⟨u, hu⟩, fun v hv => ?_⟩
    obtain ⟨hfr, hlog⟩ := hv.frame hq
    obtain ⟨w, hw⟩ := exists_servedAll_delegations hfr.quiet htail
    obtain ⟨time, expires, hadd⟩ := hall w (servedAll_append.mpr ⟨v, hv, hw⟩)
    exact ⟨time, expires, hadd.of_delegations rfl hna hlog hw hfr.quiet htail⟩
  · rintro ⟨⟨u, hu⟩, hall⟩
    obtain ⟨w, hw⟩ := exists_servedAll_delegations (hu.frame hq).1.quiet htail
    refine ⟨⟨w, servedAll_append.mpr ⟨u, hu, hw⟩⟩, fun t ht => ?_⟩
    obtain ⟨v, hv, hside⟩ := servedAll_append.mp ht
    obtain ⟨time, expires, hadd⟩ := hall v hv
    exact ⟨time, expires, hadd.append (hside.frame (hv.frame hq).1.quiet).2⟩

/-! ### Offers -/

theorem offered_reply {ip' : κ} (h : ServedAll D i s (.reply job .advertise ip' :: tail) t)
    (hq : s.Quiet) (htail : Delegations D.toFamily tail) (hna : D.leaseType ip = .na)
    (hof : Offered s t scopeId ip client) : ip' = ip := by
  obtain ⟨time, hof⟩ := hof
  cases h with
  | cons h hrest =>
    obtain ⟨hfr, -, time', expires, hlog⟩ := h.reply_eq hq
    obtain ⟨added, hlog', hmem⟩ :=
      hof.of_delegations rfl hna ⟨_, hlog⟩ hrest hfr.quiet htail
    obtain rfl := append_cancel_right (hlog.symm.trans hlog')
    cases mem_singleton.mp hmem
    rfl

theorem offered_lookup {mode : Lookup} (h : ServedAll D i s (.lookup job mode :: tail) t)
    (hq : s.Quiet) (htail : Delegations D.toFamily tail) (hna : D.leaseType ip = .na)
    (hof : Offered s t scopeId ip client) : D.Unheld t.leases job ip := by
  obtain ⟨time, hof⟩ := hof
  cases h with
  | cons h hrest =>
    obtain ⟨hfr, hlog⟩ := (ServedAll.cons h .nil).frame hq
    have hfree := h.unheld_of_offered hq rfl
      (hof.of_delegations rfl hna hlog hrest hfr.quiet htail)
    intro row hrow hst
    rw [(hrest.delegations hfr.quiet htail).1 _ _ hna] at hrow
    exact hfree row hrow hst

instance (i : ι) : DecidablePred (Own i : Label ι ν σ κ χ → Prop)
  | .tick => isTrue trivial
  | .read j | .write j => inferInstanceAs (Decidable (j = i))
  | .edit _ | .refresh _ | .receive .. | .sweep _ | .fail _ => isFalse id

theorem exists_servedAll_offered [Fintype ι] (task : Task σ κ χ) (scopeId : Str) (ip : κ)
    (client : χ) (time : ℤ) (moves : List (Move ι ν σ κ χ μ))
    (h : (replay D (fun _ l => Own i l) moves (s.set i (.task task))).any (fun t =>
      (t.phase i).isIdle = true ∧ t.log = [.offer scopeId ip client time] ++ s.log) = true) :
    ∃ t, ServedAll D i s [task] t ∧ Offered s t scopeId ip client := by
  obtain ⟨t, hrun, hidle, hlog⟩ :=
    exists_replay (C := fun _ => Own i) (fun _ _ => of_decide_eq_true) moves h
  exact ⟨t, .cons ⟨hrun, Phase.eq_idle_of_isIdle hidle⟩ .nil, time, _, hlog,
    mem_singleton.mpr rfl⟩

theorem not_offered_delegations (h : ServedAll D i s tail t) (hq : s.Quiet)
    (htail : Delegations D.toFamily tail) (hna : D.leaseType ip = .na) :
    ¬Offered s t scopeId ip client := by
  rintro ⟨time, hof⟩
  exact not_added_self (hof.of_delegations rfl hna ⟨[], rfl⟩ h hq htail)

/-! ### Requests -/

theorem accepted_confirm {expires : ℤ} (hq : s.Quiet) :
    Accepted D i s [.confirm job expires ip] (D.scopeId job.scope) ip job.client := by
  have hser : Served D i s (.confirm job expires ip) _ :=
    ⟨RunWhile.write .refl rfl (hq i) .confirm, hq i⟩
  refine ⟨⟨_, .cons hser .nil⟩, fun t ht => ?_⟩
  cases ht with
  | cons h hrest =>
    cases hrest
    obtain ⟨time, hlog⟩ := h.confirm_eq hq
    exact ⟨time, expires, [_], hlog, mem_singleton.mpr rfl⟩

theorem not_accepted_nil : ¬Accepted D i s [] scopeId ip client := by
  rintro ⟨-, hall⟩
  obtain ⟨time, expires, hadd⟩ := hall s .nil
  exact not_added_self hadd

theorem accepted_claim_iff (hq : s.Quiet) (hna : D.leaseType ip = .na)
    (hfree : D.Unheld s.leases job ip) :
    Accepted D i s [.transact job (.claim .grant ip)] (D.scopeId job.scope) ip job.client ↔
      ∀ r ∈ s.config.reservations, D.ReservedAt (D.scopeId job.scope) ip r →
        D.owns r.client job.client = true := by
  constructor
  · rintro ⟨-, hall⟩ r hr hat
    by_contra hown
    -- a reservation of another client refuses the claim
    have href : Served D i s (.transact job (.claim .grant ip)) s :=
      served_claim_refused hq hna hfree hr hat (Bool.eq_false_iff.mpr hown)
    obtain ⟨time, expires, hadd⟩ := hall s (.cons href .nil)
    exact not_added_self hadd
  · intro hres
    have hser : ∃ u, Served D i s (.transact job (.claim .grant ip)) u :=
      exists_served_claim hq hna hfree hres
    obtain ⟨u, hu⟩ := hser
    refine ⟨⟨u, .cons hu .nil⟩, fun t ht => ?_⟩
    cases ht with
    | cons h hrest =>
      cases hrest
      rcases (h.claim_cases hq).2 with ⟨-, -, hheld | ⟨r, hr, hat, hown⟩⟩ |
        ⟨time, began, expires, -, hlog⟩
      · exact absurd hfree hheld
      · exact absurd (hres r hr hat) (by simp [hown])
      · exact ⟨time, expires, [_], hlog, mem_singleton.mpr rfl⟩

theorem accepted_pool_iff {inPool : Bool} (hq : s.Quiet) (hna : D.leaseType ip = .na)
    (hfree : D.Unheld s.leases job ip) :
    Accepted D i s (if inPool = true then [.transact job (.claim .grant ip)] else [])
        (D.scopeId job.scope) ip job.client ↔
      inPool = true ∧ ∀ r ∈ s.config.reservations, D.ReservedAt (D.scopeId job.scope) ip r →
        D.owns r.client job.client = true := by
  cases inPool with
  | false => exact iff_of_false not_accepted_nil nofun
  | true => exact (accepted_claim_iff hq hna hfree).trans (and_iff_right rfl).symm

end Dhcp

namespace Dhcp4

variable {ι ν : Type} [DecidableEq ι] [DecidableEq ν]

/-- The REQUEST of the same client that selects this server's offer. -/
structure Message.Selects (msg : Message) (srv : Server) (req : Message) (ip : UInt32) : Prop where
  request : req.messageType = .request
  chaddr : req.chaddr = msg.chaddr
  requestedIp : req.requestedIp = some ip
  serverIdentifier : req.serverIdentifier = some srv.serverIp

theorem accepted_iff {srv : ν → Server} {sweep : Sweep} {s t : State ι ν Scope UInt32 Mac} {i : ι}
    {n : ν} {scope : Scope} {msg req : Message} {ip : UInt32} (hq : s.Quiet)
    (hdis : msg.messageType = .discover) (hreq : msg.Selects (srv n) req ip)
    (hser : ServedAll (daemon srv sweep) i s
      (handle (srv n) (s.snapshot n) scope msg s.now) t)
    (hof : Offered s t scope.id ip (macFromChaddr msg.chaddr)) :
    Accepted (daemon srv sweep) i t (handle (srv n) (t.snapshot n) scope req t.now) scope.id ip
        (macFromChaddr msg.chaddr) ↔
      family.Acceptable s.config (s.snapshot n) scope.id (macFromChaddr msg.chaddr) ip
        (scope.inPool ip) := by
  obtain ⟨hfr, -⟩ := hser.frame hq
  simp only [handle, hdis] at hser
  have hhere : req.elsewhere (srv n) = false := by simp [Message.elsewhere, hreq.serverIdentifier]
  have hwant : req.want = some ip := by simp [Message.want, hreq.requestedIp]
  rw [handle_request hreq.request hhere, hfr.snapshot, hreq.chaddr, hwant, Family.Acceptable]
  -- the offer was of the reserved address, or of one that the lookup found free
  cases hres : family.reservationFor (s.snapshot n) scope.id (macFromChaddr msg.chaddr) with
  | some res =>
    rw [hres] at hser
    obtain rfl : res.ip = ip := offered_reply hser hq delegations_nil rfl hof
    refine iff_of_true ?_ (.inl rfl)
    simp only [handleRequest, any_some, ne_eq, not_true_eq_false, decide_false,
      Bool.false_eq_true, if_false]
    exact accepted_confirm hfr.quiet
  | none =>
    rw [hres] at hser
    have hfree : family.Unheld t.leases
        ⟨scope, macFromChaddr msg.chaddr, req.hostname, leaseS scope⟩ ip :=
      offered_lookup hser hq delegations_nil rfl hof
    rw [isSome_none, or_iff_right Bool.false_ne_true, ← hfr.config]
    exact accepted_pool_iff hfr.quiet rfl hfree

end Dhcp4

namespace Dhcp6

variable {ι ν : Type} [DecidableEq ι] [DecidableEq ν]
variable {scope : Scope} {duid : Duid} {msg : Message} {reservation : Option (Reservation Key)}

/-- The REQUEST of the same client for the address that this server advertised. -/
structure Message.Selects (msg : Message) (srv : Server) (req : Message) (ip : BitVec 128) :
    Prop where
  request : req.messageType = .request
  clientId : req.clientId = msg.clientId
  serverId : req.serverId = some srv.serverDuid
  iaNa : req.iaNa = some (some ip)

theorem delegations_delegate {answer : BitVec 128 × UInt8 → Answer} :
    Delegations family (delegate scope duid answer) := by
  intro task htask
  rw [delegate] at htask
  split at htask
  · obtain rfl := mem_singleton.mp htask
    exact ⟨_, _, _, rfl, rfl⟩
  · simp at htask

theorem handleSolicit_eq :
    ∃ tail, Delegations family tail ∧ handleSolicit scope duid msg reservation =
      (if msg.iaNa.isSome then [solicitNa scope duid reservation] else []) ++ tail := by
  refine ⟨_, ?_, rfl⟩
  split
  · exact delegations_delegate
  · exact delegations_nil

theorem handleRequestLike_eq {isRequest : Bool} {now : ℤ} {want : Option (BitVec 128)}
    (hia : msg.iaNa = some want) :
    ∃ tail, Delegations family tail ∧ handleRequestLike scope duid msg reservation isRequest now =
      requestNa scope duid want reservation isRequest now ++ tail := by
  rw [handleRequestLike, hia]
  refine ⟨_, ?_, rfl⟩
  split
  · exact delegations_delegate
  · exact delegations_nil

theorem accepted_iff {srv : ν → Server} {sweep : Sweep} {s t : State ι ν Scope Key Duid} {i : ι}
    {n : ν} {req : Message} {cid : List UInt8} {ip : BitVec 128} (hq : s.Quiet)
    (hsol : msg.messageType = .solicit) (hcid : msg.clientId = some cid)
    (hreq : msg.Selects (srv n) req ip) (hser : ServedAll (daemon srv sweep) i s
      (handle (srv n) (s.snapshot n) scope msg s.now) t)
    (hof : Offered s t scope.id (.na ip) (duidHex cid)) :
    Accepted (daemon srv sweep) i t (handle (srv n) (t.snapshot n) scope req t.now) scope.id
        (.na ip) (duidHex cid) ↔
      family.Acceptable s.config (s.snapshot n) scope.id (duidHex cid) (.na ip)
        (scope.inPool ip) := by
  obtain ⟨hfr, -⟩ := hser.frame hq
  obtain ⟨tail, htail, hask⟩ := handleRequestLike_eq hreq.iaNa
  rw [handle_request hreq.request (hreq.clientId.trans hcid) hreq.serverId, hfr.snapshot, hask,
    accepted_append hfr.quiet rfl htail, Family.Acceptable]
  rw [handle_solicit hsol hcid] at hser
  -- an offer comes from the IA_NA and not from what is delegated
  split at hser
  · obtain ⟨side, hside, hseek⟩ := handleSolicit_eq
    rw [hseek] at hser
    split at hser
    · cases hres : family.reservationFor (s.snapshot n) scope.id (duidHex cid) with
      | some res =>
        rw [hres] at hser
        have hip : res.ip = .na ip := offered_reply hser hq hside rfl hof
        refine iff_of_true ?_ (.inl rfl)
        simp only [requestNa, hip, any_some, ne_eq, not_true_eq_false, decide_false,
          Bool.false_eq_true, if_false]
        exact accepted_confirm hfr.quiet
      | none =>
        rw [hres] at hser
        have hfree : family.Unheld t.leases (job scope (duidHex cid) none) (.na ip) :=
          offered_lookup hser hq hside rfl hof
        rw [isSome_none, or_iff_right Bool.false_ne_true, ← hfr.config]
        exact accepted_pool_iff hfr.quiet rfl hfree
    · exact absurd hof (not_offered_delegations hser hq hside rfl)
  · exact absurd hof (not_offered_delegations hser hq delegations_nil rfl)

end Dhcp6

/-! ### Both daemons -/

namespace Dhcp

variable {ι ν : Type} [DecidableEq ι] [DecidableEq ν]

/-- **Which offers are accepted**: when a packet that was answered with an offer is
followed by the request for the offered address, the client gets it exactly when
it has a reservation, or the address is in the pool and no other client has
reserved it. -/
theorem offer_accepted_iff :
    (∀ (srv : ν → Dhcp4.Server) (sweep : Sweep) (s t : State ι ν Dhcp4.Scope UInt32 Dhcp4.Mac)
        (i : ι) (n : ν) (scope : Dhcp4.Scope) (msg req : Dhcp4.Message) (ip : UInt32),
      s.Quiet → msg.messageType = .discover → msg.Selects (srv n) req ip →
      ServedAll (Dhcp4.daemon srv sweep) i s
        (Dhcp4.handle (srv n) (s.snapshot n) scope msg s.now) t →
      Offered s t scope.id ip (Dhcp4.macFromChaddr msg.chaddr) →
      (Accepted (Dhcp4.daemon srv sweep) i t
          (Dhcp4.handle (srv n) (t.snapshot n) scope req t.now) scope.id ip
          (Dhcp4.macFromChaddr msg.chaddr) ↔
        Dhcp4.family.Acceptable s.config (s.snapshot n) scope.id (Dhcp4.macFromChaddr msg.chaddr) ip
          (scope.inPool ip))) ∧
    ∀ (srv : ν → Dhcp6.Server) (sweep : Sweep) (s t : State ι ν Dhcp6.Scope Dhcp6.Key Dhcp6.Duid)
        (i : ι) (n : ν) (scope : Dhcp6.Scope) (msg req : Dhcp6.Message) (cid : List UInt8)
        (ip : BitVec 128),
      s.Quiet → msg.messageType = .solicit → msg.clientId = some cid →
      msg.Selects (srv n) req ip →
      ServedAll (Dhcp6.daemon srv sweep) i s
        (Dhcp6.handle (srv n) (s.snapshot n) scope msg s.now) t →
      Offered s t scope.id (.na ip) (Dhcp6.duidHex cid) →
      (Accepted (Dhcp6.daemon srv sweep) i t
          (Dhcp6.handle (srv n) (t.snapshot n) scope req t.now) scope.id (.na ip)
          (Dhcp6.duidHex cid) ↔
        Dhcp6.family.Acceptable s.config (s.snapshot n) scope.id (Dhcp6.duidHex cid) (.na ip)
          (scope.inPool ip)) :=
  ⟨fun _ _ _ _ _ _ _ _ _ _ hq hdis hreq hser hof =>
      Dhcp4.accepted_iff hq hdis hreq hser hof,
    fun _ _ _ _ _ _ _ _ _ _ _ hq hsol hcid hreq hser hof =>
      Dhcp6.accepted_iff hq hsol hcid hreq hser hof⟩

/-- The first client of either network is offered an address and gets it. -/
theorem offer_accepted_first :
    (∃ s t : State Unit Unit Dhcp4.Scope UInt32 Dhcp4.Mac,
      ServedAll Dhcp4.sampleDaemon () s (Dhcp4.handle Dhcp4.sampleServer (s.snapshot ())
        Dhcp4.sampleScope (Dhcp4.sampleDiscover 1) s.now) t ∧
      Offered s t "lan" 0x0A000001 (Dhcp4.sampleMac 1) ∧
      Accepted Dhcp4.sampleDaemon () t (Dhcp4.handle Dhcp4.sampleServer (t.snapshot ())
        Dhcp4.sampleScope (Dhcp4.sampleRequest 1 0x0A000001) t.now) "lan" 0x0A000001
        (Dhcp4.sampleMac 1)) ∧
    ∃ s t : State Unit Unit Dhcp6.Scope Dhcp6.Key Dhcp6.Duid,
      ServedAll Dhcp6.sampleDaemon () s (Dhcp6.handle Dhcp6.sampleServer (s.snapshot ())
        Dhcp6.sampleScope (Dhcp6.sampleSolicit 1) s.now) t ∧
      Offered s t "lan" (.na 1) (Dhcp6.duidHex [1]) ∧
      Accepted Dhcp6.sampleDaemon () t (Dhcp6.handle Dhcp6.sampleServer (t.snapshot ())
        Dhcp6.sampleScope (Dhcp6.sampleRequest 1 1) t.now) "lan" (.na 1)
        (Dhcp6.duidHex [1]) := by
  have hq : (State.fresh 0 [Dhcp4.sampleScope] : State Unit Unit _ UInt32 Dhcp4.Mac).Quiet :=
    fun _ => rfl
  have hq6 :
      (State.fresh 0 [Dhcp6.sampleScope] : State Unit Unit _ Dhcp6.Key Dhcp6.Duid).Quiet :=
    fun _ => rfl
  obtain ⟨t, hser, hof⟩ := exists_servedAll_offered (D := Dhcp4.sampleDaemon) (i := ())
    (s := State.fresh 0 [Dhcp4.sampleScope]) (.lookup (Dhcp4.sampleJob 1) (.discover true 4))
    "lan" 0x0A000001 (Dhcp4.sampleMac 1) 0 [.read (), .read (), .read (), .write ()]
    (by decide +kernel)
  obtain ⟨t6, hser6, hof6⟩ := exists_servedAll_offered (D := Dhcp6.sampleDaemon) (i := ())
    (s := State.fresh 0 [Dhcp6.sampleScope]) (.lookup (Dhcp6.sampleJob 1) .solicit) "lan" (.na 1)
    (Dhcp6.duidHex [1]) 0
    [.read (), .read (), .read (), .read (), .read (), .write ()] (by decide +kernel)
  refine ⟨⟨_, t, hser, hof, ?_⟩, ⟨_, t6, hser6, hof6, ?_⟩⟩
  · refine (offer_accepted_iff.1 (fun _ => Dhcp4.sampleServer) _ _ _ () () Dhcp4.sampleScope
      (Dhcp4.sampleDiscover 1) (Dhcp4.sampleRequest 1 0x0A000001) _ hq rfl
      ⟨rfl, rfl, rfl, rfl⟩ hser hof).mpr ?_
    exact .inr ⟨by decide, fun r hr => absurd hr not_mem_nil⟩
  · refine (offer_accepted_iff.2 (fun _ => Dhcp6.sampleServer) _ _ _ () () Dhcp6.sampleScope
      (Dhcp6.sampleSolicit 1) (Dhcp6.sampleRequest 1 1) [1] _ hq6 rfl rfl
      ⟨rfl, rfl, rfl, rfl⟩ hser6 hof6).mpr ?_
    exact .inr ⟨by decide, fun r hr => absurd hr not_mem_nil⟩

end Dhcp

namespace Dhcp4

/-- A client that has a lease outside the range is offered it, and asks for it in
vain. -/
theorem offer_refused :
    ∃ (s t : State Bool Unit Scope UInt32 Mac) (req : Message) (ip : UInt32), s.Quiet ∧
      (sampleDiscover 1).Selects sampleServer req ip ∧
      ServedAll sampleDaemon true s
        (handle sampleServer (s.snapshot ()) sampleScope (sampleDiscover 1) s.now) t ∧
      Offered s t sampleScope.id ip (sampleMac 1) ∧
      ¬Accepted sampleDaemon true t
        (handle sampleServer (t.snapshot ()) sampleScope req t.now) sampleScope.id ip
        (sampleMac 1) := by
  let s : State Bool Unit Scope UInt32 Mac := { State.fresh 0 [sampleScope] with
    leases := Store.empty.upsert (family.leaseRow (sampleJob 1) 0x0A000009 0 3600000000) }
  obtain ⟨t, hser, hof⟩ := exists_servedAll_offered (D := sampleDaemon) (i := true) (s := s)
    (.lookup (sampleJob 1) (.discover true 4)) "lan" 0x0A000009 (sampleMac 1) 0
    [.read true, .write true] (by decide +kernel)
  refine ⟨s, t, sampleRequest 1 0x0A000009, _, fun _ => rfl, ⟨rfl, rfl, rfl, rfl⟩, hser,
    hof, ?_⟩
  rw [(hser.frame fun _ => rfl).1.snapshot]
  exact not_accepted_nil

end Dhcp4
