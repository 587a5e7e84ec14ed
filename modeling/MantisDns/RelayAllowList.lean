/-
The relay allow-list: `find_scope_for_relay` of `db.rs`.

A scope with relay rows is meant for packets of those relays only; the subnet of
the relay decides for scopes without any.  Both the rows that cannot be parsed and
the identifiers that cannot be parsed are dropped by the loader, so that what the
daemon checks can be less than what was entered.

* `findScopeForRelay_cases` — why a scope is selected;
* `admits_of_matches` — the packets that a loaded entry lets in are judged by the one
  that just meets it;
* `failsClosed_of_covered`, `covered_of_alone` — which rows keep every other packet
  out;
* `covered_of_parsed` — rows that parse do.
-/
import MantisDns.ScopeLoader

open Text Table Dns Control Control.Scopes Dhcp.Loader List Option

namespace Dhcp4.Loader

variable {s : Snapshot} {p : Relayed} {scope : Scope} {e : RelayConfigEntry} {scopeId : Str}
  {db : DhcpDb} {C : Crates}

/-! ### Selecting a scope -/

/-- What a relay says of a packet: its address, and the two identifiers of option
82. -/
structure Relayed where
  giaddr : UInt32
  circuitId : Option (List UInt8)
  remoteId : Option (List UInt8)

/-- The checks on one entry of an allow-list. -/
def RelayConfigEntry.matches (e : RelayConfigEntry) (p : Relayed) : Bool :=
  e.relayIp = p.giaddr && e.circuitId.all (fun want => some want = p.circuitId) &&
    e.remoteId.all (fun want => some want = p.remoteId)

/-- The allow-list of a scope. -/
def Snapshot.relayConfigs (s : Snapshot) (scopeId : Str) : List RelayConfigEntry :=
  (s.relayConfigsByScope.filter (·.1 = scopeId)).map (·.2)

/-- `find_scope_for_relay`. -/
def Snapshot.findScopeForRelay (s : Snapshot) (p : Relayed) : Option Scope :=
  (s.scopes.find? fun scope => (s.relayConfigs scope.id).any (·.matches p)).or
    (s.scopes.find? fun scope =>
      scope.subnet.contains p.giaddr.toBitVec && (s.relayConfigs scope.id).isEmpty)

theorem findScopeForRelay_cases (h : s.findScopeForRelay p = some scope) :
    scope ∈ s.scopes ∧
      ((∃ e ∈ s.relayConfigs scope.id, e.matches p = true) ∨
        scope.subnet.contains p.giaddr.toBitVec = true ∧ s.relayConfigs scope.id = []) := by
  rcases or_eq_some_iff.mp h with hfind | ⟨-, hfind⟩
  · refine ⟨mem_of_find?_eq_some hfind, .inl ?_⟩
    have hany := find?_some hfind
    exact List.any_eq_true.mp hany
  · refine ⟨mem_of_find?_eq_some hfind, .inr ?_⟩
    simpa using find?_some hfind

theorem findScopeForRelay_isSome (hmem : scope ∈ s.scopes)
    (hwhy : (∃ e ∈ s.relayConfigs scope.id, e.matches p = true) ∨
      scope.subnet.contains p.giaddr.toBitVec = true ∧ s.relayConfigs scope.id = []) :
    ∃ selected, s.findScopeForRelay p = some selected := by
  refine isSome_iff_exists.mp ?_
  rw [Snapshot.findScopeForRelay, isSome_or, Bool.or_eq_true, find?_isSome, find?_isSome]
  rcases hwhy with hent | ⟨hsub, hnone⟩
  · exact .inl ⟨scope, hmem, List.any_eq_true.mpr hent⟩
  · exact .inr ⟨scope, hmem, by simp [hsub, hnone]⟩

/-! ### What was entered -/

/-- An identifier as it was entered: none, or bytes that the packet must carry.  A
text that is not hexadecimal is met by no packet. -/
def requires (C : Crates) (entered : Option Str) (value : Option (List UInt8)) : Bool :=
  entered.all fun text => (parseHexBytes C text).isSome && decide (parseHexBytes C text = value)

/-- The packets that a row lets in, by every condition that was entered. -/
def admits (C : Crates) (row : RelayCreate) (p : Relayed) : Bool :=
  decide (parseIpv4 row.relayIp = some p.giaddr) && requires C row.circuitIdHex p.circuitId &&
    requires C row.remoteIdHex p.remoteId

/-- **An allow-list fails closed**: in whatever tables the scope stands with these
rows, it is selected for a packet only if one of the rows lets the packet in. -/
def FailsClosed (C : Crates) (row : DhcpScope) (rows : List DhcpRelayConfig) : Prop :=
  ∀ tenants db s, Accepted tenants db → loadSnapshot C db = .ok s → row ∈ db.scopes →
    relayRows db row.id = rows → ∀ (p : Relayed) (scope : Scope), p.giaddr ≠ 0 →
      s.findScopeForRelay p = some scope → scope.id = row.id →
        ∃ relay ∈ rows, admits C relay.toRelayCreate p = true

/-- The packet that just meets an entry: it carries no more than is asked for. -/
def RelayConfigEntry.packet (e : RelayConfigEntry) : Relayed := ⟨e.relayIp, e.circuitId, e.remoteId⟩

theorem matches_packet (e : RelayConfigEntry) : e.matches e.packet = true := by
  obtain ⟨relayIp, circuitId, remoteId⟩ := e
  cases circuitId <;> cases remoteId <;> simp [RelayConfigEntry.matches, RelayConfigEntry.packet]

theorem requires_of_all {entered : Option Str} {want value : Option (List UInt8)}
    (h : requires C entered want = true) (hall : want.all (fun w => some w = value) = true) :
    requires C entered value = true := by
  cases want with
  | some =>
    obtain rfl := of_decide_eq_true hall
    exact h
  | none =>
    cases entered with
    | none => rfl
    | some text => cases hpar : parseHexBytes C text <;> simp [requires, hpar] at h

/-- **A row that lets in the packet that just meets an entry lets in every packet
that meets it.** -/
theorem admits_of_matches {row : RelayCreate} (h : admits C row e.packet = true)
    (hmch : e.matches p = true) : admits C row p = true := by
  simp only [admits, RelayConfigEntry.packet, Bool.and_eq_true] at h
  simp only [RelayConfigEntry.matches, Bool.and_eq_true, decide_eq_true_eq] at hmch
  obtain ⟨⟨hip, hcir⟩, hrem⟩ := h
  obtain ⟨⟨hgia, hcir'⟩, hrem'⟩ := hmch
  simp only [admits, Bool.and_eq_true, ← hgia]
  exact ⟨⟨hip, requires_of_all hcir hcir'⟩, requires_of_all hrem hrem'⟩

theorem admits_packet {relay : DhcpRelayConfig} (h : relayOf C relay = some (scopeId, e))
    (hcir : relay.circuitIdHex.all fun text => (parseHexBytes C text).isSome)
    (hrem : relay.remoteIdHex.all fun text => (parseHexBytes C text).isSome) :
    admits C relay.toRelayCreate e.packet = true := by
  obtain ⟨ip, hip, heq⟩ := map_eq_some_iff.mp h
  obtain ⟨-, rfl⟩ := Prod.mk.inj heq
  have hid : ∀ entered : Option Str,
      (entered.all fun text => (parseHexBytes C text).isSome) = true →
        requires C entered (entered.bind (parseHexBytes C)) = true := by
    intro entered h
    cases entered with
    | none => rfl
    | some => simpa [requires] using h
  simp only [admits, RelayConfigEntry.packet, Bool.and_eq_true]
  exact ⟨⟨decide_eq_true hip, hid _ hcir⟩, hid _ hrem⟩

/-! ### The tables of one scope -/

theorem mem_relayConfigs_iff :
    e ∈ (wellFormed C db).relayConfigs scopeId ↔
      ∃ relay ∈ relayRows db scopeId, relayOf C relay = some (scopeId, e) := by
  constructor
  · intro he
    obtain ⟨⟨id, e'⟩, hmem, rfl⟩ := List.mem_map.mp he
    obtain ⟨hmem, hid⟩ := mem_filter.mp hmem
    obtain ⟨relay, hrel, hof⟩ := mem_filterMap.mp hmem
    obtain rfl := of_decide_eq_true hid
    obtain ⟨ip, -, heq⟩ := map_eq_some_iff.mp hof
    exact ⟨relay, mem_filter.mpr ⟨hrel, decide_eq_true (congrArg Prod.fst heq)⟩, hof⟩
  · rintro ⟨relay, hrel, hof⟩
    have hmem : (scopeId, e) ∈ (wellFormed C db).relayConfigsByScope :=
      mem_filterMap.mpr ⟨relay, mem_of_mem_filter hrel, hof⟩
    exact List.mem_map.mpr ⟨_, mem_filter.mpr ⟨hmem, decide_eq_true rfl⟩, rfl⟩

theorem id_of_wellFormedScope {row : DhcpScope} (h : wellFormedScope C row = some scope) :
    scope.id = row.id := by
  simp only [wellFormedScope, wellFormedRange, bind_eq_bind, bind_eq_some_iff,
    Option.pure_def, some_inj] at h
  obtain ⟨_, -, _, -, _, -, rfl⟩ := h
  rfl

theorem row_of_mem_scopes (h : scope ∈ (wellFormed C db).scopes) :
    ∃ row ∈ db.scopes, row.enabled = true ∧ wellFormedScope C row = some scope ∧
      row.id = scope.id := by
  obtain ⟨row, hrow, hsc⟩ := mem_filterMap.mp h
  obtain ⟨hmem, hena⟩ := mem_filter.mp hrow
  exact ⟨row, hmem, hena, hsc, (id_of_wellFormedScope hsc).symm⟩

/-! ### Which allow-lists fail closed -/

/-- What the rows of a scope have to be like, if the scope is served at all: one of
them has a relay address, unless no relay can be in the subnet; and the packet that
just meets an entry is one that some row lets in. -/
def Covered (C : Crates) (row : DhcpScope) (rows : List DhcpRelayConfig) : Prop :=
  row.enabled = true → ∀ scope, wellFormedScope C row = some scope →
    ((∃ relay ∈ rows, (parseIpv4 relay.relayIp).isSome) ∨
      ∀ ip : UInt32, scope.subnet.contains ip.toBitVec = true → ip = 0) ∧
    ∀ relay ∈ rows, ∀ e, relayOf C relay = some (row.id, e) → e.relayIp ≠ 0 →
      ∃ other ∈ rows, admits C other.toRelayCreate e.packet = true

section FailsClosed

variable {tenants : List Str} {db : DhcpDb} {s : Snapshot} {row : DhcpScope}
  {rows : List DhcpRelayConfig}

theorem failsClosed_of_covered (h : Covered C row rows) : FailsClosed C row rows := by
  intro tenants db s hdb hload hrow hrows p scope hgia hfind hid
  obtain ⟨-, rfl⟩ := loadSnapshot_eq_ok_iff.mp hload
  obtain ⟨hmem, hwhy⟩ := findScopeForRelay_cases hfind
  -- ids are unique, so the scope is the one of this row
  obtain ⟨row', hrow', hena, hsc, hid'⟩ := row_of_mem_scopes hmem
  obtain rfl : row' = row := hdb.scopes_keyed row' hrow' row hrow (hid'.trans hid)
  obtain ⟨hadd, hent⟩ := h hena scope hsc
  subst hrows
  rw [hid] at hwhy
  rcases hwhy with ⟨e, he, hmch⟩ | ⟨hsub, hnone⟩
  · obtain ⟨relay, hrel, hof⟩ := mem_relayConfigs_iff.mp he
    have hip : e.relayIp = p.giaddr := by
      simp only [RelayConfigEntry.matches, Bool.and_eq_true, decide_eq_true_eq] at hmch
      exact hmch.1.1
    obtain ⟨other, hoth, hadm⟩ := hent relay hrel e hof (hip ▸ hgia)
    exact ⟨other, hoth, admits_of_matches hadm hmch⟩
  · rcases hadd with ⟨relay, hrel, hpar⟩ | hzero
    · obtain ⟨ip, hip⟩ := isSome_iff_exists.mp hpar
      have hsco : relay.scopeId = row'.id := of_decide_eq_true (mem_filter.mp hrel).2
      have hmem : _ ∈ (wellFormed C db).relayConfigs row'.id :=
        mem_relayConfigs_iff.mpr ⟨relay, hrel, by rw [relayOf, hip, hsco]; rfl⟩
      rw [hnone] at hmem
      simp at hmem
    · exact absurd (hzero _ hsub) hgia

theorem exists_admits_of_alone (hclo : FailsClosed C row (relayRows db row.id))
    (hdb : Accepted tenants db) (hload : loadSnapshot C db = .ok s) (hrow : row ∈ db.scopes)
    (halo : ∀ r ∈ db.scopes, r.id = row.id) (hmem : scope ∈ s.scopes) (hgia : p.giaddr ≠ 0)
    (hwhy : (∃ e ∈ s.relayConfigs scope.id, e.matches p = true) ∨
      scope.subnet.contains p.giaddr.toBitVec = true ∧ s.relayConfigs scope.id = []) :
    ∃ relay ∈ relayRows db row.id, admits C relay.toRelayCreate p = true := by
  obtain ⟨selected, hfind⟩ := findScopeForRelay_isSome hmem hwhy
  refine hclo tenants db s hdb hload hrow rfl p selected hgia hfind ?_
  obtain ⟨-, rfl⟩ := loadSnapshot_eq_ok_iff.mp hload
  -- the selected scope comes from a row, and there is only one
  obtain ⟨r, hr, -, -, hid⟩ := row_of_mem_scopes (findScopeForRelay_cases hfind).1
  exact hid.symm.trans (halo r hr)

theorem covered_of_alone (hclo : FailsClosed C row (relayRows db row.id))
    (hdb : Accepted tenants db) (hrea : Readable C db) (hrow : row ∈ db.scopes)
    (halo : ∀ r ∈ db.scopes, r.id = row.id) : Covered C row (relayRows db row.id) := by
  intro hena scope hsc
  have hload : loadSnapshot C db = .ok (wellFormed C db) := isolates_iff.mpr hrea
  have hmem : scope ∈ (wellFormed C db).scopes :=
    mem_filterMap.mpr ⟨row, mem_filter.mpr ⟨hrow, hena⟩, hsc⟩
  have hid : scope.id = row.id := id_of_wellFormedScope hsc
  have hsel := fun p => exists_admits_of_alone (p := p) hclo hdb hload hrow halo hmem
  refine ⟨?_, fun relay hrel e hof hip => ?_⟩
  · by_contra hnot
    push Not at hnot
    obtain ⟨hnone, ip, hsub, hip⟩ := hnot
    -- no row has an entry, so the subnet decides, and lets in what no row does
    have hemp : (wellFormed C db).relayConfigs scope.id = [] := by
      refine eq_nil_iff_forall_not_mem.mpr fun e he => ?_
      rw [hid] at he
      obtain ⟨relay, hrel, hof⟩ := mem_relayConfigs_iff.mp he
      obtain ⟨ip, hpar, -⟩ := map_eq_some_iff.mp hof
      exact hnone relay hrel (by rw [hpar]; rfl)
    obtain ⟨relay, hrel, hadm⟩ := hsel ⟨ip, none, none⟩ hip (.inr ⟨hsub, hemp⟩)
    simp only [admits, Bool.and_eq_true] at hadm
    refine hnone relay hrel ?_
    rw [of_decide_eq_true hadm.1.1]
    rfl
  · refine hsel e.packet hip (.inl ⟨e, ?_, matches_packet e⟩)
    rw [hid]
    exact mem_relayConfigs_iff.mpr ⟨relay, hrel, hof⟩

/-- **An allow-list fails closed exactly when its rows are covered**: some row has a
relay address that parses, and whatever an entry lost while it was loaded, some row
lets the same packets in. -/
theorem failsClosed_iff_covered (hdb : Accepted tenants db) (hload : loadSnapshot C db = .ok s)
    (hrow : row ∈ db.scopes) :
    FailsClosed C row (relayRows db row.id) ↔ Covered C row (relayRows db row.id) := by
  refine ⟨fun hclo => ?_, failsClosed_of_covered⟩
  obtain ⟨hrea, -⟩ := loadSnapshot_eq_ok_iff.mp hload
  obtain ⟨db', hdb', hscs, hls, hrel⟩ := hdb.alone row.id
  have hsub : ∀ r ∈ db'.scopes, r ∈ db.scopes ∧ r.id = row.id := by
    intro r hr
    rw [hscs, mem_filter] at hr
    exact ⟨hr.1, of_decide_eq_true hr.2⟩
  have hrea' : Readable C db' :=
    ⟨fun r hr => hrea.scopes r (hsub r hr).1, fun r hr => hrea.reservations r (hls hr)⟩
  have hrow' : row ∈ db'.scopes := by
    rw [hscs]
    exact mem_filter.mpr ⟨hrow, decide_eq_true rfl⟩
  rw [← hrel] at hclo ⊢
  exact covered_of_alone hclo hdb' hrea' hrow' fun r hr => (hsub r hr).2

/-- **Rows that parse are covered.** -/
theorem covered_of_parsed (hne : rows ≠ [])
    (hrows : ∀ relay ∈ rows, (parseIpv4 relay.relayIp).isSome ∧
      (relay.circuitIdHex.all fun text => (parseHexBytes C text).isSome) = true ∧
      (relay.remoteIdHex.all fun text => (parseHexBytes C text).isSome) = true) :
    Covered C row rows := by
  intro _ scope _
  obtain ⟨first, hfst⟩ := exists_mem_of_ne_nil rows hne
  refine ⟨.inl ⟨first, hfst, (hrows first hfst).1⟩, fun relay hrel e hof _ => ?_⟩
  obtain ⟨-, hcir, hrem⟩ := hrows relay hrel
  exact ⟨relay, hrel, admits_packet hof hcir hrem⟩

end FailsClosed

/-! ### A scope with one relay -/

def sampleRelayScope : DhcpScope := { Dhcp.sampleScope4 with id := "1" }

def sampleRelayDb (relay : RelayCreate) : DhcpDb :=
  { DhcpDb.fresh Dhcp.sampleTenants with
    scopes := [sampleRelayScope]
    relayConfigs := [{ relay with id := "2", scopeId := "1" }]
    issued := ["2", "1"] }

theorem accepted_sampleRelayDb {relay : RelayCreate} (h : relay.storable = true) :
    Accepted Dhcp.sampleTenants (sampleRelayDb relay) := by
  refine .tail (.tail .refl
    ⟨Dhcp.sampleOperator "red", .createScope "1" Dhcp.sampleScope4, rfl⟩)
    ⟨Dhcp.sampleOperator "red", .createRelay "1" "2" relay, ?_⟩
  exact if_pos ⟨rfl, by decide +kernel, h, by decide⟩

theorem readable_sampleRelayDb (relay : RelayCreate) :
    Readable sampleCrates (sampleRelayDb relay) where
  scopes := by
    show ∀ row ∈ [sampleRelayScope], _
    decide +kernel
  reservations row hrow := absurd hrow not_mem_nil

/-- The row of a relay that was entered correctly. -/
def sampleRelay : RelayCreate :=
  { relayIp := "10.0.0.254", circuitIdHex := some "0x0102".toList }

theorem failsClosed_sampleRelay :
    FailsClosed sampleCrates sampleRelayScope (relayRows (sampleRelayDb sampleRelay) "1") := by
  have hrow : sampleRelayScope ∈ (sampleRelayDb sampleRelay).scopes := mem_singleton.mpr rfl
  refine (failsClosed_iff_covered (accepted_sampleRelayDb (by decide +kernel))
    (isolates_iff.mpr (readable_sampleRelayDb _)) hrow).mpr
      (covered_of_parsed (by decide +kernel) ?_)
  decide +kernel

/-- A relay with the length of its network, and one with the name of a port in place
of its identifier. -/
def sampleSlipAddress : RelayCreate := { relayIp := "10.0.0.254/24" }

def sampleSlipCircuit : RelayCreate :=
  { relayIp := "10.0.0.254", circuitIdHex := some "eth0/1".toList }

def sampleLoaded : Scope :=
  scopeOf sampleRelayScope sampleNet 0x0A000001 0x0A000009

theorem mem_sampleLoaded (relay : RelayCreate) :
    sampleLoaded ∈ (wellFormed sampleCrates (sampleRelayDb relay)).scopes := by
  have hsc : wellFormedScope sampleCrates sampleRelayScope = some sampleLoaded := rfl
  exact mem_filterMap.mpr ⟨sampleRelayScope, mem_singleton.mpr rfl, hsc⟩

/-- A packet that the scope has a reason for and that its row does not let in. -/
theorem not_failsClosed_sample {relay : RelayCreate} {p : Relayed} (h : relay.storable = true)
    (hgia : p.giaddr ≠ 0) (hadm : admits sampleCrates relay p = false)
    (hwhy : (∃ e ∈ (wellFormed sampleCrates (sampleRelayDb relay)).relayConfigs "1",
        e.matches p = true) ∨
      sampleLoaded.subnet.contains p.giaddr.toBitVec = true ∧
        (wellFormed sampleCrates (sampleRelayDb relay)).relayConfigs "1" = []) :
    ¬FailsClosed sampleCrates sampleRelayScope (relayRows (sampleRelayDb relay) "1") := by
  intro hclo
  have hsc : sampleRelayScope ∈ (sampleRelayDb relay).scopes := mem_singleton.mpr rfl
  obtain ⟨row, hrow, hin⟩ := exists_admits_of_alone hclo
    (accepted_sampleRelayDb h) (isolates_iff.mpr (readable_sampleRelayDb relay)) hsc
    (fun r hr => congrArg _ (mem_singleton.mp hr)) (mem_sampleLoaded relay) hgia hwhy
  obtain rfl := mem_singleton.mp (mem_of_mem_filter hrow)
  exact absurd hin (Bool.eq_false_iff.mp hadm)

/-- The first slip opens the scope to every relay of its subnet, the second one to
every circuit of the relay. -/
theorem slips_not_failsClosed :
    (Accepted Dhcp.sampleTenants (sampleRelayDb sampleSlipAddress) ∧
      ¬FailsClosed sampleCrates sampleRelayScope
        (relayRows (sampleRelayDb sampleSlipAddress) "1")) ∧
    Accepted Dhcp.sampleTenants (sampleRelayDb sampleSlipCircuit) ∧
      ¬FailsClosed sampleCrates sampleRelayScope
        (relayRows (sampleRelayDb sampleSlipCircuit) "1") := by
  refine ⟨⟨accepted_sampleRelayDb (by decide +kernel), ?_⟩,
    accepted_sampleRelayDb (by decide +kernel), ?_⟩
  · exact not_failsClosed_sample (p := ⟨0x0A00004D, none, none⟩) (by decide +kernel) (by decide)
      (by decide +kernel) (.inr (by decide +kernel))
  · exact not_failsClosed_sample (p := ⟨0x0A0000FE, none, none⟩) (by decide +kernel) (by decide)
      (by decide +kernel) (.inl (by decide +kernel))

end Dhcp4.Loader
