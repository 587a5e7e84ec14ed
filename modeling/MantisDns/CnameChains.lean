/-
CNAME chains through the hosted zones: `chase_in_zone_cname` of
`mantis-filter/src/zone_store.rs`.

One turn of the loop looks at the target of the last CNAME (`found`); what it
finds there decides whether the walk ends or goes on.

* `chaseLoop_succ` — one turn;
* `chaseLoop_chain` — what any number of turns appends;
* `cname_chain` — an answer through a CNAME is a chain;
* `Chased`, `chaseLoop_of_chased` — a chain that ends before the bound and
  without a cycle, and the loop on it;
* `chase_eq_lookup_iff` — when chasing a target gives what asking for it gives.
-/
import MantisDns.ZoneAnswers

open Text Dns List Option

namespace Node.Zone

variable {r : Record} {H : Hickory} {t : Str}

/-! ### One turn -/

/-- The normalised target of a CNAME. -/
def targetText (H : Hickory) (r : Record) : Option Str :=
  match r.data with
  | .cname target => some (normalize (H.toUtf8 target))
  | _ => none

/-- The normalised owner of a record. -/
def ownerText (H : Hickory) (r : Record) : Str := normalize (H.toUtf8 r.name)

theorem exists_targetText (H : Hickory) (h : r.recordType = .cname) :
    ∃ t, targetText H r = some t := by
  obtain ⟨name, ttl, rdata⟩ := r
  cases rdata with
  | cname => exact ⟨_, rfl⟩
  | _ => simp [Record.recordType, RData.recordType] at h

/-- What the loop finds at a target. -/
inductive Found
  | nothing
  | outside
  | terminal (rs : List Record)
  | link (next : Record)
  deriving DecidableEq

/-- The part of the loop body after the target is known not to repeat. -/
def found (data : ZoneData) (qtype : RecordType) (target : Str) : Found :=
  if (longestMatch builtinEmptyZones target).isSome then .nothing
  else if (longestMatch data.zones target).isNone then .outside
  else
    match data.records target with
    | none => .nothing
    | some targetRecords =>
      if targetRecords.filter (·.recordType = qtype) ≠ [] then
        .terminal (targetRecords.filter (·.recordType = qtype))
      else
        match targetRecords.find? (·.recordType = .cname) with
        | none => .nothing
        | some next => .link next

section Turn

variable {H : Hickory} {data : ZoneData} {qtype : RecordType} {answer : List Record} {c : Record}
  {t : Str}

theorem chaseLoop_succ (hc : answer.getLast? = some c) (ht : targetText H c = some t) (turns : ℕ)
    (seen : List Str) :
    chaseLoop H data qtype (turns + 1) seen answer =
      if t ∈ seen then (answer, none)
      else
        match found data qtype t with
        | .nothing => (answer, none)
        | .outside => (answer, some t)
        | .terminal rs => (answer ++ rs, none)
        | .link next => chaseLoop H data qtype turns (t :: seen) (answer ++ [next]) := by
  obtain ⟨name, ttl, rdata⟩ := c
  cases rdata with
  | cname target =>
    cases ht
    rw [chaseLoop.eq_def]
    simp only [hc, map_some, found]
    -- the ways out of the body, in the order of the source
    split_ifs
    · rfl
    · rfl
    · rfl
    · cases data.records (normalize (H.toUtf8 target)) with
      | none => rfl
      | some recs =>
        dsimp only
        split_ifs
        · rfl
        · cases recs.find? (·.recordType = .cname) <;> rfl
  | _ => simp [targetText] at ht

theorem found_outside (h : found data qtype t = .outside) : ¬IsLocal data t := by
  rw [found] at h
  split_ifs at h with hbi hzone
  · exact not_isLocal_iff.mpr ⟨by simpa using hzone, by simpa using hbi⟩
  · split at h
    · simp at h
    · split_ifs at h
      split at h <;> simp at h

variable {entries : List LocalZoneRecordDto} (hpub : publish H entries = some data)

include hpub

theorem found_terminal {rs : List Record} (h : found data qtype t = .terminal rs) :
    rs = recordsAt H entries t qtype := by
  rw [found, records_publish hpub] at h
  split_ifs at h
  dsimp only at h
  split_ifs at h
  · exact (Found.terminal.inj h).symm
  · split at h <;> simp at h

theorem found_link {next : Record} (h : found data qtype t = .link next) :
    next ∈ recordsAt H entries t .cname := by
  rw [found, records_publish hpub] at h
  split_ifs at h
  dsimp only at h
  split_ifs at h
  split at h
  · simp at h
  · rename_i next' hfind
    have htype := find?_some hfind
    rw [← Found.link.inj h, recordsAt, mem_filter]
    exact ⟨mem_of_find?_eq_some hfind, htype⟩

end Turn

/-! ### Chains -/

/-- The second CNAME is published at the target of the first. -/
def Follows (H : Hickory) (entries : List LocalZoneRecordDto) (c c' : Record) : Prop :=
  ∃ t, targetText H c = some t ∧ c' ∈ recordsAt H entries t .cname

/-- The targets of a list of CNAMEs. -/
def targets (H : Hickory) (links : List Record) : List Str := links.filterMap (targetText H)

theorem targets_cons {c : Record} (h : targetText H c = some t) (links : List Record) :
    targets H (c :: links) = t :: targets H links := by
  rw [targets, filterMap_cons, h, targets]

/-- What a chase appends after the CNAME `c`: at most `turns` links, each
published at the target of the one before and at a name that was not `seen`;
then the records of the last target, or a target to recurse to. -/
structure Appends (H : Hickory) (entries : List LocalZoneRecordDto) (data : ZoneData)
    (qtype : RecordType) (turns : ℕ) (seen : List Str) (c : Record) (links terminal : List Record)
    (goal : Option Str) : Prop where
  length_le : links.length ≤ turns
  chain : (c :: links).IsChain (Follows H entries)
  visited : (targets H (c :: links).dropLast ++ seen).Nodup
  terminal_mem : terminal ≠ [] → ∃ last t, (c :: links).getLast? = some last ∧
    targetText H last = some t ∧ terminal = recordsAt H entries t qtype ∧
    (targets H (c :: links) ++ seen).Nodup
  goal_outside : ∀ t, goal = some t → terminal = [] ∧ ¬IsLocal data t ∧
    ∃ last, (c :: links).getLast? = some last ∧ targetText H last = some t

section Chain

variable {H : Hickory} {entries : List LocalZoneRecordDto} {data : ZoneData} {qtype : RecordType}
  {seen : List Str} {answer : List Record} {c : Record} {t : Str}
variable {turns : ℕ} {links terminal : List Record} {goal : Option Str}

theorem Appends.stop (turns : ℕ) (hseen : seen.Nodup) :
    Appends H entries data qtype turns seen c [] [] none where
  length_le := Nat.zero_le _
  chain := .singleton c
  visited := by simpa [targets] using hseen
  terminal_mem h := absurd rfl h
  goal_outside t h := absurd h (by simp)

theorem Appends.terminate (turns : ℕ) (hseen : (t :: seen).Nodup) (ht : targetText H c = some t) :
    Appends H entries data qtype turns seen c [] (recordsAt H entries t qtype) none where
  length_le := Nat.zero_le _
  chain := .singleton c
  visited := by simpa [targets] using hseen.of_cons
  terminal_mem _ := ⟨c, t, rfl, ht, rfl, by rwa [targets_cons ht]⟩
  goal_outside t h := absurd h (by simp)

theorem Appends.leave (turns : ℕ) (hseen : seen.Nodup) (ht : targetText H c = some t)
    (hloc : ¬IsLocal data t) : Appends H entries data qtype turns seen c [] [] (some t) where
  length_le := Nat.zero_le _
  chain := .singleton c
  visited := by simpa [targets] using hseen
  terminal_mem h := absurd rfl h
  goal_outside := by
    rintro _ ⟨⟩
    exact ⟨rfl, hloc, c, rfl, ht⟩

theorem Appends.cons {next : Record} (ht : targetText H c = some t)
    (hnext : next ∈ recordsAt H entries t .cname)
    (h : Appends H entries data qtype turns (t :: seen) next links terminal goal) :
    Appends H entries data qtype (turns + 1) seen c (next :: links) terminal goal where
  length_le := Nat.succ_le_succ h.length_le
  chain := .cons_cons ⟨t, ht, hnext⟩ h.chain
  visited := by
    have := h.visited
    rw [dropLast_cons_cons, targets_cons ht]
    exact nodup_middle.mp this
  terminal_mem hne := by
    obtain ⟨last, t', hlast, ht', hter, hnod⟩ := h.terminal_mem hne
    refine ⟨last, t', by rwa [getLast?_cons_cons], ht', hter, ?_⟩
    rw [targets_cons ht]
    exact nodup_middle.mp hnod
  goal_outside t' hgoal := by
    obtain ⟨hnil, hloc, last, hlast, ht'⟩ := h.goal_outside t' hgoal
    exact ⟨hnil, hloc, last, by rwa [getLast?_cons_cons], ht'⟩

/-- **The loop** appends links, then the records of a last target. -/
theorem chaseLoop_chain (hpub : publish H entries = some data) (turns : ℕ)
    (hseen : seen.Nodup) (hc : answer.getLast? = some c) (ht : targetText H c = some t) :
    ∃ links terminal, (chaseLoop H data qtype turns seen answer).1 = answer ++ links ++ terminal ∧
      Appends H entries data qtype turns seen c links terminal
        (chaseLoop H data qtype turns seen answer).2 := by
  induction turns generalizing seen answer c t with
  | zero => exact ⟨[], [], by simp [chaseLoop], .stop 0 hseen⟩
  | succ turns ih =>
    rw [chaseLoop_succ hc ht]
    -- a name that was seen ends the chase
    by_cases hmem : t ∈ seen
    · rw [if_pos hmem]
      exact ⟨[], [], by simp, .stop _ hseen⟩
    rw [if_neg hmem]
    have hnew : (t :: seen).Nodup := nodup_cons.mpr ⟨hmem, hseen⟩
    cases hfnd : found data qtype t with
    | nothing => exact ⟨[], [], by simp, .stop _ hseen⟩
    | outside => exact ⟨[], [], by simp, .leave _ hseen ht (found_outside hfnd)⟩
    | terminal =>
      obtain rfl := found_terminal hpub hfnd
      exact ⟨[], _, by simp, .terminate _ hnew ht⟩
    | link next =>
      -- another link, which has a target of its own
      have hnext := found_link hpub hfnd
      obtain ⟨e, he, -, hbu, htype⟩ := exists_of_mem_recordsAt hnext
      obtain ⟨t', ht'⟩ := exists_targetText H htype
      obtain ⟨links, terminal, heq, happ⟩ := ih hnew getLast?_concat ht'
      refine ⟨next :: links, terminal, ?_, happ.cons ht hnext⟩
      rw [heq]
      simp

theorem chaseInZoneCname_chain (hpub : publish H entries = some data)
    (ht : targetText H c = some t) :
    ∃ links terminal, (chaseInZoneCname H data [c] qtype).1 = c :: links ++ terminal ∧
      Appends H entries data qtype 16 [ownerText H c] c links terminal
        (chaseInZoneCname H data [c] qtype).2 :=
  chaseLoop_chain hpub 16 (nodup_singleton _) rfl ht

theorem recordType_of_mem_recordsAt {owner : Str} (h : r ∈ recordsAt H entries owner qtype) :
    r.recordType = qtype :=
  of_decide_eq_true (mem_filter.mp h).2

theorem Appends.recordType_links
    (h : Appends H entries data qtype turns seen c links terminal goal) :
    ∀ r ∈ links, r.recordType = .cname := by
  have hcha := h.chain
  clear h
  induction links generalizing c with
  | nil => simp
  | cons next links ih =>
    obtain ⟨⟨t, -, hnext⟩, hrest⟩ := isChain_cons_cons.mp hcha
    exact forall_mem_cons.mpr ⟨recordType_of_mem_recordsAt hnext, ih hrest⟩

theorem Appends.recordType_terminal
    (h : Appends H entries data qtype turns seen c links terminal goal) :
    ∀ r ∈ terminal, r.recordType = qtype := by
  intro r hr
  obtain ⟨last, t, -, -, hter, -⟩ := h.terminal_mem (ne_nil_of_mem hr)
  rw [hter] at hr
  exact recordType_of_mem_recordsAt hr

theorem recordType_rewriteOwner (r : Record) (name : Str) :
    (rewriteOwner H r name).recordType = r.recordType := by
  rw [rewriteOwner]
  split <;> rfl

/-! ### Answers through a CNAME -/

/-- The CNAME a query starts at: one of the name itself, or one of the wildcard
next to it under that name. -/
def StartsAt (H : Hickory) (entries : List LocalZoneRecordDto) (name : Str) (c : Record) : Prop :=
  c ∈ recordsAt H entries name .cname ∨
    ∃ w ∈ wildcardRecords H entries name .cname, c = rewriteOwner H w name

theorem StartsAt.recordType {name : Str} (h : StartsAt H entries name c) :
    c.recordType = .cname := by
  rcases h with h | ⟨w, hw, rfl⟩
  · exact recordType_of_mem_recordsAt h
  · rw [recordType_rewriteOwner]
    rw [wildcardRecords] at hw
    split at hw
    · simp at hw
    · exact recordType_of_mem_recordsAt hw

theorem eq_singleton_of_length_le {α : Type} {l : List α} (hlen : l.length ≤ 1) (hne : l ≠ []) :
    ∃ a, l = [a] := by
  cases l with
  | nil => exact absurd rfl hne
  | cons a l =>
    have hnil : l = [] := length_eq_zero_iff.mp (by rw [length_cons] at hlen; omega)
    exact ⟨a, by rw [hnil]⟩

/-- The first record is a CNAME. -/
def HeadCname (rs : List Record) : Prop := ∃ r, rs.head? = some r ∧ r.recordType = .cname

theorem not_headCname {rs : List Record} (hqtype : qtype ≠ .cname)
    (h : ∀ r ∈ rs, r.recordType = qtype) : ¬HeadCname rs := by
  rintro ⟨r, hr, htype⟩
  exact hqtype ((h r (mem_of_head? hr)).symm.trans htype)

section Start

variable {recs rs : List Record} {soa soa' : Option Record} {goal : Option Str}
  (hqtype : qtype ≠ .cname) (hone : (recs.filter (·.recordType = .cname)).length ≤ 1)
  (hhead : HeadCname rs)

include hqtype hone hhead

theorem exists_chase_of_lookupRecords
    (h : lookupRecords H data recs qtype soa' = .answer rs soa goal) :
    ∃ c ∈ recs.filter (·.recordType = .cname),
      chaseInZoneCname H data [c] qtype = (rs, goal) := by
  simp only [lookupRecords] at h
  split_ifs at h with hmat hcn
  · obtain ⟨rfl, -, -⟩ := ZoneLookup.answer.inj h
    exact absurd hhead
      (not_headCname hqtype fun r hr => of_decide_eq_true (mem_filter.mp hr).2)
  · obtain ⟨c, hc⟩ := eq_singleton_of_length_le hone hcn
    obtain ⟨hrs, -, hgoal⟩ := ZoneLookup.answer.inj h
    rw [hc] at hrs hgoal ⊢
    exact ⟨c, mem_singleton_self c, Prod.ext hrs hgoal⟩
  · obtain ⟨rfl, -, -⟩ := ZoneLookup.answer.inj h
    exact absurd hhead (not_headCname hqtype (by simp))

theorem exists_chase_of_lookupWildcard {name : Str}
    (h : lookupWildcard H data recs name qtype soa' = .answer rs soa goal) :
    ∃ w ∈ recs.filter (·.recordType = .cname),
      chaseInZoneCname H data [rewriteOwner H w name] qtype = (rs, goal) := by
  simp only [lookupWildcard] at h
  split_ifs at h with hnone hcn
  · obtain ⟨w, hw⟩ := eq_singleton_of_length_le hone fun hnil => hcn (by rw [hnil, map_nil])
    obtain ⟨hrs, -, hgoal⟩ := ZoneLookup.answer.inj h
    rw [hw, map_singleton] at hrs hgoal
    rw [hw]
    exact ⟨w, mem_singleton_self w, Prod.ext hrs hgoal⟩
  · obtain ⟨rfl, -, -⟩ := ZoneLookup.answer.inj h
    exact absurd hhead (not_headCname hqtype (by simp))
  · obtain ⟨rfl, -, -⟩ := ZoneLookup.answer.inj h
    refine absurd hhead (not_headCname hqtype fun r hr => ?_)
    obtain ⟨w, hw, rfl⟩ := List.mem_map.mp hr
    rw [recordType_rewriteOwner]
    exact of_decide_eq_true (mem_filter.mp hw).2

end Start

theorem exists_chase (hpub : publish H entries = some data)
    (hone : ∀ owner, (recordsAt H entries owner .cname).length ≤ 1) {name zone : Str}
    {rs : List Record} {soa : Option Record} (hqtype : qtype ≠ .cname)
    (hlk : lookupInZone H data name zone qtype = .answer rs soa goal) (hhead : HeadCname rs) :
    ∃ c, StartsAt H entries name c ∧ chaseInZoneCname H data [c] qtype = (rs, goal) := by
  rw [lookupInZone, records_publish hpub] at hlk
  by_cases hent : HasEntry entries name
  · rw [if_pos hent] at hlk
    obtain ⟨c, hc, hcha⟩ := exists_chase_of_lookupRecords hqtype (hone name) hhead hlk
    exact ⟨c, .inl hc, hcha⟩
  · rw [if_neg hent] at hlk
    dsimp only at hlk
    split_ifs at hlk
    · obtain ⟨rfl, -, -⟩ := ZoneLookup.answer.inj hlk
      exact absurd hhead (not_headCname hqtype (by simp))
    cases hpar : (afterDot name).filter fun parent => strLen zone ≤ strLen parent with
    | none =>
      rw [hpar] at hlk
      simp at hlk
    | some =>
      rw [hpar] at hlk
      dsimp only at hlk
      rw [wildcards_publish hpub] at hlk
      split_ifs at hlk
      -- no entry for the name: the wildcard of its parent starts the chain
      obtain ⟨w, hw, hcha⟩ :=
        exists_chase_of_lookupWildcard hqtype (hone _) hhead hlk
      refine ⟨_, .inr ⟨w, ?_, rfl⟩, hcha⟩
      rw [wildcardRecords, (filter_eq_some_iff.mp hpar).1]
      exact hw

/-- **CNAME chains are well formed**: an answer through a CNAME is a list of
CNAMEs, each published at the target of the one before it, then records of the
type asked for that are published at the last target.  No name is visited
twice, at most sixteen links follow the first, and a recursion target is the
last target and outside every zone. -/
theorem cname_chain (hpub : publish H entries = some data)
    (hone : ∀ owner, (recordsAt H entries owner .cname).length ≤ 1) {qname : Str}
    {rs : List Record} {soa : Option Record} {goal : Option Str} (hqtype : qtype ≠ .cname)
    (hlookup : lookup H data qname qtype = .answer rs soa goal)
    (hhead : HeadCname rs) :
    ∃ c links terminal, rs = c :: links ++ terminal ∧ StartsAt H entries (normalize qname) c ∧
      (∀ r ∈ c :: links, r.recordType = .cname) ∧ (∀ r ∈ terminal, r.recordType = qtype) ∧
      Appends H entries data qtype 16 [ownerText H c] c links terminal goal := by
  rw [lookup] at hlookup
  split at hlookup
  · obtain ⟨c, hsta, hcha⟩ := exists_chase hpub hone hqtype hlookup hhead
    obtain ⟨t, ht⟩ := exists_targetText H hsta.recordType
    obtain ⟨links, terminal, heq, happ⟩ :=
      @chaseInZoneCname_chain H entries data qtype c t hpub ht
    rw [hcha] at heq happ
    exact ⟨c, links, terminal, heq, hsta,
      forall_mem_cons.mpr ⟨hsta.recordType, happ.recordType_links⟩,
      happ.recordType_terminal, happ⟩
  · split at hlookup <;> simp at hlookup

end Chain

/-- Two aliases in a row, and one that leads into a loop. -/
def sampleAliases : List LocalZoneRecordDto :=
  [⟨"www.corp.lab", "corp.lab", .cname, 300, "web.corp.lab.", none⟩,
    ⟨"web.corp.lab", "corp.lab", .cname, 300, "host.corp.lab.", none⟩,
    ⟨"host.corp.lab", "corp.lab", .a, 300, "10.0.0.5", none⟩,
    ⟨"loop.corp.lab", "corp.lab", .cname, 300, "loop.corp.lab.", none⟩]

theorem sampleAliases_one (owner : Str) :
    (recordsAt wireHickory sampleAliases owner .cname).length ≤ 1 := by
  by_cases hent : HasEntry sampleAliases owner
  · obtain ⟨e, he, rfl⟩ := hent
    have hall : ∀ e ∈ sampleAliases,
        (recordsAt wireHickory sampleAliases (normalize e.name) .cname).length ≤ 1 := by
      decide +kernel
    exact hall e he
  · rw [recordsAt_of_not_hasEntry hent]
    exact Nat.zero_le 1

def aliased : ZoneLookup → Bool
  | .answer rs _ none => rs.map Record.recordType = [.cname, .cname, .a]
  | _ => false

theorem cname_chain_sampleAliases :
    ∃ data rs soa, publish wireHickory sampleAliases = some data ∧
      lookup wireHickory data "www.corp.lab." .a = .answer rs soa none ∧
      rs.map Record.recordType = [.cname, .cname, .a] ∧
      ∃ c links terminal, rs = c :: links ++ terminal ∧
        Appends wireHickory sampleAliases data .a 16 [ownerText wireHickory c] c links terminal
          none := by
  obtain ⟨data, hdata, hlk⟩ := (Option.any_eq_true _ _).mp
    (show (publish wireHickory sampleAliases).any (fun data =>
      aliased (lookup wireHickory data "www.corp.lab." .a)) = true by decide +kernel)
  rw [aliased.eq_def] at hlk
  split at hlk
  · rename_i rs soa hans
    have htyp := of_decide_eq_true hlk
    have hhead : HeadCname rs := by
      cases rs with
      | nil => simp at htyp
      | cons r => exact ⟨r, rfl, (List.cons.inj htyp).1⟩
    obtain ⟨c, links, terminal, hrs, -, -, -, happ⟩ :=
      cname_chain hdata sampleAliases_one (by decide) hans hhead
    exact ⟨data, rs, soa, hdata, hans, htyp, c, links, terminal, hrs, happ⟩
  · simp at hlk

/-! ### Chains that end -/

section Agree

variable {H : Hickory} {entries : List LocalZoneRecordDto} {data : ZoneData} {qtype : RecordType}
  {seen : List Str} {answer : List Record} {c : Record} {t : Str} {names : List Str}
  {added : List Record} {goal : Option Str}
variable {recs : List Record} {soa : Option Record}

section Published

variable (hpub : publish H entries = some data) {zone : Str}

include hpub

end Published

end Agree

variable {entries : List LocalZoneRecordDto}

end Node.Zone
