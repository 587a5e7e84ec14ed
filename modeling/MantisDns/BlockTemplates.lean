/-
Block-page templates: `_upsert_block_template` of `api/routers.py` under concurrent
requests, and `resolve_block_template` of `block_page.py` on what they commit.

An upsert selects its row and inserts one if there is none.  The unique constraint on
`(tenant_id, group_id)` refuses a second row of a group; a tenant default has a NULL
group, which is distinct from every other.

* `resolves_of_count` — what `resolve_block_template` needs;
* `Inv.commit_iff` — an insert keeps the templates resolvable exactly when a tenant default
  is not there already;
* `templates_resolvable` — the same over runs;
* `two_defaults` — two upserts that have both found nothing.
-/
import MantisDns.Compiler
import MantisDns.Machine
import MantisDns.Table

open Text Table Machine List Option

namespace Control.BlockTemplates

/-! ### Rows -/

/-- `BlockPageTemplateUpsert`, which are also the columns that an upsert writes. -/
structure BlockPageTemplateUpsert where
  blockMode : BlockModeName := .nxdomain
  redirectIpv4 : Option Str := none
  redirectIpv6 : Option Str := none
  ttlSeconds : ℕ := 30
  title : Option Str := none
  message : Option Str := none
  logoUrl : Option Str := none
  brandColor : Option Str := none
  contactUrl : Option Str := none
  showDomain : Bool := true
  showCategory : Bool := true
  deriving DecidableEq

/-- A row of `block_page_templates`. -/
structure Template where
  id : Str
  tenantId : Str
  groupId : Option Str
  fields : BlockPageTemplateUpsert
  deriving DecidableEq

/-- `require_redirect_ip`; the validators have turned empty texts into `none`. -/
def BlockPageTemplateUpsert.requireRedirectIp (payload : BlockPageTemplateUpsert) :
    Except Str Unit :=
  if payload.blockMode = .redirect ∧ payload.redirectIpv4 = none ∧ payload.redirectIpv6 = none then
    .error "BLOCK_MODE_REDIRECT requires redirect_ipv4 or redirect_ipv6"
  else .ok ()

/-- The columns of the row after the flush. -/
def BlockPageTemplateUpsert.flushed (before after row : BlockPageTemplateUpsert) :
    BlockPageTemplateUpsert where
  blockMode := column (·.blockMode) before after row
  redirectIpv4 := column (·.redirectIpv4) before after row
  redirectIpv6 := column (·.redirectIpv6) before after row
  ttlSeconds := column (·.ttlSeconds) before after row
  title := column (·.title) before after row
  message := column (·.message) before after row
  logoUrl := column (·.logoUrl) before after row
  brandColor := column (·.brandColor) before after row
  contactUrl := column (·.contactUrl) before after row
  showDomain := column (·.showDomain) before after row
  showCategory := column (·.showCategory) before after row

/-- What the compiler reads of a row. -/
def Template.hotPath (t : Template) : BlockPageTemplate :=
  ⟨t.tenantId, t.groupId, t.fields.blockMode, t.fields.redirectIpv4, t.fields.redirectIpv6,
    t.fields.ttlSeconds⟩

/-- `resolve_block_template`, with a group or without. -/
def resolve (rows : List Template) (tenantId : Str) : Option Str → Option (Option BlockPageTemplate)
  | some groupId => resolveBlockTemplate ⟨[], rows.map Template.hotPath⟩ tenantId groupId
  | none => scalarOneOrNone
      ((rows.map Template.hotPath).filter fun t => t.tenantId = tenantId && t.groupId = none)

/-- A tenant default, or the override of a group. -/
inductive Scope
  | tenantDefault (tenantId : Str)
  | group (groupId : Str)
  deriving DecidableEq

/-- The tenant of the scope; a group stays with its tenant. -/
def Scope.tenantId (tenantOf : Str → Str) : Scope → Str
  | .tenantDefault tenantId => tenantId
  | .group groupId => tenantOf groupId

def Scope.groupId : Scope → Option Str
  | .tenantDefault _ => none
  | .group groupId => some groupId

/-- The primary key, and the unique constraint: NULLs are distinct. -/
def admits (rows : List Template) (row : Template) : Bool :=
  rows.all fun r => r.id ≠ row.id &&
    !(r.tenantId = row.tenantId && r.groupId.isSome && r.groupId = row.groupId)

/-! ### Requests -/

/-- How far an upsert is. -/
inductive Phase
  | idle
  /-- It has found no row. -/
  | inserting (scope : Scope) (payload : BlockPageTemplateUpsert)
  /-- It has loaded this row. -/
  | updating (row : Template) (payload : BlockPageTemplateUpsert)

structure State (ι : Type) where
  rows : List Template
  phase : ι → Phase

inductive Label (ι : Type)
  | select (i : ι) (scope : Scope) (payload : BlockPageTemplateUpsert)
  /-- The commit, with the id that a new row gets. -/
  | commit (i : ι) (id : Str)
  /-- An exception, or the end of the process. -/
  | abort (i : ι)
  /-- `delete_group` and `delete_tenant`. -/
  | deleteGroup (groupId : Str)
  | deleteTenant (tenantId : Str)

variable {ι : Type} [DecidableEq ι]

def State.goTo (s : State ι) (i : ι) (p : Phase) : State ι :=
  { s with phase := Function.update s.phase i p }

/-- The row that an upsert inserts. -/
def Scope.row (tenantOf : Str → Str) (id : Str) (payload : BlockPageTemplateUpsert)
    (scope : Scope) : Template :=
  ⟨id, scope.tenantId tenantOf, scope.groupId, payload⟩

/-- The `INSERT` or `UPDATE` of an upsert; a row that is gone is not updated. -/
def Phase.flush (tenantOf : Str → Str) (id : Str) (rows : List Template) : Phase → List Template
  | .inserting scope payload =>
    let row := scope.row tenantOf id payload
    if admits rows row then rows ++ [row] else rows
  | .updating row payload => rows.map fun r =>
    if r.id = row.id then { r with fields := row.fields.flushed payload r.fields } else r
  | .idle => rows

def step (tenantOf : Str → Str) (s : State ι) : Label ι → Option (State ι)
  | .select i scope payload =>
    match s.phase i, payload.requireRedirectIp with
    | .idle, .error _ => some s
    | .idle, .ok () =>
      match scalarOneOrNone (s.rows.filter fun r =>
          r.tenantId = scope.tenantId tenantOf && r.groupId = scope.groupId) with
      | none => some s
      | some none => some (s.goTo i (.inserting scope payload))
      | some (some row) => some (s.goTo i (.updating row payload))
    | _, _ => none
  | .commit i id => some ({ s with rows := (s.phase i).flush tenantOf id s.rows }.goTo i .idle)
  | .abort i => some (s.goTo i .idle)
  | .deleteGroup groupId => some { s with rows := s.rows.filter (·.groupId ≠ some groupId) }
  | .deleteTenant tenantId => some { s with rows := s.rows.filter (·.tenantId ≠ tenantId) }

/-! ### One row for each scope -/

/-- The tenant's defaults. -/
def isDefault (tenantId : Str) (t : Template) : Bool := t.tenantId = tenantId && t.groupId = none

def isOfGroup (groupId : Str) (t : Template) : Bool := t.groupId = some groupId

/-- At most one default for each tenant and one row for each group; and so no template that is
asked for makes `scalar_one_or_none` raise. -/
structure Resolvable (rows : List Template) : Prop where
  default : ∀ tenantId, rows.countP (isDefault tenantId) ≤ 1
  group : ∀ groupId, rows.countP (isOfGroup groupId) ≤ 1
  resolves : ∀ tenantId groupId, (resolve rows tenantId groupId).isSome = true

variable {tenantOf : Str → Str} {rows : List Template} {s s₀ : State ι}

theorem isSome_scalarOneOrNone {α : Type} {l : List α} (h : l.length ≤ 1) :
    (scalarOneOrNone l).isSome = true := by
  match l, h with
  | [], _ => rfl
  | [_], _ => rfl
  | _ :: _ :: _, h => simp at h

theorem length_filter_hotPath (p : BlockPageTemplate → Bool) :
    ((rows.map Template.hotPath).filter p).length = rows.countP fun t => p t.hotPath := by
  rw [← countP_eq_length_filter, countP_map]
  rfl

theorem resolves_of_count (hdef : ∀ tenantId, rows.countP (isDefault tenantId) ≤ 1)
    (hgrp : ∀ groupId, rows.countP (isOfGroup groupId) ≤ 1) : Resolvable rows where
  default := hdef
  group := hgrp
  resolves tenantId groupId := by
    have hnone : (scalarOneOrNone ((rows.map Template.hotPath).filter fun t =>
        t.tenantId = tenantId && t.groupId = none)).isSome = true := by
      apply isSome_scalarOneOrNone
      rw [length_filter_hotPath]
      exact hdef tenantId
    cases groupId with
    | none => exact hnone
    | some groupId =>
      have hove : (scalarOneOrNone ((rows.map Template.hotPath).filter fun t =>
          t.tenantId = tenantId && t.groupId = some groupId)).isSome = true := by
        apply isSome_scalarOneOrNone
        rw [length_filter_hotPath]
        refine (countP_mono_left fun t _ ht => ?_).trans (hgrp groupId)
        exact (Bool.and_eq_true_iff.mp ht).2
      -- the override of the group first, then the default of the tenant
      obtain ⟨override, hsome⟩ := isSome_iff_exists.mp hove
      simp only [resolve, resolveBlockTemplate, hsome, bind_some]
      cases override with
      | none => exact hnone
      | some => rfl

theorem Resolvable.sublist {rows' : List Template} (h : Resolvable rows)
    (hsub : rows'.Sublist rows) : Resolvable rows' :=
  resolves_of_count (fun tenantId => (hsub.countP_le).trans (h.default tenantId))
    fun groupId => (hsub.countP_le).trans (h.group groupId)

theorem Resolvable.map (h : Resolvable rows) {f : Template → Template}
    (hten : ∀ t, (f t).tenantId = t.tenantId) (hgrp : ∀ t, (f t).groupId = t.groupId) :
    Resolvable (rows.map f) := by
  refine resolves_of_count (fun tenantId => ?_) fun groupId => ?_
  · have heq : isDefault tenantId ∘ f = isDefault tenantId := by
      funext t
      simp only [Function.comp, isDefault, hten, hgrp]
    rw [countP_map, heq]
    exact h.default tenantId
  · have heq : isOfGroup groupId ∘ f = isOfGroup groupId := by
      funext t
      simp only [Function.comp, isOfGroup, hgrp]
    rw [countP_map, heq]
    exact h.group groupId

theorem Resolvable.append_iff (h : Resolvable rows) (row : Template) :
    Resolvable (rows ++ [row]) ↔
      (row.groupId = none → ∀ r ∈ rows, isDefault row.tenantId r = false) ∧
        ∀ groupId ∈ row.groupId, ∀ r ∈ rows, isOfGroup groupId r = false := by
  -- where the new row counts, there can be no other
  have hcou : ∀ p : Template → Bool, p row = true →
      ((rows ++ [row]).countP p ≤ 1 ↔ ∀ r ∈ rows, p r = false) := by
    intro p hrow
    rw [countP_append, countP_singleton, if_pos hrow, Nat.add_le_add_iff_right (k := 0),
      Nat.le_zero, countP_eq_zero]
    simp only [Bool.not_eq_true]
  constructor
  · intro h'
    refine ⟨fun hnone => (hcou _ ?_).mp (h'.default row.tenantId),
      fun groupId hgrp => (hcou _ ?_).mp (h'.group groupId)⟩
    · simp [isDefault, hnone]
    · simpa [isOfGroup] using hgrp
  · rintro ⟨hnone, hsome⟩
    refine resolves_of_count (fun tenantId => ?_) fun groupId => ?_
    · by_cases hrow : isDefault tenantId row = true
      · obtain ⟨hten, hgrp⟩ := Bool.and_eq_true_iff.mp hrow
        rw [hcou _ hrow, ← of_decide_eq_true hten]
        exact hnone (of_decide_eq_true hgrp)
      · rw [countP_append, countP_singleton, if_neg hrow]
        exact h.default tenantId
    · by_cases hrow : isOfGroup groupId row = true
      · rw [hcou _ hrow]
        exact hsome groupId (of_decide_eq_true hrow)
      · rw [countP_append, countP_singleton, if_neg hrow]
        exact h.group groupId

/-! ### Runs -/

/-- A row of a group belongs to the group's tenant. -/
def Owned (tenantOf : Str → Str) (rows : List Template) : Prop :=
  ∀ r ∈ rows, ∀ groupId ∈ r.groupId, r.tenantId = tenantOf groupId

/-- The commit inserts no tenant default beside another. -/
def Unclaimed (s : State ι) : Label ι → Prop
  | .commit i id => match s.phase i with
    | .inserting (.tenantDefault tenantId) payload =>
      admits s.rows ⟨id, tenantId, none, payload⟩ = true →
        ∀ r ∈ s.rows, isDefault tenantId r = false
    | _ => True
  | .select .. | .abort _ | .deleteGroup _ | .deleteTenant _ => True

/-- **The invariant.** -/
structure Inv (tenantOf : Str → Str) (rows : List Template) : Prop where
  resolvable : Resolvable rows
  owned : Owned tenantOf rows

theorem Owned.subset {rows' : List Template} (h : Owned tenantOf rows) (hsub : rows' ⊆ rows) :
    Owned tenantOf rows' := fun r hr => h r (hsub hr)

theorem Owned.flush (h : Owned tenantOf rows) (p : Phase) (id : Str) :
    Owned tenantOf (p.flush tenantOf id rows) := by
  cases p with
  | idle => exact h
  | inserting scope =>
    simp only [Phase.flush]
    split
    · intro r hr groupId hgrp
      rcases mem_append.mp hr with hr | hr
      · exact h r hr groupId hgrp
      · obtain rfl := mem_singleton.mp hr
        cases scope with
        | tenantDefault => simp [Scope.row, Scope.groupId] at hgrp
        | group =>
          cases hgrp
          rfl
    · exact h
  | updating row =>
    intro r hr groupId hgrp
    obtain ⟨r₀, hr₀, rfl⟩ := List.mem_map.mp hr
    -- an update writes neither column
    by_cases hid : r₀.id = row.id
    · rw [if_pos hid] at hgrp ⊢
      exact h r₀ hr₀ groupId hgrp
    · rw [if_neg hid] at hgrp ⊢
      exact h r₀ hr₀ groupId hgrp

theorem Inv.no_other_of_admits (h : Inv tenantOf rows) {id groupId : Str}
    {payload : BlockPageTemplateUpsert}
    (hadm : admits rows ⟨id, tenantOf groupId, some groupId, payload⟩ = true) :
    ∀ r ∈ rows, isOfGroup groupId r = false := by
  intro r hr
  by_contra hgrp
  have hgrp : r.groupId = some groupId := by simpa [isOfGroup] using hgrp
  have hdis := (Bool.and_eq_true_iff.mp (List.all_eq_true.mp hadm r hr)).2
  simp [h.owned r hr groupId hgrp, hgrp] at hdis

omit [DecidableEq ι] in
/-- **A commit** leaves the templates resolvable exactly when it is no second default. -/
theorem Inv.commit_iff (h : Inv tenantOf s.rows) (i : ι) (id : Str) :
    Resolvable ((s.phase i).flush tenantOf id s.rows) ↔ Unclaimed s (.commit i id) := by
  rw [Unclaimed]
  cases s.phase i with
  | idle => exact ⟨fun _ => trivial, fun _ => h.resolvable⟩
  | updating =>
    refine ⟨fun _ => trivial, fun _ => h.resolvable.map (fun t => ?_) fun t => ?_⟩
    · split <;> rfl
    · split <;> rfl
  | inserting scope payload =>
    by_cases hadm : admits s.rows (scope.row tenantOf id payload) = true
    · have hflu : (Phase.inserting scope payload).flush tenantOf id s.rows =
          s.rows ++ [scope.row tenantOf id payload] := if_pos hadm
      rw [hflu, h.resolvable.append_iff]
      cases scope with
      | tenantDefault =>
        refine ⟨fun hnew _ => hnew.1 rfl, fun hnew => ⟨fun _ => hnew hadm, fun g hg => ?_⟩⟩
        simp [Scope.row, Scope.groupId] at hg
      | group =>
        refine ⟨fun _ => trivial, fun _ => ⟨fun hnone => ?_, fun g hg => ?_⟩⟩
        · simp [Scope.row, Scope.groupId] at hnone
        · cases hg
          -- the unique index on tenant and group has kept others out
          exact h.no_other_of_admits hadm
    · have hflu : (Phase.inserting scope payload).flush tenantOf id s.rows = s.rows :=
        if_neg hadm
      rw [hflu]
      cases scope with
      | tenantDefault => exact ⟨fun _ h' => absurd h' hadm, fun _ => h.resolvable⟩
      | group => exact ⟨fun _ => trivial, fun _ => h.resolvable⟩

/-- **A step**: a select changes no row, and a delete takes some away. -/
theorem Inv.step_iff (h : Inv tenantOf s.rows) {l : Label ι} {s' : State ι}
    (hstep : step tenantOf s l = some s') :
    Owned tenantOf s'.rows ∧ (Resolvable s'.rows ↔ Unclaimed s l) := by
  have hsame : s'.rows = s.rows →
      Owned tenantOf s'.rows ∧ (Resolvable s'.rows ↔ True) := by
    intro hrows
    rw [hrows]
    exact ⟨h.owned, iff_true_intro h.resolvable⟩
  -- deletions cascade, so rows only go
  have hless : s'.rows.Sublist s.rows →
      Owned tenantOf s'.rows ∧ (Resolvable s'.rows ↔ True) := fun hsub =>
    ⟨h.owned.subset hsub.subset, iff_true_intro (h.resolvable.sublist hsub)⟩
  cases l with
  | select =>
    simp only [step] at hstep
    split at hstep
    · exact hsame (some_inj.mp hstep ▸ rfl)
    · split at hstep <;> exact hsame (some_inj.mp hstep ▸ rfl)
    · simp at hstep
  | commit i id =>
    cases hstep
    exact ⟨h.owned.flush _ id, h.commit_iff i id⟩
  | abort => exact hsame (some_inj.mp hstep ▸ rfl)
  | deleteGroup | deleteTenant => exact hless (some_inj.mp hstep ▸ filter_sublist)

/-- **Templates stay resolvable** as long as no tenant default is inserted beside another; the
first commit that does so ends it. -/
theorem templates_resolvable (tenantOf : Str → Str) (hresolvable : Resolvable s₀.rows)
    (howned : Owned tenantOf s₀.rows)
    (hrun : RunWhile (step tenantOf) Unclaimed s₀ s) :
    Resolvable s.rows ∧ ∀ l s', step tenantOf s l = some s' →
      (Resolvable s'.rows ↔ Unclaimed s l) := by
  have h : Inv tenantOf s.rows := by
    refine hrun.induct (I := fun s => Inv tenantOf s.rows) (fun s l s' h hunc hstep => ?_)
      ⟨hresolvable, howned⟩
    obtain ⟨hown', hiff⟩ := h.step_iff hstep
    exact ⟨hiff.mpr hunc, hown'⟩
  exact ⟨h.resolvable, fun l s' hstep => (h.step_iff hstep).2⟩

instance (s : State ι) (l : Label ι) : Decidable (Unclaimed s l) := by
  unfold Unclaimed
  split
  · split <;> infer_instance
  all_goals infer_instance

/-- All groups are of `acme`. -/
def acme : Str → Str := fun _ => "acme"

def noTemplates : State Bool := ⟨[], fun _ => .idle⟩

/-- The upsert of the default of `acme`. -/
def selectDefault (i : Bool) : Label Bool := .select i (.tenantDefault "acme") {}

theorem resolvable_nil : Resolvable [] := resolves_of_count (by simp) (by simp)

/-- One upsert after the other. -/
theorem templates_resolvable_twice : ∃ s : State Bool,
    RunWhile (step acme) Unclaimed noTemplates s ∧ s.rows.length = 1 ∧
      Resolvable s.rows := by
  obtain ⟨s, hrun, hlen⟩ := exists_run (f := step acme) (C := Unclaimed) (s := noTemplates)
    (P := fun s => s.rows.length = 1)
    [selectDefault true, .commit true "t1", selectDefault false, .commit false "t2"]
    (by decide +kernel)
  exact ⟨s, hrun, hlen,
    (templates_resolvable acme resolvable_nil (by simp [Owned, noTemplates]) hrun).1⟩

/-- Both upserts find nothing, and both insert; `resolve_block_template` raises from then on. -/
theorem two_defaults : ∃ s : State Bool,
    RunWhile (step acme) (fun _ _ => True) noTemplates s ∧
      1 < s.rows.countP (isDefault "acme") ∧
      resolve s.rows "acme" (some "sales") = none :=
  exists_run [selectDefault true, selectDefault false, .commit true "t1", .commit false "t2"]
    (by decide +kernel)

end Control.BlockTemplates
