/-
A store that only ever takes newer versions, under concurrent publishers.

Every publisher runs one `rcu` whose closure keeps the current content unless
its own is newer, and reads its result off the content it replaced.  A publisher
may also be turned away before it touches the cell.

* `newer_cases` — what the closure does, in terms of installed versions;
* `Calls.linearizable` — over all interleavings: versions strictly increase, a
  call succeeds exactly when its content was installed, a failed call changes
  nothing, the last version is the greatest one offered, and the whole is a
  sequential execution of the calls.
-/
import MantisDns.Rcu

open Option List

/-! ### The closure -/

section Closure

variable {α : Type*} {version : α → UInt64}

/-- The closure handed to `rcu`: the current content, or the incoming one if
that is newer. -/
def newer (version : α → UInt64) (incoming : α) : Option α → Option α
  | some current => if version incoming ≤ version current then some current else some incoming
  | none => some incoming

/-- The installed version, with `⊥` for an empty store. -/
def installed (version : α → UInt64) (content : Option α) : WithBot ℕ :=
  content.elim ⊥ fun c => ((version c).toNat : WithBot ℕ)

@[simp] theorem installed_some (c : α) :
    installed version (some c) = ((version c).toNat : WithBot ℕ) := rfl

theorem installed_lt_iff {content : Option α} {n : UInt64} :
    installed version content < (n.toNat : WithBot ℕ) ↔ ∀ c ∈ content, version c < n := by
  cases content with
  | none => simp [installed]
  | some => simp [UInt64.lt_iff_toNat_lt]

theorem newer_cases (incoming : α) (content : Option α) :
    (newer version incoming content = content ∧
        ((version incoming).toNat : WithBot ℕ) ≤ installed version content) ∨
      (newer version incoming content = some incoming ∧
        installed version content < ((version incoming).toNat : WithBot ℕ)) := by
  cases content with
  | none => exact .inr ⟨rfl, WithBot.bot_lt_coe _⟩
  | some c =>
    by_cases h : version incoming ≤ version c
    · exact .inl ⟨if_pos h, WithBot.coe_le_coe.mpr (UInt64.le_iff_toNat_le.mp h)⟩
    · have hlt : (version c).toNat < (version incoming).toNat :=
        Nat.lt_of_not_le fun hle => h (UInt64.le_iff_toNat_le.mpr hle)
      exact .inr ⟨if_neg h, WithBot.coe_lt_coe.mpr hlt⟩

theorem le_installed_newer (incoming : α) (content : Option α) :
    ((version incoming).toNat : WithBot ℕ) ≤
      installed version (newer version incoming content) := by
  rcases newer_cases incoming content with ⟨h, hle⟩ | ⟨h, -⟩
  · rwa [h]
  · rw [h, installed_some]

theorem map_newer {β : Type*} {version : β → UInt64} (value : α → β) (incoming : α)
    (content : Option α) :
    (newer (version ∘ value) incoming content).map value =
      newer version (value incoming) (content.map value) := by
  cases content with
  | none => rfl
  | some =>
    simp only [newer, Function.comp_apply, map_some]
    split_ifs <;> rfl

end Closure

/-! ### Stores and concurrent calls -/

/-- What a kind of store does with an offered content: how it reads versions and
how it computes a call's result from the content that the call replaced. -/
structure Versioned (β ρ : Type*) where
  version : β → UInt64
  outcome : β → Option β → ρ
  Ok : ρ → Prop
  ok_outcome : ∀ b prev, Ok (outcome b prev) ↔ ∀ p ∈ prev, version p < version b

/-- The initial content and the calls made: what each offers, and the result of
those turned away before they touch the cell. -/
structure Calls {β ρ : Type*} (S : Versioned β ρ) (ι : Type*) where
  initial : Option β
  offer : ι → β
  reject : ι → Option ρ
  not_ok_of_reject : ∀ i r, reject i = some r → ¬S.Ok r

/-- A reference-counted content: the call that allocated it, or none for the
initial one.  Two such pointers are equal when their owners are. -/
structure Arc (ι β : Type*) where
  owner : Option ι
  value : β

namespace Calls

variable {β ρ ι : Type*} [DecidableEq ι] {S : Versioned β ρ}

/-- The cell with the calls racing on it, and the calls turned away. -/
structure State (ι β : Type*) where
  rcu : Rcu.State ι (Option (Arc ι β))
  rejected : ι → Bool

/-- The version behind a pointer. -/
def arcVersion (S : Versioned β ρ) : Arc ι β → UInt64 := S.version ∘ Arc.value

/-- The allocation of a call. -/
def own (C : Calls S ι) (i : ι) : Arc ι β := ⟨some i, C.offer i⟩

/-- The closure of a call. -/
def update (C : Calls S ι) (i : ι) : Option (Arc ι β) → Option (Arc ι β) :=
  newer (arcVersion S) (C.own i)

def initCell (C : Calls S ι) : Option (Arc ι β) := C.initial.map (⟨none, ·⟩)

def init (C : Calls S ι) : State ι β := ⟨Rcu.init C.initCell, fun _ => false⟩

/-- One atomic step of a call: being turned away, or a step of its `rcu`. -/
inductive Step (C : Calls S ι) (i : ι) (s : State ι β) : State ι β → Prop where
  | reject {r : ρ} (h : C.reject i = some r) :
      Step C i s { s with rejected := Function.update s.rejected i true }
  | publish {r : Rcu.State ι (Option (Arc ι β))} (h : C.reject i = none)
      (hstep : Rcu.Step C.update i s.rcu r) : Step C i s { s with rcu := r }

/-- Any interleaving of steps of any calls. -/
def Run (C : Calls S ι) : State ι β → State ι β → Prop :=
  Relation.ReflTransGen fun s t => ∃ i, C.Step i s t

/-- The content that readers see. -/
def contents (s : State ι β) : Option β := s.rcu.cell.map Arc.value

/-- The result of a call, once it has one. -/
def result (C : Calls S ι) (s : State ι β) (i : ι) : Option ρ :=
  if s.rejected i then C.reject i
  else match s.rcu.phase i with
    | .done prev => some (S.outcome (C.offer i) (prev.map Arc.value))
    | _ => none

/-- A call with nobody else around: its result and the content it leaves. -/
def alone (C : Calls S ι) (i : ι) (content : Option β) : ρ × Option β :=
  match C.reject i with
  | some r => (r, content)
  | none => (S.outcome (C.offer i) content, newer S.version (C.offer i) content)

/-- The content after the given calls, one after the other. -/
def sequentially (C : Calls S ι) (calls : List ι) : Option β :=
  calls.foldl (fun content i => (C.alone i content).2) C.initial

/-- **The contract of a versioned store**, over every interleaving of the
atomic steps of its calls. -/
structure Linearizable (C : Calls S ι) : Prop where
  /-- The installed version strictly increases whenever the content changes. -/
  increasing : ∀ {s t}, C.Run C.init s → C.Run s t →
    s.rcu.cell = t.rcu.cell ∨
      installed S.version (contents s) < installed S.version (contents t)
  /-- A call succeeds exactly when its own allocation was the installed one at
  some point. -/
  ok_iff : ∀ {s i}, C.Run C.init s →
    ((∃ r, C.result s i = some r ∧ S.Ok r) ↔
      ∃ t, C.Run C.init t ∧ C.Run t s ∧ t.rcu.cell = some (C.own i))
  /-- No step of a call that fails changes the content. -/
  failed : ∀ {s s' t i r}, C.Run C.init s → C.Step i s s' → C.Run s' t →
    C.result t i = some r → ¬S.Ok r → s'.rcu.cell = s.rcu.cell
  /-- When all calls have finished, the installed version is the greatest of the
  initial one and those of the calls that were not turned away. -/
  final : ∀ {s}, C.Run C.init s → (∀ i, (C.result s i).isSome) →
    IsGreatest ({installed S.version C.initial} ∪
        {v | ∃ i, C.reject i = none ∧ v = ((S.version (C.offer i)).toNat : WithBot ℕ)})
      (installed S.version (contents s))
  /-- The calls took effect one after the other, in an order that holds exactly
  those that finished their swap, and that only grows. -/
  sequential : ∀ {s}, C.Run C.init s →
    s.rcu.log.Nodup ∧ contents s = C.sequentially s.rcu.log ∧
      (∀ pre i post, s.rcu.log = pre ++ i :: post →
        C.result s i = some (C.alone i (C.sequentially pre)).1) ∧
      (∀ i, C.reject i = none → ((C.result s i).isSome ↔ i ∈ s.rcu.log)) ∧
      ∀ {t}, C.Run s t → s.rcu.log <+: t.rcu.log

/-! ### Invariants of a run -/

section Runs

variable {C : Calls S ι} {s t : State ι β} {i j : ι} {r : ρ}

omit [DecidableEq ι] in
theorem installed_contents (content : Option (Arc ι β)) :
    installed S.version (content.map Arc.value) = installed (arcVersion S) content := by
  cases content <;> rfl

omit [DecidableEq ι] in
theorem ok_outcome_iff (b : β) (prev : Option (Arc ι β)) :
    S.Ok (S.outcome b (prev.map Arc.value)) ↔
      installed (arcVersion S) prev < ((S.version b).toNat : WithBot ℕ) := by
  rw [S.ok_outcome, ← installed_lt_iff, installed_contents]

omit [DecidableEq ι] in
variable (C) in
theorem update_cases (i : ι) (content : Option (Arc ι β)) :
    (C.update i content = content ∧ ((S.version (C.offer i)).toNat : WithBot ℕ) ≤
        installed (arcVersion S) content) ∨
      (C.update i content = some (C.own i) ∧ installed (arcVersion S) content <
        ((S.version (C.offer i)).toNat : WithBot ℕ)) :=
  newer_cases (C.own i) content

/-- **What one step can do** to the content: nothing, or its call installs its
own over an older one and finishes. -/
theorem Step.cases_cell (h : C.Step i s t) :
    t.rcu.cell = s.rcu.cell ∨
      (t.rcu.cell = some (C.own i) ∧ t.rcu.phase i = .done s.rcu.cell ∧
        installed (arcVersion S) s.rcu.cell < ((S.version (C.offer i)).toNat : WithBot ℕ)) := by
  cases h with
  | reject => exact .inl rfl
  | publish _ hstep =>
    rcases hstep.cases_cell with ⟨hcell, -, -⟩ | ⟨hcell, -, hph⟩
    · exact .inl hcell
    · rcases C.update_cases i s.rcu.cell with ⟨heq, -⟩ | ⟨heq, hlt⟩
      · exact .inl (hcell.trans heq)
      · exact .inr ⟨hcell.trans heq, hph, hlt⟩

theorem Step.installed_le (h : C.Step i s t) :
    installed (arcVersion S) s.rcu.cell ≤ installed (arcVersion S) t.rcu.cell := by
  rcases h.cases_cell with hcell | ⟨hcell, -, hlt⟩
  · rw [hcell]
  · rw [hcell]
    exact hlt.le

theorem Step.done {prev : Option (Arc ι β)} (h : C.Step i s t)
    (hj : s.rcu.phase j = .done prev) : t.rcu.phase j = .done prev := by
  cases h with
  | reject => exact hj
  | publish _ hstep => exact hstep.done hj

/-- What holds in every state of a run: the calls turned away are those that
never start, an installed allocation is that of a call that replaced an older
content, and no finished call is newer than the content. -/
structure Inv (C : Calls S ι) (s : State ι β) : Prop where
  rejected : ∀ i, s.rejected i = true → C.reject i ≠ none
  started : ∀ i, s.rcu.phase i ≠ .idle → C.reject i = none
  content : s.rcu.cell = C.initCell ∨ ∃ i, s.rcu.cell = some (C.own i)
  owned : ∀ i, s.rcu.cell = some (C.own i) → ∃ prev, s.rcu.phase i = .done prev ∧
    installed (arcVersion S) prev < ((S.version (C.offer i)).toNat : WithBot ℕ)
  finished : ∀ i prev, s.rcu.phase i = .done prev →
    ((S.version (C.offer i)).toNat : WithBot ℕ) ≤ installed (arcVersion S) s.rcu.cell

omit [DecidableEq ι] in
theorem inv_init : Inv C C.init where
  rejected i h := by simp [init] at h
  started i h := absurd rfl h
  content := .inl rfl
  owned i h := by
    obtain ⟨b, -, hb⟩ := map_eq_some_iff.mp (show C.initial.map _ = some (C.own i) from h)
    exact absurd (congrArg Arc.owner hb) (by simp [own])
  finished i prev h := by simp [init, Rcu.init] at h

theorem Step.finished {prev : Option (Arc ι β)} (hs : Inv C s) (h : C.Step i s t)
    (hj : t.rcu.phase j = .done prev) :
    ((S.version (C.offer j)).toNat : WithBot ℕ) ≤ installed (arcVersion S) t.rcu.cell := by
  -- a call that had finished before
  have hold : s.rcu.phase j = .done prev → ((S.version (C.offer j)).toNat : WithBot ℕ) ≤
      installed (arcVersion S) t.rcu.cell := fun hj => (hs.finished j prev hj).trans h.installed_le
  cases h with
  | reject => exact hold hj
  | publish _ hstep =>
    by_cases hji : j = i
    · subst hji
      rcases hstep.cases_cell with ⟨-, -, snap, hph⟩ | ⟨hcell, -, -⟩
      · exact absurd (hph.symm.trans hj) (by simp)
      · -- its own swap: the cell holds the newer of the two
        rw [hcell]
        exact @le_installed_newer _ (arcVersion S) (C.own j) s.rcu.cell
    · exact hold ((hstep.phase_ne hji).symm.trans hj)

theorem Inv.step (hs : Inv C s) (h : C.Step i s t) : Inv C t where
  rejected j hj := by
    cases h with
    | reject h =>
      by_cases hji : j = i
      · subst hji
        rw [h]
        exact some_ne_none _
      · exact hs.rejected j ((Function.update_of_ne hji _ _).symm.trans hj)
    | publish => exact hs.rejected j hj
  started j hj := by
    cases h with
    | reject => exact hs.started j hj
    | publish h hstep =>
      by_cases hji : j = i
      · rwa [hji]
      · exact hs.started j (hstep.phase_ne hji ▸ hj)
  content := by
    rcases h.cases_cell with hcell | ⟨hcell, -, -⟩
    · rw [hcell]
      exact hs.content
    · exact .inr ⟨i, hcell⟩
  owned j hj := by
    rcases h.cases_cell with hcell | ⟨hcell, hph, hlt⟩
    · obtain ⟨prev, hprev, hlt⟩ := hs.owned j (hcell.symm.trans hj)
      exact ⟨prev, h.done hprev, hlt⟩
    · -- the owner of the installed allocation is the call that just swapped
      have hown : C.own i = C.own j := some_inj.mp (hcell.symm.trans hj)
      obtain rfl : i = j := some_inj.mp (congrArg Arc.owner hown)
      exact ⟨s.rcu.cell, hph, hlt⟩
  finished j prev hj := h.finished hs hj

theorem inv_of_run (h : C.Run C.init s) : Inv C s := by
  induction h with
  | refl => exact inv_init
  | tail _ hstep ih => exact ih.step hstep.choose_spec

omit [DecidableEq ι] in
/-- The result of a call that was not turned away. -/
theorem Inv.result_iff (hs : Inv C s) (hi : C.reject i = none) :
    C.result s i = some r ↔
      ∃ prev, s.rcu.phase i = .done prev ∧ S.outcome (C.offer i) (prev.map Arc.value) = r := by
  have hrej : s.rejected i = false := by
    rw [← Bool.not_eq_true]
    exact fun h => hs.rejected i h hi
  rw [result, hrej]
  cases hph : s.rcu.phase i <;> simp

theorem Inv.result_step (hs : Inv C s) (h : C.Step j s t) (hr : C.result s i = some r) :
    C.result t i = some r := by
  cases hrej : C.reject i with
  | none =>
    obtain ⟨prev, hprev, hout⟩ := (hs.result_iff hrej).mp hr
    exact ((hs.step h).result_iff hrej).mpr ⟨prev, h.done hprev, hout⟩
  | some =>
    -- a call turned away has no swap, so its result is the rejection
    have hidle : s.rcu.phase i = .idle := by
      by_contra hne
      exact absurd ((hs.started i hne).symm.trans hrej) (by simp)
    rw [result, hidle] at hr
    have hmark : s.rejected i = true := by
      by_contra hne
      simp [hne] at hr
    rw [hmark, if_pos rfl] at hr
    have hmark' : t.rejected i = true := by
      cases h with
      | reject =>
        by_cases hij : i = j
        · subst hij
          exact Function.update_self ..
        · exact (Function.update_of_ne hij _ _).trans hmark
      | publish => exact hmark
    rw [result, hmark', if_pos rfl, hr]

theorem result_of_run (hs : Inv C s) (h : C.Run s t) (hr : C.result s i = some r) :
    C.result t i = some r := by
  have H : Inv C t ∧ C.result t i = some r := by
    induction h with
    | refl => exact ⟨hs, hr⟩
    | tail _ hstep ih =>
      exact ⟨ih.1.step hstep.choose_spec, ih.1.result_step hstep.choose_spec ih.2⟩
  exact H.2

/-! ### The contract -/

theorem run_increasing (h : C.Run s t) :
    s.rcu.cell = t.rcu.cell ∨
      installed (arcVersion S) s.rcu.cell < installed (arcVersion S) t.rcu.cell := by
  induction h with
  | refl => exact .inl rfl
  | tail _ hstep ih =>
    obtain ⟨i, hstep⟩ := hstep
    rcases hstep.cases_cell with hcell | ⟨hcell, -, hlt⟩
    · rwa [hcell]
    · right
      rcases ih with heq | hlt'
      · rwa [heq, hcell]
      · rw [hcell]
        exact hlt'.trans hlt

omit [DecidableEq ι] in
theorem Inv.ok_of_own (hs : Inv C s) (h : s.rcu.cell = some (C.own i)) :
    ∃ r, C.result s i = some r ∧ S.Ok r := by
  obtain ⟨prev, hprev, hlt⟩ := hs.owned i h
  have hrej := hs.started i (by rw [hprev]; simp)
  exact ⟨_, (hs.result_iff hrej).mpr ⟨prev, hprev, rfl⟩, (ok_outcome_iff _ _).mpr hlt⟩

theorem exists_own_of_ok (h : C.Run C.init s) (hr : C.result s i = some r) (hok : S.Ok r) :
    ∃ t, C.Run C.init t ∧ C.Run t s ∧ t.rcu.cell = some (C.own i) := by
  have hrej : C.reject i = none := by
    -- the result of a call turned away is its rejection, which is a failure
    by_contra hne
    obtain ⟨r', hr'⟩ := ne_none_iff_exists'.mp hne
    have hidle : s.rcu.phase i = .idle := by
      by_contra hsta
      exact hne ((inv_of_run h).started i hsta)
    rw [result, hidle, hr'] at hr
    split_ifs at hr
    obtain rfl : r' = r := some_inj.mp hr
    exact C.not_ok_of_reject i r' hr' hok
  induction h with
  | refl =>
    obtain ⟨prev, hprev, -⟩ := (inv_init.result_iff hrej).mp hr
    simp [init, Rcu.init] at hprev
  | @tail s u hrun hstep ih =>
    obtain ⟨j, hstep⟩ := hstep
    have hs := inv_of_run hrun
    cases hr₀ : C.result s i with
    | some r₀ =>
      have hsame : r₀ = r := some_inj.mp ((hs.result_step hstep hr₀).symm.trans hr)
      obtain ⟨t, ht, hts, hcell⟩ := ih (hsame ▸ hr₀)
      exact ⟨t, ht, hts.tail ⟨j, hstep⟩, hcell⟩
    | none =>
      -- the call got its result in this very step, so the step is its swap
      obtain ⟨prev, hprev, rfl⟩ := ((hs.step hstep).result_iff hrej).mp hr
      refine ⟨u, hrun.tail ⟨j, hstep⟩, .refl, ?_⟩
      have hnew : ∀ p, s.rcu.phase i ≠ .done p := fun p hp =>
        absurd ((hs.result_iff hrej).mpr ⟨p, hp, rfl⟩) (by simp [hr₀])
      cases hstep with
      | reject => exact absurd hprev (hnew prev)
      | publish _ hstep =>
        obtain rfl : i = j := by
          by_contra hij
          exact hnew prev ((hstep.phase_ne hij).symm.trans hprev)
        rcases hstep.cases_cell with ⟨-, -, snap, hph⟩ | ⟨hcell, -, hph⟩
        · exact absurd (hph.symm.trans hprev) (by simp)
        · obtain rfl : s.rcu.cell = prev := by simpa [hph] using hprev
          rcases C.update_cases i s.rcu.cell with ⟨-, hle⟩ | ⟨heq, -⟩
          · exact absurd ((ok_outcome_iff _ _).mp hok) (not_lt.mpr hle)
          · exact hcell.trans heq

omit [DecidableEq ι] in
theorem map_initCell : C.initCell.map Arc.value = C.initial := by
  rw [initCell, Option.map_map]
  exact congrFun Option.map_id C.initial

omit [DecidableEq ι] in
theorem map_after (calls : List ι) (h : ∀ i ∈ calls, C.reject i = none) :
    (Rcu.after C.update C.initCell calls).map Arc.value = C.sequentially calls := by
  rw [sequentially, ← map_initCell]
  generalize C.initCell = content
  induction calls generalizing content with
  | nil => rfl
  | cons i calls ih =>
    rw [Rcu.after_cons, ih fun j hj => h j (mem_cons_of_mem i hj), foldl_cons, alone,
      h i mem_cons_self, update, arcVersion, map_newer]
    rfl

theorem rcu_of_run (h : C.Run s t) : Rcu.Run C.update s.rcu t.rcu := by
  induction h with
  | refl => exact .refl
  | tail _ hstep ih =>
    obtain ⟨i, hstep⟩ := hstep
    cases hstep with
    | reject => exact ih
    | publish _ hstep => exact ih.tail ⟨i, hstep⟩

variable (C) in
/-- **Versioned stores keep their contract**, whatever the calls are. -/
theorem linearizable : Linearizable C where
  increasing _ hst := by
    simp only [contents, installed_contents]
    exact run_increasing hst
  ok_iff hs := by
    constructor
    · rintro ⟨r, hr, hok⟩
      exact exists_own_of_ok hs hr hok
    · rintro ⟨t, ht, hts, hcell⟩
      obtain ⟨r, hr, hok⟩ := (inv_of_run ht).ok_of_own hcell
      exact ⟨r, result_of_run (inv_of_run ht) hts hr, hok⟩
  failed hs hstep hrun hr hbad := by
    have hinv := (inv_of_run hs).step hstep
    rcases hstep.cases_cell with hcell | ⟨hcell, -, -⟩
    · exact hcell
    · -- had the step installed the call's content, the call would have succeeded
      obtain ⟨r', hr', hok⟩ := hinv.ok_of_own hcell
      obtain rfl : r' = _ := some_inj.mp ((result_of_run hinv hrun hr').symm.trans hr)
      exact absurd hok hbad
  final {s} hs hall := by
    have hinv := inv_of_run hs
    rw [contents, installed_contents]
    constructor
    · rcases hinv.content with hcell | ⟨i, hcell⟩
      · left
        rw [hcell, ← installed_contents, map_initCell]
        rfl
      · obtain ⟨prev, hprev, -⟩ := hinv.owned i hcell
        exact .inr ⟨i, hinv.started i (by rw [hprev]; simp), by rw [hcell]; rfl⟩
    · rintro v (rfl | ⟨i, hrej, rfl⟩)
      · rw [← C.map_initCell, installed_contents]
        rcases run_increasing hs with heq | hlt
        · exact le_of_eq (congrArg _ heq)
        · exact hlt.le
      · obtain ⟨r, hr⟩ := isSome_iff_exists.mp (hall i)
        obtain ⟨prev, hprev, -⟩ := (hinv.result_iff hrej).mp hr
        exact hinv.finished i prev hprev
  sequential {s} hs := by
    have hinv := inv_of_run hs
    -- the order of the swaps is the sequential one
    have hlin := Rcu.linearized_of_run (rcu_of_run hs)
    have hmem : ∀ i ∈ s.rcu.log, C.reject i = none := by
      intro i hi
      obtain ⟨prev, hprev⟩ := (hlin.mem_log i).mp hi
      exact hinv.started i (by rw [hprev]; simp)
    refine ⟨hlin.nodup, ?_, fun pre i post hlog => ?_, fun i hrej => ?_,
      fun hrun => Rcu.log_prefix_of_run (rcu_of_run hrun)⟩
    · rw [contents, hlin.cell_eq, map_after _ hmem]
    · rw [hlog] at hmem
      have hrej := hmem i (by simp)
      rw [alone, hrej, ← map_after pre fun j hj => hmem j (mem_append_left _ hj)]
      exact (hinv.result_iff hrej).mpr ⟨_, hlin.done_eq pre i post hlog, rfl⟩
    · rw [hlin.mem_log, isSome_iff_exists]
      simp only [hinv.result_iff hrej]
      exact ⟨fun ⟨_, prev, h, _⟩ => ⟨prev, h⟩, fun ⟨prev, h⟩ => ⟨_, prev, h, rfl⟩⟩

end Runs

end Calls
