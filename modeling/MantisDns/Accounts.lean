/-
User accounts: `update_user`, `delete_user`, `login` and `change_password` of
`api/auth_routers.py`, and `get_current_user` of `auth.py`.

A request loads its rows, checks them and commits; nothing is locked in between, so
what it has checked may no longer hold when it commits.

* `Stmt` — `update_user` and `delete_user`, statement by statement;
* `admin_remains` — while no other request takes an admin away between the reads and
  the commit of one that does, an admin is left;
* `mutual_demotion` — two admins demote each other;
* `Password.Stmt` — `login` and `change_password`;
* `Password.change_revokes` — a change that commits on the row it has loaded revokes
  every token issued before it;
* `Password.concurrent_changes` — two changes end at the same version.
-/
import MantisDns.Requests
import MantisDns.ZoneApi

open Text Table Requests Option
open List hiding set_set

namespace Control.Accounts

/-! ### Users -/

/-- A row of `users`. -/
structure Account extends User where
  id : Str
  passwordHash : Str
  tokenVersion : ℕ
  deriving DecidableEq

/-- The ids of the admins. -/
def adminIds (rows : List Account) : List Str := (rows.filter (·.role = .admin)).map (·.id)

theorem mem_adminIds {rows : List Account} {x : Str} :
    x ∈ adminIds rows ↔ ∃ u ∈ rows, u.role = .admin ∧ u.id = x := by
  simp [adminIds, and_assoc]

/-- `update_user` with the fields of its payload, or `delete_user`. -/
inductive Request
  | update (userId : Str) (role : Role) (tenantId : Option Str)
  | delete (userId : Str)

def Request.userId : Request → Str
  | .update userId _ _ => userId
  | .delete userId => userId

/-- The checks of a request, on the rows that it has loaded and on the number of admins. -/
def Request.allowed (rows : List Account) (caller user : Account) : Request → Bool
  | .update _ role tenantId => (role = .admin || tenantId.isSome) &&
      !(user.role = .admin && role ≠ .admin && (adminIds rows).length ≤ 1)
  | .delete _ => user.id ≠ caller.id

/-- The flush at the commit, with the row that was loaded: an `UPDATE` of the columns that
differ from it, or a `DELETE`; `none` when the row is gone or a constraint refuses it. -/
def Request.flush (user : Account) (rows : List Account) : Request → Option (List Account)
  | .update userId role tenantId =>
    if user.role = role ∧ user.tenantId = tenantId then some rows
    else
      match rows.find? (·.id = userId) with
      | none => none
      | some row =>
        let row' := { row with
          role := if user.role = role then row.role else role
          tenantId := if user.tenantId = tenantId then row.tenantId else tenantId }
        if row'.role = .admin ∨ row'.tenantId.isSome then
          some (replaceRow (·.id) userId row' rows)
        else none
  | .delete userId => some (rows.filter (·.id ≠ userId))

/-- The table, with the number of commits so far that took an admin away. -/
structure Users where
  rows : List Account
  removals : ℕ

def Users.write (db : Users) (rows : List Account) : Users :=
  ⟨rows, if adminIds db.rows ⊆ adminIds rows then db.removals else db.removals + 1⟩

/-- How far a request is, with the number of removals at its first read. -/
inductive Phase
  | idle
  | authed (req : Request) (caller : Account) (since : ℕ)
  | loaded (req : Request) (caller user : Account) (since : ℕ)
  | ready (req : Request) (user : Account) (since : ℕ)

inductive Stmt (db : Users) : Phase → Users → Phase → Prop
  | authenticate {req : Request} {caller : Account} (hcaller : caller ∈ db.rows)
      (hrole : caller.hasRole .admin = true) :
    Stmt db .idle db (.authed req caller db.removals)
  -- the session returns the caller's object when it is the one asked for
  | load {req : Request} {caller user : Account} {since : ℕ} (hid : user.id = req.userId)
      (huser : user ∈ db.rows ∧ user.id ≠ caller.id ∨ user = caller) :
    Stmt db (.authed req caller since) db (.loaded req caller user since)
  | check {req : Request} {caller user : Account} {since : ℕ}
      (h : req.allowed db.rows caller user = true) :
    Stmt db (.loaded req caller user since) db (.ready req user since)
  | commit {req : Request} {user : Account} {since : ℕ} {rows : List Account}
      (h : req.flush user db.rows = some rows) :
    Stmt db (.ready req user since) (db.write rows) .idle
  | abort {p : Phase} : Stmt db p db .idle

/-! ### What a commit does to the admins -/

variable {db : Users} {rows rows' : List Account} {req : Request} {user caller : Account} {x : Str}

theorem Request.nodup_flush (h : req.flush user rows = some rows')
    (hids : (rows.map (·.id)).Nodup) : (rows'.map (·.id)).Nodup := by
  cases req with
  | update userId =>
    simp only [Request.flush] at h
    split at h
    · rwa [← some_inj.mp h]
    · split at h
      · cases h
      · rename_i row hfind
        have hid : row.id = userId := by simpa using find?_some hfind
        obtain ⟨-, ⟨⟩⟩ := ite_none_right_eq_some.mp h
        rwa [map_key_replaceRow]
        exact hid
  | delete =>
    cases h
    exact hids.sublist (filter_sublist.map _)

theorem Request.mem_adminIds_flush (h : req.flush user rows = some rows') (hx : x ∈ adminIds rows)
    (hne : x ≠ req.userId) : x ∈ adminIds rows' := by
  obtain ⟨u, hu, hrole, rfl⟩ := mem_adminIds.mp hx
  cases req with
  | update =>
    simp only [Request.flush] at h
    split at h
    · rwa [← some_inj.mp h]
    · split at h
      · cases h
      · obtain ⟨-, ⟨⟩⟩ := ite_none_right_eq_some.mp h
        refine mem_adminIds.mpr ⟨u, List.mem_map.mpr ⟨u, hu, if_neg hne⟩, hrole, rfl⟩
  | delete =>
    cases h
    exact mem_adminIds.mpr ⟨u, mem_filter.mpr ⟨hu, by simpa [Request.userId] using hne⟩, hrole, rfl⟩

theorem Request.subset_flush_update {userId : Str} {tenantId : Option Str}
    (h : (Request.update userId .admin tenantId).flush user rows = some rows')
    (hids : (rows.map (·.id)).Nodup) : adminIds rows ⊆ adminIds rows' := by
  intro x hx
  by_cases hne : x = userId
  · subst hne
    obtain ⟨u, hu, hrole, rfl⟩ := mem_adminIds.mp hx
    simp only [Request.flush] at h
    -- an object that is as it was loaded is not written
    split at h
    · rwa [← some_inj.mp h]
    · split at h
      · cases h
      · rename_i row hfind
        have hid : row.id = u.id := by simpa using find?_some hfind
        obtain rfl : row = u :=
          inj_on_of_nodup_map hids (mem_of_find?_eq_some hfind) hu hid
        -- the update of an admin row leaves its role `admin`
        obtain ⟨-, ⟨⟩⟩ := ite_none_right_eq_some.mp h
        refine mem_adminIds.mpr ⟨_, List.mem_map.mpr ⟨row, hu, if_pos rfl⟩, ?_, rfl⟩
        simp [hrole]
  · exact mem_adminIds_flush h hx hne

/-! ### An admin is left -/

/-- A commit that takes an admin away comes while no other request has done so since the
first read. -/
def Undisturbed {ι : Type} (s : State ι Users Phase) (i : ι) : Prop :=
  ∀ req user since rows, s.phase i = .ready req user since →
    req.flush user s.db.rows = some rows → ¬adminIds s.db.rows ⊆ adminIds rows →
      s.db.removals = since

/-- Another admin than the user of the request. -/
def Spared (db : Users) (req : Request) : Prop := ∃ x ∈ adminIds db.rows, x ≠ req.userId

/-- A request that cannot take an admin away. -/
def Request.Harmless (req : Request) : Prop :=
  ∃ userId tenantId, req = .update userId .admin tenantId

/-- What a request knows while nobody has taken an admin away since its first read. -/
def Knows (db : Users) : Phase → Prop
  | .idle => True
  | .authed _ caller since => since ≤ db.removals ∧
      (db.removals = since → caller.id ∈ adminIds db.rows) ∧ caller.role = .admin
  | .loaded req caller user since => since ≤ db.removals ∧
      (db.removals = since → caller.id ∈ adminIds db.rows) ∧ user.id = req.userId ∧
      (user.role ≠ .admin → user.id ≠ caller.id)
  | .ready req _ since => since ≤ db.removals ∧
      (db.removals = since → Spared db req ∨ req.Harmless)

theorem Users.removals_write (db : Users) (rows : List Account) :
    db.removals ≤ (db.write rows).removals ∧
      ((db.write rows).removals = db.removals → adminIds db.rows ⊆ adminIds rows) := by
  rw [Users.write]
  split
  · rename_i hsub
    exact ⟨le_rfl, fun _ => hsub⟩
  · -- somebody was removed, and the counter says so
    exact ⟨Nat.le_succ _, fun heq => absurd heq (by simp)⟩

theorem Knows.write {p : Phase} (h : Knows db p) (rows : List Account) :
    Knows (db.write rows) p := by
  obtain ⟨hle, hsub⟩ := db.removals_write rows
  -- if nobody was taken away since the first read, then not by this commit
  have hback : ∀ since, since ≤ db.removals → (db.write rows).removals = since →
      db.removals = since ∧ adminIds db.rows ⊆ adminIds rows := by
    intro since hsin heq
    have heq' : (db.write rows).removals = db.removals := by omega
    exact ⟨by omega, hsub heq'⟩
  cases p with
  | idle => trivial
  | authed req caller since =>
    obtain ⟨hsin, hcaller, hrole⟩ := h
    refine ⟨hsin.trans hle, fun heq => ?_, hrole⟩
    obtain ⟨hsame, hsub⟩ := hback since hsin heq
    exact hsub (hcaller hsame)
  | loaded req caller user since =>
    obtain ⟨hsin, hcaller, hrest⟩ := h
    refine ⟨hsin.trans hle, fun heq => ?_, hrest⟩
    obtain ⟨hsame, hsub⟩ := hback since hsin heq
    exact hsub (hcaller hsame)
  | ready req user since =>
    obtain ⟨hsin, hspa⟩ := h
    refine ⟨hsin.trans hle, fun heq => ?_⟩
    obtain ⟨hsame, hsub⟩ := hback since hsin heq
    refine (hspa hsame).imp_left ?_
    rintro ⟨x, hx, hne⟩
    exact ⟨x, hsub hx, hne⟩

theorem role_of_hasRole_admin {u : User} (h : u.hasRole .admin = true) : u.role = .admin := by
  obtain ⟨role, tenantId⟩ := u
  cases role with
  | admin => rfl
  | viewer | operator => simp [User.hasRole, Role.rank] at h

theorem exists_other (hids : (rows.map (·.id)).Nodup) (hcou : ¬(adminIds rows).length ≤ 1)
    (y : Str) : ∃ x ∈ adminIds rows, x ≠ y := by
  have hnod : (adminIds rows).Nodup := hids.sublist (filter_sublist.map _)
  match hlist : adminIds rows with
  | [] | [_] => simp [hlist] at hcou
  | a :: b :: rest =>
    rw [hlist] at hnod
    by_cases ha : a = y
    · refine ⟨b, by simp, ?_⟩
      rintro rfl
      simp [ha] at hnod
    · exact ⟨a, by simp, ha⟩

/-- **What the checks give**: another admin is there. -/
theorem Knows.check {since : ℕ} (h : Knows db (.loaded req caller user since))
    (hids : (db.rows.map (·.id)).Nodup) (hald : req.allowed db.rows caller user = true) :
    Knows db (.ready req user since) := by
  obtain ⟨hsin, hcaller, hid, hoth⟩ := h
  refine ⟨hsin, fun heq => ?_⟩
  have hcaller := hcaller heq
  cases req with
  | update userId role tenantId =>
    by_cases hrole : role = .admin
    · exact .inr ⟨userId, tenantId, by rw [hrole]⟩
    · left
      by_cases huser : user.role = .admin
      · -- two admins were counted, and the user is one of them
        refine exists_other hids (fun hcou => ?_) userId
        simp [Request.allowed, huser, hrole, hcou] at hald
      · exact ⟨caller.id, hcaller, fun heq => hoth huser (hid.trans heq.symm)⟩
  | delete =>
    left
    have hne : user.id ≠ caller.id := by simpa [Request.allowed] using hald
    exact ⟨caller.id, hcaller, fun heq => hne (hid.trans heq.symm)⟩

/-- **At least one admin is left in every committed state.** -/
theorem admin_remains {ι : Type} [DecidableEq ι] {db : Users} {s : State ι Users Phase}
    (hids : (db.rows.map (·.id)).Nodup) (hadmin : ∃ u ∈ db.rows, u.role = .admin)
    (hrun : RunWhile Stmt Undisturbed ⟨db, fun _ => .idle⟩ s) :
    ∃ u ∈ s.db.rows, u.role = .admin := by
  have hinv : ((s.db.rows.map (·.id)).Nodup ∧ ∃ x, x ∈ adminIds s.db.rows) ∧
      ∀ i, Knows s.db (s.phase i) := by
    refine hrun.induct (G := fun db => (db.rows.map (·.id)).Nodup ∧ ∃ x, x ∈ adminIds db.rows)
      (I := Knows) ?_ ?_ ⟨hids, ?_⟩ fun _ => trivial
    · -- a statement keeps an admin, and what its own request knows
      rintro s i db p hC ⟨hids, x, hx⟩ hI hstmt
      generalize hph : s.phase i = q at hI hstmt
      cases hstmt with
      | @authenticate req caller hcaller hrole =>
        have hrole := role_of_hasRole_admin hrole
        have hmem := mem_adminIds.mpr ⟨caller, hcaller, hrole, rfl⟩
        exact ⟨⟨hids, x, hx⟩, le_rfl, fun _ => hmem, hrole⟩
      | @load req caller user since hid huser =>
        obtain ⟨hsin, hcaller, hrole⟩ := hI
        refine ⟨⟨hids, x, hx⟩, hsin, hcaller, hid, fun hnot => ?_⟩
        rcases huser with ⟨-, hne⟩ | rfl
        · exact hne
        · exact absurd hrole hnot
      | check hald => exact ⟨⟨hids, x, hx⟩, hI.check hids hald⟩
      | @commit req user since rows hflu =>
        refine ⟨⟨Request.nodup_flush hflu hids, ?_⟩, trivial⟩
        -- a commit that removes an admin has counted two, and nobody was removed since
        by_cases hsub : adminIds s.db.rows ⊆ adminIds rows
        · exact ⟨x, hsub hx⟩
        · have hsin := hC req user since rows hph hflu hsub
          rcases hI.2 hsin with ⟨y, hy, hne⟩ | ⟨userId, tenantId, rfl⟩
          · exact ⟨y, Request.mem_adminIds_flush hflu hy hne⟩
          · exact absurd (Request.subset_flush_update hflu hids) hsub
      | abort => exact ⟨⟨hids, x, hx⟩, trivial⟩
    · -- what the other requests know outlives it
      rintro s i db p q - - - hstmt hq
      generalize s.phase i = q' at hstmt
      cases hstmt with
      | authenticate | load | check | abort => exact hq
      | commit => exact hq.write _
    · obtain ⟨u, hu, hrole⟩ := hadmin
      exact ⟨u.id, mem_adminIds.mpr ⟨u, hu, hrole, rfl⟩⟩
  obtain ⟨⟨-, x, hx⟩, -⟩ := hinv
  obtain ⟨u, hu, hrole, -⟩ := mem_adminIds.mp hx
  exact ⟨u, hu, hrole⟩

/-! ### Samples -/

def sampleAdmin (id : String) : Account := ⟨⟨.admin, none⟩, id.toList, [], 0⟩

/-- A request of one admin to make another one a viewer. -/
def sampleDemotion (id : String) : Request := .update id.toList .viewer (some "red")

def sampleUsers : Users := ⟨[sampleAdmin "ann", sampleAdmin "bob"], 0⟩

theorem sampleDemotion_ready {s₀ s : State Bool Users Phase}
    {C : State Bool Users Phase → Bool → Prop}
    (h : RunWhile Stmt C s₀ s) (hdb : s.db = sampleUsers) {i : Bool} (hi : s.phase i = .idle)
    (hC : ∀ s i, (∀ req user since, s.phase i ≠ .ready req user since) → C s i)
    (caller user : String)
    (hcaller : sampleAdmin caller ∈ sampleUsers.rows) (huser : sampleAdmin user ∈ sampleUsers.rows)
    (hne : (sampleAdmin user).id ≠ (sampleAdmin caller).id) :
    RunWhile Stmt C s₀ (s.set i sampleUsers
      (.ready (sampleDemotion user) (sampleAdmin user) 0)) := by
  have hcou : ¬(adminIds sampleUsers.rows).length ≤ 1 := by decide
  have haut : RunWhile Stmt C s₀
      (s.set i sampleUsers (.authed (sampleDemotion user) (sampleAdmin caller) 0)) := by
    refine h.stmt (hC s i (by simp [hi])) ?_
    rw [hi, hdb]
    exact .authenticate hcaller rfl
  have hld := haut.stmt (i := i) (d := sampleUsers)
    (p := .loaded (sampleDemotion user) (sampleAdmin caller) (sampleAdmin user) 0)
    (hC _ i (by simp)) (by rw [phase_set_self]; exact .load rfl (.inl ⟨huser, hne⟩))
  rw [set_set] at hld
  have hrdy := hld.stmt (i := i) (d := sampleUsers)
    (p := .ready (sampleDemotion user) (sampleAdmin user) 0) (hC _ i (by simp)) (by
      rw [phase_set_self]
      exact .check (by simp [Request.allowed, sampleDemotion, hcou]))
  rwa [set_set] at hrdy

theorem sampleUsers_valid : (sampleUsers.rows.map (·.id)).Nodup ∧
    ∃ u ∈ sampleUsers.rows, u.role = .admin :=
  ⟨by decide, sampleAdmin "ann", by simp [sampleUsers], rfl⟩

/-- One admin demotes another one. -/
theorem admin_remains_of_demotion : ∃ s : State Bool Users Phase,
    RunWhile Stmt Undisturbed ⟨sampleUsers, fun _ => .idle⟩ s ∧
      (∃ u ∈ s.db.rows, u.role = .viewer) ∧ ∃ u ∈ s.db.rows, u.role = .admin := by
  have hrdy : RunWhile Stmt Undisturbed ⟨sampleUsers, fun _ => .idle⟩ _ :=
    sampleDemotion_ready (i := true) .refl rfl rfl
      (fun s i hnot req user since _ hi => absurd hi (hnot req user since)) "ann" "bob"
      (by simp [sampleUsers]) (by simp [sampleUsers]) (by decide)
  have hcom := hrdy.stmt (i := true) (p := .idle) (fun req user since rows hi _ _ => by
    rw [phase_set_self] at hi
    cases hi
    rfl) (by
      rw [phase_set_self]
      exact .commit rfl)
  refine ⟨_, hcom, ?_, admin_remains sampleUsers_valid.1 sampleUsers_valid.2 hcom⟩
  decide +kernel

/-- **Two admins demote each other**, each of them counting two. -/
theorem mutual_demotion : ((sampleUsers.rows.map (·.id)).Nodup ∧
      ∃ u ∈ sampleUsers.rows, u.role = .admin) ∧
    ∃ s : State Bool Users Phase,
      RunWhile Stmt (fun _ _ => True) ⟨sampleUsers, fun _ => .idle⟩ s ∧
        ¬∃ u ∈ s.db.rows, u.role = .admin := by
  have hann : RunWhile Stmt (fun _ _ => True) ⟨sampleUsers, fun _ => .idle⟩ _ :=
    sampleDemotion_ready (i := true) .refl rfl rfl (fun _ _ _ => trivial) "ann" "bob"
      (by simp [sampleUsers]) (by simp [sampleUsers]) (by decide)
  have hbob := sampleDemotion_ready hann (i := false) rfl rfl (fun _ _ _ => trivial) "bob" "ann"
    (by simp [sampleUsers]) (by simp [sampleUsers]) (by decide)
  have hfst := hbob.stmt (i := true) (p := .idle) trivial (Stmt.commit rfl)
  have hsec := hfst.stmt (i := false) (p := .idle) trivial (Stmt.commit rfl)
  exact ⟨sampleUsers_valid, _, hsec, by decide +kernel⟩

/-! ### Passwords and tokens -/

namespace Password

/-- bcrypt: `verify_password`, and which texts `hash_password` may return. -/
structure Bcrypt where
  verify : Str → Str → Bool
  Hashes : Str → Str → Prop

/-- A JWT of the user; tokens from before `tv` existed have none. -/
structure Token where
  tv : Option ℕ
  deriving DecidableEq

/-- The user's row, and the tokens that were issued to the user. -/
structure Db where
  row : Account
  issued : List Token

/-- `payload.get("tv", 0)`. -/
def Token.version (token : Token) : ℕ := token.tv.getD 0

/-- `get_current_user` lets the token in. -/
def accepts (row : Account) (token : Token) : Bool := token.version = row.tokenVersion

inductive Phase
  | idle
  | loggedIn (row : Account)
  | loaded (row : Account)
  | ready (row : Account) (hash : Str)
  | committed

/-- `login` and `change_password`, statement by statement. -/
inductive Stmt (B : Bcrypt) (db : Db) : Phase → Db → Phase → Prop
  | login {password : Str} (h : B.verify password db.row.passwordHash = true) :
    Stmt B db .idle db (.loggedIn db.row)
  | issue {row : Account} :
    Stmt B db (.loggedIn row) { db with issued := ⟨some row.tokenVersion⟩ :: db.issued } .idle
  | load {token : Token} (htoken : token ∈ db.issued) (h : accepts db.row token = true) :
    Stmt B db .idle db (.loaded db.row)
  | verify {row : Account} {current new hash : Str} (h : B.verify current row.passwordHash = true)
      (hnew : new ≠ current) (hhash : B.Hashes new hash) :
    Stmt B db (.loaded row) db (.ready row hash)
  | commit {row : Account} {hash : Str} :
    Stmt B db (.ready row hash) { db with
      row := { db.row with passwordHash := hash, tokenVersion := row.tokenVersion + 1 } } .committed
  -- the commit has expired the object: the version is read again
  | reissue :
    Stmt B db .committed { db with issued := ⟨some db.row.tokenVersion⟩ :: db.issued } .idle
  | abort {p : Phase} : Stmt B db p db .idle

/-- A change commits on the row that it has loaded. -/
def Current {ι : Type} (s : State ι Db Phase) (i : ι) : Prop :=
  ∀ row hash, s.phase i = .ready row hash → s.db.row.tokenVersion = row.tokenVersion

/-- A request has seen no version that is still to come. -/
def Seen (db : Db) : Phase → Prop
  | .loggedIn row => row.tokenVersion ≤ db.row.tokenVersion
  | _ => True

variable {B : Bcrypt} {ι : Type} [DecidableEq ι] {s t u : State ι Db Phase}

/-- Nothing that was issued is of a later version, and the version does not go back. -/
theorem version_of_run (hrun : RunWhile (Stmt B) Current s t)
    (hiss : ∀ token ∈ s.db.issued, token.version ≤ s.db.row.tokenVersion)
    (hseen : ∀ i, Seen s.db (s.phase i)) :
    s.db.row.tokenVersion ≤ t.db.row.tokenVersion ∧
      (∀ token ∈ t.db.issued, token.version ≤ t.db.row.tokenVersion) ∧
      ∀ i, Seen t.db (t.phase i) := by
  have hinv := hrun.induct (I := Seen) (G := fun db =>
      s.db.row.tokenVersion ≤ db.row.tokenVersion ∧
        ∀ token ∈ db.issued, token.version ≤ db.row.tokenVersion) ?_ ?_ ⟨le_rfl, hiss⟩ hseen
  · exact ⟨hinv.1.1, hinv.1.2, hinv.2⟩
  · -- only a commit writes the version, and it adds one to the current one
    rintro s' i db p hC ⟨hle, hiss⟩ hI hstmt
    generalize hph : s'.phase i = q at hI hstmt
    cases hstmt with
    | login => exact ⟨⟨hle, hiss⟩, le_refl _⟩
    | @issue row => exact ⟨⟨hle, forall_mem_cons.mpr ⟨hI, hiss⟩⟩, trivial⟩
    | load | verify | abort => exact ⟨⟨hle, hiss⟩, trivial⟩
    | @commit row hash =>
      have hcur : s'.db.row.tokenVersion = row.tokenVersion := hC row hash hph
      refine ⟨⟨?_, fun token htoken => ?_⟩, trivial⟩
      · show s.db.row.tokenVersion ≤ row.tokenVersion + 1
        omega
      · show token.version ≤ row.tokenVersion + 1
        have hold := hiss token htoken
        omega
    | reissue => exact ⟨⟨hle, forall_mem_cons.mpr ⟨le_refl _, hiss⟩⟩, trivial⟩
  · -- what was seen stays a lower bound
    rintro s' i db p q hC ⟨hle, -⟩ - hstmt hq
    generalize hph : s'.phase i = q' at hstmt
    cases hstmt with
    | login | issue | load | verify | reissue | abort => exact hq
    | @commit row hash =>
      have hcur : s'.db.row.tokenVersion = row.tokenVersion := hC row hash hph
      cases q with
      | loggedIn seen =>
        have hq : seen.tokenVersion ≤ s'.db.row.tokenVersion := hq
        show seen.tokenVersion ≤ row.tokenVersion + 1
        omega
      | idle | loaded | ready | committed => trivial

/-- **A change revokes every token that was issued before it**, from its commit on. -/
theorem change_revokes {db : Db}
    (hissued : ∀ token ∈ db.issued, token.version ≤ db.row.tokenVersion)
    (hbefore : RunWhile (Stmt B) Current ⟨db, fun _ => .idle⟩ s) {i : ι} {row : Account}
    {hash : Str}
    (hready : s.phase i = .ready row hash) (hC : Current s i) (hcommit : Step (Stmt B) s i t)
    (hcommitted : t.phase i = .committed) (hafter : RunWhile (Stmt B) Current t u) :
    t.db.row.tokenVersion = s.db.row.tokenVersion + 1 ∧
      ∀ token ∈ s.db.issued, accepts u.db.row token = false := by
  obtain ⟨-, hissued, hseen⟩ := version_of_run hbefore hissued fun _ => trivial
  have hrun : RunWhile (Stmt B) Current s t := .single ⟨i, hC, hcommit⟩
  obtain ⟨-, hiss', hseen'⟩ := version_of_run hrun hissued hseen
  -- the commit writes the next version
  have hver : t.db.row.tokenVersion = s.db.row.tokenVersion + 1 := by
    obtain ⟨hstmt⟩ := hcommit
    rw [hready] at hstmt
    rw [phase_set_self] at hcommitted
    cases hstmt with
    | commit => exact congrArg (· + 1) (hC row hash hready).symm
    | abort => exact nomatch hcommitted
  obtain ⟨hle, -⟩ := version_of_run hafter hiss' hseen'
  refine ⟨hver, fun token htoken => ?_⟩
  have hold := hissued token htoken
  rw [accepts, decide_eq_false_iff_not]
  omega

/-! ### Sample changes -/

/-- A hash that keeps the password as it is. -/
def sampleBcrypt : Bcrypt :=
  ⟨fun password hash => password = hash, fun password hash => hash = password⟩

def sampleRow (password : String) (version : ℕ) : Account :=
  { sampleAdmin "ann" with passwordHash := password.toList, tokenVersion := version }

/-- The user has one session. -/
def sampleDb : Db := ⟨sampleRow "old" 0, [⟨some 0⟩]⟩

theorem sampleChange_ready {s₀ s : State Bool Db Phase} {C : State Bool Db Phase → Bool → Prop}
    (h : RunWhile (Stmt sampleBcrypt) C s₀ s) (hdb : s.db = sampleDb) {i : Bool}
    (hi : s.phase i = .idle) (hC : ∀ s i, (∀ row hash, s.phase i ≠ .ready row hash) → C s i)
    (new : String) (hnew : new.toList ≠ "old") :
    RunWhile (Stmt sampleBcrypt) C s₀ (s.set i sampleDb
      (.ready (sampleRow "old" 0) new.toList)) := by
  have hld : RunWhile (Stmt sampleBcrypt) C s₀
      (s.set i sampleDb (.loaded (sampleRow "old" 0))) := by
    refine h.stmt (hC s i (by simp [hi])) ?_
    rw [hi, hdb]
    exact .load mem_cons_self rfl
  have hrdy := hld.stmt (i := i) (d := sampleDb) (p := .ready (sampleRow "old" 0) new.toList)
    (hC _ i (by simp)) (by
      rw [phase_set_self]
      exact @Stmt.verify _ _ _ "old" new.toList _ rfl hnew rfl)
  rwa [set_set] at hrdy

/-- A change revokes the session that was open before. -/
theorem change_revokes_session : ∃ s t : State Bool Db Phase,
    RunWhile (Stmt sampleBcrypt) Current ⟨sampleDb, fun _ => .idle⟩ s ∧
      Step (Stmt sampleBcrypt) s true t ∧ t.phase true = .committed ∧
      ∀ token ∈ s.db.issued, accepts t.db.row token = false := by
  have hrdy : RunWhile (Stmt sampleBcrypt) Current ⟨sampleDb, fun _ => .idle⟩ _ :=
    sampleChange_ready (i := true) .refl rfl rfl
      (fun s i hnot row hash hi => absurd hi (hnot row hash)) "new" (by decide)
  refine ⟨_, _, hrdy, .stmt Stmt.commit, phase_set_self .., ?_⟩
  refine (change_revokes (by decide) hrdy (phase_set_self ..) ?_ (.stmt Stmt.commit)
    (phase_set_self ..) .refl).2
  intro row hash hi
  rw [phase_set_self] at hi
  cases hi
  rfl

/-- **Two changes that load the same row end at the same version**: the token of the first
one outlives the second one. -/
theorem concurrent_changes :
    (∀ token ∈ sampleDb.issued, token.version ≤ sampleDb.row.tokenVersion) ∧
    ∃ s t : State Bool Db Phase,
      RunWhile (Stmt sampleBcrypt) (fun _ _ => True) ⟨sampleDb, fun _ => .idle⟩ s ∧
      Step (Stmt sampleBcrypt) s false t ∧ t.phase false = .committed ∧
      ∃ token ∈ s.db.issued, accepts t.db.row token = true := by
  have hfst : RunWhile (Stmt sampleBcrypt) (fun _ _ => True) ⟨sampleDb, fun _ => .idle⟩ _ :=
    sampleChange_ready (i := true) .refl rfl rfl (fun _ _ _ => trivial) "new" (by decide)
  have hsec := sampleChange_ready hfst (i := false) rfl rfl (fun _ _ _ => trivial) "newer"
    (by decide)
  have hcom := hsec.stmt (i := true) (p := .committed) trivial (Stmt.commit)
  have hrei := hcom.stmt (i := true) (p := .idle) trivial (Stmt.reissue)
  refine ⟨by decide, _, _, hrei, .stmt Stmt.commit, phase_set_self .., ⟨some 1⟩, ?_, ?_⟩
  · exact mem_cons_self
  · decide

end Password

end Control.Accounts
