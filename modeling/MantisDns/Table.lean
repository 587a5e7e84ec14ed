/-
Tables of a relational database, as lists of rows with a key, and the partial
updates of an API.

* `Patch` — a field of a partial update, which may be absent or null;
* `replaceRow` — the table with one row rewritten, and what that leaves of the
  keys and of what holds of every row;
* `Keyed` — a table whose rows are told apart by their key;
* `Shared` — a column whose values follow another one;
* `readRows` — a table read row by row, where a row may be passed over or end
  the reading;
* `int4` — the range of an `INTEGER` column, and `second` the unit of a time;
* `column` — what the flush of a session's object makes of a column.
-/
import Mathlib

open List Option

namespace Table

/-! ### Column types -/

def within (lo hi n : ℤ) : Bool := lo ≤ n && n ≤ hi

/-- An `INTEGER` column takes four bytes. -/
def int4 (n : ℤ) : Bool := within (-2147483648) 2147483647 n

/-- A second; times are in microseconds. -/
def second : ℕ := 1000000

theorem within_iff {lo hi n : ℤ} : within lo hi n = true ↔ lo ≤ n ∧ n ≤ hi := by
  simp [within]

theorem int4_iff {n : ℤ} : int4 n = true ↔ -2147483648 ≤ n ∧ n ≤ 2147483647 := within_iff

theorem within_of_int4 {lo n : ℤ} (hlo : lo ≤ n) (h : int4 n = true) :
    within lo 2147483647 n = true :=
  within_iff.mpr ⟨hlo, (int4_iff.mp h).2⟩

/-! ### Flushes -/

/-- A column after an `UPDATE`: it is written if the object differs from what was loaded. -/
def column {α β : Type} [DecidableEq β] (f : α → β) (loaded new row : α) : β :=
  if f new = f loaded then f row else f new

theorem column_self {α β : Type} [DecidableEq β] (f : α → β) (loaded new : α) :
    column f loaded new loaded = f new := by
  rw [column]
  split
  · rename_i heq
    exact heq.symm
  · rfl

/-! ### Partial updates -/

/-- A field of a partial update: absent, null, or set. -/
inductive Patch (α : Type)
  | unset
  | null
  | value (a : α)
  deriving DecidableEq

/-- `setattr` on a column that is not nullable. -/
def Patch.required {α : Type} : Patch α → α → Option α
  | .unset, old => some old
  | .null, _ => none
  | .value a, _ => some a

/-- `setattr` on a nullable column. -/
def Patch.nullable {α : Type} : Patch α → Option α → Option α
  | .unset, old => old
  | .null, _ => none
  | .value a, _ => some a

/-- A constraint of a field, which null and absent fields meet. -/
def Patch.all {α : Type} (ok : α → Bool) : Patch α → Bool
  | .value a => ok a
  | _ => true

/-- A validator on the value of a field; a null passes. -/
def Patch.traverse {α β : Type} (f : α → Option β) : Patch α → Option (Patch β)
  | .unset => some .unset
  | .null => some .null
  | .value a => (f a).map .value

theorem Patch.all_required {α : Type} {ok : α → Bool} {patch : Patch α} {old new : α}
    (h : patch.required old = some new) (hpat : patch.all ok = true) (hold : ok old = true) :
    ok new = true := by
  cases patch with
  | unset => exact some_inj.mp h ▸ hold
  | null => simp [Patch.required] at h
  | value => exact some_inj.mp h ▸ hpat

/-! ### Rows -/

section Rows

variable {α κ : Type} [DecidableEq κ] {key : α → κ} {id x : κ} {row : α} {rows : List α}
variable {P : α → Prop} {l : List α}

/-- The table with the row of this key rewritten. -/
def replaceRow (key : α → κ) (id : κ) (row : α) (rows : List α) : List α :=
  rows.map fun x => if key x = id then row else x

theorem forall_replaceRow (hrow : P row) (h : ∀ x ∈ rows, P x) :
    ∀ x ∈ replaceRow key id row rows, P x := by
  intro x hx
  obtain ⟨y, hy, rfl⟩ := List.mem_map.mp hx
  split
  · exact hrow
  · exact h y hy

theorem map_key_replaceRow (hrow : key row = id) :
    (replaceRow key id row rows).map key = rows.map key := by
  rw [replaceRow, List.map_map]
  refine map_congr_left fun x _ => ?_
  show key (if key x = id then row else x) = key x
  split
  · rename_i hx
    rw [hrow, hx]
  · rfl

theorem mem_ids_replaceRow (hrow : key row = id) (hx : x ∈ rows.map key) :
    x ∈ (replaceRow key id row rows).map key := by
  rwa [map_key_replaceRow hrow]

theorem mem_ids_filter (hx : x ∈ rows.map key) (hne : x ≠ id) :
    x ∈ (rows.filter (key · ≠ id)).map key := by
  obtain ⟨row, hrow, rfl⟩ := List.mem_map.mp hx
  exact List.mem_map.mpr ⟨row, mem_filter.mpr ⟨hrow, by simpa using hne⟩, rfl⟩

omit [DecidableEq κ] in
theorem mem_ids_concat (hx : x ∈ rows.map key) : x ∈ (rows ++ [row]).map key := by
  rw [map_append]
  exact mem_append_left _ hx

theorem forall_filter (h : ∀ x ∈ l, P x) (p : α → Bool) :
    ∀ x ∈ l.filter p, P x :=
  fun x hx => h x (mem_of_mem_filter hx)

theorem forall_concat {a : α} (h : ∀ x ∈ l, P x) (ha : P a) : ∀ x ∈ l ++ [a], P x := by
  intro x hx
  rcases mem_append.mp hx with hx | hx
  · exact h x hx
  · exact mem_singleton.mp hx ▸ ha

/-! ### Keyed tables -/

/-- Rows with the same key are the same row. -/
def Keyed (key : α → κ) (rows : List α) : Prop := ∀ x ∈ rows, ∀ y ∈ rows, key x = key y → x = y

omit [DecidableEq κ] in
theorem Keyed.sublist {rows' : List α} (h : Keyed key rows) (hsub : rows'.Sublist rows) :
    Keyed key rows' :=
  fun x hx y hy => h x (hsub.subset hx) y (hsub.subset hy)

omit [DecidableEq κ] in
theorem Keyed.concat (h : Keyed key rows) (hnew : key row ∉ rows.map key) :
    Keyed key (rows ++ [row]) := by
  have hne : ∀ x ∈ rows, key x ≠ key row := fun x hx heq =>
    hnew (heq ▸ List.mem_map_of_mem hx)
  intro x hx y hy hxy
  simp only [mem_append, mem_singleton] at hx hy
  rcases hx with hx | rfl <;> rcases hy with hy | rfl
  · exact h x hx y hy hxy
  · exact absurd hxy (hne x hx)
  · exact absurd hxy.symm (hne y hy)
  · rfl

theorem Keyed.find?_eq {x : α} (h : Keyed key rows) (hx : x ∈ rows) :
    rows.find? (key · = key x) = some x := by
  have hsome : (rows.find? (key · = key x)).isSome = true :=
    find?_isSome.mpr ⟨x, hx, by simp⟩
  obtain ⟨y, hy⟩ := isSome_iff_exists.mp hsome
  have hkey : key y = key x := by simpa using find?_some hy
  rw [hy, h y (mem_of_find?_eq_some hy) x hx hkey]

theorem Keyed.replaceRow (h : Keyed key rows) (hrow : key row = id) :
    Keyed key (Table.replaceRow key id row rows) := by
  intro x hx y hy hxy
  obtain ⟨a, ha, rfl⟩ := List.mem_map.mp hx
  obtain ⟨b, hb, rfl⟩ := List.mem_map.mp hy
  -- a row that was left alone does not have the key
  split_ifs at hxy ⊢ with hxa hyb hyb
  · rfl
  · exact absurd (hxy.symm.trans hrow) hyb
  · exact absurd (hxy.trans hrow) hxa
  · exact h a ha b hb hxy

theorem Keyed.replaceRow_of_free {β : Type} {f : α → β} (h : Keyed f rows)
    (hfree : ∀ x ∈ rows, f x = f row → key x = id) :
    Keyed f (Table.replaceRow key id row rows) := by
  intro x hx y hy hxy
  obtain ⟨a, ha, rfl⟩ := List.mem_map.mp hx
  obtain ⟨b, hb, rfl⟩ := List.mem_map.mp hy
  split_ifs at hxy ⊢ with hxa hyb hyb
  · rfl
  · exact absurd (hfree b hb hxy.symm) hyb
  · exact absurd (hfree a ha hxy) hxa
  · exact h a ha b hb hxy

theorem filter_replaceRow {p : α → Bool} (hold : ∀ x ∈ rows, key x = id → p x = false)
    (hrow : p row = false) : (replaceRow key id row rows).filter p = rows.filter p := by
  induction rows with
  | nil => rfl
  | cons x rows ih =>
    obtain ⟨hx, hrest⟩ := forall_mem_cons.mp hold
    have htail := ih hrest
    rw [replaceRow] at htail ⊢
    rw [map_cons, filter_cons, filter_cons, htail]
    by_cases heq : key x = id
    · rw [if_pos heq, hrow, hx heq]
      rfl
    · rw [if_neg heq]

/-! ### Columns that follow a key -/

variable {β : Type} {f : α → β}

/-- Two rows hold the same value exactly when they agree on the key. -/
def Shared (key : α → κ) (f : α → β) (rows : List α) : Prop :=
  ∀ x ∈ rows, ∀ y ∈ rows, f x = f y ↔ key x = key y

omit [DecidableEq κ] in
theorem Shared.subset {rows' : List α} (h : Shared key f rows) (hsub : rows' ⊆ rows) :
    Shared key f rows' :=
  fun x hx y hy => h x (hsub hx) y (hsub hy)

omit [DecidableEq κ] in
theorem Shared.concat (h : Shared key f rows) (hnew : ∀ x ∈ rows, f row = f x ↔ key row = key x) :
    Shared key f (rows ++ [row]) := by
  intro x hx y hy
  simp only [mem_append, mem_singleton] at hx hy
  rcases hx with hx | rfl <;> rcases hy with hy | rfl
  · exact h x hx y hy
  · rw [eq_comm, hnew x hx, eq_comm]
  · exact hnew y hy
  · exact ⟨fun _ => rfl, fun _ => rfl⟩

/-- The value of the row with a key, or a value that no row holds: what a new row
under that key has to be given. -/
theorem Shared.reuse (h : Shared key f rows) {fresh : β} (hfre : ∀ x ∈ rows, f x ≠ fresh) :
    ∀ x ∈ rows, ((rows.find? (key · = id)).map f).getD fresh = f x ↔ id = key x := by
  intro x hx
  cases hfind : rows.find? (key · = id) with
  | none =>
    have hne : key x ≠ id := by simpa using find?_eq_none.mp hfind x hx
    exact ⟨fun heq => absurd heq.symm (hfre x hx), fun heq => absurd heq.symm hne⟩
  | some y =>
    have hy : key y = id := by simpa using find?_some hfind
    rw [← hy]
    exact h y (mem_of_find?_eq_some hfind) x hx

end Rows

/-! ### Reading a table -/

section Read

variable {ρ β ε : Type} {read : ρ → Except ε (Option β)} {rows : List ρ} {out : List β}

/-- Every row in turn: it gives a value, or is passed over, or ends the reading. -/
def readRows (read : ρ → Except ε (Option β)) : List ρ → Except ε (List β)
  | [] => .ok []
  | row :: rows => do
    let value ← read row
    let values ← readRows read rows
    return value.toList ++ values

/-- The value of a row that does not end the reading. -/
def readValue (read : ρ → Except ε (Option β)) (row : ρ) : Option β :=
  match read row with
  | .ok value => value
  | .error _ => none

theorem bind_eq_ok_iff {α γ : Type} {x : Except ε α} {f : α → Except ε γ} {c : γ} :
    (x >>= f) = .ok c ↔ ∃ a, x = .ok a ∧ f a = .ok c := by
  cases x <;> simp [bind, Except.bind]

/-- **A table is read to its end exactly when no row ends the reading**, and then
the values are those of its rows. -/
theorem readRows_eq_ok_iff :
    readRows read rows = .ok out ↔
      (∀ row ∈ rows, ∃ value, read row = .ok value) ∧ out = rows.filterMap (readValue read) := by
  induction rows generalizing out with
  | nil => simp [readRows, eq_comm]
  | cons row rows ih =>
    rw [readRows, forall_mem_cons, filterMap_cons]
    cases hrow : read row with
    | error => simp [bind, Except.bind]
    | ok value =>
      have hval : readValue read row = value := by rw [readValue, hrow]
      cases hrest : readRows read rows with
      | error =>
        have hnot : ¬∀ row ∈ rows, ∃ value, read row = .ok value := fun hall => by
          have hok := ih.mpr ⟨hall, rfl⟩
          rw [hrest] at hok
          exact nomatch hok
        simp [bind, Except.bind, hnot]
      | ok =>
        obtain ⟨hall, rfl⟩ := ih.mp hrest
        have hrow' : ∃ v, (.ok value : Except ε (Option β)) = .ok v := ⟨value, rfl⟩
        rw [and_iff_right ⟨hrow', hall⟩, hval]
        cases value <;> simp [bind, Except.bind, pure, Except.pure, eq_comm]

end Read

end Table
