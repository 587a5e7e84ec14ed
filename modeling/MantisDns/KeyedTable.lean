/-
Tables with a unique key.

A `Store` is a table that cannot hold two rows of one key.  Its statements are
read through `find`, the row of a key: each says what it leaves there, so
nothing else about the list of rows is needed.

* `find_upsert`, `find_insertOr` — `INSERT … ON CONFLICT DO UPDATE`, with the
  row inserted or with an update of the row found;
* `find_update`, `find_updateRow`, `find_delete` — `UPDATE … WHERE`, of any rows
  or of the row of a key, and `DELETE … WHERE`.
-/
import MantisDns.Table

open List Option

namespace Table

/-- A table whose rows are told apart by `key`. -/
structure Store {α κ : Type} (key : α → κ) where
  rows : List α
  keyed : Keyed key rows

namespace Store

variable {α κ : Type} {key : α → κ} [DecidableEq κ] (T : Store key) {x row : α} {id : κ}
variable {p : α → Bool} {f : α → α} {hf : ∀ x, key (f x) = key x}

/-- The table without rows. -/
def empty : Store key := ⟨[], fun _ hx => absurd hx not_mem_nil⟩

/-- The row of a key. -/
def find (id : κ) : Option α := T.rows.find? (key · = id)

theorem find_eq_some_iff : T.find id = some x ↔ x ∈ T.rows ∧ key x = id := by
  constructor
  · intro h
    exact ⟨mem_of_find?_eq_some h, by simpa using find?_some h⟩
  · rintro ⟨hx, rfl⟩
    cases hfind : T.find (key x) with
    | none => exact absurd (find?_eq_none.mp hfind x hx) (by simp)
    | some y =>
      have hy : key y = key x := by simpa using find?_some hfind
      rw [T.keyed y (mem_of_find?_eq_some hfind) x hx hy]

theorem mem_rows_iff : x ∈ T.rows ↔ T.find (key x) = some x :=
  ⟨fun h => T.find_eq_some_iff.mpr ⟨h, rfl⟩, fun h => (T.find_eq_some_iff.mp h).1⟩

theorem find_eq_none_iff : T.find id = none ↔ ∀ y ∈ T.rows, key y ≠ id := by
  simp [find]

variable {T} in
theorem key_of_find (h : T.find id = some x) : key x = id := (T.find_eq_some_iff.mp h).2

theorem find_congr {U : Store key} (h : ∀ y, key y = id → (y ∈ T.rows ↔ y ∈ U.rows)) :
    T.find id = U.find id := by
  refine Option.ext fun y => ?_
  rw [find_eq_some_iff, find_eq_some_iff]
  exact ⟨fun hy => ⟨(h y hy.2).mp hy.1, hy.2⟩, fun hy => ⟨(h y hy.2).mpr hy.1, hy.2⟩⟩

/-! ### Statements -/

/-- `INSERT`, overwriting the row of the same key. -/
def upsert (row : α) : Store key where
  rows := T.rows.filter (key · ≠ key row) ++ [row]
  keyed := by
    refine (T.keyed.sublist filter_sublist).concat ?_
    simp

theorem find_upsert : (T.upsert row).find id = if key row = id then some row else T.find id := by
  split
  · rename_i hid
    exact (find_eq_some_iff _).mpr ⟨mem_append_right _ (mem_singleton.mpr rfl), hid⟩
  · rename_i hid
    refine find_congr _ fun y hy => ?_
    have hne : key y ≠ key row := fun heq => hid (heq.symm.trans hy)
    have hrow : y ≠ row := fun heq => hne (heq ▸ rfl)
    simp [upsert, hne, hrow]

omit [DecidableEq κ] in
theorem key_ite (hf : ∀ x, key (f x) = key x) (x : α) :
    key (if p x then f x else x) = key x := by
  split
  · exact hf x
  · rfl

/-- `UPDATE … WHERE`, of columns outside the key. -/
def update (p : α → Bool) (f : α → α) (hf : ∀ x, key (f x) = key x) : Store key where
  rows := T.rows.map fun x => if p x then f x else x
  keyed := by
    intro x hx y hy hxy
    obtain ⟨a, ha, rfl⟩ := List.mem_map.mp hx
    obtain ⟨b, hb, rfl⟩ := List.mem_map.mp hy
    rw [T.keyed a ha b hb (by rw [← key_ite hf a, ← key_ite hf b, hxy])]

theorem find_update :
    (T.update p f hf).find id = (T.find id).map fun x => if p x then f x else x := by
  refine Option.ext fun y => ?_
  rw [find_eq_some_iff, map_eq_some_iff]
  constructor
  · rintro ⟨hy, hid⟩
    obtain ⟨x, hx, rfl⟩ := List.mem_map.mp hy
    exact ⟨x, T.find_eq_some_iff.mpr ⟨hx, (key_ite hf x).symm.trans hid⟩, rfl⟩
  · rintro ⟨x, hx, rfl⟩
    obtain ⟨hmem, hid⟩ := T.find_eq_some_iff.mp hx
    exact ⟨List.mem_map.mpr ⟨x, hmem, rfl⟩, (key_ite hf x).trans hid⟩

theorem find_update_of_not (h : T.find id = some x) (hx : p x = false) :
    (T.update p f hf).find id = some x := by
  rw [find_update, h, map_some, hx]
  rfl

/-- `UPDATE` of the row of a key. -/
def updateRow (target : κ) (f : α → α) (hf : ∀ x, key (f x) = key x) : Store key :=
  T.update (fun x => key x = target) f hf

theorem find_updateRow {target : κ} :
    (T.updateRow target f hf).find id = if target = id then (T.find id).map f else T.find id := by
  rw [updateRow, find_update]
  cases hfind : T.find id with
  | none => simp
  | some y =>
    have hy : key y = id := key_of_find hfind
    by_cases hid : target = id
    · simp [hy, hid]
    · simp [hy, hid, Ne.symm hid]

/-- `DELETE … WHERE`. -/
def delete (p : α → Bool) : Store key where
  rows := T.rows.filter fun x => !p x
  keyed := T.keyed.sublist filter_sublist

theorem find_delete :
    (T.delete p).find id = (T.find id).filter fun x => !p x := by
  refine Option.ext fun y => ?_
  rw [find_eq_some_iff, filter_eq_some_iff, find_eq_some_iff]
  simp only [delete, mem_filter]
  tauto

theorem find_delete_of_not (h : T.find id = some x) (hx : p x = false) :
    (T.delete p).find id = some x := by
  rw [find_delete, h, filter_some, hx]
  rfl

/-- `INSERT`, updating the row of the same key instead when there is one. -/
def insertOr (row : α) (f : α → α) (hf : ∀ x, key (f x) = key x) : Store key :=
  match T.find (key row) with
  | some _ => T.updateRow (key row) f hf
  | none => T.upsert row

theorem find_insertOr :
    (T.insertOr row f hf).find id =
      if key row = id then some (((T.find id).map f).getD row) else T.find id := by
  rw [insertOr]
  split
  · rename_i y hy
    rw [find_updateRow]
    split
    · rename_i hid
      rw [← hid, hy]
      rfl
    · rfl
  · rename_i hnone
    rw [find_upsert]
    split
    · rename_i hid
      rw [← hid, hnone]
      rfl
    · rfl

end Store

end Table
