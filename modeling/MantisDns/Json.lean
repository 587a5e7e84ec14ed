/-
JSON values and the decoders that `serde` derives.

A decoder is a partial function from values; a struct is decoded field by
field, a sequence or a map all or nothing.  Keys that no field asks for are
ignored.

* `intIn_isSome` — an integer decodes exactly inside the range of its type;
* `vec_isSome`, `map_isSome` — a container decodes when every entry does;
* `map_lookup` — a decoded map answers each key with the decoded entry.
-/
import MantisDns.Text

open List Option

/-- A JSON value; the numbers that occur are integers. -/
inductive Json
  | null
  | bool (b : Bool)
  | int (n : ℤ)
  | str (s : Str)
  | arr (items : List Json)
  | obj (fields : List (Str × Json))

namespace Json

variable {α : Type}
variable {key : Str} {l : List (Str × α)} {n : ℤ}

/-- A nullable value. -/
def ofOption (f : α → Json) : Option α → Json
  | none => .null
  | some a => f a

/-- The first entry of an association list with this key. -/
def find (key : Str) : List (Str × α) → Option α
  | [] => none
  | (k, v) :: rest => if k = key then some v else find key rest

theorem find_eq_some_mem {v : α} (h : find key l = some v) :
    (key, v) ∈ l := by
  induction l with
  | nil => simp [find] at h
  | cons p l ih =>
    rw [find] at h
    split at h
    · rename_i hk
      rw [← hk, ← some_inj.mp h]
      exact mem_cons_self
    · exact mem_cons_of_mem _ (ih h)

theorem find_isSome_iff :
    (find key l).isSome ↔ key ∈ l.map Prod.fst := by
  induction l with
  | nil => simp [find]
  | cons p l ih =>
    rw [find, map_cons, mem_cons]
    split
    · rename_i hk
      simp [hk]
    · rename_i hk
      rw [ih]
      exact ⟨.inr, fun h => h.resolve_left (Ne.symm hk)⟩

/-! ### Scalars -/

def string : Json → Option Str
  | .str s => some s
  | _ => none

def boolean : Json → Option Bool
  | .bool b => some b
  | _ => none

/-- An integer of a type whose values go from `lo` to `hi`. -/
def intIn (lo hi : ℤ) : Json → Option ℤ
  | .int n => if lo ≤ n ∧ n ≤ hi then some n else none
  | _ => none

def u16 (j : Json) : Option UInt16 := (intIn 0 65535 j).map fun n => .ofNat n.toNat

def u32 (j : Json) : Option UInt32 := (intIn 0 4294967295 j).map fun n => .ofNat n.toNat

def u64 (j : Json) : Option UInt64 := (intIn 0 18446744073709551615 j).map fun n => .ofNat n.toNat

def i32 (j : Json) : Option Int32 := (intIn (-2147483648) 2147483647 j).map .ofInt

theorem intIn_isSome {lo hi : ℤ} : (intIn lo hi (.int n)).isSome ↔ lo ≤ n ∧ n ≤ hi := by
  rw [intIn]
  split <;> simp_all

@[simp] theorem u16_isSome : (u16 (.int n)).isSome ↔ 0 ≤ n ∧ n ≤ 65535 := by
  rw [u16, isSome_map, intIn_isSome]

@[simp] theorem u32_isSome : (u32 (.int n)).isSome ↔ 0 ≤ n ∧ n ≤ 4294967295 := by
  rw [u32, isSome_map, intIn_isSome]

@[simp] theorem u64_isSome :
    (u64 (.int n)).isSome ↔ 0 ≤ n ∧ n ≤ 18446744073709551615 := by
  rw [u64, isSome_map, intIn_isSome]

@[simp] theorem i32_isSome :
    (i32 (.int n)).isSome ↔ -2147483648 ≤ n ∧ n ≤ 2147483647 := by
  rw [i32, isSome_map, intIn_isSome]

/-! ### Containers -/

variable {decode : Json → Option α}
variable {β : Type} {items : List Json} {fields : List (Str × Json)}

/-- `Option<T>`: null is `None`. -/
def option (decode : Json → Option α) : Json → Option (Option α)
  | .null => some none
  | j => (decode j).map some

/-- `Vec<T>`. -/
def vec (decode : Json → Option α) : Json → Option (List α)
  | .arr items => items.mapM decode
  | _ => none

/-- `HashMap<String, T>`. -/
def map (decode : Json → Option α) : Json → Option (List (Str × α))
  | .obj fields => fields.mapM fun p => (decode p.2).map (p.1, ·)
  | _ => none

theorem mapM_isSome {f : β → Option α} {l : List β} :
    (l.mapM f).isSome ↔ ∀ x ∈ l, (f x).isSome := by
  induction l with
  | nil => simp
  | cons x l ih =>
    rw [mapM_cons, forall_mem_cons, ← ih]
    cases f x with
    | none => simp
    | some => cases l.mapM f <;> simp

theorem vec_isSome :
    (vec decode (.arr items)).isSome ↔ ∀ j ∈ items, (decode j).isSome := mapM_isSome

theorem mem_vec {l : List α} (h : vec decode (.arr items) = some l) {a : α} :
    a ∈ l ↔ ∃ j ∈ items, decode j = some a := by
  rw [vec] at h
  induction items generalizing l with
  | nil =>
    rw [mapM_nil, Option.pure_def, some_inj] at h
    simp [← h]
  | cons j items ih =>
    simp only [mapM_cons, bind_eq_bind, bind_eq_some_iff, Option.pure_def, some_inj] at h
    obtain ⟨b, hb, rest, hrest, rfl⟩ := h
    simp only [mem_cons, exists_eq_or_imp, hb, some_inj, ih hrest]
    rw [eq_comm]

theorem map_isSome :
    (map decode (.obj fields)).isSome ↔ ∀ p ∈ fields, (decode p.2).isSome := by
  rw [map, mapM_isSome]
  simp only [isSome_map]

theorem option_ofOption_isSome {f : β → Json} (hf : ∀ b, f b ≠ .null) {o : Option β} :
    (option decode (ofOption f o)).isSome ↔ ∀ b ∈ o, (decode (f b)).isSome := by
  cases o with
  | none => simp [ofOption, option]
  | some b =>
    rw [ofOption, option]
    · simp
    · exact hf b

@[simp] theorem option_string (o : Option Str) : option string (ofOption .str o) = some o := by
  cases o <;> rfl

@[simp] theorem option_boolean (o : Option Bool) : option boolean (ofOption .bool o) = some o := by
  cases o <;> rfl

@[simp] theorem vec_string (l : List Str) : vec string (.arr (l.map .str)) = some l := by
  induction l with
  | nil => rfl
  | cons s l ih =>
    rw [vec] at ih ⊢
    rw [map_cons, mapM_cons, ih]
    rfl

theorem map_lookup {m : List (Str × α)} (h : map decode (.obj fields) = some m) (key : Str) :
    find key m = (find key fields).bind decode := by
  rw [map] at h
  induction fields generalizing m with
  | nil =>
    rw [mapM_nil] at h
    cases h
    rfl
  | cons p fields ih =>
    simp only [mapM_cons, bind_eq_bind, bind_eq_some_iff, map_eq_some_iff,
      Option.pure_def, some_inj] at h
    obtain ⟨q, ⟨v, hv, rfl⟩, rest, hrest, rfl⟩ := h
    rw [find, find]
    split
    · exact hv.symm
    · exact ih hrest

/-! ### Structs -/

/-- A field of an object. -/
def get (key : Str) : Json → Option Json
  | .obj fields => find key fields
  | _ => none

/-- A field that must be there. -/
def field (decode : Json → Option α) (key : Str) (j : Json) : Option α := (j.get key).bind decode

/-- A field with a default for when it is missing; `Option<T>` defaults to
`None`. -/
def fieldOr (default : α) (decode : Json → Option α) (key : Str) (j : Json) : Option α :=
  match j.get key with
  | none => some default
  | some v => decode v

end Json
