/-
Rows that get their number when they are inserted, and are seen when their transaction
commits.  Readers keep a position and go on from there.

* `Table.apply` — inserting, committing and rolling back, by any number of
  transactions;
* `CaughtUp` — every row that a reader wants has been dealt with, up to its position,
  and none will turn up below it;
* `CaughtUp.apply` — the transactions do not disturb that;
* `nextRows`, `nextRows_complete` — the rows after a position, a page at a time.
-/
import Mathlib

open Function List

namespace Sequenced

structure Row (ε : Type) where
  seq : ℕ
  event : ε
  deriving DecidableEq

/-- The sequence, the rows of the open transactions and those that are committed. -/
structure Table (ι ε : Type) where
  next : ℕ
  drawn : ι → List (Row ε)
  rows : List (Row ε)

inductive Op (ι ε : Type)
  | insert (i : ι) (event : ε)
  | commit (i : ι)
  | rollback (i : ι)

variable {ι ε : Type}

def Table.empty : Table ι ε := ⟨1, fun _ => [], []⟩

def Table.apply [DecidableEq ι] (t : Table ι ε) : Op ι ε → Table ι ε
  | .insert i event =>
    { t with
      next := t.next + 1
      drawn := update t.drawn i (t.drawn i ++ [⟨t.next, event⟩]) }
  | .commit i => { t with drawn := update t.drawn i [], rows := t.rows ++ t.drawn i }
  | .rollback i => { t with drawn := update t.drawn i [] }

variable {t : Table ι ε} {op : Op ι ε} {r : Row ε} {i : ι}

/-- The row is there, seen or not. -/
def Table.Has (t : Table ι ε) (r : Row ε) : Prop := r ∈ t.rows ∨ ∃ i, r ∈ t.drawn i

/-! ### What an operation changes -/

section Apply

variable [DecidableEq ι]

theorem Table.next_le_apply : t.next ≤ (t.apply op).next := by
  cases op with
  | insert => exact Nat.le_succ _
  | commit | rollback => exact le_rfl

theorem Table.mem_rows_apply_of_mem (h : r ∈ t.rows) : r ∈ (t.apply op).rows := by
  cases op with
  | insert | rollback => exact h
  | commit => exact mem_append_left _ h

theorem Table.mem_rows_apply (h : r ∈ (t.apply op).rows) :
    r ∈ t.rows ∨ ∃ i, op = .commit i ∧ r ∈ t.drawn i := by
  cases op with
  | insert | rollback => exact .inl h
  | commit i =>
    rcases mem_append.mp h with h | h
    · exact .inl h
    · exact .inr ⟨i, rfl, h⟩

theorem Table.mem_drawn_apply (h : r ∈ (t.apply op).drawn i) :
    r ∈ t.drawn i ∨ ∃ event, op = .insert i event ∧ r = ⟨t.next, event⟩ := by
  cases op with
  | insert j event =>
    by_cases hij : i = j
    · subst hij
      simp only [Table.apply, update_self] at h
      rcases mem_append.mp h with h | h
      · exact .inl h
      · exact .inr ⟨event, rfl, mem_singleton.mp h⟩
    · simp only [Table.apply, update_of_ne hij] at h
      exact .inl h
  | commit j | rollback j =>
    by_cases hij : i = j
    · subst hij
      simp only [Table.apply, update_self] at h
      simp at h
    · simp only [Table.apply, update_of_ne hij] at h
      exact .inl h

theorem Table.has_of_apply (h : (t.apply op).Has r) :
    t.Has r ∨ ∃ i event, op = .insert i event ∧ r = ⟨t.next, event⟩ := by
  rcases h with h | ⟨i, h⟩
  · rcases Table.mem_rows_apply h with h | ⟨i, -, h⟩
    · exact .inl (.inl h)
    · exact .inl (.inr ⟨i, h⟩)
  · rcases Table.mem_drawn_apply h with h | ⟨event, hop, hr⟩
    · exact .inl (.inr ⟨i, h⟩)
    · exact .inr ⟨i, event, hop, hr⟩

end Apply

/-- Numbers come from the sequence. -/
structure Table.Below (t : Table ι ε) : Prop where
  rows : ∀ r ∈ t.rows, r.seq < t.next
  drawn : ∀ i, ∀ r ∈ t.drawn i, r.seq < t.next

theorem Table.Below.lt (h : t.Below) (hr : t.Has r) : r.seq < t.next := by
  rcases hr with hr | ⟨i, hr⟩
  · exact h.rows r hr
  · exact h.drawn i r hr

theorem Table.below_empty : (Table.empty : Table ι ε).Below :=
  ⟨fun _ hr => absurd hr not_mem_nil, fun _ _ hr => absurd hr not_mem_nil⟩

theorem Table.Below.apply [DecidableEq ι] (h : t.Below) (op : Op ι ε) : (t.apply op).Below := by
  have hnext : t.next ≤ (t.apply op).next := Table.next_le_apply
  have hlt : ∀ r, (t.apply op).Has r → r.seq < (t.apply op).next := by
    intro r hr
    rcases Table.has_of_apply hr with hold | ⟨i, event, rfl, rfl⟩
    · exact (h.lt hold).trans_le hnext
    · exact Nat.lt_succ_self _
  exact ⟨fun r hr => hlt r (.inl hr), fun i r hr => hlt r (.inr ⟨i, hr⟩)⟩

/-! ### Positions -/

/-- `seq` is not after the position. -/
def UpTo (n : Option ℕ) (seq : ℕ) : Prop := ∃ m ∈ n, seq ≤ m

instance (n : Option ℕ) (seq : ℕ) : Decidable (UpTo n seq) :=
  match n with
  | none => isFalse fun ⟨_, h, _⟩ => absurd h (by simp)
  | some m => decidable_of_iff (seq ≤ m) ⟨fun h => ⟨m, rfl, h⟩, fun ⟨k, hk, h⟩ => by
      rwa [Option.mem_some_iff.mp hk]⟩

theorem not_upTo_none (seq : ℕ) : ¬UpTo none seq := fun ⟨_, h, _⟩ => absurd h (by simp)

theorem upTo_some {m seq : ℕ} : UpTo (some m) seq ↔ seq ≤ m :=
  ⟨fun ⟨k, hk, h⟩ => by rwa [Option.mem_some_iff.mp hk], fun h => ⟨m, rfl, h⟩⟩

variable {w : ε → Prop} {P Q : ℕ → Prop} {n : Option ℕ}

/-- **A reader at the position `n`**: the wanted rows up to there have `P`, and none of the
open ones is among them. -/
structure CaughtUp (w : ε → Prop) (t : Table ι ε) (P : ℕ → Prop) (n : Option ℕ) : Prop where
  reached : ∀ r ∈ t.rows, w r.event → UpTo n r.seq → P r.seq
  ahead : ∀ i, ∀ r ∈ t.drawn i, w r.event → ¬UpTo n r.seq
  below : ∀ m ∈ n, m < t.next

theorem caughtUp_none (w : ε → Prop) (t : Table ι ε) (P : ℕ → Prop) : CaughtUp w t P none where
  reached r _ _ h := absurd h (not_upTo_none _)
  ahead _ r _ _ := not_upTo_none _
  below m hm := absurd hm (by simp)

theorem CaughtUp.mono (h : CaughtUp w t P n) (hPQ : ∀ s, P s → Q s) : CaughtUp w t Q n where
  reached r hr hw hn := hPQ _ (h.reached r hr hw hn)
  ahead := h.ahead
  below := h.below

theorem CaughtUp.apply [DecidableEq ι] (h : CaughtUp w t P n) (op : Op ι ε) :
    CaughtUp w (t.apply op) P n where
  reached := by
    intro r hr hw hn
    rcases Table.mem_rows_apply hr with hr | ⟨i, -, hr⟩
    · exact h.reached r hr hw hn
    · exact absurd hn (h.ahead i r hr hw)
  ahead := by
    intro i r hr hw
    rcases Table.mem_drawn_apply hr with hr | ⟨event, -, rfl⟩
    · exact h.ahead i r hr hw
    · rintro ⟨m, hm, hle⟩
      exact absurd hle (not_le.mpr (h.below m hm))
  below := fun m hm => (h.below m hm).trans_le Table.next_le_apply

/-- The next row that a reader at `n` wants, now and later. -/
structure Least (w : ε → Prop) (t : Table ι ε) (n : Option ℕ) (s : ℕ) : Prop where
  mem : ∃ r ∈ t.rows, w r.event ∧ r.seq = s
  after : ¬UpTo n s
  below : s < t.next
  rows : ∀ r ∈ t.rows, w r.event → ¬UpTo n r.seq → s ≤ r.seq
  drawn : ∀ i, ∀ r ∈ t.drawn i, w r.event → s ≤ r.seq

theorem Least.unique {s s' : ℕ} (h : Least w t n s) (h' : Least w t n s') : s = s' := by
  obtain ⟨r, hr, hw, rfl⟩ := h.mem
  obtain ⟨r', hr', hw', rfl⟩ := h'.mem
  exact le_antisymm (h.rows r' hr' hw' h'.after) (h'.rows r hr hw h.after)

theorem Least.apply [DecidableEq ι] {s : ℕ} (h : Least w t n s) (op : Op ι ε) :
    Least w (t.apply op) n s where
  mem := by
    obtain ⟨r, hr, hw, hs⟩ := h.mem
    exact ⟨r, Table.mem_rows_apply_of_mem hr, hw, hs⟩
  after := h.after
  below := h.below.trans_le Table.next_le_apply
  rows := by
    intro r hr hw hn
    rcases Table.mem_rows_apply hr with hr | ⟨i, -, hr⟩
    · exact h.rows r hr hw hn
    · exact h.drawn i r hr hw
  drawn := by
    intro i r hr hw
    rcases Table.mem_drawn_apply hr with hr | ⟨event, -, rfl⟩
    · exact h.drawn i r hr hw
    · exact h.below.le

/-! ### Pages -/

/-- `ORDER BY seq` of the rows after a position that meet `p`. -/
def hits (p : ε → Bool) (n : Option ℕ) (rows : List (Row ε)) : List (Row ε) :=
  (rows.filter fun r => p r.event && !decide (UpTo n r.seq)).insertionSort (·.seq ≤ ·.seq)

/-- `LIMIT`. -/
def nextRows (p : ε → Bool) (limit : ℕ) (n : Option ℕ) (rows : List (Row ε)) : List (Row ε) :=
  (hits p n rows).take limit

variable {p : ε → Bool} {limit : ℕ} {rows : List (Row ε)}

theorem mem_hits : r ∈ hits p n rows ↔ r ∈ rows ∧ p r.event = true ∧ ¬UpTo n r.seq := by
  simp [hits, mem_insertionSort]

theorem hits_sorted (p : ε → Bool) (n : Option ℕ) (rows : List (Row ε)) :
    (hits p n rows).Pairwise (·.seq ≤ ·.seq) := by
  have : IsTrans (Row ε) (·.seq ≤ ·.seq) := ⟨fun _ _ _ => le_trans⟩
  have : Std.Total fun a b : Row ε => a.seq ≤ b.seq := ⟨fun a b => le_total a.seq b.seq⟩
  exact pairwise_insertionSort _ _

theorem mem_nextRows (h : r ∈ nextRows p limit n rows) :
    r ∈ rows ∧ p r.event = true ∧ ¬UpTo n r.seq := mem_hits.mp (mem_of_mem_take h)

theorem nextRows_complete (limit : ℕ) (hr : r ∈ rows) (hp : p r.event = true) (hn : ¬UpTo n r.seq) :
    r ∈ nextRows p limit n rows ∨ limit < (hits p n rows).length ∧
      ∀ r' ∈ nextRows p limit n rows, r'.seq ≤ r.seq := by
  have hmem : r ∈ hits p n rows := mem_hits.mpr ⟨hr, hp, hn⟩
  rw [← take_append_drop limit (hits p n rows), mem_append] at hmem
  rcases hmem with hmem | hmem
  · exact .inl hmem
  · -- cut off by the limit
    right
    have hsor := hits_sorted p n rows
    rw [← take_append_drop limit (hits p n rows), pairwise_append] at hsor
    refine ⟨?_, fun r' hr' => hsor.2.2 r' hr' r hmem⟩
    by_contra hle
    rw [drop_eq_nil_of_le (by omega)] at hmem
    simp at hmem

theorem nextRows_sorted (p : ε → Bool) (limit : ℕ) (n : Option ℕ) (rows : List (Row ε)) :
    (nextRows p limit n rows).Pairwise (·.seq ≤ ·.seq) :=
  (hits_sorted p n rows).sublist (take_sublist _ _)

end Sequenced
