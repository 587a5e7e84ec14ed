/-
Messages that are posted, and posted again when a post fails.

Agents post messages to a receiver, one at a time.  A post that fails is kept in a
queue, from which any agent may load messages and post them again; a row of the
queue goes when its message was delivered, or after too many attempts.  The receiver
reads its state, decides what to do and commits it, also for a request that its
sender no longer waits for.

* `Step` — agents, requests and the queue, in any interleaving;
* `Coherent` — a row of the queue and the copies of it carry one message;
* `Mirror` — a receiver whose state shows a table that each message changes at one
  place;
* `Orderly` — a message is posted when no other message of its place is under way;
* `Mirror.settled` — then, when nothing is under way, the table is what the messages
  make of it, in the order in which they were first posted.
-/
import Mathlib.Logic.Relation
import Mathlib.Logic.Function.Basic
import Mathlib.Data.List.Basic

open Function List

namespace Courier

/-! ### Agents, requests and the queue -/

/-- A message that an agent is to post: a new one, or one that was loaded from a row of
the queue. -/
structure Copy (μ : Type) where
  row : Option ℕ
  attempts : ℕ
  msg : μ

structure Row (μ : Type) where
  id : ℕ
  attempts : ℕ
  msg : μ

def Row.copy {μ : Type} (r : Row μ) : Copy μ := ⟨some r.id, r.attempts, r.msg⟩

/-- How far a post is: the request is made, it failed, or it succeeded and its row is
still there. -/
inductive Stage
  | sent (request : ℕ)
  | failed
  | acked

structure Agent (μ : Type) where
  current : Option (Stage × Copy μ) := none
  todo : List (Copy μ) := []

def Agent.copies {μ : Type} (a : Agent μ) : List (Copy μ) :=
  (a.current.map Prod.snd).toList ++ a.todo

/-- How far the receiver is with a request. -/
inductive Progress (ε : Type)
  | unread
  | decided (e : ε)
  | handled
  | aborted

/-- The state of the receiver, the agents, all requests so far, the queue, and the
messages in the order in which they were emitted, the last one first. -/
structure State (ι δ μ ε : Type) where
  db : δ
  agent : ι → Agent μ := fun _ => {}
  request : ℕ → Option (μ × Progress ε) := fun _ => none
  queue : List (Row μ) := []
  nextRow : ℕ := 0
  history : List μ := []

/-- What the receiver may decide for a message, and what becomes of its state then. -/
structure Receiver (δ μ ε : Type) where
  Decides : δ → μ → ε → Prop
  Commits : δ → μ → ε → δ → Prop

inductive Label (ι μ : Type)
  | emit (i : ι) (m : μ)
  | drain (i : ι)
  | send (i : ι)
  | read (request : ℕ)
  | commit
  | abort
  | respond
  | fail
  | enqueue
  | lose (i : ι)
  | reschedule (i : ι)
  | keep
  | dequeue

section

variable {ι δ μ ε : Type} [DecidableEq ι]
variable {s : State ι δ μ ε} {c : Copy μ} {todo : List (Copy μ)}

def State.set (s : State ι δ μ ε) (i : ι) (a : Agent μ) : State ι δ μ ε :=
  { s with agent := update s.agent i a }

def State.setRequest (s : State ι δ μ ε) (k : ℕ) (m : μ) (p : Progress ε) : State ι δ μ ε :=
  { s with request := update s.request k (some (m, p)) }

/-- The queue after a failed attempt: the row waits for the next one, or it is given up. -/
def rescheduled (limit id attempts : ℕ) (queue : List (Row μ)) : List (Row μ) :=
  if limit ≤ attempts + 1 then queue.filter (·.id ≠ id)
  else queue.map fun r => if r.id = id then { r with attempts := attempts + 1 } else r

/-- One step of an agent, of the receiver or of both.  A failed post says nothing about
its request, which the receiver may have handled or may still handle. -/
inductive Step (R : Receiver δ μ ε) (limit : ℕ) (s : State ι δ μ ε) :
    Label ι μ → State ι δ μ ε → Prop
  | emit {i : ι} {m : μ} (h : (s.agent i).current = none) :
    Step R limit s (.emit i m) { s.set i ⟨none, (s.agent i).todo ++ [⟨none, 0, m⟩]⟩ with
      history := m :: s.history }
  | drain {i : ι} {rows : List (Row μ)} (h : s.agent i = {}) (hrows : rows ⊆ s.queue) :
    Step R limit s (.drain i) (s.set i ⟨none, rows.map Row.copy⟩)
  | send {i : ι} {c : Copy μ} {todo : List (Copy μ)} {k : ℕ} (h : s.agent i = ⟨none, c :: todo⟩)
      (hk : s.request k = none) :
    Step R limit s (.send i) ((s.set i ⟨some (.sent k, c), todo⟩).setRequest k c.msg .unread)
  | read {k : ℕ} {m : μ} {e : ε} (h : s.request k = some (m, .unread)) (he : R.Decides s.db m e) :
    Step R limit s (.read k) (s.setRequest k m (.decided e))
  | commit {k : ℕ} {m : μ} {e : ε} {d : δ} (h : s.request k = some (m, .decided e))
      (hd : R.Commits s.db m e d) :
    Step R limit s .commit { s.setRequest k m .handled with db := d }
  | abort {k : ℕ} {m : μ} {p : Progress ε} (h : s.request k = some (m, p)) (hp : p ≠ .handled) :
    Step R limit s .abort (s.setRequest k m .aborted)
  | respond {i : ι} {k : ℕ} {c : Copy μ} {todo : List (Copy μ)}
      (h : s.agent i = ⟨some (.sent k, c), todo⟩) (hk : s.request k = some (c.msg, .handled)) :
    Step R limit s .respond (s.set i ⟨if c.row = none then none else some (.acked, c), todo⟩)
  | fail {i : ι} {k : ℕ} {c : Copy μ} {todo : List (Copy μ)}
      (h : s.agent i = ⟨some (.sent k, c), todo⟩) :
    Step R limit s .fail (s.set i ⟨some (.failed, c), todo⟩)
  | enqueue {i : ι} {c : Copy μ} {todo : List (Copy μ)} (h : s.agent i = ⟨some (.failed, c), todo⟩)
      (hrow : c.row = none) :
    Step R limit s .enqueue { s.set i ⟨none, todo⟩ with
      queue := s.queue ++ [⟨s.nextRow, 0, c.msg⟩]
      nextRow := s.nextRow + 1 }
  -- the queue is not to be reached
  | lose {i : ι} {c : Copy μ} {todo : List (Copy μ)} (h : s.agent i = ⟨some (.failed, c), todo⟩)
      (hrow : c.row = none) :
    Step R limit s (.lose i) (s.set i ⟨none, todo⟩)
  | reschedule {i : ι} {c : Copy μ} {todo : List (Copy μ)} {id : ℕ}
      (h : s.agent i = ⟨some (.failed, c), todo⟩) (hrow : c.row = some id) :
    Step R limit s (.reschedule i) { s.set i ⟨none, todo⟩ with
      queue := rescheduled limit id c.attempts s.queue }
  | keep {i : ι} {stage : Stage} {c : Copy μ} {todo : List (Copy μ)} {id : ℕ}
      (h : s.agent i = ⟨some (stage, c), todo⟩) (hstage : stage = .failed ∨ stage = .acked)
      (hrow : c.row = some id) :
    Step R limit s .keep (s.set i ⟨none, todo⟩)
  | dequeue {i : ι} {c : Copy μ} {todo : List (Copy μ)} {id : ℕ}
      (h : s.agent i = ⟨some (.acked, c), todo⟩) (hrow : c.row = some id) :
    Step R limit s .dequeue { s.set i ⟨none, todo⟩ with queue := s.queue.filter (·.id ≠ id) }

/-- Steps that meet a condition. -/
def RunWhile (R : Receiver δ μ ε) (limit : ℕ) (C : State ι δ μ ε → Label ι μ → Prop) :
    State ι δ μ ε → State ι δ μ ε → Prop :=
  Relation.ReflTransGen fun s t => ∃ l, C s l ∧ Step R limit s l t

theorem RunWhile.tail {R : Receiver δ μ ε} {limit : ℕ} {C : State ι δ μ ε → Label ι μ → Prop}
    {s₀ t : State ι δ μ ε} {l : Label ι μ} (h : RunWhile R limit C s₀ s)
    (hstep : Step R limit s l t) (hC : C s l) : RunWhile R limit C s₀ t :=
  Relation.ReflTransGen.tail h ⟨l, hC, hstep⟩

omit [DecidableEq ι] in
/-- No message is under way. -/
structure State.Quiet (s : State ι δ μ ε) : Prop where
  agents : ∀ i, s.agent i = {}
  requests : ∀ k m p, s.request k = some (m, p) → p = .handled ∨ p = .aborted
  queue : s.queue = []

/-! ### What is under way -/

omit [DecidableEq ι]

def State.Copies (s : State ι δ μ ε) (c : Copy μ) : Prop := ∃ i, c ∈ (s.agent i).copies

/-- A request that the receiver may still commit. -/
def State.Opens (s : State ι δ μ ε) (m : μ) : Prop :=
  ∃ k p, s.request k = some (m, p) ∧ p ≠ .handled ∧ p ≠ .aborted

/-- A message that may still reach the receiver. -/
def State.Outstanding (s : State ι δ μ ε) (m : μ) : Prop :=
  (∃ c, s.Copies c ∧ c.msg = m) ∨ (∃ r ∈ s.queue, r.msg = m) ∨ s.Opens m

/-- A message that will be posted until it is delivered. -/
def State.Owed (s : State ι δ μ ε) (m : μ) : Prop :=
  (∃ c, s.Copies c ∧ c.row = none ∧ c.msg = m) ∨ ∃ r ∈ s.queue, r.msg = m

theorem State.Owed.outstanding {m : μ} (h : s.Owed m) : s.Outstanding m := by
  rcases h with ⟨c, hc, -, hm⟩ | hrow
  · exact .inl ⟨c, hc, hm⟩
  · exact .inr (.inl hrow)

/-- The message of a row, in the queue or in a copy. -/
def State.Knows (s : State ι δ μ ε) (id : ℕ) (m : μ) : Prop :=
  (∃ c, s.Copies c ∧ c.row = some id ∧ c.msg = m) ∨ ∃ r ∈ s.queue, r.id = id ∧ r.msg = m

/-- The receiver has committed the message that this agent is about. -/
def State.Confirmed (s : State ι δ μ ε) (c : Copy μ) : Prop :=
  ∃ i, (∃ todo, s.agent i = ⟨some (.acked, c), todo⟩) ∨
    ∃ k todo, s.agent i = ⟨some (.sent k, c), todo⟩ ∧ s.request k = some (c.msg, .handled)

@[simp] theorem Agent.mem_copies_none :
    c ∈ (⟨none, todo⟩ : Agent μ).copies ↔ c ∈ todo := by
  simp [Agent.copies]

@[simp] theorem Agent.mem_copies_some {stage : Stage} {c' : Copy μ} :
    c ∈ (⟨some (stage, c'), todo⟩ : Agent μ).copies ↔ c = c' ∨ c ∈ todo := by
  simp [Agent.copies]

theorem State.Confirmed.copies (h : s.Confirmed c) : s.Copies c := by
  obtain ⟨i, ⟨todo, hi⟩ | ⟨k, todo, hi, -⟩⟩ := h
  all_goals exact ⟨i, by simp [hi]⟩

theorem State.quiet_init (d : δ) : ({ db := d } : State ι δ μ ε).Quiet :=
  ⟨fun _ => rfl, fun _ _ _ hk => absurd hk (by simp), rfl⟩

theorem State.Quiet.not_outstanding (h : s.Quiet) (m : μ) : ¬s.Outstanding m := by
  rintro (⟨c, ⟨i, hc⟩, -⟩ | ⟨r, hr, -⟩ | ⟨k, p, hk, hhan, habo⟩)
  · simp [h.agents i] at hc
  · simp [h.queue] at hr
  · exact (h.requests k m p hk).elim hhan habo

/-- An agent waits for a request of its message. -/
def State.Linked (s : State ι δ μ ε) : Prop :=
  ∀ i k c todo, s.agent i = ⟨some (.sent k, c), todo⟩ → ∃ p, s.request k = some (c.msg, p)

/-- Rows keep their messages. -/
structure Coherent (s : State ι δ μ ε) : Prop where
  linked : s.Linked
  knows : ∀ id m m', s.Knows id m → s.Knows id m' → m = m'
  bound : ∀ id m, s.Knows id m → id < s.nextRow

/-! ### What one agent changes -/

variable {s : State ι δ μ ε}
variable {k : ℕ} {m : μ} {p p' : Progress ε} {t : State ι δ μ ε}

theorem State.request_setRequest {k' : ℕ} :
    (s.setRequest k m p).request k' = if k' = k then some (m, p) else s.request k' :=
  update_apply ..

theorem State.request_of_setRequest {k' : ℕ} {m' : μ} {q : Progress ε}
    (h : (s.setRequest k m p).request k' = some (m', q)) :
    (k' = k ∧ m' = m ∧ q = p) ∨ k' ≠ k ∧ s.request k' = some (m', q) := by
  rw [State.request_setRequest] at h
  split at h
  · rename_i heq
    cases h
    exact .inl ⟨heq, rfl, rfl⟩
  · rename_i hne
    exact .inr ⟨hne, h⟩

theorem State.Linked.setRequest (h : s.Linked) (hk : s.request k = some (m, p)) :
    (s.setRequest k m p').Linked := by
  intro i k' c todo hi
  obtain ⟨p₀, hp₀⟩ := h i k' c todo hi
  rw [State.request_setRequest]
  split
  · rename_i heq
    rw [heq, hk, Option.some_inj, Prod.mk.injEq] at hp₀
    exact ⟨p', by rw [hp₀.1]⟩
  · exact ⟨p₀, hp₀⟩

theorem State.opens_of_setRequest {m' : μ} (hk : s.request k = some (m, p))
    (hp : p ≠ .handled ∧ p ≠ .aborted) (h : (s.setRequest k m p').Opens m') : s.Opens m' := by
  obtain ⟨k', q, hq, hopen⟩ := h
  rcases State.request_of_setRequest hq with ⟨-, rfl, -⟩ | ⟨-, hq⟩
  · exact ⟨k, p, hk, hp⟩
  · exact ⟨k', q, hq, hopen⟩

theorem Coherent.of_knows (h : Coherent s) (hlin : t.Linked)
    (hkn : ∀ id m, t.Knows id m → s.Knows id m) (hnext : t.nextRow = s.nextRow) :
    Coherent t where
  linked := hlin
  knows id m m' hm hm' := h.knows id m m' (hkn id m hm) (hkn id m' hm')
  bound id m hm := hnext ▸ h.bound id m (hkn id m hm)

theorem Coherent.enqueue (h : Coherent s) (hlin : t.Linked)
    (hkn : ∀ id m', t.Knows id m' → s.Knows id m' ∨ id = s.nextRow ∧ m' = m)
    (hnext : t.nextRow = s.nextRow + 1) : Coherent t where
  linked := hlin
  knows id m₁ m₂ h₁ h₂ := by
    rcases hkn id m₁ h₁ with h₁ | ⟨hid₁, rfl⟩ <;> rcases hkn id m₂ h₂ with h₂ | ⟨hid₂, rfl⟩
    · exact h.knows id m₁ m₂ h₁ h₂
    · exact absurd (h.bound id m₁ h₁) (by omega)
    · exact absurd (h.bound id m₂ h₂) (by omega)
    · rfl
  bound id m' hm' := by
    rcases hkn id m' hm' with hm' | ⟨rfl, -⟩
    · have hlt := h.bound id m' hm'
      omega
    · omega

variable [DecidableEq ι] {i : ι} {a : Agent μ}
variable {c : Copy μ} {queue : List (Row μ)} {id limit attempts : ℕ} {r : Row μ}

theorem State.agent_set (j : ι) : (s.set i a).agent j = if j = i then a else s.agent j :=
  update_apply ..

theorem State.copies_set_iff :
    (s.set i a).Copies c ↔ c ∈ a.copies ∨ ∃ j, j ≠ i ∧ c ∈ (s.agent j).copies := by
  constructor
  · rintro ⟨j, hj⟩
    rw [State.agent_set] at hj
    split at hj
    · exact .inl hj
    · rename_i hne
      exact .inr ⟨j, hne, hj⟩
  · rintro (hc | ⟨j, hne, hj⟩)
    · exact ⟨i, by rwa [State.agent_set, if_pos rfl]⟩
    · exact ⟨j, by rwa [State.agent_set, if_neg hne]⟩

theorem State.copies_of_set (h : (s.set i a).Copies c) :
    s.Copies c ∨ c ∈ a.copies := by
  rcases State.copies_set_iff.mp h with hc | ⟨j, -, hj⟩
  · exact .inr hc
  · exact .inl ⟨j, hj⟩

theorem State.copies_of_set_of_subset (ha : a.copies ⊆ (s.agent i).copies)
    (h : (s.set i a).Copies c) : s.Copies c :=
  (State.copies_of_set h).elim id fun hc => ⟨i, ha hc⟩

theorem State.Copies.set (h : s.Copies c) :
    (s.set i a).Copies c ∨ c ∈ (s.agent i).copies ∧ c ∉ a.copies := by
  obtain ⟨j, hj⟩ := h
  by_cases hne : j = i
  · subst hne
    by_cases hc : c ∈ a.copies
    · exact .inl (State.copies_set_iff.mpr (.inl hc))
    · exact .inr ⟨hj, hc⟩
  · exact .inl (State.copies_set_iff.mpr (.inr ⟨j, hne, hj⟩))

theorem State.Copies.drop {stage : Stage} {c' : Copy μ} (h : s.Copies c')
    (hi : s.agent i = ⟨some (stage, c), todo⟩) (ha : todo ⊆ a.copies) :
    (s.set i a).Copies c' ∨ c' = c := by
  refine h.set.imp_right ?_
  rintro ⟨hmem, hnot⟩
  rw [hi, Agent.mem_copies_some] at hmem
  exact hmem.resolve_right fun htodo => hnot (ha htodo)

theorem State.confirmed_of_set (h : (s.set i a).Confirmed c) :
    s.Confirmed c ∨ (∃ todo, a = ⟨some (.acked, c), todo⟩) ∨
      ∃ k todo, a = ⟨some (.sent k, c), todo⟩ ∧ s.request k = some (c.msg, .handled) := by
  obtain ⟨j, hj⟩ := h
  by_cases hne : j = i
  · subst hne
    simp only [State.agent_set, if_pos] at hj
    exact .inr hj
  · simp only [State.agent_set, if_neg hne] at hj
    exact .inl ⟨j, hj⟩

theorem State.confirmed_of_set_of_failed
    (ha : ∀ stage c, a.current = some (stage, c) → stage = .failed) (h : (s.set i a).Confirmed c) :
    s.Confirmed c := by
  rcases State.confirmed_of_set h with hc | ⟨todo, rfl⟩ | ⟨k, todo, rfl, -⟩
  · exact hc
  · exact nomatch ha _ _ rfl
  · exact nomatch ha _ _ rfl

theorem State.Linked.set (h : s.Linked)
    (ha : ∀ k c todo, a ≠ ⟨some (.sent k, c), todo⟩) : (s.set i a).Linked := by
  intro j k c todo hj
  rw [State.agent_set] at hj
  split at hj
  · exact absurd hj (ha k c todo)
  · exact h j k c todo hj

theorem State.knows_of_set (ha : a.copies ⊆ (s.agent i).copies)
    (hque : ∀ r ∈ queue, ∃ r' ∈ s.queue, r'.id = r.id ∧ r'.msg = r.msg)
    (h : State.Knows { s.set i a with queue := queue } id m) : s.Knows id m := by
  rcases h with ⟨c, hc, hm⟩ | ⟨r, hr, rfl, rfl⟩
  · exact .inl ⟨c, State.copies_of_set_of_subset ha hc, hm⟩
  · exact .inr (hque r hr)

theorem mem_rescheduled (h : r ∈ rescheduled limit id attempts queue) :
    ∃ r' ∈ queue, r'.id = r.id ∧ r'.msg = r.msg := by
  rw [rescheduled] at h
  split at h
  · exact ⟨r, mem_of_mem_filter h, rfl, rfl⟩
  · obtain ⟨r', hr', heq⟩ := List.mem_map.mp h
    refine ⟨r', hr', ?_⟩
    rw [← heq]
    split <;> exact ⟨rfl, rfl⟩

theorem exists_mem_rescheduled (hr : r ∈ queue) (h : attempts + 1 < limit ∨ r.id ≠ id) :
    ∃ r' ∈ rescheduled limit id attempts queue, r'.msg = r.msg := by
  rw [rescheduled]
  split
  · rename_i hlim
    have hne : r.id ≠ id := h.resolve_left (by omega)
    exact ⟨r, mem_filter.mpr ⟨hr, by simpa using hne⟩, rfl⟩
  · refine ⟨_, List.mem_map.mpr ⟨r, hr, rfl⟩, ?_⟩
    split <;> rfl

/-! ### Rows keep their messages -/

variable {R : Receiver δ μ ε} {limit : ℕ} {l : Label ι μ} {t : State ι δ μ ε}

theorem Coherent.set (h : Coherent s) (ha : ∀ k c todo, a ≠ ⟨some (.sent k, c), todo⟩)
    (hsub : a.copies ⊆ (s.agent i).copies)
    (hque : ∀ r ∈ queue, ∃ r' ∈ s.queue, r'.id = r.id ∧ r'.msg = r.msg) :
    Coherent { s.set i a with queue := queue } :=
  h.of_knows (h.linked.set ha) (fun _ _ => State.knows_of_set hsub hque) rfl

theorem Coherent.step (h : Coherent s) (hstep : Step R limit s l t) : Coherent t := by
  have hsame : ∀ r ∈ s.queue, ∃ r' ∈ s.queue, r'.id = r.id ∧ r'.msg = r.msg :=
    fun r hr => ⟨r, hr, rfl, rfl⟩
  -- copies come from a new message or from the queue, and all others were there before
  cases hstep with
  | @emit i m hi =>
    refine h.of_knows (h.linked.set (by simp)) (fun id m' hm' => ?_) rfl
    rcases hm' with ⟨c, hc, hrow, hm'⟩ | hrow
    · rcases State.copies_of_set hc with hc | hc
      · exact .inl ⟨c, hc, hrow, hm'⟩
      · rw [Agent.mem_copies_none, mem_append, mem_singleton] at hc
        rcases hc with hc | rfl
        · exact .inl ⟨c, ⟨i, mem_append_right _ hc⟩, hrow, hm'⟩
        · exact nomatch hrow
    · exact .inr hrow
  | @drain i rows hi hrows =>
    refine h.of_knows (h.linked.set (by simp)) (fun id m' hm' => ?_) rfl
    rcases hm' with ⟨c, hc, hrow, hm'⟩ | hrow
    · rcases State.copies_of_set hc with hc | hc
      · exact .inl ⟨c, hc, hrow, hm'⟩
      · obtain ⟨r, hr, rfl⟩ := List.mem_map.mp (Agent.mem_copies_none.mp hc)
        exact .inr ⟨r, hrows hr, Option.some_inj.mp hrow, hm'⟩
    · exact .inr hrow
  | @send i c todo k hi hk =>
    have hsub : (⟨some (.sent k, c), todo⟩ : Agent μ).copies ⊆ (s.agent i).copies := by
      intro c' hc'
      simpa [hi] using hc'
    refine h.of_knows ?_ (fun id m' => State.knows_of_set hsub hsame) rfl
    intro j k' c' todo' hj
    rw [State.request_setRequest]
    have hj : (s.set i ⟨some (.sent k, c), todo⟩).agent j = ⟨some (.sent k', c'), todo'⟩ := hj
    rw [State.agent_set] at hj
    split at hj
    · cases hj
      exact ⟨.unread, if_pos rfl⟩
    · obtain ⟨p, hp⟩ := h.linked j k' c' todo' hj
      have hne : k' ≠ k := by
        rintro rfl
        rw [hk] at hp
        exact nomatch hp
      exact ⟨p, (if_neg hne).trans hp⟩
  | read hk _ | abort hk _ | commit hk _ =>
    exact h.of_knows (h.linked.setRequest hk) (fun _ _ hm => hm) rfl
  | @respond i k c todo hi hk =>
    refine h.set ?_ ?_ hsame
    · intro k' c' todo' heq
      split at heq <;> exact nomatch heq
    · intro c' hc'
      rw [hi]
      split at hc'
      · simp [Agent.mem_copies_none.mp hc']
      · simpa using hc'
  | fail hi | lose hi _ | keep hi _ _ => exact h.set (by simp) (by simp [hi, Agent.copies]) hsame
  | @enqueue i c todo hi hrow =>
    refine h.enqueue (h.linked.set (by simp)) (m := c.msg) (fun id m' hm' => ?_) rfl
    rcases hm' with ⟨c', hc', hm'⟩ | ⟨r, hr, rfl, rfl⟩
    · exact .inl (.inl ⟨c', State.copies_of_set_of_subset (by simp [hi, Agent.copies]) hc', hm'⟩)
    · rcases mem_append.mp hr with hr | hr
      · exact .inl (.inr ⟨r, hr, rfl, rfl⟩)
      · rw [mem_singleton.mp hr]
        exact .inr ⟨rfl, rfl⟩
  | reschedule hi =>
    exact h.set (by simp) (by simp [hi, Agent.copies]) fun r hr => mem_rescheduled hr
  | dequeue hi =>
    exact h.set (by simp) (by simp [hi, Agent.copies]) fun r hr => hsame r (mem_of_mem_filter hr)

end

/-! ### A table that messages change -/

section

variable {ι δ μ ε P V : Type} [DecidableEq P]

/-- A message changes the table at one place, or not at all. -/
def post (place : μ → Option P) (apply : μ → V → V) (m : μ)
    (t : P → V) : P → V :=
  match place m with
  | none => t
  | some p => update t p (apply m (t p))

/-- A receiver whose state shows a table.  A decision is good for as long as nothing is
committed at its place. -/
structure Mirror (R : Receiver δ μ ε) (P V : Type) [DecidableEq P] where
  place : μ → Option P
  apply : μ → V → V
  Good : μ → Prop
  Repr : (P → V) → δ → Prop
  Ready : δ → μ → ε → Prop
  apply_idem : ∀ m v, apply m (apply m v) = apply m v
  ready : ∀ {t : P → V} {d : δ} {m : μ} {e : ε}, Repr t d → Good m → R.Decides d m e → Ready d m e
  commit : ∀ {t : P → V} {d d' : δ} {m : μ} {e : ε}, Repr t d → Good m → Ready d m e →
    R.Commits d m e d' → Repr (post place apply m t) d'
  other : ∀ {t : P → V} {d d' : δ} {m m' : μ} {e e' : ε}, Repr t d → Good m → Ready d m e →
    R.Commits d m e d' → Good m' → Ready d m' e' → (∀ p, place m = some p → place m' ≠ some p) →
    Ready d' m' e'

omit [DecidableEq P] in
/-- The messages so far, each of them admitted after those before it. -/
def Grows (A : List μ → μ → Prop) : List μ → Prop
  | [] => True
  | m :: l => A l m ∧ Grows A l

namespace Mirror

variable {R : Receiver δ μ ε} {limit : ℕ} {s t : State ι δ μ ε}

/-- What the messages make of a table, the last one first. -/
def view (M : Mirror R P V) (t₀ : P → V) (history : List μ) : P → V :=
  history.foldr (post M.place M.apply) t₀

def Apart (M : Mirror R P V) (m m' : μ) : Prop := ∀ p, M.place m = some p → M.place m' ≠ some p

/-- A message is posted only while no other message of its place is under way, the
receiver handles one message of a place at a time, and no message is lost or given up. -/
def Orderly (M : Mirror R P V) (limit : ℕ) (A : List μ → μ → Prop) (s : State ι δ μ ε) :
    Label ι μ → Prop
  | .emit _ m => M.Good m ∧ A s.history m ∧ ∀ m', s.Outstanding m' → M.Apart m m' ∨ m' = m
  | .read k => ∀ m, s.request k = some (m, .unread) → ∀ k' m' e,
      s.request k' = some (m', .decided e) → M.Apart m m'
  | .lose i => ∀ stage c, (s.agent i).current = some (stage, c) → M.place c.msg = none
  | .reschedule i => ∀ stage c, (s.agent i).current = some (stage, c) →
      c.attempts + 1 < limit ∨ M.place c.msg = none
  | _ => True

variable {M : Mirror R P V} {t₀ tab : P → V}
variable {m : μ} {p : P} {k : ℕ} {e : ε}

theorem post_of_place (hp : M.place m = some p) :
    post M.place M.apply m tab p = M.apply m (tab p) := by
  simp [post, hp]

theorem post_of_ne (hp : M.place m ≠ some p) :
    post M.place M.apply m tab p = tab p := by
  unfold post
  cases hm : M.place m with
  | none => rfl
  | some =>
    refine update_of_ne (fun heq => hp ?_) ..
    rw [hm, heq]

/-- The table is what the messages make of it, up to those that will still be posted. -/
structure Ordered (M : Mirror R P V) (t₀ tab : P → V) (s : State ι δ μ ε) : Prop where
  repr : M.Repr tab s.db
  good : ∀ m, s.Outstanding m → M.Good m
  due : ∀ m, s.Outstanding m → ∀ p, M.place m = some p →
    M.apply m (tab p) = M.view t₀ s.history p ∧
      M.apply m (M.view t₀ s.history p) = M.view t₀ s.history p
  owed : ∀ p, tab p = M.view t₀ s.history p ∨ ∃ m, s.Owed m ∧ M.place m = some p
  confirmed : ∀ c, s.Confirmed c → ∀ p, M.place c.msg = some p → tab p = M.view t₀ s.history p
  ready : ∀ k m e, s.request k = some (m, .decided e) → M.Ready s.db m e
  alone : ∀ k m e k' m' e', s.request k = some (m, .decided e) →
    s.request k' = some (m', .decided e') → k ≠ k' → M.Apart m m'

theorem Ordered.relax (h : M.Ordered t₀ tab s) (hdb : t.db = s.db) (hhis : t.history = s.history)
    (hout : ∀ m, t.Outstanding m → s.Outstanding m)
    (howed : ∀ m, s.Owed m → t.Owed m ∨
      ∀ p, M.place m = some p → tab p = M.view t₀ s.history p)
    (hcon : ∀ c, t.Confirmed c → s.Confirmed c)
    (hreq : ∀ k m e, t.request k = some (m, .decided e) → s.request k = some (m, .decided e)) :
    M.Ordered t₀ tab t where
  repr := hdb ▸ h.repr
  good m hm := h.good m (hout m hm)
  due m hm := hhis ▸ h.due m (hout m hm)
  owed p := by
    rw [hhis]
    rcases h.owed p with hp | ⟨m, hm, hp⟩
    · exact .inl hp
    · -- the message is still owed, or it was settled
      rcases howed m hm with hm | hm
      · exact .inr ⟨m, hm, hp⟩
      · exact .inl (hm p hp)
  confirmed c hc := hhis ▸ h.confirmed c (hcon c hc)
  ready k m e hk := hdb ▸ h.ready k m e (hreq k m e hk)
  alone k m e k' m' e' hk hk' := h.alone k m e k' m' e' (hreq k m e hk) (hreq k' m' e' hk')

theorem Ordered.read (h : M.Ordered t₀ tab s) (hk : s.request k = some (m, .unread))
    (he : R.Decides s.db m e)
    (hC : ∀ k' m' e', s.request k' = some (m', .decided e') → M.Apart m m') :
    M.Ordered t₀ tab (s.setRequest k m (.decided e)) := by
  have hope : ∀ m', (s.setRequest k m (.decided e)).Opens m' → s.Opens m' :=
    fun _ => State.opens_of_setRequest hk (by simp)
  have hout : ∀ m', (s.setRequest k m (.decided e)).Outstanding m' → s.Outstanding m' :=
    fun m' => Or.imp_right (Or.imp_right (hope m'))
  have hgood : M.Good m := h.good m (.inr (.inr ⟨k, .unread, hk, by simp, by simp⟩))
  refine ⟨h.repr, fun m' hm' => h.good m' (hout m' hm'), fun m' hm' => h.due m' (hout m' hm'),
    h.owed, ?_, ?_, ?_⟩
  · rintro c ⟨i, hi⟩
    refine h.confirmed c ⟨i, hi.imp_right ?_⟩
    rintro ⟨k', todo, hi, hk'⟩
    rcases State.request_of_setRequest hk' with ⟨-, -, heq⟩ | ⟨-, hk'⟩
    · exact nomatch heq
    · exact ⟨k', todo, hi, hk'⟩
  · intro k' m' e' hk'
    -- the effect was decided on the current rows
    rcases State.request_of_setRequest hk' with ⟨-, rfl, heq⟩ | ⟨-, hk'⟩
    · cases heq
      exact M.ready h.repr hgood he
    · exact h.ready k' m' e' hk'
  · -- `hC` keeps it apart from what was decided before
    intro k₁ m₁ e₁ k₂ m₂ e₂ h₁ h₂ hne
    rcases State.request_of_setRequest h₁ with ⟨rfl, rfl, -⟩ | ⟨-, hr₁⟩ <;>
      rcases State.request_of_setRequest h₂ with ⟨rfl, rfl, -⟩ | ⟨-, hr₂⟩
    · exact absurd rfl hne
    · exact hC k₂ m₂ e₂ hr₂
    · exact fun p hp hp' => hC k₁ m₁ e₁ hr₁ p hp' hp
    · exact h.alone k₁ m₁ e₁ k₂ m₂ e₂ hr₁ hr₂ hne

theorem Ordered.commit (h : M.Ordered t₀ tab s) {d : δ}
    (hk : s.request k = some (m, .decided e)) (hd : R.Commits s.db m e d) :
    M.Ordered t₀ (post M.place M.apply m tab) { s.setRequest k m .handled with db := d } := by
  have hm : s.Outstanding m := .inr (.inr ⟨k, .decided e, hk, by simp, by simp⟩)
  have hgood : M.Good m := h.good m hm
  have hrdy : M.Ready s.db m e := h.ready k m e hk
  -- the commit settles the place of its message and leaves the others
  have hset : ∀ p, tab p = M.view t₀ s.history p ∨ M.place m = some p →
      post M.place M.apply m tab p = M.view t₀ s.history p := by
    intro p hp
    by_cases hpla : M.place m = some p
    · rw [post_of_place hpla, (h.due m hm p hpla).1]
    · rw [post_of_ne hpla]
      exact hp.resolve_right hpla
  have hout : ∀ m', State.Outstanding { s.setRequest k m .handled with db := d } m' →
      s.Outstanding m' :=
    fun m' => Or.imp_right (Or.imp_right (State.opens_of_setRequest hk (by simp)))
  have hdec : ∀ k' m' e', (s.setRequest k m .handled).request k' = some (m', .decided e') →
      k ≠ k' ∧ s.request k' = some (m', .decided e') := by
    intro k' m' e' hk'
    rcases State.request_of_setRequest hk' with ⟨-, -, heq⟩ | ⟨hne, hk'⟩
    · exact nomatch heq
    · exact ⟨hne.symm, hk'⟩
  refine ⟨M.commit h.repr hgood hrdy hd, fun m' hm' => h.good m' (hout m' hm'), ?_, ?_, ?_, ?_, ?_⟩
  · intro m' hm' p hp
    obtain ⟨hdue, hfix⟩ := h.due m' (hout m' hm') p hp
    refine ⟨?_, hfix⟩
    by_cases hpla : M.place m = some p
    · rw [hset p (.inr hpla)]
      exact hfix
    · rw [post_of_ne hpla]
      exact hdue
  · intro p
    rcases h.owed p with hp | howed
    · exact .inl (hset p (.inl hp))
    · exact .inr howed
  · rintro c ⟨i, hi⟩ p hp
    rcases hi with hi | ⟨k', todo, hi, hk'⟩
    · exact hset p (.inl (h.confirmed c ⟨i, .inl hi⟩ p hp))
    · rcases State.request_of_setRequest hk' with ⟨-, hmsg, -⟩ | ⟨-, hk'⟩
      · -- this agent waits for the request itself
        exact hset p (.inr (hmsg ▸ hp))
      · exact hset p (.inl (h.confirmed c ⟨i, .inr ⟨k', todo, hi, hk'⟩⟩ p hp))
  · intro k' m' e' hk'
    obtain ⟨hne, hk'⟩ := hdec k' m' e' hk'
    have hm' : s.Outstanding m' := .inr (.inr ⟨k', .decided e', hk', by simp, by simp⟩)
    exact M.other h.repr hgood hrdy hd (h.good m' hm') (h.ready k' m' e' hk')
      (h.alone k m e k' m' e' hk hk' hne)
  · intro k₁ m₁ e₁ k₂ m₂ e₂ h₁ h₂
    exact h.alone k₁ m₁ e₁ k₂ m₂ e₂ (hdec k₁ m₁ e₁ h₁).2 (hdec k₂ m₂ e₂ h₂).2

theorem Ordered.setRequest (h : M.Ordered t₀ tab s) {p : Progress ε}
    (hm : p = .unread ∧ s.Outstanding m ∨ p = .aborted) :
    M.Ordered t₀ tab (s.setRequest k m p) := by
  -- it is neither decided nor handled
  refine h.relax rfl rfl ?_ (fun _ => .inl) ?_ ?_
  · rintro m' (hcopy | hrow | ⟨k', q, hk', hopen⟩)
    · exact .inl hcopy
    · exact .inr (.inl hrow)
    · rcases State.request_of_setRequest hk' with ⟨-, rfl, rfl⟩ | ⟨-, hk'⟩
      · exact (hm.resolve_right hopen.2).2
      · exact .inr (.inr ⟨k', q, hk', hopen⟩)
  · rintro c ⟨i, hi⟩
    refine ⟨i, hi.imp_right ?_⟩
    rintro ⟨k', todo, hi, hk'⟩
    rcases State.request_of_setRequest hk' with ⟨-, -, rfl⟩ | ⟨-, hk'⟩
    · simp at hm
    · exact ⟨k', todo, hi, hk'⟩
  · intro k' m' e hk'
    rcases State.request_of_setRequest hk' with ⟨-, -, rfl⟩ | ⟨-, hk'⟩
    · simp at hm
    · exact hk'

variable [DecidableEq ι]
variable {i : ι} {A : List μ → μ → Prop} {d : δ}

theorem Ordered.goOn (h : M.Ordered t₀ tab s) {a : Agent μ}
    (hcop : ∀ c, c ∈ a.copies ↔ c ∈ (s.agent i).copies)
    (hcon : ∀ c, (s.set i a).Confirmed c → s.Confirmed c) :
    M.Ordered t₀ tab (s.set i a) := by
  refine h.relax rfl rfl ?_ ?_ hcon fun _ _ _ hk => hk
  · rintro m (⟨c, hc, hm⟩ | hrest)
    · exact .inl ⟨c, State.copies_of_set_of_subset (fun c' => (hcop c').mp) hc, hm⟩
    · exact .inr hrest
  · rintro m (⟨c, hc, hrest⟩ | hrow)
    · refine .inl (.inl ⟨c, hc.set.resolve_right ?_, hrest⟩)
      rintro ⟨hmem, hnot⟩
      exact hnot ((hcop c).mpr hmem)
    · exact .inl (.inr hrow)

theorem Ordered.emit (h : M.Ordered t₀ tab s) (hi : (s.agent i).current = none) (hgood : M.Good m)
    (hC : ∀ m', s.Outstanding m' → M.Apart m m' ∨ m' = m) :
    M.Ordered t₀ tab { s.set i ⟨none, (s.agent i).todo ++ [⟨none, 0, m⟩]⟩ with
      history := m :: s.history } := by
  have hcop : (s.agent i).copies = (s.agent i).todo := by simp [Agent.copies, hi]
  have hout : ∀ m', State.Outstanding { s.set i ⟨none, (s.agent i).todo ++ [⟨none, 0, m⟩]⟩ with
      history := m :: s.history } m' → s.Outstanding m' ∨ m' = m := by
    rintro m' (⟨c, hc, hm'⟩ | hrest)
    · rcases State.copies_of_set hc with hc | hc
      · exact .inl (.inl ⟨c, hc, hm'⟩)
      · rw [Agent.mem_copies_none, mem_append, mem_singleton] at hc
        rcases hc with hc | rfl
        · exact .inl (.inl ⟨c, ⟨i, hcop ▸ hc⟩, hm'⟩)
        · exact .inr hm'.symm
    · exact .inl (.inr hrest)
  -- the others of its place are the same message
  have hsame : ∀ m' p, s.Outstanding m' → M.place m = some p → M.place m' = some p → m' = m :=
    fun m' p hm' hp hp' => (hC m' hm').resolve_left fun hapa => hapa p hp hp'
  have hview : ∀ p, M.place m ≠ some p →
      M.view t₀ (m :: s.history) p = M.view t₀ s.history p := fun p hp => post_of_ne hp
  have hvie : ∀ p, M.place m = some p →
      M.view t₀ (m :: s.history) p = M.apply m (M.view t₀ s.history p) :=
    fun p hp => post_of_place hp
  have hdue : ∀ p, M.place m = some p → M.apply m (tab p) = M.view t₀ (m :: s.history) p := by
    intro p hp
    rw [hvie p hp]
    rcases h.owed p with hset | ⟨m', hm', hp'⟩
    · rw [hset]
    · obtain rfl := hsame m' p hm'.outstanding hp hp'
      obtain ⟨hdue, hfix⟩ := h.due m' hm'.outstanding p hp
      rw [hdue, hfix]
  refine ⟨h.repr, ?_, ?_, ?_, ?_, h.ready, h.alone⟩
  · intro m' hm'
    rcases hout m' hm' with hm' | rfl
    · exact h.good m' hm'
    · exact hgood
  · intro m' hm' p hp'
    by_cases hp : M.place m = some p
    · have heq : m' = m := (hout m' hm').elim (fun hm' => hsame m' p hm' hp hp') id
      subst heq
      refine ⟨hdue p hp, ?_⟩
      show M.apply m' (M.view t₀ (m' :: s.history) p) = M.view t₀ (m' :: s.history) p
      rw [hvie p hp, M.apply_idem]
    · have hm' : s.Outstanding m' := (hout m' hm').resolve_right fun heq => hp (heq ▸ hp')
      show _ = M.view t₀ (m :: s.history) p ∧ M.apply m' (M.view t₀ (m :: s.history) p) = _
      rw [hview p hp]
      exact h.due m' hm' p hp'
  · intro p
    show tab p = M.view t₀ (m :: s.history) p ∨ _
    by_cases hp : M.place m = some p
    · refine .inr ⟨m, .inl ⟨⟨none, 0, m⟩, State.copies_set_iff.mpr (.inl ?_), rfl, rfl⟩, hp⟩
      simp
    · rw [hview p hp]
      refine (h.owed p).imp_right ?_
      rintro ⟨m', hm', hp'⟩
      refine ⟨m', hm'.imp_left ?_, hp'⟩
      rintro ⟨c, hc, hrow⟩
      refine ⟨c, hc.set.resolve_right ?_, hrow⟩
      rintro ⟨hmem, hnot⟩
      exact hnot (Agent.mem_copies_none.mpr (mem_append_left _ (hcop ▸ hmem)))
  · intro c hc p hp'
    show tab p = M.view t₀ (m :: s.history) p
    have hc : s.Confirmed c := State.confirmed_of_set_of_failed (by simp) hc
    have hset := h.confirmed c hc p hp'
    have hcout : s.Outstanding c.msg := .inl ⟨c, hc.copies, rfl⟩
    by_cases hp : M.place m = some p
    · have heq := hsame c.msg p hcout hp hp'
      rw [hvie p hp, ← heq, (h.due c.msg hcout p hp').2, hset]
    · rw [hview p hp, hset]

theorem Ordered.putDown (h : M.Ordered t₀ tab s) {stage : Stage} {c : Copy μ} {todo : List (Copy μ)}
    (hi : s.agent i = ⟨some (stage, c), todo⟩) {queue : List (Row μ)} {next : ℕ}
    (hout : ∀ r ∈ queue, s.Outstanding r.msg) (hcopy : c.row = none → (∃ r ∈ queue, r.msg = c.msg) ∨
      ∀ p, M.place c.msg = some p → tab p = M.view t₀ s.history p)
    (hque : ∀ r ∈ s.queue, (∃ r' ∈ queue, r'.msg = r.msg) ∨
      ∀ p, M.place r.msg = some p → tab p = M.view t₀ s.history p) :
    M.Ordered t₀ tab { s.set i ⟨none, todo⟩ with queue := queue, nextRow := next } := by
  have hsub : (⟨none, todo⟩ : Agent μ).copies ⊆ (s.agent i).copies := by
    simp [hi, Agent.copies]
  refine h.relax rfl rfl ?_ ?_ ?_ fun _ _ _ hk => hk
  · -- what is outstanding was so before
    rintro m (⟨c', hc', hm⟩ | ⟨r, hr, rfl⟩ | hope)
    · exact .inl ⟨c', State.copies_of_set_of_subset hsub hc', hm⟩
    · exact hout r hr
    · exact .inr (.inr hope)
  · -- what was owed is owed by a row now, or settled
    rintro m (⟨c', hc', hrow, rfl⟩ | ⟨r, hr, rfl⟩)
    · rcases hc'.drop hi (a := ⟨none, todo⟩) (by simp [Agent.copies]) with hc' | rfl
      · exact .inl (.inl ⟨c', hc', hrow, rfl⟩)
      · exact (hcopy hrow).imp_left .inr
    · exact (hque r hr).imp_left .inr
  · exact fun c' => State.confirmed_of_set_of_failed (by simp)

/-- **What one step keeps.** -/
theorem Ordered.step (h : M.Ordered t₀ tab s) (hs : Coherent s) {l : Label ι μ}
    (hC : M.Orderly limit A s l) (hstep : Step R limit s l t) :
    ∃ tab', M.Ordered t₀ tab' t := by
  have hque : ∀ r ∈ s.queue, s.Outstanding r.msg := fun r hr => .inr (.inl ⟨r, hr, rfl⟩)
  have hkept : ∀ r ∈ s.queue, (∃ r' ∈ s.queue, r'.msg = r.msg) ∨
      ∀ p, M.place r.msg = some p → tab p = M.view t₀ s.history p := fun r hr => .inl ⟨r, hr, rfl⟩
  -- the row of a copy has the message of the copy
  have hrowM : ∀ i stage c todo id, s.agent i = ⟨some (stage, c), todo⟩ → c.row = some id →
      ∀ r ∈ s.queue, r.id = id → r.msg = c.msg := by
    intro i stage c todo id hi hrow r hr hid
    exact hs.knows id r.msg c.msg (.inr ⟨r, hr, hid, rfl⟩) (.inl ⟨c, ⟨i, by simp [hi]⟩, hrow, rfl⟩)
  cases hstep with
  | emit hi =>
    obtain ⟨hgood, -, hC⟩ := hC
    exact ⟨tab, h.emit hi hgood hC⟩
  | read hk he => exact ⟨tab, h.read hk he (hC _ hk)⟩
  | commit hk hd => exact ⟨_, h.commit hk hd⟩
  | abort => exact ⟨tab, h.setRequest (.inr rfl)⟩
  | @drain i rows hi hrows =>
    refine ⟨tab, h.relax rfl rfl ?_ ?_ ?_ fun _ _ _ hk => hk⟩
    · rintro m (⟨c, hc, rfl⟩ | hrest)
      · rcases State.copies_of_set hc with hc | hc
        · exact .inl ⟨c, hc, rfl⟩
        · obtain ⟨r, hr, rfl⟩ := List.mem_map.mp (Agent.mem_copies_none.mp hc)
          exact hque r (hrows hr)
      · exact .inr hrest
    · rintro m (⟨c, hc, hrest⟩ | hrow)
      · rcases hc.set (i := i) (a := ⟨none, rows.map Row.copy⟩) with hc | ⟨hc, -⟩
        · exact .inl (.inl ⟨c, hc, hrest⟩)
        · simp [hi] at hc
      · exact .inl (.inr hrow)
    · exact fun c => State.confirmed_of_set_of_failed (by simp)
  | @send i c todo k hi hk =>
    have hsent : M.Ordered t₀ tab (s.set i ⟨some (.sent k, c), todo⟩) := by
      refine h.goOn (by simp [hi]) fun c' hc' => ?_
      rcases State.confirmed_of_set hc' with hc' | ⟨todo', heq⟩ | ⟨k', todo', heq, hk'⟩
      · exact hc'
      · exact nomatch heq
      · cases heq
        rw [hk] at hk'
        exact nomatch hk'
    refine ⟨tab, hsent.setRequest (.inl ⟨rfl, .inl ⟨c, ?_, rfl⟩⟩)⟩
    exact State.copies_set_iff.mpr (.inl (by simp))
  | @respond i k c todo hi hk =>
    have hc : s.Confirmed c := ⟨i, .inr ⟨k, todo, hi, hk⟩⟩
    by_cases hrow : c.row = none
    · rw [if_pos hrow]
      exact ⟨tab, h.putDown hi hque (fun _ => .inr (h.confirmed c hc)) hkept⟩
    · rw [if_neg hrow]
      refine ⟨tab, h.goOn (by simp [hi]) fun c' hc' => ?_⟩
      rcases State.confirmed_of_set hc' with hc' | ⟨todo', heq⟩ | ⟨k', todo', heq, -⟩
      · exact hc'
      · cases heq
        exact hc
      · exact nomatch heq
  | @fail i k c todo hi =>
    exact ⟨tab, h.goOn (by simp [hi]) fun c' => State.confirmed_of_set_of_failed (by simp)⟩
  | @enqueue i c todo hi hrow =>
    refine ⟨tab, h.putDown hi ?_ (fun _ => .inl ⟨_, mem_concat_self, rfl⟩) ?_⟩
    · intro r hr
      rcases mem_append.mp hr with hr | hr
      · exact hque r hr
      · rw [mem_singleton.mp hr]
        exact .inl ⟨c, ⟨i, by simp [hi]⟩, rfl⟩
    · exact fun r hr => .inl ⟨r, mem_append_left _ hr, rfl⟩
  | @lose i c todo hi hrow =>
    have hpla : M.place c.msg = none := hC .failed c (by rw [hi])
    refine ⟨tab, h.putDown hi hque (fun _ => .inr fun p hp => ?_) hkept⟩
    rw [hpla] at hp
    exact nomatch hp
  | @reschedule i c todo id hi hrow =>
    have hC : c.attempts + 1 < limit ∨ M.place c.msg = none := hC .failed c (by rw [hi])
    refine ⟨tab, h.putDown hi ?_ (fun hnone => ?_) fun r hr => ?_⟩
    · intro r hr
      obtain ⟨r', hr', -, hmsg⟩ := mem_rescheduled hr
      exact hmsg ▸ hque r' hr'
    · exact nomatch hnone.symm.trans hrow
    · by_cases hgone : c.attempts + 1 < limit ∨ r.id ≠ id
      · exact .inl (exists_mem_rescheduled hr hgone)
      · obtain ⟨hlim, hid⟩ := not_or.mp hgone
        refine .inr fun p hp => ?_
        rw [hrowM i .failed c todo id hi hrow r hr (not_not.mp hid), hC.resolve_left hlim] at hp
        exact nomatch hp
  | @keep i stage c todo id hi hstage hrow =>
    exact ⟨tab, h.putDown hi hque (fun hnone => nomatch hnone.symm.trans hrow) hkept⟩
  | @dequeue i c todo id hi hrow =>
    refine ⟨tab, h.putDown hi ?_ (fun hnone => ?_) fun r hr => ?_⟩
    · exact fun r hr => hque r (mem_of_mem_filter hr)
    · exact nomatch hnone.symm.trans hrow
    · by_cases hid : r.id = id
      · refine .inr ?_
        rw [hrowM i .acked c todo id hi hrow r hr hid]
        exact h.confirmed c ⟨i, .inl ⟨todo, hi⟩⟩
      · exact .inl ⟨r, mem_filter.mpr ⟨hr, by simpa using hid⟩, rfl⟩

/-! ### Whole runs -/

theorem Ordered.run (h : M.Ordered t₀ tab s) (hs : Coherent s) (hA : Grows A s.history)
    (hrun : RunWhile R limit (M.Orderly limit A) s t) :
    (∃ tab', M.Ordered t₀ tab' t) ∧ Coherent t ∧ Grows A t.history := by
  induction hrun with
  | refl => exact ⟨⟨tab, h⟩, hs, hA⟩
  | tail _ hlast ih =>
    obtain ⟨⟨tab', h'⟩, hs', hA'⟩ := ih
    obtain ⟨l, hC, hstep⟩ := hlast
    refine ⟨h'.step hs' hC hstep, hs'.step hstep, ?_⟩
    cases hstep with
    | emit => exact ⟨hC.2.1, hA'⟩
    | _ => exact hA'

omit [DecidableEq ι] in
theorem ordered_init (h : M.Repr t₀ d) :
    M.Ordered t₀ t₀ ({ db := d } : State ι δ μ ε) ∧ Coherent ({ db := d } : State ι δ μ ε) := by
  have hout : ∀ m, ¬({ db := d } : State ι δ μ ε).Outstanding m :=
    (State.quiet_init d).not_outstanding
  have hcop : ∀ c, ¬({ db := d } : State ι δ μ ε).Copies c :=
    fun c hc => hout c.msg (.inl ⟨c, hc, rfl⟩)
  have hkn : ∀ id m, ¬({ db := d } : State ι δ μ ε).Knows id m := by
    rintro id m (⟨c, hc, -⟩ | ⟨r, hr, -⟩)
    · exact hcop c hc
    · simp at hr
  refine ⟨⟨h, fun m hm => absurd hm (hout m), fun m hm => absurd hm (hout m), fun _ => .inl rfl,
    fun c hc => absurd hc.copies (hcop c), (fun _ _ _ hk => nomatch hk),
    (fun _ _ _ _ _ _ hk => nomatch hk)⟩, ⟨(fun _ _ _ _ hi => nomatch hi),
    fun id m _ hm => absurd hm (hkn id m), fun id m hm => absurd hm (hkn id m)⟩⟩

/-- **When nothing is under way, the table is what the messages make of it.** -/
theorem settled (h : M.Repr t₀ d) (hrun : RunWhile R limit (M.Orderly limit A) { db := d } t)
    (hq : t.Quiet) :
    M.Repr (M.view t₀ t.history) t.db ∧ Grows A t.history := by
  obtain ⟨hord, hcoh⟩ := @ordered_init ι _ _ _ _ _ _ _ M t₀ d h
  obtain ⟨⟨tab, hord⟩, -, hA⟩ := hord.run hcoh (A := A) trivial hrun
  refine ⟨?_, hA⟩
  have htab : tab = M.view t₀ t.history := by
    funext p
    refine (hord.owed p).resolve_right ?_
    rintro ⟨m, hm, -⟩
    exact hq.not_outstanding m hm.outstanding
  exact htab ▸ hord.repr

/-- A message that is posted while nothing is under way, and delivered at once. -/
theorem exists_delivered (hq : s.Quiet) (i : ι) (hk : s.request k = none) (hm : M.Good m)
    (hA : A s.history m) (he : R.Decides s.db m e) (hd : R.Commits s.db m e d) :
    ∃ t, RunWhile R limit (M.Orderly limit A) s t ∧ t.Quiet ∧ t.db = d ∧
      t.history = m :: s.history ∧ ∀ k', k' ≠ k → t.request k' = s.request k' := by
  let c : Copy μ := ⟨none, 0, m⟩
  have hemit : RunWhile R limit (M.Orderly limit A) s
      { s.set i ⟨none, [c]⟩ with history := m :: s.history } := by
    have hstep : Step R limit s (.emit i m) _ := .emit (by rw [hq.agents i])
    rw [hq.agents i] at hstep
    exact .single ⟨.emit i m, ⟨hm, hA, fun m' hm' => absurd hm' (hq.not_outstanding m')⟩, hstep⟩
  have hsent := hemit.tail (.send (i := i) (k := k) (c := c) (update_self ..) hk) trivial
  have hread := hsent.tail (.read (k := k) (update_self ..) he) (by
    -- no other request has been read and not handled
    intro _ _ k' m' e' hk'
    rw [State.request_setRequest] at hk'
    split at hk'
    · simp at hk'
    · simpa using hq.requests k' m' _ hk')
  have hcom := hread.tail (.commit (k := k) (update_self ..) hd) trivial
  have hres := hcom.tail (.respond (i := i) (c := c) (update_self ..) (update_self ..)) trivial
  refine ⟨_, hres, ⟨fun j => ?_, fun k' m' p hk' => ?_, hq.queue⟩, rfl, rfl, fun k' hne => ?_⟩
  · simp only [State.set, State.setRequest, update_idem, update_apply]
    split
    · rfl
    · exact hq.agents j
  · simp only [State.set, State.setRequest, update_idem, update_apply] at hk'
    split at hk'
    · cases hk'
      exact .inl rfl
    · exact hq.requests k' m' p hk'
  · simp only [State.set, State.setRequest, update_idem, update_of_ne hne]

end Mirror

end

end Courier
