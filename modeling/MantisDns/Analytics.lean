/-
Analytics: `analytics_summary` and `analytics_timeseries` of `telemetry_routers.py`.

The first counts the events of a window, the second counts them by bucket and decision and
shows as many buckets as fit into the window, up to the one of now.  Times are in microseconds.

* `sum_countP` — buckets in a row count each of their events once;
* `agrees_iff_shown` — both totals agree exactly when every event of the window is blocked or
  allowed and in a bucket that is shown.
-/
import MantisDns.NodeApi

open Text List

namespace Control.Analytics

open NodeApi (QueryEvent)

/-- What both endpoints are asked, by whom and when; `hours` is at least one. -/
structure Params where
  hours : ℕ
  one_le : 1 ≤ hours
  groupId : Option Str
  user : User
  now : ℕ

/-- `user_tenant_filter`. -/
def userTenantFilter (u : User) : Option Str := if u.role = .admin then none else u.tenantId

/-- The filters of both endpoints, for a window that ends now. -/
def Params.selects (p : Params) (e : QueryEvent) : Bool :=
  (p.now : ℤ) - p.hours * 3600000000 ≤ e.occurredAt &&
    (p.groupId.filter (· ≠ [])).all (e.groupId = ·) &&
    (userTenantFilter p.user).all (e.tenantId = some ·)

/-- `analytics_summary`: the totals of all and of blocked queries. -/
def analyticsSummary (p : Params) (events : List QueryEvent) : ℕ × ℕ :=
  let rows := events.filter p.selects
  (rows.length, rows.countP (·.decision = "block".toList))

/-- `_bucket_seconds`. -/
def bucketSeconds (hours : ℕ) : ℕ :=
  if hours ≤ 2 then 60 else if hours ≤ 12 then 300 else if hours ≤ 72 then 3600 else 86400

structure TimeseriesPoint where
  bucket : ℤ
  total : ℕ
  blocked : ℕ
  allowed : ℕ

def Params.width (p : Params) : ℕ := bucketSeconds p.hours

/-- The number of an event's bucket, `floor(epoch / bucket_secs)`. -/
def Params.bucketOf (p : Params) (e : QueryEvent) : ℤ := e.occurredAt / (p.width * 1000000)

/-- The number of the bucket of now. -/
def Params.nowBucket (p : Params) : ℤ := p.now / 1000000 / p.width

/-- The row of the query for a bucket and a decision. -/
def count (p : Params) (events : List QueryEvent) (bucket : ℤ) (decision : Str) : ℕ :=
  (events.filter p.selects).countP fun e => p.bucketOf e * p.width = bucket && e.decision = decision

/-- `analytics_timeseries`. -/
def analyticsTimeseries (p : Params) (events : List QueryEvent) : List TimeseriesPoint :=
  (range (p.hours * 3600 / p.width)).reverse.map fun i : ℕ =>
    let bucket := p.nowBucket * p.width - i * p.width
    let blocked := count p events bucket "block"
    let allowed := count p events bucket "allow"
    ⟨bucket, blocked + allowed, blocked, allowed⟩

/-- Both views give the same totals. -/
def Agrees (p : Params) (events : List QueryEvent) : Prop :=
  ((analyticsTimeseries p events).map (·.total)).sum = (analyticsSummary p events).1 ∧
    ((analyticsTimeseries p events).map (·.blocked)).sum = (analyticsSummary p events).2

/-- In a bucket that is shown, counted back from the one of now. -/
def Params.shows (p : Params) (e : QueryEvent) : Bool :=
  p.nowBucket - (p.hours * 3600 / p.width : ℕ) < p.bucketOf e && p.bucketOf e ≤ p.nowBucket

/-! ### Counting -/

section Count

variable {α : Type}

theorem countP_add {f g h : α → Bool}
    (hfg : ∀ x, (if f x then 1 else 0) + (if g x then 1 else 0) = if h x then 1 else 0)
    (l : List α) : l.countP f + l.countP g = l.countP h := by
  induction l with
  | nil => rfl
  | cons x =>
    have hx := hfg x
    rw [countP_cons, countP_cons, countP_cons]
    omega

/-- **Buckets in a row count each of their elements once.** -/
theorem sum_countP (k : α → ℤ) (last : ℤ) (f : α → Bool) (l : List α) (n : ℕ) :
    ((range n).map fun i : ℕ => l.countP fun x => k x = last - i && f x).sum =
      l.countP fun x => (last - n < k x && k x ≤ last) && f x := by
  induction n with
  | zero =>
    refine (countP_eq_zero.mpr fun x _ => ?_).symm
    simp only [Bool.and_eq_true, decide_eq_true_eq]
    omega
  | succ n ih =>
    rw [range_succ, map_append, sum_append, ih, map_singleton, sum_singleton]
    refine countP_add (fun x => ?_) l
    generalize f x = b
    cases b
    · simp only [Bool.and_false, Bool.false_eq_true, if_false]
    · simp only [Bool.and_true, Bool.and_eq_true, decide_eq_true_eq]
      split_ifs <;> omega

end Count

/-! ### Both views -/

variable (p : Params) (events : List QueryEvent)

theorem count_eq (i : ℕ) (decision : Str) :
    count p events (p.nowBucket * p.width - i * p.width) decision =
      (events.filter p.selects).countP fun e =>
        p.bucketOf e = p.nowBucket - i && e.decision = decision := by
  have hwidth : (p.width : ℤ) ≠ 0 := by
    rw [Params.width, bucketSeconds]
    split_ifs <;> omega
  refine countP_congr fun e _ => ?_
  simp only [← sub_mul, Bool.and_eq_true, decide_eq_true_eq, mul_left_inj' hwidth]

theorem sum_count (decision : Str) :
    ((range (p.hours * 3600 / p.width)).reverse.map fun i : ℕ =>
      count p events (p.nowBucket * p.width - i * p.width) decision).sum =
      (events.filter p.selects).countP fun e => p.shows e && e.decision = decision := by
  rw [map_reverse, sum_reverse]
  simp only [count_eq]
  exact sum_countP p.bucketOf p.nowBucket (·.decision = decision) _ _

/-- **The views agree** exactly when all events of the window are shown. -/
theorem agrees_iff_shown : Agrees p events ↔ ∀ e ∈ events, p.selects e = true →
    p.shows e = true ∧ (e.decision = "block".toList ∨ e.decision = "allow".toList) := by
  have hblocked : ((analyticsTimeseries p events).map (·.blocked)).sum = _ :=
    (congrArg sum map_map).trans (sum_count p events "block")
  -- a bucket counts blocked and allowed events, and nothing else
  have htotal : ((analyticsTimeseries p events).map (·.total)).sum =
      (events.filter p.selects).countP fun e =>
        p.shows e && (e.decision = "block".toList || e.decision = "allow".toList) := by
    refine (congrArg sum map_map).trans (sum_map_add.trans ?_)
    refine (congrArg₂ _ (sum_count ..) (sum_count ..)).trans (countP_add (fun e => ?_) _)
    by_cases hb : e.decision = "block".toList
    · simp [hb]
    · simp only [hb, decide_false, Bool.and_false, Bool.false_or, Bool.false_eq_true, if_false,
        zero_add]
  rw [Agrees, htotal, hblocked]
  constructor
  · rintro ⟨hall, -⟩ e he hsel
    simpa using countP_eq_length.mp hall e (mem_filter.mpr ⟨he, hsel⟩)
  · intro h
    have hrows : ∀ e ∈ events.filter p.selects, _ := fun e he =>
      h e (mem_filter.mp he).1 (mem_filter.mp he).2
    refine ⟨countP_eq_length.mpr fun e he => ?_, countP_congr fun e he => ?_⟩
    · simpa using hrows e he
    · rw [(hrows e he).1, Bool.true_and]

/-- An answer from a local zone is in the summary and in no bucket. -/
theorem stub_zone_lost :
    let p : Params := ⟨24, by decide, none, ⟨.admin, none⟩, 86400000000⟩
    let e : QueryEvent := ⟨"g1", none, "nas.lan", "stub_zone", none, none, none, none, none, none,
      none, none, 86400000000⟩
    (analyticsSummary p [e]).1 = 1 ∧ ¬Agrees p [e] := by
  refine ⟨by decide +kernel, fun h => ?_⟩
  exact absurd h.1 (by decide +kernel)

end Control.Analytics
