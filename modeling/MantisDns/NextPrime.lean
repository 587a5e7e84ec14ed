/-
Bloom sizes: the prime search and the sizing formulas of
`compiler/bloom.py`.

`_next_prime` steps through the odd numbers; that the search ends needs that
`_is_prime` decides primality (`isPrime_iff`) and that the next prime is not
far (`searches_nextPrime`).  The two floating-point expressions of `recommended_params` are
a parameter (`Sizing`): nothing below depends on how they round.
-/
import MantisDns.BloomHash

namespace Control

/-! ### `_is_prime` -/

/-- The trial division `while i * i <= n`. -/
def isPrimeLoop (n i : ℕ) : Bool :=
  if i * i ≤ n then
    if n % i = 0 then false else isPrimeLoop n (i + 2)
  else true
  termination_by n + 1 - i
  decreasing_by
    have hi : i ≤ i * i := Nat.le_mul_self i
    omega

/-- `_is_prime`. -/
def isPrime (n : ℕ) : Bool :=
  if n < 2 then false
  else if n = 2 ∨ n = 3 then true
  else if n % 2 = 0 then false
  else isPrimeLoop n 3

theorem isPrimeLoop_iff (n : ℕ) : ∀ {i : ℕ}, i % 2 = 1 →
    (isPrimeLoop n i = true ↔ ∀ m, m % 2 = 1 → i ≤ m → m * m ≤ n → ¬m ∣ n) := by
  intro i
  fun_induction isPrimeLoop n i with
  | case1 i hle hdvd =>
    -- an odd divisor from `i` on is `i` or comes after it
    intro hodd
    refine ⟨fun h => absurd h (by simp), fun h => ?_⟩
    exact absurd (Nat.dvd_of_mod_eq_zero hdvd) (h i hodd (le_refl i) hle)
  | case2 i hle hdvd ih =>
    intro hodd
    rw [ih (by omega)]
    constructor
    · intro h m hm him hmm
      rcases Nat.eq_or_lt_of_le him with rfl | hlt
      · exact fun hd => hdvd (Nat.mod_eq_zero_of_dvd hd)
      · exact h m hm (by omega) hmm
    · intro h m hm him hmm
      exact h m hm (by omega) hmm
  | case3 i hgt =>
    intro _
    refine ⟨fun _ m _ him hmm => ?_, fun _ => rfl⟩
    exact absurd (le_trans (Nat.mul_le_mul him him) hmm) hgt

theorem isPrime_iff (n : ℕ) : isPrime n = true ↔ n.Prime := by
  rw [isPrime]
  by_cases h2 : n < 2
  · rw [if_pos h2]
    exact ⟨fun h => absurd h (by simp), fun h => absurd h.two_le (by omega)⟩
  rw [if_neg h2]
  by_cases h23 : n = 2 ∨ n = 3
  · rw [if_pos h23]
    refine ⟨fun _ => ?_, fun _ => rfl⟩
    rcases h23 with rfl | rfl
    · exact Nat.prime_two
    · exact Nat.prime_three
  rw [if_neg h23]
  by_cases hev : n % 2 = 0
  · rw [if_pos hev]
    refine ⟨fun h => absurd h (by simp), fun h => ?_⟩
    rcases h.eq_one_or_self_of_dvd 2 (Nat.dvd_of_mod_eq_zero hev) with h1 | h1
    · exact absurd h1 (by omega)
    · exact absurd (Or.inl h1.symm) h23
  rw [if_neg hev, isPrimeLoop_iff n (by omega), Nat.prime_def_le_sqrt]
  constructor
  · intro h
    refine ⟨by omega, fun m hm2 hms hmd => ?_⟩
    -- an even divisor would make `n` even, so `m` is odd and the loop saw it
    have hmodd : m % 2 = 1 := by
      rcases Nat.mod_two_eq_zero_or_one m with h0 | h1
      · exact absurd (Nat.mod_eq_zero_of_dvd
          ((Nat.dvd_of_mod_eq_zero h0).trans hmd)) hev
      · exact h1
    exact h m hmodd (by omega) (Nat.le_sqrt.mp hms) hmd
  · rintro ⟨-, h⟩ m hm him hmm
    exact h m (by omega) (Nat.le_sqrt.mpr hmm)

/-! ### `_next_prime` -/

/-- The loop `while not _is_prime(candidate): candidate += 2`, for at most
`fuel` turns. -/
def nextPrimeLoop : ℕ → ℕ → ℕ
  | 0, candidate => candidate
  | fuel + 1, candidate =>
    if isPrime candidate then candidate else nextPrimeLoop fuel (candidate + 2)

/-- The same loop without a bound on its turns: from a candidate it ends, and
with which result. -/
inductive Searches : ℕ → ℕ → Prop
  | found {candidate : ℕ} (h : isPrime candidate = true) : Searches candidate candidate
  | turn {candidate p : ℕ} (h : isPrime candidate = false) (hp : Searches (candidate + 2) p) :
    Searches candidate p

/-- The first candidate: `n if n % 2 else n + 1`. -/
def firstCandidate (n : ℕ) : ℕ := if n % 2 = 1 then n else n + 1

/-- `_next_prime`.  As many turns as the candidate's own value are enough, see
`searches_nextPrime`. -/
def nextPrime (n : ℕ) : ℕ := nextPrimeLoop (firstCandidate n) (firstCandidate n)

theorem le_nextPrimeLoop (fuel c : ℕ) : c ≤ nextPrimeLoop fuel c := by
  induction fuel generalizing c with
  | zero => exact le_refl c
  | succ fuel ih =>
    rw [nextPrimeLoop]
    split
    · exact le_refl c
    · exact le_trans (Nat.le_add_right c 2) (ih (c + 2))

theorem le_nextPrime (n : ℕ) : n ≤ nextPrime n := by
  refine le_trans ?_ (le_nextPrimeLoop _ _)
  rw [firstCandidate]
  split <;> omega

theorem searches_nextPrimeLoop {fuel c k : ℕ} (hk : k ≤ fuel) (hp : (c + 2 * k).Prime) :
    Searches c (nextPrimeLoop fuel c) := by
  induction fuel generalizing c k with
  | zero =>
    rw [Nat.le_zero.mp hk] at hp
    exact .found ((isPrime_iff c).mpr hp)
  | succ fuel ih =>
    rw [nextPrimeLoop]
    split
    · rename_i hc
      exact .found hc
    · rename_i hc
      -- the prime ahead is not `c` itself, so it is one turn closer now
      obtain _ | k := k
      · exact absurd ((isPrime_iff c).mpr hp) hc
      · refine .turn (Bool.eq_false_of_not_eq_true hc) (ih (Nat.le_of_succ_le_succ hk) ?_)
        rwa [show c + 2 + 2 * k = c + 2 * (k + 1) by omega]

theorem firstCandidate_odd (n : ℕ) : firstCandidate n % 2 = 1 := by
  rw [firstCandidate]
  split <;> omega

/-- **The search ends**: by Bertrand's postulate there is a prime before the
turns run out. -/
theorem searches_nextPrime (n : ℕ) : Searches (firstCandidate n) (nextPrime n) := by
  have hodd := firstCandidate_odd n
  rw [nextPrime]
  generalize firstCandidate n = c at hodd
  rcases Nat.lt_or_ge c 3 with hc | hc
  · obtain rfl : c = 1 := by omega
    exact searches_nextPrimeLoop (k := 1) (le_refl 1) Nat.prime_three
  · obtain ⟨p, hp, hlt, hle⟩ := Nat.exists_prime_lt_and_le_two_mul c (by omega)
    have hpodd : p % 2 = 1 := hp.eq_two_or_odd.resolve_left (by omega)
    refine searches_nextPrimeLoop (k := (p - c) / 2) (by omega) ?_
    rwa [show c + 2 * ((p - c) / 2) = p by omega]

theorem Searches.isLeast {c p : ℕ} (h : Searches c p) (hodd : c % 2 = 1) :
    IsLeast {q | q.Prime ∧ q % 2 = 1 ∧ c ≤ q} p := by
  induction h with
  | found hc => exact ⟨⟨(isPrime_iff _).mp hc, hodd, le_refl _⟩, fun _ hq => hq.2.2⟩
  | @turn c p hc _ ih =>
    obtain ⟨⟨hp, hpodd, hle⟩, hlea⟩ := ih (by omega)
    refine ⟨⟨hp, hpodd, by omega⟩, ?_⟩
    rintro q ⟨hq, hqodd, hcq⟩
    -- `c` was tried and is no prime
    have hne : q ≠ c := by
      rintro rfl
      exact absurd ((isPrime_iff q).mpr hq) (by simp [hc])
    exact hlea ⟨hq, hqodd, by omega⟩

/-- **Bloom sizes are least primes**: the search for `n` ends, with the least
prime from `n` on. -/
theorem nextPrime_isLeast (n : ℕ) (hn : 3 ≤ n) :
    Searches (firstCandidate n) (nextPrime n) ∧ IsLeast {p | p.Prime ∧ n ≤ p} (nextPrime n) := by
  have h := searches_nextPrime n
  obtain ⟨⟨hp, -, -⟩, hlea⟩ := h.isLeast (firstCandidate_odd n)
  refine ⟨h, ⟨hp, le_nextPrime n⟩, ?_⟩
  rintro q ⟨hq, hle⟩
  -- past two a prime is odd, so the first candidate does not pass it either
  have hqodd : q % 2 = 1 := hq.eq_two_or_odd.resolve_left (by omega)
  refine hlea ⟨hq, hqodd, ?_⟩
  rw [firstCandidate]
  split <;> omega

theorem nextPrime_isLeast_four : 3 ≤ 4 ∧ nextPrime 4 = 5 ∧
    IsLeast {p | p.Prime ∧ 4 ≤ p} (nextPrime 4) :=
  ⟨by omega, by decide +kernel, (nextPrime_isLeast 4 (by omega)).2⟩

/-! ### `recommended_params` -/

/-- The two floating-point expressions of `recommended_params`, for the target
rate the compiler passes: `math.ceil(-(n * math.log(p)) / (math.log(2) ** 2))`
and `round((num_bits / n) * math.log(2))`. -/
structure Sizing where
  bits : ℕ → ℤ
  hashes : ℕ → ℕ → ℤ

/-- `recommended_params`. -/
def recommendedParams (sizing : Sizing) (expectedItems : ℕ) (seed : UInt64) : BloomParams :=
  let expectedItems := if expectedItems ≤ 0 then 1 else expectedItems
  let numBits := nextPrime (max 64 (sizing.bits expectedItems)).toNat
  { numHashes := (max 1 (sizing.hashes numBits expectedItems)).toNat
    numBits
    seed := seed.toNat
    seed_lt := seed.toNat_lt }

theorem recommendedParams_numBits_pos (sizing : Sizing) (n : ℕ) (seed : UInt64) :
    0 < (recommendedParams sizing n seed).numBits :=
  lt_of_lt_of_le (by omega) (le_nextPrime _)

theorem recommendedParams_numHashes_pos (sizing : Sizing) (n : ℕ) (seed : UInt64) :
    0 < (recommendedParams sizing n seed).numHashes := by
  simp only [recommendedParams]
  omega

end Control
