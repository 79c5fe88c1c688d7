/-
LineScript/Proofs/Rounding.lean

Rounding to magnitudes.

* Rounding depends on the number only, not on the fraction that it is given as
  (`magnitude_eq_of_div_eq`).
* A finite magnitude is what its own exact value is rounded to (`magnitude_exact`).
* Rounding does not go past a power of two (`le_magnitude`, `magnitude_le`).
* What is rounded to infinity is exactly what is too large (`magnitude_eq_infinite_iff`),
  and what is rounded to zero exactly what is too small (`magnitude_eq_zero_iff`).

So the decimal number that is chosen for a magnitude reads back as that magnitude,
whether it lies on one of the grids or is the exact value itself
(`decimalMagnitude_shortest`).
-/
import LineScript.Number.Shortest
import Mathlib.Algebra.Order.Field.Power
import Mathlib.Data.Int.Log
import Mathlib.Data.Rat.Floor
import Mathlib.Tactic.Positivity

namespace LineScript

namespace Double

/-! ### Fractions -/

/-- A power of a natural number, as the fraction that `scaled` makes of it. -/
theorem zpow_eq_div {b : Nat} (hb : 0 < b) (e : ℤ) :
    (b : ℚ) ^ e = ((b ^ e.toNat : ℕ) : ℚ) / ((b ^ (-e).toNat : ℕ) : ℚ) := by
  have hb' : (b : ℚ) ≠ 0 := by positivity
  have he : e = (e.toNat : ℤ) - ((-e).toNat : ℤ) := by omega
  conv_lhs => rw [he]
  rw [zpow_sub₀ hb', zpow_natCast, zpow_natCast, Nat.cast_pow, Nat.cast_pow]

/-- `scaled c b e` is a fraction for `c * b ^ e`. -/
theorem div_scaled {b : Nat} (hb : 0 < b) (c : Nat) (e : ℤ) :
    ((scaled c b e).1 : ℚ) / (scaled c b e).2 = c * (b : ℚ) ^ e := by
  rw [zpow_eq_div hb, ← mul_div_assoc]
  simp only [scaled, Nat.pow_eq]
  push_cast
  rfl

theorem scaled_snd_pos {b : Nat} (hb : 0 < b) (c : Nat) (e : ℤ) : 0 < (scaled c b e).2 :=
  Nat.pow_pos hb

/-- A fraction need not be reduced before it is rounded. -/
theorem roundDiv_mul_right {k : Nat} (hk : 0 < k) (n d : Nat) :
    roundDiv (n * k) (d * k) = roundDiv n d := by
  have hdiv : n * k / (d * k) = n / d := Nat.mul_div_mul_right n d hk
  have hmod : n * k % (d * k) = n % d * k := Nat.mul_mod_mul_right k n d
  have hlt : ∀ a b : Nat, a * k < b * k ↔ a < b := fun _ _ => Nat.mul_lt_mul_right hk
  simp only [roundDiv, hdiv, hmod, ← Nat.mul_assoc, hlt]

/-- Rounding changes nothing where there is nothing to round. -/
theorem roundDiv_mul_self {k : Nat} (hk : 0 < k) (n : Nat) : roundDiv (n * k) k = n := by
  simp [roundDiv, Nat.mul_div_cancel n hk, hk]

/-- Rounding goes up by less than one. -/
theorem roundDiv_le (n d : Nat) : roundDiv n d ≤ n / d + 1 := by
  simp only [roundDiv]
  split
  · omega
  · split <;> omega

/-- What is rounded to at least `k`: half of a step below it, the tie going to `k` if it is
even. -/
theorem le_roundDiv_iff {n d : Nat} (hd : 0 < d) (k : Nat) : k ≤ roundDiv n d ↔
    2 * k * d < 2 * n + d ∨ 2 * k * d = 2 * n + d ∧ k % 2 = 0 := by
  have hdiv : 2 * n + d = 2 * (n / d) * d + (2 * (n % d) + d) := by
    have h := Nat.div_add_mod n d
    rw [Nat.mul_comm] at h
    nlinarith
  have hmod := Nat.mod_lt n hd
  rw [hdiv]
  simp only [roundDiv]
  generalize n / d = q
  generalize n % d = r at *
  -- The quotient is rounded to `q` or `q + 1`, so that only `k = q + 1` depends on the
  -- remainder.
  rcases Nat.lt_trichotomy k (q + 1) with hk | rfl | hk
  · have hle : 2 * k * d ≤ 2 * q * d := Nat.mul_le_mul_right d (by omega)
    refine iff_of_true ?_ (.inl (by omega))
    split
    · omega
    · split <;> omega
  · have hnext : 2 * (q + 1) * d = 2 * q * d + 2 * d := by ring
    rw [hnext]
    split
    · omega
    · split <;> omega
  · have hle : 2 * (q + 2) * d ≤ 2 * k * d := Nat.mul_le_mul_right d (by omega)
    have hnext : 2 * (q + 2) * d = 2 * q * d + 4 * d := by ring
    refine iff_of_false ?_ (by omega)
    split
    · omega
    · split <;> omega

/-- The same in fractions, with the tie apart. -/
theorem le_roundDiv_iff_of_even {n d : Nat} (hd : 0 < d) {k : Nat} (hk : k % 2 = 0) :
    k ≤ roundDiv n d ↔ (k : ℚ) - 1 / 2 ≤ (n : ℚ) / d := by
  have hd' : (0 : ℚ) < d := by exact_mod_cast hd
  have hle : 2 * k * d ≤ 2 * n + d ↔ (k : ℚ) - 1 / 2 ≤ (n : ℚ) / d := by
    rw [le_div_iff₀ hd', ← Nat.cast_le (α := ℚ)]
    push_cast
    constructor <;> intro h <;> linarith
  rw [le_roundDiv_iff hd, and_iff_left hk, ← Nat.le_iff_lt_or_eq, hle]

/-- An odd number is reached only from above the tie below it, since ties go to even. -/
theorem le_roundDiv_iff_of_odd {n d : Nat} (hd : 0 < d) {k : Nat} (hk : k % 2 = 1) :
    k ≤ roundDiv n d ↔ (k : ℚ) - 1 / 2 < (n : ℚ) / d := by
  have hd' : (0 : ℚ) < d := by exact_mod_cast hd
  have hlt : 2 * k * d < 2 * n + d ↔ (k : ℚ) - 1 / 2 < (n : ℚ) / d := by
    rw [lt_div_iff₀ hd', ← Nat.cast_lt (α := ℚ)]
    push_cast
    constructor <;> intro h <;> linarith
  rw [le_roundDiv_iff hd, or_iff_left fun h => absurd h.2 (by omega), hlt]

/-- A fraction in units of the grid. -/
theorem div_on_grid (n d : Nat) (e : ℤ) :
    ((n * 2 ^ (-e).toNat : ℕ) : ℚ) / ((d * 2 ^ e.toNat : ℕ) : ℚ) = (n : ℚ) / d / 2 ^ e := by
  have hz : (2 : ℚ) ^ e = ((2 ^ e.toNat : ℕ) : ℚ) / ((2 ^ (-e).toNat : ℕ) : ℚ) := by
    exact_mod_cast zpow_eq_div (b := 2) (by decide) e
  rw [hz, Nat.cast_mul, Nat.cast_mul, div_div_div_eq]

theorem leastNormal_cast : (leastNormal : ℚ) = 2 ^ (52 : ℤ) := by
  norm_num [leastNormal]

/-! ### Binary logarithms -/

/-- The logarithm is the greatest exponent of a power that is not above. -/
theorem two_zpow_le_iff {r : ℚ} (hr : 0 < r) (k : ℤ) : (2 : ℚ) ^ k ≤ r ↔ k ≤ Int.log 2 r := by
  simpa using Int.zpow_le_iff_le_log (b := 2) (by decide) hr (x := k)

theorem lt_two_zpow_iff {r : ℚ} (hr : 0 < r) (k : ℤ) : r < (2 : ℚ) ^ k ↔ Int.log 2 r < k := by
  simpa using Int.lt_zpow_iff_log_lt (b := 2) (by decide) hr (x := k)

variable {n d : Nat}

theorem div_pos_of_pos (hn : 0 < n) (hd : 0 < d) : (0 : ℚ) < (n : ℚ) / d := by
  have hn' : (0 : ℚ) < n := by exact_mod_cast hn
  have hd' : (0 : ℚ) < d := by exact_mod_cast hd
  positivity

/-- Comparing a fraction with a power of two, in natural numbers. -/
theorem two_zpow_le_div_iff (hd : 0 < d) (k : ℤ) :
    (2 : ℚ) ^ k ≤ (n : ℚ) / d ↔ d * 2 ^ k.toNat ≤ n * 2 ^ (-k).toNat := by
  have hd' : (0 : ℚ) < d := by exact_mod_cast hd
  have hpow : (0 : ℚ) < ((2 ^ (-k).toNat : ℕ) : ℚ) := by positivity
  have hz : (2 : ℚ) ^ k = ((2 ^ k.toNat : ℕ) : ℚ) / ((2 ^ (-k).toNat : ℕ) : ℚ) := by
    exact_mod_cast zpow_eq_div (b := 2) (by decide) k
  rw [hz, div_le_div_iff₀ hpow hd']
  norm_cast
  rw [Nat.mul_comm d]

theorem log_natCast (n : Nat) : Int.log 2 (n : ℚ) = n.log2 := by
  rw [Int.log_natCast, Nat.log2_eq_log_two]

/-- The logarithm of a fraction is that of the number it stands for. -/
theorem log2Div_eq_log (hn : 0 < n) (hd : 0 < d) :
    log2Div n d = Int.log 2 ((n : ℚ) / d) := by
  have hn' : (0 : ℚ) < n := by exact_mod_cast hn
  have hd' : (0 : ℚ) < d := by exact_mod_cast hd
  have hpos := div_pos_of_pos hn hd
  -- the logarithms of numerator and denominator give that of the fraction up to one
  have hlow : (2 : ℚ) ^ ((n.log2 : ℤ) - (d.log2 + 1)) ≤ (n : ℚ) / d := by
    rw [zpow_sub₀ two_ne_zero]
    gcongr
    · exact (two_zpow_le_iff hn' _).2 (log_natCast n).ge
    · exact ((lt_two_zpow_iff hd' _).2 (by rw [log_natCast]; omega)).le
  have hhigh : (n : ℚ) / d < (2 : ℚ) ^ ((n.log2 : ℤ) + 1 - d.log2) := by
    rw [zpow_sub₀ two_ne_zero]
    refine div_lt_div₀ ?_ ?_ (by positivity) (by positivity)
    · exact (lt_two_zpow_iff hn' _).2 (by rw [log_natCast]; omega)
    · exact (two_zpow_le_iff hd' _).2 (log_natCast d).ge
  rw [two_zpow_le_iff hpos] at hlow
  rw [lt_two_zpow_iff hpos] at hhigh
  have hcond := (two_zpow_le_iff hpos _).symm.trans
    (two_zpow_le_div_iff (n := n) hd ((n.log2 : ℤ) - d.log2))
  simp only [log2Div, Nat.pow_eq, ← hcond]
  split <;> omega

/-! ### Rounding -/

/-- The exponent of the doubles around a fraction. -/
def gridExponent (n d : Nat) : ℤ := max (log2Div n d - 52) (-1074)

/-- A magnitude is the rounded significand with the exponent above it, up to infinity. -/
theorem magnitude_eq (hn : 0 < n) (d : Nat) :
    magnitude n d = min ((gridExponent n d + 1074).toNat * leastNormal +
      roundDiv (n * 2 ^ (-gridExponent n d).toNat) (d * 2 ^ (gridExponent n d).toNat))
      infinite :=
  if_neg hn.ne'

/-- The magnitude depends on the value of a fraction only. -/
theorem magnitude_mul_right {k : Nat} (hk : 0 < k) (hd : 0 < d) :
    magnitude (n * k) (d * k) = magnitude n d := by
  rcases Nat.eq_zero_or_pos n with rfl | hn
  · simp [magnitude]
  · have hk' : (k : ℚ) ≠ 0 := by exact_mod_cast hk.ne'
    have hlog : log2Div (n * k) (d * k) = log2Div n d := by
      rw [log2Div_eq_log (Nat.mul_pos hn hk) (Nat.mul_pos hd hk), log2Div_eq_log hn hd,
        Nat.cast_mul, Nat.cast_mul, mul_div_mul_right _ _ hk']
    have hgrid : gridExponent (n * k) (d * k) = gridExponent n d := by
      rw [gridExponent, gridExponent, hlog]
    rw [magnitude_eq (Nat.mul_pos hn hk), magnitude_eq hn, hgrid, Nat.mul_right_comm n,
      Nat.mul_right_comm d, roundDiv_mul_right hk]

/-- Rounding does not depend on the fraction that stands for the number. -/
theorem magnitude_eq_of_div_eq {n' d' : Nat} (hd : 0 < d) (hd' : 0 < d')
    (h : (n : ℚ) / d = (n' : ℚ) / d') : magnitude n d = magnitude n' d' := by
  have hcross : n * d' = n' * d := by
    have h₁ : (d : ℚ) ≠ 0 := by exact_mod_cast hd.ne'
    have h₂ : (d' : ℚ) ≠ 0 := by exact_mod_cast hd'.ne'
    rw [div_eq_div_iff h₁ h₂] at h
    exact_mod_cast h
  calc magnitude n d
    _ = magnitude (n * d') (d * d') := (magnitude_mul_right hd' hd).symm
    _ = magnitude (n' * d) (d' * d) := by rw [hcross, Nat.mul_comm d]
    _ = magnitude n' d' := magnitude_mul_right hd hd'

/-- What is at least a power of two is rounded to the magnitude of that power or beyond it. -/
theorem le_magnitude (hn : 0 < n) (hd : 0 < d) {k : ℤ} (hk : -1022 ≤ k)
    (h : (2 : ℚ) ^ k ≤ (n : ℚ) / d) :
    min ((k + 1023).toNat * leastNormal) infinite ≤ magnitude n d := by
  rw [magnitude_eq hn]
  apply min_le_min_right
  have hlog := h
  rw [two_zpow_le_iff (div_pos_of_pos hn hd), ← log2Div_eq_log hn hd] at hlog
  have hgrid : log2Div n d - 52 ≤ gridExponent n d := le_max_left _ _
  by_cases hmore : k - 51 ≤ gridExponent n d
  · have hle : (k + 1023).toNat ≤ (gridExponent n d + 1074).toNat := by omega
    exact (Nat.mul_le_mul_right _ hle).trans (Nat.le_add_right _ _)
  · -- the significand is at least the least one of a normal number
    have hexponent : gridExponent n d = k - 52 := by omega
    have hsignificand : leastNormal ≤ roundDiv (n * 2 ^ (-gridExponent n d).toNat)
        (d * 2 ^ (gridExponent n d).toNat) := by
      rw [le_roundDiv_iff_of_even (Nat.mul_pos hd (Nat.pow_pos (by decide))) (by decide),
        div_on_grid, hexponent, leastNormal_cast]
      have hquotient : (2 : ℚ) ^ (52 : ℤ) ≤ (n : ℚ) / d / 2 ^ (k - 52) := by
        rw [le_div_iff₀ (by positivity), ← zpow_add₀ two_ne_zero, add_sub_cancel]
        exact h
      linarith
    have hnext : (k + 1023).toNat = (gridExponent n d + 1074).toNat + 1 := by omega
    rw [hnext, Nat.succ_mul]
    exact Nat.add_le_add_left hsignificand _

/-- What is less than a power of two is not rounded beyond the magnitude of that power. -/
theorem magnitude_le (hn : 0 < n) (hd : 0 < d) {k : ℤ} (hk : -1021 ≤ k)
    (h : (n : ℚ) / d < 2 ^ k) : magnitude n d ≤ (k + 1023).toNat * leastNormal := by
  have hpos := div_pos_of_pos hn hd
  have hlog := h
  rw [lt_two_zpow_iff hpos, ← log2Div_eq_log hn hd] at hlog
  have hgrid : gridExponent n d + 53 ≤ k := by
    simp only [gridExponent]
    omega
  -- the quotient is less than `2 ^ 53` steps of the grid
  have hquotient : n * 2 ^ (-gridExponent n d).toNat / (d * 2 ^ (gridExponent n d).toNat) <
      2 * leastNormal := by
    have hlt : (n : ℚ) / d < 2 ^ (53 + gridExponent n d) := by
      rw [lt_two_zpow_iff hpos, ← log2Div_eq_log hn hd]
      have hle : log2Div n d - 52 ≤ gridExponent n d := le_max_left _ _
      omega
    have hz : (2 : ℚ) ^ gridExponent n d = ((2 ^ (gridExponent n d).toNat : ℕ) : ℚ) /
        ((2 ^ (-gridExponent n d).toNat : ℕ) : ℚ) := by
      exact_mod_cast zpow_eq_div (b := 2) (by decide) (gridExponent n d)
    have hd' : (0 : ℚ) < d := by exact_mod_cast hd
    rw [zpow_add₀ two_ne_zero, hz, ← mul_div_assoc, div_lt_div_iff₀ hd' (by positivity)] at hlt
    rw [Nat.div_lt_iff_lt_mul (Nat.mul_pos hd (Nat.pow_pos (by decide))), Nat.mul_comm d,
      ← Nat.mul_assoc]
    exact_mod_cast hlt
  have hround := (roundDiv_le (n * 2 ^ (-gridExponent n d).toNat)
    (d * 2 ^ (gridExponent n d).toNat)).trans hquotient
  have hmul : (gridExponent n d + 1074).toNat * leastNormal ≤ (k + 1021).toNat * leastNormal :=
    Nat.mul_le_mul_right _ (by omega)
  have hnext : (k + 1023).toNat = (k + 1021).toNat + 2 := by omega
  rw [magnitude_eq hn, hnext, Nat.add_mul]
  exact (min_le_left _ _).trans (Nat.add_le_add hmul hround)

theorem magnitude_zero (d : Nat) : magnitude 0 d = 0 := if_pos rfl

/-- Infinity is the greatest magnitude. -/
theorem magnitude_le_infinite (n d : Nat) : magnitude n d ≤ infinite := by
  rcases Nat.eq_zero_or_pos n with rfl | hn
  · rw [magnitude_zero]
    exact Nat.zero_le _
  · rw [magnitude_eq hn]
    exact min_le_right _ _

/-- What is rounded to infinity: everything from half of a step below the number that would come
next after the finite ones. -/
theorem magnitude_eq_infinite_iff (hd : 0 < d) :
    magnitude n d = infinite ↔ (2 : ℚ) ^ (1024 : ℤ) - 2 ^ (970 : ℤ) ≤ (n : ℚ) / d := by
  rcases Nat.eq_zero_or_pos n with rfl | hn
  · have hpower : (2 : ℚ) ^ (970 : ℤ) < 2 ^ (1024 : ℤ) :=
      zpow_lt_zpow_right₀ (by norm_num) (by norm_num)
    rw [magnitude_zero, Nat.cast_zero, zero_div]
    exact iff_of_false (by decide) (not_le.2 (sub_pos.2 hpower))
  have hpos := div_pos_of_pos hn hd
  have hlog : ∀ k : ℤ, (2 : ℚ) ^ k ≤ (n : ℚ) / d ↔ k ≤ log2Div n d := by
    intro k
    rw [two_zpow_le_iff hpos, log2Div_eq_log hn hd]
  rcases lt_trichotomy (log2Div n d) 1023 with hless | hlast | hmore
  · have hlt : (n : ℚ) / d < 2 ^ (1023 : ℤ) := by
      rw [← not_le, hlog]
      omega
    refine iff_of_false (ne_of_lt ?_) (not_le.2 (hlt.trans_le ?_))
    · refine (magnitude_le hn hd (by decide) hlt).trans_lt ?_
      exact Nat.mul_lt_mul_of_pos_right (by decide) (by decide)
    · have hsmall : (2 : ℚ) ^ (970 : ℤ) ≤ 2 ^ (1023 : ℤ) :=
        zpow_le_zpow_right₀ (by norm_num) (by norm_num)
      have hdouble : (2 : ℚ) ^ (1023 : ℤ) + 2 ^ (1023 : ℤ) = 2 ^ (1024 : ℤ) := by
        rw [← two_mul, ← zpow_one_add₀ two_ne_zero]
        rfl
      rw [le_sub_iff_add_le, ← hdouble]
      exact add_le_add_right hsmall _
  · -- of the greatest exponent, the significand would have to be rounded up to `2 ^ 53`
    have hexponent : gridExponent n d = 971 := by
      simp only [gridExponent]
      omega
    have hinfinite : infinite = (971 + 1074 : ℤ).toNat * leastNormal + 2 * leastNormal := by
      decide
    have hscaled : (2 * 2 ^ (52 : ℤ) - 1 / 2 : ℚ) * 2 ^ (971 : ℤ) =
        2 ^ (1024 : ℤ) - 2 ^ (970 : ℤ) := by
      have hstep : (2 : ℚ) ^ (971 : ℤ) = 2 * 2 ^ (970 : ℤ) := (zpow_one_add₀ two_ne_zero 970)
      have hpower : (2 : ℚ) ^ (1024 : ℤ) = 2 * 2 ^ (52 : ℤ) * 2 ^ (971 : ℤ) := by
        rw [← zpow_one_add₀ two_ne_zero, ← zpow_add₀ two_ne_zero]
        rfl
      rw [hpower, sub_mul, hstep]
      ring
    rw [magnitude_eq hn, min_eq_right_iff, hexponent, hinfinite, Nat.add_le_add_iff_left,
      le_roundDiv_iff_of_even (Nat.mul_pos hd (Nat.pow_pos (by decide))) (by decide),
      div_on_grid, Nat.cast_mul, leastNormal_cast, le_div_iff₀ (by positivity), Nat.cast_ofNat,
      hscaled]
  · have hle : (2 : ℚ) ^ (1024 : ℤ) ≤ (n : ℚ) / d := (hlog _).2 hmore
    refine iff_of_true (le_antisymm (magnitude_le_infinite n d) ?_) ?_
    · have hmagnitude := le_magnitude hn hd (by decide) hle
      have hinfinite : (1024 + 1023 : ℤ).toNat * leastNormal = infinite := rfl
      rwa [hinfinite, min_self] at hmagnitude
    · exact (sub_le_self _ (by positivity)).trans hle

/-- What is rounded to zero: up to half of the least double. -/
theorem magnitude_eq_zero_iff (hd : 0 < d) :
    magnitude n d = 0 ↔ (n : ℚ) / d ≤ 2 ^ (-1075 : ℤ) := by
  rcases Nat.eq_zero_or_pos n with rfl | hn
  · rw [magnitude_zero, Nat.cast_zero, zero_div]
    exact iff_of_true rfl (by positivity)
  have hpos := div_pos_of_pos hn hd
  have hzero : magnitude n d = 0 ↔ (gridExponent n d + 1074).toNat * leastNormal +
      roundDiv (n * 2 ^ (-gridExponent n d).toNat) (d * 2 ^ (gridExponent n d).toNat) = 0 := by
    have hinfinite : 0 < infinite := by decide
    rw [magnitude_eq hn]
    omega
  rw [hzero]
  by_cases hleast : gridExponent n d = -1074
  · have hone : ∀ k : Nat, (-1074 + 1074 : ℤ).toNat * leastNormal + k = 0 ↔ ¬ 1 ≤ k := by
      intro k
      rw [neg_add_cancel, Int.toNat_zero, Nat.zero_mul]
      omega
    have hscaled : (2 : ℚ) ^ (-1075 : ℤ) = (1 - 1 / 2) * 2 ^ (-1074 : ℤ) := by
      have hstep : (2 : ℚ) ^ (-1074 : ℤ) = 2 * 2 ^ (-1075 : ℤ) := zpow_one_add₀ two_ne_zero (-1075)
      rw [hstep]
      ring
    rw [hleast, hone, le_roundDiv_iff_of_odd (Nat.mul_pos hd (Nat.pow_pos (by decide))) rfl,
      div_on_grid, not_lt, div_le_iff₀ (by positivity), Nat.cast_one, hscaled]
  · -- beyond the numbers that have the least exponent nothing is rounded to zero
    have hge : -1074 ≤ gridExponent n d := le_max_right _ _
    have hlog : -1021 ≤ log2Div n d := by
      simp only [gridExponent] at hleast
      omega
    rw [log2Div_eq_log hn hd, ← two_zpow_le_iff hpos] at hlog
    refine iff_of_false (Nat.ne_of_gt (Nat.add_pos_left ?_ _)) (not_le.2 (lt_of_lt_of_le ?_ hlog))
    · exact Nat.mul_pos (by omega) (by decide)
    · exact zpow_lt_zpow_right₀ (by norm_num) (by norm_num)

/-! ### Exact values -/

variable {m : Nat}

/-- A significand has 53 bits. -/
theorem significand_lt (m : Nat) : significand m < 2 ^ 53 := by
  simp only [significand, biased, leastNormal]
  omega

theorem significand_pos (hm : 0 < m) : 0 < significand m := by
  simp only [significand, biased, leastNormal]
  omega

theorem exponent_ge (m : Nat) : -1074 ≤ exponent m := by
  simp only [exponent, biased]
  omega

/-- Above the least exponent its first bit is set. -/
theorem le_significand (h : exponent m ≠ -1074) : 2 ^ 52 ≤ significand m := by
  simp only [exponent, significand, biased, leastNormal] at *
  omega

/-- A magnitude is put together again from its exponent and its significand. -/
theorem biased_add_significand (m : Nat) :
    (exponent m + 1074).toNat * leastNormal + significand m = m := by
  simp only [exponent, significand, biased, leastNormal]
  omega

/-- The doubles around a double have its exponent. -/
theorem gridExponent_exact (hm : 0 < m) :
    gridExponent (scaled (significand m) 2 (exponent m)).1
      (scaled (significand m) 2 (exponent m)).2 = exponent m := by
  have hs := significand_pos hm
  have hn : 0 < (scaled (significand m) 2 (exponent m)).1 :=
    Nat.mul_pos hs (Nat.pow_pos (by decide))
  have hpos : (0 : ℚ) < significand m * 2 ^ exponent m := by positivity
  have hdiv : ((scaled (significand m) 2 (exponent m)).1 : ℚ) /
      (scaled (significand m) 2 (exponent m)).2 = significand m * 2 ^ exponent m := by
    exact_mod_cast div_scaled (b := 2) (by decide) (significand m) (exponent m)
  rw [gridExponent, log2Div_eq_log hn (scaled_snd_pos (by decide) _ _), hdiv]
  have hhigh : Int.log 2 ((significand m : ℚ) * 2 ^ exponent m) < 53 + exponent m := by
    have hlt : (significand m : ℚ) < 2 ^ (53 : ℤ) := by exact_mod_cast significand_lt m
    rw [← lt_two_zpow_iff hpos, zpow_add₀ two_ne_zero]
    gcongr
  have hge := exponent_ge m
  -- below the normal numbers the exponent is the least one, whatever the logarithm
  by_cases hsub : exponent m = -1074
  · omega
  · have hlow : 52 + exponent m ≤ Int.log 2 ((significand m : ℚ) * 2 ^ exponent m) := by
      have hle : (2 : ℚ) ^ (52 : ℤ) ≤ significand m := by exact_mod_cast le_significand hsub
      rw [← two_zpow_le_iff hpos, zpow_add₀ two_ne_zero]
      gcongr
    omega

/-- A finite double is what its exact value is rounded to. -/
theorem magnitude_exact (hm : 0 < m) (hfin : m < infinite) :
    magnitude (scaled (significand m) 2 (exponent m)).1
      (scaled (significand m) 2 (exponent m)).2 = m := by
  have hn : 0 < (scaled (significand m) 2 (exponent m)).1 :=
    Nat.mul_pos (significand_pos hm) (Nat.pow_pos (by decide))
  have hround : roundDiv
      ((scaled (significand m) 2 (exponent m)).1 * 2 ^ (-exponent m).toNat)
      ((scaled (significand m) 2 (exponent m)).2 * 2 ^ (exponent m).toNat) =
        significand m := by
    simp only [scaled, Nat.pow_eq]
    rw [Nat.mul_assoc, Nat.mul_comm (2 ^ (-exponent m).toNat)]
    exact roundDiv_mul_self (by positivity) _
  rw [magnitude_eq hn, gridExponent_exact hm, hround, biased_add_significand,
    min_eq_left hfin.le]

/-! ### Decimal numbers -/

/-- The fraction that stands for a decimal number. -/
theorem div_scaled_ten (c : Nat) (e : ℤ) :
    ((scaled c 10 e).1 : ℚ) / (scaled c 10 e).2 = c * 10 ^ e := by
  exact_mod_cast div_scaled (b := 10) (by decide) c e

/-- A decimal is rounded like the fraction that it is. -/
theorem decimalMagnitude_eq {c : Nat} {e : ℤ} (hd : 0 < d)
    (h : (c : ℚ) * 10 ^ e = (n : ℚ) / d) : decimalMagnitude c e = magnitude n d :=
  magnitude_eq_of_div_eq (scaled_snd_pos (by decide) c e) hd ((div_scaled_ten c e).trans h)

/-- How a decimal number is written does not matter for the double that it reads as. -/
theorem decimalMagnitude_congr {c c' : Nat} {e e' : ℤ}
    (h : (c : ℚ) * 10 ^ e = (c' : ℚ) * 10 ^ e') :
    decimalMagnitude c e = decimalMagnitude c' e' :=
  decimalMagnitude_eq (scaled_snd_pos (by decide) c' e') (h.trans (div_scaled_ten c' e').symm)

theorem decimalMagnitude_le_infinite (c : Nat) (e : ℤ) : decimalMagnitude c e ≤ infinite :=
  magnitude_le_infinite _ _

/-- Which decimal numbers are beyond the doubles. -/
theorem decimalMagnitude_eq_infinite_iff (c : Nat) (e : ℤ) :
    decimalMagnitude c e = infinite ↔
      (2 : ℚ) ^ (1024 : ℤ) - 2 ^ (970 : ℤ) ≤ (c : ℚ) * 10 ^ e := by
  rw [← div_scaled_ten, ← magnitude_eq_infinite_iff (scaled_snd_pos (by decide) c e)]
  rfl

/-- Which decimal numbers are too close to zero. -/
theorem decimalMagnitude_eq_zero_iff (c : Nat) (e : ℤ) :
    decimalMagnitude c e = 0 ↔ (c : ℚ) * 10 ^ e ≤ 2 ^ (-1075 : ℤ) := by
  rw [← div_scaled_ten, ← magnitude_eq_zero_iff (scaled_snd_pos (by decide) c e)]
  rfl

/-- Powers of two are decimals. -/
theorem exactDecimal_eq (m : Nat) :
    ((exactDecimal m).1 : ℚ) * 10 ^ (exactDecimal m).2 = significand m * 2 ^ exponent m := by
  simp only [exactDecimal, Nat.pow_eq]
  split
  · next h =>
      have he : ((exponent m).toNat : ℤ) = exponent m := Int.toNat_of_nonneg h
      rw [Nat.cast_mul, Nat.cast_pow, ← zpow_natCast, he]
      simp
  · next h =>
      have he : ((-exponent m).toNat : ℤ) = -exponent m := Int.toNat_of_nonneg (by omega)
      have hten : (10 : ℚ) = 5 * 2 := by norm_num
      rw [Nat.cast_mul, Nat.cast_pow, ← zpow_natCast, he, hten, mul_zpow, Nat.cast_ofNat,
        mul_assoc, ← mul_assoc (5 ^ _), ← zpow_add₀ (by norm_num), neg_add_cancel, zpow_zero,
        one_mul]

/-- A magnitude is read back from its exact decimal. -/
theorem decimalMagnitude_exactDecimal (hm : 0 < m) (hfin : m < infinite) :
    decimalMagnitude (exactDecimal m).1 (exactDecimal m).2 = m := by
  refine Eq.trans (decimalMagnitude_eq (scaled_snd_pos (b := 2) (by decide) _ _) ?_)
    (magnitude_exact hm hfin)
  rw [div_scaled (by decide), exactDecimal_eq, Nat.cast_ofNat]

/-- What is taken from a decimal grid reads back, because that is what is tried. -/
theorem decimalMagnitude_of_onGrid? {e : ℤ} {x : Nat × ℤ} (h : onGrid? m e = some x) :
    decimalMagnitude x.1 x.2 = m := by
  simp only [onGrid?] at h
  split at h
  · next both =>
      split at h
      · rw [← Option.some.inj h]
        exact both.1
      · rw [← Option.some.inj h]
        exact both.2
  · split at h
    · next low =>
        rw [← Option.some.inj h]
        exact low
    · split at h
      · next high =>
          rw [← Option.some.inj h]
          exact high
      · cases h

/-- The decimal number that is chosen for a magnitude reads back as the magnitude. -/
theorem decimalMagnitude_shortest (hm : 0 < m) (hfin : m < infinite) :
    decimalMagnitude (shortest m).1 (shortest m).2 = m := by
  simp only [shortest]
  generalize (List.range 17).map _ = grids
  cases h : grids.findSome? (onGrid? m) with
  | none => exact decimalMagnitude_exactDecimal hm hfin
  | some x =>
      obtain ⟨e, -, he⟩ := List.exists_of_findSome?_eq_some h
      exact decimalMagnitude_of_onGrid? he

end Double

end LineScript
