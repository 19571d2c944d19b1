import LoxLang.Decimal.Layout
import LoxLang.Proofs.Decimal.Rounding

/-!
# The fewest digits lie in the rounding interval

A candidate is taken only if it lies in the interval, which is checked on whole numbers.  On the
grid of 17 digits a step is less than the gap between two doubles, so the nearer neighbour of the
value is always taken there, if no grid before it had one.
-/

namespace LoxLang.Decimal

variable {m d n : ℕ} {e k x leading : ℤ} {i : Interval} {tie : Tie}

/-- The rational that `digits` and an `exponent` stand for. -/
def Scaled.value (s : Scaled) : ℚ := s.digits * 10 ^ s.exponent

/-! ## Grids -/

/-- A quarter of length `2 ^ k`, scaled to a whole number along with the grid. -/
def quarterAt (k x : ℤ) : ℕ := Nat.pow 2 k.toNat * Nat.pow 10 (-x).toNat

/-- A step `10 ^ x` of a grid, scaled to a whole number along with a quarter. -/
def gridAt (k x : ℤ) : ℕ := Nat.pow 2 (-k).toNat * Nat.pow 10 x.toNat

lemma pow_toNat {b : ℚ} (hb : b ≠ 0) (k : ℤ) : b ^ k.toNat = b ^ k * b ^ (-k).toNat := by
  rw [← zpow_natCast, ← zpow_natCast, ← zpow_add₀ hb]
  congr 1
  omega

/-- A quarter and a step are scaled by the same number `c`. -/
lemma exists_scale (k x : ℤ) :
    ∃ c : ℚ, 0 < c ∧ (quarterAt k x : ℚ) = 2 ^ k * c ∧ (gridAt k x : ℚ) = 10 ^ x * c := by
  refine ⟨2 ^ (-k).toNat * 10 ^ (-x).toNat, by positivity, ?_, ?_⟩
  · rw [quarterAt, Nat.pow_eq, Nat.pow_eq]
    push_cast
    rw [pow_toNat two_ne_zero k]
    ring
  · rw [gridAt, Nat.pow_eq, Nat.pow_eq]
    push_cast
    rw [pow_toNat (by norm_num : (10 : ℚ) ≠ 0) x]
    ring

lemma mul_quarterAt_le_iff : n * quarterAt k x ≤ d * gridAt k x ↔ (n * 2 ^ k : ℚ) ≤ d * 10 ^ x := by
  obtain ⟨c, hc, hquarter, hgrid⟩ := exists_scale k x
  rw [← Nat.cast_le (α := ℚ)]
  push_cast
  rw [hquarter, hgrid, ← mul_assoc, ← mul_assoc, mul_le_mul_iff_left₀ hc]

lemma mul_gridAt_le_iff : d * gridAt k x ≤ n * quarterAt k x ↔ (d * 10 ^ x : ℚ) ≤ n * 2 ^ k := by
  obtain ⟨c, hc, hquarter, hgrid⟩ := exists_scale k x
  rw [← Nat.cast_le (α := ℚ)]
  push_cast
  rw [hquarter, hgrid, ← mul_assoc, ← mul_assoc, mul_le_mul_iff_left₀ hc]

/-- The test `holds` on whole numbers decides whether a decimal lies in the interval. -/
lemma holds_iff : i.holds (quarterAt k x) (gridAt k x) d = true ↔
    i.Contains (2 ^ k) (d * 10 ^ x) := by
  unfold Interval.holds Interval.Contains
  split_ifs
  · rw [Bool.and_eq_true, decide_eq_true_iff, decide_eq_true_iff, mul_quarterAt_le_iff,
      mul_gridAt_le_iff]
  · rw [Bool.and_eq_true, decide_eq_true_iff, decide_eq_true_iff, ← not_le, ← not_le,
      mul_quarterAt_le_iff, mul_gridAt_le_iff, not_le, not_le]

/-! ## Candidates -/

lemma holds_of_pick? {quarter grid : ℕ} (h : i.pick? tie quarter grid = some d) :
    i.holds quarter grid d = true := by
  unfold Interval.pick? at h
  dsimp only at h
  split at h
  · rename_i hbelow habove
    have hbelow := (Bool.and_eq_true_iff.mp hbelow).1
    obtain rfl := Option.some.inj h
    split_ifs <;> assumption
  · rename_i hbelow _
    obtain rfl := Option.some.inj h
    exact (Bool.and_eq_true_iff.mp hbelow).1
  · rename_i _ habove
    obtain rfl := Option.some.inj h
    exact habove
  · exact absurd h (by simp)

lemma pick?_isSome {quarter grid : ℕ}
    (h : i.holds quarter grid (i.value * quarter / grid) = true ∧ 0 < i.value * quarter / grid ∨
      i.holds quarter grid (i.value * quarter / grid + 1) = true) :
    (i.pick? tie quarter grid).isSome := by
  unfold Interval.pick?
  dsimp only
  split
  · rfl
  · rfl
  · rfl
  · rename_i hbelow habove
    rcases h with ⟨hholds, hpos⟩ | hholds
    · simp [hholds, hpos] at hbelow
    · simp [hholds] at habove

section

variable {width grids w : ℕ}

lemma shortestFrom_of_none
    (h : i.pick? tie (quarterAt k (leading + 1 - width)) (gridAt k (leading + 1 - width)) = none) :
    shortestFrom tie i k leading width (grids + 1) =
      shortestFrom tie i k leading (width + 1) grids := by
  simp only [quarterAt, gridAt] at h
  rw [shortestFrom]
  simp only [h]

/-- The candidate of `pick?` is the value that is found, also where it is written with one digit. -/
lemma value_shortestFrom_of_some
    (h : i.pick? tie (quarterAt k (leading + 1 - width)) (gridAt k (leading + 1 - width)) =
      some d) :
    (shortestFrom tie i k leading width (grids + 1)).value = d * 10 ^ (leading + 1 - width) := by
  simp only [quarterAt, gridAt] at h
  rw [shortestFrom]
  simp only [h]
  split_ifs with hround
  · rw [hround, Nat.pow_eq, Scaled.value, zpow_add₀ (by norm_num), zpow_natCast,
      mul_comm (10 ^ _ : ℚ)]
    push_cast
    ring
  · rfl

/-- If one of the grids, that of `w` digits, has a candidate, then the digits found lie in the
interval. -/
lemma shortestFrom_contains (hw : width ≤ w) (hlt : w < width + grids)
    (h : (i.pick? tie (quarterAt k (leading + 1 - w)) (gridAt k (leading + 1 - w))).isSome) :
    i.Contains (2 ^ k) (shortestFrom tie i k leading width grids).value := by
  induction grids generalizing width with
  | zero => omega
  | succ grids ih =>
    cases hpick : i.pick? tie (quarterAt k (leading + 1 - width))
      (gridAt k (leading + 1 - width)) with
    | some digits =>
      rw [value_shortestFrom_of_some hpick]
      exact holds_iff.mp (holds_of_pick? hpick)
    | none =>
      -- The grid that has a candidate is a later one.
      have hne : width ≠ w := by
        rintro rfl
        simp [hpick] at h
      rw [shortestFrom_of_none hpick]
      exact ih (by omega) (by omega)

end

/-! ## Seventeen digits -/

lemma pow_digitCount_le (h : 0 < n) : 10 ^ (digitCount n - 1) ≤ n := by
  rw [digitCount, if_neg h.ne']
  rcases Nat.eq_zero_or_pos ((Nat.toDigits 10 n).length - 1) with hzero | hpos
  · rwa [hzero, pow_zero]
  · by_contra hlt
    have := (Nat.length_toDigits_le_iff (b := 10) (by decide) hpos).mpr (Nat.lt_of_not_le hlt)
    omega

lemma digitCount_pos (h : 0 < n) : 0 < digitCount n := by
  rw [digitCount, if_neg h.ne']
  exact Nat.length_toDigits_pos

lemma lt_pow_digitCount (h : 0 < n) : n < 10 ^ digitCount n := by
  have hpos := digitCount_pos h
  rw [digitCount, if_neg h.ne'] at hpos ⊢
  exact (Nat.length_toDigits_le_iff (by decide) hpos).mp le_rfl

/-- A fraction is not less than the power of ten of its `leadingExponent`. -/
lemma pow_leadingExponent_le (hn : 0 < n) (hd : 0 < d) :
    (10 : ℚ) ^ leadingExponent n d * d ≤ n := by
  unfold leadingExponent
  split_ifs with hle
  · have hquotient : 0 < n / d := Nat.div_pos hle hd
    have hpos := digitCount_pos hquotient
    obtain ⟨k, hk⟩ : ∃ k, digitCount (n / d) = k + 1 := ⟨digitCount (n / d) - 1, by omega⟩
    have hpow := pow_digitCount_le hquotient
    rw [hk, Nat.add_sub_cancel] at hpow
    have hmul : 10 ^ k * d ≤ n := (Nat.mul_le_mul_right d hpow).trans (Nat.div_mul_le_self n d)
    rw [hk, Nat.cast_succ, add_sub_cancel_right, zpow_natCast]
    exact_mod_cast hmul
  · -- Below one, the digits of the inverse are counted, rounded so that no exact power is missed.
    have hquotient : 0 < (d - 1) / n := Nat.div_pos (by omega) hn
    have hlt : d - 1 < 10 ^ digitCount ((d - 1) / n) * n :=
      (Nat.div_lt_iff_lt_mul hn).mp (lt_pow_digitCount hquotient)
    have hle : d ≤ 10 ^ digitCount ((d - 1) / n) * n := by omega
    rw [zpow_neg, zpow_natCast, inv_mul_le_iff₀ (by positivity)]
    exact_mod_cast hle

section

variable {unit step : ℚ} (hc : Canonical m e) (hpos : 0 < m) (hunit : 0 < unit)
  (hvalue : 10 ^ 16 * step ≤ 4 * m * unit)

include hc hunit hvalue

/-- A `step` of 17 digits is less than the gap between two doubles. -/
lemma step_lt_gap : step < 4 * unit := by
  have hlt : (m : ℚ) < 2 ^ 53 := by exact_mod_cast hc.lt
  have hmul : (m : ℚ) * unit < 2 ^ 53 * unit := mul_lt_mul_of_pos_right hlt hunit
  linarith

include hpos

/-- Half a `step` of 17 digits below a double one is still in its interval, also just above a power
of two. -/
lemma low_lt_half_step : (interval m e).low * unit < 4 * m * unit - step / 2 := by
  have hgap := step_lt_gap hc hunit hvalue
  simp only [interval, Nat.pow_eq]
  split_ifs with hpower
  · have hm : (m : ℚ) = 2 ^ 52 := by exact_mod_cast hpower.1
    rw [hm] at hvalue
    rw [Nat.cast_sub (by omega)]
    push_cast
    rw [hm]
    linarith
  · rw [Nat.cast_sub (by omega)]
    push_cast
    linarith

/-- The nearer one of a double's two neighbours on the grid of 17 digits, `below` and the one after
it, lies in its interval. -/
lemma contains_neighbour {below : ℕ} (hstep : 0 < step) (hle : below * step ≤ 4 * m * unit)
    (hlt : 4 * m * unit < (below + 1) * step) :
    (interval m e).Contains unit (below * step) ∧ 0 < below ∨
    (interval m e).Contains unit ((below + 1) * step) := by
  have hgap := step_lt_gap hc hunit hvalue
  have hlow := low_lt_half_step hc hpos hunit hvalue
  have hhigh : ((interval m e).high : ℚ) * unit = 4 * m * unit + 2 * unit := by
    simp only [interval]
    push_cast
    ring
  rcases le_or_gt (4 * m * unit - below * step) (step / 2) with hnear | hfar
  · refine .inl ⟨.of_lt (by linarith) (by linarith), Nat.pos_of_ne_zero ?_⟩
    rintro rfl
    rw [Nat.cast_zero] at hlt
    linarith
  · exact .inr (.of_lt (by linarith) (by linarith))

end

/-- On the grid of 17 digits `pick?` finds a candidate. -/
lemma pick?_seventeen (hc : Canonical m e) (hpos : 0 < m)
    (hleading : (10 : ℚ) ^ leading ≤ m * 2 ^ e) :
    ((interval m e).pick? tie (quarterAt (e - 2) (leading + 1 - 17))
      (gridAt (e - 2) (leading + 1 - 17))).isSome := by
  obtain ⟨x, rfl⟩ : ∃ x, leading = x + 16 := ⟨leading - 16, by ring⟩
  rw [show x + 16 + 1 - 17 = x by ring]
  have hvalue : (10 : ℚ) ^ 16 * 10 ^ x ≤ 4 * m * 2 ^ (e - 2) := by
    calc (10 : ℚ) ^ 16 * 10 ^ x = 10 ^ (x + 16) := by
          rw [zpow_add₀ (by norm_num), mul_comm]
          norm_cast
      _ ≤ m * 2 ^ e := hleading
      _ = 4 * m * 2 ^ (e - 2) := mul_two_zpow m e
  have hgrid : 0 < gridAt (e - 2) x := by
    simp only [gridAt, Nat.pow_eq]
    positivity
  have hle := mul_gridAt_le_iff.mp (Nat.div_mul_le_self ((interval m e).value * quarterAt (e - 2) x)
    (gridAt (e - 2) x))
  have hlt := Nat.lt_div_mul_add (a := (interval m e).value * quarterAt (e - 2) x) hgrid
  refine pick?_isSome ?_
  -- The value lies between `below` and the next point of the grid.
  generalize (interval m e).value * quarterAt (e - 2) x / gridAt (e - 2) x = below at hle hlt ⊢
  rw [← Nat.succ_mul, ← not_le, mul_gridAt_le_iff, not_le] at hlt
  have hbelow : (below * 10 ^ x : ℚ) ≤ 4 * m * 2 ^ (e - 2) := by simpa [interval] using hle
  have habove : (4 * m * 2 ^ (e - 2) : ℚ) < (below + 1) * 10 ^ x := by simpa [interval] using hlt
  have hneighbour := contains_neighbour hc hpos (by positivity) hvalue (by positivity) hbelow habove
  rw [holds_iff, holds_iff]
  push_cast
  exact hneighbour

/-- The `shortest` digits round to the double. -/
lemma roundsTo_shortest (hc : Canonical m e) (hpos : 0 < m) :
    RoundsTo (shortest tie m e).value m e := by
  refine shortestFrom_contains (w := 17) (by decide) (by decide) (pick?_seventeen hc hpos ?_)
  simp only [Nat.pow_eq]
  have hnumerator : 0 < m * 2 ^ e.toNat := by positivity
  have hdenominator : (0 : ℚ) < (2 ^ (-e).toNat : ℕ) := by positivity
  have hle := pow_leadingExponent_le hnumerator (by positivity : 0 < 2 ^ (-e).toNat)
  have hsplit : ((m * 2 ^ e.toNat : ℕ) : ℚ) = m * 2 ^ e * (2 ^ (-e).toNat : ℕ) := by
    push_cast
    rw [pow_toNat two_ne_zero e]
    ring
  rw [hsplit] at hle
  exact le_of_mul_le_mul_right hle hdenominator

lemma roundsTo_magnitudeDigits (hc : Canonical m e) :
    RoundsTo (magnitudeDigits tie m e).value m e := by
  unfold magnitudeDigits
  split_ifs with hzero
  · have hself := roundsTo_self m e
    rw [hzero, Nat.cast_zero, zero_mul] at hself
    rw [hzero]
    simpa [Scaled.value] using hself
  · exact roundsTo_shortest hc (Nat.pos_of_ne_zero hzero)

end LoxLang.Decimal
