import LoxLang.Proofs.Decimal.Packing

/-!
# Rounding in arithmetic

A product or a quotient of doubles is computed exactly, as a mantissa with two bits for what is cut
off behind it, and is then shifted and rounded to 53 bits.  The result is the double that the exact
value rounds to, as if exponents had no upper limit.
-/

namespace LoxLang.Decimal

open Float.Model Float.Model.UnpackedFloat

variable {m M : ℕ} {e E : ℤ} {q t : ℚ} {acc : Accuracy} {em : ExtendedMantissa}

/-! ## What is cut off -/

/-- A mantissa, and two bits for what is cut off behind it: `roundBit` says whether it is at least a
half, and `stickyBit` whether it is anything but nothing or a half. -/
structure Approximates (em : ExtendedMantissa) (t : ℚ) : Prop where
  le : em.mantissa ≤ t
  lt : t < em.mantissa + 1
  round : em.roundBit = true ↔ 2 * em.mantissa + 1 ≤ 2 * t
  sticky : em.stickyBit = true ↔ t ≠ em.mantissa ∧ 2 * t ≠ 2 * em.mantissa + 1

lemma approximates_exact (M : ℕ) : Approximates (.ofMantissaAndAccuracy M .exact) M where
  le := le_rfl
  lt := lt_add_one _
  round := by simp [ExtendedMantissa.ofMantissaAndAccuracy]
  sticky := by simp [ExtendedMantissa.ofMantissaAndAccuracy]

lemma approximates_fraction (n : ℕ) {d : ℕ} (hd : 0 < d) :
    Approximates (.ofMantissaAndAccuracy (n / d) (accuracyOfFraction (n % d) d)) (n / d) := by
  have hsplit : (n : ℚ) = d * (n / d : ℕ) + (n % d : ℕ) := by
    exact_mod_cast (Nat.div_add_mod n d).symm
  have hlt : n % d < d := Nat.mod_lt n hd
  rw [hsplit]
  generalize n / d = k, n % d = r at hlt ⊢
  have hd : (0 : ℚ) < d := by exact_mod_cast hd
  -- From here on only the fraction `r / d` is compared, with nothing and with a half.
  have hvalue : ((d * k + r) / d : ℚ) = k + r / d := by field_simp
  have hltq : (r / d : ℚ) < 1 := by
    rw [div_lt_one hd]
    exact_mod_cast hlt
  have hnonneg : (0 : ℚ) ≤ r / d := by positivity
  have hzero : (r / d : ℚ) = 0 ↔ r = 0 := by
    rw [div_eq_zero_iff, or_iff_left hd.ne', Nat.cast_eq_zero]
  have hhalf : (1 : ℚ) ≤ 2 * (r / d) ↔ d ≤ 2 * r := by
    rw [mul_div_assoc', one_le_div hd]
    norm_cast
  have hmiddle : (1 : ℚ) = 2 * (r / d) ↔ d = 2 * r := by
    rw [mul_div_assoc', eq_div_iff hd.ne', one_mul]
    norm_cast
  rw [hvalue, accuracyOfFraction]
  generalize (r / d : ℚ) = f at hltq hnonneg hzero hhalf hmiddle
  split_ifs with hr
  · constructor <;> simp only [ExtendedMantissa.ofMantissaAndAccuracy] <;> grind
  · cases hcompare : compare (2 * r) d <;>
    simp only [Nat.compare_eq_lt, Nat.compare_eq_eq, Nat.compare_eq_gt] at hcompare <;>
      constructor <;> simp only [ExtendedMantissa.ofMantissaAndAccuracy] <;> grind

namespace Approximates

lemma shiftRightOne (h : Approximates em t) : Approximates em.shiftRightOne (t / 2) := by
  obtain ⟨M, round, sticky⟩ := em
  obtain ⟨hle, hlt, hround, hsticky⟩ := h
  -- The bit that is shifted out becomes the new round bit, and the old one joins the sticky bit.
  obtain ⟨k, rfl | rfl⟩ := Nat.even_or_odd' M
  · have hshift : ExtendedMantissa.shiftRightOne ⟨2 * k, round, sticky⟩ =
        ⟨k, false, round || sticky⟩ := by
      simp [ExtendedMantissa.shiftRightOne]
    rw [hshift]
    push_cast at hle hlt hround hsticky
    constructor <;> grind
  · have hshift : ExtendedMantissa.shiftRightOne ⟨2 * k + 1, round, sticky⟩ =
        ⟨k, true, round || sticky⟩ := by
      simp [ExtendedMantissa.shiftRightOne]
      omega
    rw [hshift]
    push_cast at hle hlt hround hsticky
    constructor <;> grind

lemma shiftRight (h : Approximates em t) (n : ℕ) : Approximates (em >>> n) (t / 2 ^ n) := by
  change Approximates (n.repeat ExtendedMantissa.shiftRightOne em) _
  induction n with
  | zero => simpa [Nat.repeat] using h
  | succ n ih =>
    rw [Nat.repeat, pow_succ, ← div_div]
    exact ih.shiftRightOne

/-- The `roundedMantissa` is within a half of the value, and at a half it is even. -/
lemma rounded (h : Approximates em t) :
    2 * em.roundedMantissa - 1 ≤ 2 * t ∧ 2 * t ≤ 2 * em.roundedMantissa + 1 ∧
    (em.roundedMantissa % 2 = 1 → 2 * em.roundedMantissa - 1 < 2 * t ∧
      2 * t < 2 * em.roundedMantissa + 1) := by
  obtain ⟨M, round, sticky⟩ := em
  obtain ⟨hle, hlt, hround, hsticky⟩ := h
  cases round <;> cases sticky <;>
    simp only [ExtendedMantissa.accuracy, ExtendedMantissa.roundedMantissa,
      Accuracy.roundToNearestEven] at *
  · grind
  · grind
  · -- A half goes up from an odd mantissa only.
    have heven : (M + M % 2) % 2 ≠ 1 := by omega
    have hbit : ((M % 2 : ℕ) : ℚ) ≤ 1 := by exact_mod_cast Nat.lt_succ_iff.mp (Nat.mod_lt M two_pos)
    push_cast
    grind
  · push_cast
    grind

end Approximates

/-! ## Rounding -/

lemma targetExponent_eq (M : ℕ) (E : ℤ) :
    Format.binary64.targetExponent (totalExponent M E) = max (M.log2 + E - 52) (-1074) := by
  have hbits : (Format.binary64.mantissaBits : ℤ) = 53 := rfl
  have hmin : Format.binary64.minExponent = -1074 := rfl
  rw [Format.targetExponent, totalExponent, hbits, hmin]
  congr 1
  ring

/-- In quarters of the last bit, what lies between the ends of the `interval` of a double rounds to
the double. -/
lemma roundsTo_of_between (hlow : (interval m e).low ≤ t) (hhigh : t ≤ 4 * m + 2)
    (hodd : m % 2 = 1 → (interval m e).low < t ∧ t < 4 * m + 2) :
    RoundsTo (t * 2 ^ (e - 2)) m e := by
  have hunit : (0 : ℚ) < 2 ^ (e - 2) := by positivity
  have hend : ((interval m e).high : ℚ) = 4 * m + 2 := by simp [interval]
  unfold RoundsTo Interval.Contains
  rw [hend, mul_le_mul_iff_left₀ hunit, mul_le_mul_iff_left₀ hunit, mul_lt_mul_iff_left₀ hunit,
    mul_lt_mul_iff_left₀ hunit]
  split_ifs with hclosed
  · exact ⟨hlow, hhigh⟩
  · exact hodd (by simpa [interval] using hclosed)

/-- A mantissa `m` that is nearest to a rational `t`, in units of its last bit, is the one that the
rational rounds to.  Where the mantissa has a leading one, `hnormal` says that `t` is not below the
smallest such mantissa. -/
lemma roundsTo_of_nearest (hnonneg : 0 ≤ t) (hlow : 2 * m - 1 ≤ 2 * t) (hhigh : 2 * t ≤ 2 * m + 1)
    (hodd : m % 2 = 1 → 2 * m - 1 < 2 * t ∧ 2 * t < 2 * m + 1) (hnormal : e = -1074 ∨ 2 ^ 52 ≤ t) :
    RoundsTo (t * 2 ^ e) m e := by
  have hquarters : t * 2 ^ e = 4 * t * 2 ^ (e - 2) := by
    have hone := mul_two_zpow 1 e
    rw [Nat.cast_one, one_mul] at hone
    rw [hone]
    ring
  rw [hquarters]
  refine roundsTo_of_between ?_ (by linarith) ?_
  · simp only [interval, Nat.pow_eq]
    split_ifs with hpower
    · -- Below a power of two the interval is half as wide, but no rational lies there.
      have ht : 2 ^ 52 ≤ t := hnormal.resolve_left hpower.2.ne'
      rw [hpower.1]
      norm_num at ht ⊢
      linarith
    · rcases Nat.eq_zero_or_pos m with rfl | hpos
      · simpa using hnonneg
      · rw [Nat.cast_sub (by omega)]
        push_cast
        linarith
  · intro h
    have hlast : (interval m e).low = 4 * m - 2 := by
      simp only [interval, Nat.pow_eq]
      rw [if_neg (by omega)]
    rw [hlast, Nat.cast_sub (by omega)]
    push_cast
    obtain ⟨hlow, hhigh⟩ := hodd h
    constructor <;> linarith

/-- What is just below `2 ^ 53`, the smallest mantissa with one bit more, rounds to it at the next
exponent. -/
lemma roundsTo_of_carry (hle : -1074 ≤ e) (hlow : 2 ^ 54 - 1 ≤ 2 * t) (hlt : t < 2 ^ 53) :
    RoundsTo (t * 2 ^ e) (2 ^ 52) (e + 1) := by
  have hquarters : t * 2 ^ e = 2 * t * 2 ^ (e + 1 - 2) := by
    rw [show e + 1 - 2 = e - 1 by ring, zpow_sub_one₀ two_ne_zero]
    ring
  have hlast : (interval (2 ^ 52) (e + 1)).low = 2 ^ 54 - 1 := by
    simp only [interval, Nat.pow_eq]
    rw [if_pos ⟨trivial, by omega⟩]
    norm_num
  rw [hquarters]
  refine roundsTo_of_between ?_ ?_ fun h => absurd h (by norm_num)
  · rw [hlast]
    norm_num at hlow ⊢
    exact hlow
  · push_cast
    norm_num at hlt ⊢
    linarith

/-- A mantissa that fits into 53 bits stays as it is. -/
lemma shiftToTargetExponent_of_lt (hm : m < 2 ^ 53) (he : -1074 ≤ e) :
    shiftToTargetExponent Format.binary64 m e .exact = (⟨m, false, false⟩, e) := by
  have hlog : m.log2 ≤ 52 := by
    rcases Nat.eq_zero_or_pos m with rfl | hpos
    · decide
    · exact Nat.lt_succ_iff.mp ((Nat.log2_lt hpos.ne').mpr hm)
  have hshift : (max (m.log2 + e - 52) (-1074) - e).toNat = 0 := by omega
  rw [shiftToTargetExponent, targetExponent_eq, shiftToExponent, hshift]
  exact Prod.ext rfl (add_zero e)

/-- The mantissa `2 ^ 53`, which has one bit too many, is halved. -/
lemma shiftToTargetExponent_carry (he : -1074 ≤ e) :
    shiftToTargetExponent Format.binary64 (2 ^ 53) e .exact = (⟨2 ^ 52, false, false⟩, e + 1) := by
  have hshift : (max ((2 ^ 53 : ℕ).log2 + e - 52) (-1074) - e).toNat = 1 := by
    rw [Nat.log2_two_pow]
    omega
  rw [shiftToTargetExponent, targetExponent_eq, shiftToExponent, hshift]
  rfl

section

variable (hE : E ≤ max (M.log2 + E - 52) (-1074))
  (h : Approximates (.ofMantissaAndAccuracy M acc) (q / 2 ^ E))

include hE

lemma shiftToTargetExponent_snd :
    (shiftToTargetExponent Format.binary64 M E acc).2 = max (M.log2 + E - 52) (-1074) := by
  rw [shiftToTargetExponent, targetExponent_eq, shiftToExponent]
  dsimp only
  omega

include h

/-- The first shift goes on from a rational in units of `2 ^ E` to units of the target exponent. -/
lemma approximates_shiftToTargetExponent :
    Approximates (shiftToTargetExponent Format.binary64 M E acc).1
      (q / 2 ^ max (M.log2 + E - 52) (-1074)) := by
  rw [shiftToTargetExponent, targetExponent_eq, shiftToExponent]
  have hshift := h.shiftRight (max (M.log2 + E - 52) (-1074) - E).toNat
  have hpow : (2 : ℚ) ^ max (M.log2 + E - 52) (-1074) =
      2 ^ E * 2 ^ (max (M.log2 + E - 52) (-1074) - E).toNat := by
    rw [← zpow_natCast, ← zpow_add₀ two_ne_zero, Int.toNat_of_nonneg (by omega), add_sub_cancel]
  rwa [hpow, ← div_div]

omit hE in
lemma mantissa_le_and_lt : M ≤ q / 2 ^ E ∧ q / 2 ^ E < M + 1 := by
  have hmantissa : (ExtendedMantissa.ofMantissaAndAccuracy M acc).mantissa = M := by
    match acc with
    | .exact | .inexact .lt | .inexact .eq | .inexact .gt => rfl
  have hle := h.le
  have hlt := h.lt
  rw [hmantissa] at hle hlt
  exact ⟨hle, hlt⟩

/-- At the exponent of the result, the mantissa has 53 bits, or fewer at the least exponent
`-1074`. -/
lemma target_bounds : q / 2 ^ max (M.log2 + E - 52) (-1074) < 2 ^ 53 ∧
    (max (M.log2 + E - 52) (-1074) = -1074 ∨ 2 ^ 52 ≤ q / 2 ^ max (M.log2 + E - 52) (-1074)) := by
  obtain ⟨hle, hlt⟩ := mantissa_le_and_lt h
  have hE' : (0 : ℚ) < 2 ^ E := by positivity
  rw [le_div_iff₀ hE'] at hle
  rw [div_lt_iff₀ hE'] at hlt
  constructor
  · have htop : (M + 1 : ℚ) ≤ 2 ^ (M.log2 + 1) := by exact_mod_cast Nat.lt_log2_self
    rw [div_lt_iff₀ (by positivity)]
    calc q < (M + 1) * 2 ^ E := hlt
      _ ≤ 2 ^ (M.log2 + 1) * 2 ^ E := by gcongr
      _ = 2 ^ (M.log2 + 1 + E) := by rw [zpow_add₀ two_ne_zero]; norm_cast
      _ ≤ 2 ^ (53 + max (M.log2 + E - 52) (-1074)) := zpow_le_zpow_right₀ one_le_two (by omega)
      _ = 2 ^ 53 * 2 ^ max (M.log2 + E - 52) (-1074) := by rw [zpow_add₀ two_ne_zero]; norm_cast
  · rw [or_iff_not_imp_left]
    intro hne
    have htarget : max (M.log2 + E - 52) (-1074) = M.log2 + E - 52 := by omega
    -- With no mantissa at all the target would be the least exponent.
    have hpos : M ≠ 0 := by
      rintro rfl
      simp at htarget hE
      omega
    have hbottom : (2 ^ M.log2 : ℚ) ≤ M := by exact_mod_cast Nat.log2_self_le hpos
    rw [htarget, le_div_iff₀ (by positivity)]
    calc (2 ^ 52 * 2 ^ (M.log2 + E - 52) : ℚ) = 2 ^ (52 + (M.log2 + E - 52) : ℤ) := by
          rw [zpow_add₀ two_ne_zero 52]
          norm_cast
      _ = 2 ^ M.log2 * 2 ^ E := by rw [add_sub_cancel, zpow_add₀ two_ne_zero, zpow_natCast]
      _ ≤ M * 2 ^ E := by gcongr
      _ ≤ q := hle

/-- Rounding gives the `Canonical` double that the rational `q` rounds to, if exponents had no upper
limit. -/
lemma roundWithAccuracy_rounds (sign : Sign) : ∃ m e, Canonical m e ∧ RoundsTo q m e ∧
    roundWithAccuracy Format.binary64 sign M E acc = finiteParts sign m e := by
  have hexponent : (shiftToTargetExponent Format.binary64 M E acc).2 = _ :=
    shiftToTargetExponent_snd hE
  have happrox := approximates_shiftToTargetExponent hE h
  obtain ⟨hlt, hnormal⟩ := target_bounds hE h
  have hleast : -1074 ≤ max (M.log2 + E - 52) (-1074) := le_max_right _ _
  -- The target exponent is a number `T` from here on, and `t` is `q` in its units.
  generalize max (M.log2 + E - 52) (-1074) = T at *
  have hq : q = q / 2 ^ T * 2 ^ T := (div_mul_cancel₀ q (by positivity)).symm
  have hnonneg : 0 ≤ q / 2 ^ T := le_trans (Nat.cast_nonneg _) happrox.le
  generalize q / 2 ^ T = t at *
  obtain ⟨hlow, hhigh, hodd⟩ := happrox.rounded
  unfold roundWithAccuracy
  generalize shiftToTargetExponent Format.binary64 M E acc = first at *
  obtain ⟨em, exponent⟩ := first
  obtain rfl : exponent = T := hexponent
  dsimp only at hlow hhigh hodd ⊢
  generalize em.roundedMantissa = m at *
  have hm : m ≤ 2 ^ 53 := by
    have hcast : (m : ℚ) < 2 ^ 53 + 1 := by linarith
    exact Nat.lt_succ_iff.mp (by exact_mod_cast hcast)
  rw [hq]
  -- Rounding up may carry into one bit more, and then the mantissa is shifted once again.
  rcases hm.lt_or_eq with hm | rfl
  · refine ⟨m, exponent, ⟨hm, hleast, ?_⟩, roundsTo_of_nearest hnonneg hlow hhigh hodd hnormal, ?_⟩
    · refine hnormal.imp_right fun hlarge => ?_
      have hcast : (2 ^ 52 : ℚ) < m + 1 := by linarith
      exact Nat.lt_succ_iff.mp (by exact_mod_cast hcast)
    · rw [shiftToTargetExponent_of_lt hm hleast]
      rfl
  · refine ⟨2 ^ 52, exponent + 1, ⟨by norm_num, by omega, .inr le_rfl⟩,
      roundsTo_of_carry hleast ?_ hlt, ?_⟩
    · push_cast at hlow
      linarith
    · rw [shiftToTargetExponent_carry hleast]
      rfl

end

/-- A `Canonical` double that is rounded stays as it is. -/
lemma roundWithAccuracy_self (hc : Canonical m e) (sign : Sign) :
    roundWithAccuracy Format.binary64 sign m e .exact = finiteParts sign m e := by
  have hvalue : (m * 2 ^ e / 2 ^ e : ℚ) = m := mul_div_cancel_right₀ _ (by positivity)
  have happrox := approximates_exact m
  rw [← hvalue] at happrox
  have hexponent : e ≤ max (m.log2 + e - 52) (-1074) := by
    rcases hc.normal with hleast | hnormal
    · exact le_max_of_le_right hleast.le
    · have hlog : 52 ≤ m.log2 := (Nat.le_log2 (by omega)).mpr hnormal
      omega
  obtain ⟨m', e', hc', hrounds, heq⟩ := roundWithAccuracy_rounds hexponent happrox sign
  obtain ⟨rfl, rfl⟩ := (roundsTo_self m e).unique hc hc' hrounds
  exact heq

/-! ## Products and quotients -/

section

variable {m₁ m₂ : ℕ} {e₁ e₂ : ℤ} (h₁ : 0 < m₁) (h₂ : 0 < m₂)

lemma mul_rounds (hle : 2 ^ 52 ≤ m₁ * m₂) :
    ∃ m e, Canonical m e ∧ RoundsTo (m₁ * 2 ^ e₁ * (m₂ * 2 ^ e₂)) m e ∧
      UnpackedFloat.mul Format.binary64 (.finite .positive m₁ e₁ h₁) (.finite .positive m₂ e₂ h₂) =
        finiteParts .positive m e := by
  have hlog : 52 ≤ (m₁ * m₂).log2 := (Nat.le_log2 (Nat.mul_pos h₁ h₂).ne').mpr hle
  have hvalue : (m₁ * 2 ^ e₁ * (m₂ * 2 ^ e₂) / 2 ^ (e₁ + e₂) : ℚ) = (m₁ * m₂ : ℕ) := by
    rw [zpow_add₀ two_ne_zero]
    push_cast
    field_simp
  have hexponent : e₁ + e₂ ≤ max ((m₁ * m₂).log2 + (e₁ + e₂) - 52) (-1074) := by omega
  have happrox := approximates_exact (m₁ * m₂)
  rw [← hvalue] at happrox
  exact roundWithAccuracy_rounds hexponent happrox .positive

/-- The quotient is computed at an exponent at which it has enough bits. -/
lemma divCore_eq : divCore Format.binary64 m₁ e₁ m₂ e₂ =
    let exponent := min (e₁ - e₂) (max (m₁.log2 + e₁ - (m₂.log2 + e₂) - 53) (-1074))
    let m := m₁ <<< (e₁ - e₂ - exponent).toNat
    (m / m₂, exponent, accuracyOfFraction (m % m₂) m₂) := by
  have htarget : Format.binary64.targetExponent (totalExponent m₁ e₁ - totalExponent m₂ e₂) =
      max (m₁.log2 + e₁ - (m₂.log2 + e₂) - 53) (-1074) := by
    have hbits : (Format.binary64.mantissaBits : ℤ) = 53 := rfl
    have hmin : Format.binary64.minExponent = -1074 := rfl
    rw [Format.targetExponent, totalExponent, totalExponent, hbits, hmin]
    congr 1
    ring
  rw [divCore, htarget]

include h₁ h₂ in
lemma le_log2_quotient {k : ℕ} (h : 53 + m₂.log2 ≤ m₁.log2 + k) : 52 ≤ ((m₁ <<< k) / m₂).log2 := by
  have hle : 2 ^ 52 * m₂ ≤ m₁ <<< k := by
    calc 2 ^ 52 * m₂ ≤ 2 ^ 52 * 2 ^ (m₂.log2 + 1) := Nat.mul_le_mul_left _ Nat.lt_log2_self.le
      _ = 2 ^ (53 + m₂.log2) := by ring
      _ ≤ 2 ^ (m₁.log2 + k) := Nat.pow_le_pow_right two_pos h
      _ = 2 ^ m₁.log2 * 2 ^ k := pow_add ..
      _ ≤ m₁ * 2 ^ k := Nat.mul_le_mul_right _ (Nat.log2_self_le h₁.ne')
      _ = m₁ <<< k := (Nat.shiftLeft_eq ..).symm
  have hquotient : 2 ^ 52 ≤ (m₁ <<< k) / m₂ := (Nat.le_div_iff_mul_le h₂).mpr hle
  exact (Nat.le_log2 (by omega)).mpr hquotient

lemma div_rounds : ∃ m e, Canonical m e ∧ RoundsTo (m₁ * 2 ^ e₁ / (m₂ * 2 ^ e₂)) m e ∧
    UnpackedFloat.div Format.binary64 (.finite .positive m₁ e₁ h₁) (.finite .positive m₂ e₂ h₂) =
      finiteParts .positive m e := by
  simp only [UnpackedFloat.div, divCore_eq]
  obtain ⟨x, hx⟩ : ∃ x, x = min (e₁ - e₂) (max (m₁.log2 + e₁ - (m₂.log2 + e₂) - 53) (-1074)) :=
    ⟨_, rfl⟩
  obtain ⟨k, hk⟩ : ∃ k : ℕ, k = e₁ - e₂ - x := ⟨(e₁ - e₂ - x).toNat, by omega⟩
  rw [← hx, ← hk, Int.toNat_natCast]
  -- The quotient is not finer than the result may be.
  have hexponent : x ≤ max (((m₁ <<< k) / m₂).log2 + x - 52) (-1074) := by
    rcases le_or_gt x (-1074) with hle | hlt
    · exact le_max_of_le_right hle
    · have hlog := le_log2_quotient h₁ h₂ (k := k) (by omega)
      omega
  have hvalue : (m₁ * 2 ^ e₁ / (m₂ * 2 ^ e₂) / 2 ^ x : ℚ) = (m₁ <<< k : ℕ) / m₂ := by
    have hsplit : (2 : ℚ) ^ e₁ = 2 ^ e₂ * 2 ^ x * 2 ^ k := by
      rw [← zpow_natCast, ← zpow_add₀ two_ne_zero, ← zpow_add₀ two_ne_zero]
      congr 1
      omega
    rw [hsplit, Nat.shiftLeft_eq]
    push_cast
    field_simp
  have happrox := approximates_fraction (m₁ <<< k) h₂
  rw [← hvalue] at happrox
  exact roundWithAccuracy_rounds hexponent happrox .positive

end

end LoxLang.Decimal
