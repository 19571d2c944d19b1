import LoxLang.Proofs.Decimal.Arithmetic

/-!
# Decimals that are read

Digits with an exponent are read as the double that they round to: the few that are small by one
product or quotient of doubles, the others in exact arithmetic.  What they are read as is finite
below a limit, half a step beyond the largest double, and the positive infinity from there on.
-/

namespace LoxLang.Decimal

open Float.Model Float.Model.UnpackedFloat

variable {m : ℕ} {e : ℤ} {q : ℚ} {x y : Float}

/-! ## The nearest double -/

/-- The double that a rational `q` that is not negative rounds to; one that is too large gives an
infinity. -/
inductive IsNearest (q : ℚ) : Float → Prop where
  | rounded {m : ℕ} {e : ℤ} :
      Canonical m e → RoundsTo q m e → IsNearest q (.ofModel (.pack (finiteParts .positive m e)))
  | huge : 2 ^ 1024 ≤ q → IsNearest q (.ofModel (.pack (.infinity .positive)))

lemma isNearest_of_rounds {u : UnpackedFloat}
    (h : ∃ m e, Canonical m e ∧ RoundsTo q m e ∧ u = finiteParts .positive m e) :
    IsNearest q (.ofModel (.pack u)) := by
  obtain ⟨m, e, hc, hrounds, rfl⟩ := h
  exact .rounded hc hrounds

lemma canonical_zero : Canonical 0 (-1074) := ⟨by norm_num, le_rfl, .inl rfl⟩

lemma isNearest_zero : IsNearest 0 (.ofModel (.pack (.zero .positive))) := by
  have hself := roundsTo_self 0 (-1074)
  rw [Nat.cast_zero, zero_mul] at hself
  exact .rounded canonical_zero hself

/-- Less than half of the least positive double, `2 ^ (-1074)`, goes down to zero. -/
lemma roundsTo_zero (hnonneg : 0 ≤ q) (hle : q ≤ 2 ^ (-1075 : ℤ)) : RoundsTo q 0 (-1074) := by
  have hq : q = q / 2 ^ (-1076 : ℤ) * 2 ^ (-1074 - 2 : ℤ) :=
    (div_mul_cancel₀ q (by positivity)).symm
  rw [hq]
  refine roundsTo_of_between ?_ ?_ fun h => absurd h (by decide)
  · rw [show (interval 0 (-1074)).low = 0 from rfl, Nat.cast_zero]
    positivity
  · rw [Nat.cast_zero, mul_zero, zero_add, div_le_iff₀ (by positivity)]
    refine hle.trans_eq ?_
    rw [← zpow_one_add₀ two_ne_zero]
    norm_num

/-! ## Exact arithmetic -/

section

variable {d : ℕ} {k : ℤ}

lemma two_pow_le_of_large (hd : d ≠ 0) (hk : 2 ^ 11 < k) : (2 ^ 1024 : ℚ) ≤ d * 10 ^ k := by
  have hone : (1 : ℚ) ≤ d := by exact_mod_cast Nat.one_le_iff_ne_zero.mpr hd
  calc (2 ^ 1024 : ℚ) ≤ 10 ^ 1024 := pow_le_pow_left₀ (by norm_num) (by norm_num) 1024
    _ = 10 ^ (1024 : ℤ) := (zpow_natCast 10 1024).symm
    _ ≤ 10 ^ k := zpow_le_zpow_right₀ (by norm_num) (by omega)
    _ ≤ d * 10 ^ k := le_mul_of_one_le_left (by positivity) hone

lemma le_two_zpow_of_small (hk : k < -(2 ^ 11 + d.log2)) : (d * 10 ^ k : ℚ) ≤ 2 ^ (-1075 : ℤ) := by
  obtain ⟨n, rfl⟩ : ∃ n : ℕ, k = -n := ⟨k.natAbs, by omega⟩
  have hd : (d : ℚ) ≤ 2 ^ (d.log2 + 1) := by exact_mod_cast Nat.lt_log2_self.le
  have hpow : (10 : ℚ) ^ (-n : ℤ) ≤ 2 ^ (-n : ℤ) := by
    rw [zpow_neg, zpow_neg, zpow_natCast, zpow_natCast]
    gcongr
    norm_num
  calc (d * 10 ^ (-n : ℤ) : ℚ) ≤ 2 ^ (d.log2 + 1) * 2 ^ (-n : ℤ) := by gcongr
    _ = 2 ^ (d.log2 + 1 + -n : ℤ) := by rw [zpow_add₀ two_ne_zero]; norm_cast
    _ ≤ 2 ^ (-1075 : ℤ) := zpow_le_zpow_right₀ one_le_two (by omega)

end

/-- Digits with an exponent, as `Float.Model.ofScientific` computes them in exact arithmetic. -/
lemma isNearest_model (d : ℕ) (k : ℤ) : IsNearest (d * 10 ^ k) (.ofModel (.ofScientific d k)) := by
  unfold Float.Model.ofScientific UnpackedFloat.ofScientific
  -- Zero, too large for a double, too small for one, and the two signs of the exponent.
  split_ifs with hzero hlarge hsmall hpos
  · rw [hzero, Nat.cast_zero, zero_mul]
    exact isNearest_zero
  · exact .huge (two_pow_le_of_large hzero hlarge)
  · exact .rounded canonical_zero (roundsTo_zero (by positivity) (le_two_zpow_of_small hsmall))
  · obtain ⟨n, rfl⟩ := Int.eq_ofNat_of_zero_le hpos
    have hd : 0 < d <<< 53 := by simpa [Nat.pos_iff_ne_zero] using hzero
    -- The digits are shifted up so that the product has bits enough to be rounded down.
    have hle : 2 ^ 52 ≤ d <<< 53 * 10 ^ n := by
      have hone : 1 ≤ d * 10 ^ n := Nat.mul_pos (Nat.pos_of_ne_zero hzero) (by positivity)
      rw [Nat.shiftLeft_eq, mul_right_comm]
      omega
    have hvalue : (d * 10 ^ (n : ℤ) : ℚ) =
        (d <<< 53 : ℕ) * 2 ^ (-53 : ℤ) * ((10 ^ n : ℕ) * 2 ^ (0 : ℤ)) := by
      rw [Nat.shiftLeft_eq]
      push_cast
      norm_num
      ring
    rw [hvalue]
    exact isNearest_of_rounds (mul_rounds hd (by positivity) hle)
  · obtain ⟨n, rfl⟩ : ∃ n : ℕ, k = -n := ⟨k.natAbs, by omega⟩
    have hvalue : (d * 10 ^ (-n : ℤ) : ℚ) = d * 2 ^ (0 : ℤ) / ((10 ^ n : ℕ) * 2 ^ (0 : ℤ)) := by
      rw [zpow_neg, zpow_natCast]
      push_cast
      ring
    refine isNearest_of_rounds ?_
    simp only [neg_neg, Int.toNat_natCast, hvalue]
    exact div_rounds (Nat.pos_of_ne_zero hzero) (Nat.pow_pos (by decide))

/-! ## Small decimals -/

/-- The powers of ten that are doubles, with 53 bits each. -/
lemma ofFloat_powerOfTen : ∀ k, (h : k < Float.exactlyRepresentablePowersOfTen.size) →
    let m := 10 ^ k * 2 ^ 52 / 2 ^ (10 ^ k).log2
    2 ^ 52 ≤ m ∧ m * 2 ^ (10 ^ k).log2 = 10 ^ k * 2 ^ 52 ∧
      Number.ofFloat Float.exactlyRepresentablePowersOfTen[k] =
        .finite false m ((10 ^ k).log2 - 52) := by
  decide +kernel

lemma unpack_powerOfTen {k : ℕ} (h : k < Float.exactlyRepresentablePowersOfTen.size) :
    ∃ m e, ∃ hpos : 0 < m, 2 ^ 52 ≤ m ∧
      Float.exactlyRepresentablePowersOfTen[k].toModel.unpack = .finite .positive m e hpos ∧
      (m * 2 ^ e : ℚ) = 10 ^ k := by
  obtain ⟨hle, hvalue, hfloat⟩ := ofFloat_powerOfTen k h
  have hpos : 0 < 10 ^ k * 2 ^ 52 / 2 ^ (10 ^ k).log2 := lt_of_lt_of_le (by norm_num) hle
  refine ⟨_, _, hpos, hle, (unpack_of_ofFloat hfloat).trans (dif_neg hpos.ne'), ?_⟩
  generalize 10 ^ k * 2 ^ 52 / 2 ^ (10 ^ k).log2 = m at hvalue
  have hvalue : (m * 2 ^ (10 ^ k).log2 : ℚ) = 10 ^ k * 2 ^ 52 := by exact_mod_cast hvalue
  rw [zpow_sub₀ two_ne_zero, zpow_natCast, mul_div_assoc', hvalue]
  norm_num

/-- A whole number of at most 53 bits is a double, so converting it loses nothing. -/
lemma unpack_toFloat {n : ℕ} (hpos : 0 < n) (hlt : n < 2 ^ 53) :
    ∃ m e, ∃ h : 0 < m, n.toUInt64.toFloat.toModel.unpack = .finite .positive m e h ∧
      (m * 2 ^ e : ℚ) = n := by
  have hnat : n.toUInt64.toNat = n := by
    simp
    omega
  have hmodel : n.toUInt64.toFloat.toModel =
      .pack (UnpackedFloat.round Format.binary64 .positive n 0) := by
    unfold UInt64.toFloat Float.Model.ofUInt64 UnpackedFloat.ofUInt64 UnpackedFloat.ofNat
      UnpackedFloat.ofInt UnpackedFloat.normalize
    rw [hnat, Int.compare_eq_gt.mpr (by omega)]
    rfl
  obtain ⟨k, hk⟩ : ∃ k, k + n.log2 = 52 :=
    ⟨52 - n.log2, by have := (Nat.log2_lt hpos.ne').mpr hlt; omega⟩
  have htarget : (0 - max ((n.log2 : ℤ) + 0 - 52) (-1074)).toNat = k := by omega
  -- Shifted by `k` the number has its leading one in bit 53, so that nothing is rounded.
  have hc : Canonical (n <<< k) (-k) := by
    have hlow := Nat.mul_le_mul_right (2 ^ k) (Nat.log2_self_le hpos.ne')
    have hhigh := Nat.mul_lt_mul_of_pos_right (Nat.lt_log2_self (n := n)) (Nat.two_pow_pos k)
    rw [← pow_add] at hlow hhigh
    rw [Nat.shiftLeft_eq]
    refine ⟨hhigh.trans_eq ?_, by omega, .inr (le_trans (le_of_eq ?_) hlow)⟩
    · congr 1
      omega
    · congr 1
      omega
  have hm : 0 < n <<< k := by simpa [Nat.shiftLeft_eq] using hpos
  refine ⟨n <<< k, -k, hm, ?_, ?_⟩
  · rw [hmodel, UnpackedFloat.round, targetExponent_eq, decreaseExponent, htarget]
    dsimp only
    rw [zero_sub, roundWithAccuracy_self hc, unpack_pack_finiteParts _ hc (by omega), finiteParts,
      dif_neg hm.ne']
  · rw [Nat.shiftLeft_eq, zpow_neg, zpow_natCast]
    push_cast
    field_simp

/-! ## Reading decimals -/

section

variable {n k : ℕ} (hn : n < 2 ^ 53) (hk : k < Float.exactlyRepresentablePowersOfTen.size)

include hn

lemma isNearest_mul :
    IsNearest (n * 10 ^ k) (n.toUInt64.toFloat * Float.exactlyRepresentablePowersOfTen[k]) := by
  change IsNearest _ (.ofModel (.pack (.mul Format.binary64 n.toUInt64.toFloat.toModel.unpack
    Float.exactlyRepresentablePowersOfTen[k].toModel.unpack)))
  obtain ⟨m₂, e₂, h₂, hnormal, hunpack₂, hvalue₂⟩ := unpack_powerOfTen hk
  rw [hunpack₂]
  rcases Nat.eq_zero_or_pos n with rfl | hpos
  · rw [Nat.cast_zero, zero_mul]
    exact isNearest_zero
  · obtain ⟨m₁, e₁, h₁, hunpack₁, hvalue₁⟩ := unpack_toFloat hpos hn
    rw [hunpack₁, ← hvalue₁, ← hvalue₂]
    exact isNearest_of_rounds (mul_rounds h₁ h₂ (hnormal.trans (Nat.le_mul_of_pos_left m₂ h₁)))

lemma isNearest_div :
    IsNearest (n / 10 ^ k) (n.toUInt64.toFloat / Float.exactlyRepresentablePowersOfTen[k]) := by
  change IsNearest _ (.ofModel (.pack (.div Format.binary64 n.toUInt64.toFloat.toModel.unpack
    Float.exactlyRepresentablePowersOfTen[k].toModel.unpack)))
  obtain ⟨m₂, e₂, h₂, -, hunpack₂, hvalue₂⟩ := unpack_powerOfTen hk
  rw [hunpack₂]
  rcases Nat.eq_zero_or_pos n with rfl | hpos
  · rw [Nat.cast_zero, zero_div]
    exact isNearest_zero
  · obtain ⟨m₁, e₁, h₁, hunpack₁, hvalue₁⟩ := unpack_toFloat hpos hn
    rw [hunpack₁, ← hvalue₁, ← hvalue₂]
    exact isNearest_of_rounds (div_rounds h₁ h₂)

end

/-- Digits with an exponent are read as the nearest double: `Float.ofScientific` is right on the
short way through small powers of ten and on the long way. -/
lemma isNearest_ofScientific (d : ℕ) (k : ℤ) :
    IsNearest (d * 10 ^ k) (Float.ofScientific d (k < 0) k.natAbs) := by
  rcases le_or_gt 0 k with hpos | hneg
  · obtain ⟨n, rfl⟩ := Int.eq_ofNat_of_zero_le hpos
    rw [decide_eq_false (not_lt.mpr hpos), Int.natAbs_natCast, Float.ofScientific]
    -- Both factors are doubles, and one rounding is enough.
    by_cases hsmall : d < 2 ^ 53 ∧ n ≤ 22
    · rw [dif_pos hsmall, zpow_natCast]
      exact isNearest_mul hsmall.1 (Nat.lt_succ_of_le hsmall.2)
    · rw [dif_neg hsmall]
      exact isNearest_model d n
  · obtain ⟨n, rfl⟩ : ∃ n : ℕ, k = -n := ⟨k.natAbs, by omega⟩
    rw [decide_eq_true hneg, Int.natAbs_neg, Int.natAbs_natCast, Float.ofScientific]
    by_cases hsmall : d < 2 ^ 53 ∧ n ≤ 22
    · rw [dif_pos hsmall, zpow_neg, zpow_natCast, ← div_eq_mul_inv]
      exact isNearest_div hsmall.1 (Nat.lt_succ_of_le hsmall.2)
    · have hmodel := isNearest_model d (-n)
      rw [dif_neg hsmall]
      rwa [← Int.ofNat_eq_natCast, ← Int.negOfNat_eq] at hmodel ⊢

/-- Half a step beyond the largest double; from here on rounding goes to infinity. -/
def limit : ℚ := (2 ^ 55 - 2) * 2 ^ (969 : ℤ)

lemma limit_le : limit ≤ 2 ^ 1024 :=
  calc ((2 ^ 55 - 2) * 2 ^ (969 : ℤ) : ℚ) ≤ 2 ^ 55 * 2 ^ (969 : ℤ) :=
    mul_le_mul_of_nonneg_right (by norm_num) (by positivity)
      _ = 2 ^ 1024 := by rw [show (969 : ℤ) = (969 : ℕ) from rfl, zpow_natCast, ← pow_add]

/-- What rounds to a finite double is below the `limit`. -/
lemma RoundsTo.lt_limit (hm : m < 2 ^ 53) (he : e ≤ 971) (h : RoundsTo q m e) : q < limit := by
  refine lt_of_lt_of_le (h.lt_quarters hm) (mul_le_mul_of_nonneg_left ?_ (by norm_num))
  exact zpow_le_zpow_right₀ one_le_two (by omega)

namespace IsNearest

/-- The nearest double of `q` is the one that `q` rounds to. -/
lemma eq_of_roundsTo (h : IsNearest q x) (hy : Number.ofFloat y = .finite false m e)
    (hrounds : RoundsTo q m e) : x = y := by
  have hc := canonical_of_ofFloat hy
  obtain ⟨hle, rfl⟩ := eq_of_ofFloat_finite hy
  cases h with
  | rounded hc' hrounds' =>
    obtain ⟨rfl, rfl⟩ := hrounds'.unique hc' hc hrounds
    rfl
  | huge hhuge => exact absurd (limit_le.trans hhuge) (not_le.mpr (hrounds.lt_limit hc.lt hle))

/-- The nearest double of a rational that is not negative is finite below the `limit`, and the
positive infinity from there on. -/
lemma finite_or_infinite (h : IsNearest q x) :
    (q < limit ∧ ∃ m e, Number.ofFloat x = .finite false m e) ∨ limit ≤ q ∧
      Number.ofFloat x = .infinite false := by
  cases h with
  | @rounded m e hc hrounds =>
    rcases le_or_gt e 971 with hle | hlt
    · exact .inl ⟨hrounds.lt_limit hc.lt hle, m, e, ofFloat_finiteParts .positive hc hle⟩
    · refine .inr ⟨hrounds.quarters_le (hc.normal.resolve_left (by omega)) (by norm_num) hlt, ?_⟩
      rw [pack_finiteParts_of_lt _ hc hlt, ofFloat_pack_infinity, isMinus]
  | huge hhuge => exact .inr ⟨limit_le.trans hhuge, ofFloat_pack_infinity .positive⟩

end IsNearest

lemma neg_finiteParts (m : ℕ) (e : ℤ) :
    (finiteParts .positive m e).neg = finiteParts .negative m e := by
  unfold finiteParts
  split_ifs <;> rfl

/-- Digits `d` and an exponent `k` are read by `nearest` as the double `x` that they round to. -/
theorem nearest_of_roundsTo {negative : Bool} {d : ℕ} {k : ℤ}
    (hx : Number.ofFloat x = .finite negative m e) (h : RoundsTo (d * 10 ^ k) m e) :
    nearest negative d k = x := by
  have hc := canonical_of_ofFloat hx
  obtain ⟨hle, rfl⟩ := eq_of_ofFloat_finite hx
  have hmagnitude : Float.ofScientific d (k < 0) k.natAbs =
      .ofModel (.pack (finiteParts .positive m e)) :=
    (isNearest_ofScientific d k).eq_of_roundsTo (ofFloat_finiteParts .positive hc hle) h
  unfold nearest
  rw [hmagnitude]
  cases negative with
  | false => rfl
  | true =>
    change Float.ofModel (.pack (Float.Model.pack (finiteParts .positive m e)).unpack.neg) = _
    rw [unpack_pack_finiteParts _ hc hle, neg_finiteParts]
    rfl

/-! ## Infinity -/

/-- The positive infinity. -/
def infinity : Float := 1 / 0

/-- The bits of an infinity: the exponent is all ones, the fraction is zero, and the sign is
`negative`. -/
lemma fields_of_infinite {negative : Bool} (h : Number.ofFloat x = .infinite negative) :
    x.toBits.toNat / 2 ^ 52 % 2 ^ 11 = 2 ^ 11 - 1 ∧
    x.toBits.toNat % 2 ^ 52 = 0 ∧ (x.toBits.toNat / 2 ^ 63 = 1 ↔ negative = true) := by
  unfold Number.ofFloat at h
  simp only [Nat.pow_eq] at h
  split_ifs at h with hfield hfraction
  refine ⟨hfield, hfraction, ?_⟩
  rw [← Number.infinite.inj h, beq_iff_eq]

lemma ofFloat_infinity : Number.ofFloat infinity = .infinite false := by decide +kernel

lemma isFinite_infinity : infinity.isFinite = false := by
  rw [← Bool.not_eq_true, isFinite_iff, ofFloat_infinity]
  rintro ⟨negative, m, e, hfinite⟩
  cases hfinite

lemma eq_infinity (h : Number.ofFloat x = .infinite false) : x = infinity := by
  obtain ⟨hfield, hfraction, hsign⟩ := fields_of_infinite h
  obtain ⟨hfield', hfraction', hsign'⟩ := fields_of_infinite ofFloat_infinity
  have hlt : x.toBits.toNat < 2 ^ 64 := x.toBits.toNat_lt
  have hlt' : infinity.toBits.toNat < 2 ^ 64 := infinity.toBits.toNat_lt
  rw [Bool.false_eq_true, iff_false] at hsign hsign'
  refine eq_of_toBits_toNat ?_
  omega

end LoxLang.Decimal
