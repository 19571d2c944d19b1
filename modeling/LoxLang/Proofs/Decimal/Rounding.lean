import Mathlib.Tactic
import LoxLang.Decimal.Shortest

/-!
# Digits that read back

Each finite double has one mantissa and exponent, and the rationals that round to it form an
interval.  The intervals of different doubles have no rational in common, so a decimal that lies in
a double's interval stands for that double alone.  The fewest digits that are found for a double lie
in its interval: at the latest, the nearest decimal of 17 digits does.
-/

namespace LoxLang.Decimal

variable {m m' : ℕ} {e e' : ℤ} {q : ℚ}

/-! ## Doubles -/

/-- The mantissas and exponents of finite doubles, one pair for each of them. -/
structure Canonical (m : ℕ) (e : ℤ) : Prop where
  lt : m < 2 ^ 53
  le : -1074 ≤ e
  normal : e = -1074 ∨ 2 ^ 52 ≤ m

/-- The bits of a finite double, and what `fieldsToFraction` makes of them. -/
lemma fields_of_ofFloat {x : Float} {negative : Bool}
    (h : Number.ofFloat x = .finite negative m e) :
    negative = (x.toBits.toNat / 2 ^ 63 == 1) ∧
      fieldsToFraction (x.toBits.toNat / 2 ^ 52 % 2 ^ 11) (x.toBits.toNat % 2 ^ 52) = (m, e) := by
  unfold Number.ofFloat at h
  simp only [Nat.pow_eq] at h
  split_ifs at h
  obtain ⟨hnegative, hm, he⟩ := Number.finite.inj h
  exact ⟨hnegative.symm, Prod.ext hm he⟩

lemma canonical_of_ofFloat {x : Float} {negative : Bool}
    (h : Number.ofFloat x = .finite negative m e) : Canonical m e := by
  have hfields := (fields_of_ofFloat h).2
  have hfraction : x.toBits.toNat % 2 ^ 52 < 2 ^ 52 := Nat.mod_lt _ (by decide)
  generalize x.toBits.toNat % 2 ^ 52 = fraction at hfields hfraction
  generalize x.toBits.toNat / 2 ^ 52 % 2 ^ 11 = field at hfields
  simp only [fieldsToFraction, Nat.pow_eq] at hfields
  split_ifs at hfields with hfield
  · obtain ⟨rfl, rfl⟩ := Prod.mk.inj hfields
    exact ⟨by omega, le_rfl, .inl rfl⟩
  · obtain ⟨rfl, rfl⟩ := Prod.mk.inj hfields
    exact ⟨by omega, by omega, .inr (by omega)⟩

lemma fieldsToFraction_inj {a b f g : ℕ} (hf : f < 2 ^ 52) (hg : g < 2 ^ 52)
    (h : fieldsToFraction a f = fieldsToFraction b g) : a = b ∧ f = g := by
  simp only [fieldsToFraction, Nat.pow_eq] at h
  split_ifs at h <;> simp only [Prod.mk.injEq] at h <;> omega

lemma eq_of_toBits_toNat {x y : Float} (h : x.toBits.toNat = y.toBits.toNat) : x = y := by
  obtain ⟨⟨bits, _⟩⟩ := x
  obtain ⟨⟨bits', _⟩⟩ := y
  obtain rfl : bits = bits' := UInt64.toNat_inj.mp h
  rfl

/-- A finite double is given by its sign `negative`, mantissa `m` and exponent `e`. -/
lemma eq_of_ofFloat {x y : Float} {negative : Bool} (hx : Number.ofFloat x = .finite negative m e)
    (hy : Number.ofFloat y = .finite negative m e) : x = y := by
  obtain ⟨hsign, hfields⟩ := fields_of_ofFloat hx
  obtain ⟨hsign', hfields'⟩ := fields_of_ofFloat hy
  obtain ⟨hexponent, hfraction⟩ := fieldsToFraction_inj (Nat.mod_lt _ (by decide))
    (Nat.mod_lt _ (by decide))
    (hfields.trans hfields'.symm)
  have hlt : x.toBits.toNat < 2 ^ 64 := x.toBits.toNat_lt
  have hlt' : y.toBits.toNat < 2 ^ 64 := y.toBits.toNat_lt
  have htop : x.toBits.toNat / 2 ^ 63 = 1 ↔ y.toBits.toNat / 2 ^ 63 = 1 := by
    have hbeq : (x.toBits.toNat / 2 ^ 63 == 1) = (y.toBits.toNat / 2 ^ 63 == 1) :=
      hsign.symm.trans hsign'
    simpa only [beq_iff_eq] using Bool.eq_iff_iff.mp hbeq
  exact eq_of_toBits_toNat (by omega)

/-! ## Rounding intervals -/

/-- A rational `q` lies in an interval whose quarters are `unit` long. -/
def Interval.Contains (i : Interval) (unit q : ℚ) : Prop :=
  if i.closed then i.low * unit ≤ q ∧ q ≤ i.high * unit else i.low * unit < q ∧ q < i.high * unit

/-- A rational `q` rounds to `m * 2 ^ e`. -/
def RoundsTo (q : ℚ) (m : ℕ) (e : ℤ) : Prop := (interval m e).Contains (2 ^ (e - 2)) q

lemma Interval.Contains.of_lt {i : Interval} {unit : ℚ} (hlow : i.low * unit < q)
    (hhigh : q < i.high * unit) : i.Contains unit q := by
  unfold Interval.Contains
  split_ifs
  · exact ⟨hlow.le, hhigh.le⟩
  · exact ⟨hlow, hhigh⟩

/-- In units of a quarter, a rational that `RoundsTo` a double lies between the double's ends, and
strictly so if the mantissa is odd. -/
lemma RoundsTo.between (h : RoundsTo q m e) :
    ∃ t : ℚ, q = t * 2 ^ (e - 2) ∧ (interval m e).low ≤ t ∧ t ≤ 4 * m + 2 ∧
      (m % 2 = 1 → (interval m e).low < t ∧ t < 4 * m + 2) := by
  have hunit : (0 : ℚ) < 2 ^ (e - 2) := by positivity
  refine ⟨q / 2 ^ (e - 2), (div_mul_cancel₀ q hunit.ne').symm, ?_⟩
  have hhigh : ((interval m e).high : ℚ) = 4 * m + 2 := by simp [interval]
  rw [← hhigh, le_div_iff₀ hunit, div_le_iff₀ hunit, lt_div_iff₀ hunit, div_lt_iff₀ hunit]
  unfold RoundsTo Interval.Contains at h
  split_ifs at h with hclosed
  · refine ⟨h.1, h.2, fun hodd => ?_⟩
    simp [interval, hodd] at hclosed
  · exact ⟨h.1.le, h.2.le, fun _ => h⟩

/-- What rounds to a double `m'` with a leading one lies far up, in quarters of a smaller exponent
`e`. -/
lemma RoundsTo.quarters_le (hm : 2 ^ 52 ≤ m') (hle : -1074 ≤ e) (hlt : e < e')
    (h : RoundsTo q m' e') : (2 ^ 55 - 2) * 2 ^ (e - 2) ≤ q := by
  obtain ⟨t, rfl, hlow, -⟩ := h.between
  have hend : 2 ^ 54 ≤ (interval m' e').low + 1 := by
    simp only [interval, Nat.pow_eq]
    split_ifs <;> omega
  have hcast : (2 ^ 54 : ℚ) ≤ (interval m' e').low + 1 := by exact_mod_cast hend
  have ht : (2 ^ 54 - 1 : ℚ) ≤ t := by linarith
  have hpow : (2 : ℚ) * 2 ^ (e - 2) ≤ 2 ^ (e' - 2) := by
    rw [← zpow_one_add₀ two_ne_zero]
    exact zpow_le_zpow_right₀ one_le_two (by omega)
  calc ((2 ^ 55 - 2) * 2 ^ (e - 2) : ℚ) = (2 ^ 54 - 1) * (2 * 2 ^ (e - 2)) := by ring
    _ ≤ t * 2 ^ (e' - 2) := mul_le_mul ht hpow (by positivity) (by linarith)

/-- What rounds to a double lies below the end of the largest mantissa of its exponent `e`. -/
lemma RoundsTo.lt_quarters (hm : m < 2 ^ 53) (h : RoundsTo q m e) :
    q < (2 ^ 55 - 2) * 2 ^ (e - 2) := by
  obtain ⟨t, rfl, -, hhigh, hodd⟩ := h.between
  by_contra hle
  have hlarge : (2 ^ 55 - 2 : ℚ) ≤ t := le_of_mul_le_mul_right (not_lt.mp hle) (by positivity)
  -- So far up there is only that end itself, and the largest mantissa is odd, so that its end does
  -- not belong to it.
  have hmantissa : 2 ^ 55 ≤ 4 * m + 4 := by
    have hcast : (2 ^ 55 : ℚ) ≤ 4 * m + 4 := by linarith
    exact_mod_cast hcast
  obtain rfl : m = 2 ^ 53 - 1 := by omega
  have hstrict := (hodd (by decide)).2
  norm_num at hstrict hlarge
  linarith

/-- A double of a smaller exponent has no rational in common with one of a larger exponent. -/
lemma RoundsTo.not_of_exponent_lt (hm : m < 2 ^ 53) (hm' : 2 ^ 52 ≤ m') (hle : -1074 ≤ e)
    (hlt : e < e') (h : RoundsTo q m e) (h' : RoundsTo q m' e') : False :=
  absurd (h'.quarters_le hm' hle hlt) (not_le.mpr (h.lt_quarters hm))

/-- Two doubles of one exponent `e` have no rational in common. -/
lemma RoundsTo.not_of_mantissa_lt (hlt : m < m') (h : RoundsTo q m e)
    (h' : RoundsTo q m' e) : False := by
  obtain ⟨t, rfl, -, hhigh, hodd⟩ := h.between
  obtain ⟨t', heq, hlow', -, hodd'⟩ := h'.between
  obtain rfl : t = t' := mul_right_cancel₀ (by positivity) heq
  have hend : 4 * m' ≤ (interval m' e).low + 2 := by
    simp only [interval]
    split_ifs <;> omega
  have hend' : (4 * m' : ℚ) ≤ (interval m' e).low + 2 := by exact_mod_cast hend
  -- The intervals meet at all only if the mantissas are neighbours.
  have hle : m' ≤ m + 1 := by
    have hcast : (4 * m' : ℚ) ≤ 4 * (m + 1) := by linarith
    exact_mod_cast le_of_mul_le_mul_left hcast (by norm_num)
  obtain rfl : m' = m + 1 := by omega
  push_cast at hend'
  -- One of two neighbours is odd, so their common end belongs to neither or only to the other.
  rcases Nat.mod_two_eq_zero_or_one m with hm | hm
  · have hstrict := (hodd' (by omega)).1
    linarith
  · have hstrict := (hodd hm).2
    linarith

/-- A rational `RoundsTo` one `Canonical` double only. -/
lemma RoundsTo.unique (hc : Canonical m e) (hc' : Canonical m' e') (h : RoundsTo q m e)
    (h' : RoundsTo q m' e') : m = m' ∧ e = e' := by
  rcases lt_trichotomy e e' with hlt | rfl | hlt
  · have hnormal : 2 ^ 52 ≤ m' := hc'.normal.resolve_left (by have := hc.le; omega)
    exact (h.not_of_exponent_lt hc.lt hnormal hc.le hlt h').elim
  · rcases lt_trichotomy m m' with hlt | rfl | hlt
    · exact (h.not_of_mantissa_lt hlt h').elim
    · exact ⟨rfl, rfl⟩
    · exact (h'.not_of_mantissa_lt hlt h).elim
  · have hnormal : 2 ^ 52 ≤ m := hc.normal.resolve_left (by have := hc'.le; omega)
    exact (h'.not_of_exponent_lt hc'.lt hnormal hc'.le hlt h).elim

/-- A double in quarters of its last bit. -/
lemma mul_two_zpow (m : ℕ) (e : ℤ) : (m * 2 ^ e : ℚ) = 4 * m * 2 ^ (e - 2) := by
  have hsplit : (2 : ℚ) ^ e = 2 ^ (e - 2) * 2 ^ (2 : ℤ) := by
    rw [← zpow_add₀ two_ne_zero, sub_add_cancel]
  rw [hsplit]
  norm_num
  ring

/-- A double `RoundsTo` itself. -/
lemma roundsTo_self (m : ℕ) (e : ℤ) : RoundsTo (m * 2 ^ e) m e := by
  have hunit : (0 : ℚ) < 2 ^ (e - 2) := by positivity
  have hhigh : 4 * m < (interval m e).high := by simp [interval]
  rw [RoundsTo, mul_two_zpow]
  rcases Nat.eq_zero_or_pos m with rfl | hpos
  · simp only [Interval.Contains, interval, Nat.pow_eq]
    norm_num
    exact hunit.le
  · have hlow : (interval m e).low < 4 * m := by
      simp only [interval]
      split_ifs <;> omega
    exact .of_lt (mul_lt_mul_of_pos_right (by exact_mod_cast hlow) hunit)
      (mul_lt_mul_of_pos_right (by exact_mod_cast hhigh) hunit)

lemma eq_of_whole? {n : ℕ} (h : whole? m e = some n) : (n : ℚ) = m * 2 ^ e := by
  simp only [whole?, Nat.pow_eq] at h
  split_ifs at h with hpos hdvd
  · obtain rfl := Option.some.inj h
    obtain ⟨k, rfl⟩ := Int.eq_ofNat_of_zero_le hpos
    simp
  · obtain rfl := Option.some.inj h
    obtain ⟨k, rfl⟩ : ∃ k : ℕ, e = -k := ⟨e.natAbs, by omega⟩
    rw [Int.natAbs_neg, Int.natAbs_natCast] at hdvd ⊢
    rw [Nat.cast_div (Nat.dvd_of_mod_eq_zero hdvd) (by positivity), zpow_neg, zpow_natCast,
      div_eq_mul_inv]
    push_cast
    rfl

end LoxLang.Decimal
