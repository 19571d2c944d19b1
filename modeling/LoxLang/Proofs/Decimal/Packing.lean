import Mathlib
import LoxLang.Proofs.Decimal.Rounding

/-!
# Doubles and their parts

Arithmetic on doubles takes them apart into a sign, a mantissa and an exponent, and puts its result
together again.  The parts are those that `Number.ofFloat` reads off the bits, and what is put
together from the parts of a finite double is that double again.
-/

namespace LoxLang.Decimal

open Float.Model Float.Model.UnpackedFloat

variable {m : ℕ} {e : ℤ} {x : Float}

/-! ## Taking apart -/

/-- Whether a sign is a minus, as `Number` records it. -/
def isMinus : Sign → Bool
  | .negative => true
  | .positive => false

/-- The `Number` that the parts of a double stand for. -/
def Number.ofParts : UnpackedFloat → Number
  | .notANumber => .nan
  | .infinity sign => .infinite (isMinus sign)
  | .zero sign => .finite (isMinus sign) 0 (-1074)
  | .finite sign m e _ => .finite (isMinus sign) m e

section

variable (b : BitVec Format.binary64.numBits)

lemma toNat_unpackMantissa : (unpackMantissa b).toNat = b.toNat % 2 ^ 52 := by
  simp [unpackMantissa]

lemma toNat_unpackExponent : (unpackExponent b).toNat = b.toNat / 2 ^ 52 % 2 ^ 11 := by
  simp [unpackExponent, Nat.shiftRight_eq_div_pow]

lemma toNat_unpackSign : (unpackSign b).toNat = b.toNat / 2 ^ 63 := by
  have hlt : b.toNat < 2 ^ 64 := b.isLt
  simp [unpackSign, Nat.shiftRight_eq_div_pow]
  omega

lemma isMinus_unpackSign : isMinus (Sign.ofBitVec (unpackSign b)) = (b.toNat / 2 ^ 63 == 1) := by
  have hlt : b.toNat < 2 ^ 64 := b.isLt
  have hsign : unpackSign b = 0#1 ↔ b.toNat / 2 ^ 63 = 0 := by
    rw [← BitVec.toNat_inj, toNat_unpackSign]; rfl
  unfold Sign.ofBitVec
  split_ifs with hzero
  · rw [hsign.mp hzero]
    rfl
  · have hone : b.toNat / 2 ^ 63 = 1 := by
      have := mt hsign.mpr hzero
      omega
    rw [hone]
    rfl

end

lemma toNat_one_append (v : BitVec 52) : (1#1 ++ v).toNat = 2 ^ 52 + v.toNat := by
  rw [BitVec.toNat_append, ← Nat.shiftLeft_add_eq_or_of_lt v.isLt]
  rfl

section

variable (b : BitVec Format.binary64.numBits)

lemma unpackMantissa_eq_zero_iff : unpackMantissa b = 0#_ ↔ b.toNat % 2 ^ 52 = 0 := by
  rw [← BitVec.toNat_inj, toNat_unpackMantissa]
  rfl

lemma unpackExponent_eq_zero_iff : unpackExponent b = 0#_ ↔ b.toNat / 2 ^ 52 % 2 ^ 11 = 0 := by
  rw [← BitVec.toNat_inj, toNat_unpackExponent]
  rfl

lemma unpackExponent_eq_ones_iff :
    unpackExponent b = -1#_ ↔ b.toNat / 2 ^ 52 % 2 ^ 11 = 2 ^ 11 - 1 := by
  rw [← BitVec.toNat_inj, toNat_unpackExponent]
  rfl

end

/-- The parts of a double, as arithmetic takes it apart, are those that `Number.ofFloat` reads off
its bits. -/
lemma ofFloat_eq_ofParts (x : Float) : Number.ofFloat x = .ofParts x.toModel.unpack := by
  obtain ⟨⟨bits, hvalid⟩⟩ := x
  obtain ⟨b, hb⟩ : ∃ b : BitVec Format.binary64.numBits, b = bits.toBitVec := ⟨_, rfl⟩
  have hbits : (Float.ofModel ⟨bits, hvalid⟩).toBits.toNat = b.toNat := by rw [hb]; rfl
  have hunpack : Float.Model.unpack ⟨bits, hvalid⟩ = UnpackedFloat.unpack Format.binary64 b := by
    rw [hb]; rfl
  rw [hunpack]
  unfold Number.ofFloat UnpackedFloat.unpack
  simp only [Nat.pow_eq, hbits, fieldsToFraction]
  have hsign := isMinus_unpackSign b
  have hones := unpackExponent_eq_ones_iff b
  have hzero := unpackExponent_eq_zero_iff b
  have hmantissa := unpackMantissa_eq_zero_iff b
  -- Both sides branch on the exponent field, first on all ones and then on zero.
  by_cases hfield : b.toNat / 2 ^ 52 % 2 ^ 11 = 2 ^ 11 - 1
  · rw [if_pos hfield, if_pos (hones.mpr hfield)]
    by_cases hfraction : b.toNat % 2 ^ 52 = 0
    · rw [if_pos hfraction, if_pos (hmantissa.mpr hfraction), Number.ofParts, hsign]
    · rw [if_neg hfraction, if_neg (mt hmantissa.mp hfraction), Number.ofParts]
  · rw [if_neg hfield, if_neg (mt hones.mp hfield)]
    by_cases hsmall : b.toNat / 2 ^ 52 % 2 ^ 11 = 0
    · rw [if_pos hsmall, if_pos (hzero.mpr hsmall)]
      by_cases hfraction : b.toNat % 2 ^ 52 = 0
      · rw [dif_pos (hmantissa.mpr hfraction), Number.ofParts, hsign, hfraction]
      · rw [dif_neg (mt hmantissa.mp hfraction), Number.ofParts, hsign, toNat_unpackMantissa,
          toNat_unpackExponent, hsmall]
        rfl
    · rw [if_neg hsmall, if_neg (mt hzero.mp hsmall), Number.ofParts, hsign, toNat_one_append,
        toNat_unpackMantissa, toNat_unpackExponent]
      rfl

/-! ## Putting together -/

/-- The parts of a finite double; a zero has no exponent. -/
def finiteParts (sign : Sign) (m : ℕ) (e : ℤ) : UnpackedFloat :=
  if h : m = 0 then .zero sign else .finite sign m e (Nat.pos_of_ne_zero h)

variable {sign : Sign}

lemma unpack_normal {field fraction : ℕ} (hpos : 0 < field) (hlt : field < 2 ^ 11 - 1)
    (hfraction : fraction < 2 ^ 52) :
    UnpackedFloat.unpack Format.binary64
      (packComponents Format.binary64 sign (BitVec.ofNat _ field) (BitVec.ofNat _ fraction)) =
        .finite sign (2 ^ 52 + fraction) (field - 1075) (by omega) := by
  have hexponent : (BitVec.ofNat 11 field).toNat = field :=
    BitVec.toNat_ofNat .. ▸ Nat.mod_eq_of_lt (by omega)
  have hmantissa : (BitVec.ofNat 52 fraction).toNat = fraction :=
    BitVec.toNat_ofNat .. ▸ Nat.mod_eq_of_lt hfraction
  have hones : BitVec.ofNat 11 field ≠ -1#11 := by
    rw [ne_eq, ← BitVec.toNat_inj, hexponent]
    exact hlt.ne
  have hzero : BitVec.ofNat 11 field ≠ 0#11 := by
    rw [ne_eq, ← BitVec.toNat_inj, hexponent]
    exact hpos.ne'
  unfold UnpackedFloat.unpack
  simp only [unpackMantissa_packComponents, unpackExponent_packComponents,
    unpackSign_packComponents, if_neg hones, if_neg hzero, toNat_one_append, hexponent, hmantissa]
  cases sign <;> rfl

lemma unpack_subnormal {fraction : ℕ} (hpos : 0 < fraction) (hfraction : fraction < 2 ^ 52) :
    UnpackedFloat.unpack Format.binary64
      (packComponents Format.binary64 sign 0#_ (BitVec.ofNat _ fraction)) =
        .finite sign fraction (-1074) hpos := by
  have hmantissa : (BitVec.ofNat 52 fraction).toNat = fraction :=
    BitVec.toNat_ofNat .. ▸ Nat.mod_eq_of_lt hfraction
  have hnonzero : BitVec.ofNat 52 fraction ≠ 0#52 := by
    rw [ne_eq, ← BitVec.toNat_inj, hmantissa]
    exact hpos.ne'
  have hones : 0#11 ≠ -1#11 := by decide
  unfold UnpackedFloat.unpack
  simp only [unpackMantissa_packComponents, unpackExponent_packComponents,
    unpackSign_packComponents, if_neg hones, if_true, dif_neg hnonzero, hmantissa]
  cases sign <;> rfl

/-- How a finite double is put together, with `field` for its exponent. -/
lemma pack_finite (hpos : 0 < m) {field : ℕ} (hfield : e + 1075 = field) :
    UnpackedFloat.pack Format.binary64 (.finite sign m e hpos) =
      if 2 ^ 11 ≤ field + 1 then packedInfinity Format.binary64 sign
      else if m.log2 + 1 = 53 then
        packComponents Format.binary64 sign (BitVec.ofNat _ field) (BitVec.ofNat _ m)
      else packComponents Format.binary64 sign 0#_ (BitVec.ofNat _ m) := by
  have hbiased : (e + (Format.binary64.exponentBias : ℤ) +
      (Format.binary64.mantissaBitsWithoutImplicit : ℕ)).toNat = field := by
    have hbias : ((Format.binary64.exponentBias : ℕ) : ℤ) +
        (Format.binary64.mantissaBitsWithoutImplicit : ℕ) = 1075 := rfl
    omega
  unfold UnpackedFloat.pack
  simp only [hbiased]
  rfl

lemma unpack_pack_finite (hc : Canonical m e) (hle : e ≤ 971) (hpos : 0 < m) :
    UnpackedFloat.unpack Format.binary64
      (UnpackedFloat.pack Format.binary64 (.finite sign m e hpos)) = .finite sign m e hpos := by
  obtain ⟨field, hfield⟩ : ∃ n : ℕ, e + 1075 = n := ⟨(e + 1075).toNat, by have := hc.le; omega⟩
  have hlog : m.log2 < 53 := (Nat.log2_lt hpos.ne').mpr hc.lt
  rw [pack_finite hpos hfield, if_neg (by omega)]
  split_ifs with hnormal
  · -- The leading one of a normal mantissa is not stored.
    obtain ⟨fraction, rfl⟩ : ∃ k, m = 2 ^ 52 + k := by
      have hle : 2 ^ 52 ≤ m := (Nat.le_log2 hpos.ne').mp (by omega)
      exact ⟨m - 2 ^ 52, by omega⟩
    have hlt := hc.lt
    have hfraction : BitVec.ofNat 52 (2 ^ 52 + fraction) = BitVec.ofNat 52 fraction := by
      rw [← BitVec.toNat_inj, BitVec.toNat_ofNat, BitVec.toNat_ofNat, Nat.add_mod_left]
    have hle := hc.le
    rw [hfraction, unpack_normal (by omega) (by omega) (by omega)]
    congr 1
    omega
  · have hlt : m < 2 ^ 52 := (Nat.log2_lt hpos.ne').mp (by omega)
    obtain rfl : e = -1074 := hc.normal.resolve_right (by omega)
    exact unpack_subnormal hpos hlt

section

variable (sign : Sign)

lemma unpack_pack_infinity : (Float.Model.pack (.infinity sign)).unpack = .infinity sign := by
  cases sign <;> rfl

lemma unpack_pack_finiteParts (hc : Canonical m e) (hle : e ≤ 971) :
    (Float.Model.pack (finiteParts sign m e)).unpack = finiteParts sign m e := by
  unfold finiteParts
  split_ifs with hzero
  · cases sign <;> rfl
  · exact unpack_pack_finite hc hle (Nat.pos_of_ne_zero hzero)

/-- A double that is too large is an infinity: `971` is the largest exponent. -/
lemma pack_finiteParts_of_lt (hc : Canonical m e) (hlt : 971 < e) :
    Float.Model.pack (finiteParts sign m e) = Float.Model.pack (.infinity sign) := by
  have hpos : m ≠ 0 := by
    have := hc.normal
    omega
  obtain ⟨field, hfield⟩ : ∃ n : ℕ, e + 1075 = n := ⟨(e + 1075).toNat, by omega⟩
  unfold finiteParts Float.Model.pack
  simp only [dif_neg hpos, pack_finite _ hfield, if_pos (show 2 ^ 11 ≤ field + 1 by omega)]
  rfl

end

/-! ## Numbers -/

lemma ofParts_finiteParts (sign : Sign) (hc : Canonical m e) :
    Number.ofParts (finiteParts sign m e) = .finite (isMinus sign) m e := by
  unfold finiteParts
  split_ifs with hzero
  · obtain rfl : e = -1074 := hc.normal.resolve_right (by omega)
    rw [hzero, Number.ofParts]
  · rfl

lemma ofFloat_finiteParts (sign : Sign) (hc : Canonical m e) (hle : e ≤ 971) :
    Number.ofFloat (.ofModel (.pack (finiteParts sign m e))) = .finite (isMinus sign) m e := by
  rw [ofFloat_eq_ofParts, unpack_pack_finiteParts _ hc hle, ofParts_finiteParts _ hc]

lemma ofFloat_pack_infinity (sign : Sign) :
    Number.ofFloat (.ofModel (.pack (.infinity sign))) = .infinite (isMinus sign) := by
  rw [ofFloat_eq_ofParts, unpack_pack_infinity, Number.ofParts]

/-- A finite double is put together from its `finiteParts`. -/
lemma eq_of_ofFloat_finite {negative : Bool} (h : Number.ofFloat x = .finite negative m e) :
    e ≤ 971 ∧
      x = .ofModel (.pack (finiteParts (if negative then .negative else .positive) m e)) := by
  have hc := canonical_of_ofFloat h
  have hle : e ≤ 971 := by
    unfold Number.ofFloat at h
    simp only [Nat.pow_eq, fieldsToFraction] at h
    split_ifs at h <;> obtain ⟨-, -, rfl⟩ := Number.finite.inj h <;> omega
  refine ⟨hle, eq_of_ofFloat h ?_⟩
  rw [ofFloat_finiteParts _ hc hle]
  cases negative <;> rfl

/-- The parts of a finite double, by what `Number.ofFloat` says of it. -/
lemma unpack_of_ofFloat {negative : Bool} (h : Number.ofFloat x = .finite negative m e) :
    x.toModel.unpack = finiteParts (if negative then .negative else .positive) m e := by
  obtain ⟨hle, rfl⟩ := eq_of_ofFloat_finite h
  exact unpack_pack_finiteParts _ (canonical_of_ofFloat h) hle

lemma isFinite_iff :
    x.isFinite = true ↔ ∃ negative m e, Number.ofFloat x = .finite negative m e := by
  rw [ofFloat_eq_ofParts]
  change x.toModel.unpack.isFinite = true ↔ _
  cases x.toModel.unpack <;> simp [Number.ofParts, UnpackedFloat.isFinite]

end LoxLang.Decimal
