import LoxLang.Proofs.Decimal.Shortest
import LoxLang.Proofs.Source.Segments
import LoxLang.Source.Item

/-!
# Numerals and what they stand for

A numeral is made of digits, a point and more digits.  A decimal in positional notation is a numeral
that stands for it, so decimals that are written alike are equal.
-/

namespace LoxLang.Decimal

open Source (isDigit digitsValue)

/-! ## Runs of digits -/

lemma isDigit_of_mem_toDigits {n : ℕ} {c : Char} (h : c ∈ Nat.toDigits 10 n) :
    isDigit c = true := by
  have hdigit : c.isDigit = true := Nat.isDigit_of_mem_toDigits (by decide) (by decide) h
  simpa [isDigit, Char.isDigit, Char.le_def] using hdigit

lemma isDigit_of_mem_zeros {n : ℕ} {c : Char} (h : c ∈ List.replicate n '0') :
    isDigit c = true := by
  rw [List.eq_of_mem_replicate h]
  decide

lemma digitsValue_toDigits (n : ℕ) : digitsValue (Nat.toDigits 10 n) = n :=
  Nat.ofDigitChars_ten_toDigits

lemma digitsValue_append_zeros (cs : List Char) (n : ℕ) :
    digitsValue (cs ++ List.replicate n '0') = 10 ^ n * digitsValue cs := by
  change Nat.ofDigitChars 10 (cs ++ _) 0 = _
  rw [Nat.ofDigitChars_append, Nat.ofDigitChars_replicate_zero]
  rfl

lemma digitsValue_zeros_append (n : ℕ) (cs : List Char) :
    digitsValue (List.replicate n '0' ++ cs) = digitsValue cs := by
  change Nat.ofDigitChars 10 (_ ++ cs) 0 = _
  rw [Nat.ofDigitChars_append, Nat.ofDigitChars_replicate_zero, Nat.mul_zero]
  rfl

/-! ## Numerals -/

/-- Digits, a point and digits, and the rational that they stand for. -/
inductive Denotes : List Char → ℚ → Prop where
  | numeral {whole fraction : List Char} : whole ≠ [] → (∀ c ∈ whole, isDigit c = true) →
      (∀ c ∈ fraction, isDigit c = true) →
      Denotes (whole ++ '.' :: fraction) (digitsValue (whole ++ fraction) / 10 ^ fraction.length)

namespace Denotes

variable {text : List Char} {q q' : ℚ}

lemma exists_digit (h : Denotes text q) : ∃ c rest, text = c :: rest ∧ isDigit c = true := by
  obtain ⟨hne, hwhole, -⟩ := h
  obtain ⟨c, rest, rfl⟩ := List.exists_cons_of_ne_nil hne
  exact ⟨c, rest ++ _, rfl, hwhole c List.mem_cons_self⟩

lemma digit_or_point (h : Denotes text q) : ∀ c ∈ text, isDigit c = true ∨ c = '.' := by
  obtain ⟨-, hwhole, hfraction⟩ := h
  intro c hc
  rcases List.mem_append.mp hc with hc | hc
  · exact .inl (hwhole c hc)
  · rcases List.mem_cons.mp hc with rfl | hc
    · exact .inr rfl
    · exact .inl (hfraction c hc)

/-- A numeral `text` stands for one rational only. -/
lemma unique (h : Denotes text q) (h' : Denotes text q') : q = q' := by
  have hrun : ∀ {whole : List Char}, (∀ c ∈ whole, isDigit c = true) → ∀ fraction : List Char,
      (whole ++ '.' :: fraction).takeWhile isDigit = whole := by
    intro whole hwhole fraction
    rw [List.takeWhile_append_of_pos hwhole, List.takeWhile_cons_of_neg (by decide),
      List.append_nil]
  obtain @⟨whole, fraction, -, hwhole, -⟩ := h
  generalize htext : whole ++ '.' :: fraction = text at h'
  obtain @⟨whole', fraction', -, hwhole', -⟩ := h'
  obtain rfl : whole = whole' := by rw [← hrun hwhole fraction, htext, hrun hwhole' fraction']
  obtain rfl : fraction = fraction' := (List.cons.inj (List.append_cancel_left htext)).2
  rfl

end Denotes

/-! ## Positional notation -/

section

variable (n : ℕ) (k : ℕ)

/-- A whole number: the digits of `n`, the `k` zeros of its exponent, and one more behind the
point. -/
lemma denotes_whole :
    Denotes (Nat.toDigits 10 n ++ List.replicate k '0' ++ ['.', '0']) (n * 10 ^ k) := by
  have hwhole : ∀ c ∈ Nat.toDigits 10 n ++ List.replicate k '0', isDigit c = true := by
    intro c hc
    rcases List.mem_append.mp hc with hc | hc
    · exact isDigit_of_mem_toDigits hc
    · exact isDigit_of_mem_zeros hc
  have hvalue : (digitsValue (Nat.toDigits 10 n ++ List.replicate k '0' ++ ['0']) : ℚ) /
      10 ^ ['0'].length = n * 10 ^ k := by
    rw [List.append_assoc, ← List.replicate_succ', digitsValue_append_zeros, digitsValue_toDigits,
      List.length_singleton, pow_one, div_eq_iff (by norm_num)]
    push_cast
    ring
  rw [← hvalue]
  exact .numeral
    (List.append_ne_nil_of_left_ne_nil (List.ne_nil_of_length_pos Nat.length_toDigits_pos) _) hwhole
    (List.forall_mem_singleton.mpr rfl)

/-- The point stands among the digits of `n`, behind the first `k + 1` of them. -/
lemma denotes_within :
    Denotes ((Nat.toDigits 10 n).take (k + 1) ++ '.' :: (Nat.toDigits 10 n).drop (k + 1))
      (n / 10 ^ ((Nat.toDigits 10 n).length - (k + 1))) := by
  have hvalue : (n / 10 ^ ((Nat.toDigits 10 n).length - (k + 1)) : ℚ) =
      digitsValue ((Nat.toDigits 10 n).take (k + 1) ++ (Nat.toDigits 10 n).drop (k + 1)) /
        10 ^ ((Nat.toDigits 10 n).drop (k + 1)).length := by
    rw [List.take_append_drop, digitsValue_toDigits, List.length_drop]
  have hne : (Nat.toDigits 10 n).take (k + 1) ≠ [] := by simp
  rw [hvalue]
  exact .numeral hne (fun c hc => isDigit_of_mem_toDigits (List.mem_of_mem_take hc))
    (fun c hc => isDigit_of_mem_toDigits (List.mem_of_mem_drop hc))

/-- The digits of `n` follow the point after `k` zeros. -/
lemma denotes_behind : Denotes ('0' :: '.' :: (List.replicate k '0' ++ Nat.toDigits 10 n))
    (n / 10 ^ (k + (Nat.toDigits 10 n).length)) := by
  have hvalue : (n / 10 ^ (k + (Nat.toDigits 10 n).length) : ℚ) =
      digitsValue (['0'] ++ (List.replicate k '0' ++ Nat.toDigits 10 n)) /
        10 ^ (List.replicate k '0' ++ Nat.toDigits 10 n).length := by
    rw [← List.append_assoc, ← List.replicate_one, List.replicate_append_replicate,
      digitsValue_zeros_append, digitsValue_toDigits, List.length_append, List.length_replicate]
  have hfraction : ∀ c ∈ List.replicate k '0' ++ Nat.toDigits 10 n, isDigit c = true := by
    intro c hc
    rcases List.mem_append.mp hc with hc | hc
    · exact isDigit_of_mem_zeros hc
    · exact isDigit_of_mem_toDigits hc
  rw [hvalue]
  exact .numeral (List.cons_ne_nil '0' []) (List.forall_mem_singleton.mpr rfl) hfraction

end

/-- A decimal in positional notation stands for itself: `positionalText` `Denotes` its value. -/
lemma denotes_positionalText (s : Scaled) : Denotes (positionalText ".0" s).toList s.value := by
  obtain ⟨n, exponent⟩ := s
  simp only [positionalText, zeros, Scaled.value]
  -- The exponent decides whether the point stands behind, among or before the digits.
  split_ifs with hwhole hpoint
  · obtain ⟨k, rfl⟩ := Int.eq_ofNat_of_zero_le hwhole
    have hdenotes := denotes_whole n k
    simpa using hdenotes
  · obtain ⟨k, hk⟩ : ∃ k : ℕ, (Nat.toDigits 10 n).length + exponent = (k + 1 : ℕ) :=
      ⟨((Nat.toDigits 10 n).length + exponent - 1).toNat, by omega⟩
    have hexponent : exponent = -((Nat.toDigits 10 n).length - (k + 1) : ℕ) := by omega
    have hdenotes := denotes_within n k
    rw [hk, Int.toNat_natCast, hexponent, zpow_neg, zpow_natCast, ← div_eq_mul_inv]
    simpa using hdenotes
  · obtain ⟨k, hk⟩ : ∃ k : ℕ, (Nat.toDigits 10 n).length + exponent = -k :=
      ⟨((Nat.toDigits 10 n).length + exponent).natAbs, by omega⟩
    have hexponent : exponent = -(k + (Nat.toDigits 10 n).length : ℕ) := by omega
    have hdenotes := denotes_behind n k
    rw [hk, Int.natAbs_neg, Int.natAbs_natCast, hexponent, zpow_neg, zpow_natCast, ← div_eq_mul_inv]
    simpa using hdenotes

end LoxLang.Decimal
