import LoxLang.Proofs.Decimal.Nearest
import LoxLang.Proofs.Decimal.Numerals
import LoxLang.Proofs.Json.Reader

/-!
# Strings and numbers that are read back

A quoted string is read as that string, whatever its characters are, and a number that is written is
read as that number: its digits are the fewest that round to it, and reading rounds them.
-/

namespace LoxLang.Json

open Source (isDigit digitsValue)

namespace Reader

/-! ## Strings -/

lemma hexValue?_hexDigit {n : ℕ} (h : n < 16) : hexValue? (hexDigit n) = some n := by
  have hall : ∀ n : Fin 16, hexValue? (hexDigit n) = some n.val := by decide
  exact hall ⟨n, h⟩

lemma hexNumber_hexDigit {n : ℕ} (h : n < 0x100) (cs : List Char) :
    hexNumber ('0' :: '0' :: hexDigit (n / 16) :: hexDigit (n % 16) :: cs) = some (n, cs) := by
  have hzero : hexValue? '0' = some 0 := rfl
  simp only [hexNumber, hzero, hexValue?_hexDigit (show n / 16 < 16 by omega),
    hexValue?_hexDigit (show n % 16 < 16 by omega),
    Option.bind_eq_bind, Option.bind_some, Option.pure_def]
  congr 2
  omega

/-- A character that is written within a string by `escape` is read as that character. -/
lemma character_escape (c : Char) (cs : List Char) : character (escape c ++ cs) = some (c, cs) := by
  unfold escape
  -- Seven escapes by letter, the one by number, and any other character as itself.
  split_ifs with hquote hslash hback hfeed hline hreturn htab hcontrol
  · subst hquote; rfl
  · subst hslash; rfl
  · subst hback; rfl
  · subst hfeed; rfl
  · subst hline; rfl
  · subst hreturn; rfl
  · subst htab; rfl
  · have hlow : (decide (c.toNat < 0xd800) || decide (0xe000 ≤ c.toNat)) = true := by simp; omega
    simp only [List.cons_append, List.nil_append, character, numberedEscape,
      hexNumber_hexDigit (show c.toNat < 0x100 by omega),
      Option.bind_eq_bind, Option.bind_some, hlow, if_true, Option.pure_def, Char.ofNat_toNat]
  · simp [character, hquote, hslash, hcontrol]

/-- Two escapes by number are one character, and the first of them alone is none. -/
example : character "\\ud83d\\ude00".toList = some ('😀', []) ∧
    character "\\ud83d ".toList = none := by
  decide

/-- What `escape` writes for a character never starts with a quote, so it cannot close a string. -/
lemma exists_escape_eq (c : Char) : ∃ d ds, escape c = d :: ds ∧ d ≠ '"' := by
  by_cases hquote : c = '"'
  · subst hquote
    exact ⟨'\\', ['"'], rfl, by decide⟩
  · rw [escape, if_neg hquote]
    split_ifs
    on_goal 8 => exact ⟨c, [], rfl, hquote⟩
    all_goals exact ⟨'\\', _, rfl, by decide⟩

lemma characters_flatMap_escape (text rest : List Char) {steps : ℕ} (h : text.length < steps) :
    characters steps (text.flatMap escape ++ '"' :: rest) = some (text, rest) := by
  obtain ⟨steps, rfl⟩ : ∃ n, steps = n + 1 := ⟨steps - 1, by omega⟩
  induction text generalizing steps with
  | nil => rfl
  | cons c text ih =>
    obtain ⟨steps, rfl⟩ : ∃ n, steps = n + 1 := ⟨steps - 1, by rw [List.length_cons] at h; omega⟩
    have hc := character_escape c (text.flatMap escape ++ '"' :: rest)
    have htext := ih steps (by simpa using h)
    obtain ⟨d, ds, hescape, hd⟩ := exists_escape_eq c
    rw [List.flatMap_cons, List.append_assoc]
    rw [hescape, List.cons_append] at hc ⊢
    rw [characters.eq_3 _ _ (by simpa using hd), hc]
    simp only [Option.bind_eq_bind, Option.bind_some, htext, Option.pure_def]

lemma length_le_length_flatMap_escape (text : List Char) :
    text.length ≤ (text.flatMap escape).length := by
  induction text with
  | nil => exact le_rfl
  | cons c text ih =>
    obtain ⟨d, ds, hescape, -⟩ := exists_escape_eq c
    rw [List.flatMap_cons, hescape, List.length_append, List.length_cons, List.length_cons]
    omega

/-- What follows the opening quote of a written string is read by `quoted` as that string. -/
lemma quoted_flatMap_escape (s : String) (rest : List Char) :
    quoted (s.toList.flatMap escape ++ '"' :: rest) = some (s, rest) := by
  have hlength := length_le_length_flatMap_escape s.toList
  have hsteps : s.toList.length < (s.toList.flatMap escape ++ '"' :: rest).length := by
    rw [List.length_append, List.length_cons]
    omega
  simp only [quoted, characters_flatMap_escape s.toList rest hsteps, Option.bind_eq_bind,
    Option.bind_some, Option.pure_def, String.ofList_toList]

/-! ## Numbers -/

/-- A text `rest` that no number before it goes on into. -/
def EndsNumber (rest : List Char) : Prop :=
  ∀ c ∈ rest.head?, isDigit c = false ∧ c ≠ '.' ∧ c ≠ 'e' ∧ c ≠ 'E'

/-- A run of digits, which a number may have anywhere but in front. -/
structure IsRun (run : List Char) : Prop where
  ne_nil : run ≠ []
  isDigit : ∀ c ∈ run, isDigit c = true

lemma isRun_toDigits (n : ℕ) : IsRun (Nat.toDigits 10 n) :=
  ⟨Nat.toDigits_ne_nil, fun _ => Decimal.isDigit_of_mem_toDigits⟩

namespace IsRun

variable {run : List Char} (h : IsRun run)

include h

lemma append_zeros (n : ℕ) : IsRun (run ++ List.replicate n '0') where
  ne_nil := List.append_ne_nil_of_left_ne_nil h.ne_nil _
  isDigit c hc := (List.mem_append.mp hc).elim (h.isDigit c) Decimal.isDigit_of_mem_zeros

lemma zeros_append (n : ℕ) : IsRun (List.replicate n '0' ++ run) where
  ne_nil := List.append_ne_nil_of_right_ne_nil _ h.ne_nil
  isDigit c hc := (List.mem_append.mp hc).elim Decimal.isDigit_of_mem_zeros (h.isDigit c)

lemma take (k : ℕ) : IsRun (run.take (k + 1)) where
  ne_nil := by simp [h.ne_nil]
  isDigit c hc := h.isDigit c (List.mem_of_mem_take hc)

lemma drop {k : ℕ} (hne : run.drop k ≠ []) : IsRun (run.drop k) where
  ne_nil := hne
  isDigit c hc := h.isDigit c (List.mem_of_mem_drop hc)

end IsRun

/-- Digits that a number may have in front: an `IsRun` in which a zero stands alone. -/
structure IsFront (run : List Char) : Prop extends IsRun run where
  zero_alone : run.head? = some '0' → run.length ≤ 1

/-- The digits of a positive number do not start with a zero. -/
lemma head?_toDigits {n : ℕ} (h : 0 < n) : (Nat.toDigits 10 n).head? ≠ some '0' := by
  induction n using Nat.strong_induction_on with
  | h n ih =>
    by_cases hlt : n < 10
    · rw [Nat.toDigits_of_lt_base hlt]
      have hall : ∀ n : Fin 10, 0 < n.val → [n.val.digitChar].head? ≠ some '0' := by decide
      exact hall ⟨n, hlt⟩ h
    · rw [Nat.toDigits_of_base_le (by decide) (by omega),
        List.head?_append_of_ne_nil _ Nat.toDigits_ne_nil]
      exact ih (n / 10) (by omega) (by omega)

lemma isFront_toDigits (n : ℕ) : IsFront (Nat.toDigits 10 n) where
  toIsRun := isRun_toDigits n
  zero_alone hzero := by
    obtain rfl : n = 0 := by
      by_contra hne
      exact head?_toDigits (Nat.pos_of_ne_zero hne) hzero
    exact le_rfl

section

variable {run rest : List Char}

lemma digits_append (h : IsRun run) (hrest : ∀ c ∈ rest.head?, isDigit c = false) :
    digits (run ++ rest) = some (run, rest) := by
  have htake : rest.takeWhile isDigit = [] := by
    cases rest with
    | nil => rfl
    | cons c rest => exact List.takeWhile_cons_of_neg (by simp [hrest c rfl])
  have hdrop : rest.dropWhile isDigit = rest := by
    cases rest with
    | nil => rfl
    | cons c rest => exact List.dropWhile_cons_of_neg (by simp [hrest c rfl])
  simp only [digits, List.takeWhile_append_of_pos h.isDigit, List.dropWhile_append_of_pos h.isDigit,
    htake, hdrop, List.append_nil, List.isEmpty_iff, if_neg h.ne_nil]

lemma wholePart_append (h : IsFront run) (hrest : ∀ c ∈ rest.head?, isDigit c = false) :
    wholePart (run ++ rest) = some (run, rest) := by
  have hzero : ¬(decide (run.head? = some '0') && decide (1 < run.length)) = true := by
    simpa using h.zero_alone
  simp only [wholePart, digits_append h.toIsRun hrest, Option.bind_eq_bind, Option.bind_some,
    if_neg hzero, Option.pure_def]

/-- A point and the digits `after` it, or nothing when there are no digits. -/
def pointed (after : List Char) : List Char := if after.isEmpty then [] else '.' :: after

/-- The letter, sign and digits of an exponent, if there is one. -/
def exponentMark : Option ℤ → List Char
  | none => []
  | some e => 'e' :: (if e < 0 then '-' else '+') :: Nat.toDigits 10 e.natAbs

variable {before after : List Char}

lemma fractionPart_pointed (h : after ≠ [] → IsRun after)
    (hrest : ∀ c ∈ rest.head?, isDigit c = false ∧ c ≠ '.') :
    fractionPart (pointed after ++ rest) = some (after, rest) := by
  cases after with
  | nil =>
    cases rest with
    | nil => rfl
    | cons c rest => exact fractionPart.eq_2 _ (by simpa [pointed] using (hrest c rfl).2)
  | cons c after => exact digits_append (h (List.cons_ne_nil c after)) fun d hd => (hrest d hd).1

lemma exponentPart_mark (e : Option ℤ) (hrest : EndsNumber rest) :
    exponentPart (exponentMark e ++ rest) = some (e, rest) := by
  cases e with
  | none =>
    cases rest with
    | nil => rfl
    | cons c rest =>
      obtain ⟨-, -, hsmall, hlarge⟩ := hrest c rfl
      simp [exponentMark, exponentPart, hsmall, hlarge]
  | some e =>
    have hdigits := digits_append (isRun_toDigits e.natAbs) fun c hc => (hrest c hc).1
    have hvalue := Decimal.digitsValue_toDigits e.natAbs
    by_cases he : e < 0
    · simp [exponentMark, exponentPart, exponent, he, hdigits, hvalue, abs_of_neg he]
    · simp [exponentMark, exponentPart, exponent, he, hdigits, hvalue, abs_of_nonneg (not_lt.mp he)]

lemma unsigned_parts (negative : Bool) (e : Option ℤ) (hbefore : IsFront before)
    (hafter : after ≠ [] → IsRun after) (hrest : EndsNumber rest) :
    unsigned negative (before ++ (pointed after ++ (exponentMark e ++ rest))) =
      some (if !negative && after.isEmpty && e.isNone then .whole (digitsValue before)
        else .number
          (Decimal.nearest negative (digitsValue (before ++ after)) (e.getD 0 - after.length)),
        rest) := by
  have hmark : ∀ c ∈ (exponentMark e ++ rest).head?, isDigit c = false ∧ c ≠ '.' := by
    cases e with
    | none => exact fun c hc => ⟨(hrest c hc).1, (hrest c hc).2.1⟩
    | some e => simp [exponentMark]; decide
  have hpoint : ∀ c ∈ (pointed after ++ (exponentMark e ++ rest)).head?, isDigit c = false := by
    cases after with
    | nil => exact fun c hc => (hmark c hc).1
    | cons d after => simp [pointed]; decide
  simp only [unsigned, wholePart_append hbefore hpoint, fractionPart_pointed hafter hmark,
    exponentPart_mark e hrest, Option.bind_eq_bind, Option.bind_some, Option.pure_def]
  split_ifs <;> rfl

end

/-! ## Numbers that are written -/

open Decimal

/-- Positional notation has digits on both sides of its point, if (`h`) a zero comes with no
exponent. -/
lemma exists_positionalText_eq {s : Scaled} (h : s.digits = 0 → s.exponent = 0) :
    ∃ before after,
      IsFront before ∧ IsRun after ∧ (positionalText ".0" s).toList = before ++ '.' :: after := by
  obtain ⟨n, exponent⟩ := s
  have hrun := isRun_toDigits n
  simp only [positionalText, zeros]
  split_ifs with hwhole hpoint
  · -- Zeros behind the digits of `n`, which start with none, or the digit zero alone.
    refine ⟨Nat.toDigits 10 n ++ List.replicate exponent.toNat '0', ['0'],
      ⟨hrun.append_zeros _, fun hzero => ?_⟩, isRun_toDigits 0, by simp⟩
    rcases n.eq_zero_or_pos with rfl | hpos
    · obtain rfl : exponent = 0 := h rfl
      exact le_rfl
    · rw [List.head?_append_of_ne_nil _ hrun.ne_nil] at hzero
      exact absurd hzero (head?_toDigits hpos)
  · obtain ⟨k, hk⟩ : ∃ k : ℕ, (Nat.toDigits 10 n).length + exponent = (k + 1 : ℕ) :=
      ⟨((Nat.toDigits 10 n).length + exponent - 1).toNat, by omega⟩
    -- A zero would have been whole, so the digits start with another digit.
    have hpos : 0 < n := Nat.pos_of_ne_zero fun hzero => hwhole (h hzero).ge
    have hafter : (Nat.toDigits 10 n).drop (k + 1) ≠ [] := by
      rw [ne_eq, List.drop_eq_nil_iff]
      omega
    refine ⟨_, _, ⟨hrun.take k, fun hzero => ?_⟩, hrun.drop hafter, by simp [hk]⟩
    rw [List.head?_take, if_neg (Nat.succ_ne_zero k)] at hzero
    exact absurd hzero (head?_toDigits hpos)
  · exact ⟨['0'], _, isFront_toDigits 0,
      hrun.zeros_append ((Nat.toDigits 10 n).length + exponent).natAbs, by simp⟩

/-- In `exponentText` the leading digit stands before the point and the others after it. -/
lemma toList_exponentText (s : Scaled) : (exponentText 1 s).toList =
    (Nat.toDigits 10 s.digits).take 1 ++
    (pointed ((Nat.toDigits 10 s.digits).drop 1) ++ exponentMark (some s.leading)) := by
  have hleading : s.exponent + (Nat.toDigits 10 s.digits).length - 1 = s.leading := rfl
  have hpadding : 1 - (Nat.toDigits 10 s.leading.natAbs).length = 0 :=
    Nat.sub_eq_zero_of_le Nat.length_toDigits_pos
  simp only [exponentText, hleading, paddedText, digitText, zeros, String.length_ofList, hpadding,
    pointed, exponentMark]
  split_ifs <;> simp

/-- The digits of a decimal, in either notation, are read with an exponent that gives them its
value. -/
lemma exists_unsigned_eq {s : Scaled} (h : s.digits = 0 → s.exponent = 0) {text : String}
    (htext : text = positionalText ".0" s ∨ text = exponentText 1 s) :
    ∃ (d : ℕ) (k : ℤ), (d * 10 ^ k : ℚ) = s.value ∧
      ∀ negative rest, EndsNumber rest →
        unsigned negative (text.toList ++ rest) = some (.number (nearest negative d k), rest) := by
  rcases htext with rfl | rfl
  · obtain ⟨before, after, hbefore, hafter, htext⟩ := exists_positionalText_eq h
    refine ⟨digitsValue (before ++ after), -after.length, ?_, fun negative rest hrest => ?_⟩
    · have hdenotes := denotes_positionalText s
      rw [htext] at hdenotes
      rw [zpow_neg, zpow_natCast, ← div_eq_mul_inv]
      exact (Denotes.numeral hbefore.ne_nil hbefore.isDigit hafter.isDigit).unique hdenotes
    · have hread := unsigned_parts negative none hbefore (fun _ => hafter) hrest
      simpa [htext, pointed, exponentMark, hafter.ne_nil] using hread
  · have hrun := isRun_toDigits s.digits
    have hfront : IsFront ((Nat.toDigits 10 s.digits).take 1) :=
      ⟨hrun.take 0, fun _ => List.length_take_le 1 _⟩
    refine ⟨s.digits, s.exponent, rfl, fun negative rest hrest => ?_⟩
    have hread := unsigned_parts negative (some s.leading) hfront (hrun.drop (k := 1)) hrest
    -- One digit stands before the point, so the exponent is raised by the number of the others.
    have hexponent : s.leading - ((Nat.toDigits 10 s.digits).drop 1).length = s.exponent := by
      have hlength : 0 < (Nat.toDigits 10 s.digits).length := Nat.length_toDigits_pos
      rw [Scaled.leading, List.length_drop]
      omega
    rw [List.take_append_drop, digitsValue_toDigits, Option.getD_some, hexponent] at hread
    simpa [toList_exponentText] using hread

variable {m : ℕ} {e : ℤ} {x : Float} {rest : List Char}

/-- If `magnitudeDigits` are those of a zero, they have no exponent. -/
lemma exponent_magnitudeDigits (hc : Canonical m e) (h : (magnitudeDigits .even m e).digits = 0) :
    (magnitudeDigits .even m e).exponent = 0 := by
  have hrounds : RoundsTo (magnitudeDigits .even m e).value m e := roundsTo_magnitudeDigits hc
  rw [Scaled.value, h, Nat.cast_zero, zero_mul] at hrounds
  obtain ⟨rfl, -⟩ := hrounds.unique hc canonical_zero (roundsTo_zero le_rfl (by positivity))
  rfl

/-- A number starts with a digit after its sign. -/
lemma exists_digit_of_unsigned {negative : Bool} {cs : List Char} {r : Json × List Char}
    (h : unsigned negative cs = some r) : ∃ c rest, cs = c :: rest ∧ isDigit c = true := by
  cases cs with
  | nil => exact absurd h (by simp [unsigned, wholePart, digits])
  | cons c rest =>
    refine ⟨c, rest, rfl, ?_⟩
    by_contra hc
    exact absurd h (by simp [unsigned, wholePart, digits, hc])

lemma number_of_unsigned {cs : List Char} {r : Json × List Char} (h : unsigned false cs = some r) :
    number cs = some r := by
  obtain ⟨c, cs, rfl, hc⟩ := exists_digit_of_unsigned h
  have hminus : c ≠ '-' := by
    rintro rfl
    exact absurd hc (by decide)
  rw [number.eq_2 _ (by simpa using hminus), h]

/-- A finite double that `layout.write` writes is read by `number` as that double. -/
lemma number_write (hx : x.isFinite = true) (hrest : EndsNumber rest) :
    number ((layout.write x).toList ++ rest) = some (.number x, rest) := by
  obtain ⟨negative, m, e, hfinite⟩ := isFinite_iff.mp hx
  have hc := canonical_of_ofFloat hfinite
  obtain ⟨text, htext, hwrite⟩ : ∃ text,
      (text = positionalText ".0" (magnitudeDigits .even m e) ∨
        text = exponentText 1 (magnitudeDigits .even m e)) ∧
        layout.write x = (if negative then "-" else "") ++ text := by
    simp only [Layout.write, hfinite, layout, Bool.true_or, Bool.and_true]
    refine ⟨_, ?_, rfl⟩
    exact ite_eq_or_eq _ _ _
  obtain ⟨d, k, hvalue, hread⟩ := exists_unsigned_eq (exponent_magnitudeDigits hc) htext
  have hread := hread negative rest hrest
  -- What is read rounds to what was written, and `nearest` is what it rounds to.
  have hrounds : RoundsTo (d * 10 ^ k) m e := hvalue ▸ roundsTo_magnitudeDigits hc
  rw [nearest_of_roundsTo hfinite hrounds] at hread
  cases negative with
  | false => simpa [hwrite] using number_of_unsigned hread
  | true => simpa [hwrite, number] using hread

lemma number_repr (n : ℕ) (hrest : EndsNumber rest) :
    number (n.repr.toList ++ rest) = some (.whole n, rest) := by
  have hread := unsigned_parts false none (isFront_toDigits n) (fun hne => absurd rfl hne) hrest
  rw [Nat.toList_repr]
  exact number_of_unsigned (by simpa [pointed, exponentMark, digitsValue_toDigits] using hread)

end Reader

end LoxLang.Json
