import LoxLang.Proofs.Decimal.Numerals
import LoxLang.Proofs.Source.Layout
import LoxLang.Proofs.Tree.Forms

/-!
# Constants and their texts

A finite number is shown by a numeral in its rounding interval, with a sign before it if it is
negative.  So constants that are no strings and no infinities are shown by different words, and none
of these is a name.
-/

namespace LoxLang

open Decimal Source

/-- No string and no infinity, and so a word when it is shown. -/
def Constant.Plain : Constant → Prop
  | nil | bool _ => True
  | number x => ∃ negative m e, Number.ofFloat x = .finite negative m e
  | string _ => False

/-! ## Numbers -/

variable {x y : Float} {negative negative' : Bool} {m : ℕ} {e : ℤ}

/-- The `text` of a finite number is a numeral that rounds to it, with a sign before it if it is
`negative`. -/
lemma Constant.toList_text_number (h : Number.ofFloat x = .finite negative m e) :
    ∃ text q, Denotes text q ∧ RoundsTo q m e ∧
      (Constant.number x).text.toList = (if negative then ['-'] else []) ++ text := by
  have hexact : exactWhole? x =
      (whole? m e).map fun n => (if negative then "-" else "") ++ digitText n := by
    rw [exactWhole?, h]
  -- A whole number is written exactly, any other by its fewest digits.
  cases hwhole : whole? m e with
  | some n =>
    have htext : (Constant.number x).text =
        (if negative then "-" else "") ++ digitText n ++ ".0" := by
      rw [Constant.text, hexact, hwhole]
      rfl
    refine ⟨_, _, denotes_positionalText ⟨n, 0⟩, ?_, ?_⟩
    · have hvalue : Scaled.value ⟨n, 0⟩ = m * 2 ^ e := by
        rw [Scaled.value, zpow_zero, mul_one]
        exact eq_of_whole? hwhole
      rw [hvalue]
      exact roundsTo_self m e
    · rw [htext]
      cases negative <;> simp [positionalText, zeros, digitText]
  | none =>
    have htext : (Constant.number x).text =
        (if negative then "-" else "") ++ positionalText ".0" (magnitudeDigits .up m e) := by
      rw [Constant.text, hexact, hwhole]
      simp [Layout.write, h, Constant.layout]
    refine ⟨_, _, denotes_positionalText (magnitudeDigits .up m e),
      roundsTo_magnitudeDigits (canonical_of_ofFloat h), ?_⟩
    rw [htext]
    cases negative <;> simp

/-- Finite numbers of the same `text` are equal. -/
lemma Constant.number_inj (hx : (Constant.number x).Plain) (hy : (Constant.number y).Plain)
    (h : (Constant.number x).text = (Constant.number y).text) : x = y := by
  obtain ⟨negative, m, e, hx⟩ := hx
  obtain ⟨negative', m', e', hy⟩ := hy
  obtain ⟨text, q, hdenotes, hrounds, htext⟩ := Constant.toList_text_number hx
  obtain ⟨text', q', hdenotes', hrounds', htext'⟩ := Constant.toList_text_number hy
  rw [h, htext'] at htext
  -- Only one with a sign starts with a sign.
  have hsign : ∀ {text text' : List Char} {q : ℚ}, Denotes text q → text ≠ '-' :: text' := by
    intro text text' q hdenotes heq
    obtain ⟨c, rest, rfl, hdigit⟩ := hdenotes.exists_digit
    rw [(List.cons.inj heq).1] at hdigit
    exact absurd hdigit (by decide)
  obtain ⟨rfl, rfl⟩ : negative' = negative ∧ text' = text := by
    cases negative' <;> cases negative
    · exact ⟨rfl, htext⟩
    · exact absurd htext (hsign hdenotes')
    · exact absurd htext.symm (hsign hdenotes)
    · exact ⟨rfl, (List.cons.inj htext).2⟩
  obtain rfl := hdenotes.unique hdenotes'
  obtain ⟨rfl, rfl⟩ := hrounds.unique (canonical_of_ofFloat hx) (canonical_of_ofFloat hy) hrounds'
  exact eq_of_ofFloat hx hy

/-- The characters of a number's `text`. -/
lemma Constant.text_number_chars (hx : (Constant.number x).Plain) :
    ∀ c ∈ (Constant.number x).text.toList, isDigit c = true ∨ c = '.' ∨ c = '-' := by
  obtain ⟨negative, m, e, hx⟩ := hx
  obtain ⟨text, q, hdenotes, -, htext⟩ := Constant.toList_text_number hx
  intro c hc
  rw [htext, List.mem_append] at hc
  rcases hc with hc | hc
  · cases negative <;> simp_all
  · rcases hdenotes.digit_or_point c hc with hdigit | hpoint
    · exact .inl hdigit
    · exact .inr (.inl hpoint)

lemma Constant.text_number_ne_nil (hx : (Constant.number x).Plain) :
    (Constant.number x).text.toList ≠ [] := by
  obtain ⟨negative, m, e, hx⟩ := hx
  obtain ⟨text, q, hdenotes, -, htext⟩ := Constant.toList_text_number hx
  obtain ⟨c, rest, rfl, -⟩ := hdenotes.exists_digit
  rw [htext]
  exact List.append_ne_nil_of_right_ne_nil _ (List.cons_ne_nil c rest)

/-- A `word` with a letter `c` is not the `text` of a number. -/
lemma Constant.text_number_ne (hx : (Constant.number x).Plain) {word : String} {c : Char}
    (hc : c ∈ word.toList) (hname : isNameStart c = true) : (Constant.number x).text ≠ word := by
  rintro rfl
  rcases Constant.text_number_chars hx c hc with hdigit | rfl | rfl
  · exact absurd hdigit (by simp [isDigit_eq_false_of_nameStart hname])
  · exact absurd hname (by decide)
  · exact absurd hname (by decide)

/-! ## Constants -/

lemma Constant.isWord_text {c : Constant} (h : c.Plain) : Form.IsWord c.text := by
  cases c with
  | nil => exact ⟨by decide, by decide⟩
  | bool b => cases b <;> exact ⟨by decide, by decide⟩
  | number x =>
    refine ⟨Constant.text_number_ne_nil h, List.all_eq_true.mpr fun c hc => ?_⟩
    rcases Constant.text_number_chars h c hc with hdigit | rfl | rfl
    · exact Form.isWordPart_of_class hdigit (by decide)
    · decide
    · decide
  | string s => exact h.elim

/-- Constants that are `Plain` and have the same `text` are equal. -/
lemma Constant.text_inj {c c' : Constant} (hc : c.Plain) (hc' : c'.Plain) (h : c.text = c'.text) :
    c = c' := by
  cases c with
  | string s => exact hc.elim
  | number x =>
    cases c' with
    | string s => exact hc'.elim
    | number y => rw [Constant.number_inj hc hc' h]
    | nil => exact absurd h (Constant.text_number_ne hc (c := 'n') (by decide) (by decide))
    | bool b =>
      -- Both words for a truth value have an `e` in them.
      refine absurd h (Constant.text_number_ne hc (c := 'e') ?_ (by decide))
      cases b <;> decide
  | nil =>
    cases c' with
    | string s => exact hc'.elim
    | number y =>
      exact absurd h.symm (Constant.text_number_ne hc' (c := 'n') (by decide) (by decide))
    | nil => rfl
    | bool b => cases b <;> exact absurd h (by decide)
  | bool b =>
    cases c' with
    | string s => exact hc'.elim
    | number y =>
      refine absurd h.symm (Constant.text_number_ne hc' (c := 'e') ?_ (by decide))
      cases b <;> decide
    | nil => cases b <;> exact absurd h (by decide)
    | bool b' =>
      have hbool : ∀ b b' : Bool, (Constant.bool b).text = (Constant.bool b').text → b = b' := by
        decide
      rw [hbool b b' h]

end LoxLang
