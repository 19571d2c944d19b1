import LoxLang.Proofs.Lists
import LoxLang.Source.Segment

/-!
# Segments and the text they cover

The texts of the segments of a text make up that text.  A blank ends every segment that it does not
belong to, and belongs only to strings and comments.  A line end even cuts a text: what follows it
does not change the segments before it, unless it falls into a string that is not closed yet.
-/

namespace LoxLang.Source

/-! ## The text of a segment -/

lemma fraction_isPrefix (cs : List Char) : fraction cs <+: cs := by
  unfold fraction
  split
  · split_ifs
    · exact List.cons_prefix_cons.mpr ⟨rfl,
        List.cons_prefix_cons.mpr ⟨rfl, List.takeWhile_prefix _⟩⟩
    · exact List.nil_prefix
  · exact List.nil_prefix

lemma numberRest_isPrefix (cs : List Char) : numberRest cs <+: cs := by
  have hrest := (List.prefix_append_right_inj (cs.takeWhile isDigit)).mpr
    (fraction_isPrefix (cs.dropWhile isDigit))
  rwa [List.takeWhile_append_dropWhile] at hrest

lemma quoted_eq (cs : List Char) :
    quoted cs =
      if (cs.takeWhile (· ≠ '"')).length < cs.length then
        ⟨.token .string, '"' :: (cs.takeWhile (· ≠ '"') ++ ['"'])⟩
      else ⟨.unclosed, '"' :: cs⟩ := rfl

/-- What stands up to the first quote of `cs`, with that quote. -/
lemma takeWhile_concat_isPrefix {cs : List Char} (h : (cs.takeWhile (· ≠ '"')).length < cs.length) :
    cs.takeWhile (· ≠ '"') ++ ['"'] <+: cs := by
  induction cs with
  | nil => exact absurd h (Nat.lt_irrefl 0)
  | cons c cs ih =>
    by_cases hc : c = '"'
    · simp [hc]
    · have hstep : (c :: cs).takeWhile (· ≠ '"') = c :: cs.takeWhile (· ≠ '"') := by simp [hc]
      rw [hstep] at h ⊢
      exact List.cons_prefix_cons.mpr ⟨rfl, ih (Nat.lt_of_succ_lt_succ h)⟩

/-- The segment `cut c cs` covers its first character `c` and some of the text after it. -/
lemma cut_text (c : Char) (cs : List Char) : ∃ rest, rest <+: cs ∧ (cut c cs).text = c :: rest := by
  unfold cut
  -- One case for each branch of `cut`, by the first character.
  split_ifs with hblank hslash hquote hdigit hname
  · exact ⟨[], List.nil_prefix, rfl⟩
  · subst hslash
    unfold slash
    split
    · exact ⟨_, List.cons_prefix_cons.mpr ⟨rfl, List.takeWhile_prefix _⟩, rfl⟩
    · exact ⟨[], List.nil_prefix, rfl⟩
  · subst hquote
    rw [quoted_eq]
    split_ifs with hclosed
    · exact ⟨_, takeWhile_concat_isPrefix hclosed, rfl⟩
    · exact ⟨cs, List.prefix_rfl, rfl⟩
  · exact ⟨_, numberRest_isPrefix cs, rfl⟩
  · exact ⟨_, List.takeWhile_prefix _, rfl⟩
  · unfold symbol
    split
    · exact ⟨[], List.nil_prefix, rfl⟩
    · split
      · exact ⟨['='], List.cons_prefix_cons.mpr ⟨rfl, List.nil_prefix⟩, rfl⟩
      · exact ⟨[], List.nil_prefix, rfl⟩
    · exact ⟨[], List.nil_prefix, rfl⟩

lemma flatMap_text_segmentsAfter (skip : ℕ) (cs : List Char) :
    (segmentsAfter skip cs).flatMap Segment.text = cs.drop skip := by
  induction cs generalizing skip with
  | nil => simp [segmentsAfter]
  | cons c cs ih =>
    cases skip with
    | zero =>
      obtain ⟨rest, ⟨later, hlater⟩, htext⟩ := cut_text c cs
      rw [segmentsAfter, List.flatMap_cons, ih, htext, ← hlater]
      simp
    | succ skip => rw [segmentsAfter, ih, List.drop_succ_cons]

/-- The texts of the `segments` of a text make up the text. -/
theorem flatMap_text_segments (cs : List Char) : (segments cs).flatMap Segment.text = cs :=
  flatMap_text_segmentsAfter 0 cs

/-! ## Blanks -/

lemma isBlank_iff (c : Char) : isBlank c = true ↔ c ∈ [' ', '\t', '\r', '\n'] := by
  simp [isBlank, or_assoc]

/-- A blank is in no class `p` that has none of the four blanks. -/
lemma eq_false_of_isBlank {p : Char → Bool} {b : Char} (hb : isBlank b = true)
    (hp : [' ', '\t', '\r', '\n'].any p = false) : p b = false :=
  Bool.eq_false_iff.mpr (List.any_eq_false.mp hp b ((isBlank_iff b).mp hb))

/-- A character `c` that ends a run of `p` ends it whatever follows. -/
lemma takeWhile_append_cons {p : Char → Bool} {c : Char} (hc : p c = false) (cs ds : List Char) :
    (cs ++ c :: ds).takeWhile p = cs.takeWhile p := by
  rw [List.takeWhile_append, List.takeWhile_cons_of_neg (by simp [hc]), List.append_nil]
  split_ifs with h
  · exact ((List.takeWhile_prefix p).eq_of_length h).symm
  · rfl

lemma dropWhile_append_cons {p : Char → Bool} {c : Char} (hc : p c = false) (cs ds : List Char) :
    (cs ++ c :: ds).dropWhile p = cs.dropWhile p ++ c :: ds := by
  rw [List.dropWhile_append, List.dropWhile_cons_of_neg (by simp [hc])]
  split_ifs with h
  · rw [List.isEmpty_iff.mp h, List.nil_append]
  · rfl

section

variable {b : Char} (hb : isBlank b = true)

include hb

lemma fraction_append_blank (cs ds : List Char) : fraction (cs ++ b :: ds) = fraction cs := by
  have hdigit : isDigit b = false := eq_false_of_isBlank hb (by decide)
  have hpoint : b ≠ '.' := by simpa using eq_false_of_isBlank (p := (· == '.')) hb (by decide)
  -- Whether there is a fraction depends on two characters, of which the blank may be either.
  match cs with
  | [] => simp [fraction, hpoint]
  | [c] =>
    by_cases hc : c = '.'
    · subst hc
      simp [fraction, hdigit]
    · simp [fraction, hc]
  | c :: d :: cs =>
    by_cases hc : c = '.'
    · subst hc
      have hrun : (cs ++ b :: ds).takeWhile isDigit = cs.takeWhile isDigit :=
        takeWhile_append_cons hdigit cs ds
      simp only [List.cons_append, fraction, hrun]
    · simp [fraction, hc]

lemma symbol_append_blank (c : Char) (cs ds : List Char) :
    symbol c (cs ++ b :: ds) = symbol c cs := by
  have hequal : b ≠ '=' := by simpa using eq_false_of_isBlank (p := (· == '=')) hb (by decide)
  match cs with
  | [] => simp [symbol, hequal]
  | d :: cs =>
    by_cases hd : d = '='
    · subst hd
      rfl
    · simp [symbol, hd]

lemma slash_append_blank {cs : List Char} (h : (slash cs).shape = .comment → b = '\n')
    (ds : List Char) : slash (cs ++ b :: ds) = slash cs := by
  have hslash : b ≠ '/' := by simpa using eq_false_of_isBlank (p := (· == '/')) hb (by decide)
  match cs with
  | [] => simp [slash, hslash]
  | c :: cs =>
    by_cases hc : c = '/'
    · subst hc
      obtain rfl := h rfl
      have hrun : (cs ++ '\n' :: ds).takeWhile (· ≠ '\n') = cs.takeWhile (· ≠ '\n') :=
        takeWhile_append_cons (by decide) cs ds
      simp only [List.cons_append, slash, hrun]
    · simp [slash, hc]

end

/-- A string that `quoted` finds closed stays as it is, whatever follows. -/
lemma quoted_append {cs : List Char} (h : (quoted cs).shape ≠ .unclosed) (ds : List Char) :
    quoted (cs ++ ds) = quoted cs := by
  rw [quoted_eq] at h
  rw [quoted_eq, quoted_eq]
  split_ifs at h with hclosed
  · have hbody : (cs ++ ds).takeWhile (· ≠ '"') = cs.takeWhile (· ≠ '"') := by
      rw [List.takeWhile_append, if_neg hclosed.ne]
    have hclosed' : (cs.takeWhile (· ≠ '"')).length < (cs ++ ds).length := by
      rw [List.length_append]
      exact Nat.lt_add_right _ hclosed
    rw [hbody, if_pos hclosed, if_pos hclosed']
  · exact absurd rfl h

/-- A blank after a text does not change the segment at its start.  Only a string that is `unclosed`
goes on over any blank, and a comment over those that do not end the line. -/
lemma cut_append_blank {b c : Char} {cs : List Char} (hb : isBlank b = true)
    (h : (cut c cs).shape ≠ .unclosed) (hcomment : (cut c cs).shape = .comment → b = '\n')
    (ds : List Char) : cut c (cs ++ b :: ds) = cut c cs := by
  unfold cut at h hcomment ⊢
  split_ifs at h hcomment ⊢ with hblank hslash hquote hdigit hname
  · rfl
  · exact slash_append_blank hb hcomment ds
  · exact quoted_append h _
  · rw [numberRest, numberRest, takeWhile_append_cons (eq_false_of_isBlank hb (by decide)),
      dropWhile_append_cons (eq_false_of_isBlank hb (by decide)), fraction_append_blank hb]
  · rw [takeWhile_append_cons (eq_false_of_isBlank hb (by decide))]
  · exact symbol_append_blank hb c cs ds

/-! ## Line ends -/

lemma segmentsAfter_append_lineEnd (ds : List Char) {skip : ℕ} {cs : List Char}
    (hskip : skip ≤ cs.length) (h : ∀ s ∈ segmentsAfter skip cs, s.shape ≠ .unclosed) :
    segmentsAfter skip (cs ++ '\n' :: ds) =
      segmentsAfter skip cs ++ ⟨.blank, ['\n']⟩ :: segments ds := by
  induction cs generalizing skip with
  | nil =>
    obtain rfl : skip = 0 := Nat.le_zero.mp hskip
    rfl
  | cons c cs ih =>
    cases skip with
    | zero =>
      -- The next segment ends before the line end, which therefore does not change it.
      obtain ⟨rest, hrest, htext⟩ := cut_text c cs
      have hlength : (cut c cs).text.length - 1 ≤ cs.length := by
        rw [htext]
        exact hrest.length_le
      rw [segmentsAfter] at h ⊢
      rw [List.cons_append, segmentsAfter,
        cut_append_blank rfl (h _ (List.mem_cons_self ..)) (fun _ => rfl),
        ih hlength fun s hs => h s (List.mem_cons_of_mem _ hs), List.cons_append]
    | succ skip => exact ih (Nat.le_of_succ_le_succ hskip) h

/-- The `segments` of two texts joined by a line end are those of the texts, with a blank between
them, if the first one leaves no string `unclosed`. -/
theorem segments_append_lineEnd {cs : List Char} (h : ∀ s ∈ segments cs, s.shape ≠ .unclosed)
    (ds : List Char) :
    segments (cs ++ '\n' :: ds) = segments cs ++ ⟨.blank, ['\n']⟩ :: segments ds :=
  segmentsAfter_append_lineEnd ds (Nat.zero_le _) h

end LoxLang.Source
