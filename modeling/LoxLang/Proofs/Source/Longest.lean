import LoxLang.Proofs.Source.Joining
import Mathlib.Data.List.ReduceOption
import Mathlib.Data.List.TakeWhile

/-!
# Longest matches

The lexemes of the language are described by their texts alone, without saying how a text is cut.
`Decomposes` is the rule of the longest match: the next segment is the longest lexeme that the rest
of a text starts with, and only where there is none a single character is stray, or an unclosed
string takes all the rest.  A text has exactly one such decomposition, and the scanner finds it.
-/

namespace LoxLang.Source

/-! ## Lexemes -/

/-- The operators and marks, each with its kind. -/
def operatorTable : List (List Char × Kind) :=
  [(['('], .leftParen), ([')'], .rightParen), (['{'], .leftBrace), (['}'], .rightBrace),
    ([','], .comma), (['.'], .dot), (['-'], .minus), (['+'], .plus), ([';'], .semicolon),
    (['*'], .star), (['/'], .slash), (['!'], .bang), (['!', '='], .bangEqual), (['='], .equal),
    (['=', '='], .equalEqual), (['<'], .less), (['<', '='], .lessEqual), (['>'], .greater),
    (['>', '='], .greaterEqual)]

/-- Digits, at least one. -/
def IsDigits (text : List Char) : Prop := text ≠ [] ∧ ∀ c ∈ text, isDigit c = true

/-- A letter or an underscore, and then letters, digits and underscores. -/
def IsName (text : List Char) : Prop :=
  ∃ c rest, text = c :: rest ∧ isNameStart c = true ∧ ∀ d ∈ rest, isNamePart d = true

/-- The texts of the lexemes of each shape, blanks and comments included.  No text fits `stray` or
`unclosed`. -/
inductive Fits : Shape → List Char → Prop where
  | blank {c : Char} : c ∈ [' ', '\t', '\r', '\n'] → Fits .blank [c]
  | comment {body : List Char} : '\n' ∉ body → Fits .comment ('/' :: '/' :: body)
  | operator {text : List Char} {kind : Kind} :
      (text, kind) ∈ operatorTable → Fits (.token kind) text
  | string {body : List Char} : '"' ∉ body → Fits (.token .string) ('"' :: (body ++ ['"']))
  | whole {digits : List Char} : IsDigits digits → Fits (.token .number) digits
  | fractional {digits more : List Char} :
      IsDigits digits → IsDigits more → Fits (.token .number) (digits ++ '.' :: more)
  | reserved {text : List Char} {kind : Kind} :
      IsName text → (String.ofList text, kind) ∈ reservedWords → Fits (.token kind) text
  | identifier {text : List Char} :
      IsName text → (∀ kind, (String.ofList text, kind) ∉ reservedWords) →
      Fits (.token .identifier) text

/-- No lexeme stands at the start of `text`. -/
def NoneFits (text : List Char) : Prop := ∀ shape front, Fits shape front → ¬ front <+: text

/-- A text is cut into segments, each the longest lexeme at its place.  Where none fits, a single
character is `stray`, or a quote opens a string that takes all the rest. -/
inductive Decomposes : List Char → List Segment → Prop where
  | done : Decomposes [] []
  | longest {shape : Shape} {text rest : List Char} {ss : List Segment} :
      Fits shape text → (∀ other front, Fits other front → front <+: text ++ rest →
        front.length ≤ text.length) →
      Decomposes rest ss → Decomposes (text ++ rest) (⟨shape, text⟩ :: ss)
  | stray {c : Char} {rest : List Char} {ss : List Segment} :
      NoneFits (c :: rest) → c ≠ '"' → Decomposes rest ss →
      Decomposes (c :: rest) (⟨.stray, [c]⟩ :: ss)
  | unclosed {rest : List Char} :
      NoneFits ('"' :: rest) → '"' ∉ rest → Decomposes ('"' :: rest) [⟨.unclosed, '"' :: rest⟩]

/-! ## The segment at a character -/

lemma cut_of_blank {c : Char} (h : isBlank c = true) (cs : List Char) :
    cut c cs = ⟨.blank, [c]⟩ := by
  rw [cut, if_pos h]

lemma cut_slash (cs : List Char) : cut '/' cs = slash cs := rfl

/-- A character of the class `p` differs from each one that is not in it. -/
lemma ne_of_class {p : Char → Bool} {c d : Char} (hc : p c = true) (hd : p d = false) : c ≠ d := by
  intro heq
  rw [heq, hd] at hc
  exact Bool.false_ne_true hc

lemma isBlank_eq_false_of_class {p : Char → Bool} {c : Char} (hc : p c = true)
    (hp : [' ', '\t', '\r', '\n'].any p = false) : isBlank c = false := by
  rw [← Bool.not_eq_true, isBlank_iff]
  intro hmem
  exact List.any_eq_false.mp hp c hmem hc

lemma cut_of_digit {c : Char} (h : isDigit c = true) (cs : List Char) :
    cut c cs = ⟨.token .number, c :: numberRest cs⟩ := by
  have hblank : isBlank c = false := isBlank_eq_false_of_class h (by decide)
  have hslash : c ≠ '/' := ne_of_class h (by decide)
  have hquote : c ≠ '"' := ne_of_class h (by decide)
  rw [cut, if_neg (by simp [hblank]), if_neg hslash, if_neg hquote, if_pos h]

/-- The name that starts with `c`, with `cs` after it. -/
def nameAt (c : Char) (cs : List Char) : List Char := c :: cs.takeWhile isNamePart

lemma isDigit_eq_false_of_nameStart {c : Char} (h : isNameStart c = true) : isDigit c = false := by
  simp only [isNameStart, isDigit, Bool.or_eq_true, Bool.and_eq_true, decide_eq_true_eq,
    Bool.and_eq_false_iff, decide_eq_false_iff_not, not_le, Char.le_def,
    UInt32.le_iff_toNat_le] at h ⊢
  rcases h with (⟨h, -⟩ | ⟨h, -⟩) | rfl
  · right
    exact Nat.lt_of_lt_of_le (by decide) h
  · right
    exact Nat.lt_of_lt_of_le (by decide) h
  · decide

lemma cut_of_nameStart {c : Char} (h : isNameStart c = true) (cs : List Char) :
    cut c cs = ⟨.token (wordKind (nameAt c cs)), nameAt c cs⟩ := by
  have hblank : isBlank c = false := isBlank_eq_false_of_class h (by decide)
  have hslash : c ≠ '/' := ne_of_class h (by decide)
  have hquote : c ≠ '"' := ne_of_class h (by decide)
  have hdigit := isDigit_eq_false_of_nameStart h
  rw [cut, if_neg (by simp [hblank]), if_neg hslash, if_neg hquote,
    if_neg (by simp [hdigit]), if_pos h]
  rfl

/-! ## A lexeme by itself -/

/-- A segment that is a lexeme, and no error. -/
def Segment.IsLexeme (s : Segment) : Prop := s.shape ≠ .stray ∧ s.shape ≠ .unclosed

lemma Fits.isLexeme {shape : Shape} {text : List Char} (h : Fits shape text) :
    (⟨shape, text⟩ : Segment).IsLexeme := by
  cases h <;> exact ⟨Shape.noConfusion, Shape.noConfusion⟩

lemma Fits.exists_cons {shape : Shape} {text : List Char} (h : Fits shape text) :
    ∃ c cs, text = c :: cs := by
  cases h with
  | operator h =>
    have hall : ∀ entry ∈ operatorTable, entry.1 ≠ [] := by decide
    exact List.exists_cons_of_ne_nil (hall _ h)
  | whole h => exact List.exists_cons_of_ne_nil h.1
  | fractional h => exact List.exists_cons_of_ne_nil (List.append_ne_nil_of_left_ne_nil h.1 _)
  | reserved h =>
    obtain ⟨c, rest, rfl, -⟩ := h
    exact ⟨c, rest, rfl⟩
  | identifier h =>
    obtain ⟨c, rest, rfl, -⟩ := h
    exact ⟨c, rest, rfl⟩
  | _ => exact ⟨_, _, rfl⟩

lemma Fits.isName {text : List Char} (h : Fits (.token .identifier) text) : IsName text := by
  cases h with
  | operator hmem =>
    have hall : ∀ entry ∈ operatorTable, entry.2 ≠ .identifier := by decide
    exact absurd rfl (hall _ hmem)
  | reserved hname _ | identifier hname _ => exact hname

/-- A text that fits the shape of identifiers is none of the `reservedWords`. -/
lemma Fits.notReserved {text : List Char} (h : Fits (.token .identifier) text) :
    ∀ kind, (String.ofList text, kind) ∉ reservedWords := by
  cases h with
  | operator hmem =>
    have hall : ∀ entry ∈ operatorTable, entry.2 ≠ .identifier := by decide
    exact absurd rfl (hall _ hmem)
  | reserved _ hmem =>
    have hall : ∀ entry ∈ reservedWords, entry.2 ≠ .identifier := by decide
    exact absurd rfl (hall _ hmem)
  | identifier _ hfree => exact hfree

lemma ofWord?_of_mem {word : String} {kind : Kind} (h : (word, kind) ∈ reservedWords) :
    Kind.ofWord? word = some kind := by
  have hall : ∀ entry ∈ reservedWords, reservedWords.lookup entry.1 = some entry.2 := by decide
  exact hall _ h

lemma mem_of_ofWord? {word : String} {kind : Kind} (h : Kind.ofWord? word = some kind) :
    (word, kind) ∈ reservedWords := by
  obtain ⟨before, after, hsplit, -⟩ := List.lookup_eq_some_iff.mp h
  simp [hsplit]

lemma ofWord?_eq_none {word : String} (h : ∀ kind, (word, kind) ∉ reservedWords) :
    Kind.ofWord? word = none := by
  cases hfound : Kind.ofWord? word with
  | none => rfl
  | some kind => exact absurd (mem_of_ofWord? hfound) (h kind)

lemma cut_of_isName {c : Char} {cs : List Char} (h : IsName (c :: cs)) :
    cut c cs = ⟨.token (wordKind (c :: cs)), c :: cs⟩ := by
  obtain ⟨d, rest, heq, hstart, hparts⟩ := h
  obtain ⟨rfl, rfl⟩ := List.cons_eq_cons.mp heq
  have hname : nameAt c cs = c :: cs := congrArg _ (List.takeWhile_eq_self_iff.mpr hparts)
  rw [cut_of_nameStart hstart, hname]

lemma quoted_of_notMem {body : List Char} (h : '"' ∉ body) :
    quoted (body ++ ['"']) = ⟨.token .string, '"' :: (body ++ ['"'])⟩ := by
  have hbody : (body ++ ['"']).takeWhile (· ≠ '"') = body := by
    rw [takeWhile_append_cons (by decide)]
    apply List.takeWhile_eq_self_iff.mpr
    intro c hc
    exact decide_eq_true fun heq => h (heq ▸ hc)
  rw [quoted_eq, hbody, if_pos (by simp)]

lemma numberRest_of_digits {digits : List Char} (h : ∀ c ∈ digits, isDigit c = true) :
    numberRest digits = digits := by
  rw [numberRest, List.takeWhile_eq_self_iff.mpr h, List.dropWhile_eq_nil_iff.mpr h]
  exact List.append_nil _

lemma numberRest_of_fraction {digits more : List Char} (h : ∀ c ∈ digits, isDigit c = true)
    (hmore : IsDigits more) : numberRest (digits ++ '.' :: more) = digits ++ '.' :: more := by
  obtain ⟨d, rest, rfl⟩ := List.exists_cons_of_ne_nil hmore.1
  obtain ⟨hd, hrest⟩ := List.forall_mem_cons.mp hmore.2
  have hfraction : fraction ('.' :: d :: rest) = '.' :: d :: rest := by
    rw [fraction, if_pos hd, List.takeWhile_eq_self_iff.mpr hrest]
  rw [numberRest, takeWhile_append_cons (by decide), dropWhile_append_cons (by decide),
    List.takeWhile_eq_self_iff.mpr h, List.dropWhile_eq_nil_iff.mpr h, List.nil_append, hfraction]

/-- A lexeme that stands alone is cut in one piece, and with its own shape. -/
lemma Fits.cut_eq {shape : Shape} {c : Char} {cs : List Char} (h : Fits shape (c :: cs)) :
    cut c cs = ⟨shape, c :: cs⟩ := by
  -- The index of `Fits` has to be a variable for the case split; `htext` gives it back.
  generalize htext : c :: cs = text at h
  cases h with
  | blank h =>
    obtain ⟨rfl, rfl⟩ := List.cons_eq_cons.mp htext
    exact cut_of_blank ((isBlank_iff c).mpr h) []
  | @comment body h =>
    obtain ⟨rfl, rfl⟩ := List.cons_eq_cons.mp htext
    have hbody : body.takeWhile (· ≠ '\n') = body :=
      List.takeWhile_eq_self_iff.mpr fun d hd => decide_eq_true fun heq => h (heq ▸ hd)
    rw [cut_slash, slash, hbody]
  | @operator _ kind h =>
    -- The table is finite, so that all its entries can be run.
    have hall : ∀ entry ∈ operatorTable,
        cut (entry.1.headD ' ') entry.1.tail = ⟨.token entry.2, entry.1⟩ := by
      decide
    subst htext
    exact hall _ h
  | string h =>
    obtain ⟨rfl, rfl⟩ := List.cons_eq_cons.mp htext
    exact quoted_of_notMem h
  | whole h =>
    subst htext
    obtain ⟨hc, hcs⟩ := List.forall_mem_cons.mp h.2
    rw [cut_of_digit hc, numberRest_of_digits hcs]
  | @fractional digits more h hmore =>
    obtain ⟨d, rest, rfl⟩ := List.exists_cons_of_ne_nil h.1
    obtain ⟨rfl, rfl⟩ := List.cons_eq_cons.mp htext
    obtain ⟨hc, hrest⟩ := List.forall_mem_cons.mp h.2
    have hnumber : numberRest (rest ++ '.' :: more) = rest ++ '.' :: more :=
      numberRest_of_fraction hrest hmore
    exact (cut_of_digit hc _).trans (congrArg _ (congrArg _ hnumber))
  | reserved h hword =>
    subst htext
    rw [cut_of_isName h, wordKind, ofWord?_of_mem hword]
    rfl
  | identifier h hword =>
    subst htext
    rw [cut_of_isName h, wordKind, ofWord?_eq_none hword]
    rfl

/-! ## Longer texts

A longer text never has a shorter lexeme at its start. -/

lemma takeWhile_mono {cs ds : List Char} (h : cs <+: ds) (p : Char → Bool) :
    (cs.takeWhile p).length ≤ (ds.takeWhile p).length := by
  obtain ⟨more, rfl⟩ := h
  rw [List.takeWhile_append]
  split_ifs with hall
  · rw [hall, List.length_append]
    exact Nat.le_add_right _ _
  · exact le_rfl

lemma slash_mono {cs ds : List Char} (h : cs <+: ds) :
    (slash ds).IsLexeme ∧ (slash cs).text.length ≤ (slash ds).text.length := by
  have hlexeme : ∀ us, (slash us).IsLexeme ∧ 1 ≤ (slash us).text.length := by
    intro us
    unfold slash
    split <;> simp [Segment.IsLexeme]
  refine ⟨(hlexeme ds).1, ?_⟩
  -- If the shorter text starts no comment, its lexeme is the slash alone, and nothing is shorter.
  by_cases hcs : ∃ us, cs = '/' :: us
  · obtain ⟨us, rfl⟩ := hcs
    obtain ⟨more, rfl⟩ := h
    exact Nat.add_le_add_right (takeWhile_mono (List.prefix_append us more) _) 2
  · have hone : slash cs = ⟨.token .slash, ['/']⟩ := by
      unfold slash
      split
      · exact absurd ⟨_, rfl⟩ hcs
      · rfl
    rw [hone]
    exact (hlexeme ds).2

lemma fraction_mono {cs ds : List Char} (h : cs <+: ds) :
    (fraction cs).length ≤ (fraction ds).length := by
  -- If the shorter text starts no fraction, there is nothing to compare.
  by_cases hcs : ∃ d us, cs = '.' :: d :: us
  · obtain ⟨d, us, rfl⟩ := hcs
    obtain ⟨more, rfl⟩ := h
    have hrun := takeWhile_mono (List.prefix_append us more) isDigit
    rw [List.cons_append, List.cons_append, fraction, fraction]
    split_ifs
    · exact Nat.add_le_add_right hrun 2
    · exact le_rfl
  · have hnil : fraction cs = [] := by
      unfold fraction
      split
      · exact absurd ⟨_, _, rfl⟩ hcs
      · rfl
    rw [hnil]
    exact Nat.zero_le _

lemma numberRest_mono {cs ds : List Char} (h : cs <+: ds) :
    (numberRest cs).length ≤ (numberRest ds).length := by
  have hrun := takeWhile_mono h isDigit
  by_cases hall : ∀ c ∈ cs, isDigit c = true
  · rw [numberRest_of_digits hall, numberRest, List.length_append]
    rw [List.takeWhile_eq_self_iff.mpr hall] at hrun
    exact Nat.le_add_right_of_le hrun
  -- The digits end inside the shorter text, so both fractions start at the same place.
  · have hdrop : cs.dropWhile isDigit ≠ [] := fun hnil => hall (List.dropWhile_eq_nil_iff.mp hnil)
    obtain ⟨more, rfl⟩ := h
    have hrest : (cs ++ more).dropWhile isDigit = cs.dropWhile isDigit ++ more := by
      rw [List.dropWhile_append, if_neg (by simpa using hdrop)]
    rw [numberRest, numberRest, List.length_append, List.length_append, hrest]
    exact Nat.add_le_add hrun (fraction_mono (List.prefix_append _ _))

/-- The segment at an operator character `c`: only an equals sign right after it matters. -/
lemma symbol_eq (c : Char) (cs : List Char) :
    symbol c cs = match single? c, withEqual? c with
      | some kind, _ => ⟨.token kind, [c]⟩
      | none, some (alone, joined) =>
        if cs.head? = some '=' then ⟨.token joined, [c, '=']⟩ else ⟨.token alone, [c]⟩
      | none, none => ⟨.stray, [c]⟩ := by
  unfold symbol
  cases single? c with
  | some kind => rfl
  | none =>
    cases withEqual? c with
    | none => rfl
    | some kinds =>
      cases cs with
      | nil => rfl
      | cons d ds =>
        by_cases hd : d = '='
        · subst hd
          rfl
        · simp [hd]

lemma symbol_mono {c : Char} {cs ds : List Char} (h : cs <+: ds)
    (hlexeme : (symbol c cs).IsLexeme) :
    (symbol c ds).IsLexeme ∧ (symbol c cs).text.length ≤ (symbol c ds).text.length := by
  rw [symbol_eq] at hlexeme ⊢
  rw [symbol_eq]
  cases hsingle : single? c with
  | some kind => exact ⟨⟨Shape.noConfusion, Shape.noConfusion⟩, le_rfl⟩
  | none =>
    cases hjoined : withEqual? c with
    | none =>
      rw [hsingle, hjoined] at hlexeme
      exact absurd rfl hlexeme.1
    | some kinds =>
      -- The longer text may add the equals sign, but it cannot take it away.
      have hhead : cs.head? = some '=' → ds.head? = some '=' := by
        intro hcs
        obtain ⟨more, rfl⟩ := h
        rw [List.head?_append, hcs]
        rfl
      dsimp only
      split_ifs with hds hcs hcs
      · exact ⟨⟨Shape.noConfusion, Shape.noConfusion⟩, le_rfl⟩
      · exact ⟨⟨Shape.noConfusion, Shape.noConfusion⟩, Nat.le_succ 1⟩
      · exact absurd (hhead hcs) hds
      · exact ⟨⟨Shape.noConfusion, Shape.noConfusion⟩, le_rfl⟩

/-- What extends a text extends the lexeme at its start, or leaves it as it is. -/
lemma cut_mono {c : Char} {cs ds : List Char} (h : cs <+: ds) (hlexeme : (cut c cs).IsLexeme) :
    (cut c ds).IsLexeme ∧ (cut c cs).text.length ≤ (cut c ds).text.length := by
  unfold cut at hlexeme ⊢
  split_ifs at hlexeme ⊢ with hblank hslash hquote hdigit hname
  · exact ⟨hlexeme, le_rfl⟩
  · exact slash_mono h
  · obtain ⟨more, rfl⟩ := h
    rw [quoted_append hlexeme.2]
    exact ⟨hlexeme, le_rfl⟩
  · exact ⟨hlexeme, Nat.succ_le_succ (numberRest_mono h)⟩
  · exact ⟨⟨Shape.noConfusion, Shape.noConfusion⟩, Nat.succ_le_succ (takeWhile_mono h isNamePart)⟩
  · exact symbol_mono h hlexeme

/-- A lexeme `front` at the start of a text is no longer than what `cut` takes there. -/
lemma Fits.length_le_cut {shape : Shape} {front : List Char} (h : Fits shape front) {c : Char}
    {cs : List Char} (hfront : front <+: c :: cs) :
    (cut c cs).IsLexeme ∧ front.length ≤ (cut c cs).text.length := by
  obtain ⟨d, ds, rfl⟩ := h.exists_cons
  obtain ⟨rfl, hds⟩ := List.cons_prefix_cons.mp hfront
  have hlexeme : (cut d ds).IsLexeme := h.cut_eq ▸ h.isLexeme
  obtain ⟨hcut, hlength⟩ := cut_mono hds hlexeme
  rw [h.cut_eq] at hlength
  exact ⟨hcut, hlength⟩

/-! ## What is cut -/

lemma isDigits_takeWhile_cons {d : Char} (hd : isDigit d = true) (cs : List Char) :
    IsDigits (d :: cs.takeWhile isDigit) :=
  ⟨List.cons_ne_nil _ _, List.forall_mem_cons.mpr ⟨hd, fun _ hc => List.mem_takeWhile_imp hc⟩⟩

lemma fits_number {c : Char} (hc : isDigit c = true) (cs : List Char) :
    Fits (.token .number) (c :: numberRest cs) := by
  have hwhole := isDigits_takeWhile_cons hc cs
  rw [numberRest]
  generalize cs.dropWhile isDigit = rest
  unfold fraction
  split
  · rename_i d more
    split_ifs with hd
    · exact .fractional hwhole (isDigits_takeWhile_cons hd more)
    · rw [List.append_nil]
      exact .whole hwhole
  · rw [List.append_nil]
    exact .whole hwhole

lemma fits_name {c : Char} (hc : isNameStart c = true) (cs : List Char) :
    Fits (.token (wordKind (nameAt c cs))) (nameAt c cs) := by
  have hname : IsName (nameAt c cs) := ⟨c, _, rfl, hc, fun _ hd => List.mem_takeWhile_imp hd⟩
  rw [wordKind]
  cases hword : Kind.ofWord? (String.ofList (nameAt c cs)) with
  | some kind => exact .reserved hname (mem_of_ofWord? hword)
  | none =>
    refine .identifier hname fun kind hmem => ?_
    rw [ofWord?_of_mem hmem] at hword
    exact Option.some_ne_none _ hword

lemma mem_operatorTable_of_single? {c : Char} {kind : Kind} (h : single? c = some kind) :
    ([c], kind) ∈ operatorTable := by
  unfold single? at h
  split at h
  case h_11 => exact absurd h (by simp)
  all_goals
    obtain rfl := Option.some.inj h
    decide

lemma mem_operatorTable_of_withEqual? {c : Char} {alone joined : Kind}
    (h : withEqual? c = some (alone, joined)) :
    ([c], alone) ∈ operatorTable ∧ ([c, '='], joined) ∈ operatorTable := by
  unfold withEqual? at h
  split at h
  case h_5 => exact absurd h (by simp)
  all_goals
    obtain ⟨rfl, rfl⟩ := Prod.mk.inj (Option.some.inj h)
    decide

lemma fits_symbol {c : Char} {cs : List Char} (h : (symbol c cs).IsLexeme) :
    Fits (symbol c cs).shape (symbol c cs).text := by
  rw [symbol_eq] at h ⊢
  cases hsingle : single? c with
  | some kind => exact .operator (mem_operatorTable_of_single? hsingle)
  | none =>
    cases hjoined : withEqual? c with
    | none =>
      rw [hsingle, hjoined] at h
      exact absurd rfl h.1
    | some kinds =>
      obtain ⟨halone, htwo⟩ := mem_operatorTable_of_withEqual? hjoined
      dsimp only
      split_ifs
      · exact .operator htwo
      · exact .operator halone

/-- A segment of `cut` that is no error is a lexeme of its shape. -/
lemma fits_cut {c : Char} {cs : List Char} (h : (cut c cs).IsLexeme) :
    Fits (cut c cs).shape (cut c cs).text := by
  unfold cut at h ⊢
  split_ifs at h ⊢ with hblank hslash hquote hdigit hname
  · exact .blank ((isBlank_iff c).mp hblank)
  · unfold slash
    split
    · exact .comment fun hmem => by simpa using List.mem_takeWhile_imp hmem
    · exact .operator (by decide)
  · rw [quoted_eq] at h ⊢
    split_ifs at h ⊢ with hclosed
    · exact .string fun hmem => by simpa using List.mem_takeWhile_imp hmem
    · exact absurd rfl h.2
  · exact fits_number hdigit cs
  · exact fits_name hname cs
  · exact fits_symbol h

/-- A character at which `cut` finds no lexeme is stray, unless it opens a string that is never
closed. -/
lemma cut_of_not_isLexeme {c : Char} {cs : List Char} (h : ¬ (cut c cs).IsLexeme) :
    (c ≠ '"' ∧ cut c cs = ⟨.stray, [c]⟩) ∨
    (c = '"' ∧ '"' ∉ cs ∧ cut c cs = ⟨.unclosed, '"' :: cs⟩) := by
  unfold cut at h ⊢
  split_ifs at h ⊢ with hblank hslash hquote hdigit hname
  · exact absurd ⟨Shape.noConfusion, Shape.noConfusion⟩ h
  · exact absurd (slash_mono List.prefix_rfl).1 h
  · right
    rw [quoted_eq] at h ⊢
    split_ifs at h ⊢ with hclosed
    · exact absurd ⟨Shape.noConfusion, Shape.noConfusion⟩ h
    · -- Nothing is left behind the text of the string, so no quote stands in `cs`.
      have hall := (List.takeWhile_prefix (· ≠ '"')).eq_of_length_le (Nat.not_lt.mp hclosed)
      refine ⟨hquote, fun hmem => ?_, rfl⟩
      simpa using List.takeWhile_eq_self_iff.mp hall _ hmem
  · exact absurd ⟨Shape.noConfusion, Shape.noConfusion⟩ h
  · exact absurd ⟨Shape.noConfusion, Shape.noConfusion⟩ h
  · left
    refine ⟨hquote, ?_⟩
    rw [symbol_eq] at h ⊢
    cases hsingle : single? c with
    | some kind =>
      rw [hsingle] at h
      exact absurd ⟨Shape.noConfusion, Shape.noConfusion⟩ h
    | none =>
      cases hjoined : withEqual? c with
      | none => rfl
      | some kinds =>
        rw [hsingle, hjoined] at h
        dsimp only at h
        split_ifs at h <;> exact absurd ⟨Shape.noConfusion, Shape.noConfusion⟩ h

lemma cut_text_isPrefix (c : Char) (cs : List Char) : (cut c cs).text <+: c :: cs := by
  obtain ⟨rest, hrest, htext⟩ := cut_text c cs
  rw [htext]
  exact List.cons_prefix_cons.mpr ⟨rfl, hrest⟩

lemma noneFits_iff {c : Char} {cs : List Char} : NoneFits (c :: cs) ↔ ¬ (cut c cs).IsLexeme := by
  constructor
  · intro hnone hlexeme
    exact hnone _ _ (fits_cut hlexeme) (cut_text_isPrefix c cs)
  · intro h shape front hfits hfront
    exact h (hfits.length_le_cut hfront).1

/-! ## The decomposition of a text -/

lemma segmentsAfter_eq (skip : ℕ) (cs : List Char) :
    segmentsAfter skip cs = segments (cs.drop skip) := by
  induction cs generalizing skip with
  | nil => simp [segments, segmentsAfter]
  | cons c cs ih =>
    cases skip with
    | zero => rfl
    | succ skip => rw [segmentsAfter, ih, List.drop_succ_cons]

/-- The `segments` of a text are what is cut at its start, and then those of the rest. -/
lemma segments_cons {c : Char} {cs rest : List Char} (h : (cut c cs).text ++ rest = c :: cs) :
    segments (c :: cs) = cut c cs :: segments rest := by
  obtain ⟨front, -, htext⟩ := cut_text c cs
  rw [htext, List.cons_append, List.cons_eq_cons] at h
  rw [segments, segmentsAfter, segmentsAfter_eq, htext, ← h.2]
  simp

/-- What the scanner cuts is a decomposition by longest matches. -/
lemma decomposes_segments (cs : List Char) : Decomposes cs (segments cs) := by
  -- Each segment covers its first character, so the rest of the text is shorter.
  induction hn : cs.length using Nat.strong_induction_on generalizing cs with
  | _ n ih =>
    cases cs with
    | nil => exact .done
    | cons c cs =>
      obtain ⟨rest, hrest⟩ := cut_text_isPrefix c cs
      have hlater : Decomposes rest (segments rest) := by
        refine ih rest.length ?_ rest rfl
        obtain ⟨front, -, htext⟩ := cut_text c cs
        rw [← hn, ← hrest, htext, List.length_append, List.length_cons]
        omega
      rw [segments_cons hrest]
      -- By `noneFits_iff` this asks whether any lexeme fits here.
      by_cases hlexeme : (cut c cs).IsLexeme
      · have hlongest : ∀ other front, Fits other front → front <+: (cut c cs).text ++ rest →
            front.length ≤ (cut c cs).text.length := by
          intro other front hfits hfront
          rw [hrest] at hfront
          exact (hfits.length_le_cut hfront).2
        have hstep := Decomposes.longest (fits_cut hlexeme) hlongest hlater
        rwa [hrest] at hstep
      · have hnone := noneFits_iff.mpr hlexeme
        rcases cut_of_not_isLexeme hlexeme with ⟨hquote, hcut⟩ | ⟨rfl, hopen, hcut⟩
        · rw [hcut] at hrest ⊢
          obtain ⟨-, rfl⟩ := List.cons_eq_cons.mp hrest
          exact .stray hnone hquote hlater
        · rw [hcut] at hrest ⊢
          obtain rfl : rest = [] := by simpa using hrest
          exact .unclosed hnone hopen

/-- Where a lexeme is the longest one of all that fit, it is what is cut. -/
lemma cut_eq_of_longest {shape : Shape} {c : Char} {cs rest : List Char}
    (hfits : Fits shape (c :: cs)) (hlongest : ∀ other front, Fits other front →
      front <+: c :: cs ++ rest → front.length ≤ (c :: cs).length) :
    cut c (cs ++ rest) = ⟨shape, c :: cs⟩ := by
  have hfront : c :: cs <+: c :: (cs ++ rest) := List.prefix_append (c :: cs) rest
  obtain ⟨hlexeme, hle⟩ := hfits.length_le_cut hfront
  have hcut := fits_cut hlexeme
  have hprefix := cut_text_isPrefix c (cs ++ rest)
  have htext : (cut c (cs ++ rest)).text = c :: cs := by
    have hlength := (hlongest _ _ hcut hprefix).antisymm hle
    exact (List.prefix_of_prefix_length_le hprefix hfront hlength.le).eq_of_length hlength
  rw [htext] at hcut
  have hshape : (cut c (cs ++ rest)).shape = shape := by
    have heq := hcut.cut_eq.symm.trans hfits.cut_eq
    exact congrArg Segment.shape heq
  rw [← hshape, ← htext]

/-- A text has one decomposition only. -/
lemma Decomposes.eq_segments {cs : List Char} {ss : List Segment} (h : Decomposes cs ss) :
    ss = segments cs := by
  induction h with
  | done => rfl
  -- Here both lexemes fit, and each is at least as long as the other.
  | @longest shape text rest ss hfits hlongest _ ih =>
    obtain ⟨c, cs, rfl⟩ := hfits.exists_cons
    have hcut := cut_eq_of_longest hfits hlongest
    have hrest : (cut c (cs ++ rest)).text ++ rest = c :: (cs ++ rest) := by
      rw [hcut]
      rfl
    rw [List.cons_append, segments_cons hrest, hcut, ih]
  | @stray c rest ss hnone hquote _ ih =>
    rcases cut_of_not_isLexeme (noneFits_iff.mp hnone) with ⟨-, hcut⟩ | ⟨heq, -⟩
    · have hrest : (cut c rest).text ++ rest = c :: rest := by
        rw [hcut]
        rfl
      rw [segments_cons hrest, hcut, ih]
    · exact absurd heq hquote
  | @unclosed rest hnone hopen =>
    rcases cut_of_not_isLexeme (noneFits_iff.mp hnone) with ⟨hne, -⟩ | ⟨-, -, hcut⟩
    · exact absurd rfl hne
    · have hrest : (cut '"' rest).text ++ [] = '"' :: rest := by
        rw [hcut, List.append_nil]
      rw [segments_cons hrest, hcut]
      rfl

/-! ## What segments yield -/

/-- What a segment yields: nothing, one token that shows its whole text, or one error. -/
inductive Segment.Yields : Segment → Option Item → Prop where
  | blank {text : List Char} : Yields ⟨.blank, text⟩ none
  | comment {text : List Char} : Yields ⟨.comment, text⟩ none
  | plain {kind : Kind} {text : List Char} {line : ℕ} : kind ≠ .string → kind ≠ .number →
      Yields ⟨.token kind, text⟩ (some (.token ⟨kind, String.ofList text, none, line⟩))
  | string {body : List Char} {line : ℕ} :
      Yields ⟨.token .string, '"' :: (body ++ ['"'])⟩
        (some (.token ⟨.string, String.ofList ('"' :: (body ++ ['"'])),
          some (.string (String.ofList body)), line⟩))
  | number {text : List Char} {line : ℕ} :
      Yields ⟨.token .number, text⟩
        (some (.token ⟨.number, String.ofList text, some (.number (numberValue text)), line⟩))
  | stray {c : Char} {line : ℕ} : Yields ⟨.stray, [c]⟩ (some (.error ⟨.unexpected c, line⟩))
  | unclosed {text : List Char} {line : ℕ} :
      Yields ⟨.unclosed, text⟩ (some (.error ⟨.unterminatedString, line⟩))

lemma literal?_of_ne {kind : Kind} (hstring : kind ≠ .string) (hnumber : kind ≠ .number)
    (text : List Char) : literal? kind text = none := by
  unfold literal?
  split
  · exact absurd rfl hnumber
  · exact absurd rfl hstring
  · rfl

/-- Only a closed string fits the kind of strings. -/
lemma Fits.exists_body {text : List Char} (h : Fits (.token .string) text) :
    ∃ body, text = '"' :: (body ++ ['"']) := by
  cases h with
  | operator h =>
    have hall : ∀ entry ∈ operatorTable, entry.2 ≠ .string := by decide
    exact absurd rfl (hall _ h)
  | string => exact ⟨_, rfl⟩
  | reserved _ h =>
    have hall : ∀ entry ∈ reservedWords, entry.2 ≠ .string := by decide
    exact absurd rfl (hall _ h)

lemma Fits.yields {shape : Shape} {text : List Char} (h : Fits shape text) (line : ℕ) :
    Segment.Yields ⟨shape, text⟩ (Segment.item? ⟨shape, text⟩ line) := by
  cases shape with
  | blank => exact .blank
  | comment => exact .comment
  | token kind =>
    show Segment.Yields _ (some (.token ⟨kind, String.ofList text, literal? kind text, line⟩))
    by_cases hstring : kind = .string
    · subst hstring
      obtain ⟨body, rfl⟩ := h.exists_body
      have hliteral : literal? .string ('"' :: (body ++ ['"'])) =
          some (.string (String.ofList body)) := by
        simp [literal?]
      rw [hliteral]
      exact .string
    · by_cases hnumber : kind = .number
      · subst hnumber
        exact .number
      · rw [literal?_of_ne hstring hnumber]
        exact .plain hstring hnumber
  | stray => exact absurd rfl h.isLexeme.1
  | unclosed => exact .unclosed

lemma Decomposes.yields {cs : List Char} {ss : List Segment} (h : Decomposes cs ss) :
    ∀ s ∈ ss, ∀ line, s.Yields (s.item? line) := by
  induction h with
  | done => exact fun _ hs => absurd hs List.not_mem_nil
  | longest hfits _ _ ih => exact List.forall_mem_cons.mpr ⟨hfits.yields, ih⟩
  | stray _ _ _ ih => exact List.forall_mem_cons.mpr ⟨fun _ => .stray, ih⟩
  | unclosed => exact List.forall_mem_singleton.mpr fun _ => .unclosed

/-- The items of `ss` are what the segments yield, in order, closed by the end of input. -/
lemma itemsFrom_of_yields {ss : List Segment} (h : ∀ s ∈ ss, ∀ line, s.Yields (s.item? line))
    (line : ℕ) :
    ∃ yielded last, List.Forall₂ Segment.Yields ss yielded ∧
      itemsFrom line ss = yielded.reduceOption ++ [.token (.endOfInput last)] := by
  induction ss generalizing line with
  | nil => exact ⟨[], line, .nil, rfl⟩
  | cons s ss ih =>
    obtain ⟨hs, hss⟩ := List.forall_mem_cons.mp h
    obtain ⟨yielded, last, hyielded, hitems⟩ := ih hss (line + lineEnds s.text)
    refine ⟨s.item? (line + lineEnds s.text) :: yielded, last, .cons (hs _) hyielded, ?_⟩
    rw [itemsFrom_cons, hitems, ← List.append_assoc]
    cases s.item? (line + lineEnds s.text) <;> rfl

lemma Decomposes.text_ne_nil {cs : List Char} {ss : List Segment} (h : Decomposes cs ss) :
    ∀ s ∈ ss, s.text ≠ [] := by
  induction h with
  | done => exact fun _ hs => absurd hs List.not_mem_nil
  | longest hfits _ _ ih =>
    obtain ⟨c, cs, rfl⟩ := hfits.exists_cons
    exact List.forall_mem_cons.mpr ⟨List.cons_ne_nil _ _, ih⟩
  | stray _ _ _ ih => exact List.forall_mem_cons.mpr ⟨List.cons_ne_nil _ _, ih⟩
  | unclosed => exact List.forall_mem_singleton.mpr (List.cons_ne_nil _ _)

/-- The scanner is a longest-match tokenizer that loses nothing.  A `source` has exactly one
decomposition by `Decomposes` into longest lexemes and errors, which is `segments`; its segments are
not empty and make up the source; and the `items` are what those segments yield, in order, closed by
one end of input. -/
theorem items_of_longest_matches (source : String) :
    (∀ ss, Decomposes source.toList ss ↔ ss = segments source.toList) ∧
    (segments source.toList).flatMap Segment.text = source.toList ∧
    (∀ s ∈ segments source.toList, s.text ≠ []) ∧
    ∃ yielded line, List.Forall₂ Segment.Yields (segments source.toList) yielded ∧
      items source = yielded.reduceOption ++ [.token ⟨.eof, "", none, line⟩] := by
  have hdecomposes := decomposes_segments source.toList
  refine ⟨fun ss => ⟨Decomposes.eq_segments, ?_⟩, flatMap_text_segments _,
    hdecomposes.text_ne_nil, ?_⟩
  · rintro rfl
    exact hdecomposes
  · exact itemsFrom_of_yields hdecomposes.yields 1

end LoxLang.Source
