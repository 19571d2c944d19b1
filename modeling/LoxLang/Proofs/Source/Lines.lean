import LoxLang.Proofs.Source.Longest

/-!
# Line numbers

The scanner counts line ends as it goes along.  What it counts is what a reader of the whole source
would count: a token bears the line that its last character is on, a stray character the line it
stands on, and an unclosed string and the end of input bear the last line of the source.

The invariant is about the text before the next segment: the counter is one more than the number of
line ends in it.  It is carried along the decomposition into longest matches, which tells apart what
a segment can be.
-/

namespace LoxLang.Source

/-! ## Where lines end -/

/-- Among the lexemes, only those of shape `blank` and strings hold a line end. -/
lemma Fits.shape_of_lineEnd {shape : Shape} {text : List Char} (h : Fits shape text)
    (hline : '\n' ∈ text) : shape = .blank ∨ shape = .token .string := by
  have hdigits : ∀ {digits : List Char}, IsDigits digits → '\n' ∉ digits := fun hd hmem =>
    absurd (hd.2 _ hmem) (by decide)
  have hname : ∀ {name : List Char}, IsName name → '\n' ∉ name := by
    rintro _ ⟨c, rest, rfl, hc, hrest⟩ hmem
    rcases List.mem_cons.mp hmem with rfl | hmem
    · exact absurd hc (by decide)
    · exact absurd (hrest _ hmem) (by decide)
  cases h with
  | blank => exact .inl rfl
  | string => exact .inr rfl
  | comment hbody => exact absurd (by simpa using hline) hbody
  | operator hmem =>
    have htable : ∀ entry ∈ operatorTable, '\n' ∉ entry.1 := by decide
    exact absurd hline (htable _ hmem)
  | whole hd => exact absurd hline (hdigits hd)
  | fractional hd hmore =>
    rcases List.mem_append.mp hline with hmem | hmem
    · exact absurd hmem (hdigits hd)
    · exact absurd (by simpa using hmem) (hdigits hmore)
  | reserved hn | identifier hn => exact absurd hline (hname hn)

/-- A line end is a blank, so it is never stray. -/
lemma NoneFits.ne_lineEnd {c : Char} {rest : List Char} (h : NoneFits (c :: rest)) : c ≠ '\n' := by
  rintro rfl
  exact h .blank ['\n'] (.blank (by decide)) ⟨rest, rfl⟩

lemma Decomposes.shape_of_lineEnd {text : List Char} {ss : List Segment} (h : Decomposes text ss) :
    ∀ s ∈ ss, '\n' ∈ s.text →
      s.shape = .blank ∨ s.shape = .token .string ∨ s.shape = .unclosed := by
  induction h with
  | done => simp
  | longest hfits _ _ ih =>
    refine List.forall_mem_cons.mpr ⟨fun hline => ?_, ih⟩
    rcases hfits.shape_of_lineEnd hline with hshape | hshape
    · exact .inl hshape
    · exact .inr (.inl hshape)
  | stray hnone _ _ ih =>
    exact List.forall_mem_cons.mpr ⟨fun hline =>
      absurd (List.mem_singleton.mp hline).symm hnone.ne_lineEnd, ih⟩
  | unclosed => exact List.forall_mem_singleton.mpr fun _ => .inr (.inr rfl)

/-- Counting the line ends at blanks and inside strings, closed or not, is counting all of them: a
segment of another shape holds none, so that `itemsFrom` stays on its line there. -/
lemma lineEnds_eq_zero_of_shape {source : List Char} {s : Segment} (hs : s ∈ segments source)
    (hshape : s.shape ∉ [.blank, .token .string, .unclosed]) : lineEnds s.text = 0 := by
  refine List.count_eq_zero.mpr fun hline => hshape ?_
  rcases (decomposes_segments source).shape_of_lineEnd s hs hline with h | h | h <;> simp [h]

/-! ## The lines of items -/

/-- What a segment that stands behind the text `before` yields, and on which line of `source`. -/
inductive Segment.YieldsOn (source before : List Char) : Segment → Option Item → Prop where
  | blank {text : List Char} : YieldsOn source before ⟨.blank, text⟩ none
  | comment {text : List Char} : YieldsOn source before ⟨.comment, text⟩ none
  | token {kind : Kind} {text : List Char} {literal : Option Literal} :
      YieldsOn source before ⟨.token kind, text⟩
        (some (.token ⟨kind, String.ofList text, literal, 1 + (before ++ text).count '\n'⟩))
  | stray {c : Char} :
      YieldsOn source before ⟨.stray, [c]⟩ (some (.error ⟨.unexpected c, 1 + before.count '\n'⟩))
  | unclosed {text : List Char} :
      YieldsOn source before ⟨.unclosed, text⟩
        (some (.error ⟨.unterminatedString, 1 + source.count '\n'⟩))

/-- A lexeme yields its item on the line that it ends on, which is counted in `before ++ text`. -/
lemma Fits.yieldsOn {shape : Shape} {text : List Char} (h : Fits shape text)
    (source before : List Char) :
    Segment.YieldsOn source before ⟨shape, text⟩
      (Segment.item? ⟨shape, text⟩ (1 + lineEnds (before ++ text))) := by
  cases shape with
  | blank => exact .blank
  | comment => exact .comment
  | token kind => exact .token
  | stray => exact absurd rfl h.isLexeme.1
  | unclosed => exact absurd rfl h.isLexeme.2

/-- Each segment of `ss`, which stand behind the text `before`, has its place in `yielded`. -/
def YieldInOrder (source before : List Char) (ss : List Segment)
    (yielded : List (Option Item)) : Prop :=
  yielded.length = ss.length ∧
    ∀ front s back, ss = front ++ s :: back →
      ∃ i, yielded[front.length]? = some i ∧
      s.YieldsOn source (before ++ front.flatMap Segment.text) i

lemma YieldInOrder.nil (source before : List Char) : YieldInOrder source before [] [] :=
  ⟨rfl, fun front s back h => by simp at h⟩

lemma YieldInOrder.cons {source before : List Char} {s : Segment} {ss : List Segment}
    {i : Option Item} {yielded : List (Option Item)} (hs : s.YieldsOn source before i)
    (hss : YieldInOrder source (before ++ s.text) ss yielded) :
    YieldInOrder source before (s :: ss) (i :: yielded) := by
  obtain ⟨hlength, hplaces⟩ := hss
  refine ⟨by rw [List.length_cons, List.length_cons, hlength], fun front u back heq => ?_⟩
  cases front with
  | nil =>
    obtain ⟨rfl, -⟩ := List.cons_eq_cons.mp heq
    exact ⟨i, rfl, by rwa [List.flatMap_nil, List.append_nil]⟩
  | cons v front =>
    obtain ⟨rfl, hback⟩ := List.cons_eq_cons.mp heq
    obtain ⟨j, hj, hu⟩ := hplaces front u back hback
    refine ⟨j, hj, ?_⟩
    rwa [List.flatMap_cons, ← List.append_assoc]

/-- With the counter at one more than the line ends of `before`, the segments `ss` yield their items
on the lines they should, and the end of input follows on the last line. -/
def OnLines (source before : List Char) (ss : List Segment) : Prop :=
  ∃ yielded, itemsFrom (1 + lineEnds before) ss =
    yielded.reduceOption ++ [.token (.endOfInput (1 + lineEnds source))] ∧
    YieldInOrder source before ss yielded

lemma OnLines.cons {source before : List Char} {s : Segment} {ss : List Segment}
    (hs : s.YieldsOn source before (s.item? (1 + lineEnds (before ++ s.text))))
    (hss : OnLines source (before ++ s.text) ss) : OnLines source before (s :: ss) := by
  obtain ⟨yielded, hitems, hyielded⟩ := hss
  refine ⟨_, ?_, .cons hs hyielded⟩
  rw [itemsFrom_cons, Nat.add_assoc, ← lineEnds_append, hitems, ← List.append_assoc]
  cases s.item? (1 + lineEnds (before ++ s.text)) <;> rfl

lemma Decomposes.onLines {source rest : List Char} {ss : List Segment} (h : Decomposes rest ss)
    {before : List Char} (hsource : source = before ++ rest) : OnLines source before ss := by
  induction h generalizing before with
  | done =>
    rw [List.append_nil] at hsource
    exact ⟨[], by rw [hsource]; rfl, .nil source before⟩
  | longest hfits _ _ ih =>
    rw [← List.append_assoc] at hsource
    exact .cons (hfits.yieldsOn source before) (ih hsource)
  | @stray c rest ss hnone _ _ ih =>
    rw [List.append_cons] at hsource
    -- A stray character ends no line, so it bears the line that it starts on.
    have hline : lineEnds (before ++ [c]) = before.count '\n' := by
      simp [lineEnds, hnone.ne_lineEnd]
    refine .cons ?_ (ih hsource)
    rw [hline]
    exact .stray
  | @unclosed rest _ _ =>
    -- The string takes all the rest, so it ends where the source does.
    refine .cons ?_ ⟨[], ?_, .nil source _⟩
    · rw [← hsource]
      exact .unclosed
    · rw [← hsource]
      rfl

/-- Line numbers are exact.  The `items` of a source are what its `segments` yield, closed by the
end of input on the last line.  For each segment, with what stands before (`front`) and behind it
(`back`) in the source: by `Segment.YieldsOn`, a token bears the line that its lexeme ends on, a
stray character the line that it is on, and an unclosed string the last line. -/
theorem items_bear_exact_lines (source : String) :
    ∃ yielded : List (Option Item),
      items source =
        yielded.reduceOption ++ [.token ⟨.eof, "", none, 1 + source.toList.count '\n'⟩] ∧
      yielded.length = (segments source.toList).length ∧
      ∀ front s back, segments source.toList = front ++ s :: back →
        source.toList = front.flatMap Segment.text ++ (s.text ++ back.flatMap Segment.text) ∧
          ∃ i, yielded[front.length]? = some i ∧
            s.YieldsOn source.toList (front.flatMap Segment.text) i := by
  obtain ⟨yielded, hitems, hlength, hplaces⟩ :=
    (decomposes_segments source.toList).onLines (List.nil_append _).symm
  refine ⟨yielded, hitems, hlength,
    fun front s back hsegments => ⟨?_, hplaces front s back hsegments⟩⟩
  have htext := flatMap_text_segments source.toList
  rw [hsegments, List.flatMap_append, List.flatMap_cons] at htext
  exact htext.symm

end LoxLang.Source
