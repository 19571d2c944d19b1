import LoxLang.Proofs.Source.Longest

/-!
# Free layout

How the lexemes of a source are laid out makes no difference to its tokens, but for their lines.
Each lexeme that the scanner has found stops at a blank, whatever stands behind it, so the lexemes
can be written out again with any gaps between them that start with a blank: the scanner finds the
same ones.
-/

namespace LoxLang

/-- A token without its `line`. -/
def Token.unplaced (t : Token) : Token := { t with line := 0 }

/-- A token as the scanner makes it: its text `Fits` its kind, and its literal is what the lexeme
denotes. -/
structure Token.Scanned (t : Token) : Prop where
  fits : Source.Fits (.token t.kind) t.lexeme.toList
  literal : t.literal = Source.literal? t.kind t.lexeme.toList

namespace Source

/-! ## Layouts -/

/-- Blanks and comments in a row, each comment with the line end that closes it. -/
inductive IsSpacing : List Char → Prop where
  | none : IsSpacing []
  | blank {c : Char} {rest : List Char} : c ∈ [' ', '\t', '\r', '\n'] → IsSpacing rest →
      IsSpacing (c :: rest)
  | comment {body rest : List Char} :
      '\n' ∉ body → IsSpacing rest → IsSpacing ('/' :: '/' :: (body ++ '\n' :: rest))

/-- What may stand between two lexemes: `IsSpacing` that starts with a blank. -/
inductive IsGap : List Char → Prop where
  | mk {c : Char} {rest : List Char} : c ∈ [' ', '\t', '\r', '\n'] → IsSpacing rest →
      IsGap (c :: rest)

/-- The lexemes are written out in order, with an `IsGap` between any two of them. -/
inductive WrittenOut : List String → List Char → Prop where
  | none : WrittenOut [] []
  | last (lexeme : String) : WrittenOut [lexeme] lexeme.toList
  | next {lexeme next : String} {rest : List String} {gap text : List Char} :
      IsGap gap → WrittenOut (next :: rest) text →
      WrittenOut (lexeme :: next :: rest) (lexeme.toList ++ (gap ++ text))

/-! ## Scanned tokens -/

lemma Decomposes.fits {cs : List Char} {ss : List Segment} (h : Decomposes cs ss) :
    ∀ s ∈ ss, ∀ kind, s.shape = .token kind → Fits (.token kind) s.text := by
  induction h with
  | done => exact fun _ hs => absurd hs List.not_mem_nil
  | longest hfits _ _ ih =>
    refine List.forall_mem_cons.mpr ⟨fun kind hkind => ?_, ih⟩
    obtain rfl : _ = Shape.token kind := hkind
    exact hfits
  | stray _ _ _ ih =>
    exact List.forall_mem_cons.mpr ⟨fun _ hkind => absurd hkind Shape.noConfusion, ih⟩
  | unclosed => exact List.forall_mem_singleton.mpr fun _ hkind => absurd hkind Shape.noConfusion

lemma Segment.scanned {s : Segment} (hs : ∀ kind, s.shape = .token kind → Fits (.token kind) s.text)
    {line : ℕ} {i : Item} {t : Token} (hi : s.item? line = some i)
    (ht : i.token? = some t) : t.Scanned := by
  obtain ⟨hshape, heq⟩ := Segment.eq_of_token? hi ht
  rw [heq]
  exact ⟨by simpa using hs t.kind hshape, by simp⟩

/-- The tokens of a source before the end of input are `Scanned` ones. -/
lemma scanned_of_mem {source : String} {t : Token}
    (ht : t ∈ Grammar.textOf (tokens source)) : t.Scanned := by
  rw [textOf_tokens] at ht
  have hfits := (decomposes_segments source.toList).fits
  exact forall_token_of_segments (fun s hs _ _ _ hi hti => s.scanned (hfits s hs) hi hti) ht

lemma tokens_eq_concat (source : String) :
    tokens source =
      Grammar.textOf (tokens source) ++ [.endOfInput (1 + lineEnds source.toList)] := by
  rw [textOf_tokens]
  conv_lhs => rw [tokens, items_eq_concat, List.filterMap_append]
  rfl

/-! ## Lexemes and gaps -/

lemma segments_blank {c : Char} (h : c ∈ [' ', '\t', '\r', '\n']) (rest : List Char) :
    segments (c :: rest) = ⟨.blank, [c]⟩ :: segments rest := by
  have hcut : cut c rest = ⟨.blank, [c]⟩ := cut_of_blank ((isBlank_iff c).mpr h) rest
  have hrest : (cut c rest).text ++ rest = c :: rest := by
    rw [hcut]
    rfl
  rw [segments_cons hrest, hcut]

lemma Fits.segments_alone {shape : Shape} {text : List Char} (h : Fits shape text) :
    segments text = [⟨shape, text⟩] := by
  obtain ⟨c, cs, rfl⟩ := h.exists_cons
  have hrest : (cut c cs).text ++ [] = c :: cs := by rw [h.cut_eq, List.append_nil]
  rw [segments_cons hrest, h.cut_eq]
  rfl

/-- A blank `b` ends a lexeme, if it is no comment or `b` is a line end. -/
lemma Fits.segments_append {shape : Shape} {text : List Char} (h : Fits shape text) {b : Char}
    (hb : b ∈ [' ', '\t', '\r', '\n']) (hcomment : shape = .comment → b = '\n') (rest : List Char) :
    segments (text ++ b :: rest) = ⟨shape, text⟩ :: segments (b :: rest) := by
  obtain ⟨c, cs, rfl⟩ := h.exists_cons
  have hcut : cut c (cs ++ b :: rest) = ⟨shape, c :: cs⟩ := by
    have hclosed : (cut c cs).shape ≠ .unclosed := by
      rw [h.cut_eq]
      exact h.isLexeme.2
    rw [cut_append_blank ((isBlank_iff b).mpr hb) hclosed (by rwa [h.cut_eq]), h.cut_eq]
  have hrest : (cut c (cs ++ b :: rest)).text ++ b :: rest = c :: (cs ++ b :: rest) := by
    rw [hcut]
    rfl
  rw [List.cons_append, segments_cons hrest, hcut]

/-- Spacing yields nothing, and what follows it stands `lineEnds gap` lines further down. -/
lemma IsSpacing.itemsFrom_append {gap : List Char} (h : IsSpacing gap) (line : ℕ)
    (rest : List Char) :
    itemsFrom line (segments (gap ++ rest)) = itemsFrom (line + lineEnds gap) (segments rest) := by
  induction h generalizing line with
  | none => rfl
  | @blank c more hc _ ih =>
    have hlines : lineEnds (c :: more) = lineEnds [c] + lineEnds more := lineEnds_append [c] more
    rw [List.cons_append, segments_blank hc, itemsFrom_cons, ih, hlines, Nat.add_assoc]
    rfl
  | @comment body more hbody _ ih =>
    -- The comment stops before its line end, which is then a blank of its own.
    have htext : '/' :: '/' :: (body ++ '\n' :: more) ++ rest =
        ('/' :: '/' :: body) ++ '\n' :: (more ++ rest) := by
      simp
    have hlines : lineEnds ('/' :: '/' :: (body ++ '\n' :: more)) =
        lineEnds ('/' :: '/' :: body) + (lineEnds ['\n'] + lineEnds more) := by
      rw [← lineEnds_append, ← lineEnds_append]
      rfl
    rw [htext, (Fits.comment hbody).segments_append (by decide) fun _ => rfl,
      segments_blank (by decide), itemsFrom_cons,
      itemsFrom_cons, ih, hlines, Nat.add_assoc, Nat.add_assoc, Nat.add_assoc]
    rfl

lemma IsGap.isSpacing {gap : List Char} (h : IsGap gap) : IsSpacing gap := by
  obtain ⟨hc, hrest⟩ := h
  exact .blank hc hrest

/-- The lexeme of a `Scanned` token yields this token again, on the line where it now ends. -/
lemma itemsFrom_scanned {t : Token} (ht : t.Scanned) (line : ℕ) (ss : List Segment) :
    itemsFrom line (⟨.token t.kind, t.lexeme.toList⟩ :: ss) =
      .token { t with line := line + lineEnds t.lexeme.toList } :: itemsFrom
      (line + lineEnds t.lexeme.toList) ss := by
  have hitem : ∀ n,
      Segment.item? ⟨.token t.kind, t.lexeme.toList⟩ n = some (.token { t with line := n }) := by
    intro n
    show some (Item.token ⟨t.kind, String.ofList t.lexeme.toList,
      literal? t.kind t.lexeme.toList, n⟩) = _
    rw [String.ofList_toList, ← ht.literal]
  rw [itemsFrom_cons, hitem]
  rfl

/-! ## Texts that are written out -/

/-- Where the lexemes of `Scanned` tokens `ts` are written out, those tokens are found and nothing
else. -/
lemma WrittenOut.itemsFrom_eq {lexemes : List String} {text : List Char}
    (h : WrittenOut lexemes text) {ts : List Token} (hts : ∀ t ∈ ts, t.Scanned)
    (hlexemes : ts.map Token.lexeme = lexemes) (line : ℕ) :
    ∃ (us : List Token) (last : ℕ),
      itemsFrom line (segments text) = us.map Item.token ++ [.token (.endOfInput last)] ∧
      us.map Token.unplaced = ts.map Token.unplaced := by
  induction h generalizing ts line with
  | none =>
    obtain rfl := List.map_eq_nil_iff.mp hlexemes
    exact ⟨[], line, rfl, rfl⟩
  | last lexeme =>
    obtain ⟨t, rfl, rfl⟩ := List.map_eq_singleton_iff.mp hlexemes
    have ht := hts t List.mem_cons_self
    rw [ht.fits.segments_alone, itemsFrom_scanned ht]
    exact ⟨[_], _, rfl, rfl⟩
  | @next _ _ _ gap text hgap _ ih =>
    obtain ⟨t, more, rfl, rfl, hmore⟩ := List.map_eq_cons_iff.mp hlexemes
    obtain ⟨ht, hothers⟩ := List.forall_mem_cons.mp hts
    -- Behind the lexeme stands the blank that its gap starts with.
    have hsegments : segments (t.lexeme.toList ++ (gap ++ text)) =
        ⟨.token t.kind, t.lexeme.toList⟩ :: segments (gap ++ text) := by
      obtain ⟨hc, -⟩ := hgap
      exact ht.fits.segments_append hc (fun hshape => absurd hshape Shape.noConfusion) _
    obtain ⟨us, last, hitems, hsame⟩ :=
      ih hothers hmore (line + lineEnds t.lexeme.toList + lineEnds gap)
    rw [hsegments, itemsFrom_scanned ht, hgap.isSpacing.itemsFrom_append, hitems]
    refine ⟨_ :: us, last, rfl, ?_⟩
    rw [List.map_cons, List.map_cons, hsame]
    rfl

/-- Layout does not matter.  If the lexemes of `source`, without the end of input, are `WrittenOut`
in order with gaps between them as `text`, then `text` has no lexical error and the same tokens:
kinds, lexemes and literals agree one by one, and only lines may differ. -/
theorem layout_is_free (source text : String)
    (h : WrittenOut ((Grammar.textOf (tokens source)).map Token.lexeme) text.toList) :
    errors text = [] ∧ (tokens text).map Token.unplaced = (tokens source).map Token.unplaced := by
  obtain ⟨us, last, hitems, hsame⟩ := h.itemsFrom_eq (fun _ ht => scanned_of_mem ht) rfl 1
  have hitems : items text = us.map Item.token ++ [.token (.endOfInput last)] := hitems
  constructor
  · rw [errors, hitems, List.filterMap_append, List.filterMap_map]
    simp [Function.comp_def, Item.error?]
  · have htokens : tokens text = us ++ [.endOfInput last] := by
      rw [tokens, hitems, List.filterMap_append, List.filterMap_map]
      simp [Function.comp_def, Item.token?]
    rw [htokens, tokens_eq_concat source, List.map_append, List.map_append, hsame]
    rfl

/-- The lexemes of `a!=8.b` stay apart, with a comment, a tabulator and line ends between them. -/
theorem layout_is_free_with_comment :
    WrittenOut ((Grammar.textOf (tokens "a!=8.b")).map Token.lexeme) "a // !\n!=\t8 .\r\nb".toList ∧
      errors "a // !\n!=\t8 .\r\nb" = [] ∧
      (tokens "a // !\n!=\t8 .\r\nb").map Token.unplaced =
        (tokens "a!=8.b").map Token.unplaced := by
  have hlexemes : (Grammar.textOf (tokens "a!=8.b")).map Token.lexeme =
      ["a", "!=", "8", ".", "b"] := rfl
  have hblank : ∀ c ∈ [' ', '\t', '\r', '\n'], IsGap [c] := fun c hc => .mk hc .none
  have hcomment : IsGap " // !\n".toList :=
    .mk (by decide) (@IsSpacing.comment " !".toList [] (by decide) .none)
  have hlines : IsGap "\r\n".toList := .mk (by decide) (.blank (by decide) .none)
  have h : WrittenOut ((Grammar.textOf (tokens "a!=8.b")).map Token.lexeme)
      "a // !\n!=\t8 .\r\nb".toList := by
    rw [hlexemes]
    exact .next hcomment
      (.next (hblank '\t' (by decide)) (.next (hblank ' ' (by decide)) (.next hlines (.last "b"))))
  exact ⟨h, layout_is_free _ _ h⟩

end Source

end LoxLang
