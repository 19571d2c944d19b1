import LoxLang.Proofs.Grammar.Placement

/-!
# Every token list is read

Whatever the tokens are, reading comes to an end, and the cursor only moves forward and stands at a
token of the list all the time.  Of the end of input only the first one counts: it is where a
program ends, and what follows it is never looked at.

The number of steps that a reader is given bounds the depth of its recursion and has no other
effect.  A reading that came to an end comes to the same end in any larger number of steps, so what
holds with enough steps holds with any number.
-/

namespace LoxLang.Grammar

open Reader

/-! ## The number of steps -/

namespace Placement

/-- The `Placement` of a text in its own place. -/
def same : Placement := ⟨[], 0, [], 0, True, fun _ => rfl⟩

lemma eq_of_same {c c' : Cursor} (h : same.Cursors c c') : c' = c := by
  have hrest : c'.rest = c.rest := h.rest.trans (List.append_nil _)
  have herrors : c'.errors.toList = c.errors.toList := h.errors.trans (List.map_id _)
  obtain ⟨rest, last, position, nextId, errors⟩ := c
  obtain ⟨rest', last', position', nextId', errors'⟩ := c'
  obtain rfl : last' = last := h.last trivial
  obtain rfl : position' = position := h.position
  obtain rfl : nextId' = nextId := h.nextId
  obtain rfl : rest' = rest := hrest
  obtain rfl : errors' = errors := Array.toList_inj.mp herrors
  rfl

lemma same_cursors (c : Cursor) : same.Cursors c c where
  rest := (List.append_nil _).symm
  last _ := rfl
  position := rfl
  nextId := rfl
  errors := (List.map_id _).symm

/-- A reading that came to an end is the same in more steps: a reader `r'` that is related to `r` by
`same` gives the same reply. -/
lemma reply_eq {α : Type} {V : α → α → Prop} (hV : ∀ v v', V v v' → v' = v) {r r' : Reader α}
    (h : same.Readers V r r') {c : Cursor} (hr : r c ≠ .exhausted) : r' c = r c := by
  have hreply := h.replies c c (same_cursors c) (.inl trivial)
  cases hc : r c with
  | ok v d =>
    rw [hc] at hreply
    obtain ⟨v', d', hr', hv, hd⟩ := hreply (.inl trivial)
    rw [hr', hV v v' hv, eq_of_same hd]
  | fail e d =>
    rw [hc] at hreply
    obtain ⟨d', hr', hd⟩ := hreply (.inl trivial)
    rw [hr', eq_of_same hd]
    rfl
  | exhausted => exact (hr hc).elim

lemma expr_eq {e e' : Expr} (h : e.Matches same.ids Eq e') : e' = e := by
  have hsame := h.relabel_eq (f := id) (g := id) (fun _ _ hid => hid.symm) (fun _ _ ht => ht)
  rwa [Expr.relabel_id, Expr.relabel_id, eq_comm] at hsame

lemma stmt_eq {s s' : Stmt} (h : s.Matches same.ids Eq s') : s' = s := by
  have hsame := h.relabel_eq (f := id) (g := id) (fun _ _ hid => hid.symm) (fun _ _ ht => ht)
  rwa [Stmt.relabel_id, Stmt.relabel_id, eq_comm] at hsame

end Placement

section

variable {steps steps' : ℕ} {c : Cursor}

lemma expression_of_le (hsteps : steps ≤ steps') (h : expression steps c ≠ .exhausted) :
    expression steps' c = expression steps c :=
  Placement.reply_eq (fun _ _ => Placement.expr_eq)
    ((Placement.same.closed.restrict fun _ _ => rfl).expression hsteps) h

lemma statement_of_le (hsteps : steps ≤ steps') (h : statement steps c ≠ .exhausted) :
    statement steps' c = statement steps c :=
  Placement.reply_eq (fun _ _ => Placement.stmt_eq)
    (Placement.same.closed.statement_declaration Placement.Readers.recovering hsteps).1 h

lemma declaration_of_le (hsteps : steps ≤ steps') (h : declaration steps c ≠ .exhausted) :
    declaration steps' c = declaration steps c := by
  refine Placement.reply_eq ?_
    (Placement.same.closed.statement_declaration Placement.Readers.recovering hsteps).2 h
  rintro _ _ (hs | _)
  · rw [Placement.stmt_eq hs]
  · rfl

lemma program_of_le (hsteps : steps ≤ steps')
    (h : program (declaration steps) steps c ≠ .exhausted) :
    program (declaration steps') steps' c = program (declaration steps) steps c := by
  have hdecl := (Placement.same.closed.statement_declaration Placement.Readers.recovering hsteps).2
  refine Placement.reply_eq ?_ (Placement.same.closed.program hdecl hsteps) h
  intro ss ss' hss
  induction hss with
  | nil => rfl
  | cons hs _ ih => rw [Placement.stmt_eq hs, ih]

lemma wholeExpression_of_le (hsteps : steps ≤ steps')
    (h : wholeExpression (expression steps) c ≠ .exhausted) :
    wholeExpression (expression steps') c = wholeExpression (expression steps) c :=
  Placement.reply_eq (fun _ _ => Placement.expr_eq)
    (Placement.same.closed.wholeExpression
      ((Placement.same.closed.restrict fun _ _ => rfl).expression hsteps)) h

end

/-! ## Where a cursor stands -/

/-- The tokens that are read: an end of input is supplied if the last token is none. -/
def ended (tokens : List Token) : List Token :=
  if tokens.getLast?.any (·.kind = .eof) then tokens
  else tokens ++ [.endOfInput ((tokens.getLast?.map Token.line).getD 1)]

/-- The cursor stands in the list `tokens`, not behind its first end of input. -/
structure Cursor.StandsIn (c : Cursor) (tokens : List Token) : Prop where
  rest : c.rest = (textOf tokens).drop c.position
  last : c.last = (Cursor.start tokens 0).last
  inside : c.position ≤ (textOf tokens).length

lemma kind_last_start (tokens : List Token) (nextId : NodeId) :
    (Cursor.start tokens nextId).last.kind = .eof := by
  show ((tokens.find? (·.kind = .eof)).getD _).kind = .eof
  cases hfind : tokens.find? (·.kind = .eof) with
  | none => rfl
  | some t => simpa using List.find?_some hfind

/-- The list `ended` is the text and the first end of input, with whatever stands behind that. -/
lemma ended_eq (tokens : List Token) :
    ∃ after, ended tokens = textOf tokens ++ (Cursor.start tokens 0).last :: after := by
  show ∃ after, ended tokens = textOf tokens ++ (tokens.find? (·.kind = .eof)).getD _ :: after
  cases hfind : tokens.find? (·.kind = .eof) with
  | none =>
    -- Without an end of input of its own, the list gets one.
    have hnone : ∀ t ∈ tokens, t.kind ≠ .eof := by simpa using hfind
    have htext : textOf tokens = tokens := List.takeWhile_eq_self_iff.mpr (by simpa using hnone)
    have hlast : tokens.getLast?.any (·.kind = .eof) = false := by
      cases hlast : tokens.getLast? with
      | none => rfl
      | some t => simpa using hnone t (List.mem_of_getLast? hlast)
    exact ⟨[], by rw [ended, hlast, htext]; rfl⟩
  | some t =>
    obtain ⟨ht, before, after, rfl, hbefore⟩ := List.find?_eq_some_iff_append.mp hfind
    have htext : textOf (before ++ t :: after) = before := by
      rw [textOf, List.takeWhile_append_of_pos (by simpa using hbefore),
        List.takeWhile_cons_of_neg (by simpa using ht), List.append_nil]
    rw [htext, Option.getD_some, ended]
    split
    · exact ⟨after, rfl⟩
    · exact ⟨after ++ _, by rw [List.append_assoc, List.cons_append]⟩

namespace Cursor.StandsIn

variable {c d : Cursor} {tokens : List Token}

lemma start (tokens : List Token) (nextId : NodeId) :
    (Cursor.start tokens nextId).StandsIn tokens :=
  ⟨rfl, rfl, Nat.zero_le _⟩

/-- What is at the cursor is the token of `ended` at its position. -/
lemma getElem?_position (h : c.StandsIn tokens) : (ended tokens)[c.position]? = some c.peek := by
  obtain ⟨after, hended⟩ := ended_eq tokens
  rw [hended, Cursor.peek, h.rest, h.last]
  rcases h.inside.lt_or_eq with hlt | heq
  · rw [List.getElem?_append_left hlt, List.drop_eq_getElem_cons hlt, List.headD_cons,
      List.getElem?_eq_getElem hlt]
  · rw [heq, List.getElem?_append_right le_rfl, Nat.sub_self, List.drop_length]
    rfl

lemma of_span {used : List Token} {noted : List GrammarError} (h : c.StandsIn tokens)
    (hspan : Span c d used noted) : d.StandsIn tokens where
  rest := by
    have hrest : (textOf tokens).drop c.position = used ++ d.rest := h.rest.symm.trans hspan.rest
    rw [hspan.position, ← List.drop_drop, hrest, List.drop_left]
  last := hspan.last.trans h.last
  inside := by
    have hlen : used.length + d.rest.length = ((textOf tokens).drop c.position).length := by
      rw [← h.rest]
      exact hspan.length
    have hle := h.inside
    rw [List.length_drop] at hlen
    rw [hspan.position]
    omega

/-- An end of input is at the cursor only if the text has been read. -/
lemma rest_ne_nil (h : c.StandsIn tokens) (hkind : c.peek.kind ≠ .eof) : c.rest ≠ [] := by
  intro hnil
  refine hkind ?_
  rw [Cursor.peek, hnil, List.headD_nil, h.last]
  exact kind_last_start tokens 0

end Cursor.StandsIn

lemma Reads.span {α : Type} {r : Reader α} {c d : Cursor}
    {post : List Token → List GrammarError → α → Cursor → Prop} (h : Reads r c post)
    (hd : (r c).cursor? = some d) : ∃ used noted, Span c d used noted := by
  cases hr : r c with
  | ok v d' =>
    obtain ⟨used, noted, hspan, -⟩ := h.ok hr
    obtain rfl : d' = d := by simpa [hr, Reply.cursor?] using hd
    exact ⟨used, noted, hspan⟩
  | fail e d' =>
    rw [Reads, hr] at h
    obtain rfl : d' = d := by simpa [hr, Reply.cursor?] using hd
    exact h
  | exhausted => simp [hr, Reply.cursor?] at hd

section

variable {steps : ℕ} {c d : Cursor}

lemma advance_span (c : Cursor) : ∃ used noted, Span c c.advance used noted := by
  cases hrest : c.rest with
  | nil =>
    have hstay : c.advance = c := by rw [Cursor.advance, hrest]
    rw [hstay]
    exact ⟨[], [], Span.refl c⟩
  | cons t ts => exact ⟨[t], [], Span.advance hrest⟩

lemma ne_exhausted_of_cursor? {α : Type} {reply : Reply α} (h : reply.cursor? = some d) :
    reply ≠ .exhausted := by
  rintro rfl
  exact absurd h (by simp [Reply.cursor?])

/-- An `expression` is read forward, in whatever number of steps. -/
lemma expression_span (h : (expression steps c).cursor? = some d) :
    ∃ used noted, Span c d used noted := by
  rw [← expression_of_le (le_max_left steps (c.rest.length + 2)) (ne_exhausted_of_cursor? h)] at h
  exact (expression_reads _ c (le_max_right _ _)).span h

lemma statement_span (h : (statement steps c).cursor? = some d) :
    ∃ used noted, Span c d used noted := by
  rw [← statement_of_le (le_max_left steps (c.rest.length + 3)) (ne_exhausted_of_cursor? h)] at h
  exact (statement_declaration_reads _ c (le_max_right _ _)).1.span h

/-- A `declaration` at a token reads it, whether it is kept or not. -/
lemma declaration_span (hrest : c.rest ≠ []) (h : (declaration steps c).cursor? = some d) :
    ∃ used noted, Span c d used noted ∧ used ≠ [] := by
  have hread := (statement_declaration_reads _ c (le_max_right steps _)).2 hrest
  rw [← declaration_of_le (le_max_left steps (c.rest.length + 3)) (ne_exhausted_of_cursor? h)] at h
  cases hr : declaration (max steps (c.rest.length + 3)) c with
  | ok kept d' =>
    obtain ⟨used, noted, hspan, hkept⟩ := hread.ok hr
    obtain rfl : d' = d := by simpa [hr, Reply.cursor?] using h
    exact ⟨used, noted, hspan, hkept.moved⟩
  | fail e d' => exact (declaration_neverFails _ c e d' hr).elim
  | exhausted => simp [hr, Reply.cursor?] at h

end

/-! ## Whole token lists -/

lemma findIdx_ended (tokens : List Token) :
    (ended tokens).findIdx (·.kind = .eof) = (textOf tokens).length := by
  obtain ⟨after, hended⟩ := ended_eq tokens
  have hnone : (textOf tokens).findIdx (·.kind = .eof) = (textOf tokens).length := by
    refine List.findIdx_eq_length_of_false fun t ht => ?_
    simpa using kind_of_mem_textOf ht
  rw [hended, List.findIdx_append, hnone, if_neg (lt_irrefl _), List.findIdx_cons, kind_last_start]
  simp

/-- What stands behind the first end of input, `more`, is not looked at. -/
lemma start_append {eof : Token} (heof : eof.kind = .eof) (tokens more : List Token)
    (nextId : NodeId) :
    Cursor.start (tokens ++ eof :: more) nextId = Cursor.start (tokens ++ [eof]) nextId := by
  simp [Cursor.start, List.takeWhile_append, List.find?_append, heof]

lemma parseProgram_append {eof : Token} (heof : eof.kind = .eof) (tokens more : List Token)
    (nextId other : NodeId) :
    (parseProgram (tokens ++ eof :: more) nextId).statements.map Stmt.anonymous =
        (parseProgram (tokens ++ [eof]) other).statements.map Stmt.anonymous ∧
      (parseProgram (tokens ++ eof :: more) nextId).errors =
        (parseProgram (tokens ++ [eof]) other).errors := by
  have hstart := start_append heof tokens more nextId
  have henough : (Cursor.start (tokens ++ eof :: more) nextId).rest.length + 3 ≤
      stepsFor (tokens ++ eof :: more) := by
    have hlen := length_textOf_le (tokens ++ eof :: more)
    exact Nat.add_le_add hlen (by decide)
  obtain ⟨kept, d, hr, hkept, herrors⟩ := program_elsewhere (tokens ++ [eof]) other
    (congrArg Cursor.rest hstart)
    (fun _ => (congrArg Cursor.last hstart :)) henough
      (show _ < stepsFor (tokens ++ eof :: more) by omega)
  rw [parseProgram_of_ok hr]
  exact ⟨hkept, herrors.trans (List.map_id _)⟩

/-- An expression is read to an end, in a number of `steps` beyond that of the tokens. -/
lemma wholeExpression_ends (steps : ℕ) {c : Cursor} (hsteps : c.rest.length + 2 ≤ steps) :
    wholeExpression (expression steps) c ≠ .exhausted := by
  have hread := expression_reads steps c hsteps
  cases hr : expression steps c with
  | ok e d =>
    rw [wholeExpression_of_ok hr]
    split <;> simp
  | fail e d => simp [wholeExpression, bind, Reader.bind, hr]
  | exhausted =>
    rw [Reads, hr] at hread
    exact hread.elim

/-- The expression that was read, node ids apart, or the errors. -/
def Reply.verdict : Reply Expr → Except (List GrammarError) Expr
  | .ok e c => if c.errors.isEmpty then .ok e.anonymous else .error c.errors.toList
  | .fail e c => .error (c.record e).errors.toList
  | .exhausted => .error []

/-- Neither the number of `steps` nor the first node id matters to the result of
`parseExpression`. -/
lemma parseExpression_result (tokens : List Token) (nextId : NodeId) {steps : ℕ}
    (hsteps : (textOf tokens).length + 2 ≤ steps) (hle : steps ≤ stepsFor tokens) :
    (parseExpression tokens nextId).result.map Expr.anonymous =
      (wholeExpression (expression steps) (.start tokens 0)).verdict := by
  -- The same text with node ids that start at `nextId`.
  let raised : Placement := ⟨[], 0, [], nextId, True, fun _ => rfl⟩
  have hstart : raised.Cursors (.start tokens 0) (.start tokens nextId) :=
    ⟨(List.append_nil _).symm, fun _ => rfl, rfl, (Nat.zero_add _).symm, rfl⟩
  have hends : wholeExpression (expression steps) (.start tokens 0) ≠ .exhausted :=
    wholeExpression_ends steps hsteps
  have hread :=
    raised.closed.wholeExpression ((raised.closed.restrict fun _ _ => rfl).expression hle)
  have hreply := hread.replies _ _ hstart (.inl trivial)
  have herrors : ∀ {d d' : Cursor}, raised.Cursors d d' → d'.errors = d.errors := fun hd =>
    Array.toList_inj.mp (hd.errors.trans (List.map_id _))
  rw [parseExpression]
  cases hr : wholeExpression (expression steps) (.start tokens 0) with
  | ok e d =>
    rw [hr] at hreply
    obtain ⟨e', d', hr', he, hd⟩ := hreply (.inl trivial)
    rw [hr', Reply.verdict]
    dsimp only
    rw [herrors hd, he.anonymous_eq]
    split <;> rfl
  | fail e d =>
    rw [hr] at hreply
    obtain ⟨d', hr', hd⟩ := hreply (.inl trivial)
    rw [hr', Reply.verdict]
    dsimp only
    rw [Cursor.record, Cursor.record, herrors hd]
    rfl
  | exhausted => exact (hends hr).elim

lemma parseExpression_append {eof : Token} (heof : eof.kind = .eof) (tokens more : List Token)
    (nextId other : NodeId) :
    (parseExpression (tokens ++ eof :: more) nextId).result.map Expr.anonymous =
      (parseExpression (tokens ++ [eof]) other).result.map Expr.anonymous := by
  have hstart := start_append heof tokens more 0
  have htext : textOf (tokens ++ eof :: more) = textOf (tokens ++ [eof]) :=
    congrArg Cursor.rest hstart
  have hlen := length_textOf_le (tokens ++ [eof])
  have henough : (textOf (tokens ++ [eof])).length + 2 ≤ stepsFor (tokens ++ [eof]) := by
    rw [stepsFor]
    omega
  have hle : stepsFor (tokens ++ [eof]) ≤ stepsFor (tokens ++ eof :: more) := by simp [stepsFor]
  rw [parseExpression_result _ nextId (htext ▸ henough) hle,
    parseExpression_result _ other henough le_rfl, hstart]

/-- Reading is total.  Any token list is read to an end as a `program` and as a `wholeExpression`,
and more than `stepsFor tokens` would not change what comes of it; a program ends exactly at the
first end of input.  The cursor starts in the list and stands at one of its tokens (`StandsIn`).
Whatever is read there, and `synchronize`, moves it forward only; a `declaration` at any token but
an end of input reads at least that token, whether it is kept or not.  What follows the first end of
input has no influence. -/
theorem parser_total (tokens : List Token) (nextId : NodeId) :
    (∀ steps, stepsFor tokens ≤ steps →
      ∃ kept d, program (declaration steps) steps (.start tokens nextId) = .ok kept d ∧
        parseProgram tokens nextId = ⟨kept, d.errors.toList, d.nextId⟩ ∧
        d.StandsIn tokens ∧ d.position = (ended tokens).findIdx (·.kind = .eof)) ∧
      (∀ steps, stepsFor tokens ≤ steps →
        wholeExpression (expression steps) (.start tokens nextId) ≠ .exhausted ∧
          wholeExpression (expression steps) (.start tokens nextId) =
            wholeExpression (expression (stepsFor tokens)) (.start tokens nextId)) ∧
      (Cursor.start tokens nextId).StandsIn tokens ∧
      (∀ c : Cursor, c.StandsIn tokens →
        (ended tokens)[c.position]? = some c.peek ∧
          (∀ d, d = c.advance ∨ d = c.synchronize ∨
              (∃ steps, (expression steps c).cursor? = some d ∨
                (statement steps c).cursor? = some d) →
            d.StandsIn tokens ∧ c.position ≤ d.position) ∧
          (c.peek.kind ≠ .eof → ∀ steps,
            (∀ d, (declaration steps c).cursor? = some d →
              d.StandsIn tokens ∧ c.position < d.position) ∧
              (c.rest.length + 3 ≤ steps → declaration steps c ≠ .exhausted))) ∧
      ∀ (eof : Token) (more : List Token) (other : NodeId), eof.kind = .eof →
        (parseProgram (tokens ++ eof :: more) nextId).statements.map Stmt.anonymous =
            (parseProgram (tokens ++ [eof]) other).statements.map Stmt.anonymous ∧
          (parseProgram (tokens ++ eof :: more) nextId).errors =
            (parseProgram (tokens ++ [eof]) other).errors ∧
          (parseExpression (tokens ++ eof :: more) nextId).result.map Expr.anonymous =
            (parseExpression (tokens ++ [eof]) other).result.map Expr.anonymous := by
  have hlen : (Cursor.start tokens nextId).rest.length ≤ tokens.length := length_textOf_le tokens
  have henough : (Cursor.start tokens nextId).rest.length + 3 ≤ stepsFor tokens := by
    rw [stepsFor]
    omega
  refine ⟨fun steps hsteps => ?_, fun steps hsteps => ?_, .start tokens nextId, fun c hc => ?_,
    fun eof more other heof => ?_⟩
  · -- As a program, with the steps that are supplied and with more.
    obtain ⟨kept, d, noted, hr, hspan, -⟩ :=
      program_ends henough (show _ < stepsFor tokens by omega)
    have hposition : d.position = (textOf tokens).length := hspan.position.trans (Nat.zero_add _)
    refine ⟨kept, d, ?_, parseProgram_of_ok hr,
      (Cursor.StandsIn.start tokens nextId).of_span hspan, ?_⟩
    · rw [program_of_le hsteps (by rw [hr]; simp), hr]
    · rw [hposition, findIdx_ended]
  · -- As an expression.
    have hends := wholeExpression_ends (stepsFor tokens) (Nat.le_of_succ_le henough)
    rw [wholeExpression_of_le hsteps hends]
    exact ⟨hends, rfl⟩
  · refine ⟨hc.getElem?_position, fun d hd => ?_,
      fun hkind steps => ⟨fun d hd => ?_, fun hsteps => ?_⟩⟩
    · -- Every move is a span, and a span goes forward within the text.
      obtain ⟨used, noted, hspan⟩ : ∃ used noted, Span c d used noted := by
        rcases hd with rfl | rfl | ⟨steps, hd | hd⟩
        · exact advance_span c
        · obtain ⟨used, hspan, -⟩ := Span.synchronize c
          exact ⟨used, [], hspan⟩
        · exact expression_span hd
        · exact statement_span hd
      exact ⟨hc.of_span hspan, by rw [hspan.position]; exact Nat.le_add_right _ _⟩
    · -- A declaration moves over one token at least, so a program makes progress.
      obtain ⟨used, noted, hspan, hmoved⟩ := declaration_span (hc.rest_ne_nil hkind) hd
      refine ⟨hc.of_span hspan, ?_⟩
      rw [hspan.position]
      exact Nat.lt_add_of_pos_right (List.length_pos_iff.mpr hmoved)
    · have hread := (statement_declaration_reads steps c hsteps).2 (hc.rest_ne_nil hkind)
      intro hr
      rw [Reads, hr] at hread
      exact hread
  · -- The tokens behind the end of input, and the first node id.
    obtain ⟨hstatements, herrors⟩ := parseProgram_append heof tokens more nextId other
    exact ⟨hstatements, herrors, parseExpression_append heof tokens more nextId other⟩

end LoxLang.Grammar
