import LoxLang.Proofs.Grammar.YieldsStatements

/-!
# What is accepted

A token list is accepted exactly if the grammar derives what stands before its first end-of-input
token, and the tree is the derived one up to node ids.

The grammar alone is ambiguous: an `else` behind two nested `if`s may belong to either.  But
whatever it derives, it also derives with every `else` at the nearest `if`, and that derivation is
unique because it is what is read.
-/

namespace LoxLang.Grammar

open Reader

/-! ## The nearest `if` -/

lemma DerivesStmt.to_any {rule : StmtRule} {ts : List Token} {s : Stmt} {dangling : Bool}
    (h : DerivesStmt .nearest rule ts s dangling) : DerivesStmt .any rule ts s dangling := by
  induction h with
  | statement _ ih => exact .statement ih
  | declared h => exact .declared h
  | function parameters parts hword hname hopening hparameters hcount hlisted hclosing hleft _
      hright ih =>
    exact .function parameters parts hword hname hopening hparameters hcount hlisted hclosing
      hleft ih hright
  | expression h => exact .expression h
  | print hword he hsemi => exact .print hword he hsemi
  | ret hword hvalue hsemi => exact .ret hword hvalue hsemi
  | block parts hleft _ hright ih => exact .block parts hleft ih hright
  | ifOnly hword hopening he hclosing _ ih => exact .ifOnly hword hopening he hclosing ih
  | ifElse hword hopening he hclosing _ _ hotherwise _ ihthen ihelse =>
    exact .ifElse hword hopening he hclosing ihthen nofun hotherwise ihelse
  | loop hword hopening he hclosing _ ih => exact .loop hword hopening he hclosing ih
  | forLoop hword hopening hfirst hcondition hsemi hincrement hclosing _ ih =>
    exact .forLoop hword hopening hfirst hcondition hsemi hincrement hclosing ih

/-- An `else` behind a text that is `dangling`, ending in an `if` without one, goes to the last such
`if`. -/
lemma DerivesStmt.attach_else {rule : StmtRule} {ts us : List Token} {s e : Stmt}
    {dangling open' : Bool} {otherwise : Token} (h : DerivesStmt .nearest rule ts s dangling)
    (hdangling : dangling = true) (hotherwise : otherwise.kind = .elseWord)
    (helse : DerivesStmt .nearest .statement us e open') :
    ∃ s' dangling', DerivesStmt .nearest rule (ts ++ otherwise :: us) s' dangling' := by
  induction h with
  | statement _ ih =>
    obtain ⟨s', dangling', hs⟩ := ih hdangling
    exact ⟨s', dangling', .statement hs⟩
  | declared | function | expression | print | ret | block =>
    exact absurd hdangling Bool.false_ne_true
  | @ifOnly word opening closing cs ts condition thenBranch inThen hword hopening he
      hclosing hthen ih =>
    -- This `if` is the last one without an `else`, or there is one in its branch.
    cases inThen with
    | false =>
      refine ⟨.branch condition thenBranch (some e), open', ?_⟩
      simpa using DerivesStmt.ifElse hword hopening he hclosing hthen (fun _ => rfl)
        hotherwise helse
    | true =>
      obtain ⟨s', _, hs⟩ := ih rfl
      refine ⟨.branch condition s' none, true, ?_⟩
      simpa using DerivesStmt.ifOnly hword hopening he hclosing hs
  | @ifElse _ _ _ _ _ _ _ condition thenBranch _ _ _ hword hopening he hclosing hthen hnearest
      hword' _ _ ih =>
    obtain ⟨s', dangling', hs⟩ := ih hdangling
    refine ⟨.branch condition thenBranch (some s'), dangling', ?_⟩
    simpa using DerivesStmt.ifElse hword hopening he hclosing hthen hnearest hword' hs
  | @loop _ _ _ _ _ condition _ _ hword hopening he hclosing _ ih =>
    obtain ⟨s', dangling', hs⟩ := ih hdangling
    refine ⟨.loop condition s', dangling', ?_⟩
    simpa using DerivesStmt.loop hword hopening he hclosing hs
  | @forLoop _ _ _ _ _ _ _ _ first condition increment _ _ hword hopening hfirst hcondition hsemi
      hincrement hclosing _ ih =>
    obtain ⟨s', dangling', hs⟩ := ih hdangling
    refine ⟨loopOf first condition increment s', dangling', ?_⟩
    simpa using DerivesStmt.forLoop hword hopening hfirst hcondition hsemi hincrement hclosing hs

/-- Parts that are derived one way can each be derived another way. -/
lemma exists_parts {elses : ElseRule} (parts : List (List Token × Stmt × Bool))
    (h : ∀ p ∈ parts, ∃ s dangling, DerivesStmt elses .declaration p.1 s dangling) :
    ∃ parts' : List (List Token × Stmt × Bool),
      (∀ p ∈ parts', DerivesStmt elses .declaration p.1 p.2.1 p.2.2) ∧
      parts'.flatMap Prod.fst = parts.flatMap Prod.fst := by
  induction parts with
  | nil => exact ⟨[], by simp, rfl⟩
  | cons p parts ih =>
    obtain ⟨parts', hparts', heq⟩ := ih fun q hq => h q (List.mem_cons_of_mem p hq)
    obtain ⟨s, dangling, hs⟩ := h p (by simp)
    refine ⟨(p.1, s, dangling) :: parts', ?_, by simp [heq]⟩
    rintro q (_ | ⟨_, hq⟩)
    · exact hs
    · exact hparts' q hq

/-- Whatever is derived at all (`ElseRule.any`) is derived with every `else` at the nearest `if`. -/
lemma DerivesStmt.to_nearest {rule : StmtRule} {ts : List Token} {s : Stmt} {dangling : Bool}
    (h : DerivesStmt .any rule ts s dangling) :
    ∃ s' dangling', DerivesStmt .nearest rule ts s' dangling' := by
  induction h with
  | statement _ ih =>
    obtain ⟨s', dangling', hs⟩ := ih
    exact ⟨s', dangling', .statement hs⟩
  | declared h => exact ⟨_, _, .declared h⟩
  | function parameters parts hword hname hopening hparameters hcount hlisted hclosing hleft _
      hright ih =>
    obtain ⟨parts', hparts', heq⟩ := exists_parts parts ih
    rw [← heq]
    exact ⟨_, _, .function parameters parts' hword hname hopening hparameters hcount hlisted
      hclosing hleft hparts' hright⟩
  | expression h => exact ⟨_, _, .expression h⟩
  | print hword he hsemi => exact ⟨_, _, .print hword he hsemi⟩
  | ret hword hvalue hsemi => exact ⟨_, _, .ret hword hvalue hsemi⟩
  | block parts hleft _ hright ih =>
    obtain ⟨parts', hparts', heq⟩ := exists_parts parts ih
    rw [← heq]
    exact ⟨_, _, .block parts' hleft hparts' hright⟩
  | ifOnly hword hopening he hclosing _ ih =>
    obtain ⟨s', _, hs⟩ := ih
    exact ⟨_, _, .ifOnly hword hopening he hclosing hs⟩
  | ifElse hword hopening he hclosing _ _ hotherwise _ ihthen ihelse =>
    obtain ⟨s', inThen, hs⟩ := ihthen
    obtain ⟨e', dangling', he'⟩ := ihelse
    -- An `else` that stands behind an open branch is given to the branch.
    cases inThen with
    | false => exact ⟨_, _, .ifElse hword hopening he hclosing hs (fun _ => rfl) hotherwise he'⟩
    | true =>
      obtain ⟨t', _, ht⟩ := hs.attach_else rfl hotherwise he'
      exact ⟨_, _, .ifOnly hword hopening he hclosing ht⟩
  | loop hword hopening he hclosing _ ih =>
    obtain ⟨s', _, hs⟩ := ih
    exact ⟨_, _, .loop hword hopening he hclosing hs⟩
  | forLoop hword hopening hfirst hcondition hsemi hincrement hclosing _ ih =>
    obtain ⟨s', _, hs⟩ := ih
    exact ⟨_, _, .forLoop hword hopening hfirst hcondition hsemi hincrement hclosing hs⟩

lemma derivesProgram_any_iff {ts : List Token} :
    (∃ statements, DerivesProgram .any ts statements) ↔
      ∃ statements, DerivesProgram .nearest ts statements := by
  constructor
  · rintro ⟨statements, parts, hparts, rfl, rfl⟩
    obtain ⟨parts', hparts', heq⟩ := exists_parts parts fun p hp => (hparts p hp).to_nearest
    exact ⟨_, parts', hparts', heq, rfl⟩
  · rintro ⟨statements, parts, hparts, rfl, rfl⟩
    exact ⟨_, parts, fun p hp => (hparts p hp).to_any, rfl, rfl⟩

/-! ## Whole inputs -/

lemma length_textOf_le (tokens : List Token) : (textOf tokens).length ≤ tokens.length :=
  (List.takeWhile_prefix _).length_le

/-- A `Span` over the whole input without errors. -/
lemma Span.of_start {tokens used : List Token} {noted : List GrammarError} {nextId : NodeId}
    {d : Cursor} (h : Span (.start tokens nextId) d used noted) (hend : d.rest = [])
    (herrors : d.errors.toList = []) : textOf tokens = used ∧ noted = [] := by
  have hrest : textOf tokens = used ++ d.rest := h.rest
  have hnoted : d.errors.toList = [] ++ noted := h.errors
  rw [hend, List.append_nil] at hrest
  rw [herrors, List.nil_append] at hnoted
  exact ⟨hrest, hnoted.symm⟩

/-- What `parseProgram` comes to: the statements are `Numbered`, and without errors they are
derived. -/
lemma parseProgram_reads (tokens : List Token) (nextId : NodeId) :
    nextId ≤ (parseProgram tokens nextId).nextId ∧
      Numbered nextId (parseProgram tokens nextId).nextId
        (Stmt.allOccurrences (parseProgram tokens nextId).statements) ∧
      ((parseProgram tokens nextId).errors = [] →
        DerivesProgram .nearest (textOf tokens) (parseProgram tokens nextId).statements) := by
  have hlen := length_textOf_le tokens
  have hdecl : ∀ d : Cursor, d.rest.length ≤ tokens.length → d.rest ≠ [] →
      Reads (declaration (stepsFor tokens)) d (DeclarationRead d) :=
    fun d hd => (statement_declaration_reads (stepsFor tokens) d (by rw [stepsFor]; omega)).2
  have hread := program_reads hdecl (stepsFor tokens) (.start tokens nextId) hlen
    (Nat.lt_of_le_of_lt hlen (by rw [stepsFor]; omega))
  cases hr : program (declaration (stepsFor tokens)) (stepsFor tokens) (.start tokens nextId) with
  | ok statements d =>
    obtain ⟨used, noted, hspan, hkept, hend⟩ := hread.ok hr
    have hparsed : parseProgram tokens nextId = ⟨statements, d.errors.toList, d.nextId⟩ := by
      simp [parseProgram, hr]
    rw [hparsed]
    refine ⟨hspan.nextId, hkept.numbered, fun herrors => ?_⟩
    -- The reader has come to the end without noting an error, so it has used the whole text.
    obtain ⟨hused, hnoted⟩ := hspan.of_start hend herrors
    rw [hused]
    exact hkept.derives hnoted
  | fail e d =>
    rw [Reads, hr] at hread
    obtain ⟨used, noted, hspan⟩ := hread
    have hparsed : parseProgram tokens nextId = ⟨[], (d.record e).errors.toList, d.nextId⟩ := by
      simp [parseProgram, hr]
    rw [hparsed]
    exact ⟨hspan.nextId, Numbered.nil _ _, fun herrors => by simp [Cursor.record] at herrors⟩
  | exhausted =>
    rw [Reads, hr] at hread
    -- The steps are enough for a text of this length.
    exact hread.elim

/-- A derived program is read by `parseProgram` without errors, as it is derived. -/
lemma parseProgram_yields {tokens : List Token} {statements : List Stmt} (nextId : NodeId)
    (h : DerivesProgram .nearest (textOf tokens) statements) :
    (parseProgram tokens nextId).errors = [] ∧
      (parseProgram tokens nextId).statements.map Stmt.anonymous =
        statements.map Stmt.anonymous := by
  obtain ⟨parts, hparts, hts, rfl⟩ := h
  have hlen : (parts.flatMap Prod.fst).length ≤ tokens.length := by
    rw [hts]
    exact length_textOf_le tokens
  obtain ⟨-, hdecl⟩ :=
    readsStatements_readsDeclarations (stepsFor tokens) tokens.length (by rw [stepsFor]; omega)
  obtain ⟨kept, d, hr, -, herrors, hkept⟩ := program_yields hdecl parts hparts hlen
    (stepsFor tokens)
    (.start tokens nextId) (Nat.lt_of_le_of_lt hlen (by rw [stepsFor]; omega)) hts.symm
  have hparsed : parseProgram tokens nextId = ⟨kept, d.errors.toList, d.nextId⟩ := by
    simp [parseProgram, hr]
  rw [hparsed]
  exact ⟨by simp [herrors, Cursor.start], hkept⟩

lemma wholeExpression_of_ok {expr : Reader Expr} {c d : Cursor} {e : Expr} (h : expr c = .ok e d) :
    wholeExpression expr c =
      if d.rest = [] then .ok e d else .fail (d.errorHere .noEndOfExpression) d := by
  have hend : d.atEnd = decide (d.rest = []) := by
    cases hrest : d.rest <;> simp [Cursor.atEnd, hrest]
  rw [wholeExpression, bind_eq_of_ok h]
  refine (bind_eq_of_ok (show atEnd d = .ok d.atEnd d from rfl)).trans ?_
  by_cases hrest : d.rest = []
  · rw [if_pos hrest, hend, if_pos (decide_eq_true hrest)]
    rfl
  · rw [if_neg hrest, hend, if_neg (by simpa using hrest)]
    rfl

/-- What `parseExpression` comes to: node ids are only used up, and an expression that is accepted
is `Numbered` and derived. -/
lemma parseExpression_spans (tokens : List Token) (nextId : NodeId) :
    nextId ≤ (parseExpression tokens nextId).nextId ∧
      ∀ e, (parseExpression tokens nextId).result = .ok e →
        Numbered nextId (parseExpression tokens nextId).nextId e.occurrences ∧
        DerivesExpr .expression (textOf tokens) e := by
  have hlen : (Cursor.start tokens nextId).rest.length ≤ tokens.length := length_textOf_le tokens
  have hread := expression_reads (stepsFor tokens) (.start tokens nextId) (by rw [stepsFor]; omega)
  unfold parseExpression
  cases hr : expression (stepsFor tokens) (.start tokens nextId) with
  | ok e d =>
    obtain ⟨used, noted, hspan, hkept⟩ := hread.ok hr
    rw [wholeExpression_of_ok hr]
    by_cases hend : d.rest = []
    · rw [if_pos hend]
      refine ⟨hspan.nextId, fun e' he' => ?_⟩
      by_cases herrors : d.errors.isEmpty
      · obtain rfl : e = e' := by simpa [herrors] using he'
        obtain ⟨hused, hnoted⟩ := hspan.of_start hend (by simpa using herrors)
        rw [hused]
        exact ⟨hkept.numbered, hkept.derives hnoted⟩
      · simp [herrors] at he'
    · rw [if_neg hend]
      exact ⟨hspan.nextId, fun e' he' => by simp at he'⟩
  | fail err d =>
    rw [Reads, hr] at hread
    obtain ⟨used, noted, hspan⟩ := hread
    have hfail : wholeExpression (expression (stepsFor tokens)) (.start tokens nextId) =
        .fail err d := by
      simp [wholeExpression, bind, Reader.bind, hr]
    rw [hfail]
    exact ⟨hspan.nextId, fun e he => by simp at he⟩
  | exhausted =>
    rw [Reads, hr] at hread
    exact hread.elim

lemma parseExpression_reads {tokens : List Token} {nextId : NodeId} {e : Expr}
    (h : (parseExpression tokens nextId).result = .ok e) :
    DerivesExpr .expression (textOf tokens) e :=
  ((parseExpression_spans tokens nextId).2 e h).2

lemma parseExpression_yields {tokens : List Token} {e : Expr} (nextId : NodeId)
    (h : DerivesExpr .expression (textOf tokens) e) :
    ∃ e', (parseExpression tokens nextId).result = .ok e' ∧ e'.anonymous = e.anonymous := by
  have hlen := length_textOf_le tokens
  have hstart : (Cursor.start tokens nextId).rest = textOf tokens ++ [] := (List.append_nil _).symm
  have hsteps : (textOf tokens).length + 2 ≤ stepsFor tokens := by rw [stepsFor]; omega
  obtain ⟨e', d, hr, hrest, herrors, he'⟩ := h.yields hstart hsteps (by simp [Stops])
  refine ⟨e', ?_, he'⟩
  have hnone : d.errors = #[] := herrors
  rw [parseExpression, wholeExpression_of_ok hr, if_pos hrest]
  simp [hnone]

/-- The parser accepts exactly its grammar.  A program is read by `parseProgram` without errors
exactly if `DerivesProgram .any` derives its text; its statements are then the ones of the
derivation with every `else` at the nearest `if`, which is unique up to node ids.  The same holds of
a single expression, by `parseExpression` and `DerivesExpr`. -/
theorem parser_accepts_grammar (tokens : List Token) (nextId : NodeId) :
    ((parseProgram tokens nextId).errors = [] ↔
      ∃ statements, DerivesProgram .any (textOf tokens) statements) ∧
      ((parseProgram tokens nextId).errors = [] →
        DerivesProgram .nearest (textOf tokens) (parseProgram tokens nextId).statements) ∧
      (∀ statements, DerivesProgram .nearest (textOf tokens) statements →
        (parseProgram tokens nextId).statements.map Stmt.anonymous =
          statements.map Stmt.anonymous) ∧
      ((∃ e, (parseExpression tokens nextId).result = .ok e) ↔
        ∃ e, DerivesExpr .expression (textOf tokens) e) ∧
      (∀ e, (parseExpression tokens nextId).result = .ok e →
        DerivesExpr .expression (textOf tokens) e ∧
          ∀ e', DerivesExpr .expression (textOf tokens) e' → e.anonymous = e'.anonymous) := by
  obtain ⟨-, -, hderives⟩ := parseProgram_reads tokens nextId
  refine ⟨?_, hderives, fun statements h => (parseProgram_yields nextId h).2, ?_, ?_⟩
  · -- What is derived at all is derived with the nearest `if`, which is what is read.
    rw [derivesProgram_any_iff]
    constructor
    · exact fun herrors => ⟨_, hderives herrors⟩
    · rintro ⟨statements, h⟩
      exact (parseProgram_yields nextId h).1
  · constructor
    · rintro ⟨e, he⟩
      exact ⟨e, parseExpression_reads he⟩
    · rintro ⟨e, he⟩
      obtain ⟨e', he', -⟩ := parseExpression_yields nextId he
      exact ⟨e', he'⟩
  · intro e he
    refine ⟨parseExpression_reads he, fun e' hderives' => ?_⟩
    -- Both trees are the one that is read.
    obtain ⟨e'', he'', hsame⟩ := parseExpression_yields nextId hderives'
    obtain rfl : e'' = e := by simpa [he''] using he
    exact hsame

end LoxLang.Grammar
