import LoxLang.Proofs.Grammar.Resumption
import LoxLang.Proofs.Grammar.Totality

/-!
# The loop that a `for` stands for

A `for` statement may be written out: `for ( first condition ; increment ) body` reads as the text
`{ first while ( condition ) { body increment ; } }` does, wherever the statement stands.

The argument is about derivations.  The word `for` starts nothing but a `for` statement, so at each
such word of a derived text the derivation has a `for` statement, and the rest of it is what
surrounds that statement.  Any other text of the same tree can be put in its place, unless an `else`
behind it would then go to an `if` at its end; the text of the loop never opens such an `if` anew.
-/

namespace LoxLang.Grammar

/-! ## The text of a `for` and of its loop -/

/-- The text of a `for` statement, part by part. -/
structure ForText where
  word : Token
  opening : Token
  /-- The initializer with its semicolon. -/
  first : List Token
  condition : List Token
  semicolon : Token
  increment : List Token
  closing : Token
  body : List Token

/-- Words and marks to write a loop with. -/
structure LoopMarks where
  word : Token
  opening : Token
  closing : Token
  truth : Token
  semicolon : Token
  left : Token
  right : Token
  /-- The braces around the body and the increment. -/
  innerLeft : Token
  innerRight : Token
  word_kind : word.kind = .whileWord
  opening_kind : opening.kind = .leftParen
  closing_kind : closing.kind = .rightParen
  truth_kind : truth.kind = .trueWord
  semicolon_kind : semicolon.kind = .semicolon
  left_kind : left.kind = .leftBrace
  right_kind : right.kind = .rightBrace
  innerLeft_kind : innerLeft.kind = .leftBrace
  innerRight_kind : innerRight.kind = .rightBrace

namespace ForText

def tokens (f : ForText) : List Token :=
  f.word :: f.opening ::
    (f.first ++ (f.condition ++ f.semicolon :: (f.increment ++ f.closing :: f.body)))

/-- Whether the initializer is a bare semicolon. -/
def bare (f : ForText) : Bool := f.first.head?.any (·.kind = .semicolon)

/-- The text of one round: the `body` and the `increment`, in braces if there is an increment. -/
def round (f : ForText) (m : LoopMarks) : List Token :=
  if f.increment.isEmpty then f.body
  else m.innerLeft :: (f.body ++ (f.increment ++ [m.semicolon, m.innerRight]))

/-- The text of the `while` statement; a missing `condition` is written as true. -/
def loop (f : ForText) (m : LoopMarks) : List Token :=
  m.word :: m.opening :: ((if f.condition.isEmpty then [m.truth] else f.condition) ++
    m.closing :: f.round m)

/-- The text that the `for` statement stands for: the initializer and the `loop`, in braces if there
is an initializer. -/
def desugared (f : ForText) (m : LoopMarks) : List Token :=
  if f.bare then f.loop m else m.left :: (f.first ++ (f.loop m ++ [m.right]))

/-- The text is a `for` statement of the grammar.  The flag `dangling` tells whether it ends in an
`if` without `else`. -/
inductive Derives (f : ForText) : Stmt → Bool → Prop where
  | mk {first : Option Stmt} {condition increment : Option Expr} {body : Stmt} {dangling : Bool} :
      f.word.kind = .forWord → f.opening.kind = .leftParen → DerivesInitializer f.first first →
      Perhaps (DerivesExpr .expression) f.condition condition → f.semicolon.kind = .semicolon →
      Perhaps (DerivesExpr .expression) f.increment increment → f.closing.kind = .rightParen →
      DerivesStmt .nearest .statement f.body body dangling →
      Derives f (loopOf first condition increment body) dangling

lemma Derives.statement {f : ForText} {s : Stmt} {dangling : Bool} (h : f.Derives s dangling) :
    DerivesStmt .nearest .statement f.tokens s dangling := by
  obtain ⟨hword, hopening, hfirst, hcondition, hsemi, hincrement, hclosing, hbody⟩ := h
  exact .forLoop hword hopening hfirst hcondition hsemi hincrement hclosing hbody

lemma Derives.word_kind {f : ForText} {s : Stmt} {dangling : Bool} (h : f.Derives s dangling) :
    f.word.kind = .forWord := by
  cases h with
  | mk hword => exact hword

/-! ## The loop is derived -/

lemma round_derives {f : ForText} {body : Stmt} {increment : Option Expr} {dangling : Bool}
    (m : LoopMarks) (hincrement : Perhaps (DerivesExpr .expression) f.increment increment)
    (hbody : DerivesStmt .nearest .statement f.body body dangling) :
    ∃ inner, DerivesStmt .nearest .statement (f.round m) (roundOf body increment) inner ∧
      (inner = true → dangling = true) := by
  unfold round
  cases hus : f.increment with
  | nil =>
    rw [hus] at hincrement
    cases hincrement with
    | absent => exact ⟨dangling, hbody, id⟩
    | present he =>
      obtain ⟨t, ts, hnil, -⟩ := he.starts
      exact absurd hnil (by simp)
  | cons u us =>
    rw [hus] at hincrement
    cases hincrement with
    | @present _ e he =>
      -- With an increment a round is a block, which ends in a brace and so leaves no `if` open.
      have hstmt : DerivesStmt .nearest .declaration (u :: us ++ [m.semicolon])
          (.expression e) false :=
        .statement (.expression (.mk he m.semicolon_kind))
      have hparts :
          ∀ part ∈ [(f.body, body, dangling), (u :: us ++ [m.semicolon], .expression e, false)],
          DerivesStmt .nearest .declaration part.1 part.2.1 part.2.2 :=
        List.forall_mem_cons.mpr ⟨.statement hbody, List.forall_mem_singleton.mpr hstmt⟩
      have hblock := DerivesStmt.block _ m.innerLeft_kind hparts m.innerRight_kind
      exact ⟨false, by simpa [roundOf] using hblock, nofun⟩

lemma loop_derives {f : ForText} {body : Stmt} {condition increment : Option Expr} {dangling : Bool}
    (m : LoopMarks) (hcondition : Perhaps (DerivesExpr .expression) f.condition condition)
    (hincrement : Perhaps (DerivesExpr .expression) f.increment increment)
    (hbody : DerivesStmt .nearest .statement f.body body dangling) :
    ∃ inner, DerivesStmt .nearest .statement (f.loop m)
      (loopOf none condition increment body) inner ∧
      (inner = true → dangling = true) := by
  obtain ⟨inner, hround, hinner⟩ := round_derives m hincrement hbody
  have htest : DerivesExpr .expression (if f.condition.isEmpty then [m.truth] else f.condition)
      (condition.getD (.literal (.bool true))) := by
    cases hcs : f.condition with
    | nil =>
      rw [hcs] at hcondition
      cases hcondition with
      | absent =>
        have hunary : DerivesExpr .unary [m.truth] (.literal (.bool true)) :=
          .unsigned (.callee (.truth m.truth_kind))
        exact .loosest (.operand (.operand (.operand (.operand (.operand (.operand hunary))))))
      | present he =>
        obtain ⟨t, ts, hnil, -⟩ := he.starts
        exact absurd hnil (by simp)
    | cons t ts =>
      rw [hcs] at hcondition
      cases hcondition with
      | present he => exact he
  exact ⟨inner, .loop m.word_kind m.opening_kind htest m.closing_kind hround, hinner⟩

/-- An initializer is a `bare` semicolon, or it is a statement of its own. -/
lemma bare_or_declaration {f : ForText} {first : Option Stmt}
    (h : DerivesInitializer f.first first) :
    f.bare = true ∧ first = none ∨
      f.bare = false ∧ ∃ s, first = some s ∧ DerivesStmt .nearest .declaration f.first s false := by
  unfold bare
  generalize f.first = fs at h
  cases h with
  | bare hsemi => exact .inl ⟨by simp [hsemi], rfl⟩
  | declared h =>
    obtain ⟨word, us, rfl, hword⟩ := h.starts
    exact .inr ⟨by simp [hword], _, rfl, .declared h⟩
  | expression h =>
    obtain ⟨t, us, rfl, ht⟩ := h.starts
    refine .inr ⟨?_, _, rfl, .statement (.expression h)⟩
    have hne : t.kind ≠ .semicolon := by
      intro hk
      rw [hk] at ht
      exact absurd ht (by decide)
    simp [hne]

/-- The `desugared` text stands for the tree of the `for`, and ends in an open `if` only if the
`for` does. -/
lemma Derives.desugared {f : ForText} {s : Stmt} {dangling : Bool} (h : f.Derives s dangling)
    (m : LoopMarks) :
    ∃ inner, DerivesStmt .nearest .statement (f.desugared m) s inner ∧
      (inner = true → dangling = true) := by
  obtain ⟨-, -, hfirst, hcondition, -, hincrement, -, hbody⟩ := h
  obtain ⟨inner, hloop, hinner⟩ := loop_derives m hcondition hincrement hbody
  unfold ForText.desugared
  rcases bare_or_declaration hfirst with ⟨hbare, rfl⟩ | ⟨hbare, s, rfl, hs⟩
  · rw [if_pos hbare]
    exact ⟨inner, hloop, hinner⟩
  · have hparts : ∀ part ∈ [(f.first, s, false), (f.loop m, _, inner)],
        DerivesStmt .nearest .declaration part.1 part.2.1 part.2.2 :=
      List.forall_mem_cons.mpr ⟨hs, List.forall_mem_singleton.mpr (.statement hloop)⟩
    have hblock := DerivesStmt.block _ m.left_kind hparts m.right_kind
    simp only [List.flatMap_cons, List.flatMap_nil, List.append_nil, List.append_assoc] at hblock
    rw [if_neg (by simp [hbare])]
    exact ⟨false, hblock, nofun⟩

end ForText

/-! ## What surrounds a statement -/

/-- The text of `s` is `before`, a text of the statement `t`, and `after`.  Any text of `t` may
stand there, if it does not open an `if` at its end that was not open before: the whole is a text of
`s` again. -/
structure Surrounds (rule : StmtRule) (before after : List Token) (s : Stmt) (dangling : Bool)
    (t : Stmt) (inner : Bool) : Prop where
  noElse : ∀ rest, (dangling = true → NoElse rest) → inner = true → NoElse (after ++ rest)
  fill : ∀ us t' inner', DerivesStmt .nearest .statement us t' inner' → t'.anonymous = t.anonymous →
    (inner' = true → inner = true) →
      ∃ s' dangling', DerivesStmt .nearest rule (before ++ (us ++ after)) s' dangling' ∧
        s'.anonymous = s.anonymous ∧ (dangling' = true → dangling = true)

/-- The same as `Surrounds` for declarations in a row. -/
structure SurroundsInRow (before after : List Token) (ss : List Stmt) (t : Stmt) (inner : Bool) :
    Prop where
  noElse : ∀ rest, NoElse rest → inner = true → NoElse (after ++ rest)
  fill : ∀ us t' inner', DerivesStmt .nearest .statement us t' inner' → t'.anonymous = t.anonymous →
    (inner' = true → inner = true) →
      ∃ parts : List (List Token × Stmt × Bool),
        (∀ p ∈ parts, DerivesStmt .nearest .declaration p.1 p.2.1 p.2.2) ∧
        parts.flatMap Prod.fst = before ++ (us ++ after) ∧
        (parts.map fun p => p.2.1).map Stmt.anonymous = ss.map Stmt.anonymous

namespace Surrounds

variable {before after : List Token} {s t : Stmt} {dangling inner : Bool}

lemma refl (t : Stmt) (inner : Bool) : Surrounds .statement [] [] t inner t inner where
  noElse _ hrest := hrest
  fill us t' inner' hus ht' hinner' :=
    ⟨t', inner', by rwa [List.nil_append, List.append_nil], ht', hinner'⟩

lemma declaration (h : Surrounds .statement before after s dangling t inner) :
    Surrounds .declaration before after s dangling t inner where
  noElse := h.noElse
  fill us t' inner' hus ht' hinner' := by
    obtain ⟨s', dangling', hs', hsame, hdangling⟩ := h.fill us t' inner' hus ht' hinner'
    exact ⟨s', dangling', .statement hs', hsame, hdangling⟩

section

variable {word opening closing : Token} {cs : List Token} {condition : Expr}
  (hopening : opening.kind = .leftParen) (he : DerivesExpr .expression cs condition)
  (hclosing : closing.kind = .rightParen)

include hopening he hclosing

lemma ifOnly (hword : word.kind = .ifWord)
    (h : Surrounds .statement before after s dangling t inner) :
    Surrounds .statement (word :: opening :: (cs ++ closing :: before)) after
      (.branch condition s none) true t inner where
  noElse rest hrest := h.noElse rest fun _ => hrest rfl
  fill us t' inner' hus ht' hinner' := by
    obtain ⟨s', dangling', hs', hsame, -⟩ := h.fill us t' inner' hus ht' hinner'
    refine ⟨.branch condition s' none, true, ?_, ?_, fun _ => rfl⟩
    · simpa using DerivesStmt.ifOnly hword hopening he hclosing hs'
    · simp only [Stmt.anonymous, Stmt.relabel] at hsame ⊢
      rw [hsame]

lemma thenBranch {otherwise : Token} {vs : List Token} {e : Stmt} {open' : Bool}
    (hword : word.kind = .ifWord) (h : Surrounds .statement before after s false t inner)
    (hotherwise : otherwise.kind = .elseWord) (helse : DerivesStmt .nearest .statement vs e open') :
    Surrounds .statement (word :: opening :: (cs ++ closing :: before)) (after ++ otherwise :: vs)
      (.branch condition s (some e)) open' t inner where
  noElse rest _ hinner := by
    rw [List.append_assoc]
    exact h.noElse _ nofun hinner
  fill us t' inner' hus ht' hinner' := by
    obtain ⟨s', dangling', hs', hsame, hdangling⟩ := h.fill us t' inner' hus ht' hinner'
    refine ⟨.branch condition s' (some e), open', ?_, ?_, id⟩
    · have hclosed : dangling' = false := by simpa using hdangling
      simpa using DerivesStmt.ifElse hword hopening he hclosing hs' (fun _ => hclosed)
        hotherwise helse
    · simp only [Stmt.anonymous, Stmt.relabel] at hsame ⊢
      rw [hsame]

lemma elseBranch {otherwise : Token} {vs : List Token} {first : Stmt} {inThen : Bool}
    (hword : word.kind = .ifWord) (hthen : DerivesStmt .nearest .statement vs first inThen)
    (hnearest : inThen = false) (hotherwise : otherwise.kind = .elseWord)
    (h : Surrounds .statement before after s dangling t inner) :
    Surrounds .statement (word :: opening :: (cs ++ closing :: (vs ++ otherwise :: before))) after
      (.branch condition first (some s)) dangling t inner where
  noElse := h.noElse
  fill us t' inner' hus ht' hinner' := by
    obtain ⟨s', dangling', hs', hsame, hdangling⟩ := h.fill us t' inner' hus ht' hinner'
    refine ⟨.branch condition first (some s'), dangling', ?_, ?_, hdangling⟩
    · simpa using DerivesStmt.ifElse hword hopening he hclosing hthen (fun _ => hnearest)
        hotherwise hs'
    · simp only [Stmt.anonymous, Stmt.relabel, Stmt.relabelOptional] at hsame ⊢
      rw [hsame]

lemma loop (hword : word.kind = .whileWord)
    (h : Surrounds .statement before after s dangling t inner) :
    Surrounds .statement (word :: opening :: (cs ++ closing :: before)) after
      (.loop condition s) dangling t inner where
  noElse := h.noElse
  fill us t' inner' hus ht' hinner' := by
    obtain ⟨s', dangling', hs', hsame, hdangling⟩ := h.fill us t' inner' hus ht' hinner'
    refine ⟨.loop condition s', dangling', ?_, ?_, hdangling⟩
    · simpa using DerivesStmt.loop hword hopening he hclosing hs'
    · simp only [Stmt.anonymous, Stmt.relabel] at hsame ⊢
      rw [hsame]

end

lemma forBody {word opening semicolon closing : Token} {fs cs vs : List Token} {first : Option Stmt}
    {condition increment : Option Expr} (hword : word.kind = .forWord)
    (hopening : opening.kind = .leftParen) (hfirst : DerivesInitializer fs first)
    (hcondition : Perhaps (DerivesExpr .expression) cs condition)
    (hsemi : semicolon.kind = .semicolon)
    (hincrement : Perhaps (DerivesExpr .expression) vs increment)
    (hclosing : closing.kind = .rightParen)
    (h : Surrounds .statement before after s dangling t inner) :
    Surrounds .statement (word :: opening :: (fs ++ (cs ++ semicolon :: (vs ++ closing :: before))))
      after (loopOf first condition increment s) dangling t inner where
  noElse := h.noElse
  fill us t' inner' hus ht' hinner' := by
    obtain ⟨s', dangling', hs', hsame, hdangling⟩ := h.fill us t' inner' hus ht' hinner'
    refine ⟨loopOf first condition increment s', dangling', ?_, ?_, hdangling⟩
    · simpa using DerivesStmt.forLoop hword hopening hfirst hcondition hsemi hincrement hclosing hs'
    · rw [← forLoop_eq, ← forLoop_eq]
      exact anonymous_forLoop rfl rfl rfl hsame

/-- A declaration in a row with the `parts` behind it. -/
lemma head {parts : List (List Token × Stmt × Bool)}
    (h : Surrounds .declaration before after s dangling t inner)
    (hparts : ∀ p ∈ parts, DerivesStmt .nearest .declaration p.1 p.2.1 p.2.2) :
    SurroundsInRow before (after ++ parts.flatMap Prod.fst) (s :: parts.map fun p => p.2.1)
      t inner where
  noElse rest hrest hinner := by
    rw [List.append_assoc]
    exact h.noElse _ (fun _ => noElse_append parts hparts hrest) hinner
  fill us t' inner' hus ht' hinner' := by
    obtain ⟨s', dangling', hs', hsame, -⟩ := h.fill us t' inner' hus ht' hinner'
    refine ⟨(_, s', dangling') :: parts, List.forall_mem_cons.mpr ⟨hs', hparts⟩, by simp, ?_⟩
    rw [List.map_cons, List.map_cons, List.map_cons, hsame]

end Surrounds

namespace SurroundsInRow

variable {before after : List Token} {ss : List Stmt} {t : Stmt} {inner : Bool}

lemma behind {ts : List Token} {s : Stmt} {dangling : Bool}
    (hs : DerivesStmt .nearest .declaration ts s dangling)
    (h : SurroundsInRow before after ss t inner) :
    SurroundsInRow (ts ++ before) after (s :: ss) t inner where
  noElse := h.noElse
  fill us t' inner' hus ht' hinner' := by
    obtain ⟨parts, hparts, htext, hsame⟩ := h.fill us t' inner' hus ht' hinner'
    refine ⟨(ts, s, dangling) :: parts, List.forall_mem_cons.mpr ⟨hs, hparts⟩, ?_, ?_⟩
    · rw [List.flatMap_cons, htext, List.append_assoc]
    · rw [List.map_cons, List.map_cons, List.map_cons, hsame]

lemma noElse_brace {right : Token} (hright : right.kind = .rightBrace)
    (h : SurroundsInRow before after ss t inner) (rest : List Token) (hinner : inner = true) :
    NoElse (after ++ [right] ++ rest) := by
  rw [List.append_assoc]
  exact h.noElse _ (Stops.cons (by simp [hright])) hinner

lemma block {left right : Token} (hleft : left.kind = .leftBrace)
    (hright : right.kind = .rightBrace) (h : SurroundsInRow before after ss t inner) :
    Surrounds .statement (left :: before) (after ++ [right]) (.block ss) false t inner where
  noElse rest _ := h.noElse_brace hright rest
  fill us t' inner' hus ht' hinner' := by
    obtain ⟨parts, hparts, htext, hsame⟩ := h.fill us t' inner' hus ht' hinner'
    have hblock := DerivesStmt.block parts hleft hparts hright
    rw [htext] at hblock
    refine ⟨_, false, by simpa using hblock, ?_, id⟩
    simp only [Stmt.anonymous, Stmt.relabel, Stmt.relabelAll_eq_map]
    exact congrArg Stmt.block hsame

lemma function {word name opening closing left right : Token} {vs : List Token}
    {parameters : List Token} (hword : word.kind = .funWord) (hname : name.kind = .identifier)
    (hopening : opening.kind = .leftParen) (hparameters : ∀ p ∈ parameters, p.kind = .identifier)
    (hcount : parameters.length ≤ 255) (hlisted : Listed (parameters.map fun p => [p]) vs)
    (hclosing : closing.kind = .rightParen) (hleft : left.kind = .leftBrace)
    (hright : right.kind = .rightBrace) (h : SurroundsInRow before after ss t inner) :
    Surrounds .declaration (word :: name :: opening :: (vs ++ closing :: left :: before))
      (after ++ [right]) (.function name parameters ss) false t inner where
  noElse rest _ := h.noElse_brace hright rest
  fill us t' inner' hus ht' hinner' := by
    obtain ⟨parts, hparts, htext, hsame⟩ := h.fill us t' inner' hus ht' hinner'
    have hfunction := DerivesStmt.function parameters parts hword hname hopening hparameters hcount
      hlisted hclosing hleft hparts hright
    rw [htext] at hfunction
    refine ⟨_, false, by simpa using hfunction, ?_, id⟩
    simp only [Stmt.anonymous, Stmt.relabel, Stmt.relabelAll_eq_map]
    exact congrArg (Stmt.function name (parameters.map id)) hsame

end SurroundsInRow

/-! ## Where the word `for` stands -/

/-- Of two texts in a row a token `word` is in one or in the other. -/
lemma split_append {ts us before rest : List Token} {word : Token}
    (h : ts ++ us = before ++ word :: rest) :
    (∃ middle, ts = before ++ word :: middle ∧ rest = middle ++ us) ∨
      ∃ before', before = ts ++ before' ∧ us = before' ++ word :: rest := by
  rcases List.append_eq_append_iff.mp h with ⟨before', hbefore, hus⟩ | ⟨middle, hts, hrest⟩
  · exact .inr ⟨before', hbefore, hus⟩
  · cases middle with
    | nil => exact .inr ⟨[], by simpa using hts.symm, by simpa using hrest.symm⟩
    | cons t middle =>
      obtain ⟨rfl, rfl⟩ := List.cons_eq_cons.mp hrest
      exact .inl ⟨middle, hts, rfl⟩

/-- The word `for` stands behind a text `front` without that word. -/
lemma split_behind {front ts before rest : List Token} {word : Token}
    (hfront : ∀ t ∈ front, t.kind ≠ .forWord) (hword : word.kind = .forWord)
    (h : front ++ ts = before ++ word :: rest) :
    ∃ before', before = front ++ before' ∧ ts = before' ++ word :: rest := by
  rcases split_append h with ⟨middle, rfl, -⟩ | hsplit
  · exact absurd hword (hfront word (by simp))
  · exact hsplit

/-- Kinds of the tokens that expressions and the clauses of a `for` are made of. -/
def inClause (k : Kind) : Bool := inExpression k || k = .semicolon || k = .varWord

lemma inClause_iff {k : Kind} (h : inClause k = true) : k ≠ .forWord ∧ k ≠ .eof := by
  revert h
  cases k <;> decide

lemma DerivesExpr.inClause {rule : ExprRule} {ts : List Token} {e : Expr}
    (h : DerivesExpr rule ts e) : ∀ t ∈ ts, inClause t.kind = true := by
  intro t ht
  rw [Grammar.inClause, h.kinds t ht]
  rfl

lemma Perhaps.inClause {ts : List Token} {e : Option Expr}
    (h : Perhaps (DerivesExpr .expression) ts e) : ∀ t ∈ ts, inClause t.kind = true := by
  cases h with
  | absent => exact fun _ => nofun
  | present h => exact h.inClause

lemma DerivesExpressionStmt.inClause {ts : List Token} {s : Stmt} (h : DerivesExpressionStmt ts s) :
    ∀ t ∈ ts, inClause t.kind = true := by
  obtain ⟨he, hsemi⟩ := h
  exact List.forall_mem_append.mpr ⟨he.inClause, List.forall_mem_singleton.mpr (by rw [hsemi]; rfl)⟩

lemma DerivesVariable.inClause {ts : List Token} {s : Stmt} (h : DerivesVariable ts s) :
    ∀ t ∈ ts, inClause t.kind = true := by
  cases h with
  | bare hword hname hsemi =>
    simp only [List.forall_mem_cons, hword, hname, hsemi]
    exact ⟨rfl, rfl, rfl, fun _ => nofun⟩
  | initialized hword hname hequal he hsemi =>
    simp only [List.forall_mem_cons, List.forall_mem_append, hword, hname, hequal, hsemi]
    exact ⟨rfl, rfl, rfl, he.inClause, rfl, fun _ => nofun⟩

lemma DerivesInitializer.inClause {ts : List Token} {s : Option Stmt}
    (h : DerivesInitializer ts s) : ∀ t ∈ ts, inClause t.kind = true := by
  cases h with
  | bare hsemi => exact List.forall_mem_singleton.mpr (by rw [hsemi]; rfl)
  | declared h => exact h.inClause
  | expression h => exact h.inClause

/-- No end of input stands in a derived text. -/
lemma DerivesStmt.ne_eof {elses : ElseRule} {rule : StmtRule} {ts : List Token} {s : Stmt}
    {dangling : Bool} (h : DerivesStmt elses rule ts s dangling) : ∀ t ∈ ts, t.kind ≠ .eof := by
  have hclause : ∀ {ts : List Token}, (∀ t ∈ ts, inClause t.kind = true) →
      ∀ t ∈ ts, t.kind ≠ .eof :=
    fun h t ht => (inClause_iff (h t ht)).2
  have hflat : ∀ {parts : List (List Token × Stmt × Bool)},
      (∀ p ∈ parts, ∀ t ∈ p.1, t.kind ≠ .eof) →
      ∀ t ∈ parts.flatMap Prod.fst, t.kind ≠ .eof := by
    intro parts hparts t ht
    obtain ⟨p, hp, htp⟩ := List.mem_flatMap.mp ht
    exact hparts p hp t htp
  induction h with
  | statement _ ih => exact ih
  | declared h => exact hclause h.inClause
  | expression h => exact hclause h.inClause
  | function parameters parts hword hname hopening hparameters _ hlisted hclosing hleft _
      hright ih =>
    have hmiddle := hlisted.forall_mem (p := fun t => t.kind ≠ .eof) (fun t ht => by simp [ht])
      (List.forall_mem_map.mpr fun p hp => by simp [hparameters p hp])
    simp only [List.forall_mem_cons, List.forall_mem_append]
    exact ⟨by simp [hword], by simp [hname], by simp [hopening],
      hmiddle, by simp [hclosing], by simp [hleft], hflat ih,
      by simp [hright]⟩
  | print hword he hsemi =>
    simp only [List.forall_mem_cons, List.forall_mem_append]
    exact ⟨by simp [hword], hclause he.inClause, by simp [hsemi]⟩
  | ret hword hvalue hsemi =>
    simp only [List.forall_mem_cons, List.forall_mem_append]
    exact ⟨by simp [hword], hclause hvalue.inClause, by simp [hsemi]⟩
  | block parts hleft _ hright ih =>
    simp only [List.forall_mem_cons, List.forall_mem_append]
    exact ⟨by simp [hleft], hflat ih, by simp [hright]⟩
  | ifOnly hword hopening he hclosing _ ih | loop hword hopening he hclosing _ ih =>
    simp only [List.forall_mem_cons, List.forall_mem_append]
    exact ⟨by simp [hword], by simp [hopening], hclause he.inClause, by simp [hclosing], ih⟩
  | ifElse hword hopening he hclosing _ _ hotherwise _ ihthen ihelse =>
    simp only [List.forall_mem_cons, List.forall_mem_append]
    exact ⟨by simp [hword], by simp [hopening], hclause he.inClause, by simp [hclosing],
      ihthen, by simp [hotherwise], ihelse⟩
  | forLoop hword hopening hfirst hcondition hsemi hincrement hclosing _ ih =>
    simp only [List.forall_mem_cons, List.forall_mem_append]
    exact ⟨by simp [hword], by simp [hopening], hclause hfirst.inClause,
      hclause hcondition.inClause, by simp [hsemi],
      hclause hincrement.inClause, by simp [hclosing], ih⟩

/-- At each word `for` of a text of `s` there is a `for` statement, and the rest of the text
`Surrounds` it. -/
def FindsFors (rule : StmtRule) (ts : List Token) (s : Stmt) (dangling : Bool) : Prop :=
  ∀ before word rest, ts = before ++ word :: rest → word.kind = .forWord →
    ∃ (f : ForText) (t : Stmt) (inner : Bool) (after : List Token),
      f.Derives t inner ∧ word :: rest = f.tokens ++ after ∧
      Surrounds rule before after s dangling t inner

/-- The word stands in the last part `ts` of a text. -/
lemma FindsFors.of_last {rule rule' : StmtRule} {front ts : List Token} {s u : Stmt}
    {dangling open' : Bool} (h : FindsFors rule ts s dangling)
    (hfront : ∀ t ∈ front, t.kind ≠ .forWord)
    (hsurrounds : ∀ {before after : List Token} {t : Stmt} {inner : Bool},
      Surrounds rule before after s dangling t inner →
      Surrounds rule' (front ++ before) after u open' t inner) :
    FindsFors rule' (front ++ ts) u open' := by
  intro before word rest heq hword
  obtain ⟨before, rfl, hts⟩ := split_behind hfront hword heq
  obtain ⟨f, t, inner, after, hf, hrest, ht⟩ := h before word rest hts hword
  exact ⟨f, t, inner, after, hf, hrest, hsurrounds ht⟩

/-- The word stands in one of the two parts `ts` and `us` of a text. -/
lemma FindsFors.of_either {rule rule' : StmtRule} {front ts us : List Token} {between : Token}
    {s s' u : Stmt} {dangling dangling' open' : Bool} (hts : FindsFors rule ts s dangling)
    (hus : FindsFors rule us s' dangling') (hfront : ∀ t ∈ front, t.kind ≠ .forWord)
    (hbetween : between.kind ≠ .forWord)
    (hfirst : ∀ {before after : List Token} {t : Stmt} {inner : Bool},
      Surrounds rule before after s dangling t inner →
      Surrounds rule' (front ++ before) (after ++ between :: us) u open' t inner)
    (hlast : ∀ {before after : List Token} {t : Stmt} {inner : Bool},
      Surrounds rule before after s' dangling' t inner →
      Surrounds rule' (front ++ (ts ++ between :: before)) after u open' t inner) :
    FindsFors rule' (front ++ (ts ++ between :: us)) u open' := by
  intro before word rest heq hword
  obtain ⟨before, rfl, hinside⟩ := split_behind hfront hword heq
  rcases split_append hinside with ⟨middle, hmiddle, rfl⟩ | ⟨before, rfl, hlater⟩
  · obtain ⟨f, t, inner, after, hf, hrest, ht⟩ := hts before word middle hmiddle hword
    refine ⟨f, t, inner, after ++ between :: us, hf, ?_, hfirst ht⟩
    rw [← List.cons_append, hrest, List.append_assoc]
  · have hsingle : ∀ t ∈ [between], t.kind ≠ .forWord := List.forall_mem_singleton.mpr hbetween
    obtain ⟨before, rfl, hbehind⟩ := split_behind hsingle hword hlater
    obtain ⟨f, t, inner, after, hf, hrest, ht⟩ := hus before word rest hbehind hword
    exact ⟨f, t, inner, after, hf, hrest, hlast ht⟩

lemma findsFors_of_none {rule : StmtRule} {ts : List Token} {s : Stmt} {dangling : Bool}
    (h : ∀ t ∈ ts, t.kind ≠ .forWord) : FindsFors rule ts s dangling := by
  rintro before word rest rfl hword
  exact absurd hword (h word (by simp))

/-- The same as `FindsFors` for declarations in a row, which closing tokens may follow. -/
lemma exists_for_in_row {parts : List (List Token × Stmt × Bool)} {before rest : List Token}
    {word : Token} (hparts : ∀ p ∈ parts, DerivesStmt .nearest .declaration p.1 p.2.1 p.2.2)
    (hfinds : ∀ p ∈ parts, FindsFors .declaration p.1 p.2.1 p.2.2)
    (h : parts.flatMap Prod.fst = before ++ word :: rest) (hword : word.kind = .forWord) :
    ∃ (f : ForText) (t : Stmt) (inner : Bool) (after : List Token),
      f.Derives t inner ∧ word :: rest = f.tokens ++ after ∧
      SurroundsInRow before after (parts.map fun p => p.2.1) t inner := by
  induction parts generalizing before with
  | nil => simp at h
  | cons p parts ih =>
    obtain ⟨hp, hparts⟩ := List.forall_mem_cons.mp hparts
    obtain ⟨hfindsp, hfinds⟩ := List.forall_mem_cons.mp hfinds
    rw [List.flatMap_cons] at h
    rcases split_append h with ⟨middle, hts, rfl⟩ | ⟨before', rfl, hts⟩
    · obtain ⟨f, t, inner, after, hf, hrest, ht⟩ := hfindsp before word middle hts hword
      refine ⟨f, t, inner, after ++ parts.flatMap Prod.fst, hf, ?_, ht.head hparts⟩
      rw [← List.cons_append, hrest, List.append_assoc]
    · obtain ⟨f, t, inner, after, hf, hrest, ht⟩ := ih hparts hfinds hts
      exact ⟨f, t, inner, after, hf, hrest, ht.behind hp⟩

/-- The word stands between braces. -/
lemma findsFors_of_braces {rule : StmtRule} {front : List Token} {right : Token} {u : Stmt}
    {parts : List (List Token × Stmt × Bool)}
    (hparts : ∀ p ∈ parts, DerivesStmt .nearest .declaration p.1 p.2.1 p.2.2)
    (hfinds : ∀ p ∈ parts, FindsFors .declaration p.1 p.2.1 p.2.2)
    (hfront : ∀ t ∈ front, t.kind ≠ .forWord) (hright : right.kind = .rightBrace)
    (hsurrounds : ∀ {before after : List Token} {t : Stmt} {inner : Bool},
      SurroundsInRow before after (parts.map fun p => p.2.1) t inner →
        Surrounds rule (front ++ before) (after ++ [right]) u false t inner) :
    FindsFors rule (front ++ (parts.flatMap Prod.fst ++ [right])) u false := by
  intro before word rest heq hword
  obtain ⟨before, rfl, hinside⟩ := split_behind hfront hword heq
  rcases split_append hinside with ⟨middle, hts, rfl⟩ | ⟨before', -, hts⟩
  · obtain ⟨f, t, inner, after, hf, hrest, ht⟩ := exists_for_in_row hparts hfinds hts hword
    refine ⟨f, t, inner, after ++ [right], hf, ?_, hsurrounds ht⟩
    rw [← List.cons_append, hrest, List.append_assoc]
  · have hmem : word ∈ [right] := by simp [hts]
    rw [List.mem_singleton.mp hmem, hright] at hword
    exact absurd hword (by decide)

/-- Each `for` in a derived text is found. -/
lemma DerivesStmt.findsFors {rule : StmtRule} {ts : List Token} {s : Stmt} {dangling : Bool}
    (h : DerivesStmt .nearest rule ts s dangling) : FindsFors rule ts s dangling := by
  have hnone : ∀ {ts : List Token}, (∀ t ∈ ts, inClause t.kind = true) →
      ∀ t ∈ ts, t.kind ≠ .forWord :=
    fun h t ht => (inClause_iff (h t ht)).1
  have hcondition : ∀ {word opening closing : Token} {cs : List Token} {e : Expr},
      word.kind ≠ .forWord →
      opening.kind = .leftParen → DerivesExpr .expression cs e → closing.kind = .rightParen →
      ∀ t ∈ word :: opening :: (cs ++ [closing]), t.kind ≠ .forWord := by
    intro word opening closing cs e hword hopening he hclosing
    simp only [List.forall_mem_cons, List.forall_mem_append]
    exact ⟨hword, by simp [hopening], hnone he.inClause, by simp [hclosing], fun _ => nofun⟩
  induction h with
  | statement _ ih =>
    intro before word rest heq hword
    obtain ⟨f, t, inner, after, hf, hrest, ht⟩ := ih before word rest heq hword
    exact ⟨f, t, inner, after, hf, hrest, ht.declaration⟩
  | declared h => exact findsFors_of_none (hnone h.inClause)
  | expression h => exact findsFors_of_none (hnone h.inClause)
  | print hword he hsemi =>
    refine findsFors_of_none ?_
    simp only [List.forall_mem_cons, List.forall_mem_append]
    exact ⟨by simp [hword], hnone he.inClause, by simp [hsemi]⟩
  | ret hword hvalue hsemi =>
    refine findsFors_of_none ?_
    simp only [List.forall_mem_cons, List.forall_mem_append]
    exact ⟨by simp [hword], hnone hvalue.inClause, by simp [hsemi]⟩
  | @block left right parts hleft hparts hright ih =>
    have hfront : ∀ t ∈ [left], t.kind ≠ .forWord := by simp [hleft]
    exact findsFors_of_braces hparts ih hfront hright fun h => h.block hleft hright
  | @function word name opening closing left right vs parameters parts hword hname hopening
      hparameters hcount hlisted hclosing hleft hparts hright ih =>
    have hmiddle := hlisted.forall_mem (p := fun t => t.kind ≠ .forWord) (fun t ht => by simp [ht])
      (List.forall_mem_map.mpr fun p hp => by simp [hparameters p hp])
    have hfront : ∀ t ∈ word :: name :: opening :: (vs ++ [closing, left]), t.kind ≠ .forWord := by
      simp only [List.forall_mem_cons, List.forall_mem_append]
      exact ⟨by simp [hword], by simp [hname], by simp [hopening],
        hmiddle, by simp [hclosing], by simp [hleft], fun _ => nofun⟩
    simpa using findsFors_of_braces hparts ih hfront hright fun h => by
      simpa using h.function hword hname hopening hparameters hcount hlisted hclosing hleft hright
  | ifOnly hword hopening he hclosing _ ih =>
    simpa using ih.of_last (hcondition (by simp [hword]) hopening he hclosing) fun h => by
      simpa using h.ifOnly hopening he hclosing hword
  | loop hword hopening he hclosing _ ih =>
    simpa using ih.of_last (hcondition (by simp [hword]) hopening he hclosing) fun h => by
      simpa using h.loop hopening he hclosing hword
  | ifElse hword hopening he hclosing hthen hnearest hotherwise helse ihthen ihelse =>
    -- The first branch ends in no open `if`, so nothing in it lays claim to this `else`.
    obtain rfl := hnearest rfl
    have hfront := hcondition (hword.trans_ne (by decide)) hopening he hclosing
    have hfound := ihthen.of_either ihelse hfront (hotherwise.trans_ne (by decide))
      (fun h => by simpa using h.thenBranch hopening he hclosing hword hotherwise helse)
      fun h => by simpa using h.elseBranch hopening he hclosing hword hthen rfl hotherwise
    simpa using hfound
  | @forLoop word opening semicolon closing fs cs us ts first condition increment body dangling
      hword hopening hfirst hcs hsemi hus hclosing hbody ih =>
    intro before word' rest heq hword'
    cases before with
    | nil =>
      obtain ⟨rfl, rfl⟩ := List.cons_eq_cons.mp heq
      refine ⟨⟨word, opening, fs, cs, semicolon, us, closing, ts⟩, _, dangling, [], ?_,
        ?_, .refl _ _⟩
      · exact .mk hword hopening hfirst hcs hsemi hus hclosing hbody
      · simp [ForText.tokens]
    | cons t before =>
      -- Behind its own word the text goes on with clauses, so another `for` is in the body.
      obtain ⟨rfl, heq⟩ := List.cons_eq_cons.mp heq
      have hfront : ∀ t ∈ opening :: (fs ++ (cs ++ semicolon :: (us ++ [closing]))),
          t.kind ≠ .forWord := by
        simp only [List.forall_mem_cons, List.forall_mem_append]
        exact ⟨by simp [hopening], hnone hfirst.inClause, hnone hcs.inClause, by simp [hsemi],
          hnone hus.inClause, by simp [hclosing], fun _ => nofun⟩
      have hbehind : opening :: (fs ++ (cs ++ semicolon :: (us ++ [closing]))) ++ ts =
          before ++ word' :: rest := by
        simpa using heq
      obtain ⟨before, rfl, hts⟩ := split_behind hfront hword' hbehind
      obtain ⟨f, t, inner, after, hf, hrest, ht⟩ := ih before word' rest hts hword'
      exact ⟨f, t, inner, after, hf, hrest, by
        simpa using ht.forBody hword hopening hfirst hcs hsemi hus hclosing⟩

/-! ## One statement at a place -/

/-- Two statements that are derived at the same place, each as far as it goes, are the same. -/
lemma DerivesStmt.eq_of_append {ts us rest more : List Token} {s t : Stmt} {dangling inner : Bool}
    (hs : DerivesStmt .nearest .statement ts s dangling)
    (ht : DerivesStmt .nearest .statement us t inner) (h : ts ++ rest = us ++ more)
    (hrest : dangling = true → NoElse rest) (hmore : inner = true → NoElse more) :
    rest = more ∧ s.anonymous = t.anonymous := by
  let c : Cursor := ⟨ts ++ rest, .endOfInput 1, 0, 0, #[]⟩
  obtain ⟨hread, -⟩ :=
    readsStatements_readsDeclarations (ts.length + us.length + 3) (ts.length + us.length) le_rfl
  obtain ⟨v, d, hv, hd, -, hsv⟩ := hread ts rest s dangling c hs (by omega) rfl hrest
  obtain ⟨w, e, hw, he, -, htw⟩ := hread us more t inner c ht (by omega) h hmore
  obtain ⟨rfl, rfl⟩ := Reply.ok.inj (hv.symm.trans hw)
  exact ⟨hd.symm.trans he, hsv.symm.trans htw⟩

/-- If one derivation of a text is `dangling`, ending in an open `if`, so is any other. -/
lemma DerivesStmt.dangling_of {ts : List Token} {s t : Stmt} {dangling inner : Bool}
    (hs : DerivesStmt .nearest .statement ts s dangling)
    (ht : DerivesStmt .nearest .statement ts t inner) (hdangling : dangling = true) :
    inner = true := by
  by_contra hinner
  -- An `else` would be read as a part of the first, and not as a part of the second.
  have hotherwise : (⟨.elseWord, "else", none, 1⟩ : Token).kind = .elseWord := rfl
  let block : List Token := [⟨.leftBrace, "\x7b", none, 1⟩, ⟨.rightBrace, "\x7d", none, 1⟩]
  have hblock : DerivesStmt .nearest .statement block (.block []) false :=
    .block [] rfl (fun _ => nofun) rfl
  obtain ⟨u, open', hu⟩ := hs.attach_else hdangling hotherwise hblock
  obtain ⟨hnil, -⟩ :=
    ht.eq_of_append hu (List.append_nil _).symm (fun h => absurd h hinner) (by simp [Stops])
  exact absurd hnil (by simp)

/-! ## Programs -/

lemma noElse_textOf {after : List Token} (h : NoElse after) : NoElse (textOf after) := by
  cases after with
  | nil => exact h
  | cons t ts =>
    by_cases hk : t.kind = .eof
    · simp [textOf, hk, Stops]
    · rw [textOf, List.takeWhile_cons_of_pos (by simpa using hk)]
      exact Stops.cons (h t rfl)

/-- Behind the end of input nothing matters: `textOf` stops there. -/
lemma textOf_append_of_eof {before : List Token} (h : ∃ t ∈ before, t.kind = .eof)
    (more : List Token) : textOf (before ++ more) = textOf before := by
  obtain ⟨t, ht, hk⟩ := h
  obtain ⟨front, back, rfl⟩ := List.append_of_mem ht
  have hstart : ∀ more, textOf (front ++ t :: more) = textOf (front ++ [t]) := fun more =>
    congrArg Cursor.rest (start_append hk front more 0)
  rw [List.append_assoc, List.cons_append]
  exact (hstart _).trans (hstart back).symm

/-- The `desugared` text in the place of a `for` statement of a derived program. -/
lemma DerivesProgram.desugared {before after : List Token} {f : ForText} {s : Stmt}
    {dangling : Bool} {statements : List Stmt}
    (h : DerivesProgram .nearest (before ++ (f.tokens ++ after)) statements)
    (hfor : f.Derives s dangling) (hwhole : dangling = true → NoElse after) (m : LoopMarks) :
    ∃ statements', DerivesProgram .nearest (before ++ (f.desugared m ++ after)) statements' ∧
      statements'.map Stmt.anonymous = statements.map Stmt.anonymous := by
  obtain ⟨parts, hparts, htext, rfl⟩ := h
  obtain ⟨g, t, inner, rest, hg, hrest, hrow⟩ :=
    exists_for_in_row hparts (fun p hp => (hparts p hp).findsFors) htext hfor.word_kind
  have hrow' : inner = true → NoElse rest := by simpa using hrow.noElse [] (by simp [Stops])
  obtain ⟨rfl, hsame⟩ := hfor.statement.eq_of_append hg.statement hrest hwhole hrow'
  have htokens : f.tokens = g.tokens := List.append_cancel_right hrest
  obtain ⟨inner', hloop, hinner'⟩ := hfor.desugared m
  have hinner : dangling = true → inner = true :=
    hfor.statement.dangling_of (htokens ▸ hg.statement)
  obtain ⟨parts', hparts', htext', hsame'⟩ :=
    hrow.fill _ s inner' hloop hsame fun h => hinner (hinner' h)
  exact ⟨_, ⟨parts', hparts', htext', rfl⟩, hsame'⟩

/-- A `for` statement is exactly the loop it stands for.  In a program that is read without errors
(`haccepted`) each word `for` starts a `for` statement.  Wherever the whole of a `for` statement
stands in it, with no `else` behind it that would be a part of it, its `desugared` text can be
written instead: the program is read without errors again, as the same statements up to node ids. -/
theorem for_reads_as_its_loop (tokens : List Token) (i : NodeId)
    (haccepted : (parseProgram tokens i).errors = []) :
    (∀ before word rest, textOf tokens = before ++ word :: rest → word.kind = .forWord →
      ∃ (f : ForText) (s : Stmt) (dangling : Bool) (after : List Token), f.Derives s dangling ∧
        word :: rest = f.tokens ++ after ∧ (dangling = true → NoElse after)) ∧
      ∀ (before after : List Token) (f : ForText) (s : Stmt) (dangling : Bool) (m : LoopMarks)
        (j : NodeId),
        tokens = before ++ (f.tokens ++ after) → f.Derives s dangling →
        (dangling = true → NoElse after) →
        (parseProgram (before ++ (f.desugared m ++ after)) j).errors = [] ∧
          (parseProgram (before ++ (f.desugared m ++ after)) j).statements.map Stmt.anonymous =
            (parseProgram tokens i).statements.map Stmt.anonymous := by
  have hderives := (parseProgram_reads tokens i).2.2 haccepted
  refine ⟨fun before word rest htext hword => ?_,
    fun before after f s dangling m j htokens hfor hwhole => ?_⟩
  · -- The word is one of a declaration of the program, in which it is found.
    obtain ⟨parts, hparts, hflat, -⟩ := hderives
    obtain ⟨f, t, inner, after, hf, hrest, hrow⟩ :=
      exists_for_in_row hparts (fun p hp => (hparts p hp).findsFors) (hflat.trans htext) hword
    exact ⟨f, t, inner, after, hf, hrest, by simpa using hrow.noElse [] (by simp [Stops])⟩
  · -- Behind an end of input neither text is read.
    by_cases heof : ∃ t ∈ before, t.kind = .eof
    · rw [htokens, textOf_append_of_eof heof,
        ← textOf_append_of_eof heof (f.desugared m ++ after), ← htokens] at hderives
      exact parseProgram_yields j hderives
    · have hbefore : ∀ t ∈ before, t.kind ≠ .eof := fun t ht hk => heof ⟨t, ht, hk⟩
      obtain ⟨inner, hloop, -⟩ := hfor.desugared m
      -- Neither text has an end of input in it, so that both programs end at the same one.
      have htext : ∀ {ts : List Token}, (∀ t ∈ ts, t.kind ≠ .eof) →
          textOf (before ++ (ts ++ after)) = before ++ (ts ++ textOf after) := by
        intro ts hts
        rw [← List.append_assoc, ← List.append_assoc]
        exact (start_behind (List.forall_mem_append.mpr ⟨hbefore, hts⟩) after 0 0).1
      have hfront : textOf tokens = before ++ (f.tokens ++ textOf after) := by
        rw [htokens, htext hfor.statement.ne_eof]
      rw [hfront] at hderives
      obtain ⟨statements, hstatements, hsame⟩ :=
        hderives.desugared hfor (fun h => noElse_textOf (hwhole h)) m
      rw [← htext hloop.ne_eof] at hstatements
      obtain ⟨herrors, hread⟩ := parseProgram_yields j hstatements
      exact ⟨herrors, hread.trans hsame⟩

/-- In `{ for (var i; a; a = i) if (a) for (;;) print i; }` the body of the outer `for` ends in an
`if` without `else`, and a `for` is inside that. -/
theorem nested_for_reads_as_its_loop :
    let a : Token := ⟨.identifier, "a", none, 1⟩
    let i : Token := ⟨.identifier, "i", none, 1⟩
    let word : Token := ⟨.forWord, "for", none, 1⟩
    let opening : Token := ⟨.leftParen, "(", none, 1⟩
    let closing : Token := ⟨.rightParen, ")", none, 1⟩
    let semicolon : Token := ⟨.semicolon, ";", none, 1⟩
    let left : Token := ⟨.leftBrace, "\x7b", none, 1⟩
    let right : Token := ⟨.rightBrace, "\x7d", none, 1⟩
    let inner : List Token :=
      [word, opening, semicolon, semicolon, closing, ⟨.printWord, "print", none, 1⟩, i, semicolon]
    let f : ForText := ⟨word, opening, [⟨.varWord, "var", none, 1⟩, i, semicolon], [a], semicolon,
      [a, ⟨.equal, "=", none, 1⟩, i], closing,
      [⟨.ifWord, "if", none, 1⟩, opening, a, closing] ++ inner⟩
    let m : LoopMarks := ⟨⟨.whileWord, "while", none, 1⟩, opening, closing,
      ⟨.trueWord, "true", none, 1⟩, semicolon, left, right, left, right, rfl, rfl, rfl, rfl, rfl,
      rfl, rfl, rfl, rfl⟩
    (parseProgram ([left] ++ (f.tokens ++ [right])) 0).errors = [] ∧
      (parseProgram ([left] ++ (f.desugared m ++ [right])) 7).errors = [] ∧
      (parseProgram ([left] ++ (f.desugared m ++ [right])) 7).statements.map Stmt.anonymous =
        [.block [.block [.var i none, .loop (.read 0 a) (.block
          [.branch (.read 0 a) (.loop (.literal (.bool true)) (.print (.read 0 i))) none,
            .expression (.assign 0 a (.read 0 i))])]]] := by
  intro a i word opening closing semicolon left right inner f m
  have hname : ∀ t : Token, t.kind = .identifier → DerivesExpr .expression [t] (.read 0 t) :=
    fun t ht => .loosest (.operand
      (.operand (.operand (.operand (.operand (.operand (.unsigned (.callee (.named 0 ht)))))))))
  have hprint : DerivesStmt .nearest .statement [⟨.printWord, "print", none, 1⟩, i, semicolon]
      (.print (.read 0 i)) false :=
    .print rfl (hname i rfl) rfl
  have hbare : DerivesInitializer [semicolon] none := .bare rfl
  have hinner :
      DerivesStmt .nearest .statement inner (loopOf none none none (.print (.read 0 i))) false :=
    .forLoop rfl rfl hbare .absent rfl .absent rfl hprint
  -- From the inside out: the inner `for`, the `if` around it, the outer `for` and the block.
  have hbranch : DerivesStmt .nearest .statement
      (⟨.ifWord, "if", none, 1⟩ :: opening :: ([a] ++ closing :: inner))
      (.branch (.read 0 a) (loopOf none none none (.print (.read 0 i))) none) true :=
    .ifOnly rfl rfl (hname a rfl) rfl hinner
  have hfor :
      f.Derives (loopOf (some (.var i none)) (some (.read 0 a)) (some (.assign 0 a (.read 0 i)))
        (.branch (.read 0 a) (loopOf none none none (.print (.read 0 i))) none)) true :=
    .mk rfl rfl (.declared (.bare rfl rfl rfl)) (.present (hname a rfl)) rfl
      (.present (.assignment 0 rfl rfl (hname i rfl))) rfl hbranch
  have hblock :
      DerivesStmt .nearest .statement (left :: ([(f.tokens, _, true)].flatMap Prod.fst ++ [right]))
      (.block ([(f.tokens, _, true)].map fun part => part.2.1)) false :=
    .block _ rfl (List.forall_mem_singleton.mpr (.statement hfor.statement)) rfl
  have hprogram : DerivesProgram .nearest (textOf ([left] ++ (f.tokens ++ [right]))) [_] :=
    ⟨[(_, _, false)], List.forall_mem_singleton.mpr (.statement hblock), rfl, rfl⟩
  obtain ⟨haccepted, hstatements⟩ := parseProgram_yields 0 hprogram
  obtain ⟨herrors, hsame⟩ := (for_reads_as_its_loop _ 0 haccepted).2 [left] [right] f _ true
    m 7 rfl hfor fun _ => Stops.cons (by decide)
  exact ⟨haccepted, herrors, hsame.trans hstatements⟩

end LoxLang.Grammar
