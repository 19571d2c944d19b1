import Mathlib.Algebra.Order.BigOperators.Group.List
import LoxLang.Proofs.Grammar.Recovery

/-!
# A missing semicolon

If the semicolon of a statement is missing and a word follows that starts the next statement, the
error is found at that word.  Going on after an error steps over the token at which it was found,
whatever it is.  So the word is lost, and the rest of its statement with it, up to the next
semicolon or the next such word: reading is not resumed at the word itself.

The loss cannot be made good.  Each statement word of a program that is read without errors stands
for one part of its trees, so trees read behind the lost word have fewer parts than those read with
it.
-/

namespace LoxLang

/-! ## Statement words -/

mutual

/-- The parts of a statement that a word stands for, as `print` or `while`. -/
def Stmt.words : Stmt → ℕ
  | .expression _ => 0
  | .print _ => 1
  | .var _ _ => 1
  | .block body => Stmt.allWords body
  | .branch _ thenBranch elseBranch => thenBranch.words + Stmt.optionalWords elseBranch + 1
  | .loop _ body => body.words + 1
  | .function _ _ body => Stmt.allWords body + 1
  | .ret _ _ => 1

def Stmt.allWords : List Stmt → ℕ
  | [] => 0
  | s :: rest => s.words + Stmt.allWords rest

def Stmt.optionalWords : Option Stmt → ℕ
  | none => 0
  | some s => s.words

end

lemma Stmt.allWords_eq_sum (ss : List Stmt) : Stmt.allWords ss = (ss.map Stmt.words).sum := by
  induction ss with
  | nil => rfl
  | cons s rest ih => rw [Stmt.allWords, ih, List.map_cons, List.sum_cons]

mutual

lemma Stmt.words_relabel (ids : NodeId → NodeId) (tokens : Token → Token) (s : Stmt) :
    (s.relabel ids tokens).words = s.words := by
  cases s with
  | expression | print | var | ret => rfl
  | block body => rw [Stmt.relabel, Stmt.words, Stmt.words, Stmt.allWords_relabel ids tokens body]
  | branch condition thenBranch elseBranch =>
    rw [Stmt.relabel, Stmt.words, Stmt.words, Stmt.words_relabel ids tokens thenBranch,
      Stmt.optionalWords_relabel ids tokens elseBranch]
  | loop condition body =>
    rw [Stmt.relabel, Stmt.words, Stmt.words, Stmt.words_relabel ids tokens body]
  | function name parameters body =>
    rw [Stmt.relabel, Stmt.words, Stmt.words, Stmt.allWords_relabel ids tokens body]

lemma Stmt.allWords_relabel (ids : NodeId → NodeId) (tokens : Token → Token) (ss : List Stmt) :
    Stmt.allWords (Stmt.relabelAll ids tokens ss) = Stmt.allWords ss := by
  cases ss with
  | nil => rfl
  | cons s rest =>
    rw [Stmt.relabelAll, Stmt.allWords, Stmt.allWords, Stmt.words_relabel ids tokens s,
      Stmt.allWords_relabel ids tokens rest]

lemma Stmt.optionalWords_relabel (ids : NodeId → NodeId) (tokens : Token → Token)
    (s : Option Stmt) :
    Stmt.optionalWords (Stmt.relabelOptional ids tokens s) = Stmt.optionalWords s := by
  cases s with
  | none => rfl
  | some s =>
    rw [Stmt.relabelOptional, Stmt.optionalWords, Stmt.optionalWords,
      Stmt.words_relabel ids tokens s]

end

namespace Grammar

open Reader

/-- How many tokens of a text start a statement. -/
def statementWords (ts : List Token) : ℕ := ts.countP fun t => Cursor.startsStatement t.kind

@[simp] lemma statementWords_nil : statementWords [] = 0 := rfl

@[simp] lemma statementWords_append (ts us : List Token) :
    statementWords (ts ++ us) = statementWords ts + statementWords us :=
  List.countP_append

@[simp] lemma statementWords_cons (t : Token) (ts : List Token) :
    statementWords (t :: ts) = statementWords ts + if Cursor.startsStatement t.kind then 1 else 0 :=
  List.countP_cons

lemma Listed.forall_mem {p : Token → Prop} (hcomma : ∀ t, t.kind = .comma → p t)
    {parts : List (List Token)} {ts : List Token} (h : Listed parts ts)
    (hparts : ∀ us ∈ parts, ∀ t ∈ us, p t) : ∀ t ∈ ts, p t := by
  induction h with
  | none => simp
  | one ts => exact hparts ts (by simp)
  | more hc _ ih =>
    obtain ⟨hts, hrest⟩ := List.forall_mem_cons.mp hparts
    exact List.forall_mem_append.mpr ⟨hts, List.forall_mem_cons.mpr ⟨hcomma _ hc, ih hrest⟩⟩

/-- An expression is derived from tokens of expressions (`inExpression`). -/
lemma DerivesExpr.kinds {rule : ExprRule} {ts : List Token} {e : Expr} (h : DerivesExpr rule ts e) :
    ∀ t ∈ ts, inExpression t.kind = true := by
  induction h with
  | assignment _ hname hequal _ ih =>
    exact List.forall_mem_cons.mpr ⟨by rw [hname]; rfl,
      List.forall_mem_cons.mpr ⟨by rw [hequal]; rfl, ih⟩⟩
  | loosest _ ih | operand _ ih | unsigned _ ih | callee _ ih => exact ih
  | @operator l _ _ operator _ _ _ hoperator _ ihleft ihright =>
    refine List.forall_mem_append.mpr ⟨ihleft, List.forall_mem_cons.mpr ⟨?_, ihright⟩⟩
    revert hoperator
    cases l <;> cases operator.kind <;> decide
  | sign hoperator _ ih =>
    exact List.forall_mem_cons.mpr ⟨by simp [inExpression, isUnaryOperator_iff.mpr hoperator], ih⟩
  | arguments parts _ hopening _ _ hlisted hclosing ihcallee ihparts =>
    have hmiddle := hlisted.forall_mem (p := fun t => inExpression t.kind = true)
      (fun t ht => by rw [ht]; rfl) (List.forall_mem_map.mpr ihparts)
    refine List.forall_mem_append.mpr ⟨ihcallee,
      List.forall_mem_cons.mpr ⟨by rw [hopening]; rfl, ?_⟩⟩
    exact List.forall_mem_append.mpr ⟨hmiddle, by simp [hclosing, inExpression]⟩
  | falsity ht | truth ht | nil ht | named _ ht => simp [ht, inExpression, startsPrimary]
  | constant ht => rcases ht with ht | ht <;> simp [ht, inExpression, startsPrimary]
  | grouping hopening _ hclosing ih =>
    refine List.forall_mem_cons.mpr ⟨by rw [hopening]; rfl, List.forall_mem_append.mpr ⟨ih, ?_⟩⟩
    simp [hclosing, inExpression]

lemma statementWords_of_kinds {ts : List Token} (h : ∀ t ∈ ts, inExpression t.kind = true) :
    statementWords ts = 0 := by
  refine List.countP_eq_zero.mpr fun t ht => ?_
  have hkind := h t ht
  revert hkind
  cases t.kind <;> decide

lemma DerivesExpr.statementWords_eq {rule : ExprRule} {ts : List Token} {e : Expr}
    (h : DerivesExpr rule ts e) : statementWords ts = 0 :=
  statementWords_of_kinds h.kinds

lemma Perhaps.statementWords_eq {rule : ExprRule} {ts : List Token} {e : Option Expr}
    (h : Perhaps (DerivesExpr rule) ts e) : statementWords ts = 0 := by
  cases h with
  | absent => rfl
  | present he => exact he.statementWords_eq

lemma DerivesExpressionStmt.statementWords_eq {ts : List Token} {s : Stmt}
    (h : DerivesExpressionStmt ts s) : statementWords ts = s.words := by
  obtain ⟨he, hsemi⟩ := h
  simp [he.statementWords_eq, hsemi, Cursor.startsStatement, Stmt.words]

lemma DerivesVariable.statementWords_eq {ts : List Token} {s : Stmt} (h : DerivesVariable ts s) :
    statementWords ts = s.words := by
  cases h with
  | bare hword hname hsemi => simp [hword, hname, hsemi, Cursor.startsStatement, Stmt.words]
  | initialized hword hname hequal he hsemi =>
    simp [hword, hname, hequal, he.statementWords_eq, hsemi, Cursor.startsStatement, Stmt.words]

lemma DerivesInitializer.statementWords_eq {ts : List Token} {first : Option Stmt}
    (h : DerivesInitializer ts first) : statementWords ts = Stmt.optionalWords first := by
  cases h with
  | bare hsemi => simp [hsemi, Cursor.startsStatement, Stmt.optionalWords]
  | declared h => exact h.statementWords_eq
  | expression h => exact h.statementWords_eq

lemma words_loopOf (first : Option Stmt) (condition increment : Option Expr) (body : Stmt) :
    (loopOf first condition increment body).words = Stmt.optionalWords first + body.words + 1 := by
  cases first <;> cases increment <;>
    simp [loopOf, roundOf, Stmt.words, Stmt.allWords, Stmt.optionalWords, Nat.add_assoc]

lemma statementWords_parts {parts : List (List Token × Stmt × Bool)}
    (h : ∀ p ∈ parts, statementWords p.1 = p.2.1.words) :
    statementWords (parts.flatMap Prod.fst) = Stmt.allWords (parts.map fun p => p.2.1) := by
  induction parts with
  | nil => rfl
  | cons p parts ih =>
    obtain ⟨hp, hparts⟩ := List.forall_mem_cons.mp h
    rw [List.flatMap_cons, statementWords_append, hp, ih hparts, List.map_cons, Stmt.allWords]

/-- Each statement word of a text stands for a part of its tree: `statementWords` counts `words`. -/
lemma DerivesStmt.statementWords_eq {elses : ElseRule} {rule : StmtRule} {ts : List Token}
    {s : Stmt} {dangling : Bool} (h : DerivesStmt elses rule ts s dangling) :
    statementWords ts = s.words := by
  induction h with
  | statement _ ih => exact ih
  | declared h => exact h.statementWords_eq
  | function parameters parts hword hname hopening hparameters _ hlisted hclosing hleft _
      hright ih =>
    have hkinds := hlisted.forall_mem (p := fun t => inExpression t.kind = true)
      (fun t ht => by rw [ht]; rfl)
      (List.forall_mem_map.mpr fun p hp => by simp [hparameters p hp, inExpression, startsPrimary])
    simp [hword, hname, hopening, statementWords_of_kinds hkinds, hclosing, hleft,
      statementWords_parts ih, hright, Cursor.startsStatement, Stmt.words]
  | expression h => exact h.statementWords_eq
  | print hword he hsemi =>
    simp [hword, he.statementWords_eq, hsemi, Cursor.startsStatement, Stmt.words]
  | ret hword hvalue hsemi =>
    simp [hword, hvalue.statementWords_eq, hsemi, Cursor.startsStatement, Stmt.words]
  | block parts hleft _ hright ih =>
    simp [hleft, statementWords_parts ih, hright, Cursor.startsStatement, Stmt.words]
  | ifOnly hword hopening he hclosing _ ih =>
    simp [hword, hopening, he.statementWords_eq, hclosing, ih, Cursor.startsStatement, Stmt.words,
      Stmt.optionalWords]
  | ifElse hword hopening he hclosing _ _ hotherwise _ ihthen ihelse =>
    simp [hword, hopening, he.statementWords_eq, hclosing, ihthen, hotherwise, ihelse,
      Cursor.startsStatement, Stmt.words, Stmt.optionalWords]
  | loop hword hopening he hclosing _ ih =>
    simp [hword, hopening, he.statementWords_eq, hclosing, ih, Cursor.startsStatement, Stmt.words]
  | forLoop hword hopening hfirst hcondition hsemi hincrement hclosing _ ih =>
    simp [hword, hopening, hfirst.statementWords_eq, hcondition.statementWords_eq, hsemi,
      hincrement.statementWords_eq, hclosing, ih, Cursor.startsStatement, words_loopOf]

/-- Each statement word of an accepted program stands for a part of its trees. -/
lemma statementWords_parseProgram {tokens : List Token} {nextId : NodeId}
    (h : (parseProgram tokens nextId).errors = []) :
    statementWords (textOf tokens) = Stmt.allWords (parseProgram tokens nextId).statements := by
  obtain ⟨parts, hparts, htext, hstatements⟩ := (parseProgram_reads tokens nextId).2.2 h
  rw [← htext, ← hstatements]
  exact statementWords_parts fun p hp => (hparts p hp).statementWords_eq

/-! ## Where the error is found -/

/-- The reader `r` fails in front of `rest`, with an error at what is next there, and has noted
nothing. -/
def FailsAt {α : Type} (fault : GrammarFault) (r : Reader α) (c : Cursor)
    (rest : List Token) : Prop :=
  ∃ d, r c = .fail (d.errorHere fault) d ∧ d.rest = rest ∧ d.errors = c.errors

namespace FailsAt

variable {α β γ : Type} {r : Reader α} {f : α → Reader β} {c : Cursor} {rest : List Token}
  {fault : GrammarFault}

lemma bind (h : FailsAt fault r c rest) : FailsAt fault (r >>= f) c rest := by
  obtain ⟨d, hr, hd⟩ := h
  refine ⟨d, ?_, hd⟩
  simp only [Bind.bind, Reader.bind, hr]

/-- A first step that succeeds. -/
lemma of_yields {view : α → γ} {value : α} {middle : List Token} (h : Yields view r c value middle)
    (hf : ∀ v d, d.rest = middle → FailsAt fault (f v) d rest) :
    FailsAt fault (r >>= f) c rest := by
  obtain ⟨v, d, hr, hrest, herrors, -⟩ := h
  obtain ⟨e, hfail, hend, hsame⟩ := hf v d hrest
  exact ⟨e, (bind_eq_of_ok hr).trans hfail, hend, hsame.trans herrors⟩

lemma of_step {v : α} {t : Token} {middle : List Token} (hc : c.rest = t :: middle)
    (hr : r c = .ok v c.advance) (hf : ∀ d, d.rest = middle → FailsAt fault (f v) d rest) :
    FailsAt fault (r >>= f) c rest := by
  obtain ⟨hrest, herrors⟩ := advance_eq hc
  obtain ⟨e, hfail, hend, hsame⟩ := hf c.advance hrest
  exact ⟨e, (bind_eq_of_ok hr).trans hfail, hend, hsame.trans herrors⟩

lemma of_stay {v : α} (hr : r c = .ok v c) (hf : FailsAt fault (f v) c rest) :
    FailsAt fault (r >>= f) c rest := by
  obtain ⟨d, hfail, hd⟩ := hf
  exact ⟨d, (bind_eq_of_ok hr).trans hfail, hd⟩

lemma expect {kind : Kind} {t : Token} {more : List Token} (ht : t.kind ≠ kind)
    (hc : c.rest = t :: more) : FailsAt fault (Reader.expect kind fault) c (t :: more) :=
  ⟨c, by simp [Reader.expect, hc, ht], hc, rfl⟩

end FailsAt

section

variable {c : Cursor} {t : Token} {more : List Token}

lemma binary_failsAt {operand : Reader Expr} {rest : List Token} {fault : GrammarFault}
    (h : FailsAt fault operand c rest) (steps : ℕ) (levels : List Level) :
    FailsAt fault (binary steps operand levels) c rest := by
  induction levels with
  | nil => exact h
  | cons level tighter ih => exact ih.bind

/-- There is no expression where the next token `t` cannot start one. -/
lemma expression_failsAt (steps : ℕ) (hc : c.rest = t :: more)
    (ht : ExprRule.expression.starts t.kind = false) :
    FailsAt .noExpression (expression (steps + 2)) c (t :: more) := by
  obtain ⟨hprimary, hunary⟩ : startsPrimary t.kind = false ∧ isUnaryOperator t.kind = false := by
    simpa [ExprRule.starts] using ht
  have hnone : ∀ kinds : Kind → Bool, kinds t.kind = false →
      acceptIf kinds c = .ok none c := fun kinds hkinds =>
    acceptIf_eq_none (by rw [hc]; exact Stops.cons hkinds)
  have hfail : FailsAt .noExpression (primary (expression (steps + 1))) c (t :: more) :=
    .of_stay (hnone _ hprimary) ⟨c, rfl, hc, rfl⟩
  have hoperand : FailsAt .noExpression
      (unary (call (expression (steps + 1)) (steps + 1)) (steps + 1)) c (t :: more) :=
    .of_stay (hnone _ hunary) hfail.bind
  exact (binary_failsAt hoperand (steps + 1) Level.all).bind

/-- What is wrong with an expression, `print`, variable or `return` statement without its
semicolon. -/
def unendedFault? : Stmt → Option GrammarFault
  | .expression _ => some .noExpressionEnd
  | .print _ => some .noPrintEnd
  | .var _ _ => some .noVariableEnd
  -- What follows a bare `return` is taken for its value.
  | .ret _ none => some .noExpression
  | .ret _ (some _) => some .noReturnEnd
  | _ => none

/-- The text of an expression, `print`, variable or `return` statement without its semicolon. -/
inductive Unended : List Token → GrammarFault → Prop where
  | expression {ts : List Token} {e : Expr} :
      DerivesExpr .expression ts e → Unended ts .noExpressionEnd
  | print {word : Token} {ts : List Token} {e : Expr} :
      word.kind = .printWord → DerivesExpr .expression ts e → Unended (word :: ts) .noPrintEnd
  | bare {word name : Token} : word.kind = .varWord → name.kind = .identifier →
      Unended [word, name] .noVariableEnd
  | initialized {word name equal : Token} {ts : List Token} {e : Expr} :
      word.kind = .varWord → name.kind = .identifier → equal.kind = .equal →
      DerivesExpr .expression ts e →
      Unended (word :: name :: equal :: ts) .noVariableEnd
  | bareReturn {word : Token} : word.kind = .returnWord → Unended [word] .noExpression
  | valueReturn {word : Token} {ts : List Token} {e : Expr} :
      word.kind = .returnWord → DerivesExpr .expression ts e → Unended (word :: ts) .noReturnEnd

section

variable {expr : Reader Expr} {e : Expr} (ht : t.kind ≠ .semicolon)

include ht

lemma expressionStatement_failsAt (hexpr : Yields Expr.anonymous expr c e (t :: more)) :
    FailsAt .noExpressionEnd (expressionStatement expr) c (t :: more) :=
  .of_yields hexpr fun _ _ hd => (FailsAt.expect ht hd).bind

lemma printStatement_failsAt (hexpr : Yields Expr.anonymous expr c e (t :: more)) :
    FailsAt .noPrintEnd (printStatement expr) c (t :: more) :=
  .of_yields hexpr fun _ _ hd => (FailsAt.expect ht hd).bind

lemma returnStatement_failsAt_bare (keyword : Token) (hc : c.rest = t :: more)
    (hexpr : FailsAt .noExpression expr c (t :: more)) :
    FailsAt .noExpression (returnStatement expr keyword) c (t :: more) := by
  have hsees : sees .semicolon c = .ok false c := by simp [sees, Cursor.sees, hc, ht]
  exact FailsAt.bind (.of_stay hsees hexpr.bind)

lemma returnStatement_failsAt (keyword : Token) {u : Token} {us : List Token}
    (hc : c.rest = u :: us) (hu : u.kind ≠ .semicolon)
    (hexpr : Yields Expr.anonymous expr c e (t :: more)) :
    FailsAt .noReturnEnd (returnStatement expr keyword) c (t :: more) := by
  have hsees : sees .semicolon c = .ok false c := by simp [sees, Cursor.sees, hc, hu]
  have hvalue : Yields (Option.map Expr.anonymous) (some <$> expr) c (some e) (t :: more) :=
    hexpr.map fun v hv => by simpa using hv
  exact .of_yields (Yields.of_stay hsees hvalue) fun _ _ hd => (FailsAt.expect ht hd).bind

lemma variableDeclaration_failsAt_bare {name : Token} (hc : c.rest = name :: t :: more)
    (hname : name.kind = .identifier) (hequal : t.kind ≠ .equal) :
    FailsAt .noVariableEnd (variableDeclaration expr) c (t :: more) := by
  refine .of_step hc (expect_eq_ok hc hname) fun d hd => ?_
  have hnone : accept .equal d = .ok none d := by
    refine accept_eq_none ?_
    rw [hd]
    exact Stops.cons (decide_eq_false hequal)
  exact .of_stay hnone (.of_stay rfl (FailsAt.expect ht hd).bind)

lemma variableDeclaration_failsAt {name equal : Token} {ts : List Token}
    (hc : c.rest = name :: equal :: ts) (hname : name.kind = .identifier)
    (hequal : equal.kind = .equal)
    (hexpr : ∀ d : Cursor, d.rest = ts → Yields Expr.anonymous expr d e (t :: more)) :
    FailsAt .noVariableEnd (variableDeclaration expr) c (t :: more) := by
  refine .of_step hc (expect_eq_ok hc hname) fun d hd => .of_step hd (accept_eq_some hd hequal)
    fun f hf => ?_
  have hvalue : Yields (Option.map Expr.anonymous) (some <$> expr) f (some e) (t :: more) :=
    (hexpr f hf).map fun v hv => by simpa using hv
  exact .of_yields hvalue fun _ _ hd => (FailsAt.expect ht hd).bind

end

/-- A declaration that starts with no word of declarations is read as a statement. -/
lemma declarationWith_failsAt_of_statementWith {expr : Reader Expr} {stmt : Reader Stmt}
    {decl : Reader (Option Stmt)} {n : ℕ} {fault : GrammarFault} {u : Token} {us rest : List Token}
    (hc : c.rest = u :: us) (hu : leadsDeclaration u.kind = false)
    (h : FailsAt fault (statementWith expr stmt decl n) c rest) :
    FailsAt fault (declarationWith expr stmt decl n) c rest :=
  .of_stay (acceptIf_eq_none (by rw [hc]; exact Stops.cons hu)) h

/-- The error of an `Unended` statement is found at the word `t` behind it. -/
lemma declarationWith_failsAt (stmt : Reader Stmt) (decl : Reader (Option Stmt))
    {missing : List Token} {fault : GrammarFault} {n : ℕ} (h : Unended missing fault)
    (hn : missing.length + 2 ≤ n) (ht : Cursor.startsStatement t.kind = true)
    (hc : c.rest = missing ++ t :: more) :
    FailsAt fault (declarationWith (expression n) stmt decl n) c (t :: more) := by
  have hexpr : ReadsExpressions (expression n) missing.length := readsExpressions hn
  -- A word that starts a statement neither ends nor continues an expression.
  have hstops : Stops ExprRule.expression.continues (t :: more) :=
    Stops.cons (by revert ht; cases t.kind <;> decide)
  have hkind : t.kind ≠ .semicolon ∧ t.kind ≠ .equal ∧
      ExprRule.expression.starts t.kind = false := by
    revert ht
    cases t.kind <;> decide
  have hstarts : ∀ k, ExprRule.expression.starts k = true →
      leadsDeclaration k = false ∧ leadsStatement k = false ∧ k ≠ .semicolon := by
    intro k
    cases k <;> decide
  cases h with
  | @expression _ e he =>
    obtain ⟨u, us, rfl, hu⟩ := he.starts
    obtain ⟨hdecl, hstmt, -⟩ := hstarts _ hu
    refine declarationWith_failsAt_of_statementWith hc hdecl ?_
    refine .of_stay (acceptIf_eq_none (by rw [hc]; exact Stops.cons hstmt)) ?_
    exact expressionStatement_failsAt hkind.1 (hexpr _ _ e c he le_rfl hc hstops)
  | @print word ts e hword he =>
    refine declarationWith_failsAt_of_statementWith hc (by rw [hword]; rfl) ?_
    refine .of_step hc (acceptIf_eq_some hc (by rw [hword]; rfl)) fun d hd => ?_
    simp only [hword]
    exact printStatement_failsAt hkind.1 (hexpr ts _ e d he (by simp) hd hstops)
  | bare hword hname =>
    refine .of_step hc (acceptIf_eq_some hc (by rw [hword]; rfl)) fun d hd => ?_
    simp only [hword]
    exact variableDeclaration_failsAt_bare hkind.1 hd hname hkind.2.1
  | @initialized word name equal ts e hword hname hequal he =>
    refine .of_step hc (acceptIf_eq_some hc (by rw [hword]; rfl)) fun d hd => ?_
    simp only [hword]
    exact variableDeclaration_failsAt hkind.1 hd hname hequal fun f hf =>
      hexpr ts _ e f he (by simp; omega) hf hstops
  | @bareReturn word hword =>
    refine declarationWith_failsAt_of_statementWith hc (by rw [hword]; rfl) ?_
    refine .of_step hc (acceptIf_eq_some hc (by rw [hword]; rfl)) fun d hd => ?_
    simp only [hword]
    obtain ⟨m, rfl⟩ : ∃ m, n = m + 2 := ⟨n - 2, by omega⟩
    exact returnStatement_failsAt_bare hkind.1 word hd (expression_failsAt m hd hkind.2.2)
  | @valueReturn word ts e hword he =>
    refine declarationWith_failsAt_of_statementWith hc (by rw [hword]; rfl) ?_
    refine .of_step hc (acceptIf_eq_some hc (by rw [hword]; rfl)) fun d hd => ?_
    simp only [hword]
    obtain ⟨u, us, rfl, hu⟩ := he.starts
    exact returnStatement_failsAt hkind.1 word hd (hstarts _ hu).2.2
      (hexpr _ _ e d he (by simp) hd hstops)

lemma unended_of {elses : ElseRule} {missing : List Token} {semicolon : Token} {s : Stmt}
    {dangling : Bool} {fault : GrammarFault}
    (h : DerivesStmt elses .declaration (missing ++ [semicolon]) s dangling)
    (hs : unendedFault? s = some fault) : Unended missing fault := by
  have hinit : ∀ (ts : List Token) (u : Token), missing ++ [semicolon] = ts ++ [u] → missing = ts :=
    fun _ _ heq => (List.append_inj' heq rfl).1
  -- The index of the derivation has to be a variable for the case split.
  generalize htext : missing ++ [semicolon] = text at h
  cases h with
  | statement h =>
    cases h with
    | expression h =>
      obtain ⟨he, -⟩ := h
      obtain rfl := hinit _ _ htext
      obtain rfl := Option.some.inj hs
      exact .expression he
    | @print word _ ts _ hword he _ =>
      obtain rfl := hinit (word :: ts) _ htext
      obtain rfl := Option.some.inj hs
      exact .print hword he
    | @ret word _ ts _ hword hvalue _ =>
      obtain rfl := hinit (word :: ts) _ htext
      cases hvalue with
      | absent =>
        obtain rfl := Option.some.inj hs
        exact .bareReturn hword
      | present he =>
        obtain rfl := Option.some.inj hs
        exact .valueReturn hword he
    | block | ifOnly | ifElse | loop => exact absurd hs (by simp [unendedFault?])
    | @forLoop _ _ _ _ _ _ _ _ first =>
      cases first <;> exact absurd hs (by simp [loopOf, unendedFault?])
  | declared h =>
    cases h with
    | @bare word name _ hword hname _ =>
      obtain rfl := hinit [word, name] _ htext
      obtain rfl := Option.some.inj hs
      exact .bare hword hname
    | @initialized word name equal _ ts _ hword hname hequal he _ =>
      obtain rfl := hinit (word :: name :: equal :: ts) _ htext
      obtain rfl := Option.some.inj hs
      exact .initialized hword hname hequal he
  | function => exact absurd hs (by simp [unendedFault?])

end

/-! ## What comes of it -/

lemma Unended.kinds {missing : List Token} {fault : GrammarFault} (h : Unended missing fault) :
    ∀ t ∈ missing, t.kind ≠ .eof ∧ t.kind ≠ .elseWord := by
  have hexpr : ∀ {ts : List Token} {e : Expr}, DerivesExpr .expression ts e →
      ∀ t ∈ ts, t.kind ≠ .eof ∧ t.kind ≠ .elseWord := by
    intro ts e he t ht
    have hkind := he.kinds t ht
    revert hkind
    cases t.kind <;> decide
  cases h with
  | expression he => exact hexpr he
  | print hword he => exact List.forall_mem_cons.mpr ⟨by simp [hword], hexpr he⟩
  | bare hword hname => simp [hword, hname]
  | initialized hword hname hequal he =>
    refine List.forall_mem_cons.mpr ⟨by simp [hword],
      List.forall_mem_cons.mpr ⟨by simp [hname], ?_⟩⟩
    exact List.forall_mem_cons.mpr ⟨by simp [hequal], hexpr he⟩
  | bareReturn hword => simp [hword]
  | valueReturn hword he => exact List.forall_mem_cons.mpr ⟨by simp [hword], hexpr he⟩

lemma take_eq_take_textOf {tokens : List Token} {k : ℕ} (hk : k ≤ (textOf tokens).length) :
    tokens.take k = (textOf tokens).take k := by
  obtain ⟨rest, hrest⟩ : textOf tokens <+: tokens := List.takeWhile_prefix _
  conv_lhs => rw [← hrest, List.take_append_of_le_length hk]

lemma textOf_drop {tokens : List Token} {k : ℕ} (hk : k ≤ (textOf tokens).length) :
    textOf (tokens.drop k) = (textOf tokens).drop k := by
  have hfront : ∀ t ∈ tokens.take k, t.kind ≠ .eof := by
    rw [take_eq_take_textOf hk]
    exact fun t ht => kind_of_mem_textOf (List.mem_of_mem_take ht)
  have hsplit : textOf tokens = tokens.take k ++ textOf (tokens.drop k) := by
    have hstart := (start_behind hfront (tokens.drop k) 0 0).1
    rwa [List.take_append_drop] at hstart
  have hlen : (tokens.take k).length = k := by
    have hle := length_textOf_le tokens
    rw [List.length_take]
    omega
  conv_rhs => rw [hsplit, List.drop_append_of_le_length hlen.ge, List.drop_eq_nil_of_le hlen.le,
    List.nil_append]

/-- Nothing is kept of an `Unended` statement, and reading goes on behind the word `next` at which
that was found. -/
lemma declaration_unended {c : Cursor} {missing more : List Token} {next : Token}
    {fault : GrammarFault} {n : ℕ} (h : Unended missing fault)
    (hnext : Cursor.startsStatement next.kind = true) (hc : c.rest = missing ++ next :: more)
    (hn : c.rest.length + 3 ≤ n) :
    ∃ d, declaration (n + 1) c = .ok none d ∧ d.rest = more.drop (Cursor.skipCount next more) ∧
      d.errors.toList = c.errors.toList ++ [⟨fault, next, c.position + missing.length⟩] := by
  have hlen : c.rest.length = missing.length + (more.length + 1) := by
    rw [hc, List.length_append, List.length_cons]
  have hskip := Cursor.skipCount_le more next
  obtain ⟨f, hfail, hrest, herrors⟩ :=
    declarationWith_failsAt (statement n) (declaration n) h
      (show missing.length + 2 ≤ n by omega) hnext hc
  have hdecl : declaration (n + 1) c = .ok none (f.record (f.errorHere fault)).synchronize := by
    rw [declaration, recovering, hfail]
  have hmove : (f.record (f.errorHere fault)).synchronize =
      { f.record (f.errorHere fault) with
        rest := more.drop (Cursor.skipCount next more)
        position := f.position + 1 + Cursor.skipCount next more } := by
    rw [Cursor.synchronize, show (f.record (f.errorHere fault)).rest = next :: more from hrest]
    rfl
  -- How far the reader has come is told by how much is left when reading goes on.
  have hfound : f.position = c.position + missing.length := by
    obtain ⟨used, noted, hspan, -⟩ :=
      ((statement_declaration_reads (n + 1) c (by omega)).2 (by simp [hc])).ok hdecl
    have hused := hspan.length
    have hposition := hspan.position
    rw [hmove] at hused hposition
    dsimp only at hused hposition
    rw [List.length_drop] at hused
    omega
  refine ⟨_, hdecl, by rw [hmove], ?_⟩
  rw [hmove, ← hfound]
  simp [Cursor.record, Cursor.errorHere, Cursor.peek, hrest, herrors]

/-- What is read behind a lost statement word `next` cannot contain all that is read with it. -/
lemma not_sublist_resumed {next : Token} {after : List Token} {k : ℕ} {i j : NodeId}
    (hnext : Cursor.startsStatement next.kind = true)
    (hafter : (parseProgram (next :: after) i).errors = []) (hk : k ≤ (textOf after).length)
    (hresumed : (parseProgram (after.drop k) j).errors = []) :
    ¬ List.Sublist ((parseProgram (next :: after) i).statements.map Stmt.anonymous)
      ((parseProgram (after.drop k) j).statements.map Stmt.anonymous) := by
  intro hsub
  have hne : next.kind ≠ .eof := by
    intro hk
    rw [hk] at hnext
    exact absurd hnext (by decide)
  have htext : textOf (next :: after) = next :: textOf after := by simp [textOf, hne]
  -- Count statement words: the trees with the lost word have more of them than those behind it.
  have hwords := statementWords_parseProgram hafter
  have hfewer := statementWords_parseProgram hresumed
  rw [htext, statementWords_cons, if_pos hnext] at hwords
  rw [textOf_drop hk] at hfewer
  have hdrop : statementWords ((textOf after).drop k) ≤ statementWords (textOf after) :=
    (List.drop_sublist k _).countP_le
  have hanonymous : ∀ ss : List Stmt,
      ((ss.map Stmt.anonymous).map Stmt.words).sum = Stmt.allWords ss := by
    intro ss
    rw [← Stmt.allWords_eq_sum, ← Stmt.allWords_relabel (fun _ => 0) id ss, Stmt.relabelAll_eq_map]
    rfl
  have hle := (hsub.map Stmt.words).sum_le_sum (by simp)
  rw [hanonymous, hanonymous] at hle
  omega

/-- The program around an `Unended` statement: that statement, the word `next` behind it and the
`skipped` tokens that recovery discards are lost. -/
lemma parseProgram_unended {before missing : List Token} {next : Token} {fault : GrammarFault}
    {i : NodeId} (hbefore : (parseProgram before i).errors = []) (hopen : Unended missing fault)
    (hnext : Cursor.startsStatement next.kind = true ∧ next.kind ≠ .eof ∧ next.kind ≠ .elseWord)
    (after : List Token) {skipped : ℕ} (hskipped : skipped = Cursor.skipCount next (textOf after))
    (j l : NodeId) :
    (parseProgram (textOf before ++ (missing ++ next :: after)) l).statements.map Stmt.anonymous =
        (parseProgram before i).statements.map Stmt.anonymous ++
          (parseProgram (after.drop skipped) j).statements.map Stmt.anonymous ∧
      (parseProgram (textOf before ++ (missing ++ next :: after)) l).errors =
        ⟨fault, next, (textOf before).length + missing.length⟩ ::
          (parseProgram (after.drop skipped) j).errors.map
            (GrammarError.later ((textOf before).length + (missing.length + 1 + skipped))) := by
  obtain ⟨hstarts, heof, helse⟩ := hnext
  have hle : skipped ≤ (textOf after).length := hskipped.trans_le (Cursor.skipCount_le _ _)
  have hsplit : textOf after = after.take skipped ++ textOf (after.drop skipped) := by
    rw [textOf_drop hle, take_eq_take_textOf hle, List.take_append_drop]
  -- All that is lost is one text, behind which the rest of the program is read as on its own.
  let lost := missing ++ next :: after.take skipped
  have hkinds : ∀ t ∈ lost, t.kind ≠ .eof := by
    refine List.forall_mem_append.mpr ⟨fun t ht => (hopen.kinds t ht).1,
      List.forall_mem_cons.mpr ⟨heof, fun t ht => ?_⟩⟩
    rw [take_eq_take_textOf hle] at ht
    exact kind_of_mem_textOf (List.mem_of_mem_take ht)
  -- No `else` starts the lost text, so the program before it ends where it did.
  have hstops : NoElse (lost ++ textOf (after.drop skipped)) := by
    have hfront : ∀ t ∈ missing ++ [next], t.kind ≠ .elseWord :=
      List.forall_mem_append.mpr ⟨fun t ht => (hopen.kinds t ht).2, by simpa using helse⟩
    simpa [lost] using noElse_of_forall (by simp) hfront
      (after.take skipped ++ textOf (after.drop skipped))
  -- The declaration that starts there reads all of the lost text and keeps nothing of it.
  have hdecl : ∀ {n : ℕ} {c : Cursor}, c.rest = lost ++ textOf (after.drop skipped) →
      c.rest.length + 3 ≤ n →
      ∃ d, declaration (n + 1) c = .ok none d ∧ d.rest = textOf (after.drop skipped) ∧
        d.errors.toList = c.errors.toList ++ [⟨fault, next, c.position + missing.length⟩] := by
    intro n c hc hn
    have hc : c.rest = missing ++ next :: textOf after := by simp [hc, lost, hsplit]
    obtain ⟨d, hd, hrest, herrors⟩ := declaration_unended hopen hstarts hc hn
    rw [← hskipped] at hrest
    exact ⟨d, hd, hrest.trans (textOf_drop hle).symm, herrors⟩
  obtain ⟨hstatements, herrors⟩ := parseProgram_lost hbefore (show lost ≠ [] by simp [lost]) hkinds
    (after.drop skipped) hstops (fun position => [⟨fault, next, position + missing.length⟩])
    hdecl j l
  -- It remains to write the tokens and their number as they are in the statement.
  have htokens : lost ++ after.drop skipped = missing ++ next :: after := by simp [lost]
  have hlength : lost.length = missing.length + 1 + skipped := by
    have hshort := hle.trans (length_textOf_le after)
    simp only [lost, List.length_append, List.length_cons, List.length_take]
    omega
  rw [htokens] at hstatements herrors
  rw [hlength] at herrors
  exact ⟨hstatements, herrors⟩

/-- A missing semicolon costs the statement behind it too.  If an expression, `print`, variable or
`return` statement `missing` lacks its semicolon and the `next` token starts a statement, one error
that stops the reading is found at that token, and reading goes on behind it: only what is `resumed`
there on its own is added to the statements before.  So it never comes to one error and all
statements of the program behind the missing semicolon. -/
theorem missing_semicolon_skips_next (elses : ElseRule) (before missing after : List Token)
    (next semicolon : Token) (s : Stmt) (dangling : Bool) (fault : GrammarFault) (i j l : NodeId)
    (hbefore : (parseProgram before i).errors = [])
    (hafter : (parseProgram (next :: after) j).errors = [])
    (hnext : next.kind ∈
      [.funWord, .varWord, .forWord, .ifWord, .whileWord, .printWord, .returnWord])
    (hmissing : DerivesStmt elses .declaration (missing ++ [semicolon]) s dangling)
    (hsimple : unendedFault? s = some fault) :
    let whole := parseProgram (textOf before ++ (missing ++ next :: after)) l
    let skipped := Cursor.skipCount next (textOf after)
    let resumed := parseProgram (after.drop skipped) j
    whole.statements.map Stmt.anonymous =
        (parseProgram before i).statements.map Stmt.anonymous ++
        resumed.statements.map Stmt.anonymous ∧
      whole.errors = ⟨fault, next, (textOf before).length + missing.length⟩ ::
        resumed.errors.map
          (GrammarError.later ((textOf before).length + (missing.length + 1 + skipped))) ∧
      ¬ (whole.errors.length = 1 ∧
        List.Sublist (((parseProgram before i).statements ++
          (parseProgram (next :: after) j).statements).map Stmt.anonymous)
          (whole.statements.map Stmt.anonymous)) := by
  intro whole skipped resumed
  have hword : Cursor.startsStatement next.kind = true ∧ next.kind ≠ .eof ∧
      next.kind ≠ .elseWord := by
    revert hnext
    cases next.kind <;> decide
  obtain ⟨hstatements, herrors⟩ :=
    parseProgram_unended hbefore (unended_of hmissing hsimple) hword after rfl j l
  refine ⟨hstatements, herrors, ?_⟩
  -- With one error in all, what is resumed has none; but it lacks a word of the whole.
  rintro ⟨hone, hsub⟩
  have hclean : resumed.errors = [] := by
    rw [herrors] at hone
    simpa using hone
  rw [hstatements, List.map_append, List.append_sublist_append_left] at hsub
  exact not_sublist_resumed hword.1 hafter (Cursor.skipCount_le _ _) hclean hsub

/-- In `var c; print a print b;` nothing is kept of either `print`. -/
theorem missing_print_end_skips_print :
    let a : Token := ⟨.identifier, "a", none, 1⟩
    let b : Token := ⟨.identifier, "b", none, 1⟩
    let c : Token := ⟨.identifier, "c", none, 1⟩
    let print : Token := ⟨.printWord, "print", none, 1⟩
    let semicolon : Token := ⟨.semicolon, ";", none, 1⟩
    let whole := parseProgram ([⟨.varWord, "var", none, 1⟩, c, semicolon] ++
      ([print, a] ++ print :: [b, semicolon])) 7
    (parseProgram (print :: [b, semicolon]) 0).statements = [.print (.read 0 b)] ∧
      whole.statements.map Stmt.anonymous = [.var c none] ∧
      whole.errors = [⟨.noPrintEnd, print, 5⟩] := by
  intro a b c print semicolon whole
  have hread : DerivesExpr .expression [a] (.read 0 a) :=
    .loosest (.operand
      (.operand (.operand (.operand (.operand (.operand (.unsigned (.callee (.named 0 rfl)))))))))
  have hprint : DerivesStmt .any .declaration [print, a, semicolon] (.print (.read 0 a)) false :=
    .statement (.print rfl hread rfl)
  obtain ⟨hstatements, herrors, -⟩ := missing_semicolon_skips_next .any [⟨.varWord, "var", none, 1⟩,
    c, semicolon] [print, a]
    [b, semicolon] print semicolon _ _ .noPrintEnd 0 0 7 rfl rfl (by simp [print]) hprint rfl
  exact ⟨rfl, hstatements, herrors⟩

end Grammar

end LoxLang
