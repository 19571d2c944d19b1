import LoxLang.Grammar.Statement

/-!
# Whole inputs

`parseProgram` reads a token list as a program; every statement that could be read is kept, beside
the errors.  `parseExpression` reads it as one expression and nothing else.  Each token is worth one
step, so the steps given always suffice.
-/

namespace LoxLang.Grammar

open Reader

/-- A program as far as it could be read. -/
structure Parsed where
  statements : List Stmt
  errors : List GrammarError
  nextId : NodeId

/-- Declarations up to the end of input, in at most `steps` steps. -/
def program (decl : Reader (Option Stmt)) : Nat → Reader (List Stmt)
  | 0 => exhausted
  | steps + 1 => do
    if ← atEnd then return []
    let first ← decl
    return first.toList ++ (← program decl steps)

/-- Enough steps to read `tokens`: one for each, and a few for the levels at the end. -/
def stepsFor (tokens : List Token) : Nat := tokens.length + 4

/-- Read a token list as a program, numbering its nodes from `nextId` on. -/
def parseProgram (tokens : List Token) (nextId : NodeId) : Parsed :=
  let steps := stepsFor tokens
  match program (declaration steps) steps (.start tokens nextId) with
  | .ok statements c => ⟨statements, c.errors.toList, c.nextId⟩
  | .fail e c => ⟨[], (c.record e).errors.toList, c.nextId⟩
  -- Neither this case nor the one before is ever reached.
  | .exhausted => ⟨[], [], nextId⟩

/-- An expression by `expr` and the end of input. -/
def wholeExpression (expr : Reader Expr) : Reader Expr := do
  let e ← expr
  if ← atEnd then return e else fail .noEndOfExpression

/-- An expression, or the errors found instead; and the next free node id. -/
structure ParsedExpression where
  result : Except (List GrammarError) Expr
  nextId : NodeId

/-- Read a token list as one expression.  Any error rejects it, also one that was only noted. -/
def parseExpression (tokens : List Token) (nextId : NodeId) : ParsedExpression :=
  match wholeExpression (expression (stepsFor tokens)) (.start tokens nextId) with
  | .ok e c => ⟨if c.errors.isEmpty then .ok e else .error c.errors.toList, c.nextId⟩
  | .fail e c => ⟨.error (c.record e).errors.toList, c.nextId⟩
  | .exhausted => ⟨.error [], nextId⟩

end LoxLang.Grammar
