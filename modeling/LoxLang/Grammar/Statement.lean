import LoxLang.Grammar.Expression

/-!
# Statements and declarations

One reader for each rule of the statement grammar.  A declaration that fails is noted, and reading
goes on at the next place where a statement may start.  A `for` statement is read as the loop it
stands for.
-/

namespace LoxLang.Grammar

open Reader

/-! ## Simple statements -/

def expressionStatement (expr : Reader Expr) : Reader Stmt := do
  let e ← expr
  let _ ← expect .semicolon .noExpressionEnd
  return .expression e

/-- The rest of a `print` statement, after the word. -/
def printStatement (expr : Reader Expr) : Reader Stmt := do
  let e ← expr
  let _ ← expect .semicolon .noPrintEnd
  return .print e

/-- The rest of a `return` statement, after the word `keyword`, which stays in the tree. -/
def returnStatement (expr : Reader Expr) (keyword : Token) : Reader Stmt := do
  let value ← unlessSees .semicolon expr
  let _ ← expect .semicolon .noReturnEnd
  return .ret keyword value

/-- The rest of a variable declaration, after the word `var`. -/
def variableDeclaration (expr : Reader Expr) : Reader Stmt := do
  let name ← expect .identifier .noVariableName
  let initializer ← match ← accept .equal with
    | some _ => some <$> expr
    | none => pure none
  let _ ← expect .semicolon .noVariableEnd
  return .var name initializer

/-! ## Compound statements -/

/-- The rest of an `if` statement.  The `else` behind a branch is read at once, so it belongs to the
nearest `if`. -/
def ifStatement (expr : Reader Expr) (stmt : Reader Stmt) : Reader Stmt := do
  let _ ← expect .leftParen .noIfParen
  let condition ← expr
  let _ ← expect .rightParen .noIfEnd
  let thenBranch ← stmt
  match ← accept .elseWord with
  | some _ => return .branch condition thenBranch (some (← stmt))
  | none => return .branch condition thenBranch none

/-- The rest of a `while` statement, after the word. -/
def whileStatement (expr : Reader Expr) (stmt : Reader Stmt) : Reader Stmt := do
  let _ ← expect .leftParen .noWhileParen
  let condition ← expr
  let _ ← expect .rightParen .noWhileEnd
  return .loop condition (← stmt)

/-- The loop that a `for` statement stands for.  Without a `condition` it is `true`, the `increment`
follows the body of each round, and the `initializer` and the loop stand in a block of their own. -/
def forLoop (initializer : Option Stmt) (condition increment : Option Expr) (body : Stmt) : Stmt :=
  let body := increment.elim body fun e => .block [body, .expression e]
  let loop := Stmt.loop (condition.getD (.literal (.bool true))) body
  initializer.elim loop fun s => .block [s, loop]

/-- The initializer of a `for` statement with its semicolon. -/
def forInitializer (expr : Reader Expr) : Reader (Option Stmt) := do
  match ← accept .semicolon with
  | some _ => return none
  | none =>
    match ← accept .varWord with
    | some _ => some <$> variableDeclaration expr
    | none => some <$> expressionStatement expr

/-- The rest of a `for` statement, after the word. -/
def forStatement (expr : Reader Expr) (stmt : Reader Stmt) : Reader Stmt := do
  let _ ← expect .leftParen .noForParen
  let initializer ← forInitializer expr
  let condition ← unlessSees .semicolon expr
  let _ ← expect .semicolon .noForConditionEnd
  let increment ← unlessSees .rightParen expr
  let _ ← expect .rightParen .noForClausesEnd
  return forLoop initializer condition increment (← stmt)

/-- Declarations up to a closing brace or the end of input, in at most `steps` steps; the broken
ones, for which `decl` gives `none`, are left out. -/
def declarations (decl : Reader (Option Stmt)) : Nat → Reader (List Stmt)
  | 0 => exhausted
  | steps + 1 => do
    if (← sees .rightBrace) || (← atEnd) then return []
    let first ← decl
    return first.toList ++ (← declarations decl steps)

/-- The rest of a block, after the opening brace. -/
def block (decl : Reader (Option Stmt)) (steps : Nat) : Reader (List Stmt) := do
  let body ← declarations decl steps
  let _ ← expect .rightBrace .noBlockEnd
  return body

/-- The rest of a function declaration, after the word `fun`. -/
def functionDeclaration (decl : Reader (Option Stmt)) (steps : Nat) : Reader Stmt := do
  let name ← expect .identifier .noFunctionName
  let _ ← expect .leftParen .noFunctionParen
  let parameters ← listed .tooManyParameters (expect .identifier .noParameterName) steps
  let _ ← expect .rightParen .noParametersEnd
  let _ ← expect .leftBrace .noFunctionBody
  return .function name parameters (← block decl steps)

/-! ## Statements and declarations -/

/-- Words and marks that tell which compound or simple statement follows; without one it is an
expression statement. -/
def leadsStatement : Kind → Bool
  | .forWord | .ifWord | .printWord | .returnWord | .whileWord | .leftBrace => true
  | _ => false

/-- A statement whose parts are read by `expr`, `stmt` and `decl`. -/
def statementWith (expr : Reader Expr) (stmt : Reader Stmt) (decl : Reader (Option Stmt))
    (steps : Nat) : Reader Stmt := do
  match ← acceptIf leadsStatement with
  | none => expressionStatement expr
  | some t =>
    match t.kind with
    | .forWord => forStatement expr stmt
    | .ifWord => ifStatement expr stmt
    | .printWord => printStatement expr
    | .returnWord => returnStatement expr t
    | .whileWord => whileStatement expr stmt
    | _ => .block <$> block decl steps

/-- Words that lead a declaration. -/
def leadsDeclaration : Kind → Bool
  | .funWord | .varWord => true
  | _ => false

/-- A declaration or statement whose parts are read by `expr`, `stmt` and `decl`. -/
def declarationWith (expr : Reader Expr) (stmt : Reader Stmt) (decl : Reader (Option Stmt))
    (steps : Nat) : Reader Stmt := do
  match ← acceptIf leadsDeclaration with
  | none => statementWith expr stmt decl steps
  | some t =>
    match t.kind with
    | .funWord => functionDeclaration decl steps
    | _ => variableDeclaration expr

/-- Read a statement by `r`; if that fails, note the error and `synchronize`. -/
def recovering (r : Reader Stmt) : Reader (Option Stmt) := fun c =>
  match r c with
  | .ok s c => .ok (some s) c
  | .fail e c => .ok none (c.record e).synchronize
  | .exhausted => .exhausted

mutual

/-- A statement, in at most `steps` steps. -/
def statement : Nat → Reader Stmt
  | 0 => exhausted
  | steps + 1 => statementWith (expression steps) (statement steps) (declaration steps) steps

/-- A declaration or statement, in at most `steps` steps; `none` if it is broken. -/
def declaration : Nat → Reader (Option Stmt)
  | 0 => exhausted
  | steps + 1 =>
    recovering (declarationWith (expression steps) (statement steps) (declaration steps) steps)

end

end LoxLang.Grammar
