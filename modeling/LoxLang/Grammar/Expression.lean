import LoxLang.Grammar.Cursor

/-!
# Expressions

One reader for each rule of the expression grammar, from the loosest to the tightest:

    expression  = NAME "=" expression | disjunction
    disjunction, conjunction, equality, comparison, term, factor: left-associative binary levels
    unary       = ("!" | "-") unary | call
    call        = primary ( "(" arguments? ")" )*
    primary     = constant | NAME | "(" expression ")"

A rule takes as `inner` the reader of the expressions inside it, which start at least one token
further on; `expression` closes the circle.
-/

namespace LoxLang.Grammar

open Reader

/-! ## Binary levels -/

/-- The left-associative binary levels. -/
inductive Level where
  | disjunction
  | conjunction
  | equality
  | comparison
  | term
  | factor
  deriving Repr, DecidableEq

namespace Level

/-- The levels from the loosest to the tightest. -/
def all : List Level := [disjunction, conjunction, equality, comparison, term, factor]

/-- Whether an operator of this kind belongs to the level. -/
def has : Level → Kind → Bool
  | disjunction, .orWord => true
  | conjunction, .andWord => true
  | equality, .bangEqual | equality, .equalEqual => true
  | comparison, .greater | comparison, .greaterEqual | comparison, .less | comparison, .lessEqual =>
    true
  | term, .minus | term, .plus => true
  | factor, .slash | factor, .star => true
  | _, _ => false

/-- The tree of an operator of a level; the two loosest are `logical` and evaluate their right side
only when needed. -/
def node : Level → Expr → Token → Expr → Expr
  | disjunction | conjunction => Expr.logical
  | _ => Expr.binary

end Level

/-- Further operators of `level` and their right operands, after the operand `left`; the tree grows
to the left. -/
def operators (level : Level) (operand : Reader Expr) : Nat → Expr → Reader Expr
  | 0, _ => exhausted
  | steps + 1, left => do
    match ← acceptIf level.has with
    | none => return left
    | some operator => operators level operand steps (level.node left operator (← operand))

/-- An expression of the given levels over `operand`, the loosest level first. -/
def binary (steps : Nat) (operand : Reader Expr) : List Level → Reader Expr
  | [] => operand
  | level :: tighter => do
    let left ← binary steps operand tighter
    operators level (binary steps operand tighter) steps left

/-! ## Operands -/

/-- The constant of a number or string token; without a `literal` it is nil. -/
def constantOf (t : Token) : Constant :=
  match t.literal with
  | some (.number x) => .number x
  | some (.string s) => .string s
  | none => .nil

/-- An expression in parentheses, after the opening one. -/
def group (inner : Reader Expr) : Reader Expr := do
  let e ← inner
  let _ ← expect .rightParen .noGroupEnd
  return .grouping e

/-- The kinds at which `primary` does not fail at once. -/
def startsPrimary : Kind → Bool
  | .falseWord | .trueWord | .nilWord | .number | .string | .identifier | .leftParen => true
  | _ => false

def primary (inner : Reader Expr) : Reader Expr := do
  match ← acceptIf startsPrimary with
  | none => fail .noExpression
  | some t =>
    match t.kind with
    | .falseWord => return .literal (.bool false)
    | .trueWord => return .literal (.bool true)
    | .nilWord => return .literal .nil
    | .identifier => return .read (← freshId) t
    | .leftParen => group inner
    | _ => return .literal (constantOf t)

/-- Argument lists after `callee`, each the call of what stands before it. -/
def calls (inner : Reader Expr) : Nat → Expr → Reader Expr
  | 0, _ => exhausted
  | steps + 1, callee => do
    match ← accept .leftParen with
    | none => return callee
    | some _ =>
      let arguments ← listed .tooManyArguments inner steps
      let paren ← expect .rightParen .noArgumentsEnd
      calls inner steps (.call callee paren arguments)

def call (inner : Reader Expr) (steps : Nat) : Reader Expr := do
  calls inner steps (← primary inner)

/-- The operators in front of an operand. -/
def isUnaryOperator : Kind → Bool
  | .bang | .minus => true
  | _ => false

def unary (operand : Reader Expr) : Nat → Reader Expr
  | 0 => exhausted
  | steps + 1 => do
    match ← acceptIf isUnaryOperator with
    | some operator => return .unary operator (← unary operand steps)
    | none => operand

/-! ## Assignments -/

/-- What an equals sign at `found` makes of its two sides.  Only a variable can be assigned to;
another `target` is noted as an error and stays, and `value` is dropped. -/
def assignment (target : Expr) (found : Cursor) (value : Expr) : Reader Expr := do
  match target with
  | .read _ name => return .assign (← freshId) name value
  | _ =>
    noteAt found .assignmentTarget
    return target

/-- An expression whose inner expressions are read by `inner`.  The left side of an assignment is
read as an expression first, and looked at only behind the equals sign. -/
def expressionWith (inner : Reader Expr) (steps : Nat) : Reader Expr := do
  let target ← binary steps (unary (call inner steps) steps) Level.all
  let found ← here
  match ← accept .equal with
  | none => return target
  | some _ => assignment target found (← inner)

/-- An expression, in at most `steps` steps. -/
def expression : Nat → Reader Expr
  | 0 => exhausted
  | steps + 1 => expressionWith (expression steps) steps

end LoxLang.Grammar
