import LoxLang.Token.Basic

/-!
# Program trees

Expressions and statements.  Every read of a variable and every assignment carries a node id, under
which its scope depth is recorded; operators and names keep their tokens, for error reports.
-/

namespace LoxLang

/-- Identifies one occurrence of a variable, a `read` or an `assign`. -/
abbrev NodeId := Nat

/-- A value written in a program. -/
inductive Constant where
  | nil
  | bool (b : Bool)
  | number (x : Float)
  | string (s : String)

inductive Expr where
  | literal (value : Constant)
  | grouping (inner : Expr)
  | unary (operator : Token) (right : Expr)
  | binary (left : Expr) (operator : Token) (right : Expr)
  | logical (left : Expr) (operator : Token) (right : Expr)
  | read (id : NodeId) (name : Token)
  | assign (id : NodeId) (name : Token) (value : Expr)
  | call (callee : Expr) (paren : Token) (arguments : List Expr)

inductive Stmt where
  | expression (e : Expr)
  | print (e : Expr)
  | var (name : Token) (initializer : Option Expr)
  | block (body : List Stmt)
  | branch (condition : Expr) (thenBranch : Stmt) (elseBranch : Option Stmt)
  | loop (condition : Expr) (body : Stmt)
  | function (name : Token) (parameters : List Token) (body : List Stmt)
  | ret (keyword : Token) (value : Option Expr)

/-- A function as declared, without the frame that it is declared in. -/
structure Function where
  name : Token
  parameters : List Token
  body : List Stmt

/-- The number of arguments a function takes. -/
def Function.arity (f : Function) : Nat := f.parameters.length

end LoxLang
