import LoxLang.Scope.Basic

/-!
# Resolving a program

One walk over a program finds the depth of every occurrence of a local variable and every misuse of
names or of `return`, in the order of the walk.  A block and a function body each open a scope; a
function's parameters share the scope of its body.
-/

namespace LoxLang

mutual

/-- What is found in an expression inside `scopes`.  Only a read can come too early; an assignment
is located after its value. -/
def Expr.findings (scopes : Scopes) : Expr → List Finding
  | .literal _ => []
  | .grouping inner => inner.findings scopes
  | .unary _ right => right.findings scopes
  | .binary left _ right => left.findings scopes ++ right.findings scopes
  | .logical left _ right => left.findings scopes ++ right.findings scopes
  | .read id name =>
    (if scopes.pending name.lexeme then [.fault ⟨.ownInitializer, name⟩] else []) ++
      scopes.locate id name
  | .assign id name value => value.findings scopes ++ scopes.locate id name
  | .call callee _ arguments => callee.findings scopes ++ Expr.allFindings scopes arguments

def Expr.allFindings (scopes : Scopes) : List Expr → List Finding
  | [] => []
  | e :: rest => e.findings scopes ++ Expr.allFindings scopes rest

end

/-- What is found in an expression that may be absent. -/
def Expr.optionalFindings (scopes : Scopes) : Option Expr → List Finding
  | none => []
  | some e => e.findings scopes

mutual

/-- The scopes after a statement, and what is found in it.  `inFunction` tells whether a `return` is
allowed. -/
def Stmt.resolve (inFunction : Bool) : Stmt → Scopes → Scopes × List Finding
  | .expression e, scopes => (scopes, e.findings scopes)
  | .print e, scopes => (scopes, e.findings scopes)
  | .var name initializer, scopes =>
    let (declared, found) := scopes.declare name
    -- The initializer is looked at between `declare` and `define`.
    (declared.define name, found ++ Expr.optionalFindings declared initializer)
  | .block body, scopes => (scopes, (Stmt.resolveAll inFunction body ([] :: scopes)).2)
  | .branch condition thenBranch elseBranch, scopes =>
    let (afterThen, foundThen) := thenBranch.resolve inFunction scopes
    let (afterElse, foundElse) := Stmt.resolveOptional inFunction elseBranch afterThen
    (afterElse, condition.findings scopes ++ foundThen ++ foundElse)
  | .loop condition body, scopes =>
    let (after, found) := body.resolve inFunction scopes
    (after, condition.findings scopes ++ found)
  | .function name parameters body, scopes =>
    let (declared, found) := scopes.declare name
    -- Unlike a variable, a function may refer to itself in its body.
    let outer := declared.define name
    let (inner, foundParameters) := Scopes.declareAll ([] :: outer) parameters
    (outer, found ++ foundParameters ++ (Stmt.resolveAll true body inner).2)
  | .ret keyword value, scopes =>
    (scopes, (if inFunction then [] else [.fault ⟨.returnOutsideFunction, keyword⟩])
      ++ Expr.optionalFindings scopes value)

def Stmt.resolveAll (inFunction : Bool) : List Stmt → Scopes → Scopes × List Finding
  | [], scopes => (scopes, [])
  | s :: rest, scopes =>
    let (after, found) := s.resolve inFunction scopes
    let (final, more) := Stmt.resolveAll inFunction rest after
    (final, found ++ more)

def Stmt.resolveOptional (inFunction : Bool) : Option Stmt → Scopes → Scopes × List Finding
  | none, scopes => (scopes, [])
  | some s, scopes => s.resolve inFunction scopes

end

/-- What is found in a program, which starts outside of all scopes. -/
def programFindings (statements : List Stmt) : List Finding :=
  (Stmt.resolveAll false statements []).2

/-- The misuses among the findings, in their order. -/
def bindingErrors (found : List Finding) : List BindingError := found.filterMap Finding.fault?

end LoxLang
