import LoxLang.Tree.Basic

/-!
# Occurrences of variables

Every read of a variable and every assignment in a tree, in the order in which they take effect:
parts from left to right, and an assignment after all of its value.
-/

namespace LoxLang

inductive Access where
  | get
  | set
  deriving Repr, DecidableEq

structure Occurrence where
  access : Access
  id : NodeId
  name : Token

mutual

def Expr.occurrences : Expr → List Occurrence
  | .literal _ => []
  | .grouping inner => inner.occurrences
  | .unary _ right => right.occurrences
  | .binary left _ right => left.occurrences ++ right.occurrences
  | .logical left _ right => left.occurrences ++ right.occurrences
  | .read id name => [⟨.get, id, name⟩]
  | .assign id name value => value.occurrences ++ [⟨.set, id, name⟩]
  | .call callee _ arguments => callee.occurrences ++ Expr.allOccurrences arguments

def Expr.allOccurrences : List Expr → List Occurrence
  | [] => []
  | e :: rest => e.occurrences ++ Expr.allOccurrences rest

end

mutual

def Stmt.occurrences : Stmt → List Occurrence
  | .expression e => e.occurrences
  | .print e => e.occurrences
  | .var _ initializer => initializer.elim [] Expr.occurrences
  | .block body => Stmt.allOccurrences body
  | .branch condition thenBranch elseBranch =>
    condition.occurrences ++ thenBranch.occurrences ++ Stmt.optionalOccurrences elseBranch
  | .loop condition body => condition.occurrences ++ body.occurrences
  | .function _ _ body => Stmt.allOccurrences body
  | .ret _ value => value.elim [] Expr.occurrences

def Stmt.allOccurrences : List Stmt → List Occurrence
  | [] => []
  | s :: rest => s.occurrences ++ Stmt.allOccurrences rest

def Stmt.optionalOccurrences : Option Stmt → List Occurrence
  | none => []
  | some s => s.occurrences

end

end LoxLang
