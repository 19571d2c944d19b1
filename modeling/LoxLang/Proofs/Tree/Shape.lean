import Mathlib.Tactic
import LoxLang.Tree.Basic

/-!
# The shape of programs

A branch or the body of a loop is never a declaration itself.  So a declaration is executed whenever
its scope comes to it, once.
-/

namespace LoxLang

/-- The name that a statement declares in the scope it stands in. -/
def Stmt.declared? : Stmt → Option Token
  | .var name _ | .function name _ _ => some name
  | _ => none

/-- The name `x` is declared by the statement in the scope it stands in. -/
def Stmt.Declares (s : Stmt) (x : String) : Prop := ∃ name ∈ s.declared?, name.lexeme = x

instance (s : Stmt) (x : String) : Decidable (s.Declares x) :=
  inferInstanceAs (Decidable (∃ name ∈ s.declared?, name.lexeme = x))

/-- The name that a statement declares as a variable. -/
def Stmt.variable? : Stmt → Option Token
  | .var name _ => some name
  | _ => none

mutual

/-- No declaration (`declared?`) stands directly in a branch or in a loop. -/
def Stmt.Shaped : Stmt → Prop
  | .block body | .function _ _ body => Stmt.AllShaped body
  | .branch _ thenBranch elseBranch =>
    thenBranch.declared? = none ∧ thenBranch.Shaped ∧ Stmt.OptionalShaped elseBranch
  | .loop _ body => body.declared? = none ∧ body.Shaped
  | .expression _ | .print _ | .var _ _ | .ret _ _ => True

def Stmt.AllShaped : List Stmt → Prop
  | [] => True
  | s :: rest => s.Shaped ∧ Stmt.AllShaped rest

def Stmt.OptionalShaped : Option Stmt → Prop
  | none => True
  | some s => s.declared? = none ∧ s.Shaped

end

lemma Stmt.allShaped_iff (ss : List Stmt) : Stmt.AllShaped ss ↔ ∀ s ∈ ss, s.Shaped := by
  induction ss with
  | nil => simp [Stmt.AllShaped]
  | cons s rest ih => simp [Stmt.AllShaped, ih]

end LoxLang
