import Mathlib.Tactic
import LoxLang.Tree.Occurrence

/-!
# Occurrences in lists of trees
-/

namespace LoxLang

lemma Expr.allOccurrences_eq_flatMap (es : List Expr) :
    Expr.allOccurrences es = es.flatMap Expr.occurrences := by
  induction es with
  | nil => rfl
  | cons e rest ih => rw [Expr.allOccurrences, ih, List.flatMap_cons]

lemma Stmt.allOccurrences_append (ss rest : List Stmt) :
    Stmt.allOccurrences (ss ++ rest) = Stmt.allOccurrences ss ++ Stmt.allOccurrences rest := by
  induction ss with
  | nil => rfl
  | cons s ss ih =>
    rw [List.cons_append, Stmt.allOccurrences, ih, Stmt.allOccurrences, List.append_assoc]

end LoxLang
