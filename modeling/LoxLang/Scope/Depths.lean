import Std.Data.TreeMap
import LoxLang.Tree.Basic

/-!
# The depth table

For an occurrence of a local variable the table holds its depth: how many scopes out from the
occurrence the variable lives.  An occurrence without an entry is global.
-/

namespace LoxLang

structure Depths where
  entries : Std.TreeMap NodeId Nat compare

namespace Depths

def empty : Depths := ⟨∅⟩

/-- The depth of the occurrence `id`. -/
def get? (t : Depths) (id : NodeId) : Option Nat := t.entries[id]?

/-- Enter the depth of the occurrence `id`, over an earlier entry. -/
def note (t : Depths) (id : NodeId) (depth : Nat) : Depths := ⟨t.entries.insert id depth⟩

@[simp] theorem get?_empty (id : NodeId) : empty.get? id = none := by
  simp [get?, empty]

@[simp] theorem get?_note (t : Depths) (id k : NodeId) (depth : Nat) :
    (t.note id depth).get? k = if id = k then some depth else t.get? k := by
  simp [get?, note, Std.TreeMap.getElem?_insert]

end Depths

end LoxLang
