import Mathlib.Tactic

/-!
# Lists
-/

namespace LoxLang

/-- `List.lookup` in a list of pairs, one pair at a time. -/
lemma lookup_cons_ite {β : Type} (x key : String) (b : β) (rest : List (String × β)) :
    ((key, b) :: rest).lookup x = if x = key then some b else rest.lookup x := by
  by_cases h : x = key
  · simp [h]
  · have hbeq : (x == key) = false := by simpa using h
    rw [List.lookup_cons, hbeq, if_neg h]

/-- What holds between two concatenations holds between their first parts and between their second
parts. -/
lemma forall_mem_of_append {α β : Type} {P : α → β → Prop} {xs ys : List α} {xs' ys' : List β}
    (h : ∀ x ∈ xs ++ ys, ∀ x' ∈ xs' ++ ys', P x x') :
    (∀ x ∈ xs, ∀ x' ∈ xs', P x x') ∧ ∀ y ∈ ys, ∀ y' ∈ ys', P y y' :=
  ⟨fun x hx x' hx' => h x (List.mem_append_left _ hx) x' (List.mem_append_left _ hx'),
    fun y hy y' hy' => h y (List.mem_append_right _ hy) y' (List.mem_append_right _ hy')⟩

end LoxLang
