import LoxLang.Proofs.Lists
import LoxLang.Scope.Resolve

/-!
# What the resolver's operations do to scopes

A scope is settled if every name declared in it is ready to be read.  Between two statements all
open scopes are settled: a name is declared and becomes ready within one statement, so a declaration
as a whole binds its name.
-/

namespace LoxLang

/-- Every name that is declared in `scope` is ready to be read. -/
def Scope.Settled (scope : Scope) : Prop := ∀ x, scope.lookup x ≠ some false

/-- Every name that is declared in any of the `scopes` is ready to be read. -/
def Scopes.Settled (scopes : Scopes) : Prop := ∀ scope ∈ scopes, scope.Settled

lemma Scope.declares_iff (scope : Scope) (x : String) :
    scope.declares x = true ↔ scope.lookup x ≠ none := by
  induction scope with
  | nil => simp [Scope.declares]
  | cons entry rest ih =>
    obtain ⟨y, ready⟩ := entry
    rw [lookup_cons_ite]
    by_cases h : x = y
    · simp [Scope.declares, h]
    · rw [if_neg h, ← ih]
      simp [Scope.declares, Ne.symm h]

lemma Scope.pending_iff (scope : Scope) (x : String) :
    scope.pending x = true ↔ scope.lookup x = some false := by
  simp [Scope.pending]

lemma Scope.lookup_of_declares {scope : Scope} {x : String} (h : scope.declares x = true)
    (hpending : scope.pending x = false) : scope.lookup x = some true := by
  rw [Scope.declares_iff] at h
  rw [← Bool.not_eq_true, Scope.pending_iff] at hpending
  rcases hx : scope.lookup x with _ | _ | _
  · exact absurd hx h
  · exact absurd hx hpending
  · rfl

/-- The scopes after a `name` has been declared and has become ready. -/
def Scopes.bind (scopes : Scopes) (name : Token) : Scopes := (scopes.declare name).1.define name

namespace Scopes

variable {scopes : Scopes} {scope : Scope} {outer : Scopes} {name : Token} {x : String}

/-- A name `x` is found in the innermost scope that declares it. -/
lemma depth?_cons (scope : Scope) (outer : Scopes) (x : String) :
    Scopes.depth? (scope :: outer) x =
      if scope.declares x then some 0 else (Scopes.depth? outer x).map (· + 1) := by
  rw [Scopes.depth?, List.findIdx?_cons]
  rfl

@[simp] lemma declare_nil : Scopes.declare [] name = ([], []) := rfl

/-- Declaring a `name` does not make another one ready, and leaves alone what is declared
already. -/
lemma declare_cons (scope : Scope) (outer : Scopes) (name : Token) :
    ∃ scope' : Scope, (Scopes.declare (scope :: outer) name).1 = scope' :: outer ∧
      ∀ x, scope'.lookup x =
        if x = name.lexeme ∧ scope.lookup x = none then some false else scope.lookup x := by
  by_cases h : scope.declares name.lexeme
  · refine ⟨scope, by simp [Scopes.declare, h], fun x => ?_⟩
    have hsome := (Scope.declares_iff scope name.lexeme).mp h
    rw [if_neg]
    rintro ⟨rfl, hnone⟩
    exact hsome hnone
  · refine ⟨(name.lexeme, false) :: scope, by simp [Scopes.declare, h], fun x => ?_⟩
    have hnone : scope.lookup name.lexeme = none := by
      by_contra hne
      exact h ((Scope.declares_iff scope name.lexeme).mpr hne)
    rw [lookup_cons_ite]
    by_cases hx : x = name.lexeme
    · simp [hx, hnone]
    · simp [hx]

/-- Binding a `name` makes it ready and changes nothing else. -/
lemma bind_cons (scope : Scope) (outer : Scopes) (name : Token) :
    ∃ scope' : Scope, Scopes.bind (scope :: outer) name = scope' :: outer ∧
      ∀ x, scope'.lookup x = if x = name.lexeme then some true else scope.lookup x := by
  obtain ⟨declared, hdeclared, hlookup⟩ := declare_cons scope outer name
  refine ⟨(name.lexeme, true) :: declared, by rw [Scopes.bind, hdeclared]; rfl, fun x => ?_⟩
  rw [lookup_cons_ite, hlookup]
  by_cases hx : x = name.lexeme <;> simp [hx]

@[simp] lemma bind_nil : Scopes.bind [] name = [] := rfl

lemma Settled.bind (h : scopes.Settled) (name : Token) : (scopes.bind name).Settled := by
  cases scopes with
  | nil => simp [Scopes.Settled]
  | cons scope outer =>
    obtain ⟨scope', heq, hlookup⟩ := bind_cons scope outer name
    rw [heq]
    rintro sc (_ | ⟨_, hsc⟩)
    · intro x
      rw [hlookup]
      by_cases hx : x = name.lexeme
      · simp [hx]
      · simpa [hx] using h scope (by simp) x
    · exact h sc (List.mem_cons_of_mem scope hsc)

lemma Settled.cons_nil (h : scopes.Settled) : Scopes.Settled ([] :: scopes) := by
  rintro sc (_ | ⟨_, hsc⟩)
  · exact fun x => by simp
  · exact h sc hsc

@[simp] lemma length_declare : (scopes.declare name).1.length = scopes.length := by
  cases scopes with
  | nil => rfl
  | cons scope outer =>
    obtain ⟨scope', heq, -⟩ := declare_cons scope outer name
    rw [heq]
    rfl

@[simp] lemma length_bind : (scopes.bind name).length = scopes.length := by
  cases scopes with
  | nil => rfl
  | cons scope outer =>
    obtain ⟨scope', heq, -⟩ := bind_cons scope outer name
    rw [heq]
    rfl

/-- Declaring parameters, as `declareAll` does, binds one after another. -/
lemma declareAll_fst (scopes : Scopes) (names : List Token) :
    (scopes.declareAll names).1 = names.foldl Scopes.bind scopes := by
  induction names generalizing scopes with
  | nil => rfl
  | cons name rest ih => exact ih _

lemma Settled.foldl_bind (h : scopes.Settled) (names : List Token) :
    (names.foldl Scopes.bind scopes).Settled := by
  induction names generalizing scopes with
  | nil => exact h
  | cons name rest ih => exact ih (h.bind name)

lemma length_foldl_bind (names : List Token) :
    (names.foldl Scopes.bind scopes).length = scopes.length := by
  induction names generalizing scopes with
  | nil => rfl
  | cons name rest ih => rw [List.foldl_cons, ih, length_bind]

/-- Binding `names` makes them ready and changes nothing else. -/
lemma foldl_bind_cons (scope : Scope) (outer : Scopes) (names : List Token) :
    ∃ scope' : Scope, names.foldl Scopes.bind (scope :: outer) = scope' :: outer ∧
      ∀ x, scope'.lookup x = if x ∈ names.map Token.lexeme then some true else scope.lookup x := by
  induction names generalizing scope with
  | nil => exact ⟨scope, rfl, fun x => by simp⟩
  | cons name rest ih =>
    obtain ⟨bound, hbound, hlookup⟩ := bind_cons scope outer name
    obtain ⟨scope', heq, hlookup'⟩ := ih bound
    refine ⟨scope', by rw [List.foldl_cons, hbound, heq], fun x => ?_⟩
    rw [hlookup', hlookup]
    by_cases hrest : x ∈ rest.map Token.lexeme
    · simp [hrest]
    · by_cases hx : x = name.lexeme <;> simp [hrest, hx]

end Scopes

end LoxLang
