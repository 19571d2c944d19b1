import LoxLang.Proofs.Scope.Chains

/-!
# Declarations that come in time

A name is shadowed late if a scope declares it after something in the scope has used it, by reading
or assigning a variable further out.  In a program without late shadowing, every scope around an
occurrence that ever declares its name has done so before the occurrence.
-/

namespace LoxLang

/-- The occurrences in the initializer of a variable declaration. -/
def Stmt.initializerOccurrences : Stmt → List Occurrence
  | .var _ initializer => initializer.elim [] Expr.occurrences
  | _ => []

/-- In a scope with this `body`, no name is used at any depth before the scope's own declaration of
it, nor in the initializer of that declaration. -/
def DeclaresInTime (body : List Stmt) : Prop :=
  body.Pairwise (fun s t => ∀ name ∈ t.declared?, ∀ o ∈ s.occurrences,
    o.name.lexeme ≠ name.lexeme) ∧
    ∀ s ∈ body, ∀ name ∈ s.declared?, ∀ o ∈ s.initializerOccurrences, o.name.lexeme ≠ name.lexeme

instance (body : List Stmt) : Decidable (DeclaresInTime body) := inferInstanceAs (Decidable (_ ∧ _))

mutual

/-- The bodies of the local scopes in a statement. -/
def Stmt.bodies : Stmt → List (List Stmt)
  | .block body | .function _ _ body => body :: Stmt.allBodies body
  | .branch _ thenBranch elseBranch => thenBranch.bodies ++ Stmt.optionalBodies elseBranch
  | .loop _ body => body.bodies
  | .expression _ | .print _ | .var _ _ | .ret _ _ => []

def Stmt.allBodies : List Stmt → List (List Stmt)
  | [] => []
  | s :: rest => s.bodies ++ Stmt.allBodies rest

def Stmt.optionalBodies : Option Stmt → List (List Stmt)
  | none => []
  | some s => s.bodies

end

/-- No local scope of a program declares a name late: all `allBodies` are in time. -/
def LateShadowingFree (statements : List Stmt) : Prop :=
  ∀ body ∈ Stmt.allBodies statements, DeclaresInTime body

instance (statements : List Stmt) : Decidable (LateShadowingFree statements) :=
  inferInstanceAs (Decidable (∀ body ∈ Stmt.allBodies statements, DeclaresInTime body))

/-! ## Names that are declared already -/

/-- Every scope that declares the name `x` at all has it ready to be read. -/
structure Clear (x : String) (origins : List Origin) (scopes : Scopes) : Prop where
  ready : scopes.pending x = false
  declared : List.Forall₂ (fun (o : Origin) (scope : Scope) => o.Declares x →
    scope.lookup x = some true) origins scopes

/-- The scopes in which a statement `s` uses names, apart from the ones that it opens itself. -/
def Stmt.inside (s : Stmt) (scopes : Scopes) : Scopes :=
  match s with
  | .var name _ => (scopes.declare name).1
  | .function name _ _ => scopes.bind name
  | _ => scopes

lemma Stmt.inside_of_declared?_eq_none {s : Stmt} (h : s.declared? = none) (scopes : Scopes) :
    s.inside scopes = scopes := by
  cases s with
  | var name initializer | function name parameters body =>
    exact absurd h (by simp [Stmt.declared?])
  | expression _ | print _ | block _ | branch _ _ _ | loop _ _ | ret _ _ => rfl

lemma Stmt.inside_nil (s : Stmt) : s.inside [] = [] := by
  cases s <;> rfl

/-- A name that is used in a declaration in time (`htimely`) is as ready there as before it, or it
is the name of a function that is being declared. -/
lemma Stmt.inside_cons {s : Stmt}
    (htimely : ∀ name ∈ s.declared?, ∀ o ∈ s.initializerOccurrences, o.name.lexeme ≠ name.lexeme)
    (scope : Scope) (outer : Scopes) :
    ∃ scope' : Scope, s.inside (scope :: outer) = scope' :: outer ∧ ∀ o ∈ s.occurrences,
      s.Declares o.name.lexeme ∧ scope'.lookup o.name.lexeme = some true ∨
        ¬ s.Declares o.name.lexeme ∧ scope'.lookup o.name.lexeme = scope.lookup o.name.lexeme := by
  cases hs : s.declared? with
  | none =>
    refine ⟨scope, s.inside_of_declared?_eq_none hs _, fun o _ => Or.inr ⟨?_, rfl⟩⟩
    rintro ⟨name, hname, -⟩
    rw [hs] at hname
    exact absurd hname (by simp)
  | some name =>
    have hdeclares : ∀ x, s.Declares x ↔ x = name.lexeme := by
      intro x
      simp [Stmt.Declares, hs, eq_comm]
    cases s with
    | var declared initializer =>
      obtain rfl : declared = name := by simpa [Stmt.declared?] using hs
      obtain ⟨scope', heq, hlookup⟩ := Scopes.declare_cons scope outer declared
      -- The variable is not ready in its initializer, but in time it is not used there.
      refine ⟨scope', heq, fun o ho => Or.inr ?_⟩
      have hne := htimely declared hs o ho
      rw [hdeclares, hlookup, if_neg fun h => hne h.1]
      exact ⟨hne, rfl⟩
    | function declared parameters body =>
      obtain rfl : declared = name := by simpa [Stmt.declared?] using hs
      obtain ⟨scope', heq, hlookup⟩ := Scopes.bind_cons scope outer declared
      refine ⟨scope', heq, fun o _ => ?_⟩
      rw [hdeclares, hlookup]
      -- A function may call itself: its name is ready in its own body.
      by_cases hx : o.name.lexeme = declared.lexeme
      · exact Or.inl ⟨hx, if_pos hx⟩
      · exact Or.inr ⟨hx, if_neg hx⟩
    | expression _ | print _ | block _ | branch _ _ _ | loop _ _ | ret _ _ =>
      exact absurd hs (by simp [Stmt.declared?])

/-- The scopes after the statements `ss` in a row. -/
def Stmt.afterAll (ss : List Stmt) (scopes : Scopes) : Scopes :=
  ss.foldl (fun scopes s => s.after scopes) scopes

lemma Stmt.afterAll_nil_scopes (ss : List Stmt) : Stmt.afterAll ss [] = [] := by
  induction ss with
  | nil => rfl
  | cons s rest ih =>
    rw [Stmt.afterAll, List.foldl_cons, s.after_nil_scopes]
    exact ih

/-- After statements in a row, `afterAll` of them, the names that they declare are ready, and
nothing else has changed. -/
lemma Stmt.afterAll_cons (ss : List Stmt) (scope : Scope) (outer : Scopes) :
    ∃ scope' : Scope, Stmt.afterAll ss (scope :: outer) = scope' :: outer ∧
      ∀ x, scope'.lookup x = some true ∧ (∃ s ∈ ss, s.Declares x) ∨
        scope'.lookup x = scope.lookup x ∧ ¬ ∃ s ∈ ss, s.Declares x := by
  induction ss generalizing scope with
  | nil => exact ⟨scope, rfl, fun x => Or.inr ⟨rfl, by simp⟩⟩
  | cons s rest ih =>
    obtain ⟨scope₁, heq₁, hlookup₁⟩ : ∃ scope₁ : Scope, s.after (scope :: outer) = scope₁ :: outer ∧
        ∀ x, scope₁.lookup x = some true ∧ s.Declares x ∨
          scope₁.lookup x = scope.lookup x ∧ ¬ s.Declares x := by
      rw [Stmt.after]
      cases hs : s.declared? with
      | none => exact ⟨scope, rfl, fun x => Or.inr ⟨rfl, by simp [Stmt.Declares, hs]⟩⟩
      | some name =>
        obtain ⟨scope₁, heq, hlookup⟩ := Scopes.bind_cons scope outer name
        refine ⟨scope₁, heq, fun x => ?_⟩
        rw [hlookup]
        by_cases hx : x = name.lexeme
        · exact Or.inl ⟨if_pos hx, name, hs, hx.symm⟩
        · exact Or.inr ⟨if_neg hx, by simp [Stmt.Declares, hs, Ne.symm hx]⟩
    obtain ⟨scope', heq', hlookup'⟩ := ih scope₁
    refine ⟨scope', by rw [Stmt.afterAll, List.foldl_cons, heq₁]; exact heq', fun x => ?_⟩
    rcases hlookup' x with ⟨htrue, t, ht, hdeclares⟩ | ⟨hsame, hrest⟩
    · exact Or.inl ⟨htrue, t, List.mem_cons_of_mem s ht, hdeclares⟩
    · rcases hlookup₁ x with ⟨htrue, hdeclares⟩ | ⟨hsame₁, hs⟩
      · exact Or.inl ⟨hsame.trans htrue, s, List.mem_cons_self, hdeclares⟩
      · refine Or.inr ⟨hsame.trans hsame₁, ?_⟩
        rintro ⟨t, ht, hdeclares⟩
        rcases List.mem_cons.mp ht with rfl | ht
        · exact hs hdeclares
        · exact hrest ⟨t, ht, hdeclares⟩

/-- Inside a scope that declares its names in time (`htimely`), every name is `Clear` where a
statement uses it, if it is clear outside (`houter`). -/
lemma clear_inside (o : Origin) {origins : List Origin} {scope : Scope} {outer : Scopes}
    (htimely : DeclaresInTime o.body)
    (hscope : ∀ x, scope.lookup x = if x ∈ o.parameters.map Token.lexeme then some true else none)
    (houter : ∀ occ ∈ Stmt.allOccurrences o.body, Clear occ.name.lexeme origins outer)
    {before after : List Stmt} {s : Stmt} (hbody : o.body = before ++ s :: after) {occ : Occurrence}
    (hocc : occ ∈ s.occurrences) :
    Clear occ.name.lexeme (o :: origins) (s.inside (Stmt.afterAll before (scope :: outer))) := by
  obtain ⟨hlater, hown⟩ := htimely
  obtain ⟨scope₁, heq₁, hlookup₁⟩ := Stmt.afterAll_cons before scope outer
  obtain ⟨scope₂, heq₂, hlookup₂⟩ := Stmt.inside_cons (hown s (by simp [hbody])) scope₁ outer
  rw [heq₁, heq₂]
  -- Either the scope has the name already, or it never declares it.
  have hclear : scope₂.lookup occ.name.lexeme = some true ∨
      scope₂.lookup occ.name.lexeme = none ∧ ¬ o.Declares occ.name.lexeme := by
    rcases hlookup₂ occ hocc with ⟨-, htrue⟩ | ⟨hs, hsame⟩
    · exact Or.inl htrue
    rcases hlookup₁ occ.name.lexeme with ⟨htrue, -⟩ | ⟨hsame₁, hbefore⟩
    · exact Or.inl (hsame.trans htrue)
    rw [hsame, hsame₁, hscope]
    by_cases hparameter : occ.name.lexeme ∈ o.parameters.map Token.lexeme
    · exact Or.inl (if_pos hparameter)
    · refine Or.inr ⟨if_neg hparameter, ?_⟩
      rintro (hdeclared | ⟨t, ht, hdeclared⟩)
      · exact hparameter hdeclared
      rw [hbody] at ht
      rcases List.mem_append.mp ht with ht | ht
      · exact hbefore ⟨t, ht, hdeclared⟩
      rcases List.mem_cons.mp ht with rfl | ht
      · exact hs hdeclared
      -- A declaration that is still to come would be late.
      obtain ⟨name, hname, hlexeme⟩ := hdeclared
      rw [hbody, List.pairwise_append, List.pairwise_cons] at hlater
      exact hlater.2.1.1 t ht name hname occ hocc hlexeme.symm
  have hmem : occ ∈ Stmt.allOccurrences o.body := by
    rw [hbody, Stmt.allOccurrences_append, Stmt.allOccurrences]
    exact List.mem_append_right _ (List.mem_append_left _ hocc)
  refine ⟨?_, .cons ?_ (houter occ hmem).declared⟩
  · rcases hclear with htrue | ⟨hnone, -⟩
    · simp [Scopes.pending, Scope.pending, htrue]
    · simp [Scopes.pending, Scope.pending, hnone]
  · intro hdeclares
    rcases hclear with htrue | ⟨-, hnever⟩
    · exact htrue
    · exact absurd hdeclares hnever

/-! ## Sites of programs without late shadowing -/

abbrev Site.Clear (w : Site) : Prop := LoxLang.Clear w.name.lexeme w.origins w.scopes

lemma Expr.clear_sites {e : Expr} {origins : List Origin} {scopes : Scopes}
    {initializing : Option Token} (h : ∀ o ∈ e.occurrences, Clear o.name.lexeme origins scopes) :
    ∀ w ∈ e.sites origins scopes initializing, w.Clear := by
  intro w hw
  obtain ⟨o, ho, rfl⟩ := List.mem_map.mp hw
  exact h o ho

lemma Expr.clear_optionalSites {e : Option Expr} {origins : List Origin} {scopes : Scopes}
    {initializing : Option Token}
    (h : ∀ o ∈ e.elim [] Expr.occurrences, Clear o.name.lexeme origins scopes) :
    ∀ w ∈ Expr.optionalSites e origins scopes initializing, w.Clear := by
  cases e with
  | none => simp [Expr.optionalSites]
  | some e => exact Expr.clear_sites h

mutual

lemma Stmt.clear_sites (inFunction : Bool) (origins : List Origin) (s : Stmt) (scopes : Scopes)
    (hs : s.Shaped) (hfree : ∀ body ∈ s.bodies, DeclaresInTime body)
    (hclear : ∀ o ∈ s.occurrences, Clear o.name.lexeme origins (s.inside scopes)) :
    ∀ w ∈ s.sites inFunction origins scopes, w.Clear := by
  cases s with
  | expression e | print e => exact Expr.clear_sites hclear
  | var name initializer => exact Expr.clear_optionalSites hclear
  | block body =>
    rw [Stmt.Shaped] at hs
    rw [Stmt.bodies, List.forall_mem_cons] at hfree
    refine Stmt.clear_allSites inFunction (.block body :: origins) body ([] :: scopes) hs hfree.2 ?_
    intro before s after hbody occ hocc
    have hscope : ∀ x, List.lookup x ([] : Scope) =
        if x ∈ (Origin.block body).parameters.map Token.lexeme then some true else none := by
      simp [Origin.parameters]
    exact clear_inside (.block body) hfree.1 hscope hclear hbody hocc
  | branch condition thenBranch elseBranch =>
    rw [Stmt.Shaped] at hs
    have hthen := Stmt.resolve_fst inFunction thenBranch scopes hs.2.1
    rw [Stmt.after, hs.1] at hthen
    rw [Stmt.bodies, List.forall_mem_append] at hfree
    simp only [Stmt.occurrences, List.forall_mem_append] at hclear
    intro w hw
    rw [Stmt.sites, hthen] at hw
    rcases List.mem_append.mp hw with hw | hw
    · rcases List.mem_append.mp hw with hw | hw
      · exact Expr.clear_sites hclear.1.1 w hw
      · refine Stmt.clear_sites inFunction origins thenBranch scopes hs.2.1 hfree.1 ?_ w hw
        rw [Stmt.inside_of_declared?_eq_none hs.1]
        exact hclear.1.2
    · exact Stmt.clear_optionalSites inFunction origins elseBranch scopes hs.2.2 hfree.2
        hclear.2 w hw
  | loop condition body =>
    rw [Stmt.Shaped] at hs
    rw [Stmt.bodies] at hfree
    simp only [Stmt.occurrences, List.forall_mem_append] at hclear
    intro w hw
    rw [Stmt.sites] at hw
    rcases List.mem_append.mp hw with hw | hw
    · exact Expr.clear_sites hclear.1 w hw
    · refine Stmt.clear_sites inFunction origins body scopes hs.2 hfree ?_ w hw
      rw [Stmt.inside_of_declared?_eq_none hs.1]
      exact hclear.2
  | function name parameters body =>
    rw [Stmt.Shaped] at hs
    rw [Stmt.bodies, List.forall_mem_cons] at hfree
    obtain ⟨scope, heq, hlookup⟩ := Scopes.foldl_bind_cons [] (scopes.bind name) parameters
    refine Stmt.clear_allSites true (.function ⟨name, parameters, body⟩ :: origins) body _
      hs hfree.2 ?_
    intro before s after hbody occ hocc
    have hscope : ∀ x, scope.lookup x =
        if x ∈ (Origin.function ⟨name, parameters, body⟩).parameters.map Token.lexeme then some true
          else none := hlookup
    rw [Scopes.declareAll_fst, heq]
    exact clear_inside (.function ⟨name, parameters, body⟩) hfree.1 hscope hclear hbody hocc
  | ret keyword value => exact Expr.clear_optionalSites hclear

lemma Stmt.clear_allSites (inFunction : Bool) (origins : List Origin) (ss : List Stmt)
    (scopes : Scopes) (hs : Stmt.AllShaped ss)
    (hfree : ∀ body ∈ Stmt.allBodies ss, DeclaresInTime body)
    (hclear : ∀ before s after, ss = before ++ s :: after → ∀ o ∈ s.occurrences,
      Clear o.name.lexeme origins (s.inside (Stmt.afterAll before scopes))) :
    ∀ w ∈ Stmt.allSites inFunction origins ss scopes, w.Clear := by
  cases ss with
  | nil => simp [Stmt.allSites]
  | cons s rest =>
    rw [Stmt.AllShaped] at hs
    rw [Stmt.allBodies, List.forall_mem_append] at hfree
    intro w hw
    rw [Stmt.allSites, Stmt.resolve_fst inFunction s scopes hs.1] at hw
    rcases List.mem_append.mp hw with hw | hw
    · exact Stmt.clear_sites inFunction origins s scopes hs.1 hfree.1 (hclear [] s rest rfl) w hw
    · refine Stmt.clear_allSites inFunction origins rest _ hs.2 hfree.2 ?_ w hw
      intro before t after hrest
      exact hclear (s :: before) t after (by rw [hrest]; rfl)

lemma Stmt.clear_optionalSites (inFunction : Bool) (origins : List Origin) (s : Option Stmt)
    (scopes : Scopes) (hs : Stmt.OptionalShaped s)
    (hfree : ∀ body ∈ Stmt.optionalBodies s, DeclaresInTime body)
    (hclear : ∀ o ∈ Stmt.optionalOccurrences s, Clear o.name.lexeme origins scopes) :
    ∀ w ∈ Stmt.optionalSites inFunction origins s scopes, w.Clear := by
  cases s with
  | none => simp [Stmt.optionalSites]
  | some s =>
    rw [Stmt.OptionalShaped] at hs
    refine Stmt.clear_sites inFunction origins s scopes hs.2 hfree ?_
    rw [Stmt.inside_of_declared?_eq_none hs.1]
    exact hclear

end

/-- In a program without late shadowing every name is `Clear` where it is used. -/
theorem LateShadowingFree.clear_sites {statements : List Stmt} (h : LateShadowingFree statements)
    (hs : Stmt.AllShaped statements) : ∀ w ∈ programSites statements, w.Clear := by
  refine Stmt.clear_allSites false [] statements [] hs h fun before s after _ o _ => ?_
  rw [Stmt.afterAll_nil_scopes, Stmt.inside_nil]
  exact ⟨rfl, .nil⟩

end LoxLang
