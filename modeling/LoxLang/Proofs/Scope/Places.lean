import LoxLang.Proofs.Scope.Sites

/-!
# Places of a program

A place is a point of a program that the resolver looks at: the name of a declaration, a parameter,
an occurrence of a variable, or a `return`.  A place is described by where it stands in the tree and
by nothing else: by the local scopes around it, each with the statement of its body in which the
place lies and the statements before that one.  This tells which names a scope declares before the
place, how far out a name is declared, and whether the place breaks a rule.

The resolver does not look at the tree in this way.  It carries the scopes along, and enters names
into them as it goes.  `programFindings_eq_flatMap` says that it finds the same: at every place what
the place gives, in the order of the places.
-/

namespace LoxLang

/-! ## Layers -/

def Origin.IsFunction : Origin → Prop
  | block _ => False
  | function _ => True

instance : DecidablePred Origin.IsFunction
  | .block _ => inferInstanceAs (Decidable False)
  | .function _ => inferInstanceAs (Decidable True)

/-- The scope has the name `x` as a parameter, or from one of the statements `ss`. -/
def Origin.DeclaresBy (o : Origin) (ss : List Stmt) (x : String) : Prop :=
  x ∈ o.parameters.map Token.lexeme ∨ ∃ s ∈ ss, s.Declares x

instance (o : Origin) (ss : List Stmt) (x : String) : Decidable (o.DeclaresBy ss x) :=
  inferInstanceAs (Decidable (_ ∨ _))

/-- A local scope around a place: what opened it, and the statement of its body in which the place
lies. -/
structure Layer where
  origin : Origin
  before : List Stmt
  here : Stmt
  after : List Stmt
  body_eq : origin.body = before ++ here :: after

namespace Layer

/-- The scope has the name `x` as a parameter, or from an earlier statement than the one in which
the place lies. -/
abbrev DeclaresEarlier (l : Layer) (x : String) : Prop := l.origin.DeclaresBy l.before x

/-- The scope declares the name `x` before the place: earlier, or by the statement in which the
place lies. -/
def Declares (l : Layer) (x : String) : Prop := l.DeclaresEarlier x ∨ l.here.Declares x

/-- The place lies in the initializer of a variable `x`, and the scope has no earlier declaration of
it. -/
def Initializes (l : Layer) (x : String) : Prop :=
  (∃ name ∈ l.here.variable?, name.lexeme = x) ∧ ¬ l.DeclaresEarlier x

instance (l : Layer) (x : String) : Decidable (l.Declares x) := inferInstanceAs (Decidable (_ ∨ _))

instance (l : Layer) (x : String) : Decidable (l.Initializes x) :=
  inferInstanceAs (Decidable (_ ∧ _))

end Layer

/-! ## Places -/

inductive Point where
  /-- The name of a variable or of a function that is declared. -/
  | declaration (name : Token)
  /-- A parameter, and the ones before it. -/
  | parameter (earlier : List Token) (name : Token)
  | access (o : Occurrence)
  | ret (keyword : Token)

structure Place where
  point : Point
  /-- The local scopes around the point, the innermost first. -/
  layers : List Layer

def Expr.places (layers : List Layer) (e : Expr) : List Place :=
  e.occurrences.map fun o => ⟨.access o, layers⟩

def Expr.optionalPlaces (layers : List Layer) (e : Option Expr) : List Place :=
  e.elim [] (Expr.places layers)

/-- The places of parameters, after earlier ones. -/
def parameterPlaces (layers : List Layer) : List Token → List Token → List Place
  | _, [] => []
  | earlier, name :: rest =>
    ⟨.parameter earlier name, layers⟩ :: parameterPlaces layers (earlier ++ [name]) rest

mutual

/-- The places of a statement, in the order in which they are visited. -/
def Stmt.places (layers : List Layer) : Stmt → List Place
  | .expression e => e.places layers
  | .print e => e.places layers
  | .var name initializer => ⟨.declaration name, layers⟩ :: Expr.optionalPlaces layers initializer
  | .block body => Stmt.bodyPlaces layers (.block body) [] body rfl
  | .branch condition thenBranch elseBranch =>
    condition.places layers ++ thenBranch.places layers ++ Stmt.optionalPlaces layers elseBranch
  | .loop condition body => condition.places layers ++ body.places layers
  | .function name parameters body =>
    ⟨.declaration name, layers⟩ :: (parameterPlaces layers [] parameters
      ++ Stmt.bodyPlaces layers (.function ⟨name, parameters, body⟩) [] body rfl)
  | .ret keyword value => ⟨.ret keyword, layers⟩ :: Expr.optionalPlaces layers value

/-- The places of what is left of the body of a scope, behind the statements `before`. -/
def Stmt.bodyPlaces (outer : List Layer) (o : Origin) (before : List Stmt) :
    (rest : List Stmt) → o.body = before ++ rest → List Place
  | [], _ => []
  | s :: rest, h => s.places (⟨o, before, s, rest, h⟩ :: outer) ++
      Stmt.bodyPlaces outer o (before ++ [s]) rest (by rw [h, List.append_assoc]; rfl)

def Stmt.optionalPlaces (layers : List Layer) : Option Stmt → List Place
  | none => []
  | some s => s.places layers

end

/-- The places of a program.  Global names are in no scope. -/
def programPlaces (statements : List Stmt) : List Place := statements.flatMap (Stmt.places [])

/-- How many scopes out the nearest one lies that declares the name `x`. -/
def distance? (layers : List Layer) (x : String) : Option ℕ := layers.findIdx? fun l => l.Declares x

namespace Place

/-- The rule that is broken at a place: a name is declared once in a local scope, a local variable
is not read in the initializer that comes with its first declaration, and a `return` stands in a
function. -/
def violation? (p : Place) : Option BindingError :=
  match p.point with
  | .declaration name =>
    if ∃ l ∈ p.layers.head?, l.DeclaresEarlier name.lexeme then some ⟨.redeclared, name⟩ else none
  | .parameter earlier name =>
    if name.lexeme ∈ earlier.map Token.lexeme then some ⟨.redeclared, name⟩ else none
  | .access o =>
    if o.access = .get ∧ ∃ l ∈ p.layers.head?, l.Initializes o.name.lexeme then
      some ⟨.ownInitializer, o.name⟩
    else none
  | .ret keyword =>
    if ∃ l ∈ p.layers, l.origin.IsFunction then none else some ⟨.returnOutsideFunction, keyword⟩

/-- The occurrence at a place, with the scopes around it. -/
def access? (p : Place) : Option (Occurrence × List Layer) :=
  match p.point with
  | .access o => some (o, p.layers)
  | _ => none

abbrev occurrence? (p : Place) : Option Occurrence := p.access?.map Prod.fst

/-- The entry into the depth table that belongs to a place: the `distance?` of its name. -/
def entry? (p : Place) : Option (NodeId × ℕ) :=
  p.access?.bind fun a => (distance? a.2 a.1.name.lexeme).map fun d => (a.1.id, d)

/-- What is to be found at a place: its `violation?` and its `entry?`. -/
def findings (p : Place) : List Finding :=
  p.violation?.toList.map .fault ++ p.entry?.toList.map fun entry => .depth entry.1 entry.2

end Place

/-! ## What the scopes have to do with the layers -/

/-- Just the names of which `D` holds are in the scope, and all of them are ready. -/
def Scope.Holds (scope : Scope) (D : String → Prop) : Prop :=
  ∀ x, scope.lookup x = some true ∧ D x ∨ scope.lookup x = none ∧ ¬ D x

namespace Scope.Holds

variable {scope : Scope} {D E : String → Prop}

lemma congr (h : scope.Holds D) (hiff : ∀ x, D x ↔ E x) : scope.Holds E := by
  intro x
  rw [← hiff x]
  exact h x

lemma declares_iff (h : scope.Holds D) (x : String) : scope.declares x = true ↔ D x := by
  rw [Scope.declares_iff]
  rcases h x with ⟨hlookup, hx⟩ | ⟨hlookup, hx⟩ <;> simp [hlookup, hx]

lemma lookup_ne_some_false (h : scope.Holds D) (x : String) : scope.lookup x ≠ some false := by
  rcases h x with ⟨hlookup, -⟩ | ⟨hlookup, -⟩ <;> simp [hlookup]

lemma bind (h : scope.Holds D) (outer : Scopes) (name : Token) :
    ∃ scope' : Scope, Scopes.bind (scope :: outer) name = scope' :: outer ∧
      scope'.Holds fun x => D x ∨ name.lexeme = x := by
  obtain ⟨scope', heq, hlookup⟩ := Scopes.bind_cons scope outer name
  refine ⟨scope', heq, fun x => ?_⟩
  rw [hlookup]
  by_cases hx : x = name.lexeme
  · exact Or.inl ⟨if_pos hx, Or.inr hx.symm⟩
  · rw [if_neg hx]
    simpa [Ne.symm hx] using h x

/-- After a statement `s`, the scope has the name that the statement declares as well. -/
lemma after {o : Origin} {before : List Stmt} (h : scope.Holds (o.DeclaresBy before))
    (outer : Scopes) (s : Stmt) :
    ∃ scope' : Scope, s.after (scope :: outer) = scope' :: outer ∧
      scope'.Holds (o.DeclaresBy (before ++ [s])) := by
  have hmore : ∀ x, o.DeclaresBy before x ∨ s.Declares x ↔ o.DeclaresBy (before ++ [s]) x := by
    intro x
    simp only [Origin.DeclaresBy, List.mem_append, List.mem_singleton, or_and_right, exists_or,
      exists_eq_left, or_assoc]
  rw [Stmt.after]
  cases hs : s.declared? with
  | none => exact ⟨scope, rfl, h.congr fun x => by rw [← hmore]; simp [Stmt.Declares, hs]⟩
  | some name =>
    obtain ⟨scope', heq, hbound⟩ := h.bind outer name
    exact ⟨scope', heq, hbound.congr fun x => by rw [← hmore]; simp [Stmt.Declares, hs]⟩

/-- A name that the scope has already is a fault. -/
lemma declare_snd (h : scope.Holds D) (outer : Scopes) (name : Token) [Decidable (D name.lexeme)] :
    (Scopes.declare (scope :: outer) name).2 =
      if D name.lexeme then [.fault ⟨.redeclared, name⟩] else [] := by
  rw [Scopes.declare]
  by_cases hname : D name.lexeme
  · rw [if_pos ((h.declares_iff _).mpr hname), if_pos hname]
  · rw [if_neg fun hold => hname ((h.declares_iff _).mp hold), if_neg hname]

end Scope.Holds

/-- Where the body of a function begins, its scope has the parameters. -/
lemma Function.holds_declareAll (f : Function) (outer : Scopes) :
    ∃ scope : Scope, (Scopes.declareAll ([] :: outer) f.parameters).1 = scope :: outer ∧
      scope.Holds ((Origin.function f).DeclaresBy []) := by
  obtain ⟨scope, heq, hlookup⟩ := Scopes.foldl_bind_cons [] outer f.parameters
  refine ⟨scope, by rw [Scopes.declareAll_fst, heq], fun x => ?_⟩
  rw [hlookup]
  by_cases hx : x ∈ f.parameters.map Token.lexeme
  · exact Or.inl ⟨if_pos hx, Or.inl hx⟩
  · exact Or.inr ⟨if_neg hx, by simpa [Origin.DeclaresBy, Origin.parameters] using hx⟩

/-- Each scope declares what its layer declares before a place. -/
abbrev Around : List Layer → Scopes → Prop :=
  List.Forall₂ fun l scope => ∀ x, scope.declares x = true ↔ l.Declares x

/-- The `scopes` that the resolver has open at a place. -/
structure Sees (layers : List Layer) (scopes : Scopes) : Prop where
  around : Around layers scopes
  pending : ∀ x, scopes.pending x = true ↔ ∃ l ∈ layers.head?, l.Initializes x

/-- The scopes that the resolver has open before a statement `s`.  The statement stands in the body
of the innermost scope, or deeper in a statement of the body that declares nothing. -/
inductive Stmt.Within (s : Stmt) : List Layer → Scopes → Prop where
  | globals : Stmt.Within s [] []
  | inner {l : Layer} {outer : List Layer} {scope : Scope} {scopes : Scopes} :
      l.here = s ∨ s.declared? = none ∧ l.here.declared? = none → scope.Holds l.DeclaresEarlier →
      Around outer scopes → Stmt.Within s (l :: outer) (scope :: scopes)

variable {layers : List Layer} {scopes : Scopes} {s t : Stmt}

lemma Around.depth? (h : Around layers scopes) (x : String) :
    scopes.depth? x = distance? layers x := by
  induction h with
  | nil => rfl
  | @cons l scope _ _ hl _ ih =>
    have hdeclares : scope.declares x = decide (l.Declares x) := by
      rw [Bool.eq_iff_iff, decide_eq_true_iff, hl]
    rw [Scopes.depth?_cons, ih, hdeclares, distance?, distance?, List.findIdx?_cons]

/-! ## Names before and inside a statement -/

/-- A part `t` that declares nothing of a statement that declares nothing stands in the same
scopes. -/
lemma Stmt.Within.part (h : s.Within layers scopes) (hs : s.declared? = none)
    (ht : t.declared? = none) : t.Within layers scopes := by
  cases h with
  | globals => exact .globals
  | inner hhere hholds haround =>
    refine .inner (Or.inr ⟨ht, ?_⟩) hholds haround
    rcases hhere with rfl | hhere
    · exact hs
    · exact hhere.2

lemma Stmt.Within.findings_declare (h : s.Within layers scopes) (name : Token) :
    (scopes.declare name).2 = Place.findings ⟨.declaration name, layers⟩ := by
  cases h with
  | globals => rfl
  | inner hhere hholds haround =>
    rw [hholds.declare_snd]
    simp only [Place.findings, Place.violation?, Place.entry?, Place.access?, List.head?_cons,
      Option.mem_some_iff, exists_eq_left']
    split <;> rfl

/-- A statement that declares nothing `Sees` what is declared earlier. -/
lemma Stmt.Within.sees (h : s.Within layers scopes) (hs : s.declared? = none) :
    Sees layers scopes := by
  cases h with
  | globals => exact ⟨.nil, fun x => by simp [Scopes.pending]⟩
  | @inner l outer scope scopes hhere hholds haround =>
    have hnone : l.here.declared? = none := by
      rcases hhere with rfl | hhere
      · exact hs
      · exact hhere.2
    have hvariable : l.here.variable? = none := by
      cases hl : l.here with
      | var name initializer => exact absurd hnone (by simp [hl, Stmt.declared?])
      | expression _ | print _ | block _ | branch _ _ _ | loop _ _ | function _ _ _ | ret _ _ => rfl
    refine ⟨.cons (fun x => ?_) haround, fun x => ?_⟩
    · simp [hholds.declares_iff, Layer.Declares, Stmt.Declares, hnone]
    · simp [Scopes.pending, Scope.pending_iff, hholds.lookup_ne_some_false,
        Layer.Initializes, hvariable]

lemma Stmt.Within.here_eq {l : Layer} {outer : List Layer} (h : s.Within (l :: outer) scopes)
    {name : Token} (hs : s.declared? = some name) : l.here = s := by
  cases h with
  | inner hhere _ _ =>
    rcases hhere with hhere | ⟨hnone, -⟩
    · exact hhere
    · exact absurd (hs.symm.trans hnone) (by simp)

/-- An `initializer` sees the name of its variable, which is not ready unless it is declared
earlier. -/
lemma Stmt.Within.sees_initializer {name : Token} {initializer : Option Expr}
    (h : (Stmt.var name initializer).Within layers scopes) :
    Sees layers (scopes.declare name).1 := by
  cases h with
  | globals => exact ⟨.nil, fun x => by simp [Scopes.pending]⟩
  | @inner l outer scope scopes hhere hholds haround =>
    have hl : l.here = .var name initializer := (Stmt.Within.inner hhere hholds haround).here_eq rfl
    obtain ⟨scope', heq, hlookup⟩ := Scopes.declare_cons scope scopes name
    rw [heq]
    refine ⟨.cons (fun x => ?_) haround, fun x => ?_⟩
    -- A name that is declared earlier keeps its entry, and so is ready though it is declared again.
    · rw [Scope.declares_iff, hlookup, Layer.Declares, hl]
      rcases hholds x with ⟨hscope, hearlier⟩ | ⟨hscope, hearlier⟩
      · simp [hscope, hearlier]
      · by_cases hx : x = name.lexeme
        · subst hx
          simp [hscope, Stmt.Declares, Stmt.declared?]
        · simp [hx, Ne.symm hx, hscope, hearlier, Stmt.Declares, Stmt.declared?]
    · simp only [Scopes.pending, List.head?_cons, Option.any_some, Scope.pending_iff, hlookup,
        Option.mem_some_iff, exists_eq_left', Layer.Initializes, hl, Stmt.variable?]
      by_cases hx : x = name.lexeme
      · rcases hholds x with ⟨hscope, hearlier⟩ | ⟨hscope, hearlier⟩ <;>
          simp [← hx, hscope, hearlier]
      · simp [hx, Ne.symm hx, hholds.lookup_ne_some_false]

/-- The body of a function sees the function's `name`. -/
lemma Stmt.Within.sees_body {name : Token} {parameters : List Token} {body : List Stmt}
    (h : (Stmt.function name parameters body).Within layers scopes) :
    Around layers (scopes.bind name) := by
  cases h with
  | globals => exact .nil
  | @inner l outer scope scopes hhere hholds haround =>
    have hl : l.here = .function name parameters body :=
      (Stmt.Within.inner hhere hholds haround).here_eq rfl
    obtain ⟨scope', heq, hbound⟩ := hholds.bind scopes name
    rw [heq]
    refine .cons (fun x => ?_) haround
    simp [hbound.declares_iff, Layer.Declares, hl, Stmt.Declares, Stmt.declared?]

/-! ## Findings -/

section

variable (h : Sees layers scopes)

include h

lemma Sees.findings_occurrence (o : Occurrence) :
    o.findings scopes = Place.findings ⟨.access o, layers⟩ := by
  rw [Occurrence.findings, Place.findings]
  congr 1
  · simp only [Place.violation?, h.pending]
    split <;> rfl
  · simp only [Scopes.locate, Place.entry?, Place.access?, h.around.depth?, Option.bind_some]
    cases distance? layers o.name.lexeme <;> rfl

lemma Sees.findings_expr (e : Expr) :
    e.findings scopes = (e.places layers).flatMap Place.findings := by
  rw [e.findings_eq_flatMap, Expr.places, List.flatMap_map]
  exact congrArg e.occurrences.flatMap (funext h.findings_occurrence)

lemma Sees.findings_optional (e : Option Expr) :
    Expr.optionalFindings scopes e = (Expr.optionalPlaces layers e).flatMap Place.findings := by
  cases e with
  | none => rfl
  | some e => exact h.findings_expr e

end

lemma findings_declareAll (layers : List Layer) (names earlier : List Token) {scope : Scope}
    (outer : Scopes) (h : scope.Holds (· ∈ earlier.map Token.lexeme)) :
    (Scopes.declareAll (scope :: outer) names).2 =
      (parameterPlaces layers earlier names).flatMap Place.findings := by
  induction names generalizing earlier scope with
  | nil => rfl
  | cons name rest ih =>
    obtain ⟨scope', heq, hbound⟩ := h.bind outer name
    have hrest := ih (earlier ++ [name]) (hbound.congr fun x => by simp [eq_comm])
    have hname : (Scopes.declare (scope :: outer) name).2 =
        Place.findings ⟨.parameter earlier name, layers⟩ := by
      rw [h.declare_snd]
      simp only [Place.findings, Place.violation?, Place.entry?, Place.access?]
      split <;> rfl
    rw [parameterPlaces, List.flatMap_cons, ← hname, ← hrest, ← heq]
    rfl

lemma findings_ret {inFunction : Bool} (keyword : Token)
    (hin : inFunction = true ↔ ∃ l ∈ layers, l.origin.IsFunction) :
    (if inFunction then [] else [Finding.fault ⟨.returnOutsideFunction, keyword⟩]) =
      Place.findings ⟨.ret keyword, layers⟩ := by
  simp only [Place.findings, Place.violation?, Place.entry?, Place.access?, hin]
  split <;> rfl

mutual

/-- What the resolver finds in a statement is what the `places` of the statement give. -/
lemma Stmt.findings_resolve (inFunction : Bool) (s : Stmt) {layers : List Layer} {scopes : Scopes}
    (hs : s.Shaped) (h : s.Within layers scopes)
    (hin : inFunction = true ↔ ∃ l ∈ layers, l.origin.IsFunction) :
    (s.resolve inFunction scopes).2 = (s.places layers).flatMap Place.findings := by
  cases s with
  | expression e | print e => exact (h.sees rfl).findings_expr e
  | var name initializer =>
    rw [Stmt.places, List.flatMap_cons, ← h.findings_declare,
      ← h.sees_initializer.findings_optional]
    rfl
  | block body =>
    refine Stmt.findings_resolveAll inFunction (.block body) [] body rfl hs ?_
      (h.sees rfl).around ?_
    · exact fun x => Or.inr ⟨rfl, by simp [Origin.DeclaresBy, Origin.parameters]⟩
    · simpa [Origin.IsFunction] using hin
  | branch condition thenBranch elseBranch =>
    rw [Stmt.Shaped] at hs
    simp only [Stmt.resolve, Stmt.places, List.flatMap_append]
    rw [(h.sees rfl).findings_expr,
      Stmt.findings_resolve inFunction thenBranch hs.2.1 (h.part rfl hs.1) hin,
      Stmt.resolve_fst inFunction thenBranch scopes hs.2.1, Stmt.after_of_declared?_eq_none hs.1,
      Stmt.findings_resolveOptional inFunction elseBranch hs.2.2 (fun t ht => h.part rfl ht) hin]
  | loop condition body =>
    rw [Stmt.Shaped] at hs
    simp only [Stmt.resolve, Stmt.places, List.flatMap_append]
    rw [(h.sees rfl).findings_expr,
      Stmt.findings_resolve inFunction body hs.2 (h.part rfl hs.1) hin]
  | function name parameters body =>
    rw [Stmt.Shaped] at hs
    obtain ⟨scope, heq, hscope⟩ :=
      Function.holds_declareAll ⟨name, parameters, body⟩ (scopes.bind name)
    -- First comes the name, then the parameters, then the body with the parameters declared.
    have hbody := Stmt.findings_resolveAll true (.function ⟨name, parameters, body⟩) [] body rfl hs
      hscope h.sees_body (by simp [Origin.IsFunction])
    have hempty : Scope.Holds [] (· ∈ ([] : List Token).map Token.lexeme) :=
      fun x => Or.inr ⟨rfl, by simp⟩
    have hparameters := findings_declareAll layers parameters [] (scopes.bind name) hempty
    rw [Stmt.places, List.flatMap_cons, List.flatMap_append, ← h.findings_declare, ← hparameters,
      ← hbody, ← heq, ← List.append_assoc]
    rfl
  | ret keyword value =>
    rw [Stmt.places, List.flatMap_cons, ← findings_ret keyword hin,
      ← (h.sees rfl).findings_optional]
    rfl

lemma Stmt.findings_resolveAll (inFunction : Bool) (o : Origin) (before rest : List Stmt)
    (hbody : o.body = before ++ rest) {outer : List Layer} {scope : Scope} {scopes : Scopes}
    (hs : Stmt.AllShaped rest) (hscope : scope.Holds (o.DeclaresBy before))
    (houter : Around outer scopes)
    (hin : inFunction = true ↔ o.IsFunction ∨ ∃ l ∈ outer, l.origin.IsFunction) :
    (Stmt.resolveAll inFunction rest (scope :: scopes)).2 =
      (Stmt.bodyPlaces outer o before rest hbody).flatMap Place.findings := by
  cases rest with
  | nil => rfl
  | cons s rest =>
    rw [Stmt.AllShaped] at hs
    -- `s` is the statement of the scope that its own places lie in, and one of the earlier ones for
    -- the places after it.
    have hfirst := Stmt.findings_resolve inFunction s hs.1
      (.inner (l := ⟨o, before, s, rest, hbody⟩) (Or.inl rfl) hscope houter) (by simpa using hin)
    obtain ⟨scope', heq, hscope'⟩ := hscope.after scopes s
    have hrest := Stmt.findings_resolveAll inFunction o (before ++ [s]) rest
      (by rw [hbody, List.append_assoc]; rfl) hs.2 hscope' houter hin
    simp only [Stmt.resolveAll]
    rw [Stmt.resolve_fst _ s _ hs.1, heq, hfirst, hrest, Stmt.bodyPlaces, List.flatMap_append]

lemma Stmt.findings_resolveOptional (inFunction : Bool) (s : Option Stmt) {layers : List Layer}
    {scopes : Scopes} (hs : Stmt.OptionalShaped s)
    (h : ∀ t : Stmt, t.declared? = none → t.Within layers scopes)
    (hin : inFunction = true ↔ ∃ l ∈ layers, l.origin.IsFunction) :
    (Stmt.resolveOptional inFunction s scopes).2 =
      (Stmt.optionalPlaces layers s).flatMap Place.findings := by
  cases s with
  | none => rfl
  | some s =>
    rw [Stmt.OptionalShaped] at hs
    exact Stmt.findings_resolve inFunction s hs.2 (h s hs.1) hin

end

/-- What the resolver finds in a program, its `programFindings`, is what the `programPlaces` give,
one after the other. -/
lemma programFindings_eq_flatMap {statements : List Stmt} (h : Stmt.AllShaped statements) :
    programFindings statements = (programPlaces statements).flatMap Place.findings := by
  rw [programFindings, programPlaces]
  induction statements with
  | nil => rfl
  | cons s rest ih =>
    have hfirst := Stmt.findings_resolve false s h.1 .globals (by simp)
    simp only [Stmt.resolveAll, List.flatMap_cons, List.flatMap_append]
    rw [hfirst, Stmt.resolve_fst false s [] h.1, s.after_nil_scopes, ih h.2]

lemma Place.filterMap_fault? (p : Place) :
    p.findings.filterMap Finding.fault? = p.violation?.toList := by
  rw [Place.findings, List.filterMap_append]
  cases p.violation? <;> cases p.entry? <;> rfl

lemma Place.filterMap_entry? (p : Place) :
    p.findings.filterMap Finding.entry? = p.entry?.toList := by
  rw [Place.findings, List.filterMap_append]
  cases p.violation? <;> cases p.entry? <;> rfl

section

variable {statements : List Stmt} (h : Stmt.AllShaped statements)

include h

lemma bindingErrors_eq_filterMap :
    bindingErrors (programFindings statements) =
      (programPlaces statements).filterMap Place.violation? := by
  rw [bindingErrors, programFindings_eq_flatMap h, List.filterMap_flatMap,
    List.filterMap_eq_flatMap_toList]
  simp only [Place.filterMap_fault?]

lemma entries_eq_filterMap :
    (programFindings statements).filterMap Finding.entry? =
      (programPlaces statements).filterMap Place.entry? := by
  rw [programFindings_eq_flatMap h, List.filterMap_flatMap, List.filterMap_eq_flatMap_toList]
  simp only [Place.filterMap_entry?]

end

/-! ## Occurrences and places -/

lemma Expr.occurrences_places (layers : List Layer) (e : Expr) :
    (e.places layers).filterMap Place.occurrence? = e.occurrences := by
  rw [Expr.places, List.filterMap_map]
  exact List.filterMap_some

lemma Expr.occurrences_optionalPlaces (layers : List Layer) (e : Option Expr) :
    (Expr.optionalPlaces layers e).filterMap Place.occurrence? = e.elim [] Expr.occurrences := by
  cases e with
  | none => rfl
  | some e => exact e.occurrences_places layers

lemma occurrences_parameterPlaces (layers : List Layer) (earlier names : List Token) :
    (parameterPlaces layers earlier names).filterMap Place.occurrence? = [] := by
  induction names generalizing earlier with
  | nil => rfl
  | cons name rest ih => exact ih _

mutual

lemma Stmt.occurrences_places (layers : List Layer) (s : Stmt) :
    (s.places layers).filterMap Place.occurrence? = s.occurrences := by
  cases s with
  | expression e | print e => exact e.occurrences_places layers
  | var name initializer => exact Expr.occurrences_optionalPlaces layers initializer
  | block body => exact Stmt.occurrences_bodyPlaces layers _ [] body rfl
  | branch condition thenBranch elseBranch =>
    rw [Stmt.places, List.filterMap_append, List.filterMap_append, condition.occurrences_places,
      Stmt.occurrences_places layers thenBranch, Stmt.occurrences_optionalPlaces layers elseBranch,
      Stmt.occurrences]
  | loop condition body =>
    rw [Stmt.places, List.filterMap_append, condition.occurrences_places,
      Stmt.occurrences_places layers body, Stmt.occurrences]
  | function name parameters body =>
    have hbody :=
      Stmt.occurrences_bodyPlaces layers (.function ⟨name, parameters, body⟩) [] body rfl
    rw [Stmt.places, List.filterMap_cons_none rfl, List.filterMap_append,
      occurrences_parameterPlaces, hbody, List.nil_append, Stmt.occurrences]
  | ret keyword value => exact Expr.occurrences_optionalPlaces layers value

lemma Stmt.occurrences_bodyPlaces (outer : List Layer) (o : Origin) (before rest : List Stmt)
    (hbody : o.body = before ++ rest) :
    (Stmt.bodyPlaces outer o before rest hbody).filterMap Place.occurrence? =
      Stmt.allOccurrences rest := by
  cases rest with
  | nil => rfl
  | cons s rest =>
    rw [Stmt.bodyPlaces, List.filterMap_append, Stmt.occurrences_places _ s,
      Stmt.occurrences_bodyPlaces outer o _ rest, Stmt.allOccurrences]

lemma Stmt.occurrences_optionalPlaces (layers : List Layer) (s : Option Stmt) :
    (Stmt.optionalPlaces layers s).filterMap Place.occurrence? = Stmt.optionalOccurrences s := by
  cases s with
  | none => rfl
  | some s => exact Stmt.occurrences_places layers s

end

/-- The places that are occurrences are all the occurrences of a program. -/
lemma occurrences_programPlaces (statements : List Stmt) :
    (programPlaces statements).filterMap Place.occurrence? = Stmt.allOccurrences statements := by
  rw [programPlaces]
  induction statements with
  | nil => rfl
  | cons s rest ih =>
    rw [List.flatMap_cons, List.filterMap_append, s.occurrences_places, ih, Stmt.allOccurrences]

end LoxLang
