import LoxLang.Proofs.Tree.Shape

/-!
# Well-formed trees

What the grammar promises of a tree, wherever in the tree one looks: operators that are known, no
declaration directly in a branch or in a loop, and, if the tree is limited, at most 255 arguments
for a call and 255 parameters for a function.
-/

namespace LoxLang

/-- The operators in front of an operand. -/
def unaryOperators : List Kind := [.bang, .minus]

/-- The operators that always take both their operands. -/
def strictOperators : List Kind :=
  [.plus, .minus, .star, .slash, .greater, .greaterEqual, .less, .lessEqual,
    .equalEqual, .bangEqual]

/-- The operators that take their right operand only when needed. -/
def logicalOperators : List Kind := [.andWord, .orWord]

inductive Expr.WellFormed (limited : Prop) : Expr → Prop where
  | literal (value : Constant) : WellFormed limited (.literal value)
  | grouping {inner : Expr} : WellFormed limited inner → WellFormed limited (.grouping inner)
  | unary {operator : Token} {right : Expr} :
      operator.kind ∈ unaryOperators → WellFormed limited right →
      WellFormed limited (.unary operator right)
  | binary {left : Expr} {operator : Token} {right : Expr} :
      operator.kind ∈ strictOperators → WellFormed limited left → WellFormed limited right →
      WellFormed limited (.binary left operator right)
  | logical {left : Expr} {operator : Token} {right : Expr} :
      operator.kind ∈ logicalOperators → WellFormed limited left → WellFormed limited right →
      WellFormed limited (.logical left operator right)
  | read (id : NodeId) (name : Token) : WellFormed limited (.read id name)
  | assign (id : NodeId) (name : Token) {value : Expr} :
      WellFormed limited value → WellFormed limited (.assign id name value)
  | call {callee : Expr} (paren : Token) {arguments : List Expr} :
      WellFormed limited callee → (∀ e ∈ arguments, WellFormed limited e) →
      (limited → arguments.length ≤ 255) →
      WellFormed limited (.call callee paren arguments)

inductive Stmt.WellFormed (limited : Prop) : Stmt → Prop where
  | expression {e : Expr} : e.WellFormed limited → WellFormed limited (.expression e)
  | print {e : Expr} : e.WellFormed limited → WellFormed limited (.print e)
  | var (name : Token) {initializer : Option Expr} :
      (∀ e ∈ initializer, e.WellFormed limited) → WellFormed limited (.var name initializer)
  | block {body : List Stmt} : (∀ s ∈ body, WellFormed limited s) → WellFormed limited (.block body)
  | branch {condition : Expr} {thenBranch : Stmt} {elseBranch : Option Stmt} :
      condition.WellFormed limited → thenBranch.declared? = none → WellFormed limited thenBranch →
      (∀ s ∈ elseBranch, s.declared? = none) → (∀ s ∈ elseBranch, WellFormed limited s) →
      WellFormed limited (.branch condition thenBranch elseBranch)
  | loop {condition : Expr} {body : Stmt} :
      condition.WellFormed limited → body.declared? = none → WellFormed limited body →
      WellFormed limited (.loop condition body)
  | function (name : Token) {parameters : List Token} {body : List Stmt} :
      (limited → parameters.length ≤ 255) → (∀ s ∈ body, WellFormed limited s) →
      WellFormed limited (.function name parameters body)
  | ret (keyword : Token) {value : Option Expr} :
      (∀ e ∈ value, e.WellFormed limited) → WellFormed limited (.ret keyword value)

section

variable {limited limited' : Prop}

/-- A tree may be taken as one with fewer limits: `limited'` implies `limited`. -/
lemma Expr.WellFormed.mono {e : Expr} (h : e.WellFormed limited) (himp : limited' → limited) :
    e.WellFormed limited' := by
  induction h with
  | literal value => exact .literal value
  | grouping _ ih => exact .grouping ih
  | unary hoperator _ ih => exact .unary hoperator ih
  | binary hoperator _ _ ihleft ihright => exact .binary hoperator ihleft ihright
  | logical hoperator _ _ ihleft ihright => exact .logical hoperator ihleft ihright
  | read id name => exact .read id name
  | assign id name _ ih => exact .assign id name ih
  | call paren _ _ hlength ihcallee iharguments =>
    exact .call paren ihcallee iharguments fun h => hlength (himp h)

lemma Stmt.WellFormed.mono {s : Stmt} (h : s.WellFormed limited) (himp : limited' → limited) :
    s.WellFormed limited' := by
  have hoptional : ∀ {o : Option Expr}, (∀ e ∈ o, e.WellFormed limited) →
      ∀ e ∈ o, e.WellFormed limited' :=
    fun ho e he => (ho e he).mono himp
  induction h with
  | expression he => exact .expression (he.mono himp)
  | print he => exact .print (he.mono himp)
  | var name hinitializer => exact .var name (hoptional hinitializer)
  | block _ ih => exact .block ih
  | branch hcondition hthen _ helse _ ihthen ihelse =>
    exact .branch (hcondition.mono himp) hthen ihthen helse ihelse
  | loop hcondition hbody _ ih => exact .loop (hcondition.mono himp) hbody ih
  | function name hlength _ ih => exact .function name (fun h => hlength (himp h)) ih
  | ret keyword hvalue => exact .ret keyword (hoptional hvalue)

lemma Stmt.WellFormed.shaped {s : Stmt} (h : s.WellFormed limited) : s.Shaped := by
  induction h with
  | expression | print | var | ret => trivial
  | block _ ih | function _ _ _ ih =>
    rw [Stmt.Shaped, Stmt.allShaped_iff]
    exact ih
  | @branch condition thenBranch elseBranch _ hthen _ helse _ ihthen ihelse =>
    rw [Stmt.Shaped]
    refine ⟨hthen, ihthen, ?_⟩
    cases elseBranch with
    | none => trivial
    | some s => exact ⟨helse s rfl, ihelse s rfl⟩
  | loop _ hbody _ ih =>
    rw [Stmt.Shaped]
    exact ⟨hbody, ih⟩

end

end LoxLang
