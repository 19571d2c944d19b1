import LoxLang.Proofs.Tree.Matching
import LoxLang.Proofs.Tree.WellFormed

/-!
# Spelled trees

What a tree is made of, wherever in the tree one looks: its constants have one property and its
tokens another, and each token is of a kind that fits its place.  Only literals stand for constants,
and only the tokens that a form keeps are spoken of.
-/

namespace LoxLang

/-! ## Constants of a tree -/

mutual

def Expr.constants : Expr → List Constant
  | .literal value => [value]
  | .grouping inner => inner.constants
  | .unary _ right => right.constants
  | .binary left _ right => left.constants ++ right.constants
  | .logical left _ right => left.constants ++ right.constants
  | .read _ _ => []
  | .assign _ _ value => value.constants
  | .call callee _ arguments => callee.constants ++ Expr.allConstants arguments

def Expr.allConstants : List Expr → List Constant
  | [] => []
  | e :: rest => e.constants ++ Expr.allConstants rest

end

mutual

def Stmt.constants : Stmt → List Constant
  | .expression e => e.constants
  | .print e => e.constants
  | .var _ initializer => initializer.elim [] Expr.constants
  | .block body => Stmt.allConstants body
  | .branch condition thenBranch elseBranch =>
    condition.constants ++ thenBranch.constants ++ Stmt.optionalConstants elseBranch
  | .loop condition body => condition.constants ++ body.constants
  | .function _ _ body => Stmt.allConstants body
  | .ret _ value => value.elim [] Expr.constants

def Stmt.allConstants : List Stmt → List Constant
  | [] => []
  | s :: rest => s.constants ++ Stmt.allConstants rest

def Stmt.optionalConstants : Option Stmt → List Constant
  | none => []
  | some s => s.constants

end

lemma Expr.allConstants_eq_flatMap (es : List Expr) :
    Expr.allConstants es = es.flatMap Expr.constants := by
  induction es with
  | nil => rfl
  | cons e rest ih => rw [Expr.allConstants, ih, List.flatMap_cons]

lemma Stmt.allConstants_eq_flatMap (ss : List Stmt) :
    Stmt.allConstants ss = ss.flatMap Stmt.constants := by
  induction ss with
  | nil => rfl
  | cons s rest ih => rw [Stmt.allConstants, ih, List.flatMap_cons]

/-! ## What a tree is made of -/

inductive Expr.Spelled (K : Constant → Prop) (T : Token → Prop) : Expr → Prop where
  | literal {value : Constant} : K value → Spelled K T (.literal value)
  | grouping {inner : Expr} : Spelled K T inner → Spelled K T (.grouping inner)
  | unary {operator : Token} {right : Expr} :
      T operator → operator.kind ∈ unaryOperators → Spelled K T right →
      Spelled K T (.unary operator right)
  | binary {left : Expr} {operator : Token} {right : Expr} :
      T operator → operator.kind ∈ strictOperators → Spelled K T left → Spelled K T right →
      Spelled K T (.binary left operator right)
  | logical {left : Expr} {operator : Token} {right : Expr} :
      T operator → operator.kind ∈ logicalOperators → Spelled K T left → Spelled K T right →
      Spelled K T (.logical left operator right)
  | read {id : NodeId} {name : Token} :
      T name → name.kind = .identifier → Spelled K T (.read id name)
  | assign {id : NodeId} {name : Token} {value : Expr} :
      T name → name.kind = .identifier → Spelled K T value → Spelled K T (.assign id name value)
  | call {callee : Expr} {paren : Token} {arguments : List Expr} :
      Spelled K T callee → T paren → paren.kind = .rightParen → (∀ e ∈ arguments, Spelled K T e) →
      Spelled K T (.call callee paren arguments)

inductive Stmt.Spelled (K : Constant → Prop) (T : Token → Prop) : Stmt → Prop where
  | expression {e : Expr} : e.Spelled K T → Spelled K T (.expression e)
  | print {e : Expr} : e.Spelled K T → Spelled K T (.print e)
  | var {name : Token} {initializer : Option Expr} :
      T name → name.kind = .identifier → (∀ e ∈ initializer, e.Spelled K T) →
      Spelled K T (.var name initializer)
  | block {body : List Stmt} : (∀ s ∈ body, Spelled K T s) → Spelled K T (.block body)
  | branch {condition : Expr} {thenBranch : Stmt} {elseBranch : Option Stmt} :
      condition.Spelled K T → Spelled K T thenBranch → (∀ s ∈ elseBranch, Spelled K T s) →
      Spelled K T (.branch condition thenBranch elseBranch)
  | loop {condition : Expr} {body : Stmt} :
      condition.Spelled K T → Spelled K T body → Spelled K T (.loop condition body)
  | function {name : Token} {parameters : List Token} {body : List Stmt} :
      T name → name.kind = .identifier → (∀ p ∈ parameters, T p ∧ p.kind = .identifier) →
      (∀ s ∈ body, Spelled K T s) →
      Spelled K T (.function name parameters body)
  | ret {keyword : Token} {value : Option Expr} :
      T keyword → keyword.kind = .returnWord → (∀ e ∈ value, e.Spelled K T) →
      Spelled K T (.ret keyword value)

variable {K K' : Constant → Prop} {T T' : Token → Prop} {ids : NodeId → NodeId → Prop}

/-! ## Other tokens -/

/-- A token is itself, and if it is not the end of input it has the property `T`. -/
def Token.Keeps (T : Token → Prop) (t t' : Token) : Prop := t = t' ∧ (t.kind ≠ .eof → T t)

lemma Token.Keeps.of_mem {t t' : Token} {kinds : List Kind} (h : t.Keeps T t')
    (hkind : t.kind ∈ kinds) (hkinds : .eof ∉ kinds) : T t :=
  h.2 fun heof => hkinds (heof ▸ hkind)

lemma Token.Keeps.of_kind {t t' : Token} {kind : Kind} (h : t.Keeps T t') (hkind : t.kind = kind)
    (hother : kind ≠ .eof) : T t :=
  h.2 fun heof => hother (hkind.symm.trans heof)

lemma forall_of_optionRel_self {α : Type} {R : α → α → Prop} {o : Option α} (h : Option.Rel R o o) :
    ∀ v ∈ o, R v v := by
  rintro v rfl
  cases h with
  | some hv => exact hv

/-- A tree that matches itself only by tokens with the property `T'` has only such tokens. -/
lemma Expr.Spelled.of_matches {e : Expr} (h : e.Spelled K T)
    (hm : e.Matches ids (Token.Keeps T') e) : e.Spelled K T' := by
  induction h with
  | literal hvalue => exact .literal hvalue
  | grouping _ ih =>
    cases hm with
    | grouping hinner => exact .grouping (ih hinner)
  | unary _ hkind _ ih =>
    cases hm with
    -- No token of a tree is an end of input, so all of them have `T'`.
    | unary hoperator hright => exact .unary (hoperator.of_mem hkind (by decide)) hkind (ih hright)
  | binary _ hkind _ _ ihleft ihright =>
    cases hm with
    | binary hleft hoperator hright =>
      exact .binary (hoperator.of_mem hkind (by decide)) hkind (ihleft hleft) (ihright hright)
  | logical _ hkind _ _ ihleft ihright =>
    cases hm with
    | logical hleft hoperator hright =>
      exact .logical (hoperator.of_mem hkind (by decide)) hkind (ihleft hleft) (ihright hright)
  | read _ hkind =>
    cases hm with
    | read _ hname => exact .read (hname.of_kind hkind (by decide)) hkind
  | assign _ hkind _ ih =>
    cases hm with
    | assign _ hname hvalue => exact .assign (hname.of_kind hkind (by decide)) hkind (ih hvalue)
  | call _ _ hkind _ ihcallee iharguments =>
    cases hm with
    | call hcallee hparen harguments =>
      exact .call (ihcallee hcallee) (hparen.of_kind hkind (by decide)) hkind fun e he =>
        iharguments e he (List.forall₂_same.mp harguments e he)

lemma Stmt.Spelled.of_matches {s : Stmt} (h : s.Spelled K T)
    (hm : s.Matches ids (Token.Keeps T') s) : s.Spelled K T' := by
  induction h with
  | expression he =>
    cases hm with
    | expression hme => exact .expression (he.of_matches hme)
  | print he =>
    cases hm with
    | print hme => exact .print (he.of_matches hme)
  | var _ hkind hinitializer =>
    cases hm with
    | var hname hme =>
      exact .var (hname.of_kind hkind (by decide)) hkind fun e he =>
        (hinitializer e he).of_matches (forall_of_optionRel_self hme e he)
  | block _ ih =>
    cases hm with
    | block hbody => exact .block fun s hs => ih s hs (List.forall₂_same.mp hbody s hs)
  | branch hcondition _ _ ihthen ihelse =>
    cases hm with
    | branch hme hthen helse =>
      exact .branch (hcondition.of_matches hme) (ihthen hthen) fun s hs =>
        ihelse s hs (forall_of_optionRel_self helse s hs)
  | loop hcondition _ ih =>
    cases hm with
    | loop hme hbody => exact .loop (hcondition.of_matches hme) (ih hbody)
  | function _ hkind hparameters _ ih =>
    cases hm with
    | function hname hmp hbody =>
      refine .function (hname.of_kind hkind (by decide)) hkind (fun p hp => ?_) fun s hs =>
        ih s hs (List.forall₂_same.mp hbody s hs)
      have hkind := (hparameters p hp).2
      exact ⟨(List.forall₂_same.mp hmp p hp).of_kind hkind (by decide), hkind⟩
  | ret _ hkind hvalue =>
    cases hm with
    | ret hkeyword hme =>
      exact .ret (hkeyword.of_kind hkind (by decide)) hkind fun e he =>
        (hvalue e he).of_matches (forall_of_optionRel_self hme e he)

/-! ## Other constants -/

lemma Expr.Spelled.of_constants {e : Expr} (h : e.Spelled K T) (hc : ∀ c ∈ e.constants, K' c) :
    e.Spelled K' T := by
  induction h with
  | literal _ => exact .literal (hc _ List.mem_cons_self)
  | grouping _ ih => exact .grouping (ih hc)
  | unary hoperator hkind _ ih => exact .unary hoperator hkind (ih hc)
  | binary hoperator hkind _ _ ihleft ihright =>
    obtain ⟨hleft, hright⟩ := List.forall_mem_append.mp hc
    exact .binary hoperator hkind (ihleft hleft) (ihright hright)
  | logical hoperator hkind _ _ ihleft ihright =>
    obtain ⟨hleft, hright⟩ := List.forall_mem_append.mp hc
    exact .logical hoperator hkind (ihleft hleft) (ihright hright)
  | read hname hkind => exact .read hname hkind
  | assign hname hkind _ ih => exact .assign hname hkind (ih hc)
  | call _ hparen hkind _ ihcallee iharguments =>
    obtain ⟨hcallee, harguments⟩ := List.forall_mem_append.mp hc
    rw [Expr.allConstants_eq_flatMap, List.forall_mem_flatMap] at harguments
    exact .call (ihcallee hcallee) hparen hkind fun e he => iharguments e he (harguments e he)

lemma Stmt.Spelled.of_constants {s : Stmt} (h : s.Spelled K T) (hc : ∀ c ∈ s.constants, K' c) :
    s.Spelled K' T := by
  have hoptional : ∀ {o : Option Expr}, (∀ e ∈ o, e.Spelled K T) →
      (∀ c ∈ o.elim [] Expr.constants, K' c) →
      ∀ e ∈ o, e.Spelled K' T := by
    rintro o ho hc e rfl
    exact (ho e rfl).of_constants hc
  induction h with
  | expression he => exact .expression (he.of_constants hc)
  | print he => exact .print (he.of_constants hc)
  | var hname hkind hinitializer => exact .var hname hkind (hoptional hinitializer hc)
  | block _ ih =>
    rw [Stmt.constants, Stmt.allConstants_eq_flatMap, List.forall_mem_flatMap] at hc
    exact .block fun s hs => ih s hs (hc s hs)
  | branch hcondition _ _ ihthen ihelse =>
    obtain ⟨hfirst, helse⟩ := List.forall_mem_append.mp hc
    obtain ⟨hcond, hthen⟩ := List.forall_mem_append.mp hfirst
    refine .branch (hcondition.of_constants hcond) (ihthen hthen) ?_
    rintro s rfl
    exact ihelse s rfl helse
  | loop hcondition _ ih =>
    obtain ⟨hcond, hbody⟩ := List.forall_mem_append.mp hc
    exact .loop (hcondition.of_constants hcond) (ih hbody)
  | function hname hkind hparameters _ ih =>
    rw [Stmt.constants, Stmt.allConstants_eq_flatMap, List.forall_mem_flatMap] at hc
    exact .function hname hkind hparameters fun s hs => ih s hs (hc s hs)
  | ret hkeyword hkind hvalue => exact .ret hkeyword hkind (hoptional hvalue hc)

end LoxLang
