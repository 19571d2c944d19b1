import LoxLang.Proofs.Tree.Matching
import LoxLang.Scope.Depths

/-!
# Trees with local variables renamed

A local scope is marked if its variable `x` is to be called `y`.  Then the declaration of `x` in the
scope gets the new name, and so does every read of `x` and every assignment to it that the depth
table binds to the scope; all other names are kept.  Which scopes are marked is given by a list, the
innermost open scope first.  The globals are never marked, and a function that is declared in a
marked scope must not be called `x` itself, for its name is printed.
-/

namespace LoxLang

/-- What becomes of a name that lives in a scope, by whether the scope is marked. -/
inductive Becomes (x y : String) : Bool → String → String → Prop where
  | kept (z : String) : Becomes x y false z z
  | renamed : Becomes x y true x y
  | other {z : String} : z ≠ x → z ≠ y → Becomes x y true z z

/-- What becomes of a token that is a name: only its `lexeme` may change. -/
structure Token.Renamed (x y : String) (mark : Bool) (t t' : Token) : Prop where
  lexeme : Becomes x y mark t.lexeme t'.lexeme
  rest : t' = { t with lexeme := t'.lexeme }

/-- Whether the table `depths` binds a node to a scope that is marked in `marks`. -/
def Depths.mark (depths : Depths) (marks : List Bool) (id : NodeId) : Bool :=
  (depths.get? id).any fun d => marks.getD d false

/-- An expression with the names of the nodes that `mark` picks renamed. -/
inductive Expr.Renamed (x y : String) (mark : NodeId → Bool) : Expr → Expr → Prop where
  | literal (value : Constant) : Renamed x y mark (.literal value) (.literal value)
  | grouping {inner inner' : Expr} :
      Renamed x y mark inner inner' → Renamed x y mark (.grouping inner) (.grouping inner')
  | unary (operator : Token) {right right' : Expr} :
      Renamed x y mark right right' →
      Renamed x y mark (.unary operator right) (.unary operator right')
  | binary {left left' right right' : Expr} (operator : Token) :
      Renamed x y mark left left' → Renamed x y mark right right' →
      Renamed x y mark (.binary left operator right) (.binary left' operator right')
  | logical {left left' right right' : Expr} (operator : Token) :
      Renamed x y mark left left' → Renamed x y mark right right' →
      Renamed x y mark (.logical left operator right) (.logical left' operator right')
  | read {id : NodeId} {name name' : Token} :
      name.Renamed x y (mark id) name' → Renamed x y mark (.read id name) (.read id name')
  | assign {id : NodeId} {name name' : Token} {value value' : Expr} :
      name.Renamed x y (mark id) name' → Renamed x y mark value value' →
      Renamed x y mark (.assign id name value) (.assign id name' value')
  | call {callee callee' : Expr} (paren : Token) {arguments arguments' : List Expr} :
      Renamed x y mark callee callee' → List.Forall₂ (Renamed x y mark) arguments arguments' →
      Renamed x y mark (.call callee paren arguments) (.call callee' paren arguments')

mutual

/-- A statement with the variable `x` of the marked scopes renamed to `y`.  Of the scopes that are
opened inside the statement any may be marked. -/
inductive Stmt.Renamed (x y : String) (depths : Depths) : List Bool → Stmt → Stmt → Prop where
  | expression {marks : List Bool} {e e' : Expr} :
      e.Renamed x y (depths.mark marks) e' →
      Stmt.Renamed x y depths marks (.expression e) (.expression e')
  | print {marks : List Bool} {e e' : Expr} :
      e.Renamed x y (depths.mark marks) e' → Stmt.Renamed x y depths marks (.print e) (.print e')
  | var {marks : List Bool} {name name' : Token} {initializer initializer' : Option Expr} :
      name.Renamed x y (marks.headD false) name' →
      Option.Rel (Expr.Renamed x y (depths.mark marks)) initializer initializer' →
      Stmt.Renamed x y depths marks (.var name initializer) (.var name' initializer')
  | block {marks : List Bool} (mark : Bool) {body body' : List Stmt} :
      Stmt.AllRenamed x y depths (mark :: marks) body body' →
      Stmt.Renamed x y depths marks (.block body) (.block body')
  | branch {marks : List Bool} {condition condition' : Expr} {thenBranch thenBranch' : Stmt}
      {elseBranch elseBranch' : Option Stmt} :
      condition.Renamed x y (depths.mark marks) condition' →
      Stmt.Renamed x y depths marks thenBranch thenBranch' →
      Stmt.OptionalRenamed x y depths marks elseBranch elseBranch' →
      Stmt.Renamed x y depths marks (.branch condition thenBranch elseBranch)
        (.branch condition' thenBranch' elseBranch')
  | loop {marks : List Bool} {condition condition' : Expr} {body body' : Stmt} :
      condition.Renamed x y (depths.mark marks) condition' →
      Stmt.Renamed x y depths marks body body' →
      Stmt.Renamed x y depths marks (.loop condition body) (.loop condition' body')
  | function {marks : List Bool} (mark : Bool) {name : Token} {parameters parameters' : List Token}
      {body body' : List Stmt} :
      Becomes x y (marks.headD false) name.lexeme name.lexeme →
      List.Forall₂ (Token.Renamed x y mark) parameters parameters' →
      Stmt.AllRenamed x y depths (mark :: marks) body body' →
      Stmt.Renamed x y depths marks (.function name parameters body)
        (.function name parameters' body')
  | ret {marks : List Bool} (keyword : Token) {value value' : Option Expr} :
      Option.Rel (Expr.Renamed x y (depths.mark marks)) value value' →
      Stmt.Renamed x y depths marks (.ret keyword value) (.ret keyword value')

/-- Statements of one scope, one after another. -/
inductive Stmt.AllRenamed (x y : String) (depths : Depths) :
    List Bool → List Stmt → List Stmt → Prop where
  | nil {marks : List Bool} : Stmt.AllRenamed x y depths marks [] []
  | cons {marks : List Bool} {s s' : Stmt} {ss ss' : List Stmt} :
      Stmt.Renamed x y depths marks s s' → Stmt.AllRenamed x y depths marks ss ss' →
      Stmt.AllRenamed x y depths marks (s :: ss) (s' :: ss')

inductive Stmt.OptionalRenamed (x y : String) (depths : Depths) :
    List Bool → Option Stmt → Option Stmt → Prop where
  | none {marks : List Bool} : Stmt.OptionalRenamed x y depths marks none none
  | some {marks : List Bool} {s s' : Stmt} :
      Stmt.Renamed x y depths marks s s' → Stmt.OptionalRenamed x y depths marks (some s) (some s')

end

variable {x y z z' w w' : String} {mark mark' : Bool} {t t' : Token}

namespace Becomes

/-- Inside a scope, names stay apart. -/
lemma eq_iff (hz : Becomes x y mark z z') (hw : Becomes x y mark w w') : z' = w' ↔ z = w := by
  cases hz with
  | kept => cases hw with
    | kept => rfl
  | renamed => cases hw with
    | renamed => simp
    | other hx hy => exact ⟨fun h => absurd h.symm hy, fun h => absurd h.symm hx⟩
  | other hx hy => cases hw with
    | renamed => exact ⟨fun h => absurd h hy, fun h => absurd h hx⟩
    | other _ _ => rfl

/-- The new name is not taken for that of another scope, if that name `y` is not used. -/
lemma eq_of_eq (hz : Becomes x y mark z z') (hw : Becomes x y mark' w w') (hzy : z ≠ y)
    (hwy : w ≠ y) (h : z' = w') : z = w := by
  cases hz with
  | kept | other _ _ => cases hw with
    | kept | other _ _ => exact h
    | renamed => exact absurd h hzy
  | renamed => cases hw with
    | kept | other _ _ => exact absurd h.symm hwy
    | renamed => rfl

end Becomes

lemma Token.Renamed.refl (hmark : mark = false) (t : Token) : t.Renamed x y mark t :=
  ⟨hmark ▸ .kept _, rfl⟩

/-! ## Without marks -/

mutual

lemma Expr.Renamed.refl {mark : NodeId → Bool} (hmark : ∀ id, mark id = false) (e : Expr) :
    e.Renamed x y mark e := by
  cases e with
  | literal value => exact .literal value
  | grouping inner => exact .grouping (Expr.Renamed.refl hmark inner)
  | unary operator right => exact .unary operator (Expr.Renamed.refl hmark right)
  | binary left operator right =>
    exact .binary operator (Expr.Renamed.refl hmark left) (Expr.Renamed.refl hmark right)
  | logical left operator right =>
    exact .logical operator (Expr.Renamed.refl hmark left) (Expr.Renamed.refl hmark right)
  | read id name => exact .read (.refl (hmark id) name)
  | assign id name value => exact .assign (.refl (hmark id) name) (Expr.Renamed.refl hmark value)
  | call callee paren arguments =>
    exact .call paren (Expr.Renamed.refl hmark callee) (Expr.Renamed.refl_all hmark arguments)

lemma Expr.Renamed.refl_all {mark : NodeId → Bool} (hmark : ∀ id, mark id = false)
    (es : List Expr) : List.Forall₂ (Expr.Renamed x y mark) es es := by
  cases es with
  | nil => exact .nil
  | cons e rest => exact .cons (Expr.Renamed.refl hmark e) (Expr.Renamed.refl_all hmark rest)

end

lemma Expr.Renamed.refl_optional {mark : NodeId → Bool} (hmark : ∀ id, mark id = false)
    (e : Option Expr) : Option.Rel (Expr.Renamed x y mark) e e := by
  cases e with
  | none => exact .none
  | some e => exact .some (Expr.Renamed.refl hmark e)

/-- No scope is marked. -/
def Unmarked (marks : List Bool) : Prop := ∀ mark ∈ marks, mark = false

namespace Unmarked

variable {marks : List Bool}

lemma getD (h : Unmarked marks) (d : ℕ) : marks.getD d false = false := by
  rw [List.getD_eq_getElem?_getD]
  cases hd : marks[d]? with
  | none => rfl
  | some mark => exact h mark (List.mem_of_getElem? hd)

lemma headD (h : Unmarked marks) : marks.headD false = false := by
  cases marks with
  | nil => rfl
  | cons mark _ => exact h mark List.mem_cons_self

lemma mark_eq (h : Unmarked marks) (depths : Depths) (id : NodeId) :
    depths.mark marks id = false := by
  rw [Depths.mark]
  cases depths.get? id with
  | none => rfl
  | some d => exact h.getD d

lemma inner (h : Unmarked marks) : Unmarked (false :: marks) := List.forall_mem_cons.mpr ⟨rfl, h⟩

end Unmarked

section

variable {depths : Depths}

mutual

/-- If the scopes are `Unmarked`, all names are kept. -/
lemma Stmt.Renamed.refl {marks : List Bool} (h : Unmarked marks) (s : Stmt) :
    s.Renamed x y depths marks s := by
  have hexpr := Expr.Renamed.refl (x := x) (y := y) (h.mark_eq depths)
  have hoptional := Expr.Renamed.refl_optional (x := x) (y := y) (h.mark_eq depths)
  cases s with
  | expression e => exact .expression (hexpr e)
  | print e => exact .print (hexpr e)
  | var name initializer => exact .var (.refl h.headD name) (hoptional initializer)
  | block body => exact .block false (Stmt.AllRenamed.refl h.inner body)
  | branch condition thenBranch elseBranch =>
    exact .branch (hexpr condition) (Stmt.Renamed.refl h thenBranch)
      (Stmt.OptionalRenamed.refl h elseBranch)
  | loop condition body => exact .loop (hexpr condition) (Stmt.Renamed.refl h body)
  | function name parameters body =>
    have hname : name.Renamed x y (marks.headD false) name := .refl h.headD name
    exact .function false hname.lexeme (List.forall₂_same.mpr fun t _ => .refl rfl t)
      (Stmt.AllRenamed.refl h.inner body)
  | ret keyword value => exact .ret keyword (hoptional value)

lemma Stmt.AllRenamed.refl {marks : List Bool} (h : Unmarked marks) (ss : List Stmt) :
    Stmt.AllRenamed x y depths marks ss ss := by
  cases ss with
  | nil => exact .nil
  | cons s rest => exact .cons (Stmt.Renamed.refl h s) (Stmt.AllRenamed.refl h rest)

lemma Stmt.OptionalRenamed.refl {marks : List Bool} (h : Unmarked marks) (s : Option Stmt) :
    Stmt.OptionalRenamed x y depths marks s s := by
  cases s with
  | none => exact .none
  | some s => exact .some (Stmt.Renamed.refl h s)

end

end

end LoxLang
