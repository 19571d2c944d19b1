import LoxLang.Grammar.Program
import LoxLang.Proofs.Tree.WellFormed

/-!
# The shape of what is read

Whatever tokens are read, and whatever errors are found on the way, the trees that are kept have
every property that goes over from the parts of a form to the form.  In particular they are well
formed, only without limits on the number of arguments and parameters: too many of them are noted,
but stay in the tree.  Where a branch or a body is read, only a statement can come of it, so no
declaration stands directly in a branch or in a loop.
-/

namespace LoxLang.Grammar

open Reader

/-! ## Properties of trees -/

/-- A property of trees, `E` of expressions and `S` of statements, that goes over from the parts of
a form to the form, given that its tokens are of the kinds that the grammar asks for.  Of calls and
functions nothing is said, for the property may bound their lists. -/
structure Composed (E : Expr → Prop) (S : Stmt → Prop) : Prop where
  literal (value : Constant) : E (.literal value)
  grouping {inner : Expr} : E inner → E (.grouping inner)
  unary {operator : Token} {right : Expr} : operator.kind ∈ unaryOperators → E right →
    E (.unary operator right)
  binary {left right : Expr} {operator : Token} :
    operator.kind ∈ strictOperators → E left → E right → E (.binary left operator right)
  logical {left right : Expr} {operator : Token} :
    operator.kind ∈ logicalOperators → E left → E right → E (.logical left operator right)
  read (id : NodeId) {name : Token} : name.kind = .identifier → E (.read id name)
  /-- The name of an assignment was first read as a variable. -/
  assign (id : NodeId) {old : NodeId} {name : Token} {value : Expr} : E (.read old name) → E value →
    E (.assign id name value)
  expression {e : Expr} : E e → S (.expression e)
  print {e : Expr} : E e → S (.print e)
  var {name : Token} {initializer : Option Expr} :
    name.kind = .identifier → (∀ e ∈ initializer, E e) → S (.var name initializer)
  block {body : List Stmt} : (∀ s ∈ body, S s) → S (.block body)
  branch {condition : Expr} {thenBranch : Stmt} {elseBranch : Option Stmt} :
    E condition → thenBranch.declared? = none → S thenBranch →
    (∀ s ∈ elseBranch, s.declared? = none) →
      (∀ s ∈ elseBranch, S s) → S (.branch condition thenBranch elseBranch)
  loop {condition : Expr} {body : Stmt} : E condition → body.declared? = none → S body →
    S (.loop condition body)
  ret {keyword : Token} {value : Option Expr} : keyword.kind = .returnWord → (∀ e ∈ value, E e) →
    S (.ret keyword value)

/-- A property that is `Composed` and goes over to calls and functions too, however long their lists
are. -/
structure ComposedFreely (E : Expr → Prop) (S : Stmt → Prop) : Prop extends Composed E S where
  call {callee : Expr} {paren : Token} {arguments : List Expr} :
    paren.kind = .rightParen → E callee → (∀ e ∈ arguments, E e) → E (.call callee paren arguments)
  function {name : Token} {parameters : List Token} {body : List Stmt} :
    name.kind = .identifier → (∀ p ∈ parameters, p.kind = .identifier) → (∀ s ∈ body, S s) →
      S (.function name parameters body)

lemma wellFormed_composed (limited : Prop) :
    Composed (Expr.WellFormed limited) (Stmt.WellFormed limited) where
  literal := .literal
  grouping := .grouping
  unary := .unary
  binary := .binary
  logical := .logical
  read id name _ := .read id name
  assign id _ name _ _ hvalue := .assign id name hvalue
  expression := .expression
  print := .print
  var _ hinitializer := .var _ hinitializer
  block := .block
  branch := .branch
  loop := .loop
  ret _ hvalue := .ret _ hvalue

lemma wellFormed_composedFreely :
    ComposedFreely (Expr.WellFormed False) (Stmt.WellFormed False) where
  toComposed := wellFormed_composed False
  call _ hcallee harguments := .call _ hcallee harguments False.elim
  function _ _ hbody := .function _ False.elim hbody

section

variable {E : Expr → Prop} {S : Stmt → Prop} (h : Composed E S)

include h

/-- The property goes over to `Level.node`, the tree of a level's operator. -/
lemma Composed.node {level : Level} {left right : Expr} {operator : Token}
    (hoperator : level.has operator.kind = true) (hleft : E left) (hright : E right) :
    E (level.node left operator right) := by
  have hkind : ∀ k, level.has k = true →
      k ∈ (if level = .disjunction ∨ level = .conjunction then logicalOperators
        else strictOperators) := by
    cases level <;> intro k <;> cases k <;> decide
  have hmem := hkind _ hoperator
  cases level with
  | disjunction | conjunction => exact h.logical hmem hleft hright
  | equality | comparison | term | factor => exact h.binary hmem hleft hright

/-- The property goes over to `forLoop`, the loop that a `for` statement stands for, and this is no
declaration. -/
lemma Composed.forLoop {first : Option Stmt} {condition increment : Option Expr} {body : Stmt}
    (hfirst : ∀ s ∈ first, S s) (hcondition : ∀ e ∈ condition, E e)
    (hincrement : ∀ e ∈ increment, E e) (hbody : S body) (hplain : body.declared? = none) :
    S (forLoop first condition increment body) ∧
      (forLoop first condition increment body).declared? = none := by
  have hround : S (increment.elim body fun e => .block [body, .expression e]) ∧
      (increment.elim body fun e => Stmt.block [body, .expression e]).declared? = none := by
    cases increment with
    | none => exact ⟨hbody, hplain⟩
    | some e =>
      refine ⟨h.block (List.forall_mem_cons.mpr ⟨hbody, List.forall_mem_singleton.mpr ?_⟩), rfl⟩
      exact h.expression (hincrement e rfl)
  -- A loop without a condition has the literal true for it.
  have hlasting : E (condition.getD (.literal (.bool true))) := by
    cases condition with
    | none => exact h.literal _
    | some e => exact hcondition e rfl
  have hloop := h.loop hlasting hround.2 hround.1
  unfold Grammar.forLoop
  cases first with
  | none => exact ⟨hloop, rfl⟩
  | some s =>
    exact ⟨h.block (List.forall_mem_cons.mpr ⟨hfirst s rfl, List.forall_mem_singleton.mpr hloop⟩),
      rfl⟩

end

/-! ## Readers -/

/-- All that the reader `r` gives has the property `P`. -/
def Gives {α : Type} (r : Reader α) (P : α → Prop) : Prop := ∀ c v d, r c = .ok v d → P v

namespace Gives

variable {α β : Type} {r : Reader α} {P : α → Prop} {Q : β → Prop}

lemma pure {v : α} (h : P v) : Gives (Pure.pure v) P := by
  rintro c w d ⟨⟩
  exact h

lemma exhausted : Gives (Reader.exhausted : Reader α) P := by
  intro c v d h
  exact absurd h (by simp [Reader.exhausted])

/-- One reader after another. -/
lemma bind {f : α → Reader β} (h : Gives r P) (hf : ∀ v, P v → Gives (f v) Q) :
    Gives (r >>= f) Q := by
  intro c w d hw
  change Reader.bind r f c = .ok w d at hw
  rw [Reader.bind] at hw
  cases hr : r c with
  | ok v c' =>
    rw [hr] at hw
    exact hf v (h c v c' hr) c' w d hw
  | fail e c' =>
    rw [hr] at hw
    exact absurd hw (by simp)
  | exhausted =>
    rw [hr] at hw
    exact absurd hw (by simp)

/-- One reader after another, whatever the first one gives. -/
lemma after {f : α → Reader β} (hf : ∀ v, Gives (f v) Q) : Gives (r >>= f) Q :=
  bind (P := fun _ => True) (fun _ _ _ _ => trivial) fun v _ => hf v

lemma map {f : α → β} (h : Gives r P) (hf : ∀ v, P v → Q (f v)) : Gives (f <$> r) Q :=
  bind h fun v hv => pure (hf v hv)

end Gives

/-! ## Primitive readers -/

lemma acceptIf_gives (kinds : Kind → Bool) :
    Gives (acceptIf kinds) fun t => ∀ u ∈ t, kinds u.kind = true := by
  intro c t d h u hu
  unfold acceptIf at h
  split at h
  · obtain ⟨rfl, -⟩ : none = t ∧ c = d := by simpa using h
    exact absurd hu (by simp)
  · split_ifs at h with hkind
    · obtain ⟨rfl, -⟩ := Reply.ok.inj h
      obtain rfl := Option.some.inj hu
      exact hkind
    · obtain ⟨rfl, -⟩ := Reply.ok.inj h
      exact absurd hu (by simp)

lemma expect_gives (kind : Kind) (fault : GrammarFault) :
    Gives (expect kind fault) fun t => t.kind = kind := by
  intro c t d h
  unfold expect at h
  split at h
  · exact absurd h (by simp)
  · split_ifs at h with hkind
    · obtain ⟨rfl, -⟩ := Reply.ok.inj h
      exact hkind

section

variable {α : Type} {r : Reader α} {P : α → Prop}

lemma unlessSees_gives (h : Gives r P) (kind : Kind) :
    Gives (unlessSees kind r) fun v => ∀ w ∈ v, P w := by
  refine .after fun seen => ?_
  split
  · exact .pure (by simp)
  · exact .map h fun v hv => by simpa using hv

lemma commaSeparated_gives (h : Gives r P) (tooMany : GrammarFault) (steps count : ℕ) :
    Gives (commaSeparated tooMany r steps count) fun vs => ∀ v ∈ vs, P v := by
  induction steps generalizing count with
  | zero => exact .exhausted
  | succ steps ih =>
    unfold commaSeparated
    split_ifs
    on_goal 1 => refine .after fun _ => ?_
    all_goals
      refine .bind h fun v hv => .after fun comma => ?_
      cases comma with
      | none => exact .pure (by simpa using hv)
      | some _ =>
        exact .bind (ih (count + 1)) fun vs hvs => .pure (List.forall_mem_cons.mpr ⟨hv, hvs⟩)

lemma listed_gives (h : Gives r P) (tooMany : GrammarFault) (steps : ℕ) :
    Gives (listed tooMany r steps) fun vs => ∀ v ∈ vs, P v := by
  refine .bind (unlessSees_gives (commaSeparated_gives h tooMany steps 0) _) fun vs hvs => .pure ?_
  cases vs with
  | none => simp
  | some vs => exact hvs vs rfl

end

/-! ## Expressions -/

namespace ComposedFreely

variable {E : Expr → Prop} {S : Stmt → Prop}

section

variable {inner operand : Reader Expr} (h : ComposedFreely E S)

include h

lemma operators (level : Level) (hoperand : Gives operand E) (steps : ℕ) {left : Expr}
    (hleft : E left) : Gives (operators level operand steps left) E := by
  induction steps generalizing left with
  | zero => exact .exhausted
  | succ steps ih =>
    refine .bind (acceptIf_gives level.has) fun operator hoperator => ?_
    cases operator with
    | none => exact .pure hleft
    | some operator =>
      exact .bind hoperand fun right hright => ih (h.node (hoperator operator rfl) hleft hright)

lemma binaryLevels (hoperand : Gives operand E) (steps : ℕ) (levels : List Level) :
    Gives (binary steps operand levels) E := by
  induction levels with
  | nil => exact hoperand
  | cons level tighter ih => exact .bind ih fun left hleft => h.operators level ih steps hleft

lemma primary (hinner : Gives inner E) : Gives (primary inner) E := by
  refine .after fun t => ?_
  cases t with
  | none => exact fun c v d hr => absurd hr (by simp [Reader.fail])
  | some t =>
    dsimp only
    split
    · exact .pure (h.literal _)
    · exact .pure (h.literal _)
    · exact .pure (h.literal _)
    · rename_i hkind
      exact .after fun id => .pure (h.read id hkind)
    · exact .bind hinner fun e he => .after fun _ => .pure (h.grouping he)
    · exact .pure (h.literal _)

lemma calls (hinner : Gives inner E) (steps : ℕ) {callee : Expr} (hcallee : E callee) :
    Gives (calls inner steps callee) E := by
  induction steps generalizing callee with
  | zero => exact .exhausted
  | succ steps ih =>
    refine .after fun paren => ?_
    cases paren with
    | none => exact .pure hcallee
    | some _ =>
      refine .bind (listed_gives hinner _ steps) fun arguments harguments => ?_
      exact .bind (expect_gives _ _) fun paren hparen => ih (h.call hparen hcallee harguments)

lemma signs (hoperand : Gives operand E) (steps : ℕ) : Gives (Grammar.unary operand steps) E := by
  induction steps with
  | zero => exact .exhausted
  | succ steps ih =>
    refine .bind (acceptIf_gives isUnaryOperator) fun operator hoperator => ?_
    cases operator with
    | none => exact hoperand
    | some operator =>
      refine .bind ih fun right hright => .pure (h.unary ?_ hright)
      have hkind := hoperator operator rfl
      revert hkind
      cases operator.kind <;> decide

lemma assignment {target value : Expr} (htarget : E target) (hvalue : E value) (found : Cursor) :
    Gives (assignment target found value) E := by
  unfold Grammar.assignment
  split
  · exact .after fun id => .pure (h.assign id htarget hvalue)
  · exact .after fun _ => .pure htarget

lemma expressionWith (hinner : Gives inner E) (steps : ℕ) :
    Gives (expressionWith inner steps) E := by
  have hcall : Gives (Grammar.call inner steps) E :=
    .bind (h.primary hinner) fun callee hcallee => h.calls hinner steps hcallee
  refine .bind (h.binaryLevels (h.signs hcall steps) steps Level.all) fun target htarget =>
    .after fun found => ?_
  refine .after fun equal => ?_
  cases equal with
  | none => exact .pure htarget
  | some _ => exact .bind hinner fun value hvalue => h.assignment htarget hvalue found

/-- Expressions have the property `E`, in whatever number of steps they are read. -/
lemma expressions (steps : ℕ) : Gives (expression steps) E := by
  induction steps with
  | zero => exact .exhausted
  | succ steps ih => exact h.expressionWith ih steps

end

end ComposedFreely

/-! ## Statements -/

/-- A statement with the property `S` that is no declaration. -/
def Plain (S : Stmt → Prop) (s : Stmt) : Prop := S s ∧ s.declared? = none

/-- What is `kept` of a declaration, if anything, has the property `S`. -/
def Kept (S : Stmt → Prop) (kept : Option Stmt) : Prop := ∀ s ∈ kept, S s

section

variable {S : Stmt → Prop} {stmt : Reader Stmt} {decl : Reader (Option Stmt)}

lemma Kept.append {first : Option Stmt} {rest : List Stmt} (hfirst : Kept S first)
    (hrest : ∀ s ∈ rest, S s) : ∀ s ∈ first.toList ++ rest, S s := by
  refine List.forall_mem_append.mpr ⟨fun s hs => ?_, hrest⟩
  exact hfirst s (by simpa using hs)

lemma declarations_gives (hdecl : Gives decl (Kept S)) (steps : ℕ) :
    Gives (declarations decl steps) fun body => ∀ s ∈ body, S s := by
  induction steps with
  | zero => exact .exhausted
  | succ steps ih =>
    refine .after fun _ => .after fun _ => ?_
    split
    · exact .pure (by simp)
    · exact .bind hdecl fun first hfirst => .bind ih fun rest hrest => .pure (hfirst.append hrest)

lemma program_gives (hdecl : Gives decl (Kept S)) (steps : ℕ) :
    Gives (program decl steps) fun body => ∀ s ∈ body, S s := by
  induction steps with
  | zero => exact .exhausted
  | succ steps ih =>
    refine .after fun _ => ?_
    split
    · exact .pure (by simp)
    · exact .bind hdecl fun first hfirst => .bind ih fun rest hrest => .pure (hfirst.append hrest)

lemma block_gives (hdecl : Gives decl (Kept S)) (steps : ℕ) :
    Gives (block decl steps) fun body => ∀ s ∈ body, S s :=
  .bind (declarations_gives hdecl steps) fun _ hbody => .after fun _ => .pure hbody

lemma recovering_gives (hstmt : Gives stmt S) : Gives (recovering stmt) (Kept S) := by
  intro c kept d hkept s hs
  unfold recovering at hkept
  cases hr : stmt c with
  | ok t c' =>
    obtain ⟨rfl, -⟩ : some t = kept ∧ c' = d := by simpa [hr] using hkept
    obtain rfl := Option.some.inj hs
    exact hstmt c t c' hr
  | fail e c' =>
    obtain ⟨rfl, -⟩ : none = kept ∧ (c'.record e).synchronize = d := by simpa [hr] using hkept
    exact absurd hs (by simp)
  | exhausted => exact absurd hkept (by simp [hr])

end

namespace ComposedFreely

variable {E : Expr → Prop} {S : Stmt → Prop} {expr : Reader Expr} {stmt : Reader Stmt}
  {decl : Reader (Option Stmt)}

section

variable (h : ComposedFreely E S)

include h

lemma functionDeclaration (hdecl : Gives decl (Kept S)) (steps : ℕ) :
    Gives (functionDeclaration decl steps) S := by
  refine .bind (expect_gives _ _) fun name hname => .after fun _ => ?_
  refine .bind (listed_gives (expect_gives _ _) _ steps) fun parameters hparameters =>
    .after fun _ => .after fun _ => ?_
  exact .bind (block_gives hdecl steps) fun body hbody => .pure (h.function hname hparameters hbody)

lemma expressionStatement (hexpr : Gives expr E) : Gives (expressionStatement expr) (Plain S) :=
  .bind hexpr fun _ he => .after fun _ => .pure ⟨h.expression he, rfl⟩

lemma printStatement (hexpr : Gives expr E) : Gives (printStatement expr) (Plain S) :=
  .bind hexpr fun _ he => .after fun _ => .pure ⟨h.print he, rfl⟩

lemma returnStatement (hexpr : Gives expr E) {keyword : Token}
    (hkeyword : keyword.kind = .returnWord) : Gives (returnStatement expr keyword) (Plain S) :=
  .bind (unlessSees_gives hexpr _) fun _ hvalue => .after fun _ =>
    .pure ⟨h.ret hkeyword hvalue, rfl⟩

lemma variableDeclaration (hexpr : Gives expr E) : Gives (variableDeclaration expr) S := by
  refine .bind (expect_gives _ _) fun name hname => .after fun equal => ?_
  have hnone : Gives (Pure.pure none : Reader (Option Expr)) fun value => ∀ e ∈ value, E e :=
    .pure (by simp)
  have hsome : Gives (some <$> expr) fun value => ∀ e ∈ value, E e := .map hexpr fun e he => by
    simpa using he
  cases equal with
  | none => exact .bind hnone fun _ hinitializer => .after fun _ => .pure (h.var hname hinitializer)
  | some _ =>
    exact .bind hsome fun _ hinitializer => .after fun _ => .pure (h.var hname hinitializer)

lemma ifStatement (hexpr : Gives expr E) (hstmt : Gives stmt (Plain S)) :
    Gives (ifStatement expr stmt) (Plain S) := by
  refine .after fun _ => .bind hexpr fun condition hcondition => .after fun _ => ?_
  refine .bind hstmt fun thenBranch hthen => .after fun word => ?_
  cases word with
  | none => exact .pure ⟨h.branch hcondition hthen.2 hthen.1 (by simp) (by simp), rfl⟩
  | some _ =>
    refine .bind hstmt fun elseBranch helse =>
      .pure ⟨h.branch hcondition hthen.2 hthen.1 ?_ ?_, rfl⟩
    · simpa using helse.2
    · simpa using helse.1

lemma whileStatement (hexpr : Gives expr E) (hstmt : Gives stmt (Plain S)) :
    Gives (whileStatement expr stmt) (Plain S) := by
  refine .after fun _ => .bind hexpr fun condition hcondition => .after fun _ =>
    .bind hstmt fun body hbody => ?_
  exact .pure ⟨h.loop hcondition hbody.2 hbody.1, rfl⟩

lemma forInitializer (hexpr : Gives expr E) : Gives (forInitializer expr) (Kept S) := by
  refine .after fun semicolon => ?_
  cases semicolon with
  | some _ => exact .pure (by simp [Kept])
  | none =>
    refine .after fun word => ?_
    cases word with
    | some _ => exact .map (h.variableDeclaration hexpr) fun s hs => by simpa [Kept] using hs
    | none => exact .map (h.expressionStatement hexpr) fun s hs => by simpa [Kept] using hs.1

lemma forStatement (hexpr : Gives expr E) (hstmt : Gives stmt (Plain S)) :
    Gives (forStatement expr stmt) (Plain S) := by
  refine .after fun _ => .bind (h.forInitializer hexpr) fun first hfirst => ?_
  refine .bind (unlessSees_gives hexpr _) fun condition hcondition => .after fun _ => ?_
  refine .bind (unlessSees_gives hexpr _) fun increment hincrement => .after fun _ =>
    .bind hstmt fun body hbody => .pure ?_
  exact h.forLoop hfirst hcondition hincrement hbody.1 hbody.2

lemma statementWith (hexpr : Gives expr E) (hstmt : Gives stmt (Plain S))
    (hdecl : Gives decl (Kept S)) (steps : ℕ) :
    Gives (statementWith expr stmt decl steps) (Plain S) := by
  refine .after fun word => ?_
  cases word with
  | none => exact h.expressionStatement hexpr
  | some t =>
    dsimp only
    split
    · exact h.forStatement hexpr hstmt
    · exact h.ifStatement hexpr hstmt
    · exact h.printStatement hexpr
    · rename_i hkind
      exact h.returnStatement hexpr hkind
    · exact h.whileStatement hexpr hstmt
    · exact .map (block_gives hdecl steps) fun body hbody => ⟨h.block hbody, rfl⟩

lemma declarationWith (hexpr : Gives expr E) (hstmt : Gives stmt (Plain S))
    (hdecl : Gives decl (Kept S)) (steps : ℕ) : Gives (declarationWith expr stmt decl steps) S := by
  refine .after fun word => ?_
  cases word with
  | none => exact fun c s d hs => (h.statementWith hexpr hstmt hdecl steps c s d hs).1
  | some t =>
    dsimp only
    split
    · exact h.functionDeclaration hdecl steps
    · exact h.variableDeclaration hexpr

/-- Statements are `Plain` and declarations `Kept`, in whatever number of steps they are read. -/
lemma statements_declarations (steps : ℕ) :
    Gives (statement steps) (Plain S) ∧ Gives (declaration steps) (Kept S) := by
  induction steps with
  | zero => exact ⟨.exhausted, .exhausted⟩
  | succ steps ih =>
    obtain ⟨hstmt, hdecl⟩ := ih
    have hexpr := h.expressions steps
    exact ⟨h.statementWith hexpr hstmt hdecl steps,
      recovering_gives (h.declarationWith hexpr hstmt hdecl steps)⟩

/-- Whatever `tokens` are read as a program, its statements have the property `S`. -/
lemma parseProgram (tokens : List Token) (nextId : NodeId) :
    ∀ s ∈ (parseProgram tokens nextId).statements, S s := by
  have hprogram := program_gives (h.statements_declarations (stepsFor tokens)).2 (stepsFor tokens)
  unfold Grammar.parseProgram
  dsimp only
  cases hr : program (declaration (stepsFor tokens)) (stepsFor tokens) (.start tokens nextId) with
  | ok statements d => exact hprogram _ _ _ hr
  | fail e d => simp
  | exhausted => simp

/-- Whatever `tokens` are read as one expression, it has the property `E`. -/
lemma parseExpression {tokens : List Token} {nextId : NodeId} {e : Expr}
    (he : (parseExpression tokens nextId).result = .ok e) : E e := by
  have hwhole : Gives (wholeExpression (Grammar.expression (stepsFor tokens))) E := by
    refine .bind (h.expressions (stepsFor tokens)) fun e he => .after fun done => ?_
    split
    · exact .pure he
    · exact fun c v d hr => absurd hr (by simp [Reader.fail])
  unfold Grammar.parseExpression at he
  cases hr : wholeExpression (Grammar.expression (stepsFor tokens)) (.start tokens nextId) with
  | ok e' d =>
    rw [hr] at he
    dsimp only at he
    split_ifs at he
    obtain rfl := Except.ok.inj he
    exact hwhole _ _ _ hr
  | fail e' d =>
    rw [hr] at he
    exact absurd he (by simp)
  | exhausted =>
    rw [hr] at he
    exact absurd he (by simp)

end

end ComposedFreely

/-- Whatever `tokens` are read as a program, its statements are `WellFormed`, without limits on
their lists. -/
theorem parseProgram_gives (tokens : List Token) (nextId : NodeId) :
    ∀ s ∈ (parseProgram tokens nextId).statements, s.WellFormed False :=
  wellFormed_composedFreely.parseProgram tokens nextId

/-- Whatever `tokens` are read as a program, its statements are `AllShaped`: they have the shape of
programs. -/
theorem shaped_parseProgram (tokens : List Token) (nextId : NodeId) :
    Stmt.AllShaped (parseProgram tokens nextId).statements := by
  rw [Stmt.allShaped_iff]
  exact fun s hs => (parseProgram_gives tokens nextId s hs).shaped

end LoxLang.Grammar
