import LoxLang.Grammar.Program
import LoxLang.Proofs.Tree.Matching

/-!
# Relations between readers

Readers are built from a few primitive ones by doing one after another, and declarations also by
recovering from a failure.  A relation between readers in which the primitive ones stand, and which
these ways of building keep, holds between every reader of the grammar and itself, also if the
second one is given more steps.  The trees that the two give then match.
-/

namespace LoxLang.Grammar

open Reader

/-- Kinds of the tokens that expressions are made of. -/
def inExpression (k : Kind) : Bool :=
  startsPrimary k || isUnaryOperator k || Level.all.any (·.has k) || k = .rightParen ||
    k = .comma || k = .equal

/-- A relation `P` between readers, given how what they give is related, that holds of the primitive
ones and is kept by doing one after another.  Only tokens of the given `kinds` have to be read
alike. `tokens` and `ids` relate what is read, and `places` the cursors that errors are referred
to. -/
structure Reader.Closed (kinds : Kind → Bool) (tokens : Token → Token → Prop)
    (ids : NodeId → NodeId → Prop) (places : Cursor → Cursor → Prop)
    (P : ∀ {α β : Type}, (α → β → Prop) → Reader α → Reader β → Prop) : Prop where
  kind_eq {t t' : Token} : tokens t t' → t.kind = t'.kind
  literal_eq {t t' : Token} : tokens t t' → t.literal = t'.literal
  pure {α β : Type} {V : α → β → Prop} {v : α} {v' : β} : V v v' →
    P V (Reader.pure v) (Reader.pure v')
  bind {α β γ δ : Type} {V : α → β → Prop} {W : γ → δ → Prop} {r : Reader α} {r' : Reader β}
    {f : α → Reader γ} {f' : β → Reader δ} : P V r r' → (∀ v v', V v v' → P W (f v) (f' v')) →
    P W (r >>= f) (r' >>= f')
  /-- A reader without steps stands in the relation to all others. -/
  exhausted {α β : Type} {V : α → β → Prop} {r' : Reader β} : P V (Reader.exhausted : Reader α) r'
  fail {α β : Type} {V : α → β → Prop} {fault : GrammarFault} :
    fault.noted = false → P V (Reader.fail fault : Reader α) (Reader.fail fault : Reader β)
  note {fault : GrammarFault} : fault.noted = true → P Eq (Reader.note fault) (Reader.note fault)
  noteAt {found found' : Cursor} {fault : GrammarFault} :
    fault.noted = true → places found found' →
    P Eq (Reader.noteAt found fault) (Reader.noteAt found' fault)
  here : P places Reader.here Reader.here
  sees (kind : Kind) : P Eq (Reader.sees kind) (Reader.sees kind)
  atEnd : P Eq Reader.atEnd Reader.atEnd
  freshId : P ids Reader.freshId Reader.freshId
  acceptIf {set : Kind → Bool} :
    (∀ k, set k = true → kinds k = true) →
    P (Option.Rel tokens) (Reader.acceptIf set) (Reader.acceptIf set)
  expect {kind : Kind} {fault : GrammarFault} : kinds kind = true → fault.noted = false →
    P tokens (Reader.expect kind fault) (Reader.expect kind fault)

/-- A relation between readers that `recovering` from a failure keeps. -/
def Reader.ClosedUnderRecovery
    (P : ∀ {α β : Type}, (α → β → Prop) → Reader α → Reader β → Prop) : Prop :=
  ∀ {V : Stmt → Stmt → Prop} {r r' : Reader Stmt}, P V r r' →
    P (Option.Rel V) (recovering r) (recovering r')

variable {kinds : Kind → Bool} {tokens : Token → Token → Prop} {ids : NodeId → NodeId → Prop}
  {places : Cursor → Cursor → Prop}
  {P : ∀ {α β : Type}, (α → β → Prop) → Reader α → Reader β → Prop}

/-! ## Trees that match -/

lemma Level.matches_node (l : Level) {left left' right right' : Expr} {operator operator' : Token}
    (hleft : left.Matches ids tokens left') (hoperator : tokens operator operator')
    (hright : right.Matches ids tokens right') :
    (l.node left operator right).Matches ids tokens (l.node left' operator' right') := by
  cases l with
  | disjunction | conjunction => exact .logical hleft hoperator hright
  | equality | comparison | term | factor => exact .binary hleft hoperator hright

lemma matches_forLoop {first first' : Option Stmt}
    {condition condition' increment increment' : Option Expr} {body body' : Stmt}
    (hfirst : Option.Rel (Stmt.Matches ids tokens) first first')
    (hcondition : Option.Rel (Expr.Matches ids tokens) condition condition')
    (hincrement : Option.Rel (Expr.Matches ids tokens) increment increment')
    (hbody : body.Matches ids tokens body') :
    (forLoop first condition increment body).Matches ids tokens
      (forLoop first' condition' increment' body') := by
  have hround : (increment.elim body fun e => .block [body, .expression e]).Matches ids tokens
      (increment'.elim body' fun e => .block [body', .expression e]) := by
    cases hincrement with
    | none => exact hbody
    | some he => exact .block (.cons hbody (.cons (.expression he) .nil))
  have htest : (condition.getD (.literal (.bool true))).Matches ids tokens
      (condition'.getD (.literal (.bool true))) := by
    cases hcondition with
    | none => exact .literal _
    | some he => exact he
  cases hfirst with
  | none => exact .loop htest hround
  | some hs => exact .block (.cons hs (.cons (.loop htest hround) .nil))

lemma forall₂_toList {s s' : Option Stmt} (h : Option.Rel (Stmt.Matches ids tokens) s s') :
    List.Forall₂ (Stmt.Matches ids tokens) s.toList s'.toList := by
  cases h with
  | some hs => exact .cons hs .nil
  | none => exact .nil

namespace Reader.Closed

/-! ## Lists -/

section

variable {α β γ δ : Type} {V : α → β → Prop} {W : γ → δ → Prop} {r : Reader α} {s : Reader β}

/-- What is `Closed` for tokens of some `kinds` is so for `fewer`. -/
lemma restrict {fewer : Kind → Bool} (h : Closed kinds tokens ids places P)
    (hfewer : ∀ k, fewer k = true → kinds k = true) : Closed fewer tokens ids places P where
  kind_eq := h.kind_eq
  literal_eq := h.literal_eq
  pure := h.pure
  bind := h.bind
  exhausted := h.exhausted
  fail := h.fail
  note := h.note
  noteAt := h.noteAt
  here := h.here
  sees := h.sees
  atEnd := h.atEnd
  freshId := h.freshId
  acceptIf hset := h.acceptIf fun k hk => hfewer k (hset k hk)
  expect hkind := h.expect (hfewer _ hkind)

lemma map (h : Closed kinds tokens ids places P) {f : α → γ} {f' : β → δ} (hr : P V r s)
    (hf : ∀ v v', V v v' → W (f v) (f' v')) : P W (f <$> r) (f' <$> s) :=
  h.bind hr fun v v' hv => h.pure (hf v v' hv)

lemma accept (h : Closed kinds tokens ids places P) {kind : Kind} (hkind : kinds kind = true) :
    P (Option.Rel tokens) (Reader.accept kind) (Reader.accept kind) := by
  refine h.acceptIf fun k hk => ?_
  rw [of_decide_eq_true hk]
  exact hkind

lemma unlessSees (h : Closed kinds tokens ids places P) (kind : Kind) (hr : P V r s) :
    P (Option.Rel V) (Reader.unlessSees kind r) (Reader.unlessSees kind s) := by
  refine h.bind (h.sees kind) ?_
  rintro b _ rfl
  cases b with
  | true => exact h.pure .none
  | false => exact h.map hr fun _ _ hv => .some hv

lemma commaSeparated (h : Closed kinds tokens ids places P) (hcomma : kinds .comma = true)
    {tooMany : GrammarFault} (htooMany : tooMany.noted = true) (hr : P V r s) {steps steps' : ℕ}
    (hsteps : steps ≤ steps') (count : ℕ) :
    P (List.Forall₂ V) (Reader.commaSeparated tooMany r steps count)
      (Reader.commaSeparated tooMany s steps' count) := by
  induction steps generalizing steps' count with
  | zero => exact h.exhausted
  | succ steps ih =>
    obtain ⟨steps', rfl⟩ : ∃ k, steps' = k + 1 := ⟨steps' - 1, by omega⟩
    unfold Reader.commaSeparated
    split_ifs
    on_goal 1 => refine h.bind (h.note htooMany) fun _ _ _ => ?_
    all_goals
      refine h.bind hr fun v v' hv => h.bind (h.accept hcomma) ?_
      rintro _ _ (_ | _)
      · exact h.bind (ih (by omega) (count + 1)) fun vs vs' hvs => h.pure (.cons hv hvs)
      · exact h.pure (.cons hv .nil)

lemma listed (h : Closed kinds tokens ids places P) (hcomma : kinds .comma = true)
    {tooMany : GrammarFault} (htooMany : tooMany.noted = true) (hr : P V r s) {steps steps' : ℕ}
    (hsteps : steps ≤ steps') :
    P (List.Forall₂ V) (Reader.listed tooMany r steps) (Reader.listed tooMany s steps') := by
  refine h.bind (h.unlessSees .rightParen (h.commaSeparated hcomma htooMany hr hsteps 0)) ?_
  rintro _ _ (hvs | _)
  · exact h.pure hvs
  · exact h.pure .nil

end

/-! ## Expressions -/

section

variable {inner inner' operand operand' : Reader Expr} {steps steps' : ℕ}

lemma operators (h : Closed inExpression tokens ids places P) (level : Level)
    (hoperand : P (Expr.Matches ids tokens) operand operand') (hsteps : steps ≤ steps')
    {left left' : Expr} (hleft : left.Matches ids tokens left') :
    P (Expr.Matches ids tokens) (operators level operand steps left)
      (operators level operand' steps' left') := by
  induction steps generalizing steps' left left' with
  | zero => exact h.exhausted
  | succ steps ih =>
    obtain ⟨steps', rfl⟩ : ∃ k, steps' = k + 1 := ⟨steps' - 1, by omega⟩
    have hset : ∀ k, level.has k = true → inExpression k = true := by
      intro k
      cases level <;> cases k <;> decide
    refine h.bind (h.acceptIf hset) ?_
    rintro _ _ (hoperator | _)
    · exact h.bind hoperand fun right right' hright =>
        ih (by omega) (Level.matches_node level hleft hoperator hright)
    · exact h.pure hleft

lemma binary (h : Closed inExpression tokens ids places P)
    (hoperand : P (Expr.Matches ids tokens) operand operand') (hsteps : steps ≤ steps')
    (levels : List Level) :
    P (Expr.Matches ids tokens) (binary steps operand levels) (binary steps' operand' levels) := by
  induction levels with
  | nil => exact hoperand
  | cons level tighter ih =>
    exact h.bind ih fun left left' hleft => h.operators level ih hsteps hleft

lemma group (h : Closed inExpression tokens ids places P)
    (hinner : P (Expr.Matches ids tokens) inner inner') :
    P (Expr.Matches ids tokens) (group inner) (group inner') :=
  h.bind hinner fun _ _ he => h.bind (h.expect rfl rfl) fun _ _ _ => h.pure (.grouping he)

lemma primary (h : Closed inExpression tokens ids places P)
    (hinner : P (Expr.Matches ids tokens) inner inner') :
    P (Expr.Matches ids tokens) (primary inner) (primary inner') := by
  refine h.bind (h.acceptIf fun k hk => by simp [inExpression, hk]) ?_
  rintro _ _ (@⟨t, t', ht⟩ | _)
  · have hconstant : constantOf t = constantOf t' := by rw [constantOf, constantOf, h.literal_eq ht]
    dsimp only
    rw [h.kind_eq ht, hconstant]
    split
    · exact h.pure (.literal _)
    · exact h.pure (.literal _)
    · exact h.pure (.literal _)
    · exact h.bind h.freshId fun _ _ hid => h.pure (.read hid ht)
    · exact h.group hinner
    · exact h.pure (.literal _)
  · exact h.fail rfl

lemma calls (h : Closed inExpression tokens ids places P)
    (hinner : P (Expr.Matches ids tokens) inner inner') (hsteps : steps ≤ steps')
    {callee callee' : Expr} (hcallee : callee.Matches ids tokens callee') :
    P (Expr.Matches ids tokens) (calls inner steps callee) (calls inner' steps' callee') := by
  induction steps generalizing steps' callee callee' with
  | zero => exact h.exhausted
  | succ steps ih =>
    obtain ⟨steps', rfl⟩ : ∃ k, steps' = k + 1 := ⟨steps' - 1, by omega⟩
    refine h.bind (h.accept rfl) ?_
    rintro _ _ (_ | _)
    · refine h.bind (h.listed rfl rfl hinner (by omega)) fun _ _ harguments => ?_
      exact h.bind (h.expect rfl rfl) fun _ _ hparen =>
        ih (by omega) (.call hcallee hparen harguments)
    · exact h.pure hcallee

lemma unary (h : Closed inExpression tokens ids places P)
    (hoperand : P (Expr.Matches ids tokens) operand operand') (hsteps : steps ≤ steps') :
    P (Expr.Matches ids tokens) (unary operand steps) (unary operand' steps') := by
  induction steps generalizing steps' with
  | zero => exact h.exhausted
  | succ steps ih =>
    obtain ⟨steps', rfl⟩ : ∃ k, steps' = k + 1 := ⟨steps' - 1, by omega⟩
    refine h.bind (h.acceptIf fun k hk => by simp [inExpression, hk]) ?_
    rintro _ _ (hoperator | _)
    · exact h.bind (ih (by omega)) fun _ _ hright => h.pure (.unary hoperator hright)
    · exact hoperand

lemma assignment (h : Closed inExpression tokens ids places P) {target target' value value' : Expr}
    {found found' : Cursor} (htarget : target.Matches ids tokens target')
    (hfound : places found found') (hvalue : value.Matches ids tokens value') :
    P (Expr.Matches ids tokens) (assignment target found value)
      (assignment target' found' value') := by
  have hnoted : P (Expr.Matches ids tokens) (Reader.noteAt found .assignmentTarget >>= fun _ =>
      Pure.pure target) (Reader.noteAt found' .assignmentTarget >>= fun _ => Pure.pure target') :=
    h.bind (h.noteAt rfl hfound) fun _ _ _ => h.pure htarget
  cases htarget with
  | read _ hname => exact h.bind h.freshId fun _ _ hid => h.pure (.assign hid hname hvalue)
  | literal | grouping | unary | binary | logical | assign | call => exact hnoted

lemma expressionWith (h : Closed inExpression tokens ids places P)
    (hinner : P (Expr.Matches ids tokens) inner inner') (hsteps : steps ≤ steps') :
    P (Expr.Matches ids tokens) (expressionWith inner steps) (expressionWith inner' steps') := by
  have hcall : P (Expr.Matches ids tokens) (call inner steps) (call inner' steps') :=
    h.bind (h.primary hinner) fun _ _ hcallee => h.calls hinner hsteps hcallee
  refine h.bind (h.binary (h.unary hcall hsteps) hsteps Level.all) fun target target' htarget => ?_
  refine h.bind h.here fun found found' hfound => h.bind (h.accept rfl) ?_
  rintro _ _ (_ | _)
  · exact h.bind hinner fun _ _ hvalue => h.assignment htarget hfound hvalue
  · exact h.pure htarget

/-- A `Closed` relation holds between the reader of expressions and itself, also with more steps. -/
theorem expression (h : Closed inExpression tokens ids places P) (hsteps : steps ≤ steps') :
    P (Expr.Matches ids tokens) (expression steps) (expression steps') := by
  induction steps generalizing steps' with
  | zero => exact h.exhausted
  | succ steps ih =>
    obtain ⟨steps', rfl⟩ : ∃ k, steps' = k + 1 := ⟨steps' - 1, by omega⟩
    exact h.expressionWith (ih (by omega)) (by omega)

end

/-! ## Statements -/

section

variable {expr expr' : Reader Expr} {stmt stmt' : Reader Stmt} {decl decl' : Reader (Option Stmt)}
  {steps steps' : ℕ} (h : Closed (fun _ => true) tokens ids places P)

include h

lemma expressionStatement (hexpr : P (Expr.Matches ids tokens) expr expr') :
    P (Stmt.Matches ids tokens) (expressionStatement expr) (expressionStatement expr') :=
  h.bind hexpr fun _ _ he => h.bind (h.expect rfl rfl) fun _ _ _ => h.pure (.expression he)

lemma printStatement (hexpr : P (Expr.Matches ids tokens) expr expr') :
    P (Stmt.Matches ids tokens) (printStatement expr) (printStatement expr') :=
  h.bind hexpr fun _ _ he => h.bind (h.expect rfl rfl) fun _ _ _ => h.pure (.print he)

lemma returnStatement (hexpr : P (Expr.Matches ids tokens) expr expr') {keyword keyword' : Token}
    (hkeyword : tokens keyword keyword') :
    P (Stmt.Matches ids tokens) (returnStatement expr keyword) (returnStatement expr' keyword') :=
  h.bind (h.unlessSees _ hexpr) fun _ _ hvalue => h.bind (h.expect rfl rfl) fun _ _ _ =>
    h.pure (.ret hkeyword hvalue)

lemma variableDeclaration (hexpr : P (Expr.Matches ids tokens) expr expr') :
    P (Stmt.Matches ids tokens) (variableDeclaration expr) (variableDeclaration expr') := by
  refine h.bind (h.expect rfl rfl) fun name name' hname => h.bind (h.accept rfl) ?_
  rintro _ _ (_ | _)
  · refine h.bind (h.map hexpr fun _ _ he => Option.Rel.some he) fun _ _ hvalue => ?_
    exact h.bind (h.expect rfl rfl) fun _ _ _ => h.pure (.var hname hvalue)
  · refine h.bind (V := Option.Rel (Expr.Matches ids tokens)) (h.pure .none) fun _ _ hvalue => ?_
    exact h.bind (h.expect rfl rfl) fun _ _ _ => h.pure (.var hname hvalue)

lemma ifStatement (hexpr : P (Expr.Matches ids tokens) expr expr')
    (hstmt : P (Stmt.Matches ids tokens) stmt stmt') :
    P (Stmt.Matches ids tokens) (ifStatement expr stmt) (ifStatement expr' stmt') := by
  refine h.bind (h.expect rfl rfl) fun _ _ _ => h.bind hexpr fun _ _ hcondition => ?_
  refine h.bind (h.expect rfl rfl) fun _ _ _ => h.bind hstmt fun _ _ hthen =>
    h.bind (h.accept rfl) ?_
  rintro _ _ (_ | _)
  · exact h.bind hstmt fun _ _ helse => h.pure (.branch hcondition hthen (.some helse))
  · exact h.pure (.branch hcondition hthen .none)

lemma whileStatement (hexpr : P (Expr.Matches ids tokens) expr expr')
    (hstmt : P (Stmt.Matches ids tokens) stmt stmt') :
    P (Stmt.Matches ids tokens) (whileStatement expr stmt) (whileStatement expr' stmt') := by
  refine h.bind (h.expect rfl rfl) fun _ _ _ => h.bind hexpr fun _ _ hcondition => ?_
  exact h.bind (h.expect rfl rfl) fun _ _ _ => h.bind hstmt fun _ _ hbody =>
    h.pure (.loop hcondition hbody)

lemma forInitializer (hexpr : P (Expr.Matches ids tokens) expr expr') :
    P (Option.Rel (Stmt.Matches ids tokens)) (forInitializer expr) (forInitializer expr') := by
  refine h.bind (h.accept rfl) ?_
  rintro _ _ (_ | _)
  · exact h.pure .none
  · refine h.bind (h.accept rfl) ?_
    rintro _ _ (_ | _)
    · exact h.map (h.variableDeclaration hexpr) fun _ _ hs => .some hs
    · exact h.map (h.expressionStatement hexpr) fun _ _ hs => .some hs

lemma forStatement (hexpr : P (Expr.Matches ids tokens) expr expr')
    (hstmt : P (Stmt.Matches ids tokens) stmt stmt') :
    P (Stmt.Matches ids tokens) (forStatement expr stmt) (forStatement expr' stmt') := by
  refine h.bind (h.expect rfl rfl) fun _ _ _ =>
    h.bind (h.forInitializer hexpr) fun _ _ hinitializer => ?_
  refine h.bind (h.unlessSees _ hexpr) fun _ _ hcondition =>
    h.bind (h.expect rfl rfl) fun _ _ _ => ?_
  refine h.bind (h.unlessSees _ hexpr) fun _ _ hincrement =>
    h.bind (h.expect rfl rfl) fun _ _ _ => ?_
  exact h.bind hstmt fun _ _ hbody =>
    h.pure (matches_forLoop hinitializer hcondition hincrement hbody)

lemma declarations (hdecl : P (Option.Rel (Stmt.Matches ids tokens)) decl decl')
    (hsteps : steps ≤ steps') :
    P (List.Forall₂ (Stmt.Matches ids tokens)) (declarations decl steps)
      (declarations decl' steps') := by
  induction steps generalizing steps' with
  | zero => exact h.exhausted
  | succ steps ih =>
    obtain ⟨steps', rfl⟩ : ∃ k, steps' = k + 1 := ⟨steps' - 1, by omega⟩
    refine h.bind (h.sees .rightBrace) ?_
    rintro b _ rfl
    refine h.bind h.atEnd ?_
    rintro b' _ rfl
    split_ifs
    · exact h.pure .nil
    · refine h.bind hdecl fun _ _ hfirst => h.bind (ih (by omega)) fun _ _ hrest => ?_
      exact h.pure (List.rel_append (forall₂_toList hfirst) hrest)

lemma block (hdecl : P (Option.Rel (Stmt.Matches ids tokens)) decl decl')
    (hsteps : steps ≤ steps') :
    P (List.Forall₂ (Stmt.Matches ids tokens)) (block decl steps) (block decl' steps') :=
  h.bind (h.declarations hdecl hsteps) fun _ _ hbody => h.bind (h.expect rfl rfl) fun _ _ _ =>
    h.pure hbody

lemma functionDeclaration (hdecl : P (Option.Rel (Stmt.Matches ids tokens)) decl decl')
    (hsteps : steps ≤ steps') :
    P (Stmt.Matches ids tokens) (functionDeclaration decl steps)
      (functionDeclaration decl' steps') := by
  refine h.bind (h.expect rfl rfl) fun _ _ hname => h.bind (h.expect rfl rfl) fun _ _ _ => ?_
  refine h.bind (h.listed rfl rfl (h.expect rfl rfl) hsteps) fun _ _ hparameters => ?_
  refine h.bind (h.expect rfl rfl) fun _ _ _ => h.bind (h.expect rfl rfl) fun _ _ _ => ?_
  exact h.bind (h.block hdecl hsteps) fun _ _ hbody => h.pure (.function hname hparameters hbody)

lemma statementWith (hexpr : P (Expr.Matches ids tokens) expr expr')
    (hstmt : P (Stmt.Matches ids tokens) stmt stmt')
    (hdecl : P (Option.Rel (Stmt.Matches ids tokens)) decl decl') (hsteps : steps ≤ steps') :
    P (Stmt.Matches ids tokens) (statementWith expr stmt decl steps)
      (statementWith expr' stmt' decl' steps') := by
  refine h.bind (h.acceptIf fun _ _ => rfl) ?_
  rintro _ _ (ht | _)
  · dsimp only
    rw [h.kind_eq ht]
    split
    · exact h.forStatement hexpr hstmt
    · exact h.ifStatement hexpr hstmt
    · exact h.printStatement hexpr
    · exact h.returnStatement hexpr ht
    · exact h.whileStatement hexpr hstmt
    · exact h.map (h.block hdecl hsteps) fun _ _ hbody => .block hbody
  · exact h.expressionStatement hexpr

lemma declarationWith (hexpr : P (Expr.Matches ids tokens) expr expr')
    (hstmt : P (Stmt.Matches ids tokens) stmt stmt')
    (hdecl : P (Option.Rel (Stmt.Matches ids tokens)) decl decl')
    (hsteps : steps ≤ steps') :
    P (Stmt.Matches ids tokens) (declarationWith expr stmt decl steps)
      (declarationWith expr' stmt' decl' steps') := by
  refine h.bind (h.acceptIf fun _ _ => rfl) ?_
  rintro _ _ (ht | _)
  · dsimp only
    rw [h.kind_eq ht]
    split
    · exact h.functionDeclaration hdecl hsteps
    · exact h.variableDeclaration hexpr
  · exact h.statementWith hexpr hstmt hdecl hsteps

/-- A `Closed` relation that recovering keeps (`hrecovery`) holds between the readers of statements
and of declarations and themselves, also with more steps. -/
theorem statement_declaration (hrecovery : ClosedUnderRecovery @P) (hsteps : steps ≤ steps') :
    P (Stmt.Matches ids tokens) (statement steps) (statement steps') ∧
      P (Option.Rel (Stmt.Matches ids tokens)) (declaration steps) (declaration steps') := by
  induction steps generalizing steps' with
  | zero => exact ⟨h.exhausted, h.exhausted⟩
  | succ steps ih =>
    obtain ⟨steps', rfl⟩ : ∃ k, steps' = k + 1 := ⟨steps' - 1, by omega⟩
    have hle : steps ≤ steps' := by omega
    have hexpr : P (Expr.Matches ids tokens) (Grammar.expression steps)
        (Grammar.expression steps') :=
      (h.restrict fun _ _ => rfl).expression hle
    obtain ⟨hstmt, hdecl⟩ := ih hle
    exact ⟨h.statementWith hexpr hstmt hdecl hle,
      hrecovery (h.declarationWith hexpr hstmt hdecl hle)⟩

lemma program (hdecl : P (Option.Rel (Stmt.Matches ids tokens)) decl decl')
    (hsteps : steps ≤ steps') :
    P (List.Forall₂ (Stmt.Matches ids tokens)) (program decl steps) (program decl' steps') := by
  induction steps generalizing steps' with
  | zero => exact h.exhausted
  | succ steps ih =>
    obtain ⟨steps', rfl⟩ : ∃ k, steps' = k + 1 := ⟨steps' - 1, by omega⟩
    refine h.bind h.atEnd ?_
    rintro b _ rfl
    split_ifs
    · exact h.pure .nil
    · refine h.bind hdecl fun _ _ hfirst => h.bind (ih (by omega)) fun _ _ hrest => ?_
      exact h.pure (List.rel_append (forall₂_toList hfirst) hrest)

end

/-- The end of input after an expression. -/
lemma wholeExpression {expr expr' : Reader Expr} (h : Closed kinds tokens ids places P)
    (hexpr : P (Expr.Matches ids tokens) expr expr') :
    P (Expr.Matches ids tokens) (wholeExpression expr) (wholeExpression expr') := by
  refine h.bind hexpr fun e e' he => h.bind h.atEnd ?_
  rintro b _ rfl
  split
  · exact h.pure he
  · exact h.fail rfl

end Reader.Closed

end LoxLang.Grammar
