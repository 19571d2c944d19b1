import LoxLang.Proofs.Grammar.Statements
import LoxLang.Proofs.Grammar.Yields

/-!
# Reading what the grammar derives: statements

A statement that the grammar derives with every `else` at the nearest `if` is read as it is derived,
provided that no `else` follows a text that one would continue.
-/

namespace LoxLang.Grammar

open Reader

/-! ## What a statement starts with -/

/-- Kinds that start a text of a rule. -/
def StmtRule.starts : StmtRule → Kind → Bool
  | .declaration, k => leadsDeclaration k || leadsStatement k || ExprRule.expression.starts k
  | .statement, k => leadsStatement k || ExprRule.expression.starts k

lemma DerivesExpressionStmt.starts {ts : List Token} {s : Stmt} (h : DerivesExpressionStmt ts s) :
    ∃ t us, ts = t :: us ∧ ExprRule.expression.starts t.kind = true := by
  cases h with
  | mk he _ =>
    obtain ⟨t, us, rfl, ht⟩ := he.starts
    exact ⟨t, _, rfl, ht⟩

lemma DerivesVariable.starts {ts : List Token} {s : Stmt} (h : DerivesVariable ts s) :
    ∃ word us, ts = word :: us ∧ word.kind = .varWord := by
  cases h with
  | bare hword => exact ⟨_, _, rfl, hword⟩
  | initialized hword => exact ⟨_, _, rfl, hword⟩

lemma DerivesStmt.starts {elses : ElseRule} {rule : StmtRule} {ts : List Token} {s : Stmt}
    {dangling : Bool} (h : DerivesStmt elses rule ts s dangling) :
    ∃ t us, ts = t :: us ∧ rule.starts t.kind = true := by
  induction h with
  | statement _ ih =>
    obtain ⟨t, us, rfl, ht⟩ := ih
    refine ⟨t, us, rfl, ?_⟩
    simp only [StmtRule.starts] at ht ⊢
    rw [Bool.or_assoc, ht, Bool.or_true]
  | declared h =>
    obtain ⟨word, us, rfl, hword⟩ := h.starts
    exact ⟨word, us, rfl, by rw [hword]; rfl⟩
  | function _ _ hword => exact ⟨_, _, rfl, by rw [hword]; rfl⟩
  | expression h =>
    obtain ⟨t, us, rfl, ht⟩ := h.starts
    exact ⟨t, us, rfl, by simp [StmtRule.starts, ht]⟩
  | print hword => exact ⟨_, _, rfl, by rw [hword]; rfl⟩
  | ret hword => exact ⟨_, _, rfl, by rw [hword]; rfl⟩
  | block _ hleft => exact ⟨_, _, rfl, by rw [hleft]; rfl⟩
  | ifOnly hword => exact ⟨_, _, rfl, by rw [hword]; rfl⟩
  | ifElse hword => exact ⟨_, _, rfl, by rw [hword]; rfl⟩
  | loop hword => exact ⟨_, _, rfl, by rw [hword]; rfl⟩
  | forLoop hword => exact ⟨_, _, rfl, by rw [hword]; rfl⟩

/-! ## Simple statements -/

/-- The reader `expr` reads every expression of up to `n` tokens. -/
def ReadsExpressions (expr : Reader Expr) (n : ℕ) : Prop :=
  ∀ (ts rest : List Token) (e : Expr) (c : Cursor), DerivesExpr .expression ts e → ts.length ≤ n →
    c.rest = ts ++ rest → Stops ExprRule.expression.continues rest →
    Yields Expr.anonymous expr c e rest

lemma ReadsExpressions.mono {expr : Reader Expr} {m n : ℕ} (h : ReadsExpressions expr n)
    (hm : m ≤ n) : ReadsExpressions expr m :=
  fun ts rest e c he hn => h ts rest e c he (hn.trans hm)

lemma readsExpressions {steps n : ℕ} (h : n + 2 ≤ steps) : ReadsExpressions (expression steps) n :=
  fun _ _ _ _ he hn hc hstop => he.yields hc (by omega) hstop

section

variable {expr : Reader Expr} {n : ℕ} (hexpr : ReadsExpressions expr n) {c : Cursor}
  {rest : List Token}

include hexpr

lemma expressionStatement_yields {ts : List Token} {s : Stmt} (h : DerivesExpressionStmt ts s)
    (hn : ts.length ≤ n) (hc : c.rest = ts ++ rest) :
    Yields Stmt.anonymous (expressionStatement expr) c s rest := by
  cases h with
  | @mk semicolon us e he hsemi =>
    simp only [List.length_append, List.length_cons, List.length_nil] at hn
    have hc : c.rest = us ++ semicolon :: rest := by simpa using hc
    unfold expressionStatement
    refine (hexpr us _ e c he (by omega) hc (Stops.cons (by rw [hsemi]; decide))).bind
      fun v d hv hd => ?_
    refine Yields.of_step hd (expect_eq_ok hd hsemi) fun f hf => .pure hf ?_
    exact congrArg Stmt.expression hv

/-- A clause that may be absent, in front of a token of a `kind` that neither starts nor continues
an expression. -/
lemma optional_yields {kind : Kind} {t : Token} {ts : List Token} {value : Option Expr}
    (h : Perhaps (DerivesExpr .expression) ts value) (hn : ts.length ≤ n) (ht : t.kind = kind)
    (hkind : ExprRule.expression.starts kind = false ∧ ExprRule.expression.continues kind = false)
    (hc : c.rest = ts ++ t :: rest) :
    Yields (Option.map Expr.anonymous) (unlessSees kind expr) c value (t :: rest) := by
  unfold unlessSees
  cases h with
  | absent =>
    have hsees : sees kind c = .ok true c := by simp [sees, Cursor.sees, hc, ht]
    exact Yields.of_stay hsees (.pure hc rfl)
  | present he =>
    obtain ⟨u, us, hts, hu⟩ := he.starts
    have hne : u.kind ≠ kind := by
      rintro rfl
      rw [hkind.1] at hu
      exact Bool.noConfusion hu
    have hsees : sees kind c = .ok false c := by simp [sees, Cursor.sees, hc, hts, hne]
    have hread := hexpr ts _ _ c he hn hc (Stops.cons (by rw [ht]; exact hkind.2))
    exact Yields.of_stay hsees (hread.map fun v hv => by simpa using hv)

lemma variableDeclaration_yields {word : Token} {ts : List Token} {s : Stmt}
    (h : DerivesVariable (word :: ts) s) (hn : ts.length ≤ n) (hc : c.rest = ts ++ rest) :
    Yields Stmt.anonymous (variableDeclaration expr) c s rest := by
  unfold variableDeclaration
  cases h with
  | @bare _ name semicolon _ hname hsemi =>
    refine Yields.of_step hc (expect_eq_ok hc hname) fun d hd => ?_
    have hnone : accept .equal d = .ok none d :=
      accept_eq_none (by rw [hd]; exact Stops.cons (by simp [hsemi]))
    refine Yields.of_stay hnone (Yields.of_stay rfl ?_)
    exact Yields.of_step hd (expect_eq_ok hd hsemi) fun f hf => .pure hf rfl
  | @initialized _ name equal semicolon us e _ hname hequal he hsemi =>
    simp only [List.length_append, List.length_cons, List.length_nil] at hn
    have hc : c.rest = name :: equal :: (us ++ semicolon :: rest) := by simpa using hc
    refine Yields.of_step hc (expect_eq_ok hc hname) fun d hd => ?_
    refine Yields.of_step hd (accept_eq_some hd hequal) fun f hf => ?_
    have hvalue : Yields (Option.map Expr.anonymous) (some <$> expr) f (some e)
        (semicolon :: rest) :=
      (hexpr us _ e f he (by omega) hf (Stops.cons (by rw [hsemi]; decide))).map fun v hv => by
        simpa using hv
    refine hvalue.bind fun v g hv hg => ?_
    refine Yields.of_step hg (expect_eq_ok hg hsemi) fun k hk => .pure hk ?_
    exact congrArg (Stmt.var name) hv

lemma forInitializer_yields {ts : List Token} {first : Option Stmt}
    (h : DerivesInitializer ts first) (hn : ts.length ≤ n) (hc : c.rest = ts ++ rest) :
    Yields (Option.map Stmt.anonymous) (forInitializer expr) c first rest := by
  unfold forInitializer
  cases h with
  | bare hsemi => exact Yields.of_step hc (accept_eq_some hc hsemi) fun d hd => .pure hd rfl
  | @declared _ s h =>
    obtain ⟨word, us, rfl, hword⟩ := h.starts
    have hnone : accept .semicolon c = .ok none c :=
      accept_eq_none (by rw [hc]; exact Stops.cons (by simp [hword]))
    refine Yields.of_stay hnone (Yields.of_step hc (accept_eq_some hc hword) fun d hd => ?_)
    simp only [List.length_cons] at hn
    exact (variableDeclaration_yields hexpr h (by omega) hd).map fun v hv => by simpa using hv
  | @expression _ s h =>
    obtain ⟨t, us, hts, ht⟩ := h.starts
    -- An expression starts neither with a semicolon nor with `var`, so both are passed over.
    have hstops : ∀ kind, ExprRule.expression.starts kind = false → accept kind c = .ok none c := by
      intro kind hkind
      refine accept_eq_none ?_
      rw [hc, hts]
      refine Stops.cons ?_
      rw [decide_eq_false_iff_not]
      rintro rfl
      rw [hkind] at ht
      exact Bool.noConfusion ht
    refine Yields.of_stay (hstops .semicolon rfl) (Yields.of_stay (hstops .varWord rfl) ?_)
    exact (expressionStatement_yields hexpr h hn hc).map fun v hv => by simpa using hv

end

/-! ## Declarations in a row -/

/-- The text `rest` starts with no `else`, which would be read as part of what stands before it. -/
abbrev NoElse (rest : List Token) : Prop := Stops (· = .elseWord) rest

/-- The reader `decl` reads every declaration of up to `n` tokens. -/
def ReadsDeclarations (decl : Reader (Option Stmt)) (n : ℕ) : Prop :=
  ∀ (ts rest : List Token) (s : Stmt) (dangling : Bool) (c : Cursor),
    DerivesStmt .nearest .declaration ts s dangling → ts.length ≤ n → c.rest = ts ++ rest →
      NoElse rest → Yields (Option.map Stmt.anonymous) decl c (some s) rest

/-- The reader `stmt` reads every statement of up to `n` tokens. -/
def ReadsStatements (stmt : Reader Stmt) (n : ℕ) : Prop :=
  ∀ (ts rest : List Token) (s : Stmt) (dangling : Bool) (c : Cursor),
    DerivesStmt .nearest .statement ts s dangling → ts.length ≤ n → c.rest = ts ++ rest →
      (dangling = true → NoElse rest) → Yields Stmt.anonymous stmt c s rest

/-- No declaration starts with a closing brace or with `else`. -/
lemma DerivesStmt.starts_declaration {elses : ElseRule} {ts : List Token} {s : Stmt}
    {dangling : Bool} (h : DerivesStmt elses .declaration ts s dangling) :
    ∃ t us, ts = t :: us ∧ t.kind ≠ .rightBrace ∧ t.kind ≠ .elseWord := by
  obtain ⟨t, us, rfl, ht⟩ := h.starts
  refine ⟨t, us, rfl, ?_, ?_⟩ <;> rintro hk <;> rw [hk] at ht <;> exact Bool.noConfusion ht

lemma noElse_append {elses : ElseRule} {rest : List Token} (parts : List (List Token × Stmt × Bool))
    (hparts : ∀ p ∈ parts, DerivesStmt elses .declaration p.1 p.2.1 p.2.2) (hrest : NoElse rest) :
    NoElse (parts.flatMap Prod.fst ++ rest) := by
  cases parts with
  | nil => exact hrest
  | cons p parts =>
    obtain ⟨t, us, hp, -, ht⟩ := (hparts p (by simp)).starts_declaration
    rw [List.flatMap_cons, hp]
    exact Stops.cons (by simpa using ht)

section

variable {decl : Reader (Option Stmt)} {n : ℕ} (hdecl : ReadsDeclarations decl n)

include hdecl

/-- Declarations in a row, read one a step up to `rest`: `hlast` and `hnext` say what a reader `row`
does there and before. -/
lemma row_yields {row : ℕ → Reader (List Stmt)} {rest : List Token} (hrest : NoElse rest)
    (hlast : ∀ steps c, c.rest = rest → row (steps + 1) c = .ok [] c)
    (hnext : ∀ steps c t us, c.rest = t :: us → t.kind ≠ .rightBrace →
      row (steps + 1) c =
        (decl >>= fun first => row steps >>= fun more => pure (first.toList ++ more)) c) :
    ∀ (parts : List (List Token × Stmt × Bool)),
      (∀ p ∈ parts, DerivesStmt .nearest .declaration p.1 p.2.1 p.2.2) →
      (parts.flatMap Prod.fst).length ≤ n →
      ∀ (steps : ℕ) (c : Cursor), (parts.flatMap Prod.fst).length < steps →
      c.rest = parts.flatMap Prod.fst ++ rest →
        Yields (List.map Stmt.anonymous) (row steps) c (parts.map fun p => p.2.1) rest := by
  intro parts
  induction parts with
  | nil =>
    intro _ _ steps c hsteps hc
    obtain ⟨steps, rfl⟩ : ∃ k, steps = k + 1 := ⟨steps - 1, by omega⟩
    have hc : c.rest = rest := by simpa using hc
    exact ⟨[], c, hlast steps c hc, hc, rfl, rfl⟩
  | cons p parts ih =>
    intro hparts hn steps c hsteps hc
    obtain ⟨steps, rfl⟩ : ∃ k, steps = k + 1 := ⟨steps - 1, by omega⟩
    obtain ⟨t, us, hp, hbrace, -⟩ := (hparts p (by simp)).starts_declaration
    have hmore := fun q hq => hparts q (List.mem_cons_of_mem p hq)
    rw [List.flatMap_cons, List.length_append] at hn hsteps
    rw [List.flatMap_cons, List.append_assoc] at hc
    -- A declaration uses at least one token, and so the steps that are left are enough.
    have hpos : 0 < p.1.length := by simp [hp]
    rw [Yields, hnext steps c t _ (by rw [hc, hp]; rfl) hbrace]
    have hstops := noElse_append parts hmore hrest
    refine (hdecl p.1 _ p.2.1 p.2.2 c (hparts p (by simp)) (by omega) hc hstops).bind
      fun v d hv hd => ?_
    refine (ih hmore (by omega) steps d (by omega) hd).bind fun vs f hvs hf => .pure hf ?_
    obtain ⟨s, rfl, hs⟩ : ∃ s, v = some s ∧ s.anonymous = p.2.1.anonymous := by simpa using hv
    simp [hs, hvs]

/-- Declarations up to the closing brace `right`. -/
lemma declarations_yields {right : Token} {rest : List Token} (hright : right.kind = .rightBrace) :
    ∀ (parts : List (List Token × Stmt × Bool)),
      (∀ p ∈ parts, DerivesStmt .nearest .declaration p.1 p.2.1 p.2.2) →
      (parts.flatMap Prod.fst).length ≤ n →
      ∀ (steps : ℕ) (c : Cursor), (parts.flatMap Prod.fst).length < steps →
        c.rest = parts.flatMap Prod.fst ++ right :: rest →
        Yields (List.map Stmt.anonymous) (declarations decl steps) c (parts.map fun p => p.2.1)
          (right :: rest) := by
  refine row_yields hdecl (Stops.cons (by simp [hright])) (fun steps c hc => ?_)
    fun steps c t us hc hbrace => ?_
  · have hsees : sees .rightBrace c = .ok true c := by simp [sees, Cursor.sees, hc, hright]
    rw [declarations, bind_eq_of_ok hsees]
    rfl
  · have hsees : sees .rightBrace c = .ok false c := by simp [sees, Cursor.sees, hc, hbrace]
    have hend : atEnd c = .ok false c := by simp [atEnd, Cursor.atEnd, hc]
    rw [declarations, bind_eq_of_ok hsees, bind_eq_of_ok hend]
    rfl

/-- Declarations up to the end of input. -/
lemma program_yields :
    ∀ (parts : List (List Token × Stmt × Bool)),
      (∀ p ∈ parts, DerivesStmt .nearest .declaration p.1 p.2.1 p.2.2) →
      (parts.flatMap Prod.fst).length ≤ n →
      ∀ (steps : ℕ) (c : Cursor), (parts.flatMap Prod.fst).length < steps →
        c.rest = parts.flatMap Prod.fst →
        Yields (List.map Stmt.anonymous) (program decl steps) c (parts.map fun p => p.2.1) [] := by
  intro parts hparts hn steps c hsteps hc
  rw [← List.append_nil (parts.flatMap Prod.fst)] at hc
  refine row_yields hdecl (by simp [NoElse, Stops]) (fun steps c hc => ?_) (fun steps c t us hc _ =>
    ?_) parts hparts hn steps c hsteps hc
  · have hend : atEnd c = .ok true c := by simp [atEnd, Cursor.atEnd, hc]
    rw [program, bind_eq_of_ok hend]
    rfl
  · have hend : atEnd c = .ok false c := by simp [atEnd, Cursor.atEnd, hc]
    rw [program, bind_eq_of_ok hend]
    rfl

lemma block_yields {right : Token} {rest : List Token} {steps : ℕ} {c : Cursor}
    (parts : List (List Token × Stmt × Bool))
    (hparts : ∀ p ∈ parts, DerivesStmt .nearest .declaration p.1 p.2.1 p.2.2)
    (hright : right.kind = .rightBrace) (hn : (parts.flatMap Prod.fst).length ≤ n)
    (hsteps : (parts.flatMap Prod.fst).length < steps)
    (hc : c.rest = parts.flatMap Prod.fst ++ right :: rest) :
    Yields (List.map Stmt.anonymous) (block decl steps) c (parts.map fun p => p.2.1) rest := by
  unfold block
  refine (declarations_yields hdecl hright parts hparts hn steps c hsteps hc).bind
    fun v d hv hd => ?_
  exact Yields.of_step hd (expect_eq_ok hd hright) fun f hf => .pure hf hv

end

/-! ## Compound statements -/

section

variable {expr : Reader Expr} {stmt : Reader Stmt} {n : ℕ} (hexpr : ReadsExpressions expr n)
  (hstmt : ReadsStatements stmt n) {c : Cursor} {rest : List Token}

include hexpr in
/-- A `condition` in parentheses. -/
lemma condition_yields {γ δ : Type} {sight : γ → δ} {opened closed : GrammarFault}
    {f : Expr → Reader γ} {result : γ} {opening closing : Token} {cs middle : List Token}
    {condition : Expr} (hopening : opening.kind = .leftParen)
    (h : DerivesExpr .expression cs condition) (hclosing : closing.kind = .rightParen)
    (hn : cs.length ≤ n) (hc : c.rest = opening :: (cs ++ closing :: middle))
    (hf : ∀ (v : Expr) (d : Cursor), v.anonymous = condition.anonymous → d.rest = middle →
      Yields sight (f v) d result rest) :
    Yields sight
      (do
        let _ ← expect .leftParen opened
        let v ← expr
        let _ ← expect .rightParen closed
        f v) c result rest := by
  refine Yields.of_step hc (expect_eq_ok hc hopening) fun d hd => ?_
  refine (hexpr cs _ condition d h hn hd (Stops.cons (by rw [hclosing]; decide))).bind
    fun v g hv hg => ?_
  exact Yields.of_step hg (expect_eq_ok hg hclosing) fun k hk => hf v k hv hk

include hexpr hstmt

lemma ifStatement_yields_only {opening closing : Token} {cs ts : List Token} {condition : Expr}
    {thenBranch : Stmt} {dangling : Bool} (hopening : opening.kind = .leftParen)
    (h : DerivesExpr .expression cs condition) (hclosing : closing.kind = .rightParen)
    (hthen : DerivesStmt .nearest .statement ts thenBranch dangling)
    (hn : (opening :: (cs ++ closing :: ts)).length ≤ n)
    (hc : c.rest = opening :: (cs ++ closing :: ts) ++ rest) (hrest : NoElse rest) :
    Yields Stmt.anonymous (ifStatement expr stmt) c (.branch condition thenBranch none) rest := by
  simp only [List.length_append, List.length_cons] at hn
  have hc : c.rest = opening :: (cs ++ closing :: (ts ++ rest)) := by simpa using hc
  unfold ifStatement
  refine condition_yields hexpr hopening h hclosing (by omega) hc fun v d hv hd => ?_
  refine (hstmt ts rest thenBranch dangling d hthen (by omega) hd fun _ => hrest).bind
    fun s g hs hg => ?_
  have hnone : accept .elseWord g = .ok none g := accept_eq_none (by rw [hg]; exact hrest)
  refine Yields.of_stay hnone (.pure hg ?_)
  simp only [Expr.anonymous, Stmt.anonymous, Stmt.relabel, Stmt.relabelOptional] at hv hs ⊢
  rw [hv, hs]

lemma ifStatement_yields_else {opening closing otherwise : Token} {cs ts us : List Token}
    {condition : Expr} {thenBranch elseBranch : Stmt} {dangling : Bool}
    (hopening : opening.kind = .leftParen) (h : DerivesExpr .expression cs condition)
    (hclosing : closing.kind = .rightParen)
    (hthen : DerivesStmt .nearest .statement ts thenBranch false)
    (hotherwise : otherwise.kind = .elseWord)
    (helse : DerivesStmt .nearest .statement us elseBranch dangling)
    (hn : (opening :: (cs ++ closing :: (ts ++ otherwise :: us))).length ≤ n)
    (hc : c.rest = opening :: (cs ++ closing :: (ts ++ otherwise :: us)) ++ rest)
    (hrest : dangling = true → NoElse rest) :
    Yields Stmt.anonymous (ifStatement expr stmt) c
      (.branch condition thenBranch (some elseBranch)) rest := by
  simp only [List.length_append, List.length_cons] at hn
  have hc : c.rest = opening :: (cs ++ closing :: (ts ++ otherwise :: (us ++ rest))) := by
    simpa using hc
  unfold ifStatement
  refine condition_yields hexpr hopening h hclosing (by omega) hc fun v d hv hd => ?_
  refine (hstmt ts _ thenBranch false d hthen (by omega) hd nofun).bind fun s g hs hg => ?_
  refine Yields.of_step hg (accept_eq_some hg hotherwise) fun k hk => ?_
  refine (hstmt us rest elseBranch dangling k helse (by omega) hk hrest).bind fun t m ht hm =>
    .pure hm ?_
  simp only [Expr.anonymous, Stmt.anonymous, Stmt.relabel, Stmt.relabelOptional] at hv hs ht ⊢
  rw [hv, hs, ht]

lemma whileStatement_yields {opening closing : Token} {cs ts : List Token} {condition : Expr}
    {body : Stmt} {dangling : Bool} (hopening : opening.kind = .leftParen)
    (h : DerivesExpr .expression cs condition) (hclosing : closing.kind = .rightParen)
    (hbody : DerivesStmt .nearest .statement ts body dangling)
    (hn : (opening :: (cs ++ closing :: ts)).length ≤ n)
    (hc : c.rest = opening :: (cs ++ closing :: ts) ++ rest)
    (hrest : dangling = true → NoElse rest) :
    Yields Stmt.anonymous (whileStatement expr stmt) c (.loop condition body) rest := by
  simp only [List.length_append, List.length_cons] at hn
  have hc : c.rest = opening :: (cs ++ closing :: (ts ++ rest)) := by simpa using hc
  unfold whileStatement
  refine condition_yields hexpr hopening h hclosing (by omega) hc fun v d hv hd => ?_
  refine (hstmt ts rest body dangling d hbody (by omega) hd hrest).bind fun s g hs hg => .pure hg ?_
  simp only [Expr.anonymous, Stmt.anonymous, Stmt.relabel] at hv hs ⊢
  rw [hv, hs]

omit hexpr hstmt in
/-- The `forLoop` a `for` stands for, node ids apart, depends on its clauses only node ids apart. -/
lemma anonymous_forLoop {first first' : Option Stmt}
    {condition condition' increment increment' : Option Expr} {body body' : Stmt}
    (hfirst : first.map Stmt.anonymous = first'.map Stmt.anonymous)
    (hcondition : condition.map Expr.anonymous = condition'.map Expr.anonymous)
    (hincrement : increment.map Expr.anonymous = increment'.map Expr.anonymous)
    (hbody : body.anonymous = body'.anonymous) :
    (forLoop first condition increment body).anonymous =
      (forLoop first' condition' increment' body').anonymous := by
  have hround : (increment.elim body fun e => Stmt.block [body, .expression e]).anonymous =
      (increment'.elim body' fun e => Stmt.block [body', .expression e]).anonymous := by
    cases increment <;> cases increment' <;>
      simp_all [Stmt.anonymous, Expr.anonymous, Stmt.relabel, Stmt.relabelAll]
  have hguard : (condition.getD (.literal (.bool true))).anonymous =
      (condition'.getD (.literal (.bool true))).anonymous := by
    cases condition <;> cases condition' <;> simp_all
  unfold forLoop
  cases first <;> cases first' <;>
    simp_all [Stmt.anonymous, Expr.anonymous, Stmt.relabel, Stmt.relabelAll]

lemma forStatement_yields {opening semicolon closing : Token} {fs cs us ts : List Token}
    {first : Option Stmt} {condition increment : Option Expr} {body : Stmt} {dangling : Bool}
    (hopening : opening.kind = .leftParen) (hfirst : DerivesInitializer fs first)
    (hcondition : Perhaps (DerivesExpr .expression) cs condition)
    (hsemi : semicolon.kind = .semicolon)
    (hincrement : Perhaps (DerivesExpr .expression) us increment)
    (hclosing : closing.kind = .rightParen)
    (hbody : DerivesStmt .nearest .statement ts body dangling)
    (hn : (opening :: (fs ++ (cs ++ semicolon :: (us ++ closing :: ts)))).length ≤ n)
    (hc : c.rest = opening :: (fs ++ (cs ++ semicolon :: (us ++ closing :: ts))) ++ rest)
    (hrest : dangling = true → NoElse rest) :
    Yields Stmt.anonymous (forStatement expr stmt) c
      (loopOf first condition increment body) rest := by
  rw [← forLoop_eq]
  simp only [List.length_append, List.length_cons] at hn
  have hc : c.rest = opening :: (fs ++ (cs ++ semicolon :: (us ++ closing :: (ts ++ rest)))) := by
    simpa using hc
  unfold forStatement
  refine Yields.of_step hc (expect_eq_ok hc hopening) fun d hd => ?_
  refine (forInitializer_yields hexpr hfirst (by omega) hd).bind fun v1 d1 hv1 hd1 => ?_
  refine (optional_yields hexpr hcondition (by omega) hsemi (by decide) hd1).bind
    fun v2 d2 hv2 hd2 => ?_
  refine Yields.of_step hd2 (expect_eq_ok hd2 hsemi) fun d3 hd3 => ?_
  refine (optional_yields hexpr hincrement (by omega) hclosing (by decide) hd3).bind
    fun v4 d4 hv4 hd4 => ?_
  refine Yields.of_step hd4 (expect_eq_ok hd4 hclosing) fun d5 hd5 => ?_
  refine (hstmt ts rest body dangling d5 hbody (by omega) hd5 hrest).bind fun v6 d6 hv6 hd6 =>
    .pure hd6 ?_
  exact anonymous_forLoop hv1 hv2 hv4 hv6

end

/-! ## All statements -/

lemma parameters_yields {tooMany : GrammarFault} {closing : Token} {us rest : List Token}
    {c : Cursor} {steps : ℕ} {parameters : List Token} (hclosing : closing.kind = .rightParen)
    (hparameters : ∀ p ∈ parameters, p.kind = .identifier) (hsteps : us.length ≤ steps)
    (hcount : parameters.length ≤ 255) (hlisted : Listed (parameters.map fun p => [p]) us)
    (hc : c.rest = us ++ closing :: rest) :
    Yields id (listed tooMany (expect .identifier .noParameterName) steps) c parameters
      (closing :: rest) := by
  obtain ⟨hlength, -⟩ := length_le_of_listed hlisted (by simp)
  rw [List.length_map] at hlength
  have hitems : ∀ p ∈ parameters.map (fun p => ([p], p)),
      ∀ (c : Cursor) (t : Token) (more : List Token), c.rest = p.1 ++ t :: more → EndsItem t →
        Yields id (expect .identifier .noParameterName) c p.2 (t :: more) := by
    intro p hp c t more hc _
    obtain ⟨name, hname, rfl⟩ := List.mem_map.mp hp
    have hc : c.rest = name :: t :: more := hc
    obtain ⟨hrest, herrors⟩ := advance_eq hc
    exact ⟨name, c.advance, expect_eq_ok hc (hparameters name hname), hrest, herrors, rfl⟩
  have hstarts : ∀ p ∈ parameters.map (fun p => ([p], p)),
      ∃ t ts, p.1 = t :: ts ∧ t.kind ≠ .rightParen := by
    intro p hp
    obtain ⟨name, hname, rfl⟩ := List.mem_map.mp hp
    exact ⟨name, [], rfl, by rw [hparameters name hname]; decide⟩
  have hread : Yields (List.map id) (listed tooMany (expect .identifier .noParameterName) steps) c
      ((parameters.map fun p => ([p], p)).map Prod.snd) (closing :: rest) :=
    listed_yields (parameters.map fun p => ([p], p)) hclosing hstarts hitems
      (by rw [List.length_map]; omega) (by rwa [List.length_map]) (by rwa [List.map_map]) hc
  have hsecond : (parameters.map fun p => ([p], p)).map Prod.snd = parameters := by
    simp [List.map_map, Function.comp_def]
  rw [hsecond] at hread
  simpa [Yields] using hread

section

variable {expr : Reader Expr} {stmt : Reader Stmt} {decl : Reader (Option Stmt)} {n steps : ℕ}
  (hexpr : ReadsExpressions expr (n + 1)) (hstmt : ReadsStatements stmt n)
  (hdecl : ReadsDeclarations decl n) (hsteps : n < steps)

include hdecl hsteps in
lemma functionDeclaration_yields {name opening closing left right : Token} {us rest : List Token}
    {c : Cursor} {parameters : List Token} {parts : List (List Token × Stmt × Bool)}
    (hname : name.kind = .identifier) (hopening : opening.kind = .leftParen)
    (hparameters : ∀ p ∈ parameters, p.kind = .identifier) (hcount : parameters.length ≤ 255)
    (hlisted : Listed (parameters.map fun p => [p]) us) (hclosing : closing.kind = .rightParen)
    (hleft : left.kind = .leftBrace)
    (hparts : ∀ p ∈ parts, DerivesStmt .nearest .declaration p.1 p.2.1 p.2.2)
    (hright : right.kind = .rightBrace) (hn : (name :: opening ::
      (us ++ closing :: left :: (parts.flatMap Prod.fst ++ [right]))).length ≤ n)
    (hc : c.rest =
      name :: opening :: (us ++ closing :: left :: (parts.flatMap Prod.fst ++ [right])) ++ rest) :
    Yields Stmt.anonymous (functionDeclaration decl steps) c
      (.function name parameters (parts.map fun p => p.2.1)) rest := by
  simp only [List.length_append, List.length_cons, List.length_nil] at hn
  have hc : c.rest =
      name :: opening :: (us ++ closing :: left :: (parts.flatMap Prod.fst ++ right :: rest)) := by
    simpa using hc
  unfold functionDeclaration
  refine Yields.of_step hc (expect_eq_ok hc hname) fun d hd => ?_
  refine Yields.of_step hd (expect_eq_ok hd hopening) fun d1 hd1 => ?_
  refine (parameters_yields hclosing hparameters (by omega) hcount hlisted hd1).bind
    fun v d2 hv hd2 => ?_
  refine Yields.of_step hd2 (expect_eq_ok hd2 hclosing) fun d3 hd3 => ?_
  refine Yields.of_step hd3 (expect_eq_ok hd3 hleft) fun d4 hd4 => ?_
  refine (block_yields hdecl parts hparts hright (by omega) (by omega) hd4).bind
    fun body d5 hbody hd5 => .pure hd5 ?_
  obtain rfl : v = parameters := hv
  have hbody : body.map (Stmt.relabel (fun _ => 0) id) =
      (parts.map fun p => p.2.1).map (Stmt.relabel (fun _ => 0) id) := hbody
  simp only [Stmt.anonymous, Stmt.relabel, Stmt.relabelAll_eq_map, hbody]

include hexpr hstmt hdecl hsteps

lemma statementWith_yields : ReadsStatements (statementWith expr stmt decl steps) (n + 1) := by
  intro ts rest s dangling c h hn hc hrest
  unfold statementWith
  cases h with
  | expression h =>
    obtain ⟨t, us, hts, ht⟩ := h.starts
    -- None of the words that lead another statement starts an expression.
    have hnone : acceptIf leadsStatement c = .ok none c := by
      refine acceptIf_eq_none ?_
      rw [hc, hts]
      exact Stops.cons
        (by cases hk : t.kind <;> rw [hk] at ht <;> first | rfl | exact Bool.noConfusion ht)
    exact Yields.of_stay hnone (expressionStatement_yields hexpr h hn hc)
  | @print word semicolon us e hword he hsemi =>
    simp only [List.length_append, List.length_cons, List.length_nil] at hn
    have hc : c.rest = word :: (us ++ semicolon :: rest) := by simpa using hc
    refine Yields.of_step hc (acceptIf_eq_some hc (by rw [hword]; rfl)) fun d hd => ?_
    simp only [hword]
    unfold printStatement
    refine (hexpr us _ e d he (by omega) hd (Stops.cons (by rw [hsemi]; decide))).bind
      fun v d1 hv hd1 => ?_
    refine Yields.of_step hd1 (expect_eq_ok hd1 hsemi) fun f hf => .pure hf ?_
    exact congrArg Stmt.print hv
  | @ret word semicolon us value hword hvalue hsemi =>
    simp only [List.length_append, List.length_cons, List.length_nil] at hn
    have hc : c.rest = word :: (us ++ semicolon :: rest) := by simpa using hc
    refine Yields.of_step hc (acceptIf_eq_some hc (by rw [hword]; rfl)) fun d hd => ?_
    simp only [hword]
    unfold returnStatement
    refine (optional_yields hexpr hvalue (by omega) hsemi (by decide) hd).bind fun v d1 hv hd1 => ?_
    refine Yields.of_step hd1 (expect_eq_ok hd1 hsemi) fun f hf => .pure hf ?_
    exact congrArg (Stmt.ret word) hv
  | @block left right parts hleft hparts hright =>
    simp only [List.length_append, List.length_cons, List.length_nil] at hn
    have hc : c.rest = left :: (parts.flatMap Prod.fst ++ right :: rest) := by simpa using hc
    refine Yields.of_step hc (acceptIf_eq_some hc (by rw [hleft]; rfl)) fun d hd => ?_
    simp only [hleft]
    refine (block_yields hdecl parts hparts hright (by omega) (by omega) hd).map fun v hv => ?_
    have hv : v.map (Stmt.relabel (fun _ => 0) id) =
        (parts.map fun p => p.2.1).map (Stmt.relabel (fun _ => 0) id) := hv
    simp only [Stmt.anonymous, Stmt.relabel, Stmt.relabelAll_eq_map, hv]
  | ifOnly hword hopening hcondition hclosing hthen =>
    refine Yields.of_step hc (acceptIf_eq_some hc (by rw [hword]; rfl)) fun d hd => ?_
    simp only [hword]
    exact ifStatement_yields_only (hexpr.mono (Nat.le_succ n)) hstmt hopening hcondition
      hclosing hthen (Nat.le_of_succ_le_succ hn) hd (hrest rfl)
  | ifElse hword hopening hcondition hclosing hthen hnearest hotherwise helse =>
    refine Yields.of_step hc (acceptIf_eq_some hc (by rw [hword]; rfl)) fun d hd => ?_
    simp only [hword]
    -- The first branch is not open to an `else`, so this one is left to the `if`.
    rw [hnearest rfl] at hthen
    exact ifStatement_yields_else (hexpr.mono (Nat.le_succ n)) hstmt hopening hcondition hclosing
      hthen hotherwise helse (Nat.le_of_succ_le_succ hn) hd hrest
  | loop hword hopening hcondition hclosing hbody =>
    refine Yields.of_step hc (acceptIf_eq_some hc (by rw [hword]; rfl)) fun d hd => ?_
    simp only [hword]
    exact whileStatement_yields (hexpr.mono (Nat.le_succ n)) hstmt hopening hcondition
      hclosing hbody (Nat.le_of_succ_le_succ hn) hd hrest
  | forLoop hword hopening hfirst hcondition hsemi hincrement hclosing hbody =>
    refine Yields.of_step hc (acceptIf_eq_some hc (by rw [hword]; rfl)) fun d hd => ?_
    simp only [hword]
    exact forStatement_yields (hexpr.mono (Nat.le_succ n)) hstmt hopening hfirst hcondition
      hsemi hincrement hclosing hbody (Nat.le_of_succ_le_succ hn) hd hrest

lemma declarationWith_yields {ts rest : List Token} {s : Stmt} {dangling : Bool} {c : Cursor}
    (h : DerivesStmt .nearest .declaration ts s dangling) (hn : ts.length ≤ n + 1)
    (hc : c.rest = ts ++ rest) (hrest : NoElse rest) :
    Yields Stmt.anonymous (declarationWith expr stmt decl steps) c s rest := by
  unfold declarationWith
  cases h with
  | statement h =>
    obtain ⟨t, us, hts, ht⟩ := h.starts
    have hnone : acceptIf leadsDeclaration c = .ok none c := by
      refine acceptIf_eq_none ?_
      rw [hc, hts]
      exact Stops.cons
        (by cases hk : t.kind <;> rw [hk] at ht <;> first | rfl | exact Bool.noConfusion ht)
    exact Yields.of_stay hnone
      (statementWith_yields hexpr hstmt hdecl hsteps ts rest s dangling c h hn hc fun _ => hrest)
  | declared h =>
    obtain ⟨word, us, rfl, hword⟩ := h.starts
    refine Yields.of_step hc (acceptIf_eq_some hc (by rw [hword]; rfl)) fun d hd => ?_
    simp only [hword]
    exact variableDeclaration_yields hexpr h (Nat.le_of_succ_le hn) hd
  | function parameters parts hword hname hopening hparameters hcount hlisted hclosing hleft
      hparts hright =>
    refine Yields.of_step hc (acceptIf_eq_some hc (by rw [hword]; rfl)) fun d hd => ?_
    simp only [hword]
    exact functionDeclaration_yields hdecl hsteps hname hopening hparameters hcount hlisted hclosing
      hleft hparts hright (Nat.le_of_succ_le_succ hn) hd

end

/-- Whatever the grammar derives with every `else` at the nearest `if` is read as it is derived, in
`n + 3` steps if it has up to `n` tokens. -/
theorem readsStatements_readsDeclarations : ∀ steps n : ℕ, n + 3 ≤ steps →
    ReadsStatements (statement steps) n ∧ ReadsDeclarations (declaration steps) n := by
  intro steps
  induction steps with
  | zero => intro n h; omega
  | succ steps ih =>
    intro n h
    cases n with
    | zero =>
      have hlong : ∀ {rule : StmtRule} {ts : List Token} {s : Stmt} {dangling : Bool},
          DerivesStmt .nearest rule ts s dangling → ¬ ts.length ≤ 0 := by
        intro rule ts s dangling h
        obtain ⟨t, us, rfl, -⟩ := h.starts
        simp
      exact ⟨fun ts rest s dangling c h hn => (hlong h hn).elim,
        fun ts rest s dangling c h hn => (hlong h hn).elim⟩
    | succ n =>
      obtain ⟨hstmt, hdecl⟩ := ih n (by omega)
      have hexpr : ReadsExpressions (expression steps) (n + 1) := readsExpressions (by omega)
      refine ⟨?_, ?_⟩
      · rw [statement]
        exact statementWith_yields hexpr hstmt hdecl (by omega)
      · intro ts rest s dangling c hderives hn hc hrest
        have hsteps : n < steps := by omega
        obtain ⟨v, d, hread, hrest, herrors, hv⟩ :=
          declarationWith_yields hexpr hstmt hdecl hsteps hderives hn hc hrest
        refine ⟨some v, d, ?_, hrest, herrors, by simpa using hv⟩
        rw [declaration, recovering, hread]

end LoxLang.Grammar
