import LoxLang.Proofs.Grammar.Expressions

/-!
# Reading statements

The statement readers come to an end within as many steps as there are tokens, and a declaration
moves on whether it can be read or not.  Statements read without errors are derived by the grammar
with every `else` at the nearest `if`: if such a text may still be continued by an `else`, no `else`
is next.
-/

namespace LoxLang.Grammar

open Reader

/-- What reading a statement by a `rule` comes to: it moves on, it is derived if nothing was noted,
and its nodes are numbered from `c` on. -/
structure StmtRead (rule : StmtRule) (c : Cursor) (used : List Token)
    (noted : List GrammarError) (s : Stmt) (d : Cursor) : Prop where
  moved : used ≠ []
  derives : noted = [] → ∃ dangling, DerivesStmt .nearest rule used s dangling ∧
    (dangling = true → d.sees .elseWord = false)
  numbered : Numbered c.nextId d.nextId s.occurrences

/-- What reading a declaration comes to; nothing is `kept` of one that is broken. -/
structure DeclarationRead (c : Cursor) (used : List Token) (noted : List GrammarError)
    (kept : Option Stmt) (d : Cursor) : Prop where
  moved : used ≠ []
  derives : noted = [] → ∃ s dangling,
    kept = some s ∧ DerivesStmt .nearest .declaration used s dangling
  numbered : Numbered c.nextId d.nextId (Stmt.optionalOccurrences kept)

/-- A statement that no `else` can continue. -/
lemma StmtRead.of_closed {rule : StmtRule} {c d : Cursor} {used : List Token}
    {noted : List GrammarError} {s : Stmt} (hmoved : used ≠ [])
    (hderives : noted = [] → DerivesStmt .nearest rule used s false)
    (hnum : Numbered c.nextId d.nextId s.occurrences) : StmtRead rule c used noted s d where
  moved := hmoved
  derives hes := ⟨false, hderives hes, by simp⟩
  numbered := hnum

/-! ## Simple statements -/

section

variable {expr : Reader Expr} {n : ℕ}
  (hexpr : ∀ d : Cursor, d.rest.length ≤ n → Reads expr d (ExprRead .expression d))

include hexpr

lemma expressionStatement_reads {c : Cursor} (hn : c.rest.length ≤ n) :
    Reads (expressionStatement expr) c (ItemRead DerivesExpressionStmt Stmt.occurrences c) := by
  unfold expressionStatement
  refine Reads.bind (hexpr c hn) fun us es e d _ he => ?_
  refine Reads.expect_bind fun semicolon hsemi hend => Reads.pure ⟨by simp, fun hes => ?_, ?_⟩
  · exact .mk (he.derives (by simpa using hes)) hsemi
  · exact he.numbered.mono le_rfl hend.nextId

/-- An expression that is absent if a token of the given `kind` is next. -/
lemma optional_reads {kind : Kind} {c : Cursor} (hn : c.rest.length ≤ n) :
    Reads (unlessSees kind expr) c fun used noted value d =>
      (noted = [] → Perhaps (DerivesExpr .expression) used value) ∧
        Numbered c.nextId d.nextId (value.elim [] Expr.occurrences) := by
  refine Reads.unlessSees (fun _ => ⟨fun _ => .absent, Numbered.nil _ _⟩) fun _ => ?_
  exact (hexpr c hn).mono fun us es e d _ he => ⟨fun hes => .present (he.derives hes), he.numbered⟩

lemma printStatement_reads {c : Cursor} {word : Token} (hword : word.kind = .printWord)
    (hstep : Span c c.advance [word] []) (hn : c.advance.rest.length ≤ n) :
    Reads (printStatement expr) c.advance fun us es => StmtRead .statement c (word :: us) es := by
  unfold printStatement
  refine Reads.bind (hexpr c.advance hn) fun us es e d _ he => ?_
  refine Reads.expect_bind fun semicolon hsemi hend =>
    Reads.pure (.of_closed (by simp) (fun hes => ?_) ?_)
  · exact .print hword (he.derives (by simpa using hes)) hsemi
  · exact he.numbered.mono hstep.nextId hend.nextId

lemma returnStatement_reads {c : Cursor} {word : Token} (hword : word.kind = .returnWord)
    (hstep : Span c c.advance [word] []) (hn : c.advance.rest.length ≤ n) :
    Reads (returnStatement expr word) c.advance fun us es => StmtRead .statement c
      (word :: us) es := by
  unfold returnStatement
  refine Reads.bind (optional_reads hexpr hn) fun us es value d _ hvalue => ?_
  refine Reads.expect_bind fun semicolon hsemi hend =>
    Reads.pure (.of_closed (by simp) (fun hes => ?_) ?_)
  · exact .ret hword (hvalue.1 (by simpa using hes)) hsemi
  · rw [Stmt.occurrences]
    exact hvalue.2.mono hstep.nextId hend.nextId

lemma variableDeclaration_reads {c : Cursor} {word : Token} (hword : word.kind = .varWord)
    (hstep : Span c c.advance [word] []) (hn : c.advance.rest.length ≤ n) :
    Reads (variableDeclaration expr) c.advance fun us es =>
      ItemRead DerivesVariable Stmt.occurrences c (word :: us) es := by
  unfold variableDeclaration
  refine Reads.expect_bind fun name hname hstepName => ?_
  have hlen := hstepName.length
  simp only [List.length_cons, List.length_nil] at hlen
  refine Reads.accept_bind (fun _ => ?_) fun equal hequal hstepEqual => ?_
  · refine Reads.expect_bind fun semicolon hsemi _ => Reads.pure ⟨by simp, fun _ => ?_, ?_⟩
    · exact .bare hword hname hsemi
    · exact Numbered.nil _ _
  · have hlen1 := hstepEqual.length
    simp only [List.length_cons, List.length_nil] at hlen1
    have hvalue : Reads (some <$> expr) c.advance.advance.advance fun us es value d =>
        ∃ e, value = some e ∧ ExprRead .expression c.advance.advance.advance us es e d :=
      Reads.map (hexpr _ (by omega)) fun us es e d _ he => ⟨e, rfl, he⟩
    refine Reads.bind hvalue ?_
    rintro us es _ d _ ⟨e, rfl, he⟩
    refine Reads.expect_bind fun semicolon hsemi hend => Reads.pure ⟨by simp, fun hes => ?_, ?_⟩
    · exact .initialized hword hname hequal (he.derives (by simpa using hes)) hsemi
    · exact he.numbered.mono (hstep.nextId.trans (hstepName.nextId.trans hstepEqual.nextId))
        hend.nextId

lemma forInitializer_reads {c : Cursor} (hn : c.rest.length ≤ n) :
    Reads (forInitializer expr) c fun used noted first d =>
      (noted = [] → DerivesInitializer used first) ∧
        Numbered c.nextId d.nextId (Stmt.optionalOccurrences first) := by
  unfold forInitializer
  refine Reads.accept_bind (fun _ => ?_) fun semicolon hsemi _ => ?_
  · refine Reads.accept_bind (fun _ => ?_) fun word hword hstep => ?_
    · refine Reads.map (expressionStatement_reads hexpr hn) fun us es s d _ hs => ?_
      exact ⟨fun hes => .expression (hs.derives hes), hs.numbered⟩
    · have hlen := hstep.length
      simp only [List.length_cons, List.length_nil] at hlen
      refine Reads.map (variableDeclaration_reads hexpr hword hstep (by omega))
        fun us es s d _ hs => ?_
      exact ⟨fun hes => .declared (hs.derives hes), hs.numbered⟩
  · exact Reads.pure ⟨fun _ => .bare hsemi, Numbered.nil _ _⟩

end

/-! ## Compound statements -/

section

variable {expr : Reader Expr} {stmt : Reader Stmt} {n : ℕ}
  (hexpr : ∀ d : Cursor, d.rest.length ≤ n → Reads expr d (ExprRead .expression d))
  (hstmt : ∀ d : Cursor, d.rest.length ≤ n → Reads stmt d (StmtRead .statement d))

/-- The text of a `condition` in parentheses. -/
def DerivesCondition (ts : List Token) (condition : Expr) : Prop :=
  ∃ opening cs closing, ts = opening :: (cs ++ [closing]) ∧ opening.kind = .leftParen ∧
    DerivesExpr .expression cs condition ∧ closing.kind = .rightParen

include hexpr

lemma condition_reads {α : Type} {opened closed : GrammarFault} {f : Expr → Reader α} {c : Cursor}
    {final : List Token → List GrammarError → α → Cursor → Prop} (hn : c.rest.length ≤ n)
    (hf : ∀ used noted condition d, Span c d used noted →
      ItemRead DerivesCondition Expr.occurrences c used noted condition d →
        Reads (f condition) d fun us es => final (used ++ us) (noted ++ es)) :
    Reads
      (do
        let _ ← expect .leftParen opened
        let condition ← expr
        let _ ← expect .rightParen closed
        f condition) c final := by
  refine Reads.expect_bind fun opening hopening hopen => ?_
  have hlen := hopen.length
  refine Reads.bind (hexpr _ (by omega)) fun cs es condition d hcond hcondition => ?_
  refine Reads.expect_bind fun closing hclosing hclose => ?_
  have hspan : Span c d.advance (opening :: (cs ++ [closing])) es := by
    simpa using (hopen.trans hcond).trans hclose
  have hread : ItemRead DerivesCondition Expr.occurrences c (opening :: (cs ++ [closing])) es
      condition d.advance :=
    ⟨by simp, fun hes => ⟨opening, cs, closing, rfl, hopening, hcondition.derives hes, hclosing⟩,
      hcondition.numbered.mono hopen.nextId hclose.nextId⟩
  simpa using hf _ es condition d.advance hspan hread

include hstmt

lemma ifStatement_reads {c : Cursor} {word : Token} (hword : word.kind = .ifWord)
    (hstep : Span c c.advance [word] []) (hn : c.advance.rest.length ≤ n) :
    Reads (ifStatement expr stmt) c.advance fun us es => StmtRead .statement c (word :: us) es := by
  unfold ifStatement
  refine condition_reads hexpr hn fun cs es condition d hcond hcondition => ?_
  have hlen := hcond.length
  refine Reads.bind (hstmt d (by omega)) fun ts fs thenBranch f hthen hthenRead => ?_
  have hlen1 := hthen.length
  have hbefore : c.nextId ≤ d.nextId := hstep.nextId.trans hcond.nextId
  have hfront : Numbered c.nextId f.nextId (condition.occurrences ++ thenBranch.occurrences) :=
    (hcondition.numbered.mono hstep.nextId le_rfl).append hthenRead.numbered hbefore hthen.nextId
  refine Reads.accept_bind (fun helse => Reads.pure ⟨by simp, fun hes => ?_, ?_⟩) ?_
  · -- No `else` is next, so the text may end here as one that an `else` could continue.
    have hes : es = [] ∧ fs = [] := by simpa using hes
    obtain ⟨opening, us, closing, rfl, hopening, he, hclosing⟩ := hcondition.derives hes.1
    obtain ⟨dangling, hbranch, -⟩ := hthenRead.derives hes.2
    refine ⟨true, ?_, fun _ => helse⟩
    simpa using DerivesStmt.ifOnly hword hopening he hclosing hbranch
  · simpa [Stmt.occurrences, Stmt.optionalOccurrences] using hfront
  · intro otherwise hotherwise hstepElse
    have hlen2 := hstepElse.length
    refine Reads.bind (hstmt _ (by omega)) fun vs gs elseBranch g helse helseRead => Reads.pure ?_
    refine ⟨by simp, fun hes => ?_, ?_⟩
    · have hes : es = [] ∧ fs = [] ∧ gs = [] := by simpa using hes
      obtain ⟨opening, us, closing, rfl, hopening, he, hclosing⟩ := hcondition.derives hes.1
      obtain ⟨inThen, hbranch, hnext⟩ := hthenRead.derives hes.2.1
      obtain ⟨dangling, hother, hafter⟩ := helseRead.derives hes.2.2
      refine ⟨dangling, ?_, hafter⟩
      have hsees : f.sees .elseWord = true := by
        simp [Cursor.sees, hstepElse.rest, hotherwise]
      -- Had the first branch been open to an `else`, it would have taken the one that is next.
      have hclosed : inThen = false := by
        by_contra hne
        have hno := hnext (by simpa using hne)
        rw [hsees] at hno
        exact Bool.noConfusion hno
      simpa using DerivesStmt.ifElse hword hopening he hclosing hbranch (fun _ => hclosed)
        hotherwise hother
    · rw [Stmt.occurrences, Stmt.optionalOccurrences]
      exact (hfront.mono le_rfl hstepElse.nextId).append helseRead.numbered
        (hbefore.trans (hthen.nextId.trans hstepElse.nextId)) helse.nextId

lemma whileStatement_reads {c : Cursor} {word : Token} (hword : word.kind = .whileWord)
    (hstep : Span c c.advance [word] []) (hn : c.advance.rest.length ≤ n) :
    Reads (whileStatement expr stmt) c.advance fun us es => StmtRead .statement c
      (word :: us) es := by
  unfold whileStatement
  refine condition_reads hexpr hn fun cs es condition d hcond hcondition => ?_
  have hlen := hcond.length
  refine Reads.bind (hstmt d (by omega)) fun ts fs body f hbody hbodyRead => Reads.pure ?_
  refine ⟨by simp, fun hes => ?_, ?_⟩
  · have hes : es = [] ∧ fs = [] := by simpa using hes
    obtain ⟨opening, us, closing, rfl, hopening, he, hclosing⟩ := hcondition.derives hes.1
    obtain ⟨dangling, hderives, hafter⟩ := hbodyRead.derives hes.2
    refine ⟨dangling, ?_, hafter⟩
    simpa using DerivesStmt.loop hword hopening he hclosing hderives
  · exact (hcondition.numbered.mono hstep.nextId le_rfl).append hbodyRead.numbered
      (hstep.nextId.trans hcond.nextId) hbody.nextId

omit hexpr hstmt in
/-- The clauses of a `for` are read in another order than they stand in its `forLoop`. -/
lemma occurrences_forLoop (first : Option Stmt) (condition increment : Option Expr) (body : Stmt) :
    (Stmt.optionalOccurrences first ++ (condition.elim [] Expr.occurrences ++
      (increment.elim [] Expr.occurrences ++ body.occurrences))).Perm
        (forLoop first condition increment body).occurrences := by
  have hcond : (condition.getD (.literal (.bool true))).occurrences =
      condition.elim [] Expr.occurrences := by
    cases condition <;> rfl
  -- The increment is read before the body and stands behind it in the round.
  have hbody : (increment.elim [] Expr.occurrences ++ body.occurrences).Perm
      (increment.elim body fun e => .block [body, .expression e]).occurrences := by
    cases increment with
    | none => exact List.Perm.refl _
    | some e =>
      simp only [Option.elim_some, Stmt.occurrences, Stmt.allOccurrences, List.append_nil]
      exact List.perm_append_comm
  have hloop : (condition.elim [] Expr.occurrences ++
      (increment.elim [] Expr.occurrences ++ body.occurrences)).Perm
      (Stmt.loop (condition.getD (.literal (.bool true)))
        (increment.elim body fun e => .block [body, .expression e])).occurrences := by
    rw [Stmt.occurrences, hcond]
    exact hbody.append_left _
  cases first with
  | none => simpa [forLoop, Stmt.optionalOccurrences] using hloop
  | some s =>
    simp only [forLoop, Option.elim_some, Stmt.optionalOccurrences, Stmt.occurrences,
      Stmt.allOccurrences, List.append_nil] at hloop ⊢
    exact hloop.append_left _

lemma forStatement_reads {c : Cursor} {word : Token} (hword : word.kind = .forWord)
    (hstep : Span c c.advance [word] []) (hn : c.advance.rest.length ≤ n) :
    Reads (forStatement expr stmt) c.advance fun us es =>
      StmtRead .statement c (word :: us) es := by
  unfold forStatement
  refine Reads.expect_bind fun opening hopening hopen => ?_
  have hlen := hopen.length
  refine Reads.bind (forInitializer_reads hexpr (by omega))
    fun fs xs first d hfirst hfirstRead => ?_
  have hlen1 := hfirst.length
  refine Reads.bind (optional_reads hexpr (by omega)) fun cs ys condition e hcond hcondRead => ?_
  have hlen2 := hcond.length
  refine Reads.expect_bind fun semicolon hsemi hmid => ?_
  have hlen3 := hmid.length
  refine Reads.bind (optional_reads hexpr (by omega)) fun us zs increment f hincr hincrRead => ?_
  have hlen4 := hincr.length
  refine Reads.expect_bind fun closing hclosing hclose => ?_
  have hlen5 := hclose.length
  refine Reads.bind (hstmt _ (by omega)) fun ts ws body g hbody hbodyRead => Reads.pure ?_
  refine ⟨by simp, fun hes => ?_,
    Numbered.perm ?_ (occurrences_forLoop first condition increment body)⟩
  · have hes : xs = [] ∧ ys = [] ∧ zs = [] ∧ ws = [] := by simpa using hes
    obtain ⟨dangling, hderives, hafter⟩ := hbodyRead.derives hes.2.2.2
    refine ⟨dangling, ?_, hafter⟩
    rw [forLoop_eq]
    simpa using DerivesStmt.forLoop hword hopening (hfirstRead.1 hes.1) (hcondRead.1 hes.2.1) hsemi
      (hincrRead.1 hes.2.2.1) hclosing hderives
  · -- The clauses are numbered in the order in which they are read.
    have hincrNum : Numbered e.advance.nextId g.nextId
        (increment.elim [] Expr.occurrences ++ body.occurrences) :=
      (hincrRead.2.mono le_rfl hclose.nextId).append hbodyRead.numbered
        (hincr.nextId.trans hclose.nextId) hbody.nextId
    have hupper : e.advance.nextId ≤ g.nextId :=
      hincr.nextId.trans (hclose.nextId.trans hbody.nextId)
    have hlower : c.nextId ≤ c.advance.advance.nextId := hstep.nextId.trans hopen.nextId
    exact (hfirstRead.2.mono hlower le_rfl).append
      ((hcondRead.2.mono le_rfl hmid.nextId).append hincrNum
        (hcond.nextId.trans hmid.nextId) hupper)
      (hlower.trans hfirst.nextId) (hcond.nextId.trans (hmid.nextId.trans hupper))

end

/-! ## Blocks and functions -/

/-- What reading declarations in a row comes to. -/
structure DeclarationsRead (c : Cursor) (used : List Token) (noted : List GrammarError)
    (kept : List Stmt) (d : Cursor) : Prop where
  derives : noted = [] → DerivesProgram .nearest used kept
  numbered : Numbered c.nextId d.nextId (Stmt.allOccurrences kept)

lemma DeclarationsRead.nil (c : Cursor) : DeclarationsRead c [] [] [] c where
  derives _ := ⟨[], by simp, rfl, rfl⟩
  numbered := Numbered.nil _ _

/-- One declaration and the ones after it. -/
lemma DeclarationsRead.cons {c d e : Cursor} {us vs : List Token} {xs ys : List GrammarError}
    {first : Option Stmt} {rest : List Stmt} (hspan : Span c d us xs)
    (hfirst : DeclarationRead c us xs first d) (hmore : Span d e vs ys)
    (hrest : DeclarationsRead d vs ys rest e) :
    DeclarationsRead c (us ++ vs) (xs ++ ys) (first.toList ++ rest) e where
  derives hes := by
    obtain ⟨hxs, hys⟩ := List.append_eq_nil_iff.mp hes
    obtain ⟨s, dangling, rfl, hs⟩ := hfirst.derives hxs
    obtain ⟨parts, hparts, rfl, rfl⟩ := hrest.derives hys
    refine ⟨(us, s, dangling) :: parts, ?_, rfl, rfl⟩
    rintro p (_ | ⟨_, hp⟩)
    · exact hs
    · exact hparts p hp
  numbered := by
    rw [Stmt.allOccurrences_append]
    have hone : Stmt.allOccurrences first.toList = Stmt.optionalOccurrences first := by
      cases first <;> simp [Stmt.allOccurrences, Stmt.optionalOccurrences]
    rw [hone]
    exact hfirst.numbered.append hrest.numbered hspan.nextId hmore.nextId

lemma declarations_reads {decl : Reader (Option Stmt)} {n : ℕ}
    (hdecl : ∀ d : Cursor, d.rest.length ≤ n → d.rest ≠ [] → Reads decl d (DeclarationRead d)) :
    ∀ (steps : ℕ) (c : Cursor), c.rest.length ≤ n → c.rest.length < steps →
      Reads (declarations decl steps) c (DeclarationsRead c) := by
  intro steps
  induction steps with
  | zero => intro c _ hsteps; omega
  | succ steps ih =>
    intro c hn hsteps
    unfold declarations
    refine Reads.sees_bind (Reads.atEnd_bind ?_)
    by_cases hend : (c.sees .rightBrace || c.atEnd) = true
    · rw [if_pos hend]
      exact Reads.pure (.nil c)
    · rw [if_neg hend]
      -- A declaration is only read where a token is next, and then it moves on.
      have hne : c.rest ≠ [] := by
        intro hnil
        exact hend (by simp [Cursor.atEnd, hnil])
      refine Reads.bind (hdecl c hn hne) fun us xs first d hspan hfirst => ?_
      have hlen := hspan.length
      have hpos : 0 < us.length := List.length_pos_iff.mpr hfirst.moved
      refine Reads.bind (ih d (by omega) (by omega)) fun vs ys rest e hmore hrest => Reads.pure ?_
      simpa using DeclarationsRead.cons hspan hfirst hmore hrest

/-- A parameter is a name. -/
def IsParameter (ts : List Token) (t : Token) : Prop := ts = [t] ∧ t.kind = .identifier

lemma parameter_reads {c : Cursor} :
    Reads (expect .identifier .noParameterName) c (ItemRead IsParameter (fun _ => []) c) :=
  Reads.expect fun _ ht => ⟨by simp, fun _ => ⟨rfl, ht⟩, Numbered.nil _ _⟩

section

variable {decl : Reader (Option Stmt)} {n : ℕ}
  (hdecl : ∀ d : Cursor, d.rest.length ≤ n → d.rest ≠ [] → Reads decl d (DeclarationRead d))

include hdecl

lemma block_reads {c : Cursor} {steps : ℕ} (hn : c.rest.length ≤ n)
    (hsteps : c.rest.length < steps) :
    Reads (block decl steps) c fun used noted body d =>
      (noted = [] → ∃ ts right, used = ts ++ [right] ∧ right.kind = .rightBrace ∧
        DerivesProgram .nearest ts body) ∧
        Numbered c.nextId d.nextId (Stmt.allOccurrences body) := by
  unfold block
  refine Reads.bind (declarations_reads hdecl steps c hn hsteps) fun us xs body d _ hbody => ?_
  refine Reads.expect_bind fun right hright hclose => Reads.pure ⟨fun hes => ?_, ?_⟩
  · exact ⟨us, right, by simp, hright, hbody.derives (by simpa using hes)⟩
  · exact hbody.numbered.mono le_rfl hclose.nextId

lemma functionDeclaration_reads {c : Cursor} {word : Token} {steps : ℕ}
    (hword : word.kind = .funWord) (hstep : Span c c.advance [word] [])
    (hn : c.advance.rest.length ≤ n) (hsteps : c.advance.rest.length < steps) :
    Reads (functionDeclaration decl steps) c.advance fun us es =>
      StmtRead .declaration c (word :: us) es := by
  unfold functionDeclaration
  refine Reads.expect_bind fun name hname hstepName => ?_
  have hlen := hstepName.length
  refine Reads.expect_bind fun opening hopening hopen => ?_
  have hlen1 := hopen.length
  simp only [List.length_cons, List.length_nil] at hlen hlen1
  refine Reads.bind (listed_reads (fun _ _ => parameter_reads) (Nat.lt_succ_self _) (by omega)) ?_
  intro us xs parameters d hlist hparameters
  have hlen2 := hlist.length
  refine Reads.expect_bind fun closing hclosing hclose => ?_
  have hlen3 := hclose.length
  refine Reads.expect_bind fun left hleft hbrace => ?_
  have hlen4 := hbrace.length
  refine Reads.bind (block_reads hdecl (by omega) (by omega)) fun vs ys body e hblock hbody =>
    Reads.pure ?_
  refine .of_closed (by simp) (fun hes => ?_) ?_
  · have hes : xs = [] ∧ ys = [] := by simpa using hes
    obtain ⟨params, rfl, hforms, hbound, hlisted⟩ := hparameters.derives hes.1
    obtain ⟨ts, right, rfl, hright, parts, hparts, rfl, rfl⟩ := hbody.1 hes.2
    have hbound : (params.map Prod.snd).length ≤ 255 := by
      rcases hbound with rfl | hbound
      · simp
      · simpa using by omega
    have hnames : ∀ p ∈ params.map Prod.snd, p.kind = .identifier := by
      intro p hp
      obtain ⟨q, hq, rfl⟩ := List.mem_map.mp hp
      exact (hforms q hq).2
    have hlisted : Listed ((params.map Prod.snd).map fun p => [p]) us := by
      have hsame : (params.map Prod.snd).map (fun p => [p]) = params.map Prod.fst := by
        rw [List.map_map]
        exact List.map_congr_left fun q hq => (hforms q hq).1.symm
      rw [hsame]
      exact hlisted
    simpa using DerivesStmt.function _ parts hword hname hopening hnames hbound hlisted
      hclosing hleft hparts hright
  · refine hbody.2.mono ?_ le_rfl
    exact hstep.nextId.trans (hstepName.nextId.trans (hopen.nextId.trans
      (hlist.nextId.trans (hclose.nextId.trans hbrace.nextId))))

end

/-! ## Statements and declarations -/

section

variable {expr : Reader Expr} {stmt : Reader Stmt} {decl : Reader (Option Stmt)} {steps : ℕ}
  {c : Cursor}
  (hexpr : ∀ d : Cursor, d.rest.length ≤ c.rest.length → Reads expr d (ExprRead .expression d))
  (hstmt : ∀ d : Cursor, d.rest.length < c.rest.length → Reads stmt d (StmtRead .statement d))
  (hdecl : ∀ d : Cursor, d.rest.length < c.rest.length → d.rest ≠ [] →
    Reads decl d (DeclarationRead d))
  (hsteps : c.rest.length ≤ steps)

include hexpr hstmt hdecl hsteps

lemma statementWith_reads :
    Reads (statementWith expr stmt decl steps) c (StmtRead .statement c) := by
  unfold statementWith
  refine Reads.acceptIf_bind (fun _ => ?_) fun t ht hstep => ?_
  · exact (expressionStatement_reads hexpr le_rfl).mono fun us es s d _ hs =>
      .of_closed hs.moved (fun hes => .expression (hs.derives hes)) hs.numbered
  · have hlen := hstep.length
    simp only [List.length_cons, List.length_nil] at hlen
    -- The word has been read, so the texts that are left are shorter than the one at `c`.
    have hexpr' : ∀ d : Cursor, d.rest.length ≤ c.advance.rest.length →
        Reads expr d (ExprRead .expression d) := fun d hd => hexpr d (by omega)
    have hstmt' : ∀ d : Cursor, d.rest.length ≤ c.advance.rest.length →
        Reads stmt d (StmtRead .statement d) := fun d hd => hstmt d (by omega)
    have hdecl' : ∀ d : Cursor, d.rest.length ≤ c.advance.rest.length → d.rest ≠ [] →
        Reads decl d (DeclarationRead d) := fun d hd => hdecl d (by omega)
    simp only
    split
    · exact forStatement_reads hexpr' hstmt' ‹_› hstep le_rfl
    · exact ifStatement_reads hexpr' hstmt' ‹_› hstep le_rfl
    · exact printStatement_reads hexpr' ‹_› hstep le_rfl
    · exact returnStatement_reads hexpr' ‹_› hstep le_rfl
    · exact whileStatement_reads hexpr' hstmt' ‹_› hstep le_rfl
    · have hleft : t.kind = .leftBrace := by
        cases hk : t.kind <;> simp_all [leadsStatement]
      refine Reads.map (block_reads hdecl' le_rfl (by omega)) fun us es body d _ hbody => ?_
      refine .of_closed (by simp) (fun hes => ?_) (hbody.2.mono hstep.nextId le_rfl)
      obtain ⟨ts, right, rfl, hright, parts, hparts, rfl, rfl⟩ := hbody.1 hes
      exact .block parts hleft hparts hright

lemma declarationWith_reads :
    Reads (declarationWith expr stmt decl steps) c (StmtRead .declaration c) := by
  unfold declarationWith
  refine Reads.acceptIf_bind (fun _ => ?_) fun t ht hstep => ?_
  · refine (statementWith_reads hexpr hstmt hdecl hsteps).mono fun us es s d _ hs => ?_
    refine ⟨hs.moved, fun hes => ?_, hs.numbered⟩
    obtain ⟨dangling, hderives, hafter⟩ := hs.derives hes
    exact ⟨dangling, .statement hderives, hafter⟩
  · have hlen := hstep.length
    simp only [List.length_cons, List.length_nil] at hlen
    simp only
    split
    · exact functionDeclaration_reads (fun d hd => hdecl d (by omega)) ‹_› hstep le_rfl (by omega)
    · have hvar : t.kind = .varWord := by
        cases hk : t.kind <;> simp_all [leadsDeclaration]
      refine (variableDeclaration_reads (fun d hd => hexpr d (by omega)) hvar hstep le_rfl).mono ?_
      intro us es s d _ hs
      exact .of_closed hs.moved (fun hes => .declared (hs.derives hes)) hs.numbered

end

/-- A declaration that cannot be read is noted and stepped over by `recovering`. -/
lemma recovering_reads {r : Reader Stmt} {c : Cursor} (hne : c.rest ≠ [])
    (h : Reads r c (StmtRead .declaration c)) : Reads (recovering r) c (DeclarationRead c) := by
  cases hr : r c with
  | ok s d =>
    obtain ⟨used, noted, hspan, hs⟩ := h.ok hr
    refine Reads.of_ok (v := some s) (d := d) (by simp [recovering, hr]) hspan
      ⟨hs.moved, fun hes => ?_, ?_⟩
    · obtain ⟨dangling, hderives, -⟩ := hs.derives hes
      exact ⟨s, dangling, rfl, hderives⟩
    · exact hs.numbered
  | fail e d =>
    rw [Reads, hr] at h
    obtain ⟨used, noted, hspan⟩ := h
    obtain ⟨skipped, hskip, hmoved⟩ := Span.synchronize (d.record e)
    refine Reads.of_ok (v := none) (d := (d.record e).synchronize) (by simp [recovering, hr])
      ((hspan.trans (Span.record d e)).trans hskip) ⟨?_, by simp, Numbered.nil _ _⟩
    -- Either tokens were read before the failure, or the token at the cursor is stepped over.
    intro hnil
    have hboth : used = [] ∧ skipped = [] := by simpa using hnil
    refine hmoved ?_ hboth.2
    have hsame : c.rest = d.rest := by simpa [hboth.1] using hspan.rest
    exact hsame ▸ hne
  | exhausted =>
    rw [Reads, hr] at h
    exact h.elim

/-- Within a step for each token and three more, a `statement` and a `declaration` come to an end;
without errors they are derived by the grammar. -/
theorem statement_declaration_reads : ∀ (steps : ℕ) (c : Cursor), c.rest.length + 3 ≤ steps →
    Reads (statement steps) c (StmtRead .statement c) ∧
      (c.rest ≠ [] → Reads (declaration steps) c (DeclarationRead c)) := by
  intro steps
  induction steps with
  | zero => intro c hsteps; omega
  | succ steps ih =>
    intro c hsteps
    -- The parts of a statement are read in one step less.  An expression may start at the same
    -- token, statements and declarations within it start further on.
    have hexpr : ∀ d : Cursor, d.rest.length ≤ c.rest.length →
        Reads (expression steps) d (ExprRead .expression d) :=
      fun d hd => expression_reads steps d (by omega)
    have hstmt : ∀ d : Cursor, d.rest.length < c.rest.length →
        Reads (statement steps) d (StmtRead .statement d) := fun d hd => (ih d (by omega)).1
    have hdecl : ∀ d : Cursor, d.rest.length < c.rest.length → d.rest ≠ [] →
        Reads (declaration steps) d (DeclarationRead d) := fun d hd => (ih d (by omega)).2
    constructor
    · rw [statement]
      exact statementWith_reads hexpr hstmt hdecl (by omega)
    · intro hne
      rw [declaration]
      exact recovering_reads hne (declarationWith_reads hexpr hstmt hdecl (by omega))

/-- Reading a `program` stops at the end of input. -/
theorem program_reads {decl : Reader (Option Stmt)} {n : ℕ}
    (hdecl : ∀ d : Cursor, d.rest.length ≤ n → d.rest ≠ [] → Reads decl d (DeclarationRead d)) :
    ∀ (steps : ℕ) (c : Cursor), c.rest.length ≤ n → c.rest.length < steps →
      Reads (program decl steps) c fun used noted kept d =>
        DeclarationsRead c used noted kept d ∧ d.rest = [] := by
  intro steps
  induction steps with
  | zero => intro c _ hsteps; omega
  | succ steps ih =>
    intro c hn hsteps
    unfold program
    refine Reads.atEnd_bind ?_
    by_cases hend : c.rest = []
    · rw [if_pos (by simp [Cursor.atEnd, hend])]
      exact Reads.pure ⟨.nil c, hend⟩
    · rw [if_neg (by simp [Cursor.atEnd, hend])]
      refine Reads.bind (hdecl c hn hend) fun us xs first d hspan hfirst => ?_
      have hlen := hspan.length
      have hpos : 0 < us.length := List.length_pos_iff.mpr hfirst.moved
      refine Reads.bind (ih d (by omega) (by omega)) fun vs ys rest e hmore hrest => Reads.pure ?_
      simpa using ⟨DeclarationsRead.cons hspan hfirst hmore hrest.1, hrest.2⟩

/-! ## A program is always read -/

/-- A reader that never fails. -/
def NeverFails {α : Type} (r : Reader α) : Prop := ∀ c e d, r c ≠ .fail e d

lemma NeverFails.bind {α β : Type} {r : Reader α} {f : α → Reader β} (hr : NeverFails r)
    (hf : ∀ v, NeverFails (f v)) : NeverFails (r >>= f) := by
  intro c e d h
  change Reader.bind r f c = .fail e d at h
  unfold Reader.bind at h
  cases hfirst : r c with
  | ok v c' =>
    rw [hfirst] at h
    exact hf v c' e d h
  | fail e' c' => exact hr c e' c' hfirst
  | exhausted =>
    rw [hfirst] at h
    exact absurd h (by simp)

lemma declaration_neverFails (steps : ℕ) : NeverFails (declaration steps) := by
  intro c e d
  cases steps with
  | zero => simp [declaration, exhausted]
  | succ steps =>
    rw [declaration, recovering]
    split <;> simp

lemma program_neverFails {decl : Reader (Option Stmt)} (hdecl : NeverFails decl) (steps : ℕ) :
    NeverFails (program decl steps) := by
  have hpure : ∀ kept : List Stmt, NeverFails (pure kept) := fun _ _ _ _ => by
    simp [pure, Reader.pure]
  induction steps with
  | zero => exact fun _ _ _ => by simp [program, exhausted]
  | succ steps ih =>
    refine NeverFails.bind (fun _ _ _ => by simp [atEnd]) fun ended => ?_
    split
    · exact hpure []
    · exact hdecl.bind fun first => ih.bind fun rest => hpure _

/-- Whatever stands at the cursor `c`, all of it is read as a `program`, given steps enough (`hn`
and `hsteps`). -/
theorem program_ends {n steps : ℕ} {c : Cursor} (hn : c.rest.length + 3 ≤ n)
    (hsteps : c.rest.length < steps) :
    ∃ kept d noted, program (declaration n) steps c = .ok kept d ∧ Span c d c.rest noted ∧
      d.rest = [] ∧ DeclarationsRead c c.rest noted kept d := by
  have hdecl : ∀ d : Cursor, d.rest.length ≤ c.rest.length → d.rest ≠ [] →
      Reads (declaration n) d (DeclarationRead d) :=
    fun d hd => (statement_declaration_reads n d (by omega)).2
  have hread := program_reads hdecl steps c le_rfl hsteps
  cases hr : program (declaration n) steps c with
  | ok kept d =>
    obtain ⟨used, noted, hspan, hkept, hend⟩ := hread.ok hr
    obtain rfl : c.rest = used := by rw [hspan.rest, hend, List.append_nil]
    exact ⟨kept, d, noted, rfl, hspan, hend, hkept⟩
  | fail e d => exact (program_neverFails (declaration_neverFails n) steps c e d hr).elim
  | exhausted =>
    rw [Reads, hr] at hread
    exact hread.elim

end LoxLang.Grammar
