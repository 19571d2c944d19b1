import LoxLang.Proofs.Grammar.Acceptance
import LoxLang.Proofs.Grammar.Relations

/-!
# Derivations with other tokens

The rules look only at the kinds of tokens and at the literals that they denote.  So a derivation
stays one when each token is replaced by one of the same kind and literal, for instance by the same
token on another line, and the two trees match.
-/

namespace LoxLang.Grammar

/-- Tokens are replaced, by `g`, by tokens that mean the same to the grammar. -/
structure KeepsMeaning (g : Token → Token) : Prop where
  kind : ∀ t, (g t).kind = t.kind
  literal : ∀ t, (g t).literal = t.literal

variable {g : Token → Token} {tokens : Token → Token → Prop}

/-! ## Expressions -/

lemma Listed.map {parts : List (List Token)} {ts : List Token} (hg : KeepsMeaning g)
    (h : Listed parts ts) : Listed (parts.map (List.map g)) (ts.map g) := by
  induction h with
  | none => exact .none
  | one ts => exact .one (ts.map g)
  | more hcomma _ ih =>
    rw [List.map_append]
    exact .more ((hg.kind _).trans hcomma) ih

/-- What is `Listed` is part of the list. -/
lemma Listed.mem {parts : List (List Token)} {ts : List Token} (h : Listed parts ts) :
    ∀ us ∈ parts, ∀ t ∈ us, t ∈ ts := by
  induction h with
  | none => simp
  | one ts => simp
  | more _ _ ih =>
    rintro us (_ | ⟨_, hus⟩) t ht
    · exact List.mem_append_left _ ht
    · exact List.mem_append_right _ (List.mem_cons_of_mem _ (ih us hus t ht))

lemma relabel_operatorTree (hg : KeepsMeaning g) (ids : NodeId → NodeId) (left : Expr)
    (operator : Token) (right : Expr) :
    (operatorTree left operator right).relabel ids g =
      operatorTree (left.relabel ids g) (g operator) (right.relabel ids g) := by
  simp only [operatorTree, hg.kind]
  split <;> rfl

lemma DerivesExpr.relabel (hg : KeepsMeaning g) {rule : ExprRule} {ts : List Token} {e : Expr}
    (h : DerivesExpr rule ts e) : DerivesExpr rule (ts.map g) (e.relabel id g) := by
  induction h with
  | assignment i hname hequal _ ih =>
    exact .assignment i ((hg.kind _).trans hname) ((hg.kind _).trans hequal) ih
  | loosest _ ih => exact .loosest ih
  | operand _ ih => exact .operand ih
  | operator _ hoperator _ ihleft ihright =>
    rw [List.map_append, relabel_operatorTree hg]
    exact .operator ihleft (by rw [hg.kind]; exact hoperator) ihright
  | sign hoperator _ ih => exact .sign (by rw [hg.kind]; exact hoperator) ih
  | unsigned _ ih => exact .unsigned ih
  | callee _ ih => exact .callee ih
  | arguments parts _ hopening _ hcount hlisted hclosing ihcallee ihparts =>
    -- The arguments are still listed with commas between them, for `g` keeps the kinds of tokens.
    have hparts := DerivesExpr.arguments (parts.map fun p => (p.1.map g, p.2.relabel id g)) ihcallee
      ((hg.kind _).trans hopening) (List.forall_mem_map.mpr ihparts) (by simpa using hcount)
      (by simpa [Function.comp_def] using hlisted.map hg) ((hg.kind _).trans hclosing)
    simpa [Expr.relabel, Expr.relabelAll_eq_map, Function.comp_def] using hparts
  | falsity ht => exact .falsity ((hg.kind _).trans ht)
  | truth ht => exact .truth ((hg.kind _).trans ht)
  | nil ht => exact .nil ((hg.kind _).trans ht)
  | constant ht hvalue =>
    exact .constant (by rw [hg.kind]; exact ht) (by rw [hg.literal]; exact hvalue)
  | named i ht => exact .named i ((hg.kind _).trans ht)
  | grouping hopening _ hclosing ih =>
    rw [List.map_cons, List.map_append]
    exact .grouping ((hg.kind _).trans hopening) ih ((hg.kind _).trans hclosing)

lemma DerivesExpr.matches {rule : ExprRule} {ts : List Token} {e : Expr} (h : DerivesExpr rule ts e)
    (htokens : ∀ t ∈ ts, tokens t (g t)) : e.Matches (· = ·) tokens (e.relabel id g) := by
  induction h with
  | assignment i _ _ _ ih =>
    rw [List.forall_mem_cons, List.forall_mem_cons] at htokens
    exact .assign rfl htokens.1 (ih htokens.2.2)
  | loosest _ ih | operand _ ih | unsigned _ ih | callee _ ih => exact ih htokens
  | operator _ _ _ ihleft ihright =>
    rw [List.forall_mem_append, List.forall_mem_cons] at htokens
    unfold operatorTree
    split
    · exact .logical (ihleft htokens.1) htokens.2.1 (ihright htokens.2.2)
    · exact .binary (ihleft htokens.1) htokens.2.1 (ihright htokens.2.2)
  | sign _ _ ih =>
    rw [List.forall_mem_cons] at htokens
    exact .unary htokens.1 (ih htokens.2)
  | arguments parts _ _ _ _ hlisted _ ihcallee ihparts =>
    simp only [List.forall_mem_append, List.forall_mem_cons] at htokens
    refine .call (ihcallee htokens.1) htokens.2.2.2.1 ?_
    rw [Expr.relabelAll_eq_map, List.forall₂_map_right_iff, List.forall₂_same]
    intro e he
    obtain ⟨p, hp, rfl⟩ := List.mem_map.mp he
    exact ihparts p hp fun t ht => htokens.2.2.1 t (hlisted.mem _ (List.mem_map_of_mem hp) t ht)
  | falsity _ | truth _ | nil _ | constant _ _ => exact .literal _
  | named i _ =>
    rw [List.forall_mem_singleton] at htokens
    exact .read rfl htokens
  | grouping _ _ _ ih =>
    rw [List.forall_mem_cons, List.forall_mem_append] at htokens
    exact .grouping (ih htokens.2.1)

/-! ## Statements -/

lemma Perhaps.relabel (hg : KeepsMeaning g) {ts : List Token} {e : Option Expr}
    (h : Perhaps (DerivesExpr .expression) ts e) :
    Perhaps (DerivesExpr .expression) (ts.map g) (e.map (Expr.relabel id g)) := by
  cases h with
  | absent => exact .absent
  | present he => exact .present (he.relabel hg)

lemma Perhaps.matches {ts : List Token} {e : Option Expr}
    (h : Perhaps (DerivesExpr .expression) ts e) (htokens : ∀ t ∈ ts, tokens t (g t)) :
    Option.Rel (Expr.Matches (· = ·) tokens) e (e.map (Expr.relabel id g)) := by
  cases h with
  | absent => exact .none
  | present he => exact .some (he.matches htokens)

lemma DerivesVariable.relabel (hg : KeepsMeaning g) {ts : List Token} {s : Stmt}
    (h : DerivesVariable ts s) : DerivesVariable (ts.map g) (s.relabel id g) := by
  cases h with
  | bare hword hname hsemicolon =>
    exact .bare ((hg.kind _).trans hword) ((hg.kind _).trans hname) ((hg.kind _).trans hsemicolon)
  | initialized hword hname hequal he hsemicolon =>
    simp only [List.map_cons, List.map_append]
    exact .initialized ((hg.kind _).trans hword) ((hg.kind _).trans hname)
      ((hg.kind _).trans hequal) (he.relabel hg) ((hg.kind _).trans hsemicolon)

lemma DerivesVariable.matches {ts : List Token} {s : Stmt} (h : DerivesVariable ts s)
    (htokens : ∀ t ∈ ts, tokens t (g t)) : s.Matches (· = ·) tokens (s.relabel id g) := by
  cases h with
  | bare _ _ _ =>
    simp only [List.forall_mem_cons] at htokens
    exact .var htokens.2.1 .none
  | initialized _ _ _ he _ =>
    simp only [List.forall_mem_cons, List.forall_mem_append] at htokens
    exact .var htokens.2.1 (.some (he.matches htokens.2.2.2.1))

lemma DerivesExpressionStmt.relabel (hg : KeepsMeaning g) {ts : List Token} {s : Stmt}
    (h : DerivesExpressionStmt ts s) : DerivesExpressionStmt (ts.map g) (s.relabel id g) := by
  cases h with
  | mk he hsemicolon =>
    rw [List.map_append]
    exact .mk (he.relabel hg) ((hg.kind _).trans hsemicolon)

lemma DerivesExpressionStmt.matches {ts : List Token} {s : Stmt} (h : DerivesExpressionStmt ts s)
    (htokens : ∀ t ∈ ts, tokens t (g t)) : s.Matches (· = ·) tokens (s.relabel id g) := by
  cases h with
  | mk he _ =>
    rw [List.forall_mem_append] at htokens
    exact .expression (he.matches htokens.1)

lemma DerivesInitializer.relabel (hg : KeepsMeaning g) {ts : List Token} {s : Option Stmt}
    (h : DerivesInitializer ts s) : DerivesInitializer (ts.map g) (s.map (Stmt.relabel id g)) := by
  cases h with
  | bare hsemicolon => exact .bare ((hg.kind _).trans hsemicolon)
  | declared hs => exact .declared (hs.relabel hg)
  | expression hs => exact .expression (hs.relabel hg)

lemma DerivesInitializer.matches {ts : List Token} {s : Option Stmt} (h : DerivesInitializer ts s)
    (htokens : ∀ t ∈ ts, tokens t (g t)) :
    Option.Rel (Stmt.Matches (· = ·) tokens) s (s.map (Stmt.relabel id g)) := by
  cases h with
  | bare _ => exact .none
  | declared hs => exact .some (hs.matches htokens)
  | expression hs => exact .some (hs.matches htokens)

lemma relabel_loopOf (ids : NodeId → NodeId) (first : Option Stmt)
    (condition increment : Option Expr) (body : Stmt) :
    (loopOf first condition increment body).relabel ids g =
      loopOf (first.map (Stmt.relabel ids g)) (condition.map (Expr.relabel ids g))
        (increment.map (Expr.relabel ids g)) (body.relabel ids g) := by
  cases first <;> cases condition <;> cases increment <;>
    simp [loopOf, roundOf, Stmt.relabel, Stmt.relabelAll, Expr.relabel]

/-- The `parts` of a block or a program with other tokens. -/
lemma relabel_parts (parts : List (List Token × Stmt × Bool)) :
    (parts.flatMap Prod.fst).map g =
        (parts.map fun p => (p.1.map g, p.2.1.relabel id g, p.2.2)).flatMap Prod.fst ∧
      (parts.map fun p => p.2.1).map (Stmt.relabel id g) =
        (parts.map fun p => (p.1.map g, p.2.1.relabel id g, p.2.2)).map fun p => p.2.1 := by
  simp [List.map_flatMap, List.flatMap_map, Function.comp_def]

lemma DerivesStmt.relabel (hg : KeepsMeaning g) {elses : ElseRule} {rule : StmtRule}
    {ts : List Token} {s : Stmt} {dangling : Bool} (h : DerivesStmt elses rule ts s dangling) :
    DerivesStmt elses rule (ts.map g) (s.relabel id g) dangling := by
  induction h with
  | statement _ ih => exact .statement ih
  | declared hs => exact .declared (hs.relabel hg)
  | @function _ _ _ _ _ _ us parameters parts hword hname hopening hparameters hcount hlisted
      hclosing hleft _ hright ih =>
    have hlisted' : Listed ((parameters.map g).map fun p => [p]) (us.map g) := by
      simpa [Function.comp_def] using hlisted.map hg
    obtain ⟨htext, hbody⟩ := relabel_parts (g := g) parts
    simp only [List.map_cons, List.map_append, htext, Stmt.relabel, Stmt.relabelAll_eq_map, hbody]
    refine .function (parameters.map g) (parts.map fun p => (p.1.map g, p.2.1.relabel id g, p.2.2))
      ((hg.kind _).trans hword) ((hg.kind _).trans hname) ((hg.kind _).trans hopening) ?_
      (by simpa using hcount) hlisted' ((hg.kind _).trans hclosing) ((hg.kind _).trans hleft)
      (List.forall_mem_map.mpr ih) ((hg.kind _).trans hright)
    exact List.forall_mem_map.mpr fun p hp => (hg.kind p).trans (hparameters p hp)
  | expression hs => exact .expression (hs.relabel hg)
  | print hword he hsemicolon =>
    rw [List.map_cons, List.map_append]
    exact .print ((hg.kind _).trans hword) (he.relabel hg) ((hg.kind _).trans hsemicolon)
  | ret hword hvalue hsemicolon =>
    rw [List.map_cons, List.map_append]
    exact .ret ((hg.kind _).trans hword) (hvalue.relabel hg) ((hg.kind _).trans hsemicolon)
  | block parts hleft _ hright ih =>
    obtain ⟨htext, hbody⟩ := relabel_parts (g := g) parts
    simp only [List.map_cons, List.map_append, htext, Stmt.relabel, Stmt.relabelAll_eq_map, hbody]
    exact .block (parts.map fun p => (p.1.map g, p.2.1.relabel id g, p.2.2))
      ((hg.kind _).trans hleft) (List.forall_mem_map.mpr ih) ((hg.kind _).trans hright)
  | ifOnly hword hopening he hclosing _ ih =>
    simp only [List.map_cons, List.map_append]
    exact .ifOnly ((hg.kind _).trans hword) ((hg.kind _).trans hopening) (he.relabel hg)
      ((hg.kind _).trans hclosing) ih
  | ifElse hword hopening he hclosing _ hnearest hotherwise _ ihthen ihelse =>
    simp only [List.map_cons, List.map_append]
    exact .ifElse ((hg.kind _).trans hword) ((hg.kind _).trans hopening) (he.relabel hg)
      ((hg.kind _).trans hclosing) ihthen hnearest ((hg.kind _).trans hotherwise) ihelse
  | loop hword hopening he hclosing _ ih =>
    simp only [List.map_cons, List.map_append]
    exact .loop ((hg.kind _).trans hword) ((hg.kind _).trans hopening) (he.relabel hg)
      ((hg.kind _).trans hclosing) ih
  | forLoop hword hopening hfirst hcondition hsemicolon hincrement hclosing _ ih =>
    simp only [List.map_cons, List.map_append, relabel_loopOf]
    exact .forLoop ((hg.kind _).trans hword) ((hg.kind _).trans hopening) (hfirst.relabel hg)
      (hcondition.relabel hg) ((hg.kind _).trans hsemicolon) (hincrement.relabel hg)
      ((hg.kind _).trans hclosing) ih

/-- The `parts` of a block or a program match if each of them does. -/
lemma matches_parts {parts : List (List Token × Stmt × Bool)}
    (h : ∀ p ∈ parts, (∀ t ∈ p.1, tokens t (g t)) →
      p.2.1.Matches (· = ·) tokens (p.2.1.relabel id g))
    (htokens : ∀ t ∈ parts.flatMap Prod.fst, tokens t (g t)) :
    List.Forall₂ (Stmt.Matches (· = ·) tokens) (parts.map fun p => p.2.1)
      ((parts.map fun p => p.2.1).map (Stmt.relabel id g)) := by
  rw [List.forall₂_map_right_iff, List.forall₂_same]
  intro s hs
  obtain ⟨p, hp, rfl⟩ := List.mem_map.mp hs
  exact h p hp fun t ht => htokens t (List.mem_flatMap.mpr ⟨p, hp, ht⟩)

lemma DerivesStmt.matches {elses : ElseRule} {rule : StmtRule} {ts : List Token} {s : Stmt}
    {dangling : Bool} (h : DerivesStmt elses rule ts s dangling)
    (htokens : ∀ t ∈ ts, tokens t (g t)) : s.Matches (· = ·) tokens (s.relabel id g) := by
  induction h with
  | statement _ ih => exact ih htokens
  | declared hs => exact hs.matches htokens
  | function parameters parts _ _ _ _ _ hlisted _ _ _ _ ih =>
    simp only [List.forall_mem_cons, List.forall_mem_append] at htokens
    rw [Stmt.relabel, Stmt.relabelAll_eq_map]
    refine .function htokens.2.1 ?_ (matches_parts ih htokens.2.2.2.2.2.2.1)
    rw [List.forall₂_map_right_iff, List.forall₂_same]
    exact fun p hp =>
      htokens.2.2.2.1 p (hlisted.mem [p] (List.mem_map_of_mem hp) p (List.mem_singleton.mpr rfl))
  | expression hs => exact hs.matches htokens
  | print _ he _ =>
    rw [List.forall_mem_cons, List.forall_mem_append] at htokens
    exact .print (he.matches htokens.2.1)
  | ret _ hvalue _ =>
    rw [List.forall_mem_cons, List.forall_mem_append] at htokens
    exact .ret htokens.1 (hvalue.matches htokens.2.1)
  | block parts _ _ _ ih =>
    rw [List.forall_mem_cons, List.forall_mem_append] at htokens
    rw [Stmt.relabel, Stmt.relabelAll_eq_map]
    exact .block (matches_parts ih htokens.2.1)
  | ifOnly _ _ he _ _ ih =>
    simp only [List.forall_mem_cons, List.forall_mem_append] at htokens
    exact .branch (he.matches htokens.2.2.1) (ih htokens.2.2.2.2) .none
  | ifElse _ _ he _ _ _ _ _ ihthen ihelse =>
    simp only [List.forall_mem_cons, List.forall_mem_append] at htokens
    exact .branch (he.matches htokens.2.2.1) (ihthen htokens.2.2.2.2.1)
      (.some (ihelse htokens.2.2.2.2.2.2))
  | loop _ _ he _ _ ih =>
    simp only [List.forall_mem_cons, List.forall_mem_append] at htokens
    exact .loop (he.matches htokens.2.2.1) (ih htokens.2.2.2.2)
  | forLoop _ _ hfirst hcondition _ hincrement _ _ ih =>
    simp only [List.forall_mem_cons, List.forall_mem_append] at htokens
    obtain ⟨-, -, hfs, hcs, -, hus, -, hts⟩ := htokens
    rw [relabel_loopOf, ← forLoop_eq, ← forLoop_eq]
    exact matches_forLoop (hfirst.matches hfs) (hcondition.matches hcs)
      (hincrement.matches hus) (ih hts)

/-! ## Programs -/

lemma DerivesProgram.relabel (hg : KeepsMeaning g) {elses : ElseRule} {ts : List Token}
    {statements : List Stmt} (h : DerivesProgram elses ts statements) :
    DerivesProgram elses (ts.map g) (statements.map (Stmt.relabel id g)) := by
  obtain ⟨parts, hparts, rfl, rfl⟩ := h
  obtain ⟨htext, hstatements⟩ := relabel_parts (g := g) parts
  exact ⟨_, List.forall_mem_map.mpr fun p hp => (hparts p hp).relabel hg, htext.symm,
    hstatements.symm⟩

lemma DerivesProgram.matches {elses : ElseRule} {ts : List Token} {statements : List Stmt}
    (h : DerivesProgram elses ts statements) (htokens : ∀ t ∈ ts, tokens t (g t)) :
    List.Forall₂ (Stmt.Matches (· = ·) tokens) statements (statements.map (Stmt.relabel id g)) := by
  obtain ⟨parts, hparts, rfl, rfl⟩ := h
  exact matches_parts (fun p hp => (hparts p hp).matches) htokens

/-- One program after another is a program. -/
lemma DerivesProgram.append {elses : ElseRule} {ts us : List Token} {statements more : List Stmt}
    (h : DerivesProgram elses ts statements) (h' : DerivesProgram elses us more) :
    DerivesProgram elses (ts ++ us) (statements ++ more) := by
  obtain ⟨parts, hparts, rfl, rfl⟩ := h
  obtain ⟨parts', hparts', rfl, rfl⟩ := h'
  exact ⟨parts ++ parts', List.forall_mem_append.mpr ⟨hparts, hparts'⟩, List.flatMap_append,
    List.map_append⟩

end LoxLang.Grammar
