import LoxLang.Proofs.Grammar.Acceptance
import LoxLang.Proofs.Grammar.Shapes

/-!
# The trees that are read

Without an error the trees keep to the limits on arguments and parameters, since the grammar does.
Their node ids are distinct, in one tree and in all trees that are read one after the other.
-/

namespace LoxLang.Grammar

/-! ## Limits -/

/-- What the grammar derives is `WellFormed` and keeps to the limits. -/
lemma DerivesExpr.wellFormed {rule : ExprRule} {ts : List Token} {e : Expr}
    (h : DerivesExpr rule ts e) : e.WellFormed True := by
  induction h with
  | assignment id _ _ _ ih => exact .assign id _ ih
  | loosest _ ih | operand _ ih | unsigned _ ih | callee _ ih => exact ih
  | operator _ hoperator _ ihleft ihright =>
    rw [← Level.node_eq hoperator]
    exact (wellFormed_composed True).node (Level.has_iff.mpr hoperator) ihleft ihright
  | sign hoperator _ ih => exact .unary hoperator ih
  | arguments parts _ _ _ hlength _ _ ihcallee ihparts =>
    exact .call _ ihcallee (List.forall_mem_map.mpr ihparts) fun _ => by simpa using hlength
  | falsity | truth | nil | constant => exact .literal _
  | named id _ => exact .read id _
  | grouping _ _ _ ih => exact .grouping ih

lemma Perhaps.wellFormed {ts : List Token} {value : Option Expr}
    (h : Perhaps (DerivesExpr .expression) ts value) : ∀ e ∈ value, e.WellFormed True := by
  cases h with
  | absent => simp
  | present he => simpa using he.wellFormed

lemma DerivesVariable.wellFormed {ts : List Token} {s : Stmt} (h : DerivesVariable ts s) :
    s.WellFormed True := by
  cases h with
  | bare => exact .var _ (by simp)
  | initialized _ _ _ he _ => exact .var _ (by simpa using he.wellFormed)

lemma DerivesExpressionStmt.wellFormed {ts : List Token} {s : Stmt}
    (h : DerivesExpressionStmt ts s) : s.WellFormed True ∧ s.declared? = none := by
  obtain ⟨he, -⟩ := h
  exact ⟨.expression he.wellFormed, rfl⟩

lemma DerivesInitializer.wellFormed {ts : List Token} {first : Option Stmt}
    (h : DerivesInitializer ts first) : ∀ s ∈ first, s.WellFormed True := by
  cases h with
  | bare => simp
  | declared h => simpa using h.wellFormed
  | expression h => simpa using h.wellFormed.1

lemma DerivesStmt.wellFormed {elses : ElseRule} {rule : StmtRule} {ts : List Token} {s : Stmt}
    {dangling : Bool} (h : DerivesStmt elses rule ts s dangling) :
    s.WellFormed True ∧ (rule = .statement → s.declared? = none) := by
  induction h with
  | statement _ ih => exact ⟨ih.1, by simp⟩
  | declared h => exact ⟨h.wellFormed, by simp⟩
  | function parameters parts _ _ _ _ hlength _ _ _ _ _ ih =>
    exact ⟨.function _ (fun _ => hlength) (List.forall_mem_map.mpr fun p hp => (ih p hp).1),
      by simp⟩
  | expression h => exact ⟨h.wellFormed.1, fun _ => h.wellFormed.2⟩
  | print _ he _ => exact ⟨.print he.wellFormed, fun _ => rfl⟩
  | ret _ hvalue _ => exact ⟨.ret _ hvalue.wellFormed, fun _ => rfl⟩
  | block parts _ _ _ ih =>
    exact ⟨.block (List.forall_mem_map.mpr fun p hp => (ih p hp).1), fun _ => rfl⟩
  | ifOnly _ _ hcondition _ _ ih =>
    -- A branch is derived by the rule `statement`, and so is no declaration.
    exact ⟨.branch hcondition.wellFormed (ih.2 rfl) ih.1 (by simp) (by simp), fun _ => rfl⟩
  | ifElse _ _ hcondition _ _ _ _ _ ihthen ihelse =>
    refine ⟨.branch hcondition.wellFormed (ihthen.2 rfl) ihthen.1 ?_ ?_, fun _ => rfl⟩
    · simpa using ihelse.2 rfl
    · simpa using ihelse.1
  | loop _ _ hcondition _ _ ih => exact ⟨.loop hcondition.wellFormed (ih.2 rfl) ih.1, fun _ => rfl⟩
  | forLoop _ _ hfirst hcondition _ hincrement _ _ ih =>
    obtain ⟨hloop, hplain⟩ :=
      (wellFormed_composed True).forLoop hfirst.wellFormed hcondition.wellFormed
        hincrement.wellFormed ih.1 (ih.2 rfl)
    rw [forLoop_eq] at hloop hplain
    exact ⟨hloop, fun _ => hplain⟩

/-- The statements of a program are `WellFormed`; without an error they also keep to the limits. -/
lemma parseProgram_wellFormed (tokens : List Token) (nextId : NodeId) :
    ∀ s ∈ (parseProgram tokens nextId).statements,
      s.WellFormed ((parseProgram tokens nextId).errors = []) := by
  intro s hs
  by_cases herrors : (parseProgram tokens nextId).errors = []
  · obtain ⟨parts, hparts, -, hstatements⟩ := (parseProgram_reads tokens nextId).2.2 herrors
    rw [← hstatements] at hs
    obtain ⟨p, hp, rfl⟩ := List.mem_map.mp hs
    exact (hparts p hp).wellFormed.1.mono fun _ => trivial
  · exact (parseProgram_gives tokens nextId s hs).mono herrors

/-! ## Node ids -/

/-- A token list that is to be read, as a program or as one expression. -/
inductive Input where
  | program (tokens : List Token)
  | expression (tokens : List Token)

namespace Input

/-- The variables in the trees of an input whose nodes are numbered from `nextId` on. -/
def occurrences (nextId : NodeId) : Input → List Occurrence
  | program tokens => Stmt.allOccurrences (parseProgram tokens nextId).statements
  | expression tokens =>
    match (parseExpression tokens nextId).result with
    | .ok e => e.occurrences
    | .error _ => []

/-- The next free id when an input has been read, starting with `nextId`. -/
def idAfter (nextId : NodeId) : Input → NodeId
  | program tokens => (parseProgram tokens nextId).nextId
  | expression tokens => (parseExpression tokens nextId).nextId

/-- The variables in the trees of inputs that are read one after the other. -/
def allOccurrences (nextId : NodeId) : List Input → List Occurrence
  | [] => []
  | input :: rest => input.occurrences nextId ++ allOccurrences (input.idAfter nextId) rest

/-- The next free id when `inputs` have been read one after the other. -/
def idAfterAll (nextId : NodeId) (inputs : List Input) : NodeId := inputs.foldl idAfter nextId

lemma numbered (input : Input) (nextId : NodeId) :
    nextId ≤ input.idAfter nextId ∧
      Numbered nextId (input.idAfter nextId) (input.occurrences nextId) := by
  cases input with
  | program tokens =>
    obtain ⟨hle, hnumbered, -⟩ := parseProgram_reads tokens nextId
    exact ⟨hle, hnumbered⟩
  | expression tokens =>
    obtain ⟨hle, hread⟩ := parseExpression_spans tokens nextId
    refine ⟨hle, ?_⟩
    rw [occurrences]
    split
    · next e he => exact (hread e he).1
    · exact .nil _ _

/-- The variables of all `inputs` have ids of their own. -/
lemma allNumbered (inputs : List Input) (nextId : NodeId) :
    nextId ≤ idAfterAll nextId inputs ∧
      Numbered nextId (idAfterAll nextId inputs) (allOccurrences nextId inputs) := by
  induction inputs generalizing nextId with
  | nil => exact ⟨le_rfl, .nil _ _⟩
  | cons input rest ih =>
    obtain ⟨hle, hfirst⟩ := input.numbered nextId
    obtain ⟨hrest, hothers⟩ := ih (input.idAfter nextId)
    exact ⟨hle.trans hrest, hfirst.append hothers hle hrest⟩

end Input

end LoxLang.Grammar
