import LoxLang.Proofs.Machine.Limits
import LoxLang.Proofs.Tree.Matching

/-!
# Expressions that match, on one machine

Of a node id, an evaluation sees only the depth that the table has for it.  So two expressions that
are the same but for node ids with the same depths cannot be told apart by any machine with that
table: they come to the same value and leave the very same machine.  This is more than what holds of
statements, which put their own trees into the store when they declare a function.
-/

namespace LoxLang

open LoxLang.Action

/-! ## Variables -/

section

variable {m : Machine} {i i' : NodeId}

lemma Machine.read?_congr (h : m.depths.get? i = m.depths.get? i') (lookup : Lookup) (x : String) :
    m.read? lookup i x = m.read? lookup i' x := by
  cases lookup with
  | byName => rfl
  | byDepth => rw [Machine.read?, Machine.read?, h]

lemma Machine.holder?_congr (h : m.depths.get? i = m.depths.get? i') (lookup : Lookup)
    (x : String) : m.holder? lookup i x = m.holder? lookup i' x := by
  cases lookup with
  | byName => rfl
  | byDepth => rw [Machine.holder?, Machine.holder?, h]

end

/-! ## Expressions -/

/-- Node ids that have the same depth in the table `depths`, or none. -/
def Depths.Same (depths : Depths) (i i' : NodeId) : Prop := depths.get? i = depths.get? i'

section

variable {lookup : Lookup} {eval : Expr → Action Value} {exec : Stmt → Action Unit}
  {depths : Depths} {m : Machine}
  (hsame : ∀ e e' m, e.Matches depths.Same Eq e' → m.depths = depths → eval e m = eval e' m)
  (hkeeps : ∀ e, (eval e).Keeps)

include hsame hkeeps

lemma evaluateAll_eq_of_matches {es es' : List Expr}
    (h : List.Forall₂ (Expr.Matches depths.Same Eq) es es') (hm : m.depths = depths) :
    evaluateAll eval es m = evaluateAll eval es' m := by
  induction h generalizing m with
  | nil => rfl
  | @cons e e' es es' he _ ih =>
    rw [evaluateAll_cons, evaluateAll_cons]
    refine bind_congr (hsame e e' m he hm) fun v m₁ hv => ?_
    have hm₁ : m₁.depths = depths := ((hkeeps e m).of_ok hv).depths.trans hm
    exact bind_congr (ih hm₁) fun _ _ _ => rfl

/-- One level of matching trees, if (`hsame`) their parts are evaluated alike. -/
lemma evaluateWith_eq_of_matches {e e' : Expr} (h : e.Matches depths.Same Eq e')
    (hm : m.depths = depths) :
    evaluateWith lookup eval exec e m = evaluateWith lookup eval exec e' m := by
  -- No evaluation touches the depth table, so the ids are the same to later parts too.
  have hafter : ∀ {e : Expr} {v : Value} {m₁ : Machine}, eval e m = .ok v m₁ → m₁.depths = depths :=
    fun hv => ((hkeeps _ m).of_ok hv).depths.trans hm
  cases h with
  | literal value => rfl
  | grouping hinner => exact hsame _ _ m hinner hm
  | unary hoperator hright =>
    subst hoperator
    exact bind_congr (hsame _ _ m hright hm) fun _ _ _ => rfl
  | binary hleft hoperator hright =>
    subst hoperator
    refine bind_congr (hsame _ _ m hleft hm) fun v m₁ hv => ?_
    exact bind_congr (hsame _ _ m₁ hright (hafter hv)) fun _ _ _ => rfl
  | @logical left left' right right' operator _ hleft hoperator hright =>
    subst hoperator
    refine bind_congr (hsame _ _ m hleft hm) fun v m₁ hv => ?_
    by_cases hsettles : settles operator.kind v
    · simp only [hsettles, if_true]
    · simp only [hsettles]
      exact hsame _ _ m₁ hright (hafter hv)
  | read hid hname =>
    subst hname hm
    simp only [evaluateWith, readVariable, Machine.read?_congr hid]
  | assign hid hname hvalue =>
    subst hname
    refine bind_congr (hsame _ _ m hvalue hm) fun v m₁ hv => bind_congr ?_ fun _ _ _ => rfl
    have hid : m₁.depths.Same _ _ := hafter hv ▸ hid
    simp only [assignVariable, Machine.holder?_congr hid]
  | call hcallee hparen harguments =>
    subst hparen
    refine bind_congr (hsame _ _ m hcallee hm) fun v m₁ hv => ?_
    exact bind_congr (evaluateAll_eq_of_matches hsame hkeeps harguments (hafter hv))
      fun _ _ _ => rfl

end

/-- Trees that match by `Depths.Same` are evaluated alike: the result of `evaluate` is the same, and
the machine that is left too. -/
theorem evaluate_eq_of_matches (lookup : Lookup) (steps : ℕ) {e e' : Expr} {m : Machine}
    (h : e.Matches m.depths.Same Eq e') :
    evaluate lookup steps e m = evaluate lookup steps e' m := by
  generalize hm : m.depths = depths at h
  induction steps generalizing e e' m with
  | zero => rw [evaluate, evaluate]
  | succ steps ih =>
    have hparts : ∀ e e' m, e.Matches depths.Same Eq e' → m.depths = depths →
        evaluate lookup steps e m = evaluate lookup steps e' m := fun _ _ _ he hm => ih hm he
    rw [evaluate, evaluate]
    exact evaluateWith_eq_of_matches hparts (Action.Keeps.closed.runs lookup steps).1 h hm

/-! ## Sinks that take everything -/

/-- A sink that has no limit and can be flushed. -/
structure Sink.TakesAll (s : Sink) : Prop where
  room : s.room = none
  flush : s.flush = none

/-- The machine with the line `text` added to its output. -/
def Machine.withLine (m : Machine) (text : String) : Machine :=
  { m with sink := { m.sink with written := m.sink.written ++ (text ++ "\n").toUTF8.data } }

lemma Machine.takesAll_withLine {m : Machine} (h : m.sink.TakesAll) (text : String) :
    (m.withLine text).sink.TakesAll :=
  ⟨h.room, h.flush⟩

/-- On a sink that `TakesAll` a line is always written. -/
lemma printLine_eq_withLine {m : Machine} (h : m.sink.TakesAll) (text : String) :
    printLine text m = .ok () (m.withLine text) :=
  printLine_eq_ok (Sink.write_of_none h.room)

/-- The sink `TakesAll` after an action too, if it did before. -/
def Action.LeavesSink {α : Type} (act : Action α) : Prop :=
  ∀ m, m.sink.TakesAll → (act m).Meets (fun _ m' => m'.sink.TakesAll) fun _ m' => m'.sink.TakesAll

lemma Action.LeavesSink.closed : Action.Closed @Action.LeavesSink where
  pure _ _ hm := hm
  bind hact hnext m hm := (hact m hm).bind fun v m₁ _ hm₁ => hnext v m₁ hm₁
  exhausted _ _ := trivial
  stop _ _ hm := hm
  define _ _ _ hm := hm
  newFrame _ _ _ hm := hm
  currentFrame _ hm := hm
  newObject _ hm := hm
  readClock _ hm := hm
  printLine text m hm := by
    rw [printLine_eq_withLine hm]
    exact Machine.takesAll_withLine hm text
  readVariable lookup id name m hm := by
    unfold Action.readVariable
    cases m.read? lookup id name.lexeme <;> exact hm
  assignVariable lookup id name v m hm := by
    unfold Action.assignVariable
    cases m.holder? lookup id name.lexeme <;> exact hm
  inFrame {α act} frame hact m hm := by
    have hinside := hact { m with current := frame } hm
    unfold Action.inFrame
    rcases hr : act { m with current := frame } with ⟨v, m₁⟩ | ⟨reason, m₁⟩ | _ <;>
      rw [hr] at hinside <;> exact hinside
  catchReturn {act} hact m hm := by
    have hinside := hact m hm
    unfold Action.catchReturn
    rcases hr : act m with ⟨v, m₁⟩ | ⟨_ | _ | _, m₁⟩ | _ <;> rw [hr] at hinside <;> exact hinside

end LoxLang
