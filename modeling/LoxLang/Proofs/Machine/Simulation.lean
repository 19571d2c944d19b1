import LoxLang.Proofs.Machine.Matching

/-!
# Runs that match

Trees that match, run on machines that match, come to results that match.  The second run may be
given more steps than the first, so in particular a run that comes to its end does not depend on the
steps it is given.
-/

namespace LoxLang

open LoxLang.Action

section

variable {p : Pairing} {m m' : Machine}

/-! ## Single steps -/

lemma check_matches {operator operator' : Token} (hoperator : p.tokens operator operator')
    {result result' : Except RuntimeFault Value} (hresult : result = result')
    (hplain : ∀ v, result = .ok v → v.Matches p.ids p.tokens v) (hm : m.Matches p m') :
    (check operator result m).Matches p (Value.Matches p.ids p.tokens)
      (check operator' result' m') := by
  subst hresult
  cases hr : result with
  | ok v => exact ⟨hplain v hr, hm⟩
  | error fault => exact ⟨.error fault hoperator, hm⟩

lemma undefined_matches {name name' : Token} (hname : p.tokens name name') :
    Stop.Matches p.ids p.tokens (.error (.undefined name)) (.error (.undefined name')) := by
  rw [RuntimeError.undefined, RuntimeError.undefined, p.lexeme_eq _ _ hname]
  exact .error _ hname

lemma readVariable_matches {id id' : NodeId} {name name' : Token} (hid : p.ids id id')
    (hname : p.tokens name name') (lookup : Lookup) (hm : m.Matches p m') :
    (readVariable lookup id name m).Matches p (Value.Matches p.ids p.tokens)
      (readVariable lookup id' name' m') := by
  have hrel := hm.read? hid lookup name'.lexeme
  rw [readVariable, readVariable, p.lexeme_eq _ _ hname]
  generalize m.read? lookup id name'.lexeme = found,
    m'.read? lookup id' name'.lexeme = found' at hrel
  cases hrel with
  | none => exact ⟨undefined_matches hname, hm⟩
  | some hv => exact ⟨hv, hm⟩

lemma assignVariable_matches {id id' : NodeId} {name name' : Token} {v v' : Value}
    (hid : p.ids id id') (hname : p.tokens name name') (lookup : Lookup)
    (hv : v.Matches p.ids p.tokens v') (hm : m.Matches p m') :
    (assignVariable lookup id name v m).Matches p (fun _ _ => True)
      (assignVariable lookup id' name' v' m') := by
  rw [assignVariable, assignVariable, p.lexeme_eq _ _ hname, hm.holder?_eq hid]
  cases m'.holder? lookup id' name'.lexeme with
  | none => exact ⟨undefined_matches hname, hm⟩
  | some f => exact ⟨trivial, hm.define hv f _⟩

lemma printLine_matches (text : String) (hm : m.Matches p m') :
    (printLine text m).Matches p (fun _ _ => True) (printLine text m') := by
  rw [printLine, printLine, hm.sink]
  rcases m'.sink.writeLine text with ⟨fault, sink⟩
  cases fault with
  | none => exact ⟨trivial, { hm with sink := rfl }⟩
  | some fault => exact ⟨.sink fault, { hm with sink := rfl }⟩

lemma define_matches {v v' : Value} (x : String) (hv : v.Matches p.ids p.tokens v')
    (hm : m.Matches p m') : (define x v m).Matches p (fun _ _ => True) (define x v' m') := by
  refine ⟨trivial, { hm with store := ?_ }⟩
  rw [hm.current]
  exact hm.store.define hv _ x

/-! ## Parts -/

/-- Expressions that match come to results that match, by `eval` and `eval'`. -/
def EvalMatches (p : Pairing) (eval eval' : Expr → Action Value) : Prop :=
  ∀ e e' m m', e.Matches p.ids p.tokens e' → m.Matches p m' →
    (eval e m).Matches p (Value.Matches p.ids p.tokens) (eval' e' m')

/-- Statements that match come to results that match, by `exec` and `exec'`. -/
def ExecMatches (p : Pairing) (exec exec' : Stmt → Action Unit) : Prop :=
  ∀ s s' m m', s.Matches p.ids p.tokens s' → m.Matches p m' →
    (exec s m).Matches p (fun _ _ => True) (exec' s' m')

variable {eval eval' : Expr → Action Value} {exec exec' : Stmt → Action Unit}
  (heval : EvalMatches p eval eval') (hexec : ExecMatches p exec exec')

include heval in
lemma evaluateAll_matches {es es' : List Expr}
    (h : List.Forall₂ (Expr.Matches p.ids p.tokens) es es') (hm : m.Matches p m') :
    (evaluateAll eval es m).Matches p (List.Forall₂ (Value.Matches p.ids p.tokens))
      (evaluateAll eval' es' m') := by
  induction h generalizing m m' with
  | nil => exact ⟨.nil, hm⟩
  | cons he _ ih =>
    rw [evaluateAll_cons, evaluateAll_cons]
    refine (heval _ _ _ _ he hm).bind fun v v' m₁ m₁' hv hm₁ => ?_
    exact (ih hm₁).bind fun vs vs' m₂ m₂' hvs hm₂ => ⟨.cons hv hvs, hm₂⟩

include heval in
lemma evaluateOptional_matches {e e' : Option Expr}
    (h : Option.Rel (Expr.Matches p.ids p.tokens) e e') (hm : m.Matches p m') :
    (evaluateOptional eval e m).Matches p (Value.Matches p.ids p.tokens)
      (evaluateOptional eval' e' m') := by
  cases h with
  | none => exact ⟨.nil, hm⟩
  | some he => exact heval _ _ _ _ he hm

include hexec in
lemma executeAll_matches {ss ss' : List Stmt}
    (h : List.Forall₂ (Stmt.Matches p.ids p.tokens) ss ss') (hm : m.Matches p m') :
    (executeAll exec ss m).Matches p (fun _ _ => True) (executeAll exec' ss' m') := by
  induction h generalizing m m' with
  | nil => exact ⟨trivial, hm⟩
  | cons hs _ ih =>
    rw [executeAll_cons, executeAll_cons]
    exact (hexec _ _ _ _ hs hm).bind fun _ _ m₁ m₁' _ hm₁ => ih hm₁

/-! ## Calls -/

/-- The bindings of `parameters` that match to arguments that match. -/
lemma zip_matches {parameters parameters' : List Token} {vs vs' : List Value}
    (hparameters : List.Forall₂ p.tokens parameters parameters')
    (hvs : List.Forall₂ (Value.Matches p.ids p.tokens) vs vs') :
    List.Forall₂ (fun b b' => b.1 = b'.1 ∧ b.2.Matches p.ids p.tokens b'.2)
      ((parameters.map Token.lexeme).zip vs) ((parameters'.map Token.lexeme).zip vs') := by
  induction hparameters generalizing vs vs' with
  | nil => exact .nil
  | cons hname _ ih =>
    cases hvs with
    | nil => exact .nil
    | cons hv hvs => exact .cons ⟨p.lexeme_eq _ _ hname, hv⟩ (ih hvs)

include hexec in
lemma callWith_matches {paren paren' : Token} {v v' : Value} {vs vs' : List Value}
    (hparen : p.tokens paren paren') (hv : v.Matches p.ids p.tokens v')
    (hvs : List.Forall₂ (Value.Matches p.ids p.tokens) vs vs') (hm : m.Matches p m') :
    (callWith exec paren v vs m).Matches p (Value.Matches p.ids p.tokens)
      (callWith exec' paren' v' vs' m') := by
  have hlength := hvs.length_eq
  cases hv with
  | nil | bool b | number x | string s => exact ⟨.error _ hparen, hm⟩
  | clock id =>
    rw [callWith, callWith, hlength]
    split
    · refine ⟨?_, { hm with clock := ?_ }⟩
      · rw [hm.clock]
        exact .number _
      · rw [hm.clock]
    · exact ⟨.error _ hparen, hm⟩
  | @function f f' id closure hf =>
    have harity : f.arity = f'.arity := hf.parameters.length_eq
    rw [callWith, callWith, hlength, Callable.arity, Callable.arity, harity]
    split
    · rw [applyWith_function, applyWith_function]
      exact (executeAll_matches hexec hf.body
        (hm.enter closure (zip_matches hf.parameters hvs))).returned hm.current
    · exact ⟨.error _ hparen, hm⟩

/-! ## Forms -/

include heval hexec in
lemma evaluateWith_matches (lookup : Lookup) {e e' : Expr} (h : e.Matches p.ids p.tokens e')
    (hm : m.Matches p m') :
    (evaluateWith lookup eval exec e m).Matches p (Value.Matches p.ids p.tokens)
      (evaluateWith lookup eval' exec' e' m') := by
  cases h with
  | literal value => exact ⟨.ofConstant value, hm⟩
  | grouping hinner => exact heval _ _ _ _ hinner hm
  | unary hoperator hright =>
    refine (heval _ _ _ _ hright hm).bind fun v v' m₁ m₁' hv hm₁ => ?_
    rw [← p.kind_eq _ _ hoperator]
    exact check_matches hoperator (hv.unaryOperation_eq _)
      (fun _ => Value.Matches.of_unaryOperation) hm₁
  | binary hleft hoperator hright =>
    refine (heval _ _ _ _ hleft hm).bind fun v v' m₁ m₁' hv hm₁ => ?_
    refine (heval _ _ _ _ hright hm₁).bind fun w w' m₂ m₂' hw hm₂ => ?_
    rw [← p.kind_eq _ _ hoperator]
    exact check_matches hoperator (hv.binaryOperation_eq hw _)
      (fun _ => Value.Matches.of_binaryOperation) hm₂
  | logical hleft hoperator hright =>
    refine (heval _ _ _ _ hleft hm).bind fun v v' m₁ m₁' hv hm₁ => ?_
    -- Matching values settle an operator alike, so both go on to the right side or neither does.
    rw [← p.kind_eq _ _ hoperator, hv.settles_eq]
    split
    · exact ⟨hv, hm₁⟩
    · exact heval _ _ _ _ hright hm₁
  | read hid hname => exact readVariable_matches hid hname lookup hm
  | assign hid hname hvalue =>
    refine (heval _ _ _ _ hvalue hm).bind fun v v' m₁ m₁' hv hm₁ => ?_
    exact (assignVariable_matches hid hname lookup hv hm₁).bind fun _ _ m₂ m₂' _ hm₂ => ⟨hv, hm₂⟩
  | call hcallee hparen harguments =>
    refine (heval _ _ _ _ hcallee hm).bind fun v v' m₁ m₁' hv hm₁ => ?_
    refine (evaluateAll_matches heval harguments hm₁).bind fun vs vs' m₂ m₂' hvs hm₂ => ?_
    exact callWith_matches hexec hparen hv hvs hm₂

/-- Loops that match.  The second may go on for more rounds. -/
lemma repeatWhile_matches {condition condition' : Action Value} {body body' : Action Unit}
    (hcondition : ∀ m m', m.Matches p m' →
      (condition m).Matches p (Value.Matches p.ids p.tokens) (condition' m'))
    (hbody : ∀ m m', m.Matches p m' → (body m).Matches p (fun _ _ => True) (body' m'))
    {steps steps' : ℕ} (hsteps : steps ≤ steps') (hm : m.Matches p m') :
    (repeatWhile condition body steps m).Matches p (fun _ _ => True)
      (repeatWhile condition' body' steps' m') := by
  induction steps generalizing steps' m m' with
  | zero => trivial
  | succ steps ih =>
    obtain ⟨steps', rfl⟩ := Nat.exists_eq_add_one_of_ne_zero (Nat.ne_zero_of_lt hsteps)
    rw [repeatWhile_succ, repeatWhile_succ]
    refine (hcondition m m' hm).bind fun v v' m₁ m₁' hv hm₁ => ?_
    rw [hv.truthy_eq]
    split
    · exact (hbody m₁ m₁' hm₁).bind fun _ _ m₂ m₂' _ hm₂ => ih (Nat.le_of_succ_le_succ hsteps) hm₂
    · exact ⟨trivial, hm₁⟩

include heval hexec in
lemma executeWith_matches {steps steps' : ℕ} (hsteps : steps ≤ steps') {s s' : Stmt}
    (h : s.Matches p.ids p.tokens s') (hm : m.Matches p m') :
    (executeWith eval exec steps s m).Matches p (fun _ _ => True)
      (executeWith eval' exec' steps' s' m') := by
  cases h with
  | expression he => exact (heval _ _ _ _ he hm).bind fun _ _ m₁ m₁' _ hm₁ => ⟨trivial, hm₁⟩
  | print he =>
    refine (heval _ _ _ _ he hm).bind fun v v' m₁ m₁' hv hm₁ => ?_
    rw [hv.text_eq p.lexeme_eq]
    exact printLine_matches _ hm₁
  | var hname he =>
    refine (evaluateOptional_matches heval he hm).bind fun v v' m₁ m₁' hv hm₁ => ?_
    rw [p.lexeme_eq _ _ hname]
    exact define_matches _ hv hm₁
  | block hbody =>
    rw [executeWith_block, executeWith_block, hm.current]
    exact (executeAll_matches hexec hbody (hm.enter _ .nil)).leave rfl
  | branch hcondition hthen helse =>
    refine (heval _ _ _ _ hcondition hm).bind fun v v' m₁ m₁' hv hm₁ => ?_
    rw [hv.truthy_eq]
    split
    · exact hexec _ _ _ _ hthen hm₁
    · cases helse with
      | none => exact ⟨trivial, hm₁⟩
      | some hs => exact hexec _ _ _ _ hs hm₁
  | loop hcondition hbody =>
    exact repeatWhile_matches (fun _ _ => heval _ _ _ _ hcondition)
      (fun _ _ => hexec _ _ _ _ hbody) hsteps hm
  | @function name name' parameters parameters' body body' hname hparameters hbody =>
    -- Both machines give the new function the same number and the same frame.
    have hm₁ : Machine.Matches p { m with nextObject := m.nextObject + 1 }
        { m' with nextObject := m'.nextObject + 1 } :=
      { hm with nextObject := by rw [hm.nextObject] }
    have hvalue : Value.Matches p.ids p.tokens
        (.callable (.function m.nextObject ⟨name, parameters, body⟩ m.current))
        (.callable (.function m'.nextObject ⟨name', parameters', body'⟩ m'.current)) := by
      rw [hm.nextObject, hm.current]
      exact .function _ _ ⟨hname, hparameters, hbody⟩
    have hdefined := define_matches name.lexeme hvalue hm₁
    nth_rewrite 2 [p.lexeme_eq _ _ hname] at hdefined
    exact hdefined
  | ret hkeyword he =>
    exact (evaluateOptional_matches heval he hm).bind fun v v' m₁ m₁' hv hm₁ => ⟨.returned hv, hm₁⟩

end

/-! ## Runs -/

/-- Trees that match come to results that match on machines that match, also if the second run is
given more steps (`hk`). -/
theorem runs_match (p : Pairing) (lookup : Lookup) {k k' : ℕ} (hk : k ≤ k') :
    EvalMatches p (evaluate lookup k) (evaluate lookup k') ∧
      ExecMatches p (execute lookup k) (execute lookup k') := by
  induction k generalizing k' with
  | zero =>
    refine ⟨fun e e' m m' _ _ => ?_, fun s s' m m' _ _ => ?_⟩
    · rw [evaluate]
      trivial
    · rw [execute]
      trivial
  | succ k ih =>
    obtain ⟨k', rfl⟩ := Nat.exists_eq_add_one_of_ne_zero (Nat.ne_zero_of_lt hk)
    obtain ⟨heval, hexec⟩ := ih (Nat.le_of_succ_le_succ hk)
    refine ⟨fun e e' m m' he hm => ?_, fun s s' m m' hs hm => ?_⟩
    · rw [evaluate, evaluate]
      exact evaluateWith_matches heval hexec lookup he hm
    · rw [execute, execute]
      exact executeWith_matches heval hexec (Nat.le_of_succ_le_succ hk) hs hm

end LoxLang
