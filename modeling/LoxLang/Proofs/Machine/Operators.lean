import LoxLang.Proofs.Machine.Parts
import LoxLang.Proofs.Tree.WellFormed

/-!
# Operators that are always known

Well-formed trees have known operators only, and every function that a run creates has a body from
such a tree.  So a run that starts with well-formed functions in its store never stops at an
operator that it does not know.
-/

namespace LoxLang

open LoxLang.Action

/-- If the value is a function, its body is well formed. -/
def Value.WellFormed : Value → Prop
  | .callable (.function _ f _) => ∀ s ∈ f.body, s.WellFormed False
  | _ => True

/-- All functions in the store have bodies that are `Stmt.WellFormed`. -/
def Store.WellFormed (s : Store) : Prop := ∀ f x v, s.local? f x = some v → v.WellFormed

/-- The fault of an operator that is not known. -/
def RuntimeFault.IsUnknownOperator (fault : RuntimeFault) : Prop :=
  fault = .unknownUnary ∨ fault = .unknownBinary

/-- Not the error of an unknown operator; and if a value is returned, it is `Value.WellFormed`. -/
def Stop.WellFormed : Stop → Prop
  | .error e => ¬ e.fault.IsUnknownOperator
  | .returned value => value.WellFormed
  | .sink _ => True

/-- A result with well-formed functions, and without the error of an unknown operator. -/
abbrev Result.WellFormed {α : Type} (r : Result α) (done : α → Prop) : Prop :=
  r.Meets (fun value m => done value ∧ m.store.WellFormed)
    fun reason m => reason.WellFormed ∧ m.store.WellFormed

/-- Evaluating well-formed expressions by `eval` gives well-formed results. -/
abbrev EvaluatesWellFormed (eval : Expr → Action Value) : Prop :=
  ∀ e m, e.WellFormed False → m.store.WellFormed → (eval e m).WellFormed Value.WellFormed

/-- Executing well-formed statements by `exec` gives well-formed results. -/
abbrev ExecutesWellFormed (exec : Stmt → Action Unit) : Prop :=
  ∀ s m, s.WellFormed False → m.store.WellFormed → (exec s m).WellFormed fun _ => True

/-! ## Messages -/

/-- The `message` of a fault that is no unknown operator starts with another letter. -/
lemma RuntimeFault.head?_message {fault : RuntimeFault} (h : ¬ fault.IsUnknownOperator) :
    ∃ c, fault.message.toList.head? = some c ∧ c ≠ 'I' := by
  have happend : ∀ {s : String} {c : Char}, s.toList.head? = some c →
      ∀ t : String, (s ++ t).toList.head? = some c := by
    intro s c hs t
    rw [String.toList_append, List.head?_append, hs, Option.some_or]
  cases fault with
  | unknownUnary => exact (h (Or.inl rfl)).elim
  | unknownBinary => exact (h (Or.inr rfl)).elim
  | operandNotNumber | operandsNotNumbers | operandsNotAddable => exact ⟨'O', rfl, by decide⟩
  | notCallable => exact ⟨'C', rfl, by decide⟩
  | argumentCount expected given =>
    exact ⟨'E', happend (happend (happend (happend rfl _) _) _) _, by decide⟩
  | undefinedVariable name => exact ⟨'U', happend (happend rfl _) _, by decide⟩

lemma RuntimeFault.message_ne {fault : RuntimeFault} (h : ¬ fault.IsUnknownOperator) :
    fault.message ≠ "Invalid unary operator." ∧ fault.message ≠ "Invalid binary operator." := by
  obtain ⟨c, hc, hne⟩ := head?_message h
  have hdiffers : ∀ text : String, text.toList.head? = some 'I' → fault.message ≠ text := by
    rintro text htext rfl
    exact hne (Option.some.inj (hc.symm.trans htext))
  exact ⟨hdiffers _ rfl, hdiffers _ rfl⟩

/-! ## Stores -/

section

variable {s : Store} {f : FrameId}

lemma Store.WellFormed.define (h : s.WellFormed) {v : Value} (hv : v.WellFormed) (x : String) :
    (s.define f x v).WellFormed := by
  intro g y w hw
  rcases Store.local?_of_define hw with rfl | hold
  · exact hv
  · exact h g y w hold

lemma Store.WellFormed.extend (h : s.WellFormed) {bindings : List (String × Value)}
    (hbindings : ∀ v ∈ bindings.map Prod.snd, v.WellFormed) : (s.extend f bindings).WellFormed := by
  intro g y w hw
  rcases Store.local?_of_extend hw with hmem | hold
  · exact hbindings w hmem
  · exact h g y w hold

end

/-! ## Operations -/

lemma Value.wellFormed_ofConstant (c : Constant) : (Value.ofConstant c).WellFormed := by
  cases c <;> trivial

/-- What a known operator may come to: a well-formed value, or a fault of its operands. -/
def KnownOperation (r : Except RuntimeFault Value) : Prop :=
  match r with
  | .ok value => value.WellFormed
  | .error fault => ¬ fault.IsUnknownOperator

lemma known_unaryOperation {operator : Kind} (h : operator ∈ unaryOperators) (right : Value) :
    KnownOperation (unaryOperation operator right) := by
  simp only [unaryOperators, List.mem_cons, List.not_mem_nil, or_false] at h
  rcases h with rfl | rfl
  · trivial
  · cases right <;>
      simp [unaryOperation, KnownOperation, Value.WellFormed, RuntimeFault.IsUnknownOperator]

lemma known_onNumbers {f : Float → Float → Value} (hf : ∀ a b, (f a b).WellFormed)
    (left right : Value) : KnownOperation (onNumbers f left right) := by
  unfold onNumbers
  split
  · exact hf _ _
  · simp [KnownOperation, RuntimeFault.IsUnknownOperator]

lemma known_addition (left right : Value) : KnownOperation (addition left right) := by
  unfold addition
  split
  · trivial
  · trivial
  · simp [KnownOperation, RuntimeFault.IsUnknownOperator]

lemma known_binaryOperation {operator : Kind} (h : operator ∈ strictOperators)
    (left right : Value) : KnownOperation (binaryOperation operator left right) := by
  simp only [strictOperators, List.mem_cons, List.not_mem_nil, or_false] at h
  rcases h with rfl | rfl | rfl | rfl | rfl | rfl | rfl | rfl | rfl | rfl
  · exact known_addition left right
  on_goal 8 => trivial
  on_goal 8 => trivial
  all_goals
    refine known_onNumbers (fun a b => ?_) left right
    trivial

/-! ## Actions -/

section

variable {lookup : Lookup} {eval : Expr → Action Value} {exec : Stmt → Action Unit} {m : Machine}

lemma check_wellFormed (token : Token) {r : Except RuntimeFault Value} (hr : KnownOperation r)
    (hm : m.store.WellFormed) : (check token r m).WellFormed Value.WellFormed := by
  cases r with
  | ok value => exact ⟨hr, hm⟩
  | error fault => exact ⟨hr, hm⟩

lemma undefined_wellFormed (name : Token) : (Stop.error (.undefined name)).WellFormed := by
  simp [Stop.WellFormed, RuntimeError.undefined, RuntimeFault.IsUnknownOperator]

lemma readVariable_wellFormed (id : NodeId) (name : Token) (hm : m.store.WellFormed) :
    (readVariable lookup id name m).WellFormed Value.WellFormed := by
  unfold readVariable
  cases hread : m.read? lookup id name.lexeme with
  | none => exact ⟨undefined_wellFormed name, hm⟩
  | some v =>
    rw [Machine.read?_eq_bind_holder?] at hread
    obtain ⟨f, -, hf⟩ := Option.bind_eq_some_iff.mp hread
    exact ⟨hm f _ v hf, hm⟩

lemma assignVariable_wellFormed (id : NodeId) (name : Token) {v : Value} (hv : v.WellFormed)
    (hm : m.store.WellFormed) : (assignVariable lookup id name v m).WellFormed fun _ => True := by
  unfold assignVariable
  cases m.holder? lookup id name.lexeme with
  | none => exact ⟨undefined_wellFormed name, hm⟩
  | some f => exact ⟨trivial, hm.define hv _⟩

lemma printLine_wellFormed (text : String) (hm : m.store.WellFormed) :
    (printLine text m).WellFormed fun _ => True := by
  unfold printLine
  rcases m.sink.writeLine text with ⟨fault, sink⟩
  cases fault with
  | none => exact ⟨trivial, hm⟩
  | some fault => exact ⟨trivial, hm⟩

lemma evaluateAll_wellFormed (heval : EvaluatesWellFormed eval) {es : List Expr}
    (hes : ∀ e ∈ es, e.WellFormed False) (hm : m.store.WellFormed) :
    (evaluateAll eval es m).WellFormed fun vs => ∀ v ∈ vs, v.WellFormed := by
  induction es generalizing m with
  | nil => exact ⟨by simp, hm⟩
  | cons e es ih =>
    obtain ⟨he, hes⟩ := List.forall_mem_cons.mp hes
    rw [evaluateAll_cons]
    refine (heval e m he hm).bind fun v m₁ _ hv => (ih hes hv.2).bind fun vs m₂ _ hvs => ?_
    exact ⟨List.forall_mem_cons.mpr ⟨hv.1, hvs.1⟩, hvs.2⟩

lemma evaluateOptional_wellFormed (heval : EvaluatesWellFormed eval) {e : Option Expr}
    (he : ∀ e' ∈ e, e'.WellFormed False) (hm : m.store.WellFormed) :
    (evaluateOptional eval e m).WellFormed Value.WellFormed := by
  cases e with
  | none => exact ⟨trivial, hm⟩
  | some e => exact heval e m (he e rfl) hm

lemma executeAll_wellFormed (hexec : ExecutesWellFormed exec) {ss : List Stmt}
    (hss : ∀ s ∈ ss, s.WellFormed False) (hm : m.store.WellFormed) :
    (executeAll exec ss m).WellFormed fun _ => True := by
  induction ss generalizing m with
  | nil => exact ⟨trivial, hm⟩
  | cons s ss ih =>
    obtain ⟨hs, hss⟩ := List.forall_mem_cons.mp hss
    rw [executeAll_cons]
    exact (hexec s m hs hm).bind fun _ m₁ _ h₁ => ih hss h₁.2

lemma Result.WellFormed.leave {r : Result Unit} (h : r.WellFormed fun _ => True) (outer : FrameId) :
    (r.leave outer).WellFormed fun _ => True := by
  cases r with
  | ok | stop => exact h
  | exhausted => trivial

lemma Result.WellFormed.returned {r : Result Unit} (h : r.WellFormed fun _ => True)
    (outer : FrameId) : (r.returned outer).WellFormed Value.WellFormed := by
  cases r with
  | ok v m => exact ⟨trivial, h.2⟩
  | stop reason m => cases reason <;> exact h
  | exhausted => trivial

lemma Result.WellFormed.catchReturn {act : Action Value} (h : (act m).WellFormed Value.WellFormed) :
    (Action.catchReturn act m).WellFormed Value.WellFormed := by
  rw [Action.catchReturn]
  cases hr : act m with
  | ok v m' =>
    rw [hr] at h
    exact h
  | stop reason m' =>
    rw [hr] at h
    cases reason <;> exact h
  | exhausted => trivial

lemma callWith_wellFormed (hexec : ExecutesWellFormed exec) (paren : Token) {callee : Value}
    (hcallee : callee.WellFormed) {arguments : List Value}
    (harguments : ∀ v ∈ arguments, v.WellFormed) (hm : m.store.WellFormed) :
    (callWith exec paren callee arguments m).WellFormed Value.WellFormed := by
  have hstop : ∀ fault : RuntimeFault, ¬ fault.IsUnknownOperator →
      (fail fault paren m : Result Value).WellFormed Value.WellFormed :=
    fun fault hfault => ⟨hfault, hm⟩
  unfold callWith
  cases callee with
  | callable c =>
    dsimp only
    split
    · cases c with
      | clock id => exact ⟨trivial, hm⟩
      | function id f closure =>
        rw [applyWith_function]
        -- Body and frame of the call are well formed, as the function and the arguments are.
        have hbindings : ∀ v ∈ ((f.parameters.map Token.lexeme).zip arguments).map Prod.snd,
            v.WellFormed := by
          intro v hv
          obtain ⟨b, hb, rfl⟩ := List.mem_map.mp hv
          exact harguments _ (List.of_mem_zip hb).2
        exact (executeAll_wellFormed hexec hcallee (hm.extend hbindings)).returned _
    · exact hstop _ (by simp [RuntimeFault.IsUnknownOperator])
  | nil | bool | number | string => exact hstop _ (by simp [RuntimeFault.IsUnknownOperator])

lemma evaluateWith_wellFormed (heval : EvaluatesWellFormed eval)
    (hexec : ExecutesWellFormed exec) {e : Expr} (he : e.WellFormed False)
    (hm : m.store.WellFormed) :
    (evaluateWith lookup eval exec e m).WellFormed Value.WellFormed := by
  cases he with
  | literal value => exact ⟨Value.wellFormed_ofConstant value, hm⟩
  | grouping hinner => exact heval _ m hinner hm
  | unary hoperator hright =>
    -- A known operator may still be given a value of the wrong kind, which is another fault.
    exact (heval _ m hright hm).bind fun v m₁ _ hv =>
      check_wellFormed _ (known_unaryOperation hoperator v) hv.2
  | binary hoperator hleft hright =>
    refine (heval _ m hleft hm).bind fun v m₁ _ hv =>
      (heval _ m₁ hright hv.2).bind fun w m₂ _ hw => ?_
    exact check_wellFormed _ (known_binaryOperation hoperator v w) hw.2
  | logical _ hleft hright =>
    refine (heval _ m hleft hm).bind fun v m₁ _ hv => ?_
    split
    · exact hv
    · exact heval _ m₁ hright hv.2
  | read id name => exact readVariable_wellFormed id name hm
  | assign id name hvalue =>
    refine (heval _ m hvalue hm).bind fun v m₁ _ hv => ?_
    exact (assignVariable_wellFormed id name hv.1 hv.2).bind fun _ m₂ _ h₂ => ⟨hv.1, h₂.2⟩
  | call paren hcallee harguments _ =>
    refine (heval _ m hcallee hm).bind fun v m₁ _ hv => ?_
    refine (evaluateAll_wellFormed heval harguments hv.2).bind fun vs m₂ _ hvs => ?_
    exact callWith_wellFormed hexec paren hv.1 hvs.1 hvs.2

lemma repeatWhile_wellFormed {condition : Action Value} {body : Action Unit}
    (hcondition : ∀ m : Machine, m.store.WellFormed → (condition m).WellFormed Value.WellFormed)
    (hbody : ∀ m : Machine, m.store.WellFormed → (body m).WellFormed fun _ => True) (steps : ℕ)
    (hm : m.store.WellFormed) : (repeatWhile condition body steps m).WellFormed fun _ => True := by
  induction steps generalizing m with
  | zero => trivial
  | succ steps ih =>
    rw [repeatWhile_succ]
    refine (hcondition m hm).bind fun v m₁ _ hv => ?_
    split
    · exact (hbody m₁ hv.2).bind fun _ m₂ _ h₂ => ih h₂.2
    · exact ⟨trivial, hv.2⟩

lemma executeWith_wellFormed (heval : EvaluatesWellFormed eval) (hexec : ExecutesWellFormed exec)
    (steps : ℕ) {s : Stmt} (hs : s.WellFormed False) (hm : m.store.WellFormed) :
    (executeWith eval exec steps s m).WellFormed fun _ => True := by
  cases hs with
  | expression he => exact (heval _ m he hm).bind fun _ m₁ _ h₁ => ⟨trivial, h₁.2⟩
  | print he => exact (heval _ m he hm).bind fun v m₁ _ h₁ => printLine_wellFormed _ h₁.2
  | var name hinitializer =>
    exact (evaluateOptional_wellFormed heval hinitializer hm).bind fun v m₁ _ hv =>
      ⟨trivial, hv.2.define hv.1 _⟩
  | block hbody =>
    rw [executeWith_block]
    exact (executeAll_wellFormed hexec hbody (hm.extend (by simp))).leave _
  | @branch condition thenBranch elseBranch hcondition _ hthen _ helse =>
    refine (heval _ m hcondition hm).bind fun v m₁ _ hv => ?_
    split
    · exact hexec thenBranch m₁ hthen hv.2
    · cases elseBranch with
      | none => exact ⟨trivial, hv.2⟩
      | some s => exact hexec s m₁ (helse s rfl) hv.2
  | loop hcondition _ hbody =>
    exact repeatWhile_wellFormed (fun m => heval _ m hcondition) (fun m => hexec _ m hbody) steps hm
  | @function name parameters body _ hbody =>
    have hvalue :
        (Value.callable (.function m.nextObject ⟨name, parameters, body⟩ m.current)).WellFormed :=
      hbody
    exact ⟨trivial, hm.define hvalue _⟩
  | ret keyword hvalue =>
    exact (evaluateOptional_wellFormed heval hvalue hm).bind fun v m₁ _ hv => hv

end

/-- Running well-formed trees, by `evaluate` and `execute`, keeps the functions in the store well
formed and never stops at an unknown operator. -/
theorem runs_wellFormed (lookup : Lookup) (k : ℕ) :
    EvaluatesWellFormed (evaluate lookup k) ∧ ExecutesWellFormed (execute lookup k) := by
  induction k with
  | zero =>
    refine ⟨fun e m _ _ => ?_, fun s m _ _ => ?_⟩
    · rw [evaluate]
      trivial
    · rw [execute]
      trivial
  | succ k ih =>
    obtain ⟨heval, hexec⟩ := ih
    refine ⟨fun e m he hm => ?_, fun s m hs hm => ?_⟩
    · rw [evaluate]
      exact evaluateWith_wellFormed heval hexec he hm
    · rw [execute]
      exact executeWith_wellFormed heval hexec k hs hm

end LoxLang
