import LoxLang.Proofs.Machine.Renaming

/-!
# Runs with local variables renamed

A program and the program with local variables renamed come to the same, step by step: they write
the same, end in the same way and after the same number of steps, and leave machines that
correspond.  Only the name of an undefined variable may differ.
-/

namespace LoxLang

open LoxLang.Action

/-- Why two runs stop.  An `undefined` variable may have been renamed. -/
inductive Stop.Renamed (p : Renaming) (marking : Marking) (m : Machine) : Stop → Stop → Prop where
  | error (e : RuntimeError) : Renamed p marking m (.error e) (.error e)
  | undefined {mark : Bool} {name name' : Token} :
      name.Renamed p.x p.y mark name' →
      Renamed p marking m (.error (.undefined name)) (.error (.undefined name'))
  | returned {v v' : Value} :
      v.Renamed p marking m v' → Renamed p marking m (.returned v) (.returned v')
  | sink (fault : SinkFault) : Renamed p marking m (.sink fault) (.sink fault)

/-- Two machines side by side, in a frame for whose scope and the ones around it the `marks` are
known. -/
structure Beside (p : Renaming) (marking : Marking) (marks : List Bool) (m m' : Machine) :
    Prop where
  machines : m.Renamed p marking m'
  marked : Marked marking m.store m.globals m.current marks

/-- What a piece of a run makes of a machine `m`, and of the one beside it. -/
structure Continues (p : Renaming) (marking : Marking) (m : Machine) (marking₁ : Marking)
    (m₁ m₁' : Machine) : Prop where
  grows : marking.Grows m marking₁ m₁
  current : m₁.current = m.current
  machines : m₁.Renamed p marking₁ m₁'

/-- The results of two runs that started side by side. -/
def Result.Renamed {α : Type} (p : Renaming) (marking : Marking) (m : Machine)
    (value : Marking → Machine → α → α → Prop) : Result α → Result α → Prop
  | .ok v m₁, .ok v' m₁' =>
    ∃ marking₁, Continues p marking m marking₁ m₁ m₁' ∧ value marking₁ m₁ v v'
  | .stop reason m₁, .stop reason' m₁' =>
    ∃ marking₁, Continues p marking m marking₁ m₁ m₁' ∧ reason.Renamed p marking₁ m₁ reason'
  | .exhausted, .exhausted => True
  | _, _ => False

/-- Nothing to compare, for actions that give no value. -/
abbrev done : Marking → Machine → Unit → Unit → Prop := fun _ _ _ _ => True

section

variable {p : Renaming} {marking marking₁ marking₂ : Marking} {marks : List Bool} {mark : Bool}
  {m m' m₁ m₁' m₂ m₂' : Machine} {v v' : Value}

namespace Continues

lemma refl (h : m.Renamed p marking m') : Continues p marking m marking m m' :=
  ⟨.refl marking m, rfl, h⟩

lemma trans (h : Continues p marking m marking₁ m₁ m₁')
    (h' : Continues p marking₁ m₁ marking₂ m₂ m₂') : Continues p marking m marking₂ m₂ m₂' :=
  ⟨h.grows.trans h'.grows, h'.current.trans h.current, h'.machines⟩

/-- The frame that the machines are in is the same as before. -/
lemma beside (h : Continues p marking m marking₁ m₁ m₁') (hm : Beside p marking marks m m') :
    Beside p marking₁ marks m₁ m₁' := by
  refine ⟨h.machines, ?_⟩
  rw [h.current]
  exact hm.marked.grow h.grows

end Continues

lemma Value.Renamed.later (hv : v.Renamed p marking m v')
    (h : Continues p marking m marking₁ m₁ m₁') :
    v.Renamed p marking₁ m₁ v' := Value.Renamed.grow hv h.grows

/-! ## Results -/

namespace Result.Renamed

variable {α β : Type} {value : Marking → Machine → α → α → Prop}
  {final : Marking → Machine → β → β → Prop} {act act' : Action α} {g g' : α → Action β}

lemma later {r r' : Result α} (h : Continues p marking m marking₁ m₁ m₁')
    (hr : r.Renamed p marking₁ m₁ value r') : r.Renamed p marking m value r' := by
  cases r with
  | ok v m₂ => cases r' with
    | ok v' m₂' =>
      obtain ⟨marking₂, hcontinues, hv⟩ := hr
      exact ⟨marking₂, h.trans hcontinues, hv⟩
    | stop reason' m₂' | exhausted => exact hr.elim
  | stop reason m₂ => cases r' with
    | stop reason' m₂' =>
      obtain ⟨marking₂, hcontinues, hreason⟩ := hr
      exact ⟨marking₂, h.trans hcontinues, hreason⟩
    | ok v' m₂' | exhausted => exact hr.elim
  | exhausted => cases r' with
    | exhausted => trivial
    | ok v' m₂' | stop reason' m₂' => exact hr.elim

/-- One action after another. -/
lemma bind (h : (act m).Renamed p marking m value (act' m'))
    (hg : ∀ v v' marking₁ m₁ m₁', Continues p marking m marking₁ m₁ m₁' → value marking₁ m₁ v v' →
      (g v m₁).Renamed p marking₁ m₁ final (g' v' m₁')) :
    ((act >>= g) m).Renamed p marking m final ((act' >>= g') m') := by
  cases hr : act m with
  | ok v m₁ =>
    cases hr' : act' m' with
    | ok v' m₁' =>
      rw [hr, hr'] at h
      obtain ⟨marking₁, hcontinues, hv⟩ := h
      rw [bind_eq_of_ok hr, bind_eq_of_ok hr']
      exact (hg v v' marking₁ m₁ m₁' hcontinues hv).later hcontinues
    | stop reason' m₁' | exhausted =>
      rw [hr, hr'] at h
      exact h.elim
  | stop reason m₁ =>
    cases hr' : act' m' with
    | stop reason' m₁' =>
      rw [hr, hr'] at h
      rw [bind_eq_of_stop hr, bind_eq_of_stop hr']
      exact h
    | ok v' m₁' | exhausted =>
      rw [hr, hr'] at h
      exact h.elim
  | exhausted =>
    cases hr' : act' m' with
    | exhausted =>
      rw [bind_eq_of_exhausted hr, bind_eq_of_exhausted hr']
      trivial
    | ok v' m₁' | stop reason' m₁' =>
      rw [hr, hr'] at h
      exact h.elim

end Result.Renamed

/-! ## Inside a new frame -/

/-- A new frame may have any `mark`, and stands inside a frame whose marks are known. -/
lemma Beside.enter {outer : FrameId} {bindings bindings' : List (String × Value)}
    (h : m.Renamed p marking m') (hmarked : Marked marking m.store m.globals outer marks)
    (hb : List.Forall₂ (fun b b' => Becomes p.x p.y mark b.1 b'.1 ∧ b.2.Renamed p marking m b'.2)
      bindings bindings') :
    Beside p (Function.update marking m.store.size mark) (mark :: marks) (m.enter outer bindings)
      (m'.enter outer bindings') := by
  refine ⟨h.enter hb, ?_⟩
  have hinner := hmarked.grow (Marking.Grows.enter marking mark m outer bindings)
  have hframe := Marked.inner (Store.enclosing?_extend_self (s := m.store) (f := outer)) hinner
  rwa [Function.update_self] at hframe

/-- Back in the frame from which another one was entered. -/
lemma Continues.leave {outer : FrameId} {bindings : List (String × Value)}
    (h : m.Renamed p marking m')
    (hinside : Continues p (Function.update marking m.store.size mark) (m.enter outer bindings)
      marking₁ m₁ m₁') :
    Continues p marking m marking₁ { m₁ with current := m.current }
      { m₁' with current := m'.current } := by
  have hgrows := (Marking.Grows.enter marking mark m outer bindings).trans hinside.grows
  exact ⟨{ hgrows with }, rfl, { hinside.machines with current := h.current }⟩

lemma Result.Renamed.leave {outer : FrameId} {bindings : List (String × Value)} {r r' : Result Unit}
    (h : m.Renamed p marking m')
    (hr : r.Renamed p (Function.update marking m.store.size mark)
      (m.enter outer bindings) done r') :
    (r.leave m.current).Renamed p marking m done (r'.leave m'.current) := by
  cases r with
  | ok v m₁ => cases r' with
    | ok v' m₁' =>
      obtain ⟨marking₁, hinside, -⟩ := hr
      exact ⟨marking₁, hinside.leave h, trivial⟩
    | stop reason' m₁' | exhausted => exact hr.elim
  | stop reason m₁ => cases r' with
    | stop reason' m₁' =>
      obtain ⟨marking₁, hinside, hreason⟩ := hr
      refine ⟨marking₁, hinside.leave h, ?_⟩
      cases hreason with
      | error e => exact .error e
      | undefined hname => exact .undefined hname
      | returned hv => exact .returned hv
      | sink fault => exact .sink fault
    | ok v' m₁' | exhausted => exact hr.elim
  | exhausted => cases r' with
    | exhausted => trivial
    | ok v' m₁' | stop reason' m₁' => exact hr.elim

lemma Result.Renamed.returned {outer : FrameId} {bindings : List (String × Value)}
    {r r' : Result Unit} (h : m.Renamed p marking m')
    (hr : r.Renamed p (Function.update marking m.store.size mark)
      (m.enter outer bindings) done r') :
    (r.returned m.current).Renamed p marking m (Value.Renamed p) (r'.returned m'.current) := by
  cases r with
  | ok v m₁ => cases r' with
    | ok v' m₁' =>
      obtain ⟨marking₁, hinside, -⟩ := hr
      exact ⟨marking₁, hinside.leave h, .nil⟩
    | stop reason' m₁' | exhausted => exact hr.elim
  | stop reason m₁ => cases r' with
    | stop reason' m₁' =>
      obtain ⟨marking₁, hinside, hreason⟩ := hr
      cases hreason with
      | error e => exact ⟨marking₁, hinside.leave h, .error e⟩
      | undefined hname => exact ⟨marking₁, hinside.leave h, .undefined hname⟩
      | returned hv => exact ⟨marking₁, hinside.leave h, hv⟩
      | sink fault => exact ⟨marking₁, hinside.leave h, .sink fault⟩
    | ok v' m₁' | exhausted => exact hr.elim
  | exhausted => cases r' with
    | exhausted => trivial
    | ok v' m₁' | stop reason' m₁' => exact hr.elim

/-! ## Single steps -/

lemma fail_renamed {α : Type} {value : Marking → Machine → α → α → Prop} (fault : RuntimeFault)
    (token : Token) (hm : Beside p marking marks m m') :
    (fail (α := α) fault token m).Renamed p marking m value (fail fault token m') :=
  ⟨marking, .refl hm.machines, .error _⟩

lemma check_renamed {operator : Token} {result result' : Except RuntimeFault Value}
    (hresult : result = result') (hplain : ∀ v, result = .ok v → v.Renamed p marking m v)
    (hm : Beside p marking marks m m') :
    (check operator result m).Renamed p marking m (Value.Renamed p)
      (check operator result' m') := by
  subst hresult
  cases hr : result with
  | ok v => exact ⟨marking, .refl hm.machines, hplain v hr⟩
  | error fault => exact fail_renamed fault operator hm

lemma readVariable_renamed {id : NodeId} {name name' : Token}
    (hname : name.Renamed p.x p.y (p.depths.mark marks id) name')
    (hm : Beside p marking marks m m') :
    (readVariable .byDepth id name m).Renamed p marking m (Value.Renamed p)
      (readVariable .byDepth id name' m') := by
  have hrel := hm.machines.read? hm.marked hname.lexeme
  rw [readVariable, readVariable]
  generalize m.read? .byDepth id name.lexeme = found,
    m'.read? .byDepth id name'.lexeme = found' at hrel
  cases hrel with
  | none => exact ⟨marking, .refl hm.machines, .undefined hname⟩
  | some hv => exact ⟨marking, .refl hm.machines, hv⟩

lemma assignVariable_renamed {id : NodeId} {name name' : Token}
    (hname : name.Renamed p.x p.y (p.depths.mark marks id) name') (hv : v.Renamed p marking m v')
    (hm : Beside p marking marks m m') :
    (assignVariable .byDepth id name v m).Renamed p marking m done
      (assignVariable .byDepth id name' v' m') := by
  obtain ⟨hholder, hbecomes⟩ := hm.machines.holder? hm.marked hname.lexeme
  rw [assignVariable, assignVariable, hholder]
  cases hf : m.holder? .byDepth id name.lexeme with
  | none => exact ⟨marking, .refl hm.machines, .undefined hname⟩
  | some f =>
    exact ⟨marking, ⟨.define marking m f _ v, rfl, hm.machines.define (hbecomes f hf) hv⟩, trivial⟩

lemma printLine_renamed (text : String) (hm : Beside p marking marks m m') :
    (printLine text m).Renamed p marking m done (printLine text m') := by
  have hcontinues : ∀ sink, Continues p marking m marking { m with sink := sink }
      { m' with sink := sink } :=
    fun sink => ⟨{ Marking.Grows.refl marking m with }, rfl, { hm.machines with sink := rfl }⟩
  rw [printLine, printLine, ← hm.machines.sink]
  rcases m.sink.writeLine text with ⟨fault, sink⟩
  cases fault with
  | none => exact ⟨marking, hcontinues sink, trivial⟩
  | some fault => exact ⟨marking, hcontinues sink, .sink fault⟩

/-- A name `z` is bound in the current frame, so it becomes what the innermost scope makes of it. -/
lemma define_renamed {z z' : String} (hz : Becomes p.x p.y (marks.headD false) z z')
    (hv : v.Renamed p marking m v') (hm : Beside p marking marks m m') :
    (define z v m).Renamed p marking m done (define z' v' m') := by
  rw [hm.marked.headD] at hz
  have hdefined := hm.machines.define hz hv
  nth_rewrite 3 [hm.machines.current] at hdefined
  exact ⟨marking, ⟨.define marking m _ _ v, rfl, hdefined⟩, trivial⟩

/-! ## Parts -/

/-- An expression and the renamed one come to results that correspond. -/
def EvalRenamed (p : Renaming) (eval : Expr → Action Value) : Prop :=
  ∀ marking marks e e' m m', e.Renamed p.x p.y (p.depths.mark marks) e' →
    Beside p marking marks m m' →
    (eval e m).Renamed p marking m (Value.Renamed p) (eval e' m')

/-- A statement and the renamed one come to results that correspond. -/
def ExecRenamed (p : Renaming) (exec : Stmt → Action Unit) : Prop :=
  ∀ marking marks s s' m m', s.Renamed p.x p.y p.depths marks s' → Beside p marking marks m m' →
    (exec s m).Renamed p marking m done (exec s' m')

variable {eval : Expr → Action Value} {exec : Stmt → Action Unit} (heval : EvalRenamed p eval)
  (hexec : ExecRenamed p exec)

include heval in
lemma evaluateAll_renamed {es es' : List Expr}
    (h : List.Forall₂ (Expr.Renamed p.x p.y (p.depths.mark marks)) es es')
    (hm : Beside p marking marks m m') :
    (evaluateAll eval es m).Renamed p marking m
      (fun marking m => List.Forall₂ (Value.Renamed p marking m)) (evaluateAll eval es' m') := by
  induction h generalizing marking m m' with
  | nil => exact ⟨marking, .refl hm.machines, .nil⟩
  | cons he _ ih =>
    rw [evaluateAll_cons, evaluateAll_cons]
    refine (heval _ _ _ _ _ _ he hm).bind fun v v' marking₁ m₁ m₁' h₁ hv => ?_
    refine (ih (h₁.beside hm)).bind fun vs vs' marking₂ m₂ m₂' h₂ hvs => ?_
    exact ⟨marking₂, .refl h₂.machines, .cons (Value.Renamed.later hv h₂) hvs⟩

include heval in
lemma evaluateOptional_renamed {e e' : Option Expr}
    (h : Option.Rel (Expr.Renamed p.x p.y (p.depths.mark marks)) e e')
    (hm : Beside p marking marks m m') :
    (evaluateOptional eval e m).Renamed p marking m (Value.Renamed p)
      (evaluateOptional eval e' m') := by
  cases h with
  | none => exact ⟨marking, .refl hm.machines, .nil⟩
  | some he => exact heval _ _ _ _ _ _ he hm

include hexec in
lemma executeAll_renamed (ss : List Stmt) {ss' : List Stmt}
    (h : Stmt.AllRenamed p.x p.y p.depths marks ss ss') (hm : Beside p marking marks m m') :
    (executeAll exec ss m).Renamed p marking m done (executeAll exec ss' m') := by
  induction ss generalizing ss' marking m m' with
  | nil =>
    cases h
    exact ⟨marking, .refl hm.machines, trivial⟩
  | cons s ss ih =>
    cases h with
    | cons hs hss =>
      rw [executeAll_cons, executeAll_cons]
      exact (hexec _ _ _ _ _ _ hs hm).bind fun _ _ marking₁ m₁ m₁' h₁ _ => ih hss (h₁.beside hm)

/-! ## Calls -/

/-- The bindings of renamed `parameters`. -/
lemma zip_renamed {parameters parameters' : List Token} {vs vs' : List Value}
    (hparameters : List.Forall₂ (Token.Renamed p.x p.y mark) parameters parameters')
    (hvs : List.Forall₂ (Value.Renamed p marking m) vs vs') :
    List.Forall₂ (fun b b' => Becomes p.x p.y mark b.1 b'.1 ∧ b.2.Renamed p marking m b'.2)
      ((parameters.map Token.lexeme).zip vs) ((parameters'.map Token.lexeme).zip vs') := by
  induction hparameters generalizing vs vs' with
  | nil => exact .nil
  | cons hname _ ih =>
    cases hvs with
    | nil => exact .nil
    | cons hv hvs => exact .cons ⟨hname.lexeme, hv⟩ (ih hvs)

include hexec in
lemma callWith_renamed {vs vs' : List Value} (paren : Token) (hv : v.Renamed p marking m v')
    (hvs : List.Forall₂ (Value.Renamed p marking m) vs vs') (hm : Beside p marking marks m m') :
    (callWith exec paren v vs m).Renamed p marking m (Value.Renamed p)
      (callWith exec paren v' vs' m') := by
  have hlength := hvs.length_eq
  cases hv with
  | nil | bool b | number x | string s => exact fail_renamed _ paren hm
  | clock id =>
    rw [callWith, callWith, hlength]
    split
    · refine ⟨marking, ⟨{ Marking.Grows.refl marking m with }, rfl,
        { hm.machines with clock := ?_ }⟩, ?_⟩
      · rw [hm.machines.clock]
      · rw [← hm.machines.clock]
        exact .number _
    · exact fail_renamed _ paren hm
  | @function f f' id closure hf =>
    -- The frames of the closure are marked as when the function was declared.
    obtain ⟨hname, mark, marks, hmarked, hparameters, hbody⟩ := hf
    have harity : f.arity = f'.arity := hparameters.length_eq
    rw [callWith, callWith, hlength, Callable.arity, Callable.arity, harity]
    split
    · rw [applyWith_function, applyWith_function]
      have hinside := Beside.enter hm.machines hmarked (zip_renamed hparameters hvs)
      exact (executeAll_renamed hexec _ hbody hinside).returned hm.machines
    · exact fail_renamed _ paren hm

/-! ## Forms -/

include heval hexec in
lemma evaluateWith_renamed {e e' : Expr} (h : e.Renamed p.x p.y (p.depths.mark marks) e')
    (hm : Beside p marking marks m m') :
    (evaluateWith .byDepth eval exec e m).Renamed p marking m (Value.Renamed p)
      (evaluateWith .byDepth eval exec e' m') := by
  cases h with
  | literal value => exact ⟨marking, .refl hm.machines, .ofConstant value⟩
  | grouping hinner => exact heval _ _ _ _ _ _ hinner hm
  | unary operator hright =>
    refine (heval _ _ _ _ _ _ hright hm).bind fun v v' marking₁ m₁ m₁' h₁ hv => ?_
    exact check_renamed (hv.unaryOperation_eq _) (fun _ => Value.Alike.of_unaryOperation)
      (h₁.beside hm)
  | binary operator hleft hright =>
    refine (heval _ _ _ _ _ _ hleft hm).bind fun v v' marking₁ m₁ m₁' h₁ hv => ?_
    refine (heval _ _ _ _ _ _ hright (h₁.beside hm)).bind fun w w' marking₂ m₂ m₂' h₂ hw => ?_
    -- The left value was found before the right side was evaluated, and still corresponds after it.
    have hv₂ := Value.Renamed.later hv h₂
    exact check_renamed (hv₂.binaryOperation_eq hw _) (fun _ => Value.Alike.of_binaryOperation)
      (h₂.beside (h₁.beside hm))
  | logical operator hleft hright =>
    refine (heval _ _ _ _ _ _ hleft hm).bind fun v v' marking₁ m₁ m₁' h₁ hv => ?_
    rw [hv.settles_eq]
    split
    · exact ⟨marking₁, .refl h₁.machines, hv⟩
    · exact heval _ _ _ _ _ _ hright (h₁.beside hm)
  | read hname => exact readVariable_renamed hname hm
  | assign hname hvalue =>
    refine (heval _ _ _ _ _ _ hvalue hm).bind fun v v' marking₁ m₁ m₁' h₁ hv => ?_
    refine (assignVariable_renamed hname hv (h₁.beside hm)).bind fun _ _ marking₂ m₂ m₂' h₂ _ => ?_
    exact ⟨marking₂, .refl h₂.machines, Value.Renamed.later hv h₂⟩
  | call paren hcallee harguments =>
    refine (heval _ _ _ _ _ _ hcallee hm).bind fun v v' marking₁ m₁ m₁' h₁ hv => ?_
    refine (evaluateAll_renamed heval harguments (h₁.beside hm)).bind
      fun vs vs' marking₂ m₂ m₂' h₂ hvs => ?_
    exact callWith_renamed hexec paren (Value.Renamed.later hv h₂) hvs (h₂.beside (h₁.beside hm))

include heval hexec in
lemma repeatWhile_renamed {condition condition' : Expr} {body body' : Stmt}
    (hcondition : condition.Renamed p.x p.y (p.depths.mark marks) condition')
    (hbody : body.Renamed p.x p.y p.depths marks body') (steps : ℕ)
    (hm : Beside p marking marks m m') :
    (repeatWhile (eval condition) (exec body) steps m).Renamed p marking m done
      (repeatWhile (eval condition') (exec body') steps m') := by
  induction steps generalizing marking m m' with
  | zero => trivial
  | succ steps ih =>
    rw [repeatWhile_succ, repeatWhile_succ]
    refine (heval _ _ _ _ _ _ hcondition hm).bind fun v v' marking₁ m₁ m₁' h₁ hv => ?_
    rw [hv.truthy_eq]
    split
    · refine (hexec _ _ _ _ _ _ hbody (h₁.beside hm)).bind fun _ _ marking₂ m₂ m₂' h₂ _ => ?_
      exact ih (h₂.beside (h₁.beside hm))
    · exact ⟨marking₁, .refl h₁.machines, trivial⟩

include heval hexec in
lemma executeWith_renamed {steps : ℕ} {s s' : Stmt} (h : s.Renamed p.x p.y p.depths marks s')
    (hm : Beside p marking marks m m') :
    (executeWith eval exec steps s m).Renamed p marking m done
      (executeWith eval exec steps s' m') := by
  cases h with
  | expression he =>
    exact (heval _ _ _ _ _ _ he hm).bind fun _ _ marking₁ m₁ m₁' h₁ _ =>
      ⟨marking₁, .refl h₁.machines, trivial⟩
  | print he =>
    refine (heval _ _ _ _ _ _ he hm).bind fun v v' marking₁ m₁ m₁' h₁ hv => ?_
    rw [hv.text_eq fun f f' closure hf => by rw [hf.name]]
    exact printLine_renamed _ (h₁.beside hm)
  | var hname he =>
    refine (evaluateOptional_renamed heval he hm).bind fun v v' marking₁ m₁ m₁' h₁ hv => ?_
    exact define_renamed hname.lexeme hv (h₁.beside hm)
  | block mark hbody =>
    rw [executeWith_block, executeWith_block, ← hm.machines.current]
    -- The new frame stands for the scope of the block, so it gets that scope's mark.
    have hinside : Beside p (Function.update marking m.store.size mark) (mark :: marks)
        (m.enter m.current []) (m'.enter m.current []) := .enter hm.machines hm.marked .nil
    have hleft := (executeAll_renamed hexec _ hbody hinside).leave hm.machines
    rwa [← hm.machines.current] at hleft
  | branch hcondition hthen helse =>
    refine (heval _ _ _ _ _ _ hcondition hm).bind fun v v' marking₁ m₁ m₁' h₁ hv => ?_
    rw [hv.truthy_eq]
    split
    · exact hexec _ _ _ _ _ _ hthen (h₁.beside hm)
    · cases helse with
      | none => exact ⟨marking₁, .refl h₁.machines, trivial⟩
      | some hs => exact hexec _ _ _ _ _ _ hs (h₁.beside hm)
  | loop hcondition hbody => exact repeatWhile_renamed heval hexec hcondition hbody steps hm
  | @function _ mark name parameters parameters' body body' hname hparameters hbody =>
    -- A function keeps the marks of its frame; its own scope gets one at each call.
    have hm₁ : Beside p marking marks { m with nextObject := m.nextObject + 1 }
        { m' with nextObject := m'.nextObject + 1 } :=
      ⟨{ hm.machines with nextObject := congrArg Nat.succ hm.machines.nextObject }, hm.marked⟩
    have hvalue : Value.Renamed p marking { m with nextObject := m.nextObject + 1 }
        (.callable (.function m.nextObject ⟨name, parameters, body⟩ m.current))
        (.callable (.function m'.nextObject ⟨name, parameters', body'⟩ m'.current)) := by
      rw [hm.machines.nextObject, ← hm.machines.current]
      exact .function _ _ ⟨rfl, mark, marks, hm.marked, hparameters, hbody⟩
    have hnumbered : Continues p marking m marking { m with nextObject := m.nextObject + 1 }
        { m' with nextObject := m'.nextObject + 1 } :=
      ⟨{ Marking.Grows.refl marking m with }, rfl, hm₁.machines⟩
    exact (define_renamed hname hvalue hm₁).later hnumbered
  | ret keyword he =>
    refine (evaluateOptional_renamed heval he hm).bind fun v v' marking₁ m₁ m₁' h₁ hv => ?_
    exact ⟨marking₁, .refl h₁.machines, .returned hv⟩

end

/-! ## Runs -/

/-- A tree and the renamed one come to results that correspond, by `evaluate` and `execute`, on
machines side by side and in the same number of `steps`. -/
theorem runs_renamed (p : Renaming) (steps : ℕ) :
    EvalRenamed p (evaluate .byDepth steps) ∧ ExecRenamed p (execute .byDepth steps) := by
  induction steps with
  | zero =>
    refine ⟨fun marking marks e e' m m' _ _ => ?_, fun marking marks s s' m m' _ _ => ?_⟩
    · rw [evaluate, evaluate]
      trivial
    · rw [execute, execute]
      trivial
  | succ steps ih =>
    refine ⟨fun marking marks e e' m m' he hm => ?_, fun marking marks s s' m m' hs hm => ?_⟩
    · rw [evaluate, evaluate]
      exact evaluateWith_renamed ih.1 ih.2 he hm
    · rw [execute, execute]
      exact executeWith_renamed ih.1 ih.2 hs hm

end LoxLang
