import Mathlib.Tactic
import LoxLang.Machine.Run
import LoxLang.Proofs.Store.Frames

/-!
# Forms and their parts

Most forms of expressions evaluate all their parts from left to right and then finish with the
values; only `and` and `or` may leave their right side out.  Most forms of statements evaluate at
most one expression and then finish with its value.  The meaning of a form is restated in this way,
so that a property of all forms needs one argument for the parts and one for how each form finishes.
-/

namespace LoxLang

open LoxLang.Action

/-! ## What an action comes to -/

/-- What holds (`done`) if the result is a value, and what (`stopped`) if it is a stop. -/
def Result.Meets {α : Type} (r : Result α) (done : α → Machine → Prop)
    (stopped : Stop → Machine → Prop) : Prop :=
  match r with
  | .ok value m => done value m
  | .stop reason m => stopped reason m
  | .exhausted => True

section

variable {α β : Type} {act : Action α} {f : α → Action β} {m m' : Machine} {v : α} {reason : Stop}
  {done done' : α → Machine → Prop} {final : β → Machine → Prop}
  {stopped stopped' : Stop → Machine → Prop}

lemma bind_eq_of_ok (h : act m = .ok v m') : (act >>= f) m = f v m' := by
  simp only [bind, Action.bind, h]

lemma bind_eq_of_stop (h : act m = .stop reason m') : (act >>= f) m = .stop reason m' := by
  simp only [bind, Action.bind, h]

lemma bind_eq_of_exhausted (h : act m = .exhausted) : (act >>= f) m = .exhausted := by
  simp only [bind, Action.bind, h]

/-- Actions that agree are followed up alike if what follows agrees. -/
lemma bind_congr {act' : Action α} {f' : α → Action β} (h : act m = act' m)
    (hf : ∀ v m', act m = .ok v m' → f v m' = f' v m') : (act >>= f) m = (act' >>= f') m := by
  cases hr : act m with
  | ok v m' => rw [bind_eq_of_ok hr, bind_eq_of_ok (h.symm.trans hr), hf v m' hr]
  | stop reason m' => rw [bind_eq_of_stop hr, bind_eq_of_stop (h.symm.trans hr)]
  | exhausted => rw [bind_eq_of_exhausted hr, bind_eq_of_exhausted (h.symm.trans hr)]

/-- An action that comes to a value comes to one first in its first part `act`. -/
lemma bind_eq_ok {w : β} (h : (act >>= f) m = .ok w m') :
    ∃ v m₁, act m = .ok v m₁ ∧ f v m₁ = .ok w m' := by
  cases hr : act m with
  | ok v m₁ => exact ⟨v, m₁, rfl, (bind_eq_of_ok hr).symm.trans h⟩
  | stop reason m₁ => exact absurd ((bind_eq_of_stop hr).symm.trans h) (by simp)
  | exhausted => exact absurd ((bind_eq_of_exhausted hr).symm.trans h) (by simp)

lemma Result.Meets.mono {r : Result α} (h : r.Meets done stopped)
    (hdone : ∀ v m, done v m → done' v m)
    (hstopped : ∀ reason m, stopped reason m → stopped' reason m) : r.Meets done' stopped' := by
  cases r with
  | ok v m => exact hdone v m h
  | stop reason m => exact hstopped reason m h
  | exhausted => trivial

lemma Result.Meets.of_ok {r : Result α} (h : r.Meets done stopped) (hr : r = .ok v m) :
    done v m := by
  subst hr
  exact h

/-- One action after another. -/
lemma Result.Meets.bind (h : (act m).Meets done stopped)
    (hf : ∀ v m', act m = .ok v m' → done v m' → (f v m').Meets final stopped) :
    ((act >>= f) m).Meets final stopped := by
  cases hr : act m with
  | ok v m' =>
    rw [bind_eq_of_ok hr]
    exact hf v m' hr (h.of_ok hr)
  | stop reason m' =>
    rw [bind_eq_of_stop hr]
    rw [hr] at h
    exact h
  | exhausted =>
    rw [bind_eq_of_exhausted hr]
    trivial

end

/-- A variable is read in the frame that binds it: `read?` looks into what `holder?` finds. -/
lemma Machine.read?_eq_bind_holder? (m : Machine) (lookup : Lookup) (id : NodeId) (x : String) :
    m.read? lookup id x = (m.holder? lookup id x).bind fun f => m.store.local? f x := by
  cases lookup with
  | byName => rfl
  | byDepth =>
    rw [Machine.read?, Machine.holder?]
    cases m.depths.get? id with
    | none => rfl
    | some d => exact m.store.getAt?_eq_bind_holderAt? m.current d x

/-! ## Expressions -/

/-- The parts that are evaluated, in order. -/
def Expr.parts : Expr → List Expr
  | .literal _ | .read _ _ => []
  | .grouping inner => [inner]
  | .unary _ right => [right]
  | .binary left _ right | .logical left _ right => [left, right]
  | .assign _ _ value => [value]
  | .call callee _ arguments => callee :: arguments

/-- Whether the next part is evaluated after the ones that have come to these values. -/
def Expr.goesOn : Expr → List Value → Bool
  | .logical _ operator _, [left] => !settles operator.kind left
  | _, _ => true

/-- What is left to do with the values of all `parts`. -/
def Expr.finish (lookup : Lookup) (exec : Stmt → Action Unit) : Expr → List Value → Action Value
  | .literal value, _ => pure (.ofConstant value)
  | .read id name, _ => readVariable lookup id name
  | .unary operator _, [right] => check operator (unaryOperation operator.kind right)
  | .binary _ operator _, [left, right] => check operator (binaryOperation operator.kind left right)
  | .assign id name _, [value] => do
    assignVariable lookup id name value
    return value
  | .call _ paren _, callee :: arguments => callWith exec paren callee arguments
  | _, values => pure (values.getLastD .nil)

section

variable {lookup : Lookup} {eval : Expr → Action Value} {exec : Stmt → Action Unit} {m : Machine}

@[simp] lemma evaluateAll_nil : evaluateAll eval [] m = .ok [] m := rfl

lemma evaluateAll_cons (e : Expr) (rest : List Expr) :
    evaluateAll eval (e :: rest) = eval e >>= fun v => evaluateAll eval rest >>= fun vs =>
      pure (v :: vs) := rfl

lemma length_of_evaluateAll {es : List Expr} {vs : List Value} {m m' : Machine}
    (h : evaluateAll eval es m = .ok vs m') : vs.length = es.length := by
  induction es generalizing m m' vs with
  | nil =>
    obtain ⟨rfl, -⟩ : [] = vs ∧ m = m' := by simpa using h
    rfl
  | cons e es ih =>
    rw [evaluateAll_cons] at h
    obtain ⟨v, m₁, -, h⟩ := bind_eq_ok h
    obtain ⟨ws, m₂, hws, h⟩ := bind_eq_ok h
    obtain ⟨rfl, -⟩ : v :: ws = vs ∧ m₂ = m' := by simpa [pure, Action.pure] using h
    simp [ih hws]

/-- An expression that is not `and` or `or` evaluates its `parts` and finishes. -/
lemma evaluateWith_eq {e : Expr} (h : ∀ left operator right, e ≠ .logical left operator right) :
    evaluateWith lookup eval exec e m = (evaluateAll eval e.parts >>= e.finish lookup exec) m := by
  have hone : ∀ (p : Expr) (k : List Value → Action Value),
      (evaluateAll eval [p] >>= k) m = (eval p >>= fun v => k [v]) m := by
    intro p k
    cases hp : eval p m <;> simp [evaluateAll, bind, Action.bind, pure, Action.pure, hp]
  cases e with
  | literal value => rfl
  | grouping inner =>
    rw [Expr.parts, hone]
    cases hp : eval inner m <;>
      simp [evaluateWith, Expr.finish, bind, Action.bind, pure, Action.pure, hp]
  | unary operator right =>
    rw [Expr.parts, hone]
    rfl
  | binary left operator right =>
    cases hl : eval left m with
    | ok v m₁ =>
      cases hr : eval right m₁ <;>
        simp [evaluateWith, Expr.parts, Expr.finish, evaluateAll, bind, Action.bind, pure,
          Action.pure, hl, hr]
    | stop reason m₁ => simp [evaluateWith, Expr.parts, evaluateAll, bind, Action.bind, hl]
    | exhausted => simp [evaluateWith, Expr.parts, evaluateAll, bind, Action.bind, hl]
  | logical left operator right => exact absurd rfl (h left operator right)
  | read id name => rfl
  | assign id name value =>
    rw [Expr.parts, hone]
    rfl
  | call callee paren arguments =>
    cases hc : eval callee m with
    | ok v m₁ =>
      cases ha : evaluateAll eval arguments m₁ <;>
        simp [evaluateWith, Expr.parts, Expr.finish, evaluateAll, bind, Action.bind, pure,
          Action.pure, hc, ha]
    | stop reason m₁ => simp [evaluateWith, Expr.parts, evaluateAll, bind, Action.bind, hc]
    | exhausted => simp [evaluateWith, Expr.parts, evaluateAll, bind, Action.bind, hc]

end

/-! ## Statements -/

/-- The expression that is evaluated first. -/
def Stmt.head? : Stmt → Option Expr
  | .expression e | .print e => some e
  | .var _ initializer => initializer
  | .ret _ value => value
  | .branch condition _ _ => some condition
  | .block _ | .loop _ _ | .function _ _ _ => none

/-- The branch that is taken for a value of the condition. -/
def Stmt.branch? : Stmt → Value → Option Stmt
  | .branch _ thenBranch elseBranch, value => if value.truthy then some thenBranch else elseBranch
  | _, _ => none

/-- What is left to do with the `value` of the first expression. -/
def Stmt.finish (exec : Stmt → Action Unit) (s : Stmt) (value : Value) : Action Unit :=
  match s with
  | .print _ => printLine value.text
  | .var name _ => define name.lexeme value
  | .ret _ _ => stop (.returned value)
  | .branch _ _ _ => (s.branch? value).elim (pure ()) exec
  | .function name parameters body => do
    let closure ← currentFrame
    let id ← newObject
    define name.lexeme (.callable (.function id ⟨name, parameters, body⟩ closure))
  | .expression _ | .block _ | .loop _ _ => pure ()

section

variable {eval : Expr → Action Value} {exec : Stmt → Action Unit} {m : Machine}

lemma executeAll_cons (s : Stmt) (rest : List Stmt) :
    executeAll exec (s :: rest) = exec s >>= fun _ => executeAll exec rest := rfl

/-- One list of statements `ss` and then another. -/
lemma executeAll_append (ss rest : List Stmt) (m : Machine) :
    executeAll exec (ss ++ rest) m = (executeAll exec ss >>= fun _ => executeAll exec rest) m := by
  induction ss generalizing m with
  | nil => rfl
  | cons s ss ih =>
    rw [List.cons_append, executeAll_cons, executeAll_cons]
    cases hs : exec s m with
    | ok v m₁ =>
      rw [bind_eq_of_ok hs, ih]
      cases hss : executeAll exec ss m₁ with
      | ok w m₂ => rw [bind_eq_of_ok hss, bind_eq_of_ok ((bind_eq_of_ok hs).trans hss)]
      | stop reason m₂ => rw [bind_eq_of_stop hss, bind_eq_of_stop ((bind_eq_of_ok hs).trans hss)]
      | exhausted =>
        rw [bind_eq_of_exhausted hss, bind_eq_of_exhausted ((bind_eq_of_ok hs).trans hss)]
    | stop reason m₁ => rw [bind_eq_of_stop hs, bind_eq_of_stop (bind_eq_of_stop hs)]
    | exhausted => rw [bind_eq_of_exhausted hs, bind_eq_of_exhausted (bind_eq_of_exhausted hs)]

/-- A statement that is no block or loop evaluates its first expression, `head?`, and finishes. -/
lemma executeWith_eq {s : Stmt} (steps : ℕ) (hblock : ∀ body, s ≠ .block body)
    (hloop : ∀ condition body, s ≠ .loop condition body) :
    executeWith eval exec steps s m = (evaluateOptional eval s.head? >>= s.finish exec) m := by
  cases s with
  | expression e | print e | var name initializer | function name parameters body
  | ret keyword value =>
    rfl
  | block body => exact absurd rfl (hblock body)
  | branch condition thenBranch elseBranch =>
    refine bind_congr (by rfl) fun v m' _ => ?_
    by_cases hv : v.truthy
    · simp [Stmt.finish, Stmt.branch?, hv]
    · cases elseBranch <;> simp [Stmt.finish, Stmt.branch?, hv]
  | loop condition body => exact absurd rfl (hloop condition body)

end

/-- One round of a loop and the ones after it. -/
lemma repeatWhile_succ (condition : Action Value) (body : Action Unit) (steps : ℕ) (m : Machine) :
    repeatWhile condition body (steps + 1) m =
      (condition >>= fun v =>
        if v.truthy then body >>= fun _ => repeatWhile condition body steps else pure ()) m := by
  cases hv : condition m with
  | ok v m' =>
    rw [bind_eq_of_ok hv]
    by_cases htruthy : v.truthy
    · simp only [repeatWhile, hv, htruthy, if_true, bind, Action.bind]
      cases body m' <;> rfl
    · simp only [repeatWhile, hv, htruthy]
      rfl
  | stop reason m' =>
    rw [bind_eq_of_stop hv]
    simp only [repeatWhile, hv]
  | exhausted =>
    rw [bind_eq_of_exhausted hv]
    simp only [repeatWhile, hv]

/-! ## Inside a new frame -/

/-- The machine in a new frame that stands inside `outer` and has the given `bindings`. -/
def Machine.enter (m : Machine) (outer : FrameId) (bindings : List (String × Value)) : Machine :=
  { m with store := m.store.extend outer bindings, current := m.store.size }

/-- The same result in the frame `outer`. -/
def Result.leave {α : Type} (outer : FrameId) : Result α → Result α
  | .ok value m => .ok value { m with current := outer }
  | .stop reason m => .stop reason { m with current := outer }
  | .exhausted => .exhausted

/-- What a call comes to, from what the body of the function comes to. -/
def Result.returned (outer : FrameId) : Result Unit → Result Value
  | .ok _ m => .ok .nil { m with current := outer }
  | .stop (.returned value) m => .ok value { m with current := outer }
  | .stop reason m => .stop reason { m with current := outer }
  | .exhausted => .exhausted

section

variable {eval : Expr → Action Value} {exec : Stmt → Action Unit} {m : Machine}

lemma executeWith_block (steps : ℕ) (body : List Stmt) :
    executeWith eval exec steps (.block body) m =
      (executeAll exec body (m.enter m.current [])).leave m.current := by
  cases h : executeAll exec body (m.enter m.current []) <;>
  · have h' := h
    rw [Machine.enter, Store.extend] at h'
    simp only [executeWith, bind, Action.bind, currentFrame, newFrame, inFrame, Result.leave,
      Store.add] at h' ⊢
    rw [h']

lemma applyWith_function (arguments : List Value) (id : ObjectId) (f : Function)
    (closure : FrameId) :
    applyWith exec arguments (.function id f closure) m =
      (executeAll exec f.body
        (m.enter closure ((f.parameters.map Token.lexeme).zip arguments))).returned m.current := by
  cases h : executeAll exec f.body
    (m.enter closure ((f.parameters.map Token.lexeme).zip arguments)) with
  | ok _ m' =>
    rw [Machine.enter, Store.extend] at h
    simp only [applyWith, catchReturn, bind, Action.bind, newFrame, inFrame, Result.returned,
      Store.add] at h ⊢
    rw [h]
    rfl
  | stop reason m' =>
    rw [Machine.enter, Store.extend] at h
    simp only [applyWith, catchReturn, bind, Action.bind, newFrame, inFrame, Store.add] at h ⊢
    rw [h]
    cases reason <;> rfl
  | exhausted =>
    rw [Machine.enter, Store.extend] at h
    simp only [applyWith, catchReturn, bind, Action.bind, newFrame, inFrame, Store.add] at h ⊢
    rw [h]
    rfl

end

end LoxLang
