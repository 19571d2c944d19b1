import LoxLang.Proofs.Machine.Parts

/-!
# What every run keeps

Evaluation is built from a few primitive actions by doing one after another, by acting inside a
frame and by ending a call.  A property that these ways of building respect holds of every
evaluation and every execution, from whatever machine it starts.  The first such property: a run
comes back to the frame it started in, only adds to the store and to the output, and does not touch
the depth table.
-/

namespace LoxLang

/-! ## How actions are built -/

/-- A property `P` of actions that holds of the primitive ones and is kept by the ways to build
actions from others. -/
structure Action.Closed (P : ∀ {α : Type}, Action α → Prop) : Prop where
  pure {α : Type} (value : α) : P (Action.pure value)
  bind {α β : Type} {act : Action α} {next : α → Action β} : P act → (∀ value, P (next value)) →
    P (act >>= next)
  exhausted {α : Type} : P (Action.exhausted : Action α)
  stop {α : Type} (reason : Stop) : P (Action.stop reason : Action α)
  define (name : String) (value : Value) : P (Action.define name value)
  newFrame (enclosing : FrameId) (bindings : List (String × Value)) : P
    (Action.newFrame enclosing bindings)
  currentFrame : P Action.currentFrame
  newObject : P Action.newObject
  readClock : P Action.readClock
  printLine (text : String) : P (Action.printLine text)
  readVariable (lookup : Lookup) (id : NodeId) (name : Token) : P
    (Action.readVariable lookup id name)
  assignVariable (lookup : Lookup) (id : NodeId) (name : Token) (value : Value) :
    P (Action.assignVariable lookup id name value)
  inFrame {α : Type} {act : Action α} (frame : FrameId) : P act → P (Action.inFrame frame act)
  catchReturn {act : Action Value} : P act → P (Action.catchReturn act)

namespace Action.Closed

variable {P : ∀ {α : Type}, Action α → Prop} {eval : Expr → Action Value}
  {exec : Stmt → Action Unit}

lemma check (h : Closed P) {α : Type} (token : Token) (r : Except RuntimeFault α) :
    P (Action.check token r) := by
  cases r with
  | ok value => exact h.pure value
  | error fault => exact h.stop _

lemma evaluateAll (h : Closed P) (heval : ∀ e, P (eval e)) (es : List Expr) :
    P (evaluateAll eval es) := by
  induction es with
  | nil => exact h.pure []
  | cons e es ih => exact h.bind (heval e) fun v => h.bind ih fun vs => h.pure (v :: vs)

lemma executeAll (h : Closed P) (hexec : ∀ s, P (exec s)) (ss : List Stmt) :
    P (executeAll exec ss) := by
  induction ss with
  | nil => exact h.pure ()
  | cons s ss ih => exact h.bind (hexec s) fun _ => ih

lemma callWith (h : Closed P) (hexec : ∀ s, P (exec s)) (paren : Token) (callee : Value)
    (arguments : List Value) : P (callWith exec paren callee arguments) := by
  cases callee with
  | callable c =>
    show P (if arguments.length = c.arity then _ else _)
    split_ifs
    · cases c with
      | clock id => exact h.bind h.readClock fun reading => h.pure (Value.number reading)
      | function id f closure =>
        apply h.catchReturn
        refine h.bind (h.newFrame _ _) fun frame => ?_
        exact h.bind (h.inFrame frame (h.executeAll hexec f.body)) fun _ => h.pure Value.nil
    · exact h.stop _
  | nil | bool | number | string => exact h.stop _

lemma evaluateWith (h : Closed P) (lookup : Lookup) (heval : ∀ e, P (eval e))
    (hexec : ∀ s, P (exec s)) (e : Expr) : P (evaluateWith lookup eval exec e) := by
  cases e with
  | literal value => exact h.pure _
  | grouping inner => exact heval inner
  | unary operator right => exact h.bind (heval right) fun v => h.check operator _
  | binary left operator right =>
    exact h.bind (heval left) fun v => h.bind (heval right) fun w => h.check operator _
  | logical left operator right =>
    refine h.bind (heval left) fun v => ?_
    split_ifs
    · exact h.pure v
    · exact heval right
  | read id name => exact h.readVariable lookup id name
  | assign id name value =>
    exact h.bind (heval value) fun v => h.bind (h.assignVariable lookup id name v) fun _ => h.pure v
  | call callee paren arguments =>
    exact h.bind (heval callee) fun v => h.bind (h.evaluateAll heval arguments) fun vs =>
      h.callWith hexec paren v vs

lemma evaluateOptional (h : Closed P) (heval : ∀ e, P (eval e)) (e : Option Expr) :
    P (evaluateOptional eval e) := by
  cases e with
  | none => exact h.pure Value.nil
  | some e => exact heval e

lemma repeatWhile (h : Closed P) {condition : Action Value} {body : Action Unit}
    (hcondition : P condition) (hbody : P body) (steps : ℕ) :
    P (repeatWhile condition body steps) := by
  induction steps with
  | zero => exact h.exhausted
  | succ steps ih =>
    rw [funext (repeatWhile_succ condition body steps)]
    refine h.bind hcondition fun v => ?_
    split_ifs
    · exact h.bind hbody fun _ => ih
    · exact h.pure ()

lemma executeWith (h : Closed P) (heval : ∀ e, P (eval e)) (hexec : ∀ s, P (exec s)) (steps : ℕ)
    (s : Stmt) : P (executeWith eval exec steps s) := by
  cases s with
  | expression e => exact h.bind (heval e) fun _ => h.pure ()
  | print e => exact h.bind (heval e) fun v => h.printLine v.text
  | var name initializer =>
    exact h.bind (h.evaluateOptional heval initializer) fun v => h.define name.lexeme v
  | block body =>
    refine h.bind h.currentFrame fun outer => h.bind (h.newFrame outer []) fun frame => ?_
    exact h.inFrame frame (h.executeAll hexec body)
  | branch condition thenBranch elseBranch =>
    refine h.bind (heval condition) fun v => ?_
    split_ifs
    · exact hexec thenBranch
    · cases elseBranch with
      | none => exact h.pure ()
      | some s => exact hexec s
  | loop condition body => exact h.repeatWhile (heval condition) (hexec body) steps
  | function name parameters body =>
    exact h.bind h.currentFrame fun closure => h.bind h.newObject fun id => h.define name.lexeme _
  | ret keyword value => exact h.bind (h.evaluateOptional heval value) fun v => h.stop _

/-- A property that is `Closed` holds of all evaluations and executions. -/
theorem runs (h : Closed P) (lookup : Lookup) (steps : ℕ) :
    (∀ e, P (evaluate lookup steps e)) ∧ ∀ s, P (execute lookup steps s) := by
  induction steps with
  | zero => exact ⟨fun _ => h.exhausted, fun _ => h.exhausted⟩
  | succ steps ih =>
    constructor
    · intro e
      exact h.evaluateWith lookup ih.1 ih.2 e
    · intro s
      exact h.executeWith ih.1 ih.2 steps s

end Action.Closed

/-! ## The machine afterwards -/

/-- What a machine `m'` has kept of an earlier one: the frame it is in, the global frame, the depth
table, the frames and the names they bind, and what was written. -/
structure Machine.Keeps (m m' : Machine) : Prop where
  current : m'.current = m.current
  globals : m'.globals = m.globals
  depths : m'.depths = m.depths
  size : m.store.size ≤ m'.store.size
  enclosing : ∀ f < m.store.size, m'.store.enclosing? f = m.store.enclosing? f
  binds : ∀ f x, m.store.Binds f x → m'.store.Binds f x
  written : m.sink.written.toList <+: m'.sink.written.toList
  unlimited : m.sink.room = none → m'.sink.room = none

namespace Machine.Keeps

variable {m m₁ m₂ : Machine}

lemma refl (m : Machine) : m.Keeps m :=
  ⟨rfl, rfl, rfl, le_rfl, fun _ _ => rfl, fun _ _ => id, List.prefix_rfl, id⟩

lemma trans (h : m.Keeps m₁) (h' : m₁.Keeps m₂) : m.Keeps m₂ where
  current := h'.current.trans h.current
  globals := h'.globals.trans h.globals
  depths := h'.depths.trans h.depths
  size := h.size.trans h'.size
  enclosing f hf := (h'.enclosing f (hf.trans_le h.size)).trans (h.enclosing f hf)
  binds f x hx := h'.binds f x (h.binds f x hx)
  written := h.written.trans h'.written
  unlimited hroom := h'.unlimited (h.unlimited hroom)

/-- Binding a name `x` keeps all others. -/
lemma define (m : Machine) (f : FrameId) (x : String) (v : Value) :
    m.Keeps { m with store := m.store.define f x v } where
  current := rfl
  globals := rfl
  depths := rfl
  size := Store.size_define.ge
  enclosing _ _ := Store.enclosing?_define
  binds g y hy := by
    show ((m.store.define f x v).local? g y).isSome = true
    rw [Store.local?_define]
    split_ifs
    · rfl
    · exact hy
  written := List.prefix_rfl
  unlimited := id

/-- A new frame leaves the others as they are. -/
lemma extend (m : Machine) (outer : FrameId) (bindings : List (String × Value)) :
    m.Keeps { m with store := m.store.extend outer bindings } where
  current := rfl
  globals := rfl
  depths := rfl
  size := by
    show m.store.size ≤ (m.store.extend outer bindings).size
    rw [Store.size_extend]
    exact Nat.le_succ _
  enclosing _ hf := Store.enclosing?_extend_of_lt hf
  binds g y hy := by
    show ((m.store.extend outer bindings).local? g y).isSome = true
    rw [Store.local?_extend_of_lt hy.lt_size]
    exact hy
  written := List.prefix_rfl
  unlimited := id

/-- A machine keeps what it has while it works inside another `frame`, if it comes back. -/
lemma inFrame {frame : FrameId} (h : { m with current := frame }.Keeps m₁) :
    m.Keeps { m₁ with current := m.current } :=
  ⟨rfl, h.globals, h.depths, h.size, h.enclosing, h.binds, h.written, h.unlimited⟩

end Machine.Keeps

lemma Sink.written_write (s : Sink) (bytes : Array UInt8) :
    s.written.toList <+: (s.write bytes).2.written.toList := by
  unfold Sink.write
  split
  · simp
  · split_ifs <;> simp

lemma Sink.room_write {s : Sink} (h : s.room = none) (bytes : Array UInt8) :
    (s.write bytes).2.room = none := by
  simp [Sink.write, h]

lemma Machine.Keeps.print (m : Machine) (text : String) :
    m.Keeps { m with sink := (m.sink.writeLine text).2 } :=
  ⟨rfl, rfl, rfl, le_rfl, fun _ _ => rfl, fun _ _ => id, m.sink.written_write _,
    fun h => Sink.room_write h _⟩

/-- Whatever machine an action starts from, it `Keeps` what that machine has, however it ends. -/
def Action.Keeps {α : Type} (act : Action α) : Prop :=
  ∀ m, (act m).Meets (fun _ m' => m.Keeps m') fun _ m' => m.Keeps m'

lemma Action.Keeps.closed : Action.Closed @Action.Keeps where
  pure _ m := .refl m
  bind {α β act next} hact hnext m := by
    refine (hact m).bind fun v m₁ _ hm₁ => ?_
    exact (hnext v m₁).mono (fun _ _ => hm₁.trans) fun _ _ => hm₁.trans
  exhausted _ := trivial
  stop _ m := .refl m
  define x v m := .define m m.current x v
  -- A frame is only ever added behind the ones that are there.
  newFrame outer bindings m := .extend m outer bindings
  currentFrame m := .refl m
  newObject _ := ⟨rfl, rfl, rfl, le_rfl, fun _ _ => rfl, fun _ _ => id, List.prefix_rfl, id⟩
  readClock _ := ⟨rfl, rfl, rfl, le_rfl, fun _ _ => rfl, fun _ _ => id, List.prefix_rfl, id⟩
  printLine text m := by
    have hkeeps := Machine.Keeps.print m text
    unfold Action.printLine
    generalize m.sink.writeLine text = written at hkeeps ⊢
    rcases written with ⟨_ | fault, sink⟩
    · exact hkeeps
    · exact hkeeps
  readVariable lookup id name m := by
    unfold Action.readVariable
    cases m.read? lookup id name.lexeme <;> exact .refl m
  assignVariable lookup id name v m := by
    unfold Action.assignVariable
    cases m.holder? lookup id name.lexeme with
    | none => exact .refl m
    | some f => exact .define m f name.lexeme v
  inFrame {α act} frame hact m := by
    have hinside := hact { m with current := frame }
    unfold Action.inFrame
    cases hr : act { m with current := frame } with
    | exhausted => trivial
    | ok v m₁ =>
      rw [hr] at hinside
      exact Machine.Keeps.inFrame hinside
    | stop reason m₁ =>
      rw [hr] at hinside
      exact Machine.Keeps.inFrame hinside
  catchReturn {act} hact m := by
    have hinside := hact m
    unfold Action.catchReturn
    -- Catching a `return` changes the result and not the machine.
    rcases hr : act m with ⟨v, m₁⟩ | ⟨_ | _ | _, m₁⟩ | _ <;> rw [hr] at hinside <;> exact hinside

/-- Running the statements `ss` keeps what the machine has. -/
theorem executeAll_keeps (lookup : Lookup) (steps : ℕ) (ss : List Stmt) :
    (executeAll (execute lookup steps) ss).Keeps :=
  Action.Keeps.closed.executeAll (Action.Keeps.closed.runs lookup steps).2 ss

end LoxLang
