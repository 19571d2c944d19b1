import LoxLang.Machine.Operator

/-!
# Running programs

`evaluate` and `execute` give expressions and statements their meaning, one level of a tree at a
time: the `…With` definitions say what a form does in terms of its parts, and a step is used up on
the way into a part.  Statements in a row and the rounds of a loop are also counted.
-/

namespace LoxLang

/-- How a variable is found.  Programs run by `byDepth`; `byName` is what the depths are measured
against. -/
inductive Lookup where
  /-- At the depth recorded for its occurrence; without one it is global. -/
  | byDepth
  /-- By search from the current frame outwards. -/
  | byName

/-! ## Variables -/

/-- The value that an occurrence `id` of the variable `name` has, if it has one. -/
@[inline] def Machine.read? (m : Machine) (lookup : Lookup) (id : NodeId) (name : String) :
    Option Value :=
  match lookup with
  | .byDepth =>
    match m.depths.get? id with
    | some distance => m.store.getAt? m.current distance name
    | none => m.store.get? m.globals name
  | .byName => m.store.get? m.current name

/-- The frame in which an assignment at the occurrence `id` changes `name`, if there is one. -/
@[inline] def Machine.holder? (m : Machine) (lookup : Lookup) (id : NodeId) (name : String) :
    Option FrameId :=
  match lookup with
  | .byDepth =>
    match m.depths.get? id with
    | some distance => m.store.holderAt? m.current distance name
    | none => m.store.holder? m.globals name
  | .byName => m.store.holder? m.current name

namespace Action

@[inline] def readVariable (lookup : Lookup) (id : NodeId) (name : Token) : Action Value := fun m =>
  match m.read? lookup id name.lexeme with
  | some value => .ok value m
  | none => .stop (.error (.undefined name)) m

@[inline] def assignVariable (lookup : Lookup) (id : NodeId) (name : Token) (value : Value) :
    Action Unit :=
  fun m =>
    match m.holder? lookup id name.lexeme with
    -- The frame binds the name already, so `define` overwrites.
    | some frame => .ok () { m with store := m.store.define frame name.lexeme value }
    | none => .stop (.error (.undefined name)) m

end Action

open LoxLang.Action

/-! ## Expressions -/

/-- Evaluate expressions from left to right; the first one that stops is the last. -/
@[specialize] def evaluateAll (eval : Expr → Action Value) : List Expr → Action (List Value)
  | [] => pure []
  | e :: rest => do
    let value ← eval e
    return value :: (← evaluateAll eval rest)

/-- Execute statements in order; the first one that stops is the last. -/
@[specialize] def executeAll (exec : Stmt → Action Unit) : List Stmt → Action Unit
  | [] => pure ()
  | s :: rest => do
    exec s
    executeAll exec rest

/-- Call a callable that takes exactly these `arguments`.  A function body runs in a new frame
inside its closure and gives nil if no `return` ends it. -/
@[inline] def applyWith (exec : Stmt → Action Unit) (arguments : List Value) :
    Callable → Action Value
  | .clock _ => return .number (← readClock)
  | .function _ declaration closure => catchReturn do
    let frame ← newFrame closure ((declaration.parameters.map Token.lexeme).zip arguments)
    inFrame frame (executeAll exec declaration.body)
    return .nil

/-- Call the value `callee`.  That it cannot be called, or not with so many arguments, is an error
at `paren`, the closing parenthesis. -/
@[inline] def callWith (exec : Stmt → Action Unit) (paren : Token) (callee : Value)
    (arguments : List Value) : Action Value :=
  match callee with
  | .callable c =>
    if arguments.length = c.arity then applyWith exec arguments c
    else fail (.argumentCount c.arity arguments.length) paren
  | _ => fail .notCallable paren

/-- Evaluate an expression, given by `eval` and `exec` how to evaluate and execute its parts. -/
@[inline] def evaluateWith (lookup : Lookup) (eval : Expr → Action Value)
    (exec : Stmt → Action Unit) : Expr → Action Value
  | .literal value => pure (.ofConstant value)
  | .grouping inner => eval inner
  | .unary operator right => do
    let right ← eval right
    check operator (unaryOperation operator.kind right)
  | .binary left operator right => do
    let left ← eval left
    let right ← eval right
    check operator (binaryOperation operator.kind left right)
  | .logical left operator right => do
    let left ← eval left
    -- The right side is evaluated only if the left one leaves the result open.
    if settles operator.kind left then return left else eval right
  | .read id name => readVariable lookup id name
  | .assign id name value => do
    let value ← eval value
    assignVariable lookup id name value
    return value
  | .call callee paren arguments => do
    let callee ← eval callee
    let arguments ← evaluateAll eval arguments
    callWith exec paren callee arguments

/-! ## Statements -/

/-- Evaluate an expression that may be absent; then its value is nil. -/
@[inline] def evaluateOptional (eval : Expr → Action Value) : Option Expr → Action Value
  | none => pure .nil
  | some e => eval e

/-- Repeat `body` while `condition` gives a value that is `truthy`, in at most `steps` rounds. -/
@[specialize] def repeatWhile (condition : Action Value) (body : Action Unit) : Nat → Action Unit
  | 0 => exhausted
  | steps + 1 => fun m =>
    match condition m with
    | .ok value m =>
      if value.truthy then
        match body m with
        | .ok _ m => repeatWhile condition body steps m
        | .stop reason m => .stop reason m
        | .exhausted => .exhausted
      else .ok () m
    | .stop reason m => .stop reason m
    | .exhausted => .exhausted

/-- Execute a statement, given by `eval` and `exec` how to evaluate and execute its parts.  The
rounds of a loop are counted by `steps`. -/
@[inline] def executeWith (eval : Expr → Action Value) (exec : Stmt → Action Unit) (steps : Nat) :
    Stmt → Action Unit
  | .expression e => do
    let _ ← eval e
  | .print e => do
    let value ← eval e
    printLine value.text
  | .var name initializer => do
    let value ← evaluateOptional eval initializer
    define name.lexeme value
  | .block body => do
    let frame ← newFrame (← currentFrame) []
    inFrame frame (executeAll exec body)
  | .branch condition thenBranch elseBranch => do
    let value ← eval condition
    if value.truthy then exec thenBranch
    else match elseBranch with
      | some s => exec s
      | none => pure ()
  | .loop condition body => repeatWhile (eval condition) (exec body) steps
  | .function name parameters body => do
    let closure ← currentFrame
    let id ← newObject
    define name.lexeme (.callable (.function id ⟨name, parameters, body⟩ closure))
  | .ret _ value => do
    let value ← evaluateOptional eval value
    stop (.returned value)

mutual

/-- Evaluate an expression whose evaluation goes no deeper than `steps`. -/
def evaluate (lookup : Lookup) : Nat → Expr → Action Value
  | 0, _ => exhausted
  | steps + 1, e => evaluateWith lookup (evaluate lookup steps) (execute lookup steps) e

/-- Execute a statement whose execution goes no deeper than `steps`. -/
def execute (lookup : Lookup) : Nat → Stmt → Action Unit
  | 0, _ => exhausted
  | steps + 1, s => executeWith (evaluate lookup steps) (execute lookup steps) steps s

end

/-! ## Programs -/

/-- More steps than a run can take in practice. -/
def ampleSteps : Nat := Nat.pow 10 18

/-- Execute `body` inside `frame`, as a block does with the frame that it makes. -/
def executeBlock (lookup : Lookup) (steps : Nat) (body : List Stmt) (frame : FrameId) :
    Action Unit :=
  inFrame frame (executeAll (execute lookup steps) body)

/-- Run a program: execute its `statements` up to a stop, then flush the output.  A `return` outside
of any function ends the program. -/
def runProgram (lookup : Lookup) (steps : Nat) (statements : List Stmt) : Action Unit := fun m =>
  match executeAll (execute lookup steps) statements m with
  | .ok _ m => flush m
  | .stop (.returned _) m => flush m
  | .stop reason m => .stop reason m
  | .exhausted => .exhausted

/-- Evaluate an expression by itself; no `return` gets out of it. -/
def evaluateAlone (lookup : Lookup) (steps : Nat) (e : Expr) : Action Value :=
  catchReturn (evaluate lookup steps e)

end LoxLang
