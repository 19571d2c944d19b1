import LoxLang.Scope.Depths
import LoxLang.Sink
import LoxLang.Store

/-!
# Machines

A machine is the state of a running program: its frames, the frame it is in, the depth table, the
clock and the output.  An action changes a machine and comes to a value, or stops for a reason, or
runs out of the steps it was given.
-/

namespace LoxLang

/-! ## Runtime errors -/

/-- What a running program did wrong. -/
inductive RuntimeFault where
  | operandNotNumber
  | operandsNotNumbers
  | operandsNotAddable
  | unknownUnary
  | unknownBinary
  | notCallable
  | argumentCount (expected given : Nat)
  | undefinedVariable (name : String)
  deriving Repr, DecidableEq

structure RuntimeError where
  fault : RuntimeFault
  token : Token

def RuntimeFault.message : RuntimeFault → String
  | operandNotNumber => "Operand must be a number."
  | operandsNotNumbers => "Operand must be a numbers."
  | operandsNotAddable => "Operands must be two numbers or two strings."
  | unknownUnary => "Invalid unary operator."
  | unknownBinary => "Invalid binary operator."
  | notCallable => "Can only call functions and classes."
  | argumentCount expected given =>
    "Expected " ++ expected.repr ++ " arguments but got " ++ given.repr ++ "."
  | undefinedVariable name => "Undefined variable '" ++ name ++ "'."

def RuntimeError.text (e : RuntimeError) : String :=
  e.fault.message ++ "\n[line " ++ e.token.line.repr ++ "]"

/-- The error `undefinedVariable`, found at the `name` that nothing binds. -/
def RuntimeError.undefined (name : Token) : RuntimeError := ⟨.undefinedVariable name.lexeme, name⟩

/-! ## Machines -/

/-- A clock that is settled beforehand: `readings n` is what it will show when it is read for the
`n`-th time, and `taken` counts the readings so far. -/
structure Clock where
  readings : Nat → Float
  taken : Nat

/-- Readings a microsecond apart, from `start` on. -/
def Clock.ticking (start : Float) (n : Nat) : Float := start + n.toFloat / 1000000

structure Machine where
  store : Store
  globals : FrameId
  /-- The frame the program is in. -/
  current : FrameId
  depths : Depths
  nextObject : ObjectId
  clock : Clock
  sink : Sink

/-- Why an action ended before its end.  Only `error` and `sink` are failures of the program. -/
inductive Stop where
  | error (e : RuntimeError)
  /-- A `return` on its way to the call it ends. -/
  | returned (value : Value)
  | sink (fault : SinkFault)

/-- What an action comes to. -/
inductive Result (α : Type) where
  | ok (value : α) (machine : Machine)
  | stop (reason : Stop) (machine : Machine)
  /-- The steps given did not suffice. -/
  | exhausted

def Action (α : Type) := Machine → Result α

namespace Action

@[inline] protected def pure {α : Type} (value : α) : Action α := fun m => .ok value m

@[inline] protected def bind {α β : Type} (first : Action α) (next : α → Action β) :
    Action β := fun m =>
  match first m with
  | .ok value m => next value m
  | .stop reason m => .stop reason m
  | .exhausted => .exhausted

instance : Monad Action where
  pure := Action.pure
  bind := Action.bind

/-- The action without steps; no machine is left of it. -/
@[inline] def exhausted {α : Type} : Action α := fun _ => .exhausted

@[inline] def stop {α : Type} (reason : Stop) : Action α := fun m => .stop reason m

/-- Stop with a runtime error that is reported at `token`. -/
@[inline] def fail {α : Type} (fault : RuntimeFault) (token : Token) : Action α :=
  stop (.error ⟨fault, token⟩)

/-- Go on with what an operator has given, or stop with its fault at `token`. -/
@[inline] def check {α : Type} (token : Token) : Except RuntimeFault α → Action α
  | .ok value => Action.pure value
  | .error fault => fail fault token

/-- Bind `name` in the frame `m.current`, over a binding that the frame has already. -/
@[inline] def define (name : String) (value : Value) : Action Unit := fun m =>
  .ok () { m with store := m.store.define m.current name value }

/-- Add a frame inside `enclosing` that binds `bindings` from the first on, without going there. -/
@[inline] def newFrame (enclosing : FrameId) (bindings : List (String × Value)) :
    Action FrameId := fun m =>
  let (id, store) := m.store.add (some enclosing)
  .ok id { m with store := store.defineAll id bindings }

@[inline] def currentFrame : Action FrameId := fun m => .ok m.current m

/-- A number that no other function object of the machine has. -/
@[inline] def newObject : Action ObjectId := fun m =>
  .ok m.nextObject { m with nextObject := m.nextObject + 1 }

/-- The next of the clock's readings, which is then taken. -/
@[inline] def readClock : Action Float := fun m =>
  .ok (m.clock.readings m.clock.taken)
    { m with clock := { m.clock with taken := m.clock.taken + 1 } }

/-- Write `text` and a line end.  What the sink has accepted of them stays written if it fails. -/
@[inline] def printLine (text : String) : Action Unit := fun m =>
  match m.sink.writeLine text with
  | (none, sink) => .ok () { m with sink := sink }
  | (some fault, sink) => .stop (.sink fault) { m with sink := sink }

@[inline] def flush : Action Unit := fun m =>
  match m.sink.flush with
  | none => .ok () m
  | some fault => .stop (.sink fault) m

/-- Act in `frame`, and be back in the frame before in the end, whether `act` succeeds or stops. -/
@[inline] def inFrame {α : Type} (frame : FrameId) (act : Action α) : Action α := fun m =>
  -- The machine that `act` leaves may be in any frame, so the old one is kept here.
  let outer := m.current
  match act { m with current := frame } with
  | .ok value m => .ok value { m with current := outer }
  | .stop reason m => .stop reason { m with current := outer }
  | .exhausted => .exhausted

/-- End a call: a `Stop.returned` inside it gives its value, and every other stop goes on. -/
@[inline] def catchReturn (act : Action Value) : Action Value := fun m =>
  match act m with
  | .stop (.returned value) m => .ok value m
  | other => other

end Action

namespace Machine

/-- The machine of a new session.  Its one frame is the global one and binds the native `clock`. -/
def start (readings : Nat → Float) (sink : Sink) : Machine :=
  let (globals, store) := Store.empty.add none
  { store := store.define globals "clock" (.callable (.clock 0))
    globals := globals
    current := globals
    depths := .empty
    nextObject := 1
    clock := ⟨readings, 0⟩
    sink := sink }

end Machine

end LoxLang
