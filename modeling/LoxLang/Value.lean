import LoxLang.Tree.Basic

/-!
# Values

What expressions evaluate to.  Functions are told apart by identity: every function made, and every
native, is an object with a number of its own.
-/

namespace LoxLang

/-- Identifies a function object; see `Callable.id`. -/
abbrev ObjectId := Nat

/-- Identifies a frame of a `Store`. -/
abbrev FrameId := Nat

/-- What can be called.  `id` tells two functions of the same text apart. -/
inductive Callable where
  /-- The native that reads the clock. -/
  | clock (id : ObjectId)
  /-- A declared function with the frame it was declared in. -/
  | function (id : ObjectId) (declaration : Function) (closure : FrameId)

inductive Value where
  | nil
  | bool (b : Bool)
  | number (x : Float)
  | string (s : String)
  | callable (c : Callable)

/-! ## Callables -/

namespace Callable

def id : Callable → ObjectId
  | clock id => id
  | function id _ _ => id

def name : Callable → String
  | clock _ => "clock"
  | function _ declaration _ => declaration.name.lexeme

/-- The exact number of arguments that a call must have. -/
def arity : Callable → Nat
  | clock _ => 0
  | function _ declaration _ => declaration.arity

def text : Callable → String
  | clock _ => "<native fn>"
  | function _ declaration _ => "<fn " ++ declaration.name.lexeme ++ ">"

/-- A declared function in brief: its name and its `arity`. -/
def summary? : Callable → Option String
  | clock _ => none
  | function _ declaration _ =>
    some ("LoxFunction \x7b name: \"" ++ declaration.name.lexeme ++ "\", arity: " ++
      declaration.arity.repr ++ ", .. \x7d")

end Callable

/-! ## Values -/

namespace Value

def ofConstant : Constant → Value
  | .nil => nil
  | .bool b => bool b
  | .number x => number x
  | .string s => string s

/-- Whether a value holds as a condition: only `nil` and `bool false` do not. -/
def truthy : Value → Bool
  | nil => false
  | bool b => b
  | _ => true

/-- Equality without conversion between kinds.  Numbers compare as doubles, so that a `NaN` differs
from itself, and callables by `Callable.id`. -/
def equals : Value → Value → Bool
  | nil, nil => true
  | bool a, bool b => a == b
  | number a, number b => a == b
  | string a, string b => a == b
  | callable a, callable b => a.id == b.id
  | _, _ => false

/-- Numbers are written without an exponent below `10 ^ 21`, and with a signed one of at least two
digits from there on. -/
def layout : Decimal.Layout where
  positional leading := leading < 21
  wholeMark _ := ""
  exponentWidth := 2
  signedZero := true
  tie := .up
  nan := "NaN"
  infinity := "+Inf"
  negativeInfinity := "-Inf"

/-- What `print` shows of a value. -/
def text : Value → String
  | nil => "nil"
  | bool true => "true"
  | bool false => "false"
  | number x => layout.write x
  | string s => s
  | callable c => c.text

end Value

end LoxLang
