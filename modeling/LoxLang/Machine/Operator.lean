import LoxLang.Machine.Basic

/-!
# Operators

Strict operators on values.
-/

namespace LoxLang

/-- What an operator in front of `right` gives.  Any value can be negated by `!`, and numbers only
by `-`. -/
def unaryOperation (operator : Kind) (right : Value) : Except RuntimeFault Value :=
  match operator with
  | .bang => .ok (.bool (!right.truthy))
  | .minus =>
    match right with
    | .number x => .ok (.number (-x))
    | _ => .error .operandNotNumber
  | _ => .error .unknownUnary

/-- Apply `f` to two numbers; any other operands are a fault. -/
def onNumbers (f : Float → Float → Value) : Value → Value → Except RuntimeFault Value
  | .number a, .number b => .ok (f a b)
  | _, _ => .error .operandsNotNumbers

/-- What `+` gives: numbers are added and strings are joined, and no operand is converted. -/
def addition : Value → Value → Except RuntimeFault Value
  | .number a, .number b => .ok (.number (a + b))
  | .string a, .string b => .ok (.string (a ++ b))
  | _, _ => .error .operandsNotAddable

/-- What an operator between `left` and `right` gives.  Equality is defined on all values. -/
def binaryOperation (operator : Kind) (left right : Value) : Except RuntimeFault Value :=
  match operator with
  | .plus => addition left right
  | .minus => onNumbers (fun a b => .number (a - b)) left right
  | .star => onNumbers (fun a b => .number (a * b)) left right
  | .slash => onNumbers (fun a b => .number (a / b)) left right
  | .greater => onNumbers (fun a b => .bool (b < a)) left right
  | .greaterEqual => onNumbers (fun a b => .bool (b ≤ a)) left right
  | .less => onNumbers (fun a b => .bool (a < b)) left right
  | .lessEqual => onNumbers (fun a b => .bool (a ≤ b)) left right
  | .equalEqual => .ok (.bool (left.equals right))
  | .bangEqual => .ok (.bool (!left.equals right))
  | _ => .error .unknownBinary

/-- Whether `left` settles the result of `or`, or else of `and`. -/
def settles (operator : Kind) (left : Value) : Bool :=
  if operator = .orWord then left.truthy else !left.truthy

end LoxLang
