import LoxLang.Tree.Basic

/-!
# Trees as text

Trees are shown in parenthesized form, the operator or the kind of statement first.
-/

namespace LoxLang

/-- Numbers without a whole value: the fewest digits that read back, never an exponent. -/
def Constant.layout : Decimal.Layout where
  positional _ := true
  wholeMark _ := ".0"
  exponentWidth := 1
  signedZero := true
  tie := .up
  nan := "NaN"
  infinity := "inf"
  negativeInfinity := "-inf"

/-- A constant in a tree; a whole number is written with all its digits and one decimal, as
`exactWhole?` gives them. -/
def Constant.text : Constant → String
  | nil => "nil"
  | bool true => "true"
  | bool false => "false"
  | number x =>
    match Decimal.exactWhole? x with
    | some digits => digits ++ ".0"
    | none => layout.write x
  | string s => s

/-- The `words` in parentheses, a blank between them. -/
def parenthesized (words : List String) : String := "(" ++ " ".intercalate words ++ ")"

mutual

def Expr.text : Expr → String
  | .literal value => value.text
  | .grouping inner => parenthesized ["group", inner.text]
  | .unary operator right => parenthesized [operator.lexeme, right.text]
  | .binary left operator right => parenthesized [operator.lexeme, left.text, right.text]
  | .logical left operator right => parenthesized [operator.lexeme, left.text, right.text]
  | .read _ name => name.lexeme
  | .assign _ name value => parenthesized ["=", name.lexeme, value.text]
  | .call callee _ arguments => parenthesized ("call" :: callee.text :: Expr.texts arguments)

def Expr.texts : List Expr → List String
  | [] => []
  | e :: rest => e.text :: Expr.texts rest

end

mutual

def Stmt.text : Stmt → String
  | .expression e => parenthesized [";", e.text]
  | .print e => parenthesized ["print", e.text]
  | .var name initializer =>
    parenthesized ("var" :: name.lexeme :: (initializer.map Expr.text).toList)
  | .block body => parenthesized ("block" :: Stmt.texts body)
  | .branch condition thenBranch elseBranch =>
    parenthesized ("if" :: condition.text :: thenBranch.text :: Stmt.optionalTexts elseBranch)
  | .loop condition body => parenthesized ["while", condition.text, body.text]
  | .function name parameters body =>
    parenthesized ("fun" :: name.lexeme :: parenthesized (parameters.map Token.lexeme) ::
      Stmt.texts body)
  | .ret _ value => parenthesized ("return" :: (value.map Expr.text).toList)

def Stmt.texts : List Stmt → List String
  | [] => []
  | s :: rest => s.text :: Stmt.texts rest

def Stmt.optionalTexts : Option Stmt → List String
  | none => []
  | some s => [s.text]

end

end LoxLang
