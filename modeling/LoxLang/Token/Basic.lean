import LoxLang.Decimal.Layout
import LoxLang.Token.Kind

/-!
# Tokens

A token is a kind, the source text it covers, the literal it denotes (numbers and strings only), and
the line it ends on.
-/

namespace LoxLang

/-- The value a literal token denotes. -/
inductive Literal where
  | number (x : Float)
  | string (s : String)

structure Token where
  kind : Kind
  lexeme : String
  literal : Option Literal
  line : Nat

/-- How a number literal is shown with its token: whole numbers below `10 ^ 15` end in `.0`, there
is no exponent, and zero has no sign. -/
def Literal.layout : Decimal.Layout where
  positional _ := true
  wholeMark leading := if leading < 15 then ".0" else ""
  exponentWidth := 1
  signedZero := false
  tie := .up
  nan := "NaN"
  infinity := "inf"
  negativeInfinity := "-inf"

def Literal.text : Literal → String
  | .number x => layout.write x
  | .string s => s

namespace Token

/-- A token as shown in listings: kind, lexeme and literal, with `null` for none. -/
def text (t : Token) : String :=
  t.kind.name ++ " " ++ t.lexeme ++ " " ++ t.literal.elim "null" Literal.text

/-- The token that marks the end of input on `line`. -/
def endOfInput (line : Nat) : Token := ⟨.eof, "", none, line⟩

/-- Where an error at this token is said to be. -/
def location (t : Token) : String :=
  if t.kind = .eof then " at end" else " at '" ++ t.lexeme ++ "'"

end Token

end LoxLang
