import LoxLang.Json.Basic
import LoxLang.Token.Basic

/-!
# Tokens as JSON

A token is an object with its kind, lexeme, literal and line, in this order; the literal is left out
when there is none.  A number without a finite value is dumped as null.
-/

namespace LoxLang

def Literal.toJson : Literal → Json
  | .number x => if x.isFinite then .number x else .null
  | .string s => .string s

def Token.toJson (t : Token) : Json :=
  .object ([("type", .string t.kind.name), ("lexeme", .string t.lexeme)]
    ++ (t.literal.map fun l => ("literal", l.toJson)).toList ++ [("line", .whole t.line)])

/-- A token list as one `Json.array`. -/
def tokensToJson (ts : List Token) : Json := .array (ts.map Token.toJson)

end LoxLang
