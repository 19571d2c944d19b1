import LoxLang.Diagnostic
import LoxLang.Source.Segment

/-!
# Items: tokens and lexical errors

A token segment yields a token, a stray character or an unclosed string yields an error, blanks and
comments yield nothing; one end-of-input token closes the list.  The line of an item is the line its
segment ends on.
-/

namespace LoxLang.Source

inductive Item where
  | token (t : Token)
  | error (e : LexicalError)

namespace Item

def token? : Item → Option Token
  | token t => some t
  | error _ => none

def error? : Item → Option LexicalError
  | token _ => none
  | error e => some e

end Item

/-- How many lines end in `text`. -/
def lineEnds (text : List Char) : Nat := text.count '\n'

/-- The number that a run of decimal digits stands for. -/
def digitsValue (digits : List Char) : Nat :=
  digits.foldl (fun n c => 10 * n + (c.toNat - '0'.toNat)) 0

/-- The double nearest to `text`, which is digits with an optional fraction. -/
def numberValue (text : List Char) : Float :=
  let fraction := (text.dropWhile isDigit).drop 1
  Decimal.nearest false (digitsValue (text.takeWhile isDigit ++ fraction))
    (-(fraction.length : Int))

/-- The literal that a token of `kind` denotes: a number, or a string without its quotes. -/
def literal? (kind : Kind) (text : List Char) : Option Literal :=
  match kind with
  | .number => some (.number (numberValue text))
  | .string => some (.string (String.ofList (text.drop 1).dropLast))
  | _ => none

/-- What a segment yields when it ends on `line`. -/
def Segment.item? (s : Segment) (line : Nat) : Option Item :=
  match s.shape with
  | .blank | .comment => none
  | .token kind => some (.token ⟨kind, String.ofList s.text, literal? kind s.text, line⟩)
  | .stray => some (.error ⟨.unexpected (s.text.headD ' '), line⟩)
  | .unclosed => some (.error ⟨.unterminatedString, line⟩)

/-- The items of segments that start on `line`, closed by the end of input.  All line ends of a
segment are behind it before its item is made. -/
def itemsFrom : Nat → List Segment → List Item
  | line, [] => [.token (Token.endOfInput line)]
  | line, s :: rest =>
    let line := line + lineEnds s.text
    match s.item? line with
    | some item => item :: itemsFrom line rest
    | none => itemsFrom line rest

/-- The items of a source, in order; lines are counted from one. -/
def items (source : String) : List Item := itemsFrom 1 (segments source.toList)

/-- The tokens of a source; lexical errors are left out. -/
def tokens (source : String) : List Token := (items source).filterMap Item.token?

/-- The lexical errors of a source, among which the tokens are left out. -/
def errors (source : String) : List LexicalError := (items source).filterMap Item.error?

end LoxLang.Source
