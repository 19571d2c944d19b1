import LoxLang.Token.Basic

/-!
# Diagnostics

What can be wrong with a source before it runs.  Each kind of error is a cause with the place it was
found; the wording is one function per kind.  `Diagnostic` joins the three kinds.
-/

namespace LoxLang

/-! ## Causes -/

/-- Text that is no token. -/
inductive LexicalFault where
  | unexpected (c : Char)
  | unterminatedString
  deriving Repr, DecidableEq

structure LexicalError where
  fault : LexicalFault
  line : Nat
  deriving Repr, DecidableEq

/-- What a token list lacks, or has too much of. -/
inductive GrammarFault where
  | noFunctionName | noFunctionParen | noParameterName | noParametersEnd | noFunctionBody
  | noVariableName | noVariableEnd
  | noForParen | noForConditionEnd | noForClausesEnd
  | noIfParen | noIfEnd | noWhileParen | noWhileEnd
  | noPrintEnd | noReturnEnd | noExpressionEnd | noBlockEnd
  | noArgumentsEnd | noGroupEnd | noExpression | noEndOfExpression
  | assignmentTarget | tooManyParameters | tooManyArguments
  deriving Repr, DecidableEq

/-- A grammar error at a token, `position` tokens into the input. -/
structure GrammarError where
  fault : GrammarFault
  token : Token
  position : Nat

/-- A misuse of names or of `return`. -/
inductive BindingFault where
  | redeclared
  | ownInitializer
  | returnOutsideFunction
  deriving Repr, DecidableEq

structure BindingError where
  fault : BindingFault
  token : Token

/-! ## Wording -/

def LexicalFault.message : LexicalFault → String
  | unexpected c => "Unexpected character: " ++ c.toString
  | unterminatedString => "Unterminated string."

namespace GrammarFault

def message : GrammarFault → String
  | noFunctionName => "Expect function name."
  | noFunctionParen => "Expect '(' after function name."
  | noParameterName => "Expect parameter name."
  | noParametersEnd => "Expect ')' after parameters."
  | noFunctionBody => "Expect '\x7b' before function body."
  | noVariableName => "Expect variable name."
  | noVariableEnd => "Expect ';' after variable declaration."
  | noForParen => "Expect '(' after 'for'."
  | noForConditionEnd => "Expect ';' after loop condition."
  | noForClausesEnd => "Expect ')' after for clauses."
  | noIfParen => "Expect '(' after 'if'."
  | noIfEnd => "Expect ')' after if condition."
  | noWhileParen => "Expect '(' after 'while'."
  | noWhileEnd => "Expect ')' after condition."
  | noPrintEnd => "Expect ';' after value."
  | noReturnEnd => "Expect ';' after return value."
  | noExpressionEnd => "Expect ';' after expression."
  | noBlockEnd => "Expect '\x7d' after block."
  | noArgumentsEnd => "Expect ')' after arguments."
  | noGroupEnd => "Expect ')' after expression."
  | noExpression => "Expect expression."
  | noEndOfExpression => "Expect end of expression."
  | assignmentTarget => "Invalid assignment target."
  | tooManyParameters => "Can't have more than 255 parameters."
  | tooManyArguments => "Can't have more than 255 arguments."

/-- Whether the error is only noted, and reading goes on where it was found.  Any other error
abandons the statement being read. -/
def noted : GrammarFault → Bool
  | assignmentTarget | tooManyParameters | tooManyArguments => true
  | _ => false

end GrammarFault

def BindingFault.message : BindingFault → String
  | redeclared => "Already a variable with this name in this scope."
  | ownInitializer => "Can't read local variable in its own initializer."
  | returnOutsideFunction => "Can't return from top-level code."

/-! ## Reports -/

/-- An error found before a source runs. -/
inductive Diagnostic where
  | lexical (e : LexicalError)
  | grammar (e : GrammarError)
  | binding (e : BindingError)

namespace Diagnostic

def message : Diagnostic → String
  | lexical e => e.fault.message
  | grammar e => e.fault.message
  | binding e => e.fault.message

def line : Diagnostic → Nat
  | lexical e => e.line
  | grammar e => e.token.line
  | binding e => e.token.line

/-- The place named in the report; a `lexical` error names none. -/
def location : Diagnostic → String
  | lexical _ => ""
  | grammar e => e.token.location
  | binding e => e.token.location

/-- One line of a report: the line, the place and the message. -/
def text (d : Diagnostic) : String :=
  "[line " ++ d.line.repr ++ "] Error" ++ d.location ++ ": " ++ d.message

end Diagnostic

/-- A report: one diagnostic a line. -/
def reportText (ds : List Diagnostic) : String := "\n".intercalate (ds.map Diagnostic.text)

end LoxLang
