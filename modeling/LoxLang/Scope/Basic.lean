import LoxLang.Diagnostic
import LoxLang.Scope.Depths

/-!
# Open scopes

The local scopes that are open at a place of a program, the innermost first.  A scope knows the
names declared in it so far, and whether each is ready to be read: a variable is not while its
initializer is being looked at.  Global names are in no scope.
-/

namespace LoxLang

/-- The names declared in a scope, the latest entry first, each with whether it is ready to be
read. -/
abbrev Scope := List (String × Bool)

abbrev Scopes := List Scope

/-- Something noticed about a program by `Stmt.resolve`. -/
inductive Finding where
  /-- The depth of an occurrence of a local variable. -/
  | depth (id : NodeId) (depth : Nat)
  | fault (e : BindingError)

def Finding.fault? : Finding → Option BindingError
  | .depth _ _ => none
  | .fault e => some e

/-- Enter the depths among the findings into a depth table. -/
def Depths.noteAll (t : Depths) (found : List Finding) : Depths :=
  found.foldl (fun t f => match f with | .depth id depth => t.note id depth | .fault _ => t) t

namespace Scope

/-- Whether a scope declares `name`, ready to be read or not. -/
def declares (scope : Scope) (name : String) : Bool := scope.any (·.1 = name)

/-- Whether the latest entry of `name` in a scope is not ready to be read. -/
def pending (scope : Scope) (name : String) : Bool := scope.lookup name == some false

end Scope

namespace Scopes

/-- Declare `name` in the innermost scope.  A name that the scope has already is a fault and stays
as it was; outside of all scopes nothing is declared. -/
def declare (scopes : Scopes) (name : Token) : Scopes × List Finding :=
  match scopes with
  | [] => ([], [])
  | scope :: outer =>
    if scope.declares name.lexeme then (scopes, [.fault ⟨.redeclared, name⟩])
    else (((name.lexeme, false) :: scope) :: outer, [])

/-- Make `name` in the innermost scope ready to be read. -/
def define (scopes : Scopes) (name : Token) : Scopes :=
  match scopes with
  | [] => []
  | scope :: outer => ((name.lexeme, true) :: scope) :: outer

/-- How many scopes out the nearest declaration of `name` is. -/
def depth? (scopes : Scopes) (name : String) : Option Nat := scopes.findIdx? (·.declares name)

/-- Whether `name` is not ready to be read in the innermost scope; scopes further out are not looked
at. -/
def pending (scopes : Scopes) (name : String) : Bool := scopes.head?.any (·.pending name)

/-- What an occurrence of `name` gives: its depth, if it is local. -/
def locate (scopes : Scopes) (id : NodeId) (name : Token) : List Finding :=
  ((scopes.depth? name.lexeme).map (Finding.depth id)).toList

/-- Declare the parameters of a function, each ready to be read at once. -/
def declareAll : Scopes → List Token → Scopes × List Finding
  | scopes, [] => (scopes, [])
  | scopes, name :: rest =>
    let (declared, found) := scopes.declare name
    let (final, more) := declareAll (declared.define name) rest
    (final, found ++ more)

end Scopes

end LoxLang
