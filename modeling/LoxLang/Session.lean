import LoxLang.Files
import LoxLang.Grammar.Program
import LoxLang.Machine.Run
import LoxLang.Scope.Resolve
import LoxLang.Source.Item

/-!
# Sessions

A session runs one source after another.  Globals, functions and the depth table live on from source
to source, and node ids are never used twice.  A source with an error in it is rejected as a whole:
nothing of it runs.
-/

namespace LoxLang

structure Session where
  machine : Machine
  /-- The next free node id. -/
  nextId : NodeId

/-- Why a program that was started did not complete. -/
inductive Failure where
  | runtime (e : RuntimeError)
  | sink (fault : SinkFault)

/-- How the run of a source ended. -/
inductive Outcome where
  | completed
  /-- Nothing was run; every error is listed. -/
  | rejected (diagnostics : List Diagnostic)
  | failed (failure : Failure)
  /-- The steps given did not suffice. -/
  | exhausted

namespace Failure

def text : Failure → String
  | runtime e => e.text
  | sink fault => fault.message

/-- The failure that a `Stop` amounts to; a `return` is none. -/
def ofStop? : Stop → Option Failure
  | .error e => some (.runtime e)
  | .sink fault => some (.sink fault)
  | .returned _ => none

end Failure

namespace Outcome

def succeeded : Outcome → Bool
  | completed => true
  | _ => false

/-- The exit code of a program that ran a source. -/
def exitCode : Outcome → Nat
  | completed => 0
  | rejected _ => 65
  | failed (.runtime _) => 70
  | failed (.sink _) => 74
  | exhausted => 70

end Outcome

/-- How the evaluation of a source as an expression ended; the `tree` is kept where there is one. -/
inductive Evaluation where
  | value (tree : Expr) (value : Value)
  | rejected (diagnostics : List Diagnostic)
  | failed (tree : Expr) (failure : Failure)
  | exhausted (tree : Expr)

/-- A program read from a source, with all its lexical and grammar errors as `diagnostics`. -/
structure Program where
  statements : List Stmt
  diagnostics : List Diagnostic
  nextId : NodeId

/-- Read a program, numbering its nodes from `nextId` on.  Lexical errors come before grammar
errors, and the tokens around them are parsed all the same. -/
def Program.read (source : String) (nextId : NodeId) : Program :=
  let parsed := Grammar.parseProgram (Source.tokens source) nextId
  { statements := parsed.statements
    diagnostics := (Source.errors source).map .lexical ++ parsed.errors.map .grammar
    nextId := parsed.nextId }

namespace Session

/-- A new session, which has read nothing yet. -/
def start (readings : Nat → Float) (sink : Sink) : Session := ⟨.start readings sink, 0⟩

/-- Enter findings into the depth table of the machine. -/
def note (s : Session) (found : List Finding) : Session :=
  { s with machine := { s.machine with depths := s.machine.depths.noteAll found } }

/-- Execute a program that was found to be in order.  If the steps do not suffice, the session is
left as it was. -/
def execute (s : Session) (lookup : Lookup) (steps : Nat) (statements : List Stmt) :
    Outcome × Session :=
  match runProgram lookup steps statements s.machine with
  | .ok _ m => (.completed, { s with machine := m })
  | .stop reason m =>
    (((Failure.ofStop? reason).map Outcome.failed).getD .completed, { s with machine := m })
  | .exhausted => (.exhausted, s)

/-- Run a source with variables found by `lookup`, in at most `steps` steps.  The depths of a source
with a binding error are entered too, but nothing of it is executed. -/
def runBy (s : Session) (lookup : Lookup) (steps : Nat) (source : String) : Outcome × Session :=
  let program := Program.read source s.nextId
  -- Node ids are used up even by a source that is rejected.
  let s := { s with nextId := program.nextId }
  if program.diagnostics.isEmpty then
    let found := programFindings program.statements
    let s := s.note found
    let misuses := bindingErrors found
    if misuses.isEmpty then s.execute lookup steps program.statements
    else (.rejected (misuses.map .binding), s)
  else (.rejected program.diagnostics, s)

/-- Run a source as programs are run: its variables are found `byDepth`. -/
def run (s : Session) (steps : Nat) (source : String) : Outcome × Session :=
  s.runBy .byDepth steps source

/-- Evaluate `tree` as it stands, in at most `steps` steps. -/
def evaluateTree (s : Session) (steps : Nat) (tree : Expr) : Evaluation × Session :=
  match evaluateAlone .byDepth steps tree s.machine with
  | .ok value m => (.value tree value, { s with machine := m })
  | .stop reason m =>
    match Failure.ofStop? reason with
    | some failure => (.failed tree failure, { s with machine := m })
    | none => (.value tree .nil, { s with machine := m })
  | .exhausted => (.exhausted tree, s)

/-- Evaluate a source as one expression.  Its variables are not resolved, so that `byDepth` takes
all of them for global. -/
def evaluate (s : Session) (steps : Nat) (source : String) : Evaluation × Session :=
  let errors := Source.errors source
  if errors.isEmpty then
    let parsed := Grammar.parseExpression (Source.tokens source) s.nextId
    let s := { s with nextId := parsed.nextId }
    match parsed.result with
    | .ok tree => s.evaluateTree steps tree
    | .error errors => (.rejected (errors.map .grammar), s)
  else (.rejected (errors.map .lexical), s)

/-- Run the `contents` of a file, which have to be text. -/
def runFile (s : Session) (steps : Nat) (contents : Except FileFault ByteArray) :
    Except FileFault Outcome × Session :=
  match contents.bind sourceText with
  | .ok source =>
    let (outcome, s) := s.run steps source
    (.ok outcome, s)
  | .error fault => (.error fault, s)

end Session

end LoxLang
