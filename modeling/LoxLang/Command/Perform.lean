import LoxLang.Command.Quoted
import LoxLang.Command.Request
import LoxLang.Files
import LoxLang.Session
import LoxLang.Token.Dump
import LoxLang.Tree.Text

/-!
# Performing commands

What each command writes and its exit code.  `fileCommand` and `promptLine` work on contents that
have been read; `perform` runs the whole command line over a file tree and given input.
-/

namespace LoxLang.Command

/-- What a command writes to both streams, and its exit code. -/
structure Output where
  code : Nat
  out : String
  err : String

/-- Each text on a line of its own. -/
def textLines (texts : List String) : String := String.join (texts.map (· ++ "\n"))

def diagnosticLines (ds : List Diagnostic) : String := textLines (ds.map Diagnostic.text)

/-- The output for input that is rejected: its diagnostics as errors, and code 65. -/
def rejection (ds : List Diagnostic) : Output := ⟨65, "", diagnosticLines ds⟩

/-! ## Commands on a source -/

/-- List the tokens of `source`, and its lexical errors beside them. -/
def tokenize (json : Bool) (source : String) : Output :=
  let tokens := Source.tokens source
  let errors := Source.errors source
  { code := if errors.isEmpty then 0 else 65
    out :=
      if json then textLines [(tokensToJson tokens).pretty] else textLines (tokens.map Token.text)
    err := diagnosticLines (errors.map .lexical) }

/-- Show the trees of a program, or its errors. -/
def parse (source : String) : Output :=
  let program := Program.read source 0
  if program.diagnostics.isEmpty then ⟨0, textLines (program.statements.map Stmt.text), ""⟩
  else rejection program.diagnostics

/-- Evaluate `source` as an expression in a new session, and show what was printed and the value. -/
def evaluate (readings : Nat → Float) (steps : Nat) (source : String) : Output :=
  let (evaluation, after) := (Session.start readings .unlimited).evaluate steps source
  let printed := after.machine.sink.textFrom 0
  match evaluation with
  | .value _ value => ⟨0, printed ++ value.text ++ "\n", ""⟩
  | .rejected ds => rejection ds
  | .failed _ failure => ⟨70, printed, failure.text ++ "\n"⟩
  | .exhausted _ => ⟨70, printed, ""⟩

/-- What is told of an outcome. -/
def outcomeReport : Outcome → String
  | .completed | .exhausted => ""
  | .rejected ds => reportText ds ++ "\n"
  | .failed failure => failure.text ++ "\n"

/-- Run `source` as a program in a new session. -/
def run (readings : Nat → Float) (steps : Nat) (source : String) : Output :=
  let (outcome, after) := (Session.start readings .unlimited).run steps source
  ⟨outcome.exitCode, after.machine.sink.textFrom 0, outcomeReport outcome⟩

/-- The command `i` on the `contents` of its file. -/
def fileCommand (readings : Nat → Float) (steps : Nat) (i : Invocation)
    (contents : Except FileFault ByteArray) : Output :=
  match contents.bind sourceText with
  | .error fault =>
    ⟨74, "", "Error: Failed to read file " ++ quoteName i.file ++ ": " ++ fault.message ++ "\n"⟩
  | .ok source =>
    match i.verb with
    | .tokenize => tokenize i.json source
    | .parse => parse source
    | .evaluate => evaluate readings steps source
    | .run | .repl => run readings steps source

/-! ## The prompt -/

/-- What is shown before each line of input. -/
def promptMark : String := "> "

/-- Run `line` in the session `s`: what it writes, and the session after it. -/
def promptLine (steps : Nat) (s : Session) (line : String) : Output × Session :=
  let (outcome, after) := s.run steps line
  (⟨0, after.machine.sink.textFrom s.machine.sink.written.size, outcomeReport outcome⟩, after)

/-- What ends a prompt whose input is not text. -/
def promptFailure : Output := ⟨74, "", "Error: " ++ FileFault.notText.message ++ "\n"⟩

/-- Cut input into lines, each with its line end. -/
def inputLines : List UInt8 → List (List UInt8)
  | [] => []
  | byte :: rest =>
    if byte = 10 then [byte] :: inputLines rest
    else
      match inputLines rest with
      | [] => [[byte]]
      | line :: lines => (byte :: line) :: lines

/-- Run lines of input one after another, each in the session that the one before has left. -/
def promptLines (steps : Nat) : Session → List (List UInt8) → Output
  | _, [] => ⟨0, promptMark ++ "\n", ""⟩
  | s, line :: rest =>
    match sourceText ⟨line.toArray⟩ with
    | .error _ => { promptFailure with out := promptMark }
    | .ok text =>
      let (here, s) := promptLine steps s text
      let later := promptLines steps s rest
      ⟨later.code, promptMark ++ here.out ++ later.out, here.err ++ later.err⟩

/-! ## The whole command line -/

/-- The file that a log is kept in. -/
def logFile : String := "loxwalk.log"

def versionText : String := "loxwalk 0.1.0\n"

/-- How the commands are used. -/
def usageText : String :=
  textLines
    ["Usage: loxwalk [--log] [COMMAND]",
      "",
      "Commands:",
      "  tokenize [--json] FILE  list the tokens of a file",
      "  parse FILE              show the trees of a program",
      "  evaluate FILE           evaluate a file as one expression",
      "  run FILE                run a program",
      "  repl                    run lines of input (the default)",
      "",
      "Options:",
      "  --log          keep a log in " ++ logFile,
      "  -h, --help     show this text",
      "  -V, --version  show the version"]

def helpOutput : Output := ⟨0, usageText, ""⟩

def versionOutput : Output := ⟨0, versionText, ""⟩

def misuseOutput : Output := ⟨64, "", usageText⟩

/-- What is said when the log cannot be kept. -/
def logFailure (fault : FileFault) : Output :=
  ⟨1, "", "Error: Failed to create " ++ logFile ++ "\n\nCaused by:\n    " ++ fault.message ++ "\n"⟩

/-- Perform the command `i` over a file tree and the given `input`. -/
def invoke (readings : Nat → Float) (steps : Nat) (i : Invocation) (files : FileTree)
    (input : List UInt8) : Output :=
  if i.verb.takesFile then fileCommand readings steps i (files.read i.file)
  else promptLines steps (.start readings .unlimited) (inputLines input)

/-- Run the command line: what it writes, and the files after it.  The log is made before the
command, so that a log that cannot be made is all that happens. -/
def perform (readings : Nat → Float) (steps : Nat) (arguments : List String) (files : FileTree)
    (input : List UInt8) : Output × FileTree :=
  match Request.ofArguments arguments with
  | .perform i =>
    if i.log then
      match files.create logFile with
      | .ok files => (invoke readings steps i files input, files)
      | .error fault => (logFailure fault, files)
    else (invoke readings steps i files input, files)
  | .help => (helpOutput, files)
  | .version => (versionOutput, files)
  | .misuse => (misuseOutput, files)

end LoxLang.Command
