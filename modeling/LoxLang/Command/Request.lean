/-!
# Command line arguments

The arguments name a command with its file and flags, or ask for help or for the version.  They are
read from left to right, and the first thing wrong, or the first question, decides.  A flag may be
given once before the command and once after it.  After `--` an argument is never a flag.
-/

namespace LoxLang.Command

/-- The commands, `repl` being the prompt. -/
inductive Verb where
  | tokenize
  | parse
  | evaluate
  | run
  | repl
  deriving Repr, DecidableEq

namespace Verb

def ofName? : String → Option Verb
  | "tokenize" => some tokenize
  | "parse" => some parse
  | "evaluate" => some evaluate
  | "run" => some run
  | "repl" => some repl
  | _ => none

/-- Whether a command works on a file; all but `repl` do. -/
def takesFile : Verb → Bool
  | repl => false
  | _ => true

end Verb

/-- A command as given. -/
structure Invocation where
  verb : Verb
  /-- The file to work on; there is none for the prompt. -/
  file : String
  /-- Whether tokens are shown as JSON. -/
  json : Bool
  /-- Whether to keep a log. -/
  log : Bool

/-- What the arguments ask for. -/
inductive Request where
  | perform (invocation : Invocation)
  | help
  | version
  | misuse

/-- The letter of a flag that begins with one dash; further letters do not count. -/
def shortFlag? (argument : String) : Option Char :=
  match argument.toList with
  | '-' :: letter :: _ => if letter = '-' then none else some letter
  | _ => none

/-! ## After the command -/

/-- What has been given after the command. -/
structure Given where
  file : Option String
  json : Bool
  log : Bool

/-- Put together the command `verb` and what was given for it.  A log may be asked for on either
side. -/
def Given.request (g : Given) (verb : Verb) (log : Bool) : Request :=
  match verb.takesFile, g.file with
  | true, none => .misuse
  | _, file => .perform ⟨verb, file.getD "", g.json, log || g.log⟩

/-- Take `name` for the file; one file at most, and never an empty name. -/
def Given.takeFile? (g : Given) (verb : Verb) (name : String) : Option Given :=
  if verb.takesFile && g.file.isNone && !name.isEmpty then some { g with file := some name }
  else none

/-- Read the arguments after `--`, which are names and no flags. -/
def readNames (verb : Verb) (log : Bool) : Given → List String → Request
  | g, [] => g.request verb log
  | g, argument :: rest =>
    match g.takeFile? verb argument with
    | some g => readNames verb log g rest
    | none => .misuse

/-- Read the arguments after the command `verb`, `log` telling what stood before it. -/
def readOptions (verb : Verb) (log : Bool) : Given → List String → Request
  | g, [] => g.request verb log
  | g, argument :: rest =>
    if argument = "--" then readNames verb log g rest
    else if argument = "--help" || shortFlag? argument = some 'h' then .help
    else if argument = "--log" then
      if g.log then .misuse else readOptions verb log { g with log := true } rest
    else if argument = "--json" && verb = .tokenize then
      if g.json then .misuse else readOptions verb log { g with json := true } rest
    else if argument.startsWith "--" || (shortFlag? argument).isSome then .misuse
    else
      match g.takeFile? verb argument with
      | some g => readOptions verb log g rest
      | none => .misuse

/-! ## Before the command -/

/-- Read what follows `help`: at most one command. -/
def readHelp : List String → Request
  | [] => .help
  | [topic] => if topic = "help" || (Verb.ofName? topic).isSome then .help else .misuse
  | _ => .misuse

/-- Read arguments up to the command.  Without a command it is `repl`. -/
def readArguments (log : Bool) : List String → Request
  | [] => .perform ⟨.repl, "", false, log⟩
  | argument :: rest =>
    match Verb.ofName? argument with
    | some verb => readOptions verb log ⟨none, false, false⟩ rest
    | none =>
      if argument = "help" then readHelp rest
      else if argument = "--" then
        if rest.isEmpty then .perform ⟨.repl, "", false, log⟩ else .misuse
      else if argument = "--help" || shortFlag? argument = some 'h' then .help
      else if argument = "--version" || shortFlag? argument = some 'V' then .version
      else if argument = "--log" then if log then .misuse else readArguments true rest
      else .misuse

/-- What the arguments ask for, no log being asked for to begin with. -/
def Request.ofArguments (arguments : List String) : Request := readArguments false arguments

end LoxLang.Command
