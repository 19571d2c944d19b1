import LoxLang.Command.Perform
import Std.Time.DateTime.Timestamp

/-!
# The program

Reads the arguments, the file and the input, and writes what the command gives.
-/

namespace LoxLang.Command

/-- Write what a command gives, `out` before `err`, and take its exit code. -/
def emit (output : Output) : IO UInt32 := do
  let out ← IO.getStdout
  out.putStr output.out
  out.flush
  (← IO.getStderr).putStr output.err
  return output.code.toUInt32

/-- Why a system call on a file failed. -/
def faultOf : IO.Error → FileFault
  | .noFileOrDirectory .. => .missing
  | .inappropriateType _ code _ =>
    if code = 21 then .isDirectory else .notDirectory
  | e => .other e.toString

def readContents (name : String) : IO (Except FileFault ByteArray) := do
  try
    return .ok (← IO.FS.readBinFile name)
  catch e => return .error (faultOf e)

def createLog : IO (Except FileFault Unit) := do
  try
    IO.FS.writeFile logFile ""
    return .ok ()
  catch e => return .error (faultOf e)

/-- A line of `input`; `none` if it is not text. -/
def readLine (input : IO.FS.Stream) : IO (Option String) := do
  try
    return some (← input.getLine)
  catch _ => return none

/-- Run lines of `input` as they come, each by `promptLine`; an empty line is the end. -/
partial def promptLoop (input : IO.FS.Stream) (s : Session) : IO UInt32 := do
  discard (emit ⟨0, promptMark, ""⟩)
  match ← readLine input with
  | none => emit promptFailure
  | some line =>
    if line.isEmpty then emit ⟨0, "\n", ""⟩
    else
      let (output, s) := promptLine ampleSteps s line
      discard (emit output)
      promptLoop input s

/-- Perform the command `i` on the files of the system. -/
def invokeOnSystem (i : Invocation) : IO UInt32 := do
  let readings := Clock.ticking (Float.ofInt (← Std.Time.Timestamp.now).toSecondsSinceUnixEpoch.val)
  if i.verb.takesFile then emit (fileCommand readings ampleSteps i (← readContents i.file))
  else promptLoop (← IO.getStdin) (.start readings .unlimited)

def performOnSystem (arguments : List String) : IO UInt32 := do
  match Request.ofArguments arguments with
  | .perform i =>
    if i.log then
      match ← createLog with
      | .ok _ => invokeOnSystem i
      | .error fault => emit (logFailure fault)
    else invokeOnSystem i
  | .help => emit helpOutput
  | .version => emit versionOutput
  | .misuse => emit misuseOutput

end LoxLang.Command

def main (arguments : List String) : IO UInt32 := LoxLang.Command.performOnSystem arguments
