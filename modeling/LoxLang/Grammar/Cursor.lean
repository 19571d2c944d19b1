import LoxLang.Diagnostic
import LoxLang.Tree.Basic

/-!
# Reading a token list

A `Cursor` is a place in a token list.  A `Reader` reads something there: it succeeds and moves on,
fails with a grammar error, or runs out of the steps it was given.  Errors that do not stop the
reading are noted in the cursor.
-/

namespace LoxLang.Grammar

/-- A place in a token list, and what has been gathered on the way to it. -/
structure Cursor where
  /-- The tokens still to be read, without the end of input. -/
  rest : List Token
  /-- The token that ends the input. -/
  last : Token
  /-- How many tokens have been read. -/
  position : Nat
  /-- The next free node id. -/
  nextId : NodeId
  /-- The errors found so far. -/
  errors : Array GrammarError

namespace Cursor

/-- The token at the cursor, which is `last` once all others are read. -/
def peek (c : Cursor) : Token := c.rest.headD c.last

/-- Whether a token of this `kind` is next; the end of input counts as no token. -/
def sees (c : Cursor) (kind : Kind) : Bool := c.rest.head?.any (·.kind = kind)

def atEnd (c : Cursor) : Bool := c.rest.isEmpty

/-- Step over a token; the end of input is never passed. -/
def advance (c : Cursor) : Cursor :=
  match c.rest with
  | [] => c
  | _ :: rest => { c with rest := rest, position := c.position + 1 }

/-- The error `fault`, found at the token `peek`. -/
def errorHere (c : Cursor) (fault : GrammarFault) : GrammarError := ⟨fault, c.peek, c.position⟩

def record (c : Cursor) (e : GrammarError) : Cursor := { c with errors := c.errors.push e }

/-- The kinds at which reading goes on after a broken statement. -/
def startsStatement : Kind → Bool
  | .classWord | .funWord | .varWord | .forWord | .ifWord | .whileWord | .printWord | .returnWord =>
    true
  | _ => false

/-- How many tokens to step over after `previous` to get behind the next semicolon or in front of
the next token that `startsStatement`. -/
def skipCount (previous : Token) : List Token → Nat
  | [] => 0
  | t :: rest =>
    -- A semicolon counts when it lies behind, a word that starts a statement while it lies ahead.
    if previous.kind = .semicolon || startsStatement t.kind then 0 else skipCount t rest + 1

/-- Go on after an error: step over the token at the cursor, whatever it is, then up to where a
statement may start. -/
def synchronize (c : Cursor) : Cursor :=
  match c.rest with
  | [] => c
  | t :: rest =>
    let skipped := skipCount t rest
    { c with rest := rest.drop skipped, position := c.position + 1 + skipped }

/-- The start of a token list.  Input ends at the first token of kind `eof`; if there is none, one
is supplied on the line of the last token. -/
def start (tokens : List Token) (nextId : NodeId) : Cursor where
  rest := tokens.takeWhile (·.kind ≠ .eof)
  last :=
    (tokens.find? (·.kind = .eof)).getD (.endOfInput ((tokens.getLast?.map Token.line).getD 1))
  position := 0
  nextId := nextId
  errors := #[]

end Cursor

/-- What a reader comes to.  Both `ok` and `fail` say where the reader has got to. -/
inductive Reply (α : Type) where
  | ok (value : α) (next : Cursor)
  | fail (error : GrammarError) (next : Cursor)
  /-- The steps given did not suffice. -/
  | exhausted

/-- Reads an `α` at a cursor. -/
def Reader (α : Type) := Cursor → Reply α

namespace Reader

@[inline] protected def pure {α : Type} (value : α) : Reader α := fun c => .ok value c

@[inline] protected def bind {α β : Type} (first : Reader α) (next : α → Reader β) :
    Reader β := fun c =>
  match first c with
  | .ok value c => next value c
  | .fail error c => .fail error c
  | .exhausted => .exhausted

instance : Monad Reader where
  pure := Reader.pure
  bind := Reader.bind

/-- The reader without steps. -/
def exhausted {α : Type} : Reader α := fun _ => .exhausted

/-- Fail with `fault` at the cursor. -/
def fail {α : Type} (fault : GrammarFault) : Reader α := fun c => .fail (c.errorHere fault) c

/-- Note `fault` at the cursor and go on. -/
def note (fault : GrammarFault) : Reader Unit := fun c => .ok () (c.record (c.errorHere fault))

/-- Note `fault` at the earlier cursor `found` and go on from here. -/
def noteAt (found : Cursor) (fault : GrammarFault) : Reader Unit :=
  fun c => .ok () (c.record (found.errorHere fault))

def here : Reader Cursor := fun c => .ok c c

def sees (kind : Kind) : Reader Bool := fun c => .ok (c.sees kind) c

def atEnd : Reader Bool := fun c => .ok c.atEnd c

/-- Read the next token if `kinds` holds of its kind, and otherwise nothing. -/
def acceptIf (kinds : Kind → Bool) : Reader (Option Token) := fun c =>
  match c.rest with
  | [] => .ok none c
  | t :: _ => if kinds t.kind then .ok (some t) c.advance else .ok none c

/-- Read the next token if it has this `kind`, and otherwise nothing. -/
def accept (kind : Kind) : Reader (Option Token) := acceptIf (· = kind)

/-- Read a token of this `kind`, or fail with `fault` in front of what is there instead. -/
def expect (kind : Kind) (fault : GrammarFault) : Reader Token := fun c =>
  match c.rest with
  | [] => .fail (c.errorHere fault) c
  | t :: _ => if t.kind = kind then .ok t c.advance else .fail (c.errorHere fault) c

/-- A node id that no other node of the input has. -/
def freshId : Reader NodeId := fun c => .ok c.nextId { c with nextId := c.nextId + 1 }

/-- Read nothing if a token of this `kind` is next, and by `r` otherwise. -/
def unlessSees {α : Type} (kind : Kind) (r : Reader α) : Reader (Option α) := do
  if ← sees kind then pure none else some <$> r

/-- Read a list whose items are set apart by commas, in at most `steps` steps, the first item being
number `count`.  From item number 255 on (counted from zero) each item is noted as one `tooMany`. -/
def commaSeparated {α : Type} (tooMany : GrammarFault) (item : Reader α) :
    Nat → Nat → Reader (List α)
  | 0, _ => exhausted
  | steps + 1, count => do
    if 255 ≤ count then note tooMany
    let value ← item
    match ← accept .comma with
    | some _ => return value :: (← commaSeparated tooMany item steps (count + 1))
    | none => return [value]

/-- Read a list in parentheses of which the opening one has been read, up to but not with the
closing one. -/
def listed {α : Type} (tooMany : GrammarFault) (item : Reader α) (steps : Nat) :
    Reader (List α) := do
  return (← unlessSees .rightParen (commaSeparated tooMany item steps 0)).getD []

end Reader

end LoxLang.Grammar
