import LoxLang.Json.Basic
import LoxLang.Source.Item

/-!
# Reading JSON

A reader for JSON texts in any layout: blanks between values and marks, every escape in strings,
numbers with sign, fraction and exponent.  A number of digits alone is read as a whole number and
any other as the nearest double.  Fields are kept in order.

A value within another starts at least one character further on, so as many steps as a text has
characters are enough for all of it.
-/

namespace LoxLang.Json

open Source (isDigit digitsValue)

/-- Reads something off the start of a text, and gives what is left of it. -/
abbrev Reader (α : Type) := List Char → Option (α × List Char)

def isBlank (c : Char) : Bool := c = ' ' || c = '\t' || c = '\n' || c = '\r'

def skipBlanks (cs : List Char) : List Char := cs.dropWhile isBlank

namespace Reader

/-! ## Strings -/

/-- The value of a hexadecimal digit, in either case. -/
def hexValue? (c : Char) : Option Nat :=
  if isDigit c then some (c.toNat - '0'.toNat)
  else if 'a' ≤ c && c ≤ 'f' then some (10 + (c.toNat - 'a'.toNat))
  else if 'A' ≤ c && c ≤ 'F' then some (10 + (c.toNat - 'A'.toNat))
  else none

/-- A number of four hexadecimal digits. -/
def hexNumber : Reader Nat
  | a :: b :: c :: d :: cs => do
    let a ← hexValue? a
    let b ← hexValue? b
    let c ← hexValue? c
    let d ← hexValue? d
    return (((a * 16 + b) * 16 + c) * 16 + d, cs)
  | _ => none

/-- The character of an escape by number, after its letter.  A character beyond the first 2^16 takes
two such escapes, of which neither can stand alone. -/
def numberedEscape : Reader Char := fun cs => do
  let (high, cs) ← hexNumber cs
  if high < 0xd800 || 0xe000 ≤ high then return (Char.ofNat high, cs)
  else if high < 0xdc00 then
    match cs with
    | '\\' :: 'u' :: cs =>
      let (low, cs) ← hexNumber cs
      if 0xdc00 ≤ low && low < 0xe000 then
        return (Char.ofNat (0x10000 + (high - 0xd800) * 0x400 + (low - 0xdc00)), cs)
      else none
    | _ => none
  else none

/-- The character of an escape by letter. -/
def letterEscape? : Char → Option Char
  | '"' => some '"'
  | '\\' => some '\\'
  | '/' => some '/'
  | 'b' => some '\x08'
  | 'f' => some '\x0c'
  | 'n' => some '\n'
  | 'r' => some '\r'
  | 't' => some '\t'
  | _ => none

/-- A character within a string: an escape, or any character but quotes, backslashes and control
characters. -/
def character : Reader Char
  | '\\' :: 'u' :: cs => numberedEscape cs
  | '\\' :: letter :: cs => (letterEscape? letter).map fun c => (c, cs)
  | c :: cs => if c = '"' || c = '\\' || c.toNat < 0x20 then none else some (c, cs)
  | [] => none

/-- The characters of a string up to the quote that closes it. -/
def characters : Nat → Reader (List Char)
  | 0, _ => none
  | _ + 1, '"' :: cs => some ([], cs)
  | steps + 1, cs => do
    let (c, cs) ← character cs
    let (rest, cs) ← characters steps cs
    return (c :: rest, cs)

/-- A string after its opening quote, in as many steps as there are characters left. -/
def quoted : Reader String := fun cs => do
  let (text, cs) ← characters cs.length cs
  return (String.ofList text, cs)

/-! ## Numbers -/

/-- A run of digits, at least one. -/
def digits : Reader (List Char) := fun cs =>
  let run := cs.takeWhile isDigit
  if run.isEmpty then none else some (run, cs.dropWhile isDigit)

/-- The digits before the point; a zero stands alone. -/
def wholePart : Reader (List Char) := fun cs => do
  let (run, cs) ← digits cs
  if run.head? = some '0' && 1 < run.length then none else return (run, cs)

/-- The digits after a point, if there is one. -/
def fractionPart : Reader (List Char)
  | '.' :: cs => digits cs
  | cs => some ([], cs)

/-- An exponent after its letter, with or without a sign. -/
def exponent : Reader Int
  | '-' :: cs => (digits cs).map fun (run, cs) => (-(digitsValue run : Int), cs)
  | '+' :: cs => (digits cs).map fun (run, cs) => (digitsValue run, cs)
  | cs => (digits cs).map fun (run, cs) => (digitsValue run, cs)

/-- An exponent, if there is one. -/
def exponentPart : Reader (Option Int)
  | c :: cs =>
    if c = 'e' || c = 'E' then (exponent cs).map fun (e, cs) => (some e, cs)
    else some (none, c :: cs)
  | [] => some (none, [])

/-- A number after its sign: `whole` if it has digits alone and no minus sign. -/
def unsigned (negative : Bool) : Reader Json := fun cs => do
  let (before, cs) ← wholePart cs
  let (after, cs) ← fractionPart cs
  let (e, cs) ← exponentPart cs
  if !negative && after.isEmpty && e.isNone then return (.whole (digitsValue before), cs)
  else
    return (.number
      (Decimal.nearest negative (digitsValue (before ++ after)) (e.getD 0 - after.length)), cs)

def number : Reader Json
  | '-' :: cs => unsigned true cs
  | cs => unsigned false cs

/-! ## Values -/

/-- Items with commas between them, up to the mark `closing`. -/
def items {α : Type} (closing : Char) (item : Reader α) : Nat → Reader (List α)
  | 0, _ => none
  | steps + 1, cs => do
    let (x, cs) ← item cs
    match skipBlanks cs with
    | mark :: cs =>
      if mark = closing then return ([x], cs)
      else if mark = ',' then
        let (xs, cs) ← items closing item steps cs
        return (x :: xs, cs)
      else none
    | [] => none

/-- Any number of items, up to the mark `closing`. -/
def enclosed {α : Type} (closing : Char) (item : Reader α) (steps : Nat) :
    Reader (List α) := fun cs =>
  if (skipBlanks cs).head? = some closing then some ([], (skipBlanks cs).drop 1)
  else items closing item steps cs

/-- A name, a colon and a value. -/
def field (value : Reader Json) : Reader (String × Json) := fun cs =>
  match skipBlanks cs with
  | '"' :: cs => do
    let (name, cs) ← quoted cs
    match skipBlanks cs with
    | ':' :: cs =>
      let (v, cs) ← value cs
      return ((name, v), cs)
    | _ => none
  | _ => none

def value : Nat → Reader Json
  | 0, _ => none
  | steps + 1, cs =>
    match skipBlanks cs with
    | '[' :: cs => (enclosed ']' (value steps) steps cs).map fun (vs, cs) => (.array vs, cs)
    | '{' :: cs =>
      (enclosed '}' (field (value steps)) steps cs).map fun (fs, cs) => (.object fs, cs)
    | '"' :: cs => (quoted cs).map fun (s, cs) => (.string s, cs)
    | 'n' :: 'u' :: 'l' :: 'l' :: cs => some (.null, cs)
    | 't' :: 'r' :: 'u' :: 'e' :: cs => some (.bool true, cs)
    | 'f' :: 'a' :: 'l' :: 's' :: 'e' :: cs => some (.bool false, cs)
    | cs => number cs

end Reader

/-- The value that a text stands for, if all of it is one `Reader.value` with blanks around it. -/
def read? (text : String) : Option Json := do
  let (v, rest) ← Reader.value text.length text.toList
  if (skipBlanks rest).isEmpty then return v else none

end LoxLang.Json
