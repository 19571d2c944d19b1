import LoxLang.Token.Kind

/-!
# Segments of source text

Source text falls into consecutive segments: blanks, comments, tokens, stray characters, and a
string that is never closed.  `cut` gives the segment that starts with a character; `segments` cuts
a whole text.  Each segment is the longest one that fits at its place.
-/

namespace LoxLang.Source

/-- What a segment is: `stray` is a character that starts nothing, and `unclosed` a string without
its second quote. -/
inductive Shape where
  | blank
  | comment
  | token (kind : Kind)
  | stray
  | unclosed
  deriving Repr, DecidableEq

structure Segment where
  shape : Shape
  text : List Char
  deriving Repr, DecidableEq

/-! ## Character classes

Names and numbers are made of ASCII letters and digits only. -/

def isBlank (c : Char) : Bool := c = ' ' || c = '\t' || c = '\r' || c = '\n'

def isDigit (c : Char) : Bool := '0' ≤ c && c ≤ '9'

def isNameStart (c : Char) : Bool := ('a' ≤ c && c ≤ 'z') || ('A' ≤ c && c ≤ 'Z') || c = '_'

def isNamePart (c : Char) : Bool := isNameStart c || isDigit c

/-! ## Segments by their first character -/

/-- What a slash starts, with `cs` after it: a comment up to the end of its line, or else an
operator. -/
def slash : List Char → Segment
  | '/' :: cs => ⟨.comment, '/' :: '/' :: cs.takeWhile (· ≠ '\n')⟩
  | _ => ⟨.token .slash, ['/']⟩

/-- What a quote starts, with `cs` after it: a string up to the next quote, over lines too; without
one, all the rest is an `unclosed` string. -/
def quoted (cs : List Char) : Segment :=
  let body := cs.takeWhile (· ≠ '"')
  if body.length < cs.length then ⟨.token .string, '"' :: (body ++ ['"'])⟩
  else ⟨.unclosed, '"' :: cs⟩

/-- The fraction at the start of a text: a point and digits, at least one. -/
def fraction : List Char → List Char
  | '.' :: d :: cs => if isDigit d then '.' :: d :: cs.takeWhile isDigit else []
  | _ => []

/-- The rest of a number after its first digit: digits, and a `fraction` if one follows. -/
def numberRest (cs : List Char) : List Char :=
  cs.takeWhile isDigit ++ fraction (cs.dropWhile isDigit)

/-- The kind of a name, which is a reserved word or an `identifier`. -/
def wordKind (text : List Char) : Kind := (Kind.ofWord? (String.ofList text)).getD .identifier

/-- The operators that are always of one character. -/
def single? : Char → Option Kind
  | '(' => some .leftParen
  | ')' => some .rightParen
  | '{' => some .leftBrace
  | '}' => some .rightBrace
  | ',' => some .comma
  | '.' => some .dot
  | '-' => some .minus
  | '+' => some .plus
  | ';' => some .semicolon
  | '*' => some .star
  | _ => none

/-- The operators that an equals sign may follow: the kind alone, and the kind with it. -/
def withEqual? : Char → Option (Kind × Kind)
  | '!' => some (.bang, .bangEqual)
  | '=' => some (.equal, .equalEqual)
  | '<' => some (.less, .lessEqual)
  | '>' => some (.greater, .greaterEqual)
  | _ => none

/-- An operator of one or two characters, or a `stray` character. -/
def symbol (c : Char) (cs : List Char) : Segment :=
  match single? c, withEqual? c with
  | some kind, _ => ⟨.token kind, [c]⟩
  | none, some (alone, joined) =>
    match cs with
    | '=' :: _ => ⟨.token joined, [c, '=']⟩
    | _ => ⟨.token alone, [c]⟩
  | none, none => ⟨.stray, [c]⟩

/-- The segment that starts with `c`, with `cs` after it. -/
def cut (c : Char) (cs : List Char) : Segment :=
  if isBlank c then ⟨.blank, [c]⟩
  else if c = '/' then slash cs
  else if c = '"' then quoted cs
  else if isDigit c then ⟨.token .number, c :: numberRest cs⟩
  else if isNameStart c then
    let text := c :: cs.takeWhile isNamePart
    ⟨.token (wordKind text), text⟩
  else symbol c cs

/-- The segments of a text of which the first `skip` characters have been cut already. -/
def segmentsAfter : Nat → List Char → List Segment
  | _, [] => []
  | skip + 1, _ :: cs => segmentsAfter skip cs
  | 0, c :: cs =>
    let segment := cut c cs
    segment :: segmentsAfter (segment.text.length - 1) cs

/-- The segments of a text, in order. -/
def segments (cs : List Char) : List Segment := segmentsAfter 0 cs

end LoxLang.Source
