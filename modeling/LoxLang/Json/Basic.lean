import LoxLang.Decimal.Layout

/-!
# JSON text

JSON values with ordered fields, written compactly or with two-space indentation.
-/

namespace LoxLang

inductive Json where
  | null
  | bool (b : Bool)
  | whole (n : Nat)
  | number (x : Float)
  | string (s : String)
  | array (items : List Json)
  | object (fields : List (String × Json))

namespace Json

/-- Numbers are positional from `10 ^ -5` up to below `10 ^ 16`, whole ones with `.0`, and have a
bare exponent otherwise. -/
def layout : Decimal.Layout where
  positional leading := -5 ≤ leading && leading ≤ 15
  wholeMark _ := ".0"
  exponentWidth := 1
  signedZero := true
  tie := .even
  nan := "null"
  infinity := "null"
  negativeInfinity := "null"

/-- The hexadecimal digit of `n < 16`. -/
def hexDigit (n : Nat) : Char :=
  if n < 10 then Char.ofNat ('0'.toNat + n) else Char.ofNat ('a'.toNat + (n - 10))

/-- A character inside a string: quotes, backslashes and control characters are escaped. -/
def escape (c : Char) : List Char :=
  if c = '"' then ['\\', '"']
  else if c = '\\' then ['\\', '\\']
  else if c = '\x08' then ['\\', 'b']
  else if c = '\x0c' then ['\\', 'f']
  else if c = '\n' then ['\\', 'n']
  else if c = '\r' then ['\\', 'r']
  else if c = '\t' then ['\\', 't']
  else if c.toNat < 0x20 then
    ['\\', 'u', '0', '0', hexDigit (c.toNat / 16), hexDigit (c.toNat % 16)]
  else [c]

/-- A string in quotes, each character by `escape`. -/
def quote (s : String) : String := "\"" ++ String.ofList (s.toList.flatMap escape) ++ "\""

mutual

/-- The text of a value without any spaces. -/
def compact : Json → String
  | null => "null"
  | bool b => if b then "true" else "false"
  | whole n => n.repr
  | number x => layout.write x
  | string s => quote s
  | array items => "[" ++ ",".intercalate (compactItems items) ++ "]"
  | object fields => "\x7b" ++ ",".intercalate (compactFields fields) ++ "\x7d"

def compactItems : List Json → List String
  | [] => []
  | v :: rest => v.compact :: compactItems rest

def compactFields : List (String × Json) → List String
  | [] => []
  | (key, v) :: rest => (quote key ++ ":" ++ v.compact) :: compactFields rest

end

/-- A line break and the indentation of a `depth`. -/
def breakLine (depth : Nat) : String := "\n" ++ String.ofList (List.replicate (2 * depth) ' ')

/-- Items between brackets, one a line, one level deeper than the brackets; `opening` and `closing`
stand together if there are none. -/
def bracketed (opening closing : String) (depth : Nat) (items : List String) : String :=
  if items.isEmpty then opening ++ closing
  else opening ++ breakLine (depth + 1) ++ ("," ++ breakLine (depth + 1)).intercalate items
    ++ breakLine depth ++ closing

mutual

/-- The text of a value whose brackets stand at `depth`, indented by two spaces a level. -/
def prettyAt (depth : Nat) : Json → String
  | null => "null"
  | bool b => if b then "true" else "false"
  | whole n => n.repr
  | number x => layout.write x
  | string s => quote s
  | array items => bracketed "[" "]" depth (prettyItems (depth + 1) items)
  | object fields => bracketed "\x7b" "\x7d" depth (prettyFields (depth + 1) fields)

def prettyItems (depth : Nat) : List Json → List String
  | [] => []
  | v :: rest => v.prettyAt depth :: prettyItems depth rest

def prettyFields (depth : Nat) : List (String × Json) → List String
  | [] => []
  | (key, v) :: rest => (quote key ++ ": " ++ v.prettyAt depth) :: prettyFields depth rest

end

/-- The indented text of a value, at depth zero. -/
def pretty (v : Json) : String := v.prettyAt 0

end Json

end LoxLang
