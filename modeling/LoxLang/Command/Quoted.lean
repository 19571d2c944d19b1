import LoxLang.Text.Unseen

/-!
# Quoted names

File names are shown in double quotes.  Double quotes, backslashes and characters that show nothing
by themselves are escaped.
-/

namespace LoxLang.Command

/-- A character inside quotes; one that shows nothing is written by its number. -/
def quoteChar (c : Char) : String :=
  match c with
  | '"' => "\\\""
  | '\\' => "\\\\"
  | '\t' => "\\t"
  | '\n' => "\\n"
  | '\r' => "\\r"
  | _ =>
    if c.toNat = 0 then "\\0"
    else if Text.isUnseen c then "\\u\x7b" ++ String.ofList (Nat.toDigits 16 c.toNat) ++ "\x7d"
    else c.toString

/-- A name in quotes, each character by `quoteChar`. -/
def quoteName (name : String) : String := "\"" ++ String.join (name.toList.map quoteChar) ++ "\""

end LoxLang.Command
