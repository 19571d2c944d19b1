import LoxLang.Decimal.Shortest

/-!
# Writing numbers

A `Layout` is the record of one format's decisions; `Layout.write` applies it.  Digits are the
fewest that read back, written in plain positional notation or with an exponent.  `exactWhole`
writes a whole number in full instead.
-/

namespace LoxLang.Decimal

/-- The decisions of a number format, as `Layout.write` applies them. -/
structure Layout where
  /-- Whether a number whose leading digit has this exponent is written without an exponent. -/
  positional : Int → Bool
  /-- What follows the digits of a whole number in positional notation. -/
  wholeMark : Int → String
  /-- The least number of digits of a written exponent. -/
  exponentWidth : Nat
  /-- Whether zero keeps its minus sign. -/
  signedZero : Bool
  tie : Tie
  /-- The texts of the values without digits. -/
  nan : String
  infinity : String
  negativeInfinity : String

/-- The decimal digits of `n`. -/
def digitText (n : Nat) : String := String.ofList (Nat.toDigits 10 n)

def zeros (n : Nat) : String := String.ofList (List.replicate n '0')

/-- `digits · 10 ^ exponent` in positional notation, a whole number followed by `mark`. -/
def positionalText (mark : String) (s : Scaled) : String :=
  let digits := Nat.toDigits 10 s.digits
  let point := (digits.length : Int) + s.exponent
  if 0 ≤ s.exponent then String.ofList digits ++ zeros s.exponent.toNat ++ mark
  else if 0 < point then
    String.ofList (digits.take point.toNat) ++ "." ++ String.ofList (digits.drop point.toNat)
  else "0." ++ zeros point.natAbs ++ String.ofList digits

/-- The number `n` padded with zeros to at least `width` digits. -/
def paddedText (width n : Nat) : String :=
  let digits := digitText n
  zeros (width - digits.length) ++ digits

/-- `digits · 10 ^ exponent` as one digit, the rest after a point, and a signed exponent. -/
def exponentText (width : Nat) (s : Scaled) : String :=
  let digits := Nat.toDigits 10 s.digits
  let leading := s.exponent + digits.length - 1
  let tail := digits.drop 1
  String.ofList (digits.take 1) ++ (if tail.isEmpty then "" else "." ++ String.ofList tail)
    ++ "e" ++ (if leading < 0 then "-" else "+") ++ paddedText width leading.natAbs

/-- Zero, or the fewest digits of a positive double, by `shortest`. -/
def magnitudeDigits (tie : Tie) (mantissa : Nat) (exponent : Int) : Scaled :=
  if mantissa = 0 then ⟨0, 0⟩ else shortest tie mantissa exponent

/-- The exponent of the leading digit; zero counts as one digit at exponent zero. -/
def Scaled.leading (s : Scaled) : Int := s.exponent + (Nat.toDigits 10 s.digits).length - 1

/-- Write a number as the layout `l` says. -/
def Layout.write (l : Layout) (x : Float) : String :=
  match Number.ofFloat x with
  | .nan => l.nan
  | .infinite negative => if negative then l.negativeInfinity else l.infinity
  | .finite negative mantissa exponent =>
    let s := magnitudeDigits l.tie mantissa exponent
    let leading := s.leading
    let sign := if negative && (l.signedZero || mantissa != 0) then "-" else ""
    sign ++ (if l.positional leading then positionalText (l.wholeMark leading) s
      else exponentText l.exponentWidth s)

/-- The full digits of a whole double, with its sign; nothing for any other double. -/
def exactWhole? (x : Float) : Option String :=
  match Number.ofFloat x with
  | .finite negative mantissa exponent =>
    (whole? mantissa exponent).map fun n => (if negative then "-" else "") ++ digitText n
  | _ => none

end LoxLang.Decimal
