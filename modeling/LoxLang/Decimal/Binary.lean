/-!
# Doubles as binary fractions

A double is `nan`, an infinity, or a signed `mantissa · 2 ^ exponent` over whole numbers, read off
its bits.  Everything that writes a number works on this form, in exact arithmetic.
-/

namespace LoxLang.Decimal

/-- What a double stands for; `finite` is the signed `mantissa · 2 ^ exponent`. -/
inductive Number where
  | nan
  | infinite (negative : Bool)
  | finite (negative : Bool) (mantissa : Nat) (exponent : Int)
  deriving Repr, DecidableEq

/-- The mantissa and exponent of a finite double with the given exponent and fraction fields.  A
zero exponent field marks the numbers without a leading one. -/
def fieldsToFraction (exponentField fraction : Nat) : Nat × Int :=
  if exponentField = 0 then (fraction, -1074)
  else (Nat.pow 2 52 + fraction, (exponentField : Int) - 1075)

/-- Read a double's sign, exponent and fraction fields off its bits. -/
def Number.ofFloat (x : Float) : Number :=
  let bits := x.toBits.toNat
  let negative := bits / Nat.pow 2 63 == 1
  let exponentField := bits / Nat.pow 2 52 % Nat.pow 2 11
  let fraction := bits % Nat.pow 2 52
  if exponentField = Nat.pow 2 11 - 1 then
    if fraction = 0 then .infinite negative else .nan
  else
    let (mantissa, exponent) := fieldsToFraction exponentField fraction
    .finite negative mantissa exponent

/-- The whole number that `mantissa · 2 ^ exponent` is, if it is one. -/
def whole? (mantissa : Nat) (exponent : Int) : Option Nat :=
  if 0 ≤ exponent then some (mantissa * Nat.pow 2 exponent.toNat)
  else
    let divisor := Nat.pow 2 exponent.natAbs
    if mantissa % divisor = 0 then some (mantissa / divisor) else none

/-- The double nearest to `±digits · 10 ^ exponent`, a half going to the even neighbour; a value
that is too large gives an infinity. -/
def nearest (negative : Bool) (digits : Nat) (exponent : Int) : Float :=
  let magnitude := Float.ofScientific digits (exponent < 0) exponent.natAbs
  if negative then -magnitude else magnitude

end LoxLang.Decimal
