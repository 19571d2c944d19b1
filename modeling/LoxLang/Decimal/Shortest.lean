import LoxLang.Decimal.Binary

/-!
# The fewest digits that read back

`shortest` gives the decimal with the fewest digits among those that round to a given double, and of
two such decimals the nearer one.  The search runs over the grids of 1, 2, … 17 digits: on each grid
only the two neighbours of the value can be nearest, and the first grid with a neighbour inside the
rounding interval wins.  When both neighbours are equally near, `Tie` decides.
-/

namespace LoxLang.Decimal

/-- Which of two equally near decimals is taken: the upper one, or the one with an `even` last
digit. -/
inductive Tie where
  | up
  | even
  deriving Repr, DecidableEq

/-- The decimal `digits · 10 ^ exponent`. -/
structure Scaled where
  digits : Nat
  exponent : Int
  deriving Repr, DecidableEq

/-- How many decimal digits `n` has; zero has none. -/
def digitCount (n : Nat) : Nat := if n = 0 then 0 else (Nat.toDigits 10 n).length

/-- The exponent of the leading digit of the positive fraction `numerator / denominator`. -/
def leadingExponent (numerator denominator : Nat) : Int :=
  if denominator ≤ numerator then (digitCount (numerator / denominator) : Int) - 1
  else -(digitCount ((denominator - 1) / numerator) : Int)

/-- The reals that round to `mantissa · 2 ^ exponent`, in quarters of `2 ^ exponent`: the value,
both ends, and whether the ends belong to it.  Just above a power of two the gap below is half the
gap above. -/
structure Interval where
  low : Nat
  value : Nat
  high : Nat
  closed : Bool

def interval (mantissa : Nat) (exponent : Int) : Interval where
  low := if mantissa = Nat.pow 2 52 ∧ -1074 < exponent then 4 * mantissa - 1 else 4 * mantissa - 2
  value := 4 * mantissa
  high := 4 * mantissa + 2
  closed := mantissa % 2 == 0

/-- Whether `digits · grid` lies in the interval, both sides scaled to whole numbers: a quarter is
`quarter` long and a step of the grid `grid`. -/
def Interval.holds (i : Interval) (quarter grid digits : Nat) : Bool :=
  if i.closed then i.low * quarter ≤ digits * grid && digits * grid ≤ i.high * quarter
  else i.low * quarter < digits * grid && digits * grid < i.high * quarter

/-- The better of the two neighbours `below` and `below + 1` of the value on a grid, if one of them
reads back. -/
def Interval.pick? (i : Interval) (tie : Tie) (quarter grid : Nat) : Option Nat :=
  let below := i.value * quarter / grid
  match i.holds quarter grid below && 0 < below, i.holds quarter grid (below + 1) with
  | true, true =>
    -- Both neighbours read back: compare the value with the middle between them.
    let twice := 2 * i.value * quarter
    let middle := (2 * below + 1) * grid
    let up := middle < twice || (middle == twice && (tie == .up || below % 2 == 1))
    some (if up then below + 1 else below)
  | true, false => some below
  | false, true => some (below + 1)
  | false, false => none

/-- Look through the grids of `width`, `width + 1`, … digits, `grids` of them.  A pick that carries
over to one digit more is the power of ten. -/
def shortestFrom (tie : Tie) (i : Interval) (quarterExponent leading : Int) (width : Nat) :
    Nat → Scaled
  | 0 => ⟨0, 0⟩
  | grids + 1 =>
    let exponent := leading + 1 - (width : Int)
    -- Both units are multiplied by the same power of two and of ten, which makes them whole.
    let quarter := Nat.pow 2 quarterExponent.toNat * Nat.pow 10 (-exponent).toNat
    let grid := Nat.pow 2 (-quarterExponent).toNat * Nat.pow 10 exponent.toNat
    match i.pick? tie quarter grid with
    | some digits => if digits = Nat.pow 10 width then ⟨1, exponent + width⟩ else ⟨digits, exponent⟩
    | none => shortestFrom tie i quarterExponent leading (width + 1) grids

/-- The fewest digits that read back as the positive double `mantissa · 2 ^ exponent`. -/
def shortest (tie : Tie) (mantissa : Nat) (exponent : Int) : Scaled :=
  let leading := leadingExponent (mantissa * Nat.pow 2 exponent.toNat) (Nat.pow 2 (-exponent).toNat)
  shortestFrom tie (interval mantissa exponent) (exponent - 2) leading 1 17

end LoxLang.Decimal
