import CommandForest.Number.Binary64

/-!
# CommandForest.Number.Shortest

Writing a floating-point number with the fewest digits that read back as the same number:

* a decimal reads back when it lies in the interval of reals that round to the number, ends
  included if the significand is even;
* `shortest` takes the coarsest decimal grid with a point in that interval, and of two points the
  nearer one;
* `Binary64.render` writes the digits in full, never with an exponent.
-/

namespace CommandForest.Number

/-! ## The coarsest grid -/

/-- The multiple of `10 ^ place` that reads back as `x`, if there is one. Of two, the nearer one
counts, and the upper one at equal distance. Everything is measured in quarters of the last bit. -/
def onGrid (x : Binary64) (place : Int) : Option Nat :=
  let quarter : Int := x.scale - 2
  let unit := Nat.pow 2 quarter.toNat * Nat.pow 10 (-place).toNat
  let step := Nat.pow 2 (-quarter).toNat * Nat.pow 10 place.toNat
  let value := 4 * x.significand * unit
  let high := value + 2 * unit
  let low := value - if x.fractionField = 0 && 1 < x.exponentField then unit else 2 * unit
  let inside (n : Nat) : Bool :=
    if x.significand % 2 = 0 then low ≤ n * step && n * step ≤ high
    else low < n * step && n * step < high
  let below := value / step
  let nearer := if value - below * step < (below + 1) * step - value then below else below + 1
  match inside below, inside (below + 1) with
  | true, true => some nearer
  | true, false => some below
  | false, true => some (below + 1)
  | false, false => none

/-- Searches the grids from `place` downwards, `grids` of them. -/
def shortestFrom (x : Binary64) (place : Int) : Nat → Nat × Int
  | 0 => (0, 0)
  | grids + 1 =>
    match onGrid x place with
    | some digits => (digits, place)
    | none => shortestFrom x (place - 1) grids

/-- Digits and the power of ten that they count. Every finite number lies between the grids of
`10 ^ 308` and `10 ^ -324`. -/
def shortest (x : Binary64) : Nat × Int := shortestFrom x 308 633

/-! ## Positional notation -/

/-- Writes `digits · 10 ^ place` without an exponent and without idle zeros after the point. -/
def positional (digits : Nat) (place : Int) : List Char :=
  let text := Nat.toDigits 10 digits
  if 0 ≤ place then
    text ++ List.replicate place.toNat '0'
  else
    let places := (-place).toNat
    let padded := List.replicate (places + 1 - text.length) '0' ++ text
    let whole := padded.take (padded.length - places)
    let fraction := ((padded.drop (padded.length - places)).reverse.dropWhile (· == '0')).reverse
    if fraction.isEmpty then whole else whole ++ '.' :: fraction

namespace Binary64

/-- The text of a number: `NaN`, `inf`, or the shortest digits in full. A minus stands before the
last two if the number is negative. -/
def render (x : Binary64) : String :=
  if x.isNaN then
    "NaN"
  else
    let body :=
      if !x.isFinite then "inf".toList
      else if x.significand = 0 then ['0']
      else
        let (digits, place) := shortest x
        positional digits place
    String.ofList (if x.isNegative then '-' :: body else body)

end Binary64

end CommandForest.Number
