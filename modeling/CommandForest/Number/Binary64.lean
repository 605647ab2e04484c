/-!
# CommandForest.Number.Binary64

Floating-point numbers of 64 bits, as words. The program reads them, compares their class and
writes them, so no arithmetic is needed:

* `significand` and `scale` say which real number the bits of a finite number stand for;
* `ofRatio` rounds a fraction to the nearest number, ties to the even neighbour.
-/

namespace CommandForest.Number

/-- A floating-point number: a sign bit, 11 bits of exponent, 52 bits of fraction. -/
structure Binary64 where
  bits : UInt64
deriving DecidableEq

namespace Binary64

/-! ## The fields of a number -/

/-- The sign bit. -/
def isNegative (x : Binary64) : Bool := Nat.pow 2 63 ≤ x.bits.toNat

/-- The 11 bits after the sign. -/
def exponentField (x : Binary64) : Nat := x.bits.toNat / Nat.pow 2 52 % Nat.pow 2 11

/-- The lowest 52 bits. -/
def fractionField (x : Binary64) : Nat := x.bits.toNat % Nat.pow 2 52

/-- Neither infinite nor without a value. -/
def isFinite (x : Binary64) : Bool := x.exponentField != 2047

/-- Not a number. -/
def isNaN (x : Binary64) : Bool := x.exponentField == 2047 && x.fractionField != 0

/-- A finite number is `significand · 2 ^ scale`, up to its sign. -/
def significand (x : Binary64) : Nat :=
  if x.exponentField = 0 then x.fractionField else Nat.pow 2 52 + x.fractionField

/-- The power of two that the significand counts. -/
def scale (x : Binary64) : Int := (max 1 x.exponentField : Nat) - 1075

/-! ## Building numbers -/

/-- The number with this sign and these 63 lower bits. -/
def ofMagnitude (negative : Bool) (magnitude : Nat) : Binary64 :=
  ⟨UInt64.ofNat (magnitude + if negative then Nat.pow 2 63 else 0)⟩

/-- The lower bits of infinity. -/
def infinityMagnitude : Nat := 2047 * Nat.pow 2 52

/-- The number beyond all others on one side. -/
def infinity (negative : Bool) : Binary64 := ofMagnitude negative infinityMagnitude

/-- The quiet number without a value. -/
def nan (negative : Bool) : Binary64 := ofMagnitude negative (infinityMagnitude + Nat.pow 2 51)

/-! ## Rounding -/

/-- `num / den` rounded to a whole number, a half to the even neighbour. -/
def roundHalfEven (num den : Nat) : Nat :=
  let q := num / den
  let r := num % den
  if 2 * r < den then q
  else if den < 2 * r then q + 1
  else if q % 2 = 0 then q else q + 1

/-- The exponent of the largest power of two that is at most `num / den`. -/
def floorLog2 (num den : Nat) : Int :=
  let k : Int := (num.log2 : Int) - den.log2
  if den * Nat.pow 2 k.toNat ≤ num * Nat.pow 2 (-k).toNat then k else k - 1

/-- The lower bits of the number nearest to `num / den`. Adding the rounded significand to the
exponent field carries over where rounding reaches the next power of two. -/
def nearestMagnitude (num den : Nat) : Nat :=
  if num = 0 then
    0
  else
    let q : Int := max (-1074) (floorLog2 num den - 52)
    let t := roundHalfEven (num * Nat.pow 2 (-q).toNat) (den * Nat.pow 2 q.toNat)
    min infinityMagnitude ((q + 1074).toNat * Nat.pow 2 52 + t)

/-- The number nearest to `num / den`. -/
def ofRatio (negative : Bool) (num den : Nat) : Binary64 :=
  ofMagnitude negative (nearestMagnitude num den)

/-- The number nearest to `digits · 10 ^ exponent`. Beyond the 400th decimal place on either side
nothing but zero and infinity is left. -/
def ofDecimal (negative : Bool) (digits : Nat) (exponent : Int) : Binary64 :=
  let leading : Int := (Nat.toDigits 10 digits).length + exponent
  if digits = 0 || leading < -400 then ofMagnitude negative 0
  else if 400 < leading then infinity negative
  else ofRatio negative (digits * Nat.pow 10 exponent.toNat) (Nat.pow 10 (-exponent).toNat)

end Binary64

end CommandForest.Number
