/-! Binary numbers of 24 significant bits, the precision of the mixing formula. Every
operation rounds its exact result once, to the nearest such number and in a tie to the one with
an even significand. The numbers of a mix stay between `2 ^ (-31)` and `2 ^ 63`, so the exponent
needs no bounds. -/
namespace Conference

/-- The integer nearest to `num / den`, of two the even one. -/
def roundEven (num den : Nat) : Nat :=
  let quotient := num / den
  let twice := 2 * (num % den)
  if twice < den ∨ (twice = den ∧ quotient % 2 = 0) then quotient else quotient + 1

/-- The magnitude `sig * 2 ^ exp`. -/
structure Single where
  sig : Nat
  exp : Int
  deriving DecidableEq, Repr

namespace Single

/-- Bits of a significand. -/
def precision : Nat := 24

/-- The power of two that brings `num / den` between `2 ^ 23` and `2 ^ 24`. -/
def shiftFor (num den : Nat) : Int :=
  let shift : Int := (precision : Int) - 1 + den.log2 - num.log2
  if num <<< shift.toNat < (den <<< (-shift).toNat) <<< (precision - 1) then shift + 1 else shift

/-- The number nearest to `num / den * 2 ^ exp`. -/
def quotient (num den : Nat) (exp : Int) : Single :=
  match shiftFor num den with
  | .ofNat up => ⟨roundEven (num <<< up) den, exp - up⟩
  | .negSucc down => ⟨roundEven num (den <<< (down + 1)), exp + down + 1⟩

/-- The number nearest to `num * 2 ^ exp`; up to 24 bits are kept as they are. -/
def nearest (num : Nat) (exp : Int) : Single :=
  let excess := num.log2 + 1 - precision
  ⟨roundEven num (1 <<< excess), exp + excess⟩

/-- A natural number, rounded. -/
def ofNat (n : Nat) : Single := nearest n 0

def mul (x y : Single) : Single := nearest (x.sig * y.sig) (x.exp + y.exp)

def div (x y : Single) : Single := quotient x.sig y.sig (x.exp - y.exp)

/-- The parts of `x` and of one half in a common unit `2 ^ e`, as `(x, half, e)`. -/
def withHalf (x : Single) : Nat × Nat × Int :=
  let unit := min x.exp (-1)
  (x.sig <<< (x.exp - unit).toNat, 1 <<< (-1 - unit).toNat, unit)

/-- The largest integer not above `x`. -/
def floor (x : Single) : Nat := (x.sig <<< x.exp.toNat) >>> (-x.exp).toNat

/-- The least integer not below `x`. -/
def ceil (x : Single) : Nat :=
  let places := (-x.exp).toNat
  (x.sig <<< x.exp.toNat + (1 <<< places - 1)) >>> places

/-- `⌊x + 1/2⌋`, the sum rounded before the floor is taken. -/
def roundUp (x : Single) : Nat :=
  let (value, half, unit) := x.withHalf
  (nearest (value + half) unit).floor

/-- `⌊1/2 - x⌋`, the difference rounded before the floor is taken. -/
def roundUpNeg (x : Single) : Int :=
  let (value, half, unit) := x.withHalf
  if value ≤ half then (nearest (half - value) unit).floor
  else -((nearest (value - half) unit).ceil : Int)

end Single

end Conference
