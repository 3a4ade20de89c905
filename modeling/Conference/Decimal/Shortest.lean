import Conference.Decimal.Digit

/-! The shortest decimal of a binary number: of the decimals that no other binary number is
nearer to, one with the fewest digits, among those the nearest, and in a tie the one whose last
digit is even. -/
namespace Conference

/-- The decimal `digits * 10 ^ exp`. -/
structure Scaled where
  digits : Nat
  exp : Int
  deriving DecidableEq, Repr

namespace Scaled

/-- Compares `a * 10 ^ i` with `b * 2 ^ j`. -/
def compareBinary (a : Nat) (i : Int) (b : Nat) (j : Int) : Ordering :=
  compare ((a * Nat.pow 10 i.toNat) <<< (-j).toNat) (b <<< j.toNat * Nat.pow 10 (-i).toNat)

/-- Whether a decimal lies among the reals that round to `m * 2 ^ q`: nearer than half way to
either neighbour, the half-way points included where `m` is even. -/
def readsBack (m : Nat) (q : Int) (narrow : Bool) (decimal : Scaled) : Bool :=
  let below := compareBinary decimal.digits decimal.exp
    (if narrow then 4 * m - 1 else 4 * m - 2) (q - 2)
  let above := compareBinary decimal.digits decimal.exp (4 * m + 2) (q - 2)
  let ends := m % 2 == 0
  (below == .gt || (ends && below == .eq)) && (above == .lt || (ends && above == .eq))

/-- The greatest multiple of `10 ^ grid` not above `m * 2 ^ q`. -/
def floorOn (m : Nat) (q grid : Int) : Scaled :=
  ⟨m <<< q.toNat * Nat.pow 10 (-grid).toNat / (1 <<< (-q).toNat * Nat.pow 10 grid.toNat), grid⟩

/-- The neighbour of `m * 2 ^ q` on the multiples of `10 ^ grid` that reads back, if one does;
of two the nearer, in a tie the even one. -/
def onGrid (m : Nat) (q : Int) (narrow : Bool) (grid : Int) : Option Scaled :=
  let low := floorOn m q grid
  let high : Scaled := ⟨low.digits + 1, grid⟩
  if readsBack m q narrow low then
    if readsBack m q narrow high then
      match compareBinary (low.digits + high.digits) grid m (q + 1) with
      | .gt => some low
      | .lt => some high
      | .eq => if low.digits % 2 = 0 then some low else some high
    else some low
  else if readsBack m q narrow high then some high
  else none

/-- The least `k`, from `start` on, with `m * 2 ^ q < 10 ^ k`; looks at most `tries` further. -/
def scaleFrom (m : Nat) (q : Int) : Nat → Int → Int
  | 0, start => start
  | tries + 1, start =>
    if compareBinary 1 start m q = .gt then start else scaleFrom m q tries (start + 1)

/-- The least `k` with `m * 2 ^ q < 10 ^ k`. A binary digit is worth a little more than three
tenths of a decimal one. -/
def scale (m : Nat) (q : Int) : Int :=
  scaleFrom m q 4 (((m.log2 : Int) + q) * 30103 / 100000)

/-- Drops a trailing zero as long as there is one. -/
def strip : Nat → Scaled → Scaled
  | 0, decimal => decimal
  | tries + 1, decimal =>
    if decimal.digits % 10 = 0 then strip tries ⟨decimal.digits / 10, decimal.exp + 1⟩ else decimal

/-- The decimal equal to `m * 2 ^ q`. -/
def exact (m : Nat) (q : Int) : Scaled :=
  if 0 ≤ q then ⟨m <<< q.toNat, 0⟩ else ⟨m * Nat.pow 5 (-q).toNat, q⟩

/-- The shortest decimal of `m * 2 ^ q`, for `m` not zero. Seventeen digits are enough to tell
any two numbers apart. -/
def shortest (m : Nat) (q : Int) (narrow : Bool) : Scaled :=
  let top := scale m q
  match (List.range 17).findSome? fun (n : Nat) => onGrid m q narrow (top - 1 - (n : Nat)) with
  | some decimal => strip 17 decimal
  | none => exact m q

end Scaled

end Conference
