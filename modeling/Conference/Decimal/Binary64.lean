/-! Finite binary64 numbers as exact products `m * 2 ^ q`. -/
namespace Conference

/-- What the bits of a number say. -/
inductive Binary64 where
  | nan
  | infinite (negative : Bool)
  /-- `m * 2 ^ q`, negated if so marked; `narrow` says that the next smaller magnitude is only
  half as far away as the next larger one. -/
  | finite (negative : Bool) (m : Nat) (q : Int) (narrow : Bool)
  deriving DecidableEq, Repr

namespace Binary64

/-- The sign is the top bit, the exponent the next eleven, the fraction the rest. -/
def ofBits (bits : Nat) : Binary64 :=
  let negative := decide (1 <<< 63 ≤ bits)
  let exponent : Nat := bits >>> 52 % (1 <<< 11)
  let fraction := bits % (1 <<< 52)
  if exponent = 2047 then (if fraction = 0 then .infinite negative else .nan)
  else if exponent = 0 then .finite negative fraction (-1074) false
  else .finite negative (1 <<< 52 + fraction) ((exponent : Int) - 1075)
    (decide (fraction = 0 ∧ 1 < exponent))

def ofFloat (x : Float) : Binary64 := ofBits x.toBits.toNat

end Binary64

end Conference
