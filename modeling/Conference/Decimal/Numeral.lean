import Conference.Decimal.Binary64
import Conference.Decimal.Shortest

/-! Decimal numerals: numbers as they are written, with an optional fraction and exponent. Whether
a numeral is an integer, and what float it denotes, depends on how it is written and not only on
its value. -/
namespace Conference

/-- The sign in front of an exponent. -/
inductive ExponentSign where
  | bare
  | plus
  | minus
  deriving DecidableEq, Repr

/-- A written number. An empty fraction stands for a number without a point. -/
structure Numeral where
  negative : Bool
  whole : List Digit
  fraction : List Digit
  exponent : Option (ExponentSign × List Digit)
  deriving DecidableEq, Repr

namespace Numeral

def ofNat (n : Nat) : Numeral := ⟨false, Digit.ofNat n, [], none⟩

/-- Exponents of the leading digit from `-5` up to, but not including, 16 are written out. -/
def plainFrom : Int := -5

def plainBelow : Int := 16

/-- A decimal written out, with at least one decimal place, where its size is moderate, and
otherwise with a signed exponent behind its leading digit. -/
def ofScaled (negative : Bool) (decimal : Scaled) : Numeral :=
  let digits := Digit.ofNat decimal.digits
  let lead : Int := decimal.exp + digits.length - 1
  if plainFrom ≤ lead ∧ lead < plainBelow then
    if 0 ≤ decimal.exp then ⟨negative, digits ++ List.replicate decimal.exp.toNat 0, [0], none⟩
    else if 0 ≤ lead then
      ⟨negative, digits.take (lead.toNat + 1), digits.drop (lead.toNat + 1), none⟩
    else ⟨negative, [0], List.replicate (-lead - 1).toNat 0 ++ digits, none⟩
  else
    let sign := if 0 ≤ lead then ExponentSign.plus else ExponentSign.minus
    ⟨negative, digits.take 1, digits.drop 1, some (sign, Digit.ofNat lead.natAbs)⟩

/-- The shortest numeral of a float; NaN and the infinities have none. -/
def ofFloat? (x : Float) : Option Numeral :=
  match Binary64.ofFloat x with
  | .finite negative m q narrow =>
    if m = 0 then some ⟨negative, [0], [0], none⟩
    else some (ofScaled negative (Scaled.shortest m q narrow))
  | _ => none

/-! ## Integers -/

/-- One more than the largest word of 64 bits. -/
def wordEnd : Nat := 1 <<< 64

/-- The natural number of a numeral written as one: no sign, fraction or exponent, and within 64
bits. -/
def toNat? (numeral : Numeral) : Option Nat :=
  if numeral.negative = false ∧ numeral.fraction = [] ∧ numeral.exponent = none
      ∧ Digit.toNat numeral.whole < wordEnd then
    some (Digit.toNat numeral.whole)
  else none

/-! ## Floats

A numeral is read into a significand of 64 bits and a power of ten, which are combined in floating
point. Digits that no longer fit the significand are left out, and the last bit of the float may
differ from that of the nearest one. -/

/-- Reads digits into a significand as long as they fit; gives the digits left over. -/
def absorb (significand : Nat) : List Digit → Nat × List Digit
  | [] => (significand, [])
  | digit :: rest =>
    let next := 10 * significand + digit.val
    if next < wordEnd then absorb next rest else (significand, digit :: rest)

/-- The significand and the power of ten of a numeral without its exponent. -/
def significand (numeral : Numeral) : Nat × Int :=
  let (whole, beyond) := absorb 0 numeral.whole
  let (all, dropped) := absorb whole numeral.fraction
  (all, (beyond.length : Int) - (numeral.fraction.length - dropped.length : Nat))

/-- The largest power of ten that a float can hold. -/
def maxPower : Nat := 308

/-- A power of ten as a float. -/
def power (exponent : Nat) : Float := Float.ofScientific 1 false exponent

/-- `value * 10 ^ exponent`, refused where it is infinite. Exponents beyond the largest power are
approached in steps of it. -/
def scaleBy (value : Float) (exponent : Int) : Option Float :=
  if exponent.natAbs ≤ maxPower then
    if 0 ≤ exponent then
      let scaled := value * power exponent.natAbs
      if scaled.isInf then none else some scaled
    else some (value / power exponent.natAbs)
  else if value == 0 then some value
  else if 0 ≤ exponent then none
  else scaleBy (value / power maxPower) (exponent + maxPower)
termination_by exponent.natAbs
decreasing_by
  simp only [maxPower] at *
  omega

/-- Exponents beyond 32 bits are not told apart. -/
def exponentEnd : Int := 0x80000000

/-- An integer brought into the signed 32-bit range. -/
def saturate (n : Int) : Int := max (-exponentEnd) (min (exponentEnd - 1) n)

/-- The magnitude of a numeral as a float, refused where it is infinite. -/
def magnitude? (numeral : Numeral) : Option Float :=
  let (significand, shift) := numeral.significand
  let value := (UInt64.ofNat significand).toFloat
  match numeral.exponent with
  | none => scaleBy value shift
  | some (sign, digits) =>
    let size : Int := Digit.toNat digits
    if exponentEnd ≤ size then
      if significand ≠ 0 ∧ sign ≠ .minus then none else some 0
    else scaleBy value (saturate (if sign = .minus then shift - size else shift + size))

/-- The float that a numeral denotes, refused where it is infinite. -/
def toFloat? (numeral : Numeral) : Option Float :=
  numeral.magnitude?.map fun value => if numeral.negative then -value else value

/-! ## Text -/

/-- A numeral as it is written. -/
def text (numeral : Numeral) : List Char :=
  (if numeral.negative then ['-'] else []) ++ Digit.text numeral.whole
    ++ (if numeral.fraction.isEmpty then [] else '.' :: Digit.text numeral.fraction)
    ++ match numeral.exponent with
      | none => []
      | some (.bare, digits) => 'e' :: Digit.text digits
      | some (.plus, digits) => 'e' :: '+' :: Digit.text digits
      | some (.minus, digits) => 'e' :: '-' :: Digit.text digits

end Numeral

end Conference
