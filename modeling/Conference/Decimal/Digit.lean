/-! Decimal digits and the numbers that lists of them spell, most significant first. -/
namespace Conference

/-- A decimal digit. -/
abbrev Digit := Fin 10

namespace Digit

def toChar (digit : Digit) : Char := Char.ofNat (48 + digit.val)

/-- The digit that a character shows; only the ten ASCII digits show one. -/
def ofChar? (c : Char) : Option Digit :=
  if h : 48 ≤ c.toNat ∧ c.toNat < 58 then some ⟨c.toNat - 48, by omega⟩ else none

/-- The number that digits spell. -/
def toNat (digits : List Digit) : Nat := digits.foldl (fun n digit => 10 * n + digit.val) 0

/-- The digits of a number, none leading in vain; zero has one. -/
def ofNat (n : Nat) : List Digit :=
  if h : n < 10 then [⟨n, h⟩] else ofNat (n / 10) ++ [⟨n % 10, by omega⟩]

/-- Digits as text. -/
def text (digits : List Digit) : List Char := digits.map toChar

theorem toNat_append (digits : List Digit) (last : Digit) :
    toNat (digits ++ [last]) = 10 * toNat digits + last.val := by
  simp [toNat, List.foldl_append]

/-- A number's digits spell it. -/
theorem toNat_ofNat (n : Nat) : toNat (ofNat n) = n := by
  induction n using Nat.strongRecOn with
  | ind n ih =>
    rw [ofNat]
    split
    · simp [toNat]
    · rw [toNat_append, ih (n / 10) (by omega)]
      simp only []
      omega

theorem ofNat_ne_nil (n : Nat) : ofNat n ≠ [] := by
  rw [ofNat]
  split <;> simp

theorem ofChar?_toChar (digit : Digit) : ofChar? (toChar digit) = some digit := by
  revert digit
  decide

end Digit

end Conference
