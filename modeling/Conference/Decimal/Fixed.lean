import Conference.Decimal.Binary64
import Conference.Decimal.Digit
import Conference.Single

/-! Numbers with a fixed count of decimal places. The exact binary value is rounded, and a half
goes to the even neighbour. -/
namespace Conference.Fixed

/-- `m * 2 ^ q` in units of the last of `places` decimal places. -/
def units (m : Nat) (q : Int) (places : Nat) : Nat :=
  roundEven (m <<< q.toNat * Nat.pow 10 places) (1 <<< (-q).toNat)

/-- Digits with a point before the last `places` of them. -/
def point (places value : Nat) : List Char :=
  let whole := Digit.text (Digit.ofNat (value / Nat.pow 10 places))
  let part := Digit.text (Digit.ofNat (value % Nat.pow 10 places))
  if places = 0 then whole
  else whole ++ '.' :: (List.replicate (places - part.length) '0' ++ part)

/-- The text of a number with `places` decimal places; a negative zero keeps its sign. -/
def text (places : Nat) (x : Float) : List Char :=
  match Binary64.ofFloat x with
  | .nan => "NaN".toList
  | .infinite negative => (if negative then ['-'] else []) ++ "inf".toList
  | .finite negative m q _ =>
    (if negative then ['-'] else []) ++ point places (units m q places)

/-- Text moved to the right end of `width` columns. -/
def alignRight (width : Nat) (text : List Char) : List Char :=
  List.replicate (width - text.length) ' ' ++ text

end Conference.Fixed
