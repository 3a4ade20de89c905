import Conference.Statistics

/-! Moments as text: the date and the time of day in universal time, with as many decimal places
of the second as a thousandth, millionth or billionth needs. -/
namespace Conference.Moment

/-- Digits with zeros in front, at least `width` of them. -/
def padded (width n : Nat) : String :=
  let digits := Nat.toDigits 10 n
  String.ofList (List.replicate (width - digits.length) '0' ++ digits)

/-- Year, month and day of a day counted from 1970. Years start in March here, so that a leap day
is the last of its year, and 400 of them make one era. -/
def date (day : Nat) : Nat × Nat × Nat :=
  let shifted := day + 719468
  let era := shifted / 146097
  let inEra := shifted % 146097
  let year := (inEra - inEra / 1460 + inEra / 36524 - inEra / 146096) / 365
  let inYear := inEra - (365 * year + year / 4 - year / 100)
  let month := (5 * inYear + 2) / 153
  let day := inYear - (153 * month + 2) / 5 + 1
  let month := if month < 10 then month + 3 else month - 9
  (year + era * 400 + (if month ≤ 2 then 1 else 0), month, day)

/-- The decimal places of a second. -/
def fraction (nanos : Nat) : String :=
  if nanos = 0 then ""
  else if nanos % 1000000 = 0 then "." ++ padded 3 (nanos / 1000000)
  else if nanos % 1000 = 0 then "." ++ padded 6 (nanos / 1000)
  else "." ++ padded 9 nanos

def text (moment : Moment) : String :=
  let seconds := moment / 1000000000
  let (year, month, day) := date (seconds / 86400)
  let time := seconds % 86400
  s!"{padded 4 year}-{padded 2 month}-{padded 2 day}T"
    ++ s!"{padded 2 (time / 3600)}:{padded 2 (time / 60 % 60)}:{padded 2 (time % 60)}"
    ++ s!"{fraction (moment % 1000000000)}Z"

/-- Whole milliseconds from one moment to another. -/
def millisBetween (start stop : Moment) : Nat := (stop - start) / 1000000

end Conference.Moment
