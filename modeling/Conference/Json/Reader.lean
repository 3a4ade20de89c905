import Conference.Json
import Conference.Json.Quoted

/-! Reading JSON. Blanks may stand around every token, a comma stands between two items and
nowhere else, and nothing but blanks may follow the value. -/
namespace Conference

/-- The four blanks of JSON. -/
def isBlank (c : Char) : Bool := c == ' ' || c == '\t' || c == '\n' || c == '\r'

def skipBlanks (cs : List Char) : List Char := cs.dropWhile isBlank

namespace Numeral

/-- The leading digits and what follows them. -/
def spanDigits : List Char → List Digit × List Char
  | [] => ([], [])
  | c :: rest =>
    match Digit.ofChar? c with
    | none => ([], c :: rest)
    | some digit =>
      let (digits, rest) := spanDigits rest
      (digit :: digits, rest)

/-- The whole part: one digit, or several of which the first is not zero. -/
def readWhole? (cs : List Char) : Option (List Digit × List Char) :=
  match spanDigits cs with
  | ([], _) => none
  | (0 :: _ :: _, _) => none
  | (digits, rest) => some (digits, rest)

/-- The fraction, if there is a point: at least one digit. -/
def readFraction? : List Char → Option (List Digit × List Char)
  | '.' :: rest =>
    match spanDigits rest with
    | ([], _) => none
    | (digits, rest) => some (digits, rest)
  | cs => some ([], cs)

/-- The exponent's digits behind its sign: at least one. -/
def readExponentDigits? (sign : ExponentSign) (cs : List Char) :
    Option (Option (ExponentSign × List Digit) × List Char) :=
  match spanDigits cs with
  | ([], _) => none
  | (digits, rest) => some (some (sign, digits), rest)

/-- The exponent, if there is one. -/
def readExponent? : List Char → Option (Option (ExponentSign × List Digit) × List Char)
  | 'e' :: '+' :: rest => readExponentDigits? .plus rest
  | 'e' :: '-' :: rest => readExponentDigits? .minus rest
  | 'e' :: rest => readExponentDigits? .bare rest
  | 'E' :: '+' :: rest => readExponentDigits? .plus rest
  | 'E' :: '-' :: rest => readExponentDigits? .minus rest
  | 'E' :: rest => readExponentDigits? .bare rest
  | cs => some (none, cs)

/-- A numeral without its sign. -/
def readMagnitude? (negative : Bool) (cs : List Char) : Option (Numeral × List Char) := do
  let (whole, cs) ← readWhole? cs
  let (fraction, cs) ← readFraction? cs
  let (exponent, cs) ← readExponent? cs
  return (⟨negative, whole, fraction, exponent⟩, cs)

/-- A numeral and what follows it. -/
def read? : List Char → Option (Numeral × List Char)
  | '-' :: rest => readMagnitude? true rest
  | cs => readMagnitude? false cs

end Numeral

namespace Json

/-- What follows `word` at the head of the text. -/
def skipWord? : List Char → List Char → Option (List Char)
  | [], cs => some cs
  | w :: word, c :: cs => if w = c then skipWord? word cs else none
  | _ :: _, [] => none

mutual

/-- A value at the head of the text and what follows it. -/
def readValue? : Nat → List Char → Option (Json × List Char)
  | 0, _ => none
  | steps + 1, cs =>
    match skipBlanks cs with
    | [] => none
    | '"' :: rest => (Quoted.read? rest).map fun (text, rest) => (.string text, rest)
    | '[' :: rest =>
      match skipBlanks rest with
      | ']' :: rest => some (.array [], rest)
      | _ => (readItems? steps rest).map fun (items, rest) => (.array items, rest)
    | '{' :: rest =>
      match skipBlanks rest with
      | '}' :: rest => some (.object [], rest)
      | _ => (readMembers? steps rest).map fun (members, rest) => (.object members, rest)
    | 'n' :: rest => (skipWord? ['u', 'l', 'l'] rest).map fun rest => (.null, rest)
    | 't' :: rest => (skipWord? ['r', 'u', 'e'] rest).map fun rest => (.bool true, rest)
    | 'f' :: rest => (skipWord? ['a', 'l', 's', 'e'] rest).map fun rest => (.bool false, rest)
    | cs => (Numeral.read? cs).map fun (numeral, rest) => (.number numeral, rest)

/-- The items of an array, at least one, up to its closing bracket. -/
def readItems? : Nat → List Char → Option (List Json × List Char)
  | 0, _ => none
  | steps + 1, cs => do
    let (item, rest) ← readValue? steps cs
    match skipBlanks rest with
    | ']' :: rest => return ([item], rest)
    | ',' :: rest =>
      let (items, rest) ← readItems? steps rest
      return (item :: items, rest)
    | _ => none

/-- The members of an object, at least one, up to its closing brace. -/
def readMembers? : Nat → List Char → Option (List (Option (List Char) × Json) × List Char)
  | 0, _ => none
  | steps + 1, cs =>
    match skipBlanks cs with
    | '"' :: rest => do
      let (key, rest) ← Quoted.read? rest
      match skipBlanks rest with
      | ':' :: rest =>
        let (value, rest) ← readValue? steps rest
        match skipBlanks rest with
        | '}' :: rest => return ([(key, value)], rest)
        | ',' :: rest =>
          let (members, rest) ← readMembers? steps rest
          return ((key, value) :: members, rest)
        | _ => none
      | _ => none
    | _ => none

end

/-- The value that a text holds. Each step consumes a character or starts one of at most two
readings of the same character, which bounds the steps. -/
def read? (cs : List Char) : Option Json :=
  match readValue? (2 * cs.length + 1) cs with
  | some (value, rest) => if (skipBlanks rest).isEmpty then some value else none
  | none => none

/-- The value that a text holds. -/
def ofString? (text : String) : Option Json := read? text.toList

end Json

end Conference
