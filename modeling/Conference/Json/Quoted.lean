/-! Text between quotes. A quote, a backslash and the control characters below the blank are
written as escapes, everything else as itself; reading also accepts the other escapes of JSON. -/
namespace Conference.Quoted

/-! ## Writing -/

def hexDigit (n : Nat) : Char :=
  if n < 10 then Char.ofNat (48 + n) else Char.ofNat (87 + n)

/-- One character as it is written. -/
def escape (c : Char) : List Char :=
  if c = '"' then ['\\', '"']
  else if c = '\\' then ['\\', '\\']
  else if c.toNat = 8 then ['\\', 'b']
  else if c.toNat = 12 then ['\\', 'f']
  else if c = '\n' then ['\\', 'n']
  else if c = '\r' then ['\\', 'r']
  else if c = '\t' then ['\\', 't']
  else if c.toNat < 32 then
    ['\\', 'u', '0', '0', hexDigit (c.toNat / 16), hexDigit (c.toNat % 16)]
  else [c]

/-- Text in quotes. -/
def write (text : List Char) : List Char := '"' :: (text.flatMap escape ++ ['"'])

/-! ## Reading -/

/-- What one written character stands for. -/
inductive Piece where
  | char (c : Char)
  /-- A 16-bit unit given by number. -/
  | unit (value : Nat)
  deriving DecidableEq, Repr

def hexValue? (c : Char) : Option Nat :=
  if 48 ≤ c.toNat ∧ c.toNat < 58 then some (c.toNat - 48)
  else if 97 ≤ c.toNat ∧ c.toNat < 103 then some (c.toNat - 87)
  else if 65 ≤ c.toNat ∧ c.toNat < 71 then some (c.toNat - 55)
  else none

/-- The number that four hexadecimal digits spell. -/
def unit? (a b c d : Char) : Option Nat := do
  let a ← hexValue? a
  let b ← hexValue? b
  let c ← hexValue? c
  let d ← hexValue? d
  return ((a * 16 + b) * 16 + c) * 16 + d

/-- The character of a one-letter escape. -/
def escaped? (c : Char) : Option Char :=
  match c with
  | '"' => some '"'
  | '\\' => some '\\'
  | '/' => some '/'
  | 'b' => some (Char.ofNat 8)
  | 'f' => some (Char.ofNat 12)
  | 'n' => some '\n'
  | 'r' => some '\r'
  | 't' => some '\t'
  | _ => none

/-- Puts a piece, if there is one, in front of what was read after it. -/
def withPiece (piece : Option Piece) (read : Option (List Piece × List Char)) :
    Option (List Piece × List Char) := do
  let piece ← piece
  let (pieces, rest) ← read
  return (piece :: pieces, rest)

/-- Reads up to the closing quote; gives the pieces and what follows. A control character has to be
escaped. -/
def pieces? : List Char → Option (List Piece × List Char)
  | [] => none
  | '"' :: rest => some ([], rest)
  | '\\' :: 'u' :: a :: b :: c :: d :: rest => withPiece ((unit? a b c d).map .unit) (pieces? rest)
  | '\\' :: c :: rest => withPiece ((escaped? c).map .char) (pieces? rest)
  | c :: rest => if c.toNat < 32 ∨ c = '\\' then none else withPiece (some (.char c)) (pieces? rest)

def isHigh (unit : Nat) : Bool := 0xD800 ≤ unit && unit < 0xDC00

def isLow (unit : Nat) : Bool := 0xDC00 ≤ unit && unit < 0xE000

/-- The text of pieces; units above the basic plane come in pairs, and one alone names none. -/
def text? : List Piece → Option (List Char)
  | [] => some []
  | .char c :: rest => (text? rest).map (c :: ·)
  | [.unit value] => if isHigh value || isLow value then none else some [Char.ofNat value]
  | .unit value :: .unit next :: rest =>
    if isHigh value then
      if isLow next then
        (text? rest).map (Char.ofNat (0x10000 + (value - 0xD800) * 0x400 + (next - 0xDC00)) :: ·)
      else none
    else if isLow value then none
    else (text? (.unit next :: rest)).map (Char.ofNat value :: ·)
  | .unit value :: .char c :: rest =>
    if isHigh value || isLow value then none
    else (text? rest).map fun text => Char.ofNat value :: c :: text

/-- Reads text after its opening quote, with what follows the closing one. -/
def read? (cs : List Char) : Option (Option (List Char) × List Char) :=
  (pieces? cs).map fun (pieces, rest) => (text? pieces, rest)

end Conference.Quoted
