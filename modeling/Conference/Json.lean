import Conference.Decimal.Numeral

/-! JSON values. Numbers keep their written form, since reading an integer depends on it. A string
whose escapes leave half of a surrogate pair alone is well formed but names no text. -/
namespace Conference

/-- A JSON value. `none` as a text is that of a string with an unpaired surrogate. -/
inductive Json where
  | null
  | bool (value : Bool)
  | number (numeral : Numeral)
  | string (text : Option (List Char))
  | array (items : List Json)
  | object (members : List (Option (List Char) × Json))
  deriving Inhabited

namespace Json

/-- A string that holds this text. -/
def ofText (text : String) : Json := .string (some text.toList)

def ofNat (n : Nat) : Json := .number (Numeral.ofNat n)

/-- The number nearest in writing to a float; what is no number becomes null. -/
def ofFloat (x : Float) : Json :=
  match Numeral.ofFloat? x with
  | none => .null
  | some numeral => .number numeral

/-- An object with these members, in this order. -/
def ofMembers (members : List (String × Json)) : Json :=
  .object (members.map fun (key, value) => (some key.toList, value))

end Json

end Conference
