import Conference.Json

/-! Records in JSON. A record is written as an object; it is read from an object, in any order and
with members that it does not know, or from an array of its fields in order. A field given twice is
refused. Each field decides what it does when it is not given. -/
namespace Conference.Json

/-- The text of a string. -/
def text? : Json → Option (List Char)
  | .string text => text
  | _ => none

/-- The keys of an object's members; a key that names no text spoils them all. -/
def keys? : List (Option (List Char) × Json) → Option (List (List Char × Json))
  | [] => some []
  | (none, _) :: _ => none
  | (some key, value) :: rest => (keys? rest).map ((key, value) :: ·)

/-- The value of the member with this key; `none` where there are several. -/
def member? (members : List (List Char × Json)) (key : List Char) : Option (Option Json) :=
  match members.filter (·.1 == key) with
  | [] => some none
  | [(_, value)] => some (some value)
  | _ => none

/-- The given value of each field of a record, `none` where a field is not given. -/
def fields? (names : List String) : Json → Option (List (Option Json))
  | .object members => do
    let members ← keys? members
    names.mapM fun name => member? members name.toList
  | .array items =>
    if items.length ≤ names.length then
      some (items.map some ++ List.replicate (names.length - items.length) none)
    else none
  | _ => none

/-- A field that has to be given. -/
def required (read : Json → Option α) : Option Json → Option α
  | none => none
  | some value => read value

/-- A field that holds `standard` where it is not given. -/
def optional (standard : α) (read : Json → Option α) : Option Json → Option α
  | none => some standard
  | some value => read value

/-- An integer below `bound`. -/
def natBelow? (bound : Nat) : Json → Option Nat
  | .number numeral => numeral.toNat?.filter (· < bound)
  | _ => none

def float? : Json → Option Float
  | .number numeral => numeral.toFloat?
  | _ => none

def string? (value : Json) : Option String := value.text?.map String.ofList

/-- The name of one of several choices, as a string or as the key of a single null. -/
def choice? : Json → Option (List Char)
  | .string text => text
  | .object [(key, .null)] => key
  | _ => none

/-- The choice that goes by a name. -/
def oneOf? (choices : List (String × α)) (value : Json) : Option α :=
  (choice? value).bind fun name => (choices.find? (·.1.toList == name)).map Prod.snd

end Conference.Json
