import Conference.Json
import Conference.Json.Quoted

/-! Writing JSON, either without blanks or with one item on a line and two blanks for each level. -/
namespace Conference.Json

/-- A string as it is written; one that names no text is written empty. -/
def writeString (text : Option (List Char)) : List Char := Quoted.write (text.getD [])

/-- A value that holds no other. -/
def writeScalar : Json → List Char
  | .null => "null".toList
  | .bool true => "true".toList
  | .bool false => "false".toList
  | .number numeral => numeral.text
  | .string text => writeString text
  | .array _ => ['[', ']']
  | .object _ => ['{', '}']

mutual

/-- A value without blanks. -/
def compact : Json → List Char
  | .array items => '[' :: (compactItems items ++ [']'])
  | .object members => '{' :: (compactMembers members ++ ['}'])
  | scalar => writeScalar scalar

def compactItems : List Json → List Char
  | [] => []
  | [item] => compact item
  | item :: rest => compact item ++ ',' :: compactItems rest

def compactMembers : List (Option (List Char) × Json) → List Char
  | [] => []
  | [(key, value)] => writeString key ++ ':' :: compact value
  | (key, value) :: rest => writeString key ++ ':' :: (compact value ++ ',' :: compactMembers rest)

end

/-- A new line at a level. -/
def newLine (level : Nat) : List Char := '\n' :: List.replicate (2 * level) ' '

mutual

/-- A value with its items on lines of their own, starting at a level. -/
def pretty (level : Nat) : Json → List Char
  | .array (item :: items) =>
    '[' :: (prettyItems (level + 1) (item :: items) ++ newLine level ++ [']'])
  | .object (member :: members) =>
    '{' :: (prettyMembers (level + 1) (member :: members) ++ newLine level ++ ['}'])
  | scalar => writeScalar scalar

def prettyItems (level : Nat) : List Json → List Char
  | [] => []
  | [item] => newLine level ++ pretty level item
  | item :: rest => newLine level ++ pretty level item ++ ',' :: prettyItems level rest

def prettyMembers (level : Nat) : List (Option (List Char) × Json) → List Char
  | [] => []
  | [(key, value)] => newLine level ++ writeString key ++ ':' :: ' ' :: pretty level value
  | (key, value) :: rest =>
    newLine level ++ writeString key ++ ':' :: ' ' :: (pretty level value
      ++ ',' :: prettyMembers level rest)

end

end Conference.Json
