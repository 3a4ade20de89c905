import Conference.Json.Printer
import Conference.Proofs.NumeralRoundTrip

/-! JSON survives as text. A value whose numbers are numerals and whose strings name texts is read
back from its pretty form: every escape stands for its character, blanks are skipped, and the commas
and brackets say where each item ends. -/
namespace Conference.JsonRoundTrip
open Json NumeralRoundTrip

/-! ## Strings -/

section Strings
open Quoted

/-- How a character is read back: a control character without an escape of its own as a unit. -/
def pieceOf (c : Char) : Piece :=
  if c.toNat < 32 ∧ c.toNat ∉ [8, 9, 10, 12, 13] then .unit c.toNat else .char c

private theorem hex_value_digit : ∀ n < 16, hexValue? (hexDigit n) = some n := by decide

private theorem unit_escaped (small : n < 32) :
    unit? '0' '0' (hexDigit (n / 16)) (hexDigit (n % 16)) = some n := by
  have zero : hexValue? '0' = some 0 := rfl
  have high := hex_value_digit (n / 16) (by omega)
  have low := hex_value_digit (n % 16) (by omega)
  simp only [unit?, zero, high, low, Option.bind_eq_bind, Option.bind_some]
  exact congrArg some (by omega)

private theorem eq_of_number (number : c.toNat = n) : c = Char.ofNat n := by
  rw [← number, Char.ofNat_toNat]

/-- A character that needs no escape is read as itself. -/
private theorem pieces_plain (rest : List Char) (quote : c ≠ '"') (slash : c ≠ '\\')
    (plain : ¬c.toNat < 32) : pieces? (c :: rest) = withPiece (some (.char c)) (pieces? rest) := by
  rw [pieces?.eq_def]
  split
  · rename_i none
    cases none
  · rename_i same
    exact absurd (List.cons.inj same).1 quote
  · rename_i same
    exact absurd (List.cons.inj same).1 slash
  · rename_i same
    exact absurd (List.cons.inj same).1 slash
  · rename_i same
    cases same
    rw [if_neg (by simp [plain, slash])]

/-- Every character is read back from its escape. -/
private theorem pieces_escape (c : Char) (rest : List Char) :
    pieces? (escape c ++ rest) = withPiece (some (pieceOf c)) (pieces? rest) := by
  unfold escape
  split
  case isTrue quote => subst quote; rfl
  case isFalse quote =>
  split
  case isTrue slash => subst slash; rfl
  case isFalse slash =>
  split
  case isTrue number => cases eq_of_number number; rfl
  case isFalse backspace =>
  split
  case isTrue number => cases eq_of_number number; rfl
  case isFalse feed =>
  split
  case isTrue line => subst line; rfl
  case isFalse line =>
  split
  case isTrue back => subst back; rfl
  case isFalse back =>
  split
  case isTrue tab => subst tab; rfl
  case isFalse tab =>
  have lineNumber : c.toNat ≠ 10 := fun number => line (eq_of_number number)
  have backNumber : c.toNat ≠ 13 := fun number => back (eq_of_number number)
  have tabNumber : c.toNat ≠ 9 := fun number => tab (eq_of_number number)
  split
  case isTrue control =>
    have piece : pieceOf c = .unit c.toNat := by
      simp [pieceOf, control, backspace, feed, lineNumber, backNumber, tabNumber]
    simp only [List.cons_append, List.nil_append, pieces?, unit_escaped control, Option.map_some,
      piece]
  case isFalse plain =>
    have piece : pieceOf c = .char c := by simp [pieceOf, plain]
    rw [piece]
    exact pieces_plain rest quote slash plain

private theorem pieces_text (text rest : List Char) :
    pieces? (text.flatMap escape ++ '"' :: rest) = some (text.map pieceOf, rest) := by
  induction text with
  | nil => rfl
  | cons c text ih =>
    rw [List.flatMap_cons, List.append_assoc, pieces_escape, ih]
    rfl

/-- A unit outside the surrogates is a character, whatever stands next to it. -/
private theorem text_unit (basic : value < 0xD800) (pieces : List Piece) :
    Quoted.text? (.unit value :: pieces) = (Quoted.text? pieces).map (Char.ofNat value :: ·) := by
  have single : (isHigh value || isLow value) = false := by
    simp [isHigh, isLow]
    omega
  have alone := Bool.or_eq_false_iff.mp single
  cases pieces with
  | nil => simp [Quoted.text?, alone]
  | cons next pieces =>
    cases next with
    | char c => simp [Quoted.text?, alone, Function.comp_def]
    | unit next => simp [Quoted.text?, alone]

private theorem text_pieces (text : List Char) : Quoted.text? (text.map pieceOf) = some text := by
  induction text with
  | nil => rfl
  | cons c text ih =>
    rw [List.map_cons, pieceOf]
    split
    · rename_i control
      rw [text_unit (by omega), ih, Char.ofNat_toNat]
      rfl
    · simp [Quoted.text?, ih]

/-- A quoted text is read back, up to its closing quote. -/
theorem read_quoted (text rest : List Char) :
    Quoted.read? (text.flatMap escape ++ '"' :: rest) = some (some text, rest) := by
  simp only [Quoted.read?, pieces_text, Option.map_some, text_pieces]

end Strings

/-! ## Values -/

/-- A value that has a text of its own. -/
inductive Written : Json → Prop where
  | null : Written .null
  | bool (value : Bool) : Written (.bool value)
  | number (numeral : NumeralRoundTrip.Written figure) : Written (.number figure)
  | string (text : List Char) : Written (.string (some text))
  | array (items : ∀ item ∈ values, Written item) : Written (.array values)
  | object (keys : ∀ member ∈ members, member.1.isSome)
      (values : ∀ member ∈ members, Written member.2) : Written (.object members)

variable {value : Json} {rest cs : List Char}

theorem skip_new_line (level : Nat) (cs : List Char) :
    skipBlanks (newLine level ++ cs) = skipBlanks cs := by
  have skipped (count : Nat) : skipBlanks (List.replicate count ' ' ++ cs) = skipBlanks cs := by
    induction count with
    | zero => rfl
    | succ count ih =>
      rw [List.replicate_succ, List.cons_append, skipBlanks, List.dropWhile_cons_of_pos rfl]
      exact ih
  exact skipped (2 * level)

private theorem skip_sound (sound : isBlank c = false) (cs : List Char) :
    skipBlanks (c :: cs) = c :: cs :=
  List.dropWhile_cons_of_neg (by simp [sound])

/-- No other value begins like a number. -/
private theorem number_head (first : c = '-' ∨ ∃ digit : Digit, c = digit.toChar) :
    isBlank c = false ∧ c ∉ ['"', '[', ']', '{', 'n', 't', 'f'] := by
  rcases first with rfl | ⟨digit, rfl⟩
  · decide
  · revert digit
    decide

/-- A written value begins with neither a blank nor a closing bracket. -/
private theorem pretty_head (written : Written value) (level : Nat) :
    ∃ c more, pretty level value = c :: more ∧ isBlank c = false ∧ c ≠ ']' := by
  cases written with
  | null => exact ⟨_, _, rfl, by decide⟩
  | bool value => cases value <;> exact ⟨_, _, rfl, by decide⟩
  | number written =>
    obtain ⟨c, more, text, first⟩ := text_head written
    obtain ⟨sound, other⟩ := number_head first
    refine ⟨c, more, text, sound, ?_⟩
    rintro rfl
    exact other (by decide)
  | string text => exact ⟨_, _, rfl, by decide⟩
  | @array values items => cases values <;> exact ⟨_, _, rfl, by decide⟩
  | @object members keys values => cases members <;> exact ⟨_, _, rfl, by decide⟩

/-- Reading a value depends on what follows the blanks. -/
private theorem read_value_skips (same : skipBlanks cs = skipBlanks ds) (steps : Nat) :
    readValue? steps cs = readValue? steps ds := by
  cases steps with
  | zero => rfl
  | succ steps => simp only [readValue?, same]

private theorem read_number (first : c = '-' ∨ ∃ digit : Digit, c = digit.toChar) (steps : Nat)
    (cs : List Char) : readValue? (steps + 1) (c :: cs) =
      (Numeral.read? (c :: cs)).map fun (numeral, rest) => (.number numeral, rest) := by
  obtain ⟨sound, other⟩ := number_head first
  rw [readValue?, skip_sound sound]
  split
  · rename_i none
    cases none
  iterate 6
    rename_i same
    cases (List.cons.inj same).1
    exact absurd (by decide) other
  rfl

/-- What follows a value in an array or object: a comma or the closing line. -/
private theorem apart_new_line (level : Nat) (rest : List Char) : Apart (newLine level ++ rest) := by
  constructor <;> rintro _ ⟨⟩ <;> decide

private theorem apart_comma (rest : List Char) : Apart (',' :: rest) := by
  constructor <;> rintro _ ⟨⟩ <;> decide

/-- A value is read back from its pretty form at every level, where there are as many steps as the
form has characters. -/
def ReadsBack (value : Json) : Prop :=
  ∀ level rest steps, Apart rest → (pretty level value).length ≤ steps →
    readValue? steps (pretty level value ++ rest) = some (value, rest)

private theorem read_on_line (back : ReadsBack value) (apart : Apart rest)
    (long : (pretty level value).length ≤ steps) :
    readValue? steps (newLine level ++ (pretty level value ++ rest)) = some (value, rest) := by
  rw [read_value_skips (skip_new_line level _)]
  exact back level rest steps apart long

private theorem length_new_line (level : Nat) : 0 < (newLine level).length := by simp [newLine]

private theorem read_items (back : ∀ item ∈ items, ReadsBack item) (some : items ≠ [])
    (level : Nat) (rest : List Char) (long : (prettyItems (level + 1) items).length ≤ steps) :
    readItems? steps (prettyItems (level + 1) items ++ (newLine level ++ ']' :: rest)) =
      .some (items, rest) := by
  induction items generalizing steps with
  | nil => exact absurd rfl some
  | cons item items ih =>
    have line := length_new_line (level + 1)
    have itemBack := back item List.mem_cons_self
    cases steps with
    | zero => cases items <;> simp only [prettyItems, List.length_append] at long <;> omega
    | succ steps =>
      cases items with
      | nil =>
        simp only [prettyItems, List.length_append] at long
        have read := read_on_line itemBack (apart_new_line level (']' :: rest))
          (show (pretty (level + 1) item).length ≤ steps by omega)
        simp only [prettyItems, readItems?, List.append_assoc, read, Option.bind_eq_bind,
          Option.bind_some, skip_new_line, skip_sound (c := ']') rfl]
        rfl
      | cons next more =>
        simp only [prettyItems, List.length_append, List.length_cons] at long
        have later := @ih steps
          (fun one member => back one (List.mem_cons_of_mem _ member)) (List.cons_ne_nil _ _)
          (by omega)
        have read := read_on_line itemBack (apart_comma (prettyItems (level + 1) (next :: more) ++
          (newLine level ++ ']' :: rest))) (show (pretty (level + 1) item).length ≤ steps by omega)
        simp only [prettyItems, readItems?, List.append_assoc, List.cons_append, read,
          Option.bind_eq_bind, Option.bind_some, skip_sound (c := ',') rfl, later]
        rfl

/-- The members of an object are read up to the value of the first, and then on from there. -/
private theorem read_members_key (key rest : List Char) (steps level : Nat) :
    readMembers? (steps + 1) (newLine level ++ (writeString (some key) ++ ':' :: ' ' :: rest)) =
      (readValue? steps rest).bind fun (value, rest) =>
        match skipBlanks rest with
        | '}' :: rest => some ([(some key, value)], rest)
        | ',' :: rest =>
          (readMembers? steps rest).bind fun (members, rest) =>
            some ((some key, value) :: members, rest)
        | _ => none := by
  have quoted : skipBlanks (newLine level ++ (writeString (some key) ++ ':' :: ' ' :: rest)) =
      '"' :: (key.flatMap Quoted.escape ++ '"' :: ':' :: ' ' :: rest) := by
    rw [skip_new_line]
    simp only [writeString, Option.getD_some, Quoted.write, List.cons_append, List.append_assoc,
      List.nil_append]
    exact skip_sound rfl _
  have blank : readValue? steps (' ' :: rest) = readValue? steps rest :=
    read_value_skips (List.dropWhile_cons_of_pos rfl) steps
  rw [readMembers?, quoted]
  simp only [read_quoted, Option.bind_eq_bind, Option.bind_some, skip_sound (c := ':') rfl, blank]
  rfl

private theorem read_members {members : List (Option (List Char) × Json)}
    (keys : ∀ member ∈ members, member.1.isSome)
    (back : ∀ member ∈ members, ReadsBack member.2) (some : members ≠ []) (level : Nat)
    (rest : List Char) (long : (prettyMembers (level + 1) members).length ≤ steps) :
    readMembers? steps (prettyMembers (level + 1) members ++ (newLine level ++ '}' :: rest)) =
      .some (members, rest) := by
  induction members generalizing steps with
  | nil => exact absurd rfl some
  | cons member members ih =>
    obtain ⟨key?, value⟩ := member
    obtain ⟨key, rfl⟩ := Option.isSome_iff_exists.mp (keys _ List.mem_cons_self)
    have line := length_new_line (level + 1)
    have valueBack : ReadsBack value := back _ List.mem_cons_self
    cases steps with
    | zero =>
      cases members <;>
        simp only [prettyMembers, List.length_append, List.length_cons] at long <;> omega
    | succ steps =>
      cases members with
      | nil =>
        simp only [prettyMembers, List.length_append, List.length_cons] at long
        have read := valueBack (level + 1) (newLine level ++ '}' :: rest) steps
          (apart_new_line level _) (by omega)
        simp only [prettyMembers, List.append_assoc, List.cons_append, read_members_key, read,
          Option.bind_some, skip_new_line, skip_sound (c := '}') rfl]
      | cons next more =>
        simp only [prettyMembers, List.length_append, List.length_cons] at long
        have later := @ih steps
          (fun one member => keys one (List.mem_cons_of_mem _ member))
          (fun one member => back one (List.mem_cons_of_mem _ member)) (List.cons_ne_nil _ _)
          (by omega)
        have read := valueBack (level + 1) (',' :: (prettyMembers (level + 1) (next :: more) ++
          (newLine level ++ '}' :: rest))) steps (apart_comma _) (by omega)
        simp only [prettyMembers, List.append_assoc, List.cons_append, read_members_key, read,
          Option.bind_some, skip_sound (c := ',') rfl, later]

private theorem read_array (begins : skipBlanks cs = c :: more) (unclosed : c ≠ ']') (steps : Nat) :
    readValue? (steps + 1) ('[' :: cs) =
      (readItems? steps cs).map fun (items, rest) => (.array items, rest) := by
  rw [readValue?, skip_sound rfl]
  simp only [begins]
  split
  · rename_i same
    exact absurd (List.cons.inj same).1 unclosed
  · rfl

private theorem step_left (written : Written value)
    (long : (pretty level value).length ≤ steps) : ∃ fewer, steps = fewer + 1 := by
  obtain ⟨c, more, text, -⟩ := pretty_head written level
  rw [text, List.length_cons] at long
  exact ⟨steps - 1, by omega⟩

private theorem array_reads_back (items : ∀ item ∈ values, Written item)
    (back : ∀ item ∈ values, ReadsBack item) : ReadsBack (.array values) := by
  intro level rest steps _ long
  obtain ⟨fewer, rfl⟩ := step_left (.array items) long
  cases values with
  | nil => rfl
  | cons first others =>
    have form : pretty level (.array (first :: others)) ++ rest =
        '[' :: (prettyItems (level + 1) (first :: others) ++ (newLine level ++ ']' :: rest)) := by
      simp [pretty]
    have someWritten := items first List.mem_cons_self
    obtain ⟨c, more, text, sound, unclosed⟩ := pretty_head someWritten (level + 1)
    obtain ⟨tail, begins⟩ : ∃ tail, skipBlanks (prettyItems (level + 1) (first :: others) ++
        (newLine level ++ ']' :: rest)) = c :: tail := by
      cases others <;>
        simp only [prettyItems, List.append_assoc, skip_new_line, text, List.cons_append,
          skip_sound sound] <;> exact ⟨_, rfl⟩
    simp only [pretty, List.length_cons, List.length_append] at long
    rw [form, read_array begins unclosed, read_items back (List.cons_ne_nil _ _) level rest (by omega)]
    rfl

private theorem object_reads_back {members : List (Option (List Char) × Json)}
    (keys : ∀ member ∈ members, member.1.isSome) (values : ∀ member ∈ members, Written member.2)
    (back : ∀ member ∈ members, ReadsBack member.2) : ReadsBack (.object members) := by
  intro level rest steps _ long
  obtain ⟨fewer, rfl⟩ := step_left (.object keys values) long
  cases members with
  | nil => rfl
  | cons first others =>
    have form : pretty level (.object (first :: others)) ++ rest =
        '{' :: (prettyMembers (level + 1) (first :: others) ++ (newLine level ++ '}' :: rest)) := by
      simp [pretty]
    obtain ⟨key, named⟩ := Option.isSome_iff_exists.mp (keys first List.mem_cons_self)
    obtain ⟨tail, begins⟩ : ∃ tail, skipBlanks (prettyMembers (level + 1) (first :: others) ++
        (newLine level ++ '}' :: rest)) = '"' :: tail := by
      obtain ⟨_, _⟩ := first
      cases named
      cases others <;>
        simp only [prettyMembers, List.append_assoc, skip_new_line, writeString, Quoted.write,
          List.cons_append, skip_sound (c := '"') rfl] <;> exact ⟨_, rfl⟩
    simp only [pretty, List.length_cons, List.length_append] at long
    rw [form, readValue?, skip_sound rfl]
    simp only [begins, read_members keys back (List.cons_ne_nil _ _) level rest
      (show (prettyMembers (level + 1) (first :: others)).length ≤ fewer by omega)]
    rfl

/-- Every written value is read back from its pretty form. -/
theorem written_reads_back (written : Written value) : ReadsBack value := by
  induction written with
  | null =>
    intro level rest steps _ long
    obtain ⟨fewer, rfl⟩ := step_left .null long
    rfl
  | bool value =>
    intro level rest steps _ long
    obtain ⟨fewer, rfl⟩ := step_left (.bool value) long
    cases value <;> rfl
  | number numeral =>
    intro level rest steps apart long
    obtain ⟨fewer, rfl⟩ := step_left (.number numeral) long
    obtain ⟨c, more, text, first⟩ := text_head numeral
    have read := read_text numeral apart
    simp only [pretty, writeScalar]
    rw [text, List.cons_append] at read ⊢
    rw [read_number first, read]
    rfl
  | string text =>
    intro level rest steps _ long
    obtain ⟨fewer, rfl⟩ := step_left (.string text) long
    have quoted : pretty level (.string (some text)) ++ rest =
        '"' :: (text.flatMap Quoted.escape ++ '"' :: rest) := by
      simp [pretty, writeScalar, writeString, Quoted.write]
    rw [quoted, readValue?, skip_sound rfl]
    simp only [read_quoted, Option.map_some]
  | array items ih => exact array_reads_back items ih
  | object keys values ih => exact object_reads_back keys values ih

/-- A written value is what its pretty form holds, with nothing left over. -/
theorem read_pretty (written : Written value) :
    Json.ofString? (String.ofList (value.pretty 0)) = some value := by
  have read := written_reads_back written 0 [] (2 * (value.pretty 0).length + 1) apart_nil (by omega)
  rw [List.append_nil] at read
  rw [Json.ofString?, String.toList_ofList]
  simp [Json.read?, read, skipBlanks]

end Conference.JsonRoundTrip
