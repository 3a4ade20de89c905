import Conference.KeyAgreement.Texts

/-! Texts with places to fill. Between its places a text falls into segments; filled, it has the
argument between the same segments. A place begins with a character that occurs nowhere else in it,
so no place begins within another, and a text can be divided in one way only. -/
namespace Conference.FilledTexts

/-- What marks a place. -/
def place : List Char := ['{', '0', '}']

/-- What a text has before, between and after its places. -/
structure Segments (template : List Char) (segments : List (List Char)) : Prop where
  nonempty : segments ≠ []
  bare : ∀ segment ∈ segments, ¬place <:+: segment
  joined : place.intercalate segments = template

/-- The text has the argument where the template has its places. -/
def Filled (template argument text : String) : Prop :=
  ∃ segments, Segments template.toList segments ∧
    text.toList = argument.toList.intercalate segments

variable {argument template segment rest : List Char} {segments : List (List Char)}

theorem fill_place : fillList argument (place ++ rest) = argument ++ fillList argument rest := rfl

/-- A character that no place begins with stays. -/
theorem fill_other (other : ¬place <+: c :: rest) :
    fillList argument (c :: rest) = c :: fillList argument rest := by
  rw [fillList]
  rintro later rfl rfl
  exact other ⟨later, rfl⟩

/-- A segment ends where the next place begins, and not within one. -/
theorem bare_cons (bare : ¬place <:+: c :: segment) : ¬place <+: c :: (segment ++ place ++ rest) := by
  intro begins
  match segment with
  | [] => simp [place] at begins
  | [_] => simp [place] at begins
  | second :: third :: later =>
    obtain ⟨rfl, rfl, rfl⟩ : '{' = c ∧ '0' = second ∧ '}' = third := by
      simpa [place] using begins
    exact bare ⟨[], later, rfl⟩

theorem fill_bare (bare : ¬place <:+: segment) : fillList argument segment = segment := by
  induction segment with
  | nil => rfl
  | cons c segment ih =>
    rw [List.infix_cons_iff, not_or] at bare
    rw [fill_other bare.1, ih bare.2]

/-- A segment stays, and the place after it is filled. -/
theorem fill_segment (bare : ¬place <:+: segment) :
    fillList argument (segment ++ place ++ rest) = segment ++ argument ++ fillList argument rest := by
  induction segment with
  | nil => exact fill_place
  | cons c segment ih =>
    have rest_bare : ¬place <:+: segment := fun within => bare (List.infix_cons within)
    change fillList argument (c :: (segment ++ place ++ rest)) = _
    rw [fill_other (bare_cons bare), ih rest_bare]
    rfl

/-- However a text is divided, the argument stands between the segments once it is filled. -/
theorem fill_segments (divided : Segments template segments) :
    fillList argument template = argument.intercalate segments := by
  obtain ⟨nonempty, bare, rfl⟩ := divided
  induction segments with
  | nil => exact absurd rfl nonempty
  | cons first others ih =>
    have here : ¬place <:+: first := bare first List.mem_cons_self
    cases others with
    | nil => simpa using fill_bare here
    | cons second later =>
      rw [List.intercalate_cons_cons, List.intercalate_cons_cons, fill_segment here,
        ih nofun fun segment member => bare segment (List.mem_cons_of_mem _ member)]

theorem first_begins : segment <+: place.intercalate (segment :: segments) := by
  cases segments <;> simp

/-- Every text can be divided. -/
theorem segments_exist (template : List Char) : ∃ segments, Segments template segments := by
  induction template using fillList.induct with
  | case1 rest ih =>
    obtain ⟨_ | ⟨first, others⟩, nonempty, bare, rfl⟩ := ih
    · exact absurd rfl nonempty
    · refine ⟨[] :: first :: others, nofun, ?_, by simp [place]⟩
      rintro segment (_ | ⟨_, member⟩)
      · simp [place]
      · exact bare segment member
  | case2 c rest other ih =>
    obtain ⟨_ | ⟨first, others⟩, nonempty, bare, rfl⟩ := ih
    · exact absurd rfl nonempty
    · refine ⟨(c :: first) :: others, nofun, ?_, by cases others <;> simp⟩
      rintro segment (_ | ⟨_, member⟩)
      · rw [List.infix_cons_iff, not_or]
        refine ⟨?_, bare first List.mem_cons_self⟩
        rintro ⟨later, begins⟩
        obtain ⟨rfl, rfl⟩ := List.cons.inj begins
        obtain ⟨tail, joined⟩ : _ <+: place.intercalate (_ :: others) := first_begins
        exact other (later ++ tail) rfl joined.symm
      · exact bare segment (List.mem_cons_of_mem _ member)
  | case3 => exact ⟨[[]], nofun, by simp [place], by simp⟩

/-- Two texts that agree have their first segment and all after its place in common. -/
theorem segment_ends (bare : ¬place <:+: segment) (otherBare : ¬place <:+: other)
    (same : segment ++ place ++ rest = other ++ place ++ otherRest) :
    segment = other ∧ rest = otherRest := by
  induction segment generalizing other with
  | nil =>
    cases other with
    | nil => exact ⟨rfl, List.append_cancel_left same⟩
    | cons c other => exact absurd ⟨rest, same⟩ (bare_cons otherBare)
  | cons c segment ih =>
    cases other with
    | nil => exact absurd ⟨otherRest, same.symm⟩ (bare_cons bare)
    | cons d other =>
      obtain ⟨rfl, later⟩ := List.cons.inj same
      obtain ⟨rfl, ends⟩ := ih (fun within => bare (List.infix_cons within))
        (fun within => otherBare (List.infix_cons within)) later
      exact ⟨rfl, ends⟩

/-- There is only one way to divide a text. -/
theorem segments_unique (divided : Segments template segments)
    (alsoDivided : Segments template others) : segments = others := by
  obtain ⟨nonempty, bare, rfl⟩ := divided
  obtain ⟨otherNonempty, otherBare, same⟩ := alsoDivided
  induction segments generalizing others with
  | nil => exact absurd rfl nonempty
  | cons first later ih =>
    cases others with
    | nil => exact absurd rfl otherNonempty
    | cons other otherLater =>
      have here : ¬place <:+: first := bare first List.mem_cons_self
      have there : ¬place <:+: other := otherBare other List.mem_cons_self
      match later, otherLater with
      | [], [] => simpa using same.symm
      | [], second :: rest =>
        rw [List.intercalate_cons_cons, List.intercalate_singleton] at same
        exact absurd ⟨other, _, same⟩ here
      | second :: rest, [] =>
        rw [List.intercalate_cons_cons, List.intercalate_singleton] at same
        exact absurd ⟨first, _, same.symm⟩ there
      | second :: rest, otherSecond :: otherRest =>
        rw [List.intercalate_cons_cons, List.intercalate_cons_cons] at same
        obtain ⟨rfl, ends⟩ := segment_ends there here same
        have alike : second :: rest = otherSecond :: otherRest :=
          ih nofun (fun segment member => bare segment (List.mem_cons_of_mem _ member)) nofun
            (fun segment member => otherBare segment (List.mem_cons_of_mem _ member)) ends
        rw [alike]

/-- Filling a text does so in each of its places, and nowhere else. -/
theorem filled_iff (template argument text : String) :
    Filled template argument text ↔ text = fill template argument := by
  constructor
  · rintro ⟨segments, divided, filled⟩
    rw [fill, fill_segments divided, ← filled, String.ofList_toList]
  · rintro rfl
    obtain ⟨segments, divided⟩ := segments_exist template.toList
    exact ⟨segments, divided, by rw [fill, String.toList_ofList, fill_segments divided]⟩

/-! ## Where the places are -/

theorem intercalate_append {left right : List (List Char)} (someLeft : left ≠ [])
    (someRight : right ≠ []) : place.intercalate (left ++ right) =
      place.intercalate left ++ place ++ place.intercalate right := by
  induction left with
  | nil => exact absurd rfl someLeft
  | cons first later ih =>
    cases later with
    | nil =>
      obtain ⟨second, rest, rfl⟩ := List.exists_cons_of_ne_nil someRight
      simp [List.intercalate_cons_cons]
    | cons second later =>
      rw [List.cons_append, List.cons_append, List.intercalate_cons_cons,
        List.intercalate_cons_cons, ← List.cons_append, ih nofun]
      simp only [List.append_assoc]

/-- What is divided on both sides of a place is divided as a whole. -/
theorem segments_append (left : Segments before segments) (right : Segments after others) :
    Segments (before ++ place ++ after) (segments ++ others) where
  nonempty := List.append_ne_nil_of_left_ne_nil left.nonempty others
  bare segment member := (List.mem_append.mp member).elim (left.bare segment) (right.bare segment)
  joined := by rw [intercalate_append left.nonempty right.nonempty, left.joined, right.joined]

/-- The places of a text are those between its segments. -/
theorem place_iff (divided : Segments template segments) (before after : List Char) :
    template = before ++ place ++ after ↔
      ∃ left right, left ≠ [] ∧ right ≠ [] ∧ segments = left ++ right ∧
        before = place.intercalate left ∧ after = place.intercalate right := by
  constructor
  · rintro rfl
    obtain ⟨left, leftDivided⟩ := segments_exist before
    obtain ⟨right, rightDivided⟩ := segments_exist after
    have whole : segments = left ++ right :=
      segments_unique divided (segments_append leftDivided rightDivided)
    exact ⟨left, right, leftDivided.nonempty, rightDivided.nonempty, whole,
      leftDivided.joined.symm, rightDivided.joined.symm⟩
  · rintro ⟨left, right, someLeft, someRight, rfl, rfl, rfl⟩
    rw [← divided.joined, intercalate_append someLeft someRight]

/-- A text falls into segments in exactly one way. Its places are those between them, and filling it
puts the argument there and changes nothing else: a text without a place stays, and so does any text
whose places are filled with what marks them. -/
theorem places_filled_once (template argument : String) :
    ∃ segments, (∀ others, Segments template.toList others ↔ others = segments) ∧
      (fill template argument).toList = argument.toList.intercalate segments ∧
      (∀ before after, template.toList = before ++ place ++ after ↔
        ∃ left right, left ≠ [] ∧ right ≠ [] ∧ segments = left ++ right ∧
          before = place.intercalate left ∧ after = place.intercalate right) ∧
      (¬place <:+: template.toList → fill template argument = template) ∧
      fill template "\x7b0\x7d" = template := by
  obtain ⟨segments, divided⟩ := segments_exist template.toList
  refine ⟨segments, fun others => ⟨fun also => segments_unique also divided, ?_⟩, ?_,
    place_iff divided, ?_, ?_⟩
  · rintro rfl
    exact divided
  · rw [fill, String.toList_ofList, fill_segments divided]
  · intro bare
    rw [fill, fill_bare bare, String.ofList_toList]
  · have mark : "\x7b0\x7d".toList = place := rfl
    rw [fill, mark, fill_segments divided, divided.joined, String.ofList_toList]

/-- In the first text only parts of a place occur, and the argument has a place of its own. The second
has two places between such parts, and with these the argument forms another, which stays. -/
theorem near_places_stay :
    (¬place <:+: "\x7b0 \x7b\x7b0 0\x7d".toList ∧
      fill "\x7b0 \x7b\x7b0 0\x7d" "\x7b0\x7d!" = "\x7b0 \x7b\x7b0 0\x7d") ∧
    Segments "\x7b\x7b0\x7d, \x7b0\x7d\x7b0".toList ["\x7b".toList, ", ".toList, "\x7b0".toList] ∧
      fill "\x7b\x7b0\x7d, \x7b0\x7d\x7b0" "0\x7d" = "\x7b0\x7d, 0\x7d\x7b0" := by
  constructor
  · have bare : ¬place <:+: "\x7b0 \x7b\x7b0 0\x7d".toList := by
      simp [List.infix_cons_iff, place]
    obtain ⟨-, -, -, -, unchanged, -⟩ :=
      places_filled_once "\x7b0 \x7b\x7b0 0\x7d" "\x7b0\x7d!"
    exact ⟨bare, unchanged bare⟩
  · have divided : Segments "\x7b\x7b0\x7d, \x7b0\x7d\x7b0".toList
        ["\x7b".toList, ", ".toList, "\x7b0".toList] :=
      ⟨nofun, by simp [List.infix_cons_iff, place], rfl⟩
    obtain ⟨segments, only, filled, -⟩ :=
      places_filled_once "\x7b\x7b0\x7d, \x7b0\x7d\x7b0" "0\x7d"
    cases (only _).mp divided
    exact ⟨divided, String.toList_inj.mp filled⟩

end Conference.FilledTexts
