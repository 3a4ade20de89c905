import Conference.Json.Record

/-! Fields of records. An object says something of a field, or it does not, whatever the order of
its members and whatever else it holds; a field that is not given takes its standard value, or fails
where it has none. -/
namespace Conference.RecordFields
open Json

variable {α : Type} {members : List (String × Json)} {name : String}

/-- What an object says of a field: nothing, or one value, which stands for what is given. -/
def Says (stands : Json → α → Prop) (members : List (String × Json)) (name : String) :
    Option α → Prop
  | none => ∀ member ∈ members, member.1 ≠ name
  | some given => ∃ value, members.filter (·.1 == name) = [(name, value)] ∧ stands value given

/-- The members of an object by the characters of their names. -/
def spelled (members : List (String × Json)) : List (List Char × Json) :=
  members.map fun (name, value) => (name.toList, value)

private theorem keys_spelled (members : List (String × Json)) :
    keys? (members.map fun (name, value) => (some name.toList, value)) = some (spelled members) := by
  induction members with
  | nil => rfl
  | cons member members ih =>
    simp only [List.map_cons, keys?, ih, Option.map_some]
    rfl

/-- The fields of an object are looked up one by one. -/
theorem fields_of_members (names : List String) (members : List (String × Json)) :
    fields? names (.ofMembers members) =
      names.mapM fun name => member? (spelled members) name.toList := by
  simp only [fields?, ofMembers, keys_spelled, Option.bind_eq_bind, Option.bind_some]

private theorem filter_spelled (members : List (String × Json)) (name : String) :
    (spelled members).filter (·.1 == name.toList) = spelled (members.filter (·.1 == name)) := by
  rw [spelled, List.filter_map, spelled]
  congr 1
  refine List.filter_congr fun member _ => ?_
  rw [Function.comp_apply, Bool.eq_iff_iff, beq_iff_eq, beq_iff_eq]
  exact String.toList_inj

/-- A field that an object says something of is found, and only such a field. -/
theorem member_said {stands : Json → α → Prop} (stated : Says stands members name given) :
    ∃ value?, member? (spelled members) name.toList = some value? ∧
      Option.Rel stands value? given := by
  cases given with
  | none =>
    have nothing : members.filter (·.1 == name) = [] := by
      rw [List.filter_eq_nil_iff]
      intro member within
      simpa using stated member within
    refine ⟨none, ?_, .none⟩
    rw [member?, filter_spelled, nothing]
    rfl
  | some given =>
    obtain ⟨value, once, meant⟩ := stated
    refine ⟨some value, ?_, .some meant⟩
    rw [member?, filter_spelled, once]
    rfl

/-- A field is read as given, or else takes its standard value. -/
theorem optional_given {stands : Json → α → Prop} {read : Json → Option α}
    (reads : ∀ value given, stands value given → read value = some given)
    (found : Option.Rel stands value? given) (standard : α) :
    optional standard read value? = some (given.getD standard) := by
  cases found with
  | none => rfl
  | some meant => exact reads _ _ meant

/-- A field without a standard value is read as given, or else fails. -/
theorem required_given {stands : Json → α → Prop} {read : Json → Option α}
    (reads : ∀ value given, stands value given → read value = some given)
    (found : Option.Rel stands value? given) : required read value? = given := by
  cases found with
  | none => rfl
  | some meant => exact reads _ _ meant

theorem said_nothing {stands : Json → α → Prop} (absent : name ∉ members.map Prod.fst) :
    Says stands members name none :=
  fun member within same => absent (List.mem_map.mpr ⟨member, within, same⟩)

/-- An object whose members have different names says of each of them what it holds. -/
theorem said_of_distinct {stands : Json → α → Prop} (distinct : (members.map Prod.fst).Nodup)
    (member : (name, value) ∈ members) (meant : stands value given) :
    Says stands members name (some given) := by
  refine ⟨value, ?_, meant⟩
  induction members with
  | nil => cases member
  | cons first rest ih =>
    obtain ⟨absent, restDistinct⟩ := List.nodup_cons.mp distinct
    rcases List.mem_cons.mp member with rfl | later
    · have others : rest.filter (·.1 == name) = [] := by
        rw [List.filter_eq_nil_iff]
        intro other within
        have apart : other.1 ≠ name := fun same =>
          absent (List.mem_map.mpr ⟨other, within, same⟩)
        simpa using apart
      rw [List.filter_cons_of_pos (by simp), others]
    · have apart : first.1 ≠ name := fun same =>
        absent (List.mem_map.mpr ⟨(name, value), later, same.symm⟩)
      rw [List.filter_cons_of_neg (by simpa using apart)]
      exact ih restDistinct later

end Conference.RecordFields
