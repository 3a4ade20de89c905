import Conference.Proofs.JsonRoundTrip
import Conference.Proofs.SettingsFields

/-! Settings files that leave fields out. What is given counts, and the rest is standard, as long as
no format is given in part: a format has no standard fields, and a file that cannot be read in one
place is not read at all. -/
namespace Conference.PartialSettings
open Json RecordFields SettingsFields

variable {text : String} {value : Json} {given : GivenSettings}

/-- What is loaded from a text that gives these settings, of whatever form and order it is. -/
theorem load_given (holds : Json.ofString? text = some value)
    (shown : GivenSettings.Shown value given) :
    Settings.load (some text.toUTF8) =
      if given.isWhole then given.completed else Settings.standard := by
  rw [load_text, Settings.ofText?, holds, Option.bind_some, settings_read shown]
  split <;> rfl

/-- Every object has a text that holds it. From each such text, what is given is loaded, and standard
values for the rest, exactly if no format is given in part, or if all that is given is standard
anyway. A format in part discards everything else. -/
theorem given_loads_iff (shown : GivenSettings.Shown value given) :
    (JsonRoundTrip.Written value → Json.ofString? (String.ofList (value.pretty 0)) = some value) ∧
    ∀ text, Json.ofString? text = some value →
      (Settings.load (some text.toUTF8) = given.completed ↔
        given.isWhole ∨ given.completed = Settings.standard) ∧
      (¬given.isWhole → Settings.load (some text.toUTF8) = Settings.standard) := by
  refine ⟨JsonRoundTrip.read_pretty, fun text holds => ?_⟩
  have loaded := load_given holds shown
  by_cases whole : given.isWhole = true
  · rw [if_pos whole] at loaded
    exact ⟨⟨fun _ => .inl whole, fun _ => loaded⟩, fun part => absurd whole part⟩
  · rw [if_neg whole] at loaded
    rw [loaded]
    refine ⟨⟨fun same => .inr same.symm, ?_⟩, fun _ => rfl⟩
    rintro (other | same)
    · exact absurd other whole
    · exact same.symm

/-! A file in another order than that of writing, with a member that no setting has. -/

def mixedText : String :=
  "\x7b\"messages\": \x7b\"generic\": \"Fehler\", \"extra\": [1, 2]\x7d,
  \"mixer\": \x7b\"base_frequency\": 440.5, \"frame_samples\": 480\x7d\x7d"

def mixedValue : Json :=
  .ofMembers [
    ("messages", .ofMembers [("generic", .ofText "Fehler"),
      ("extra", .array [.ofNat 1, .ofNat 2])]),
    ("mixer", .ofMembers [("base_frequency", .number ⟨false, Digit.ofNat 440, Digit.ofNat 5, none⟩),
      ("frame_samples", .ofNat 480)])]

def mixedGiven : GivenSettings where
  mix := some { GivenMix.nothing with frameSamples := some 480, baseFrequency := some 440.5 }
  texts := some { GivenTexts.nothing with generic := some "Fehler" }

theorem mixed_shown : GivenSettings.Shown mixedValue mixedGiven := by
  refine ⟨_, rfl, ⟨⟨_, by rfl, _, rfl, ?_⟩, ⟨_, by rfl, _, rfl, ?_⟩⟩⟩
  · constructor
    case frameSamples => exact ⟨_, by rfl, rfl, by decide⟩
    case baseFrequency => exact ⟨_, by rfl, _, rfl, by decide +kernel⟩
    all_goals exact said_nothing (by decide)
  · constructor
    case generic => exact ⟨_, by rfl, rfl⟩
    all_goals exact said_nothing (by decide)

theorem mixed_loads : Json.ofString? mixedText = some mixedValue ∧
    GivenSettings.Shown mixedValue mixedGiven ∧
    Settings.load (some mixedText.toUTF8) = mixedGiven.completed := by
  have holds : Json.ofString? mixedText = some mixedValue := by cbv
  exact ⟨holds, mixed_shown, ((given_loads_iff mixed_shown).2 _ holds).1.mpr (.inl rfl)⟩

/-! A file that gives a frame size, and of the format nothing but the size of a sample. -/

def partText : String :=
  "\x7b\"mixer\": \x7b\"frame_samples\": 480, \"format\": \x7b\"sample_size_bits\": 32\x7d\x7d\x7d"

def partValue : Json :=
  .ofMembers [("mixer", .ofMembers [("frame_samples", .ofNat 480),
    ("format", .ofMembers [("sample_size_bits", .ofNat 32)])])]

def partGiven : GivenSettings where
  mix := some { GivenMix.nothing with
    frameSamples := some 480
    format := some { GivenFormat.nothing with bits := some 32 } }
  texts := none

theorem part_shown : GivenSettings.Shown partValue partGiven := by
  refine ⟨_, rfl, ⟨⟨_, by rfl, _, rfl, ?_⟩, said_nothing (by decide)⟩⟩
  constructor
  case format =>
    refine ⟨_, by rfl, _, rfl, ?_⟩
    constructor
    case bits => exact ⟨_, by rfl, rfl, by decide⟩
    all_goals exact said_nothing (by decide)
  case frameSamples => exact ⟨_, by rfl, rfl, by decide⟩
  all_goals exact said_nothing (by decide)

/-- The frame size is lost, too. -/
theorem part_discards_all : Json.ofString? partText = some partValue ∧
    GivenSettings.Shown partValue partGiven ∧ partGiven.completed.mix.frameSamples = 480 ∧
    partGiven.completed.mix.format = ⟨32, .little, 1, .signedLinear⟩ ∧
    Settings.load (some partText.toUTF8) = Settings.standard ∧
    Settings.standard ≠ partGiven.completed := by
  have holds : Json.ofString? partText = some partValue := by cbv
  have lost : Settings.standard ≠ partGiven.completed := fun same =>
    absurd (congrArg (·.mix.frameSamples) same) (show ¬160 = 480 by decide)
  exact ⟨holds, part_shown, rfl, rfl, load_given holds part_shown, lost⟩

end Conference.PartialSettings
