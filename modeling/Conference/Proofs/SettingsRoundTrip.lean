import Conference.Proofs.JsonRoundTrip
import Conference.Proofs.SettingsFields
import Conference.Storage

/-! Settings survive a file. Every field is written, as a numeral or a text, under the name that the
reader looks for; the text is read back as the value it was printed from, and a file that has been
saved holds the text when its path is read again. -/
namespace Conference.SettingsRoundTrip
open Json JsonRoundTrip RecordFields SettingsFields

/-! ## Files -/

section Files
variable {storage later : Storage} {place : List String} {path : Path}

theorem at_put (storage : Storage) (named : place ≠ []) (content : Stored) :
    (storage.put place content).at? place = some content := by
  have some : place.isEmpty = false := by simpa using named
  simp [Storage.at?, Storage.put, some]

theorem at_put_other (storage : Storage) (content : Stored) (other : elsewhere ≠ place) :
    (storage.put place content).at? elsewhere = storage.at? elsewhere := by
  have apart : (elsewhere == place) = false := by simpa using other
  have kept : (storage.stored.filter (·.1 != place)).lookup elsewhere =
      storage.stored.lookup elsewhere := by
    induction storage.stored with
    | nil => rfl
    | cons entry stored ih =>
      obtain ⟨held, content⟩ := entry
      by_cases same : held = place
      · subst same
        rw [List.filter_cons_of_neg (by simp), List.lookup_cons, apart]
        exact ih
      · rw [List.filter_cons_of_pos (by simpa using same), List.lookup_cons, List.lookup_cons, ih]
  simp only [Storage.at?, Storage.put, List.lookup_cons, apart, kept]

/-- A way through directories is not changed where there is none. -/
theorem walk_put (apart : storage.at? place ≠ some .directory) (content : Stored)
    (walked : storage.walk start parts = .ok reached) :
    (storage.put place content).walk start parts = .ok reached := by
  induction parts generalizing start with
  | nil => exact walked
  | cons part parts ih =>
    unfold Storage.walk at walked ⊢
    by_cases still : part = "."
    · rw [if_pos still] at walked ⊢
      exact ih walked
    rw [if_neg still] at walked ⊢
    by_cases up : part = ".."
    · rw [if_pos up] at walked ⊢
      exact ih walked
    rw [if_neg up] at walked ⊢
    by_cases long : Path.maxName < part.utf8ByteSize
    · rw [if_pos long] at walked
      cases walked
    rw [if_neg long] at walked ⊢
    cases there : storage.at? (start ++ [part]) with
    | none => simp [there] at walked
    | some stored =>
      cases stored with
      | file held => simp [there] at walked
      | directory =>
        have other : start ++ [part] ≠ place := by
          rintro rfl
          exact apart there
        simp only [there] at walked
        simp only [at_put_other storage content other, there]
        exact ih walked

/-- A path leads to the same place after something was put there. -/
theorem resolve_put (apart : storage.at? place ≠ some .directory) (content : Stored)
    (resolved : storage.resolve path = .ok (.entry place)) :
    (storage.put place content).resolve path = .ok (.entry place) := by
  unfold Storage.resolve at resolved ⊢
  cases flawed : path.flaw? with
  | some e => simp [flawed] at resolved
  | none =>
    cases ends : path.parts.getLast? with
    | none =>
      simp only [flawed, ends] at resolved
      split at resolved <;> cases resolved
    | some last =>
      simp only [flawed, ends] at resolved ⊢
      cases walked : storage.walk (storage.start path) path.parts.dropLast with
      | error e => simp [walked] at resolved
      | ok reached =>
        rw [walked] at resolved
        have same : (storage.put place content).start path = storage.start path := rfl
        rw [same, walk_put apart content walked]
        exact resolved

/-- A name is never missing at the end of a place. -/
theorem resolved_named (resolved : storage.resolve path = .ok (.entry place)) : place ≠ [] := by
  unfold Storage.resolve at resolved
  repeat' split at resolved
  all_goals cases resolved
  exact List.append_ne_nil_of_right_ne_nil _ (List.cons_ne_nil _ _)

theorem read_of_write (wrote : storage.write path content = (none, later)) :
    later.read path = some content := by
  unfold Storage.write at wrote
  split at wrote
  · cases wrote
  · cases wrote
  rename_i place resolved
  split at wrote
  · cases wrote
  rename_i slash
  split at wrote
  · cases wrote
  split at wrote
  · cases wrote
  rename_i apart
  cases wrote
  have there := at_put storage (resolved_named resolved) (.file content)
  simp only [Storage.read, resolve_put apart _ resolved, if_neg slash, there]

/-- What was saved is read back. -/
theorem read_of_save (saved : storage.save path content = (none, later)) :
    later.read path = some content := by
  unfold Storage.save at saved
  split at saved
  rename_i failed ready made
  cases failed with
  | some e => cases saved
  | none => exact read_of_write saved

end Files

/-! ## What is written -/

variable {settings : Settings}

/-- A float that is read back exactly from the digits it is printed with. A float that is no finite
number is printed without any. -/
def ReadBack (x : Float) : Prop :=
  ∃ numeral, Numeral.ofFloat? x = some numeral ∧ numeral.toFloat? = some x

/-- Settings that a file can hold: sizes are words of 64 bits, and floats are read back. -/
structure Storable (settings : Settings) : Prop where
  frameSamples : settings.mix.frameSamples < 1 <<< 64
  sourceCapacity : settings.mix.sourceCapacity < 1 <<< 64
  handoffCapacity : settings.mix.handoffCapacity < 1 <<< 64
  toneAmplitude : ReadBack settings.mix.toneAmplitude
  baseFrequency : ReadBack settings.mix.baseFrequency

/-- All of a format. -/
def allOfFormat (format : SampleFormat) : GivenFormat :=
  ⟨some format.bits, some format.order, some format.channels, some format.encoding⟩

/-- All of the texts. -/
def allOfTexts (texts : Texts) : GivenTexts where
  warningLabel := some texts.warningLabel
  severeLabel := some texts.severeLabel
  zrtpLabel := some texts.zrtpLabel
  noRsMatch := some texts.noRsMatch
  noExpectedRsMatch := some texts.noExpectedRsMatch
  checksumMismatch := some texts.checksumMismatch
  dataSendFailed := some texts.dataSendFailed
  retryRateExceeded := some texts.retryRateExceeded
  internalProtocolError := some texts.internalProtocolError
  generic := some texts.generic

/-- All of the mixing settings. -/
def allOfMix (mix : MixSettings) : GivenMix where
  format := some (allOfFormat mix.format)
  frameSamples := some mix.frameSamples
  sourceCapacity := some mix.sourceCapacity
  handoffCapacity := some mix.handoffCapacity
  sampleRate := some mix.sampleRate
  toneAmplitude := some mix.toneAmplitude
  baseFrequency := some mix.baseFrequency

/-- All of the settings. -/
def allOf (settings : Settings) : GivenSettings :=
  ⟨some (allOfMix settings.mix), some (allOfTexts settings.texts)⟩

theorem name_of_order (order : ByteOrder) :
    nameIn ByteOrder.names order = .ofText (orderName order) := by
  cases order <;> rfl

theorem name_of_encoding (encoding : Encoding) :
    nameIn Encoding.names encoding = .ofText (encodingName encoding) := by
  cases encoding
  rfl

private theorem float_stands (back : ReadBack x) : StandsForFloat (.ofFloat x) x := by
  obtain ⟨numeral, printed, read⟩ := back
  exact ⟨numeral, by simp [ofFloat, printed], read⟩

theorem format_shown (format : SampleFormat) :
    GivenFormat.Shown format.toJson (allOfFormat format) := by
  refine ⟨_, rfl, ?_⟩
  have distinct : (["sample_size_bits", "byte_order", "channels", "encoding"] :
    List String).Nodup := by decide
  constructor
  · exact said_of_distinct distinct (by simp) ⟨rfl, format.bits.toNat_lt⟩
  · exact said_of_distinct distinct (by simp) (name_of_order format.order)
  · exact said_of_distinct distinct (by simp) ⟨rfl, format.channels.toNat_lt⟩
  · exact said_of_distinct distinct (by simp) (name_of_encoding format.encoding)

theorem texts_shown (texts : Texts) : GivenTexts.Shown texts.toJson (allOfTexts texts) := by
  refine ⟨_, rfl, ?_⟩
  have distinct : Texts.fieldNames.Nodup := by decide
  constructor <;> exact said_of_distinct distinct (by simp) rfl

theorem mix_shown (storable : Storable settings) :
    GivenMix.Shown settings.mix.toJson (allOfMix settings.mix) := by
  refine ⟨_, rfl, ?_⟩
  have distinct : MixSettings.fieldNames.Nodup := by decide
  constructor
  · exact said_of_distinct distinct (by simp) (format_shown settings.mix.format)
  · exact said_of_distinct distinct (by simp) ⟨rfl, storable.frameSamples⟩
  · exact said_of_distinct distinct (by simp) ⟨rfl, storable.sourceCapacity⟩
  · exact said_of_distinct distinct (by simp) ⟨rfl, storable.handoffCapacity⟩
  · exact said_of_distinct distinct (by simp) ⟨rfl, settings.mix.sampleRate.toNat_lt⟩
  · exact said_of_distinct distinct (by simp) (float_stands storable.toneAmplitude)
  · exact said_of_distinct distinct (by simp) (float_stands storable.baseFrequency)

/-- Settings are written with every field. -/
theorem settings_shown (storable : Storable settings) :
    GivenSettings.Shown settings.toJson (allOf settings) := by
  refine ⟨_, rfl, ?_⟩
  have distinct : Settings.fieldNames.Nodup := by decide
  constructor
  · exact said_of_distinct distinct (by simp) (mix_shown storable)
  · exact said_of_distinct distinct (by simp) (texts_shown settings.texts)

/-- What is written is read as the settings. -/
theorem of_json_to_json (storable : Storable settings) :
    Settings.ofJson? settings.toJson = some settings :=
  settings_read (settings_shown storable)

/-! ## Its text -/

private theorem written_members (values : ∀ member ∈ members, JsonRoundTrip.Written member.2) :
    JsonRoundTrip.Written (.ofMembers members) := by
  refine .object ?_ ?_ <;> intro member within <;>
    obtain ⟨given, there, rfl⟩ := List.mem_map.mp within
  · rfl
  · exact values given there

private theorem written_text (text : String) : JsonRoundTrip.Written (.ofText text) :=
  .string text.toList

private theorem written_nat (n : Nat) : JsonRoundTrip.Written (.ofNat n) :=
  .number (NumeralRoundTrip.written_of_nat n)

private theorem written_float (x : Float) : JsonRoundTrip.Written (.ofFloat x) := by
  unfold ofFloat
  split
  · exact .null
  · rename_i shown
    exact .number (NumeralRoundTrip.written_of_float shown)

theorem written_format (format : SampleFormat) : JsonRoundTrip.Written format.toJson := by
  refine written_members ?_
  simp only [List.forall_mem_cons]
  exact ⟨written_nat _, written_text _, written_nat _, written_text _, nofun⟩

theorem written_texts (texts : Texts) : JsonRoundTrip.Written texts.toJson := by
  refine written_members ?_
  simp only [List.forall_mem_cons]
  refine ⟨?_, ?_, ?_, ?_, ?_, ?_, ?_, ?_, ?_, ?_, nofun⟩ <;> exact written_text _

theorem written_mix (mix : MixSettings) : JsonRoundTrip.Written mix.toJson := by
  refine written_members ?_
  simp only [List.forall_mem_cons]
  exact ⟨written_format _, written_nat _, written_nat _, written_nat _, written_nat _,
    written_float _, written_float _, nofun⟩

/-- Every settings file is a text of JSON. -/
theorem written_settings (settings : Settings) : JsonRoundTrip.Written settings.toJson := by
  refine written_members ?_
  simp only [List.forall_mem_cons]
  exact ⟨written_mix _, written_texts _, nofun⟩

/-- The text of a settings file holds what was printed, whatever the settings are. -/
theorem text_holds (settings : Settings) : Json.ofString? settings.text = some settings.toJson :=
  read_pretty (written_settings settings)

theorem of_text_text (storable : Storable settings) :
    Settings.ofText? settings.text = some settings := by
  rw [Settings.ofText?, text_holds, Option.bind_some, of_json_to_json storable]

/-- The text that is saved holds the settings, and they are loaded from a file that was saved,
wherever that is. -/
theorem saved_settings_reload (storable : Storable settings) :
    Settings.ofText? settings.text = some settings ∧
      ∀ storage path later, Storage.save storage path settings.text.toUTF8 = (none, later) →
        Settings.load (later.read path) = settings := by
  refine ⟨of_text_text storable, fun storage path later saved => ?_⟩
  rw [read_of_save saved, load_text, of_text_text storable]
  rfl

/-- Settings with a text that needs every kind of escape, and with a size of 64 bits. -/
def altered : Settings where
  mix := { MixSettings.standard with
    format := ⟨65535, .big, 2, .signedLinear⟩
    frameSamples := 320
    sourceCapacity := 1 <<< 64 - 1
    toneAmplitude := -0.0
    baseFrequency := 1e300 }
  texts := { Texts.standard with severeLabel := "\"Kritisch\"\\ \n\t\x01 é 😀" }

theorem altered_settings_reload : Storable altered ∧
    Settings.ofText? altered.text = some altered ∧
    ∃ later, Storage.save ⟨[], []⟩ ⟨["", "nested", "settings"]⟩ altered.text.toUTF8 = (none, later) ∧
      Settings.load (later.read ⟨["", "nested", "settings"]⟩) = altered := by
  have storable : Storable altered :=
    ⟨by decide, by decide, by decide,
      ⟨⟨true, [0], [0], none⟩, by decide +kernel, by decide +kernel⟩,
      ⟨⟨false, [1], [], some (.plus, [3, 0, 0])⟩, by decide +kernel, by decide +kernel⟩⟩
  have saved (content : ByteArray) : (Storage.save ⟨[], []⟩ ⟨["", "nested", "settings"]⟩ content).1 =
    none := rfl
  obtain ⟨read, loaded⟩ := saved_settings_reload storable
  exact ⟨storable, read, _, Prod.ext (saved _) rfl, loaded _ _ _ (Prod.ext (saved _) rfl)⟩

end Conference.SettingsRoundTrip
