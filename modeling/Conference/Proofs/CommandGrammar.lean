import Mathlib.Algebra.Group.Nat.Defs
import Conference.CommandLine

/-! The grammar of command lines. Words are read in groups: a flag alone, or a flag with the value
after it, whatever that looks like. A command line of complete groups asks for a run, in which the
last group that sets an option counts; otherwise the first words that make no group decide, and
what stands after them does not matter. -/
namespace Conference.CommandGrammar
open Command

/-! ## The grammar -/

/-- The flags after which an option's value stands. -/
def flagsOf : ValueOption → List String
  | .participants => ["--participants", "-n"]
  | .cycles => ["--cycles", "-c"]
  | .config => ["--config"]
  | .writeConfig => ["--write-config"]

def helpFlags : List String := ["--help", "-h"]

def versionFlags : List String := ["--version", "-v"]

/-- A text spells a positive number of 64 bits: digits, with a plus sign in front or without. -/
def Spells (value : String) (n : Nat) : Prop :=
  ∃ digits : List Digit, digits ≠ [] ∧
    (value.toList = Digit.text digits ∨ value.toList = '+' :: Digit.text digits) ∧
    Digit.toNat digits = n ∧ 0 < n ∧ n < 2 ^ 64

/-- What a group of words sets. -/
inductive Setting where
  | json
  | participants (count : Nat)
  | cycles (count : Nat)
  | config (path : String)
  | writeConfig (path : String)

/-- What an option is set to by a value of its own. -/
inductive Sets : ValueOption → String → Setting → Prop where
  | participants (spelled : Spells value n) : Sets .participants value (.participants n)
  | cycles (spelled : Spells value n) : Sets .cycles value (.cycles n)
  | config : Sets .config value (.config value)
  | writeConfig : Sets .writeConfig value (.writeConfig value)

/-- A complete group of words. -/
inductive Group : Setting → List String → Prop where
  | json : Group .json ["--json"]
  | value (flag : word ∈ flagsOf option) (sets : Sets option value setting) :
      Group setting [word, value]

/-- Complete groups, one after another. -/
inductive Groups : List Setting → List String → Prop where
  | nil : Groups [] []
  | cons (first : Group setting group) (later : Groups settings words) :
      Groups (setting :: settings) (group ++ words)

/-- Words that do not begin with a complete group, and what they come to. -/
inductive Decides : List String → Except CommandError Command → Prop where
  | help (flag : word ∈ helpFlags) : Decides (word :: rest) (.ok .help)
  | version (flag : word ∈ versionFlags) : Decides (word :: rest) (.ok .version)
  | missing (flag : word ∈ flagsOf option) : Decides [word] (.error (.missingValue option))
  | invalid (flag : word ∈ flagsOf option) (foreign : ∀ setting, ¬Sets option value setting) :
      Decides (word :: value :: rest) (.error (.invalidValue option value))
  | unknown (noHelp : word ∉ helpFlags) (noVersion : word ∉ versionFlags) (noJson : word ≠ "--json")
      (noValue : ∀ option, word ∉ flagsOf option) : Decides (word :: rest) (.error (.unknown word))

/-! ## What a command line comes to -/

namespace Setting

def participants? : Setting → Option Nat
  | participants count => some count
  | _ => none

def cycles? : Setting → Option Nat
  | cycles count => some count
  | _ => none

def config? : Setting → Option String
  | config path => some path
  | _ => none

def writeConfig? : Setting → Option String
  | writeConfig path => some path
  | _ => none

def isJson : Setting → Bool
  | json => true
  | _ => false

end Setting

/-- The last value that settings give, or else the one from before. -/
def lastOr (view : Setting → Option α) (settings : List Setting) (before : α) : α :=
  (settings.filterMap view).getLast?.getD before

/-- Options after some settings: the last of each kind counts. -/
def settled (start : Options) (settings : List Setting) : Options where
  participants := lastOr Setting.participants? settings start.participants
  cycles := lastOr Setting.cycles? settings start.cycles
  config := lastOr (fun setting => setting.config?.map some) settings start.config
  writeConfig := lastOr (fun setting => setting.writeConfig?.map some) settings start.writeConfig
  json := start.json || settings.any Setting.isJson

/-- What words come to, on top of the options from before: a run if all of them make complete
groups, and otherwise what the first that do not come to. -/
inductive Reads (start : Options) : List String → Except CommandError Command → Prop where
  | run (groups : Groups settings words) : Reads start words (.ok (.run (settled start settings)))
  | decided (groups : Groups settings front) (decides : Decides rest outcome) :
      Reads start (front ++ rest) outcome

/-- An outcome that more words cannot change. -/
def Final : Except CommandError Command → Prop
  | .ok (.run _) => False
  | .error (.missingValue _) => False
  | _ => True

/-! ## Words -/

variable {word value : String} {option : ValueOption} {start : Options}

theorem word_help_iff : Word.ofString word = .help ↔ word ∈ helpFlags := by
  unfold Word.ofString
  split <;> simp_all [helpFlags]

theorem word_version_iff : Word.ofString word = .version ↔ word ∈ versionFlags := by
  unfold Word.ofString
  split <;> simp_all [versionFlags]

theorem word_json_iff : Word.ofString word = .json ↔ word = "--json" := by
  unfold Word.ofString
  split <;> simp_all

theorem word_value_iff : Word.ofString word = .value option ↔ word ∈ flagsOf option := by
  unfold Word.ofString
  split <;> cases option <;> simp_all [flagsOf]

/-- A word is unknown if it is none of the flags. -/
theorem word_unknown_iff : Word.ofString word = .unknown ↔
    word ∉ helpFlags ∧ word ∉ versionFlags ∧ word ≠ "--json" ∧
      ∀ option, word ∉ flagsOf option := by
  simp only [← word_help_iff, ← word_version_iff, ne_eq, ← word_json_iff, ← word_value_iff]
  cases Word.ofString word <;> simp

/-! ## Values -/

theorem of_char_iff {digit : Digit} : Digit.ofChar? c = some digit ↔ c = digit.toChar := by
  constructor
  · intro shows
    unfold Digit.ofChar? at shows
    split at shows
    · rename_i range
      cases shows
      have number : 48 + (c.toNat - 48) = c.toNat := by omega
      rw [Digit.toChar, number, Char.ofNat_toNat]
    · cases shows
  · rintro rfl
    exact Digit.ofChar?_toChar digit

theorem read_digits_iff {text : List Char} {digits : List Digit} :
    text.mapM Digit.ofChar? = some digits ↔ text = Digit.text digits := by
  induction text generalizing digits with
  | nil => cases digits <;> simp [Digit.text]
  | cons c rest ih =>
    cases digits <;> simp [Digit.text, Option.bind_eq_some_iff, of_char_iff, ih]

/-- No digit is shown as a sign. -/
theorem digits_unsigned {digits : List Digit} : Digit.text digits ≠ '+' :: rest := by
  intro signed
  cases digits with
  | nil => cases signed
  | cons digit later =>
    have plus : digit.toChar = '+' := (List.cons.inj signed).1
    have apart : ∀ digit : Digit, digit.toChar ≠ '+' := by decide
    exact apart digit plus

/-- A number is read exactly from the texts that spell it. -/
theorem count_iff {n : Nat} : ValueOption.count? value = some n ↔ Spells value n := by
  have number (text : List Char) : ((if text.isEmpty then none
      else (text.mapM Digit.ofChar?).bind fun digits =>
        if 0 < Digit.toNat digits ∧ Digit.toNat digits < 1 <<< 64 then some (Digit.toNat digits)
        else none) = some n) ↔ ∃ digits : List Digit, digits ≠ [] ∧ text = Digit.text digits ∧
          Digit.toNat digits = n ∧ 0 < n ∧ n < 2 ^ 64 := by
    have word : 1 <<< 64 = 2 ^ 64 := rfl
    simp only [word, List.isEmpty_iff, Option.ite_none_left_eq_some, Option.bind_eq_some_iff,
      read_digits_iff, Option.ite_none_right_eq_some, Option.some.injEq]
    constructor
    · rintro ⟨some, digits, rfl, range, rfl⟩
      exact ⟨digits, fun none => some (by rw [none]; rfl), rfl, rfl, range⟩
    · rintro ⟨digits, some, rfl, rfl, range⟩
      exact ⟨fun none => some (List.map_eq_nil_iff.mp none), digits, rfl, range, rfl⟩
  unfold ValueOption.count? Spells
  simp only [number]
  split
  · rename_i rest signed
    simp only [signed, digits_unsigned.symm, false_or, List.cons.injEq, true_and]
  · rename_i unsigned
    have bare (text : List Char) : value.toList ≠ '+' :: text := unsigned text
    simp only [bare, or_false]

/-! ## Settings -/

theorem last_nil (view : Setting → Option α) (before : α) : lastOr view [] before = before := rfl

theorem last_cons (view : Setting → Option α) (setting : Setting) (settings : List Setting)
    (before : α) : lastOr view (setting :: settings) before =
      lastOr view settings ((view setting).getD before) := by
  cases seen : view setting <;> simp [lastOr, seen, List.getLast?_cons]

theorem settled_nil (start : Options) : settled start [] = start := by
  simp only [settled, last_nil, List.any_nil, Bool.or_false]

/-- Settings are settled one after another. -/
theorem settled_cons (start : Options) (setting : Setting) (settings : List Setting) :
    settled start (setting :: settings) = settled (settled start [setting]) settings := by
  simp only [settled, last_cons, last_nil, List.any_cons, List.any_nil, Bool.or_false, Bool.or_assoc]

theorem settled_json (start : Options) :
    settled start [.json] = { start with json := true } := by
  rw [settled, List.any_cons, Setting.isJson, Bool.true_or, Bool.or_true]
  rfl

/-- A value of an option's own sets it. -/
theorem set_of_sets (sets : Sets option value setting) :
    option.set? value start = some (settled start [setting]) := by
  have plain : setting.isJson = false := by cases sets <;> rfl
  rw [settled, List.any_cons, plain, Bool.false_or, List.any_nil, Bool.or_false]
  cases sets with
  | participants spelled | cycles spelled =>
    rw [ValueOption.set?, count_iff.mpr spelled]
    rfl
  | config | writeConfig => rfl

/-- Nothing else sets an option. -/
theorem sets_of_set (set : option.set? value start = some after) :
    ∃ setting, Sets option value setting ∧ after = settled start [setting] := by
  have own : ∃ setting, Sets option value setting := by
    cases option with
    | participants =>
      obtain ⟨n, counted, -⟩ := Option.map_eq_some_iff.mp set
      exact ⟨_, .participants (count_iff.mp counted)⟩
    | cycles =>
      obtain ⟨n, counted, -⟩ := Option.map_eq_some_iff.mp set
      exact ⟨_, .cycles (count_iff.mp counted)⟩
    | config => exact ⟨_, .config⟩
    | writeConfig => exact ⟨_, .writeConfig⟩
  obtain ⟨setting, sets⟩ := own
  exact ⟨setting, sets, Option.some.inj (set.symm.trans (set_of_sets sets))⟩

theorem set_foreign (foreign : ∀ setting, ¬Sets option value setting) :
    option.set? value start = none := by
  rw [Option.eq_none_iff_forall_ne_some]
  intro after set
  obtain ⟨setting, sets, -⟩ := sets_of_set set
  exact foreign setting sets

/-! ## Command lines -/

/-- Complete groups are read one after another. -/
theorem parse_groups (groups : Groups settings front) (start : Options) (rest : List String) :
    parseFrom start (front ++ rest) = parseFrom (settled start settings) rest := by
  induction groups generalizing start with
  | nil => rw [settled_nil, List.nil_append]
  | cons first later ih =>
    rw [settled_cons, List.append_assoc, ← ih]
    cases first with
    | json =>
      rw [List.singleton_append, parseFrom, word_json_iff.mpr rfl, settled_json]
    | value flag sets =>
      rw [List.cons_append, List.cons_append, List.nil_append, parseFrom, word_value_iff.mpr flag]
      simp only [set_of_sets sets]

/-- What makes no group decides. -/
theorem parse_decides (decides : Decides words outcome) (start : Options) :
    parseFrom start words = outcome := by
  cases decides with
  | help flag => rw [parseFrom, word_help_iff.mpr flag]
  | version flag => rw [parseFrom, word_version_iff.mpr flag]
  | missing flag => rw [parseFrom, word_value_iff.mpr flag]
  | invalid flag foreign =>
    rw [parseFrom, word_value_iff.mpr flag]
    simp only [set_foreign foreign]
  | unknown noHelp noVersion noJson noValue =>
    rw [parseFrom, word_unknown_iff.mpr ⟨noHelp, noVersion, noJson, noValue⟩]

theorem reads_cons (first : Group setting group)
    (later : Reads (settled start [setting]) words outcome) :
    Reads start (group ++ words) outcome := by
  cases later with
  | run groups =>
    rw [← settled_cons]
    exact .run (.cons first groups)
  | decided groups decides =>
    rw [← List.append_assoc]
    exact .decided (.cons first groups) decides

/-- Every command line comes to what it is read as. -/
theorem parse_reads (start : Options) (words : List String) :
    Reads start words (parseFrom start words) := by
  have decided {start rest outcome} (decides : Decides rest outcome) : Reads start rest outcome :=
    .decided .nil decides
  fun_induction parseFrom start words with
  | case1 options =>
    have run : Reads options [] _ := .run .nil
    rwa [settled_nil] at run
  | case2 options word rest help => exact decided (.help (word_help_iff.mp help))
  | case3 options word rest version => exact decided (.version (word_version_iff.mp version))
  | case4 options word rest json later =>
    rw [word_json_iff.mp json]
    exact reads_cons .json (by rwa [settled_json])
  | case5 options word rest unknown =>
    obtain ⟨noHelp, noVersion, noJson, noValue⟩ := word_unknown_iff.mp unknown
    exact decided (.unknown noHelp noVersion noJson noValue)
  | case6 options word option flag => exact decided (.missing (word_value_iff.mp flag))
  | case7 options word option flag value rest refused =>
    refine decided (.invalid (word_value_iff.mp flag) fun setting sets => ?_)
    rw [set_of_sets sets] at refused
    cases refused
  | case8 options word option flag value rest after set later =>
    obtain ⟨setting, sets, rfl⟩ := sets_of_set set
    exact reads_cons (.value (word_value_iff.mp flag) sets) later

/-- A command line comes to what the grammar says, and to nothing else. -/
theorem parse_iff (start : Options) (words : List String)
    (outcome : Except CommandError Command) :
    parseFrom start words = outcome ↔ Reads start words outcome := by
  constructor
  · rintro rfl
    exact parse_reads start words
  · rintro (groups | ⟨groups, decides⟩)
    · rw [← List.append_nil words, parse_groups groups, parseFrom]
    · rw [parse_groups groups, parse_decides decides]

/-! ### More words -/

/-- Words that decide do so whatever follows, unless they lack a value at the end. -/
theorem decides_append (decides : Decides words outcome) (final : Final outcome)
    (more : List String) : Decides (words ++ more) outcome := by
  cases decides with
  | help flag => exact .help flag
  | version flag => exact .version flag
  | missing => exact final.elim
  | invalid flag foreign => exact .invalid flag foreign
  | unknown noHelp noVersion noJson noValue => exact .unknown noHelp noVersion noJson noValue

theorem reads_append (reads : Reads start words outcome) (final : Final outcome)
    (more : List String) : Reads start (words ++ more) outcome := by
  cases reads with
  | run => exact final.elim
  | decided groups decides =>
    rw [List.append_assoc]
    exact .decided groups (decides_append decides final more)

/-- What words ask for beyond a run of their own is what more words come to on top of it. -/
theorem parse_run_append (run : parseFrom start words = .ok (.run options)) (more : List String) :
    parseFrom start (words ++ more) = parseFrom options more := by
  cases (parse_iff start words _).mp run with
  | run groups => exact parse_groups groups start more
  | decided groups decides => cases decides

/-- A command line is read by its grammar. What it comes to without a value missing at its end, more
words do not change, unless it is a run: then they are read on top of its options. -/
theorem read_left_to_right :
    (∀ words outcome, parse words = outcome ↔ Reads Options.standard words outcome) ∧
    ∀ words more, (Final (parse words) → parse (words ++ more) = parse words) ∧
      ∀ options, parse words = .ok (.run options) →
        parse (words ++ more) = parseFrom options more ∧
        ∀ outcome, parse (words ++ more) = outcome ↔ Reads options more outcome := by
  refine ⟨parse_iff Options.standard, fun words more => ⟨fun final => ?_, fun options run => ?_⟩⟩
  · have reads : Reads Options.standard words (parse words) := parse_reads _ _
    exact (parse_iff _ _ _).mpr (reads_append reads final more)
  · have same : parse (words ++ more) = parseFrom options more := parse_run_append run more
    exact ⟨same, fun outcome => same ▸ parse_iff options more outcome⟩

/-- A value may look like a flag, the last of two values counts, and what is wrong first decides. -/
theorem first_flaw_decides :
    let words := ["--config", "--json", "-n", "+07", "-n", "2"]
    let flawed := ["-c", "0"]
    parse words = .ok (.run ⟨2, 50, some "--json", none, false⟩) ∧
    parse (words ++ flawed) = parseFrom ⟨2, 50, some "--json", none, false⟩ flawed ∧
    Final (parse (words ++ flawed)) ∧
    parse (words ++ flawed ++ ["--help"]) = .error (.invalidValue .cycles "0") := by
  intro words flawed
  have run : parse words = .ok (.run ⟨2, 50, some "--json", none, false⟩) := by rfl
  have refused : parse (words ++ flawed) = .error (.invalidValue .cycles "0") := by rfl
  have final : Final (parse (words ++ flawed)) := refused ▸ trivial
  exact ⟨run, ((read_left_to_right.2 words flawed).2 _ run).1, final,
    ((read_left_to_right.2 (words ++ flawed) ["--help"]).1 final).trans refused⟩

end Conference.CommandGrammar
