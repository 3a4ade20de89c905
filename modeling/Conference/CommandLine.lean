import Conference.Report
import Conference.Settings.Reader
import Conference.Storage

/-! The command line: words are read strictly from left to right, and the first that cannot be
read decides. What the program needs from outside it asks of a host. -/
namespace Conference

/-- What a run is asked to do. -/
structure Options where
  participants : Nat
  cycles : Nat
  /-- The file that settings are read from. -/
  config : Option String
  /-- The file that settings are written to, instead of a run. -/
  writeConfig : Option String
  json : Bool
  deriving DecidableEq, Repr

namespace Options

def standard : Options := ⟨3, 50, none, none, false⟩

end Options

/-- The options that take a value. -/
inductive ValueOption where
  | participants
  | cycles
  | config
  | writeConfig
  deriving DecidableEq, Repr

/-- What a word asks for. -/
inductive Word where
  | help
  | version
  | json
  /-- The next word is the value of an option. -/
  | value (option : ValueOption)
  | unknown
  deriving DecidableEq, Repr

/-- What a command line asks for. -/
inductive Command where
  | run (options : Options)
  | help
  | version
  deriving DecidableEq, Repr

/-- Why a command line cannot be read. -/
inductive CommandError where
  | missingValue (option : ValueOption)
  | invalidValue (option : ValueOption) (value : String)
  | unknown (word : String)
  deriving DecidableEq, Repr

namespace ValueOption

def name : ValueOption → String
  | participants => "--participants"
  | cycles => "--cycles"
  | config => "--config"
  | writeConfig => "--write-config"

/-- A positive number within 64 bits, in ASCII digits, a plus sign being allowed in front. -/
def count? (value : String) : Option Nat :=
  let digits := match value.toList with
    | '+' :: rest => rest
    | all => all
  if digits.isEmpty then none
  else (digits.mapM Digit.ofChar?).bind fun digits =>
    let n := Digit.toNat digits
    if 0 < n ∧ n < 1 <<< 64 then some n else none

/-- Sets an option to a value, if the value is one of its own. -/
def set? (option : ValueOption) (value : String) (options : Options) : Option Options :=
  match option with
  | participants => (count? value).map fun n => { options with participants := n }
  | cycles => (count? value).map fun n => { options with cycles := n }
  | config => some { options with config := some value }
  | writeConfig => some { options with writeConfig := some value }

end ValueOption

namespace Word

def ofString (word : String) : Word :=
  match word with
  | "--help" => .help
  | "-h" => .help
  | "--version" => .version
  | "-v" => .version
  | "--json" => .json
  | "--participants" => .value .participants
  | "-n" => .value .participants
  | "--cycles" => .value .cycles
  | "-c" => .value .cycles
  | "--config" => .value .config
  | "--write-config" => .value .writeConfig
  | _ => .unknown

end Word

namespace CommandError

/-- The text shown for an error. -/
def message : CommandError → String
  | missingValue option => s!"{option.name} requires a value"
  | invalidValue option value => s!"Invalid value for {option.name}: {value}"
  | unknown word => s!"Unknown argument: {word}"

end CommandError

namespace Command

/-- Reads the words that are left, on top of the options read so far. -/
def parseFrom (options : Options) : List String → Except CommandError Command
  | [] => .ok (.run options)
  | word :: rest =>
    match Word.ofString word with
    | .help => .ok .help
    | .version => .ok .version
    | .json => parseFrom { options with json := true } rest
    | .unknown => .error (.unknown word)
    | .value option =>
      match rest with
      | [] => .error (.missingValue option)
      | value :: rest =>
        match option.set? value options with
        | none => .error (.invalidValue option value)
        | some options => parseFrom options rest

/-- Reads a command line. -/
def parse (words : List String) : Except CommandError Command := parseFrom Options.standard words

end Command

/-- What the program asks of its surroundings. -/
structure Host (m : Type → Type) where
  now : m Moment
  /-- The content of a file, if it can be read. -/
  read : String → m (Option ByteArray)
  /-- Writes a file and the directories it lies in; gives what went wrong. -/
  save : String → ByteArray → m (Option StorageError)

namespace Storage

/-- A host whose files are a storage and whose clock stands still. -/
def host : Host (StateM Storage) where
  now := pure 0
  read path := do return (← get).read (Path.ofText path)
  save path content := modifyGet fun storage => storage.save (Path.ofText path) content

end Storage

/-- What a run of the program leaves: its output, its complaints and its exit code. -/
structure Ending where
  out : String
  err : String
  code : UInt8
  deriving DecidableEq, Repr

namespace CommandLine

def version : String := "0.1.0"

/-- Lines of text, each with its end. -/
def unlines (lines : List String) : String := String.join (lines.map (· ++ "\n"))

def help : List String :=
  let standard := Options.standard
  ["Usage: confmix [OPTIONS]", "", "Options:",
    s!"  -n, --participants N    Conference participants (default: {standard.participants})",
    s!"  -c, --cycles N          Mix cycles to run (default: {standard.cycles})",
    "      --config PATH       Load settings from a JSON config file",
    "      --write-config PATH Write the effective config and exit",
    "      --json              Print the run summary as JSON",
    "  -v, --version           Show version",
    "  -h, --help              Show this help", "", "Examples:",
    "  confmix -n 5 -c 500",
    "  confmix --config confmix.json --json"]

/-- The box at the head of what a run prints. -/
def banner : List String :=
  let bar := String.ofList (List.replicate 60 '═')
  [s!"╔{bar}╗", s!"║          Confmix v{version} - Conference Mixer Simulator        ║",
    s!"╚{bar}╝", ""]

/-- A run that went wrong after printing `out`. -/
def failing (out : List String) (message : String) : Ending :=
  ⟨unlines out, unlines [s!"Error: {message}"], 1⟩

/-- Runs a conference and reports it; `veil` says, by the count of cycles, what the report hides. A
conference that memory cannot hold has an exit code of its own. -/
def conference [Monad m] (host : Host m) (veil : Nat → Veil) (settings : Settings)
    (options : Options) (head : List String) : m Ending := do
  let started ← host.now
  match Simulation.run settings options.participants options.cycles started with
  | .error .exhausted => return ⟨unlines head, unlines [SimulationError.exhausted.message], 101⟩
  | .error e => return failing head e.message
  | .ok simulation =>
    let finished ← host.now
    let report := Report.ofSimulation simulation options.cycles started finished
    let veil := veil options.cycles
    let body := if options.json then [String.ofList ((report.toJson veil).pretty 0)]
      else report.lines veil
    return ⟨unlines (head ++ body), "", 0⟩

/-- Carries out the options of a run. -/
def run [Monad m] (host : Host m) (veil : Nat → Veil) (options : Options) : m Ending := do
  let head := if options.json then [] else banner
  let settings ← match options.config with
    | none => pure Settings.standard
    | some path => Settings.load <$> host.read path
  match options.writeConfig with
  | none => conference host veil settings options head
  | some path =>
    match ← host.save path settings.text.toUTF8 with
    | some e => return failing head e.message
    | none => return ⟨unlines (head ++ [s!"Config written to {path}"]), "", 0⟩

/-- Carries out a command line. One that cannot be read is answered with the help text. -/
def execute [Monad m] (host : Host m) (veil : Nat → Veil) (words : List String) : m Ending :=
  match Command.parse words with
  | .ok (.run options) => run host veil options
  | .ok .help => return ⟨unlines help, "", 0⟩
  | .ok .version => return ⟨unlines [s!"confmix {version}"], "", 0⟩
  | .error e => return ⟨unlines help, unlines [s!"Error: {e.message}"], 0⟩

end CommandLine

end Conference
