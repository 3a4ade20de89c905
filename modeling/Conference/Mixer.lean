import Conference.Source
import Conference.Statistics

/-! Mixers. A mixer keeps the sources it reads and the listeners it feeds, both in the order in
which they joined. A cycle works on the registry as it found it. -/
namespace Conference

/-- A source in a registry: its place and the identity it has there. -/
structure Attached where
  source : Nat
  id : SourceId
  deriving DecidableEq, Repr

/-- A listener in a registry, with the exclusions used for it. -/
structure Registered where
  listener : Nat
  excluded : List SourceId
  deriving DecidableEq, Repr

/-- What one cycle did. -/
structure CycleReport where
  /-- Sources that handed out samples. -/
  speaking : Nat
  /-- The length of the longest sample set. -/
  longest : Nat
  /-- Listeners that received input. -/
  fed : Nat
  deriving DecidableEq, Repr

namespace CycleReport

def idle : CycleReport := ⟨0, 0, 0⟩

def record (report : CycleReport) : CycleRecord := ⟨report.speaking, report.longest, report.fed⟩

end CycleReport

/-- A mixer. `held` tells whether anyone but a running operation refers to it. -/
structure Mixer where
  format : SampleFormat
  sources : List Attached
  listeners : List Registered
  stopped : Bool
  stats : Statistics
  held : Bool

namespace Mixer

/-- A mixer without sources and listeners, for a format that can be mixed. -/
def ofFormat (format : SampleFormat) : Except FormatError Mixer :=
  match format.validate with
  | .error e => .error e
  | .ok _ => .ok ⟨format, [], [], false, Statistics.empty, true⟩

def attaches (mixer : Mixer) (id : SourceId) : Bool := mixer.sources.any (·.id == id)

def registers (mixer : Mixer) (listener : Nat) : Bool :=
  mixer.listeners.any (·.listener == listener)

/-- Attaches a source at the end; its identity must be new to the mixer. -/
def attach (mixer : Mixer) (source : Attached) : Mixer :=
  if mixer.attaches source.id then mixer
  else { mixer with sources := mixer.sources ++ [source] }

def detach (mixer : Mixer) (id : SourceId) : Mixer :=
  { mixer with sources := mixer.sources.filter (·.id != id) }

/-- Registers a listener at the end unless it is registered already. -/
def register (mixer : Mixer) (entry : Registered) : Mixer :=
  if mixer.registers entry.listener then mixer
  else { mixer with listeners := mixer.listeners ++ [entry] }

def unregister (mixer : Mixer) (listener : Nat) : Mixer :=
  { mixer with listeners := mixer.listeners.filter (·.listener != listener) }

/-- Replaces the exclusions used for a listener, where it is registered. -/
def exclude (mixer : Mixer) (listener : Nat) (excluded : List SourceId) : Mixer :=
  { mixer with
    listeners := mixer.listeners.map fun entry =>
      if entry.listener == listener then { entry with excluded } else entry }

/-- The text that describes a mixer in full. -/
def describe (mixer : Mixer) : String :=
  s!"MixerCore \x7b format: {mixer.format.describe}, sources: {mixer.sources.length}, "
    ++ s!"outputs: {mixer.listeners.length}, stopped: {mixer.stopped} \x7d"

end Mixer

/-- A sample set and the source that handed it out. -/
structure Speech where
  id : SourceId
  samples : List Sample
  deriving DecidableEq, Repr

namespace Speech

/-- The length of the longest sample set. -/
def longest (speeches : List Speech) : Nat :=
  speeches.foldl (fun length speech => max length speech.samples.length) 0

/-- The sample sets that reach a listener with these exclusions. -/
def audible (excluded : List SourceId) (speeches : List Speech) : List (List Sample) :=
  (speeches.filter fun speech => !excluded.contains speech.id).map samples

end Speech

end Conference
