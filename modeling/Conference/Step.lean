import Conference.Listener
import Conference.Mixer

/-! Programs over an exchange. A step names what it works on by place, in order of creation; a
step may also leave a program behind that runs whenever a listener is fed. -/
namespace Conference

/-- One operation on an exchange. -/
inductive Step where
  /-- Adds a mixer. -/
  | addMixer (format : SampleFormat)
  /-- Lets go of a mixer; operations that run keep it until they end. -/
  | dropMixer (mixer : Nat)
  /-- Adds a queued source. -/
  | addQueue (frame capacity : Nat)
  /-- Adds a scripted source, under an identity of its own or that of another source. -/
  | addScript (frames : List (Option (List Sample))) (sameIdAs : Option Nat)
  | attach (mixer source : Nat)
  /-- Detaches whatever source has this source's identity. -/
  | detach (mixer source : Nat)
  /-- Adds a listener of a mixer, not yet started. -/
  | addListener (mixer : Nat) (excluded : List Nat)
  /-- Lets go of a listener; mixers that it is registered with keep it. -/
  | dropListener (listener : Nat)
  /-- Registers a listener with its own mixer. -/
  | start (listener : Nat)
  | stop (listener : Nat)
  /-- Registers a listener with any mixer. -/
  | register (mixer listener : Nat)
  | unregister (mixer listener : Nat)
  | exclude (mixer listener : Nat) (sources : List Nat)
  /-- Pushes samples into a queued source, then runs a cycle. -/
  | push (mixer source : Nat) (samples : List Sample)
  | offer (source : Nat) (samples : List Sample)
  | offerBytes (source : Nat) (bytes : List UInt8) (format : SampleFormat)
  /-- Reads a source outside any cycle. -/
  | draw (source : Nat)
  | inspectSource (source : Nat)
  | cycle (mixer : Nat)
  /-- Hands input to a listener outside any cycle. -/
  | hand (listener : Nat) (sets : List (List Sample)) (length : Nat)
  | read (listener : Nat)
  | inspectListener (listener : Nat)
  /-- Counts the times the listener is fed. -/
  | countOnInput (listener : Nat)
  /-- Reads the listener whenever it is fed. -/
  | readOnInput (listener : Nat)
  /-- Opens a channel that is notified whenever the listener is fed. -/
  | notifyOnInput (listener capacity : Nat)
  /-- Runs a program for the first `runs` times that the listener is fed. -/
  | runOnInput (listener runs : Nat) (program : List Step)
  | clearHandler (listener : Nat)
  | receive (channel : Nat)
  | dropChannel (channel : Nat)
  /-- Stops a mixer for good. -/
  | halt (mixer : Nat)
  | inspectMixer (mixer : Nat)
  | average (mixer : Nat)
  | resetStatistics (mixer : Nat)
  | describeMixer (mixer : Nat)
  | describeSource (source : Nat)
  | describeListener (listener : Nat)
  /-- Repeats a program. -/
  | rounds (times : Nat) (program : List Step)

/-- A source as seen from outside. -/
inductive SourceView where
  | queue (frame buffered : Nat) (dropped : UInt64) (id : SourceId)
  | script (left : Nat) (id : SourceId)
  deriving DecidableEq, Repr

/-- A listener as seen from outside; excluded sources are named by place, each identity by the
first source that has it. -/
structure ListenerView where
  place : Nat
  bits : UInt16
  started : Bool
  pending : Bool
  /-- Whether its mixer has stopped or is gone. -/
  ended : Bool
  excluded : List Nat
  deriving DecidableEq, Repr

/-- A mixer as seen from outside. -/
structure MixerView where
  sources : Nat
  listeners : Nat
  stopped : Bool
  bits : UInt16
  totals : Totals
  average : Float

/-- What a step reports. -/
inductive Outcome where
  | done
  | answer (yes : Bool)
  /-- The place of something new. -/
  | place (index : Nat)
  /-- Samples that a push accepted. -/
  | accepted (count : Nat)
  | drawn (samples : Option (List Sample))
  | report (report : CycleReport)
  | heard (heard : Heard)
  | received (listener : Nat)
  | noneWaiting
  | disconnected
  | source (view : SourceView)
  | listener (view : ListenerView)
  | mixer (view : MixerView)
  | average (value : Float)
  | text (text : String)
  | refused (error : FormatError)
  /-- The step names something that is not there. -/
  | missing
  /-- The reports of the last of several rounds. -/
  | rounds (last : List Outcome)

end Conference
