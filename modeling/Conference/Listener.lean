import Conference.Mix
import Conference.Pcm
import Conference.Source

/-! Listeners. A listener holds the sample sets of the latest cycle that fed it, already without
the sources it excludes, and mixes them only when it is read. -/
namespace Conference

/-- Sample sets waiting to be mixed, and how long the mix shall be. -/
structure Pending where
  sets : List (List Sample)
  length : Nat
  deriving DecidableEq, Repr

namespace Pending

/-- Whether there is anything to mix. -/
def isSilent (input : Pending) : Bool := input.sets.isEmpty || input.length == 0

/-- The mix as bytes of a format. -/
def render (input : Pending) (format : SampleFormat) : Except FormatError (List UInt8) :=
  match mix input.sets format input.length with
  | .error e => .error e
  | .ok samples => Pcm.encode samples format

end Pending

/-- What a read finds. -/
inductive Heard where
  /-- Nothing to mix. -/
  | nothing
  /-- The mix of the latest input, as bytes. -/
  | frame (bytes : List UInt8)
  /-- The format cannot carry a mix. -/
  | failed (error : FormatError)
  deriving DecidableEq, Repr

/-- A listener of one mixer. `handler` is notified of new input; `held` tells whether anyone
outside the mixers still refers to the listener. -/
structure Listener where
  mixer : Nat
  format : SampleFormat
  excluded : List SourceId
  pending : Option Pending
  handler : Option Nat
  started : Bool
  held : Bool

namespace Listener

/-- What reading the listener finds; the pending input is used up whatever the outcome. -/
def heard (listener : Listener) : Heard :=
  match listener.pending with
  | none => .nothing
  | some input =>
    if input.isSilent then .nothing
    else match input.render listener.format with
      | .error e => .failed e
      | .ok bytes => .frame bytes

/-- What reading the listener finds, unless memory cannot hold the mix. -/
def heard? (listener : Listener) : Option Heard :=
  let fits (input : Pending) : Bool := input.isSilent || Memory.holdsSamples input.length
  if listener.pending.all fits then some listener.heard else none

/-- The name of the listener at a place. -/
def name (place : Nat) : String := s!"stream-{place + 1}"

/-- The text that describes the listener at a place in full. -/
def describe (listener : Listener) (place : Nat) : String :=
  s!"{name place} ListenerStream \x7b id: StreamId({place + 1}), "
    ++ s!"format: {listener.format.describe}, started: {listener.started} \x7d"

end Listener

end Conference
