import Conference.Channel
import Conference.Step

/-! An exchange is a world of mixers, sources, listeners and channels, each addressed by its
place in order of creation. Nothing leaves its place; a mixer or listener that nobody refers to
any more is gone. The journal writes down what passed between them; no operation reads it. -/
namespace Conference

/-- What a handler does when its listener is fed. -/
inductive Reaction where
  /-- Counts its calls. -/
  | count
  /-- Reads the listener. -/
  | read
  /-- Notifies a channel. -/
  | notify (channel : Nat)
  /-- Runs a program, as long as runs are left. -/
  | run (program : List Step)

/-- A handler with its number of calls so far and the runs it has left. -/
structure Handler where
  reaction : Reaction
  calls : Nat
  runsLeft : Nat

/-- What a running operation refers to until it ends. -/
structure Hold where
  mixers : List Nat
  listeners : List Nat

/-- What passed in an exchange. -/
inductive Entry where
  /-- A source was offered samples and accepted the first `accepted` of them. -/
  | offered (source : Nat) (samples : List Sample) (accepted : Nat)
  /-- A source was read. -/
  | drawn (source : Nat) (samples : Option (List Sample))
  /-- A cycle read the sources of its mixer; cycles are numbered in this order. -/
  | began (cycle mixer : Nat) (speeches : List Speech)
  /-- A listener received input, from a cycle or from outside any. -/
  | fed (listener : Nat) (cycle : Option Nat) (input : Pending)
  /-- A cycle ended. -/
  | ended (cycle : Nat) (report : CycleReport)
  /-- A listener was read. -/
  | heard (listener : Nat) (heard : Heard)
  /-- A handler that counts was called for the `calls`-th time. -/
  | counted (listener calls : Nat)
  /-- A handler that reads was called. -/
  | answered (listener : Nat) (heard : Heard)
  /-- A handler ran its program. -/
  | ran (listener : Nat) (outcomes : List Outcome)

structure Exchange where
  mixers : Array Mixer
  sources : Array Source
  listeners : Array Listener
  channels : Array Channel
  handlers : Array Handler
  /-- What the running operations refer to, the innermost first. -/
  holds : List Hold
  /-- The identity of the next source. -/
  nextId : SourceId
  /-- Cycles begun. -/
  cycles : Nat
  /-- The time at which cycles are recorded. -/
  now : Moment
  journal : Array Entry
  /-- Whether an operation needed more room than memory has; what follows it means nothing. -/
  exhausted : Bool

namespace Exchange

def empty : Exchange := ⟨#[], #[], #[], #[], #[], [], 1, 0, 0, #[], false⟩

def updateMixer (exchange : Exchange) (mixer : Nat) (change : Mixer → Mixer) : Exchange :=
  { exchange with mixers := exchange.mixers.modify mixer change }

def updateSource (exchange : Exchange) (source : Nat) (change : Source → Source) : Exchange :=
  { exchange with sources := exchange.sources.modify source change }

def updateListener (exchange : Exchange) (listener : Nat) (change : Listener → Listener) :
    Exchange :=
  { exchange with listeners := exchange.listeners.modify listener change }

def updateChannel (exchange : Exchange) (channel : Nat) (change : Channel → Channel) : Exchange :=
  { exchange with channels := exchange.channels.modify channel change }

def updateHandler (exchange : Exchange) (handler : Nat) (change : Handler → Handler) : Exchange :=
  { exchange with handlers := exchange.handlers.modify handler change }

def note (exchange : Exchange) (entry : Entry) : Exchange :=
  { exchange with journal := exchange.journal.push entry }

/-- An operation needs room, which memory has or has not. -/
def demand (exchange : Exchange) (room : Bool) : Exchange :=
  { exchange with exhausted := exchange.exhausted || !room }

def holding (exchange : Exchange) (hold : Hold) : Exchange :=
  { exchange with holds := hold :: exchange.holds }

def release (exchange : Exchange) : Exchange := { exchange with holds := exchange.holds.tail }

/-- The mixer at a place, unless it was let go. -/
def heldMixer? (exchange : Exchange) (mixer : Nat) : Option Mixer :=
  exchange.mixers[mixer]?.filter (·.held)

/-- The listener at a place, unless it was let go. -/
def heldListener? (exchange : Exchange) (listener : Nat) : Option Listener :=
  exchange.listeners[listener]?.filter (·.held)

/-- The mixer at a place as long as anyone or any running operation refers to it. -/
def liveMixer? (exchange : Exchange) (mixer : Nat) : Option Mixer :=
  exchange.mixers[mixer]?.filter fun found =>
    found.held || exchange.holds.any (·.mixers.contains mixer)

/-- The queue of the source at a place, if it has one. -/
def queue? (exchange : Exchange) (source : Nat) : Option SampleQueue :=
  exchange.sources[source]? >>= Source.queue?

/-- Whether anyone, a running operation or a live mixer refers to a listener. -/
def listenerLives (exchange : Exchange) (listener : Nat) : Bool :=
  (exchange.heldListener? listener).isSome
    || exchange.holds.any (·.listeners.contains listener)
    || (List.range exchange.mixers.size).any fun mixer =>
        (exchange.liveMixer? mixer).any (·.registers listener)

/-- Whether a listener's handler notifies a channel. -/
def notifies (exchange : Exchange) (listener channel : Nat) : Bool :=
  match exchange.listeners[listener]? >>= Listener.handler with
  | none => false
  | some handler =>
    match exchange.handlers[handler]? with
    | some ⟨.notify target, _, _⟩ => target == channel
    | _ => false

/-- Whether a live listener can still notify a channel. -/
def connected (exchange : Exchange) (channel : Nat) : Bool :=
  (List.range exchange.listeners.size).any fun listener =>
    exchange.notifies listener channel && exchange.listenerLives listener

/-- The identities of the sources at these places, if all of them are there. -/
def idsOf? (exchange : Exchange) (places : List Nat) : Option (List SourceId) :=
  places.mapM fun place => exchange.sources[place]?.map Source.id

/-- The places of the first sources that have these identities. -/
def placesOf (exchange : Exchange) (ids : List SourceId) : List Nat :=
  (List.range exchange.sources.size).filter fun place =>
    match exchange.sources[place]? with
    | none => false
    | some source =>
      ids.contains source.id && (exchange.sources.findIdx? (·.id == source.id) == some place)

/-! ## What is seen from outside -/

def viewSource (source : Source) : SourceView :=
  match source.feed with
  | .queue waiting => .queue waiting.frame waiting.waiting.length waiting.dropped source.id
  | .script frames => .script frames.length source.id

/-- Whether a listener's mixer has stopped or is gone. -/
def endOfStream (exchange : Exchange) (listener : Listener) : Bool :=
  match exchange.liveMixer? listener.mixer with
  | none => true
  | some mixer => mixer.stopped

def viewListener (exchange : Exchange) (place : Nat) (listener : Listener) : ListenerView :=
  ⟨place, listener.format.bits, listener.started, listener.pending.isSome,
    exchange.endOfStream listener, exchange.placesOf listener.excluded⟩

def viewMixer (mixer : Mixer) : MixerView :=
  ⟨mixer.sources.length, mixer.listeners.length, mixer.stopped, mixer.format.bits,
    mixer.stats.totals, mixer.stats.averageSources⟩

/-- All that is seen from outside: what was let go shows as absent. -/
structure View where
  mixers : List (Option MixerView)
  sources : List SourceView
  listeners : List (Option ListenerView)

def view (exchange : Exchange) : View where
  mixers := (List.range exchange.mixers.size).map fun place =>
    (exchange.heldMixer? place).map viewMixer
  sources := exchange.sources.toList.map viewSource
  listeners := (List.range exchange.listeners.size).map fun place =>
    (exchange.heldListener? place).map (exchange.viewListener place)

end Exchange

end Conference
