import Conference.Memory
import Conference.Pcm

/-! Sources of audio. A mixer asks a source for at most one sample set in a cycle. A buffered
source is a bounded queue: it accepts as much of a push as fits, hands out the oldest samples
and counts what it had to drop. -/
namespace Conference

/-- The identity by which listeners exclude a source and mixers detach it. -/
abbrev SourceId := Nat

/-- A bounded queue of samples. -/
structure SampleQueue where
  /-- The most samples handed out at once. -/
  frame : Nat
  capacity : Nat
  /-- Waiting samples, oldest first. -/
  waiting : List Sample
  /-- Samples that found no room. -/
  dropped : UInt64
  frame_pos : 0 < frame
  waiting_le : waiting.length ≤ capacity

namespace SampleQueue

/-- An empty queue; a frame and a capacity of zero count as one. -/
def ofSizes (frame capacity : Nat) : SampleQueue :=
  ⟨max frame 1, max capacity 1, [], 0, by omega, Nat.zero_le _⟩

/-- Whether memory holds a queue of this capacity. -/
def fits (capacity : Nat) : Bool := Memory.holdsSamples capacity

/-- Free places. -/
def room (queue : SampleQueue) : Nat := queue.capacity - queue.waiting.length

/-- How many of `samples` a push accepts. -/
def accepted (queue : SampleQueue) (samples : List Sample) : Nat := min samples.length queue.room

/-- Appends the longest prefix that fits and counts the rest as dropped. -/
def push (queue : SampleQueue) (samples : List Sample) : SampleQueue :=
  { queue with
    waiting := queue.waiting ++ samples.take queue.room
    dropped := queue.dropped + UInt64.ofNat (samples.length - queue.accepted samples)
    waiting_le := by
      have bound := queue.waiting_le
      simp only [List.length_append, List.length_take, room]
      omega }

/-- The oldest samples, at most a frame of them; nothing when none waits. -/
def read (queue : SampleQueue) : Option (List Sample) :=
  if queue.waiting.isEmpty then none else some (queue.waiting.take queue.frame)

/-- The queue after a read. -/
def afterRead (queue : SampleQueue) : SampleQueue :=
  { queue with
    waiting := queue.waiting.drop queue.frame
    waiting_le := by
      have bound := queue.waiting_le
      simp only [List.length_drop]
      omega }

/-- Whether memory has room for a read: for a whole frame, which is made before it is known how much
of one is waiting, and for the shared set of what is handed out. -/
def hasRoom (queue : SampleQueue) : Bool :=
  Memory.holdsSamples queue.frame && Memory.holdsShared (min queue.frame queue.waiting.length)

end SampleQueue

/-- Where a source's samples come from. -/
inductive Feed where
  /-- Samples pushed into a queue. -/
  | queue (waiting : SampleQueue)
  /-- A fixed run of frames, one for each read; an absent frame is a read that finds nothing. -/
  | script (frames : List (Option (List Sample)))

namespace Feed

/-- What a read hands out. -/
def read : Feed → Option (List Sample)
  | .queue waiting => waiting.read
  | .script frames => frames.head?.join

def afterRead : Feed → Feed
  | .queue waiting => .queue waiting.afterRead
  | .script frames => .script frames.tail

/-- Whether memory holds a feed: a queue at its capacity, a script at the longest of its frames, each
of them a shared set. -/
def fits : Feed → Bool
  | .queue waiting => SampleQueue.fits waiting.capacity
  | .script frames => frames.all fun frame => frame.all fun samples =>
      Memory.holdsShared samples.length

/-- Whether memory has room for a read. The frames of a script are there already. -/
def hasRoom : Feed → Bool
  | .queue waiting => waiting.hasRoom
  | .script _ => true

end Feed

/-- A feed under an identity. -/
structure Source where
  id : SourceId
  feed : Feed

namespace SourceId

def name (id : SourceId) : String := s!"source-{id}"

end SourceId

namespace Source

/-- The queue of a source that has one. -/
def queue? (source : Source) : Option SampleQueue :=
  match source.feed with
  | .queue waiting => some waiting
  | .script _ => none

/-- The text that describes a queued source in full. -/
def describe? (source : Source) : Option String :=
  source.queue?.map fun waiting =>
    s!"source-{source.id} BufferedSource \x7b id: SourceId({source.id}), "
      ++ s!"frame_samples: {waiting.frame}, dropped: {waiting.dropped.toNat} \x7d"

end Source

end Conference
