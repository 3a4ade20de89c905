import Conference.Memory

/-! Notification channels. A channel queues the listeners that have new input; when it is full a
notification is dropped, because a queued one already stands for the latest input. -/
namespace Conference

/-- A bounded queue of listeners, open as long as someone receives. -/
structure Channel where
  capacity : Nat
  queue : List Nat
  receiving : Bool
  deriving DecidableEq, Repr

namespace Channel

/-- An empty channel; a capacity of zero counts as one. -/
def ofCapacity (capacity : Nat) : Channel := ⟨max capacity 1, [], true⟩

/-- Whether memory holds a channel of this capacity, with 16 bytes for each notification. -/
def fits (capacity : Nat) : Bool := Memory.holds 16 capacity

/-- Queues a notification unless the channel is full or closed. -/
def offer (channel : Channel) (listener : Nat) : Channel :=
  if channel.receiving && decide (channel.queue.length < channel.capacity) then
    { channel with queue := channel.queue ++ [listener] }
  else channel

/-- The oldest notification is taken. -/
def dequeue (channel : Channel) : Channel := { channel with queue := channel.queue.tail }

def close (channel : Channel) : Channel := { channel with receiving := false }

end Channel

end Conference
