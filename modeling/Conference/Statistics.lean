import Conference.Memory

/-! Statistics of a mixer: totals since the last reset and a bounded history of its most recent
cycles. Only the average looks at the history. Statistics are told in 64-bit words, so that there is
a summary only as long as each of its sums fits one. -/
namespace Conference

/-- A moment of wall-clock time, in nanoseconds since 1970. -/
abbrev Moment := Nat

/-- One mix cycle: the sources that spoke, the longest sample set and the listeners fed. -/
structure CycleRecord where
  sources : Nat
  samples : Nat
  listeners : Nat
  deriving DecidableEq, Repr

/-- Totals over all events since the last reset. -/
structure Totals where
  cycles : Nat
  /-- Cycles in which no source spoke. -/
  emptyCycles : Nat
  framesDelivered : Nat
  samplesDelivered : Nat
  /-- Reads that found nothing to mix. -/
  underruns : Nat
  /-- The most sources that spoke in one cycle. -/
  peakSources : Nat
  /-- When the last cycle ran. -/
  lastCycle : Option Moment
  deriving DecidableEq, Repr

namespace Totals

def zero : Totals := ⟨0, 0, 0, 0, 0, 0, none⟩

end Totals

/-- The totals and the most recent cycles, oldest first. -/
structure Statistics where
  capacity : Nat
  history : List CycleRecord
  totals : Totals
  capacity_pos : 0 < capacity

namespace Statistics

/-- Cycles of 20 ms in a minute. -/
def minute : Nat := 3000

theorem at_least_one (capacity : Nat) : 0 < max capacity 1 := by omega

/-- Keeps at most `capacity` cycles, and at least one. -/
def ofCapacity (capacity : Nat) : Statistics :=
  ⟨max capacity 1, [], Totals.zero, at_least_one capacity⟩

/-- Keeps at most `capacity` cycles, if memory holds as many, of 40 bytes each. -/
def ofCapacity? (capacity : Nat) : Option Statistics :=
  if Memory.holds 40 capacity then some (ofCapacity capacity) else none

def empty : Statistics := ofCapacity minute

/-- A cycle ran. A full history forgets its oldest cycle first. -/
def recordCycle (stats : Statistics) (now : Moment) (cycle : CycleRecord) : Statistics :=
  let kept := if stats.capacity ≤ stats.history.length then stats.history.tail else stats.history
  { stats with
    history := kept ++ [cycle]
    totals := { stats.totals with
      cycles := stats.totals.cycles + 1
      emptyCycles := if cycle.sources = 0 then stats.totals.emptyCycles + 1
        else stats.totals.emptyCycles
      peakSources := max stats.totals.peakSources cycle.sources
      lastCycle := some now } }

/-- A listener's frame of `samples` samples was read. -/
def recordDelivery (stats : Statistics) (samples : Nat) : Statistics :=
  { stats with
    totals := { stats.totals with
      framesDelivered := stats.totals.framesDelivered + 1
      samplesDelivered := stats.totals.samplesDelivered + samples } }

/-- A read found nothing to mix. -/
def recordUnderrun (stats : Statistics) : Statistics :=
  { stats with totals := { stats.totals with underruns := stats.totals.underruns + 1 } }

/-- Forgets everything but the capacity. -/
def reset (stats : Statistics) : Statistics :=
  { stats with history := [], totals := Totals.zero }

/-- Speaking sources of all remembered cycles together. -/
def remembered (stats : Statistics) : Nat :=
  stats.history.foldr (fun cycle rest => cycle.sources + rest) 0

/-- Speaking sources per remembered cycle, zero where none is remembered. -/
def averageSources (stats : Statistics) : Float :=
  if stats.history.isEmpty then 0
  else (UInt64.ofNat stats.remembered).toFloat / (UInt64.ofNat stats.history.length).toFloat

/-- Every sum that a summary tells or needs. -/
def sums (stats : Statistics) : List Nat :=
  let totals := stats.totals
  [totals.cycles, totals.emptyCycles, totals.framesDelivered, totals.samplesDelivered,
    totals.underruns, stats.remembered]

/-- The totals and the average, as long as every sum fits a 64-bit word. -/
def summary? (stats : Statistics) : Option (Totals × Float) :=
  if stats.sums.all (· < 1 <<< 64) then some (stats.totals, stats.averageSources) else none

end Statistics

end Conference
