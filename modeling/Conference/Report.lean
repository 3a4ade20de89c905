import Conference.Decimal.Fixed
import Conference.Moment
import Conference.Settings.Printer
import Conference.Simulation

/-! The report of a conference, as JSON or as text. Some of it differs from run to run; a veil hides
that behind stars, so that reports can be compared. -/
namespace Conference

/-- A participant's part of a report. -/
structure ParticipantReport where
  source : SourceId
  place : Nat
  frequency : Float
  frames : Nat
  bytes : Nat
  dropped : UInt64

structure Report where
  started : Moment
  finished : Moment
  format : SampleFormat
  cycles : Nat
  participants : List ParticipantReport
  totals : Totals
  average : Float
  securityUpdates : Nat

/-- What a report hides. -/
structure Veil where
  /-- Moments and what is reckoned from them. -/
  times : Bool
  /-- Counts that depend on when participants read. -/
  counts : Bool
  deriving DecidableEq, Repr

namespace Veil

def none : Veil := ⟨false, false⟩

/-- Hides what two runs need not have in common. With a single cycle every participant reads once,
whenever that is. -/
def unsteady (cycles : Nat) : Veil := ⟨true, cycles != 1⟩

/-- A text, or a star in its place. -/
def star (hidden : Bool) (text : String) : String := if hidden then "*" else text

def json (hidden : Bool) (value : Json) : Json := if hidden then Json.ofText "*" else value

end Veil

namespace Report

def ofSimulation (simulation : Simulation) (cycles : Nat) (started finished : Moment) : Report where
  started := started
  finished := finished
  format := simulation.settings.mix.format
  cycles := cycles
  participants := simulation.participants.map fun participant =>
    { source := (simulation.exchange.sources[participant.place]?.map Source.id).getD 0
      place := participant.place
      frequency := participant.tone.frequency
      frames := participant.frames
      bytes := participant.bytes
      dropped := simulation.dropped participant }
  totals := simulation.statistics.totals
  average := simulation.statistics.averageSources
  securityUpdates := simulation.securityUpdates

/-! ## As JSON -/

def momentJson (veil : Veil) (moment : Moment) : Json :=
  Veil.json veil.times (Json.ofText (Moment.text moment))

def countJson (veil : Veil) (count : Nat) : Json := Veil.json veil.counts (Json.ofNat count)

def participantJson (veil : Veil) (report : ParticipantReport) : Json :=
  .ofMembers [("source", .ofText (SourceId.name report.source)),
    ("stream", .ofText (Listener.name report.place)),
    ("tone_hz", .ofFloat report.frequency),
    ("frames_received", countJson veil report.frames),
    ("bytes_received", countJson veil report.bytes),
    ("dropped_samples", .ofNat report.dropped.toNat)]

def totalsJson (veil : Veil) (totals : Totals) : Json :=
  .ofMembers [("cycles", .ofNat totals.cycles),
    ("empty_cycles", .ofNat totals.emptyCycles),
    ("frames_delivered", countJson veil totals.framesDelivered),
    ("samples_delivered", countJson veil totals.samplesDelivered),
    ("underruns", countJson veil totals.underruns),
    ("peak_sources", .ofNat totals.peakSources),
    ("last_cycle", totals.lastCycle.elim .null (momentJson veil))]

def toJson (veil : Veil) (report : Report) : Json :=
  .ofMembers [("started_at", momentJson veil report.started),
    ("finished_at", momentJson veil report.finished),
    ("format", report.format.toJson),
    ("cycles", .ofNat report.cycles),
    ("participants", .array (report.participants.map (participantJson veil))),
    ("mixer", totalsJson veil report.totals),
    ("average_sources", .ofFloat report.average),
    ("security_updates", .ofNat report.securityUpdates)]

/-! ## As text -/

/-- A number in a column of its own. -/
def column (width : Nat) (text : List Char) : String := String.ofList (Fixed.alignRight width text)

/-- A count in a column, or a star. -/
def count (veil : Veil) (width n : Nat) : String :=
  Veil.star veil.counts (column width (toString n).toList)

def participantLine (veil : Veil) (report : ParticipantReport) : String :=
  s!"  {SourceId.name report.source} ({column 6 (Fixed.text 1 report.frequency)} Hz)"
    ++ s!" -> {Listener.name report.place}: {count veil 5 report.frames} frames, "
    ++ s!"{count veil 8 report.bytes} bytes, {report.dropped.toNat} dropped"

def rule : String := String.ofList (List.replicate 40 '─')

def lines (veil : Veil) (report : Report) : List String :=
  let totals := report.totals
  let duration := toString (Moment.millisBetween report.started report.finished)
  ["", "Conference summary", rule,
    s!"Cycles: {totals.cycles} | Empty: {totals.emptyCycles}"
      ++ s!" | Frames delivered: {count veil 0 totals.framesDelivered}"
      ++ s!" | Underruns: {count veil 0 totals.underruns}",
    s!"Average speakers per cycle: {String.ofList (Fixed.text 2 report.average)}"]
    ++ report.participants.map (participantLine veil)
    ++ [s!"Security updates: {report.securityUpdates}",
      s!"Duration: {Veil.star veil.times duration} ms"]

end Report

end Conference
