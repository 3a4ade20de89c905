import Mathlib.Data.List.DropRight
import Mathlib.Data.List.Induction
import Conference.Statistics
import Conference.Proofs.DoubleRounding

/-! Statistics as an account of a log. Totals are those of all that happened since the last reset; the
history holds the last cycles of the same time, and the average is theirs alone. It is a quotient of
doubles: near the exact average, and not above the peak as long as the sum that is divided has no more
than 53 bits. -/
namespace Conference.StatisticsLog
open Statistics DoubleRounding RoundingError

/-! ## The log -/

/-- What statistics are told. -/
inductive Occurrence where
  | cycle (now : Moment) (cycle : CycleRecord)
  | delivery (samples : Nat)
  | underrun
  | reset
  deriving DecidableEq, Repr

def record (stats : Statistics) : Occurrence → Statistics
  | .cycle now cycle => stats.recordCycle now cycle
  | .delivery samples => stats.recordDelivery samples
  | .underrun => stats.recordUnderrun
  | .reset => stats.reset

/-- Statistics after all that a log tells. -/
def recorded (capacity : Nat) (log : List Occurrence) : Statistics :=
  log.foldl record (ofCapacity capacity)

/-- Statistics that memory has room for record a log in this way. -/
theorem recorded_of_made {capacity : Nat} (made : ofCapacity? capacity = some stats)
    (log : List Occurrence) : log.foldl record stats = recorded capacity log := by
  unfold ofCapacity? at made
  split at made
  · cases made
    rfl
  · cases made

/-- The part of a log after its last reset. -/
def sinceReset (log : List Occurrence) : List Occurrence := log.rtakeWhile (· ≠ .reset)

def cycle? : Occurrence → Option (Moment × CycleRecord)
  | .cycle now cycle => some (now, cycle)
  | _ => none

def delivery? : Occurrence → Option Nat
  | .delivery samples => some samples
  | _ => none

def cycles (log : List Occurrence) : List CycleRecord := (log.filterMap cycle?).map Prod.snd

def deliveries (log : List Occurrence) : List Nat := log.filterMap delivery?

/-- The totals of a log without a reset. -/
def totalsOf (log : List Occurrence) : Totals where
  cycles := (cycles log).length
  emptyCycles := (cycles log).countP (·.sources = 0)
  framesDelivered := (deliveries log).length
  samplesDelivered := (deliveries log).sum
  underruns := log.count .underrun
  peakSources := ((cycles log).map CycleRecord.sources).max?.getD 0
  lastCycle := ((log.filterMap cycle?).map Prod.fst).getLast?

/-- The last cycles, as many as are kept. -/
def latest (capacity : Nat) (cycles : List CycleRecord) : List CycleRecord :=
  cycles.rtake (min capacity cycles.length)

/-- Speaking sources of some cycles together. -/
def sourcesOf (cycles : List CycleRecord) : Nat := (cycles.map CycleRecord.sources).sum

/-- The sums of a log fit 64-bit words. -/
structure Fits (capacity : Nat) (log : List Occurrence) : Prop where
  cycles : (totalsOf log).cycles < 2 ^ 64
  frames : (totalsOf log).framesDelivered < 2 ^ 64
  samples : (totalsOf log).samplesDelivered < 2 ^ 64
  underruns : (totalsOf log).underruns < 2 ^ 64
  sources : sourcesOf (latest capacity (StatisticsLog.cycles log)) < 2 ^ 64

/-! ## One occurrence -/

/-- Statistics are those of a log without a reset. -/
structure Accounts (capacity : Nat) (log : List Occurrence) (stats : Statistics) : Prop where
  kept : stats.capacity = capacity
  totals : stats.totals = totalsOf log
  history : stats.history = latest capacity (cycles log)

variable {capacity : Nat} {log : List Occurrence} {stats : Statistics}

theorem since_reset_snoc (log : List Occurrence) (last : Occurrence) : sinceReset (log ++ [last]) =
    if last = .reset then [] else sinceReset log ++ [last] := by
  rw [sinceReset, List.rtakeWhile_concat]
  by_cases reset : last = .reset <;> simp [reset, sinceReset]

theorem max_snoc (earlier : List Nat) (last : Nat) :
    (earlier ++ [last]).max?.getD 0 = max (earlier.max?.getD 0) last := by
  cases earlier with
  | nil => simp
  | cons first rest =>
    rw [List.cons_append, List.max?_cons', List.max?_cons', List.foldl_append]
    rfl

/-- A full history gives up its oldest cycle for a new one. -/
theorem latest_snoc (positive : 0 < capacity) (earlier : List CycleRecord) (last : CycleRecord) :
    latest capacity (earlier ++ [last]) = (if capacity ≤ (latest capacity earlier).length
      then (latest capacity earlier).tail else latest capacity earlier) ++ [last] := by
  obtain ⟨room, rfl⟩ : ∃ room, capacity = room + 1 := ⟨capacity - 1, by omega⟩
  have count : (latest (room + 1) earlier).length = min (room + 1) earlier.length := by
    rw [latest, List.rtake, List.length_drop]
    omega
  rw [count]
  split
  · rename_i full
    have whole : min (room + 1) (earlier ++ [last]).length = room + 1 := by
      rw [List.length_append]
      omega
    have kept : min (room + 1) earlier.length = room + 1 := by omega
    rw [latest, whole, latest, kept, List.rtake_concat_succ, List.rtake, List.rtake, List.tail_drop]
    congr 2
    omega
  · rename_i space
    have whole : min (room + 1) (earlier ++ [last]).length = earlier.length + 1 := by
      rw [List.length_append, List.length_singleton]
      omega
    have kept : min (room + 1) earlier.length = earlier.length := by omega
    rw [latest, whole, latest, kept, List.rtake_concat_succ]

theorem latest_nil (capacity : Nat) : latest capacity [] = [] := by
  simp [latest]

theorem view_snoc {α : Type} (view : Occurrence → Option α) (log : List Occurrence)
    (last : Occurrence) :
    (log ++ [last]).filterMap view = log.filterMap view ++ (view last).toList := by
  cases seen : view last <;> simp [seen]

theorem cycles_snoc (log : List Occurrence) (last : Occurrence) :
    cycles (log ++ [last]) = cycles log ++ ((cycle? last).map Prod.snd).toList := by
  rw [cycles, view_snoc, List.map_append, cycles]
  cases cycle? last <;> rfl

theorem deliveries_snoc (log : List Occurrence) (last : Occurrence) :
    deliveries (log ++ [last]) = deliveries log ++ (delivery? last).toList :=
  view_snoc delivery? log last

/-- The totals of a cycle more. -/
theorem totals_cycle (log : List Occurrence) (now : Moment) (cycle : CycleRecord) :
    totalsOf (log ++ [.cycle now cycle]) = { totalsOf log with
      cycles := (totalsOf log).cycles + 1
      emptyCycles := if cycle.sources = 0 then (totalsOf log).emptyCycles + 1
        else (totalsOf log).emptyCycles
      peakSources := max (totalsOf log).peakSources cycle.sources
      lastCycle := some now } := by
  by_cases empty : cycle.sources = 0 <;>
    simp [totalsOf, cycles_snoc, deliveries_snoc, cycle?, delivery?, max_snoc, empty]

theorem totals_delivery (log : List Occurrence) (samples : Nat) :
    totalsOf (log ++ [.delivery samples]) = { totalsOf log with
      framesDelivered := (totalsOf log).framesDelivered + 1
      samplesDelivered := (totalsOf log).samplesDelivered + samples } := by
  simp [totalsOf, cycles_snoc, deliveries_snoc, cycle?, delivery?]

theorem totals_underrun (log : List Occurrence) : totalsOf (log ++ [.underrun]) =
    { totalsOf log with underruns := (totalsOf log).underruns + 1 } := by
  simp [totalsOf, cycles_snoc, deliveries_snoc, cycle?, delivery?]

theorem record_accounts (positive : 0 < capacity)
    (accounts : Accounts capacity (sinceReset log) stats) (last : Occurrence) :
    Accounts capacity (sinceReset (log ++ [last])) (record stats last) := by
  obtain ⟨same, totals, history⟩ := accounts
  rw [since_reset_snoc]
  generalize sinceReset log = recent at totals history
  cases last with
  | cycle now cycle =>
    have more : cycles (recent ++ [.cycle now cycle]) = cycles recent ++ [cycle] :=
      cycles_snoc recent _
    rw [if_neg nofun]
    refine ⟨same, ?_, ?_⟩
    · rw [totals_cycle, ← totals]
      rfl
    · rw [more, latest_snoc positive, ← history, ← same]
      rfl
  | delivery samples =>
    have others : cycles (recent ++ [.delivery samples]) = cycles recent := by
      simpa [cycle?] using cycles_snoc recent (.delivery samples)
    rw [if_neg nofun]
    refine ⟨same, ?_, others ▸ history⟩
    rw [totals_delivery, ← totals]
    rfl
  | underrun =>
    have others : cycles (recent ++ [.underrun]) = cycles recent := by
      simpa [cycle?] using cycles_snoc recent .underrun
    rw [if_neg nofun]
    refine ⟨same, ?_, others ▸ history⟩
    rw [totals_underrun, ← totals]
    rfl
  | reset => exact ⟨same, rfl, (latest_nil capacity).symm⟩

theorem recorded_accounts (capacity : Nat) (log : List Occurrence) :
    Accounts (max capacity 1) (sinceReset log) (recorded capacity log) := by
  induction log using List.reverseRecOn with
  | nil => exact ⟨rfl, rfl, (latest_nil _).symm⟩
  | append_singleton earlier last ih =>
    rw [recorded, List.foldl_append]
    exact record_accounts (at_least_one capacity) ih last

/-! ## Sums and averages -/

theorem remembered_sources (stats : Statistics) : stats.remembered = sourcesOf stats.history := by
  rw [remembered, sourcesOf, List.sum, List.foldr_map]

theorem le_peak (member : cycle ∈ cycles log) : cycle.sources ≤ (totalsOf log).peakSources :=
  List.le_max?_getD_of_mem (List.mem_map_of_mem member)

/-- No cycle had more sources than the peak, so neither has their average. -/
theorem sources_le_peak (capacity : Nat) (log : List Occurrence) :
    sourcesOf (latest capacity (cycles log)) ≤
      (totalsOf log).peakSources * (latest capacity (cycles log)).length := by
  have each : ∀ sources ∈ (latest capacity (cycles log)).map CycleRecord.sources,
      sources ≤ (totalsOf log).peakSources := by
    intro sources member
    obtain ⟨cycle, kept, rfl⟩ := List.mem_map.mp member
    exact le_peak (List.mem_of_mem_drop kept)
  simpa [sourcesOf, Nat.mul_comm] using List.sum_le_card_nsmul _ _ each

theorem latest_length (capacity : Nat) (cycles : List CycleRecord) :
    (latest capacity cycles).length = min capacity cycles.length := by
  rw [latest, List.rtake, List.length_drop]
  omega

/-- As long as every sum fits a word, there is a summary. -/
theorem summary_of_fits (accounts : Accounts capacity log stats) (fits : Fits capacity log) :
    stats.summary? = some (totalsOf log, stats.averageSources) := by
  obtain ⟨-, totals, history⟩ := accounts
  have empty : (totalsOf log).emptyCycles ≤ (totalsOf log).cycles := List.countP_le_length
  have small : stats.sums.all (· < 1 <<< 64) = true := by
    have cycles := fits.cycles
    have sources := fits.sources
    rw [← history, ← remembered_sources] at sources
    simp only [sums, totals, List.all_cons, List.all_nil, Bool.and_true, Bool.and_eq_true,
      decide_eq_true_eq]
    exact ⟨cycles, empty.trans_lt cycles, fits.frames, fits.samples, fits.underruns, sources⟩
  rw [summary?, if_pos small, totals]

/-- What statistics say follows from the log since its last reset, wherever memory holds them at all.
The exact average is never above the peak; the average that they say is near it, and is not above
the peak either unless the sum of sources is too large for 53 bits. -/
theorem log_summarised (capacity : Nat) (log : List Occurrence)
    (fits : Fits (max capacity 1) (sinceReset log)) :
    let recent := sinceReset log
    let window := latest (max capacity 1) (cycles recent)
    let stats := recorded capacity log
    (∀ made, ofCapacity? capacity = some made → log.foldl record made = stats) ∧
    stats.summary? = some (totalsOf recent, stats.averageSources) ∧ stats.history = window ∧
    stats.averageSources = (if window = [] then 0 else
      (UInt64.ofNat (sourcesOf window)).toFloat / (UInt64.ofNat window.length).toFloat) ∧
    (sourcesOf window / window.length : ℚ) ≤ (totalsOf recent).peakSources ∧
    ∃ average, number? stats.averageSources = some average ∧
      Near 51 (sourcesOf window / window.length) average ∧
      (sourcesOf window ≤ 2 ^ 53 → average ≤ (totalsOf recent).peakSources) := by
  intro recent window stats
  have accounts : Accounts (max capacity 1) recent stats := recorded_accounts capacity log
  have formula : stats.averageSources = (if window = [] then 0 else
      (UInt64.ofNat (sourcesOf window)).toFloat / (UInt64.ofNat window.length).toFloat) := by
    rw [averageSources, remembered_sources, accounts.history]
    simp only [List.isEmpty_iff]
    rfl
  have peak := sources_le_peak (max capacity 1) recent
  refine ⟨fun _ made => recorded_of_made made log, summary_of_fits accounts fits, accounts.history,
    formula, ?_, ?_⟩
  · exact div_le_of_le_mul₀ (Nat.cast_nonneg _) (Nat.cast_nonneg _) (by exact_mod_cast peak)
  · rw [formula]
    by_cases none : window = []
    · refine ⟨0, by rw [if_pos none]; rfl, ?_, fun _ => Nat.cast_nonneg _⟩
      simpa [none] using near_self 51 0
    · have some : 0 < window.length := List.length_pos_iff.mpr none
      have short : window.length < 2 ^ 64 := by
        rw [latest_length]
        exact (min_le_right _ _).trans_lt fits.cycles
      obtain ⟨average, shown, near, below⟩ := quotient_near_exact fits.sources some short
      refine ⟨average, by rw [if_neg none]; exact shown, near, ?_⟩
      intro few
      exact below few _ peak

/-- Much happens before the reset, and the busiest cycle after it is forgotten first. -/
def turbulent : List Occurrence :=
  [.cycle 1 ⟨9, 160, 3⟩, .delivery 160, .underrun, .reset, .cycle 2 ⟨7, 160, 3⟩, .delivery 160,
    .cycle 3 ⟨0, 0, 3⟩, .underrun, .cycle 4 ⟨3, 160, 3⟩, .delivery 80]

theorem forgotten_peak_counts :
    Fits 2 (sinceReset turbulent) ∧
    (recorded 2 turbulent).summary? =
      some (⟨3, 1, 2, 240, 1, 7, some 4⟩, (recorded 2 turbulent).averageSources) ∧
    (recorded 2 turbulent).history = [⟨0, 0, 3⟩, ⟨3, 160, 3⟩] ∧
    ∃ average, number? (recorded 2 turbulent).averageSources = some average ∧
      Near 51 (3 / 2) average ∧ average ≤ 7 := by
  have fits : Fits 2 (sinceReset turbulent) :=
    ⟨by decide, by decide, by decide, by decide, by decide⟩
  obtain ⟨-, summary, history, -, -, average, shown, near, below⟩ := log_summarised 2 turbulent fits
  exact ⟨fits, summary, history, average, shown, near, below (by decide)⟩

/-- Three cycles with so many sources that their sum has more than 53 bits. -/
def crowded : List Occurrence := List.replicate 3 (.cycle 0 ⟨3002399751580333, 1, 1⟩)

/-- The sum is rounded up before it is divided, and the average is half a source above the peak. -/
theorem crowded_average_above_peak :
    Fits 3 (sinceReset crowded) ∧ (recorded 3 crowded).totals.peakSources = 3002399751580333 ∧
    number? (recorded 3 crowded).averageSources = some (3002399751580333 + 1 / 2) := by
  refine ⟨⟨by decide, by decide, by decide, by decide, by decide⟩, by decide, ?_⟩
  decide +kernel

end Conference.StatisticsLog
