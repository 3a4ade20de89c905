import Conference.Proofs.Rounds
import Conference.Report

/-! The accounts of a whole simulated conference. It comes to its end whenever memory holds it, and
its report follows from the number of participants, the number of cycles and two sizes: what the
queues accept of a cycle's frames is mixed in the same cycle, and what they do not is counted. -/
namespace Conference.ConferenceAccounts
open Simulation Rounds

/-! ## A cycle -/

section
variable {settings : MixSettings} {count rounds spoken : Nat} {now : Moment} {exchange : Exchange}

/-- All who have not spoken yet do so, in order. -/
theorem speak_reached {participants : List Participant}
    (places : participants.map Participant.place = List.range' spoken left)
    (all : spoken + left = count) (reached : Reached settings count now rounds spoken exchange) :
    Reached settings count now rounds count (speak settings.frameSamples participants exchange).2 ∧
      (speak settings.frameSamples participants exchange).1.map Participant.place =
        participants.map Participant.place := by
  induction participants generalizing spoken left exchange with
  | nil =>
    cases left with
    | zero => exact ⟨all ▸ reached, rfl⟩
    | succ left => cases places
  | cons participant rest ih =>
    cases left with
    | zero => cases places
    | succ left =>
      rw [List.map_cons, List.range'_succ] at places
      obtain ⟨here, later⟩ := List.cons.inj places
      subst here
      have spoke := reached.speaks (by omega) (participant.tone.length_frame settings.frameSamples)
      obtain ⟨others, same⟩ := ih later (by omega) spoke
      exact ⟨others, by simp only [speak, List.map_cons, same]⟩

theorem hear_reached {participant : Participant} (there : participant.place < count)
    (reached : Reached settings count now rounds spoken exchange) :
    Reached settings count now rounds spoken (hear participant exchange).2 ∧
      (hear participant exchange).1.place = participant.place := by
  unfold hear
  split
  · have received := reached.hears (.receive participant.place)
    split
    · rename_i after took
      rw [took] at received
      have read := received.hears (.read there)
      split
      · rename_i heard
        rw [heard] at read
        exact ⟨read, rfl⟩
      · rename_i heard
        rw [heard] at read
        exact ⟨read.hears (.dropChannel _), rfl⟩
      · rename_i heard
        rw [heard] at read
        exact ⟨read, rfl⟩
    · rename_i took
      rw [took] at received
      exact ⟨received, rfl⟩
  · exact ⟨reached, rfl⟩

theorem hear_all_reached {participants : List Participant}
    (there : ∀ place ∈ participants.map Participant.place, place < count)
    (reached : Reached settings count now rounds spoken exchange) :
    Reached settings count now rounds spoken (hearAll participants exchange).2 ∧
      (hearAll participants exchange).1.map Participant.place =
        participants.map Participant.place := by
  induction participants generalizing exchange with
  | nil => exact ⟨reached, rfl⟩
  | cons participant rest ih =>
    obtain ⟨first, others⟩ := List.forall_mem_cons.mp there
    obtain ⟨heard, same⟩ := hear_reached first reached
    obtain ⟨later, places⟩ := ih others heard
    exact ⟨later, by simp only [hearAll, List.map_cons, same, places]⟩

end

/-! ## From beginning to end -/

/-- A conference of so many cycles after the first `done` of them. -/
def after (settings : Settings) (count cycles : Nat) (now : Moment) :
    Nat → Except SimulationError Simulation
  | 0 => opening settings count now
  | done + 1 => after settings count cycles now done >>= fun simulation =>
    simulation.advance done cycles

section
variable {settings : Settings} {count cycles done : Nat} {now : Moment} {simulation : Simulation}

/-- What has failed goes on to fail. -/
theorem after_failed (failed : after settings count cycles now done = .error error) (more : Nat) :
    after settings count cycles now (done + more) = .error error := by
  induction more with
  | zero => exact failed
  | succ more ih =>
    rw [← Nat.add_assoc, after, ih]
    rfl

/-- What is left of a conference when some cycles are. -/
theorem cycles_from (there : after settings count cycles now done = .ok simulation)
    (all : done + left = cycles) :
    cyclesFrom cycles left simulation = after settings count cycles now cycles := by
  induction left generalizing done simulation with
  | zero => exact all ▸ there.symm
  | succ left ih =>
    have next : after settings count cycles now (done + 1) = simulation.advance done cycles := by
      rw [after, there]
      rfl
    have cycle : cycles - (left + 1) = done := by omega
    rw [cyclesFrom, cycle]
    cases advanced : simulation.advance done cycles with
    | error e =>
      have failed := after_failed (next.trans advanced) left
      rw [Nat.add_right_comm, Nat.add_assoc, all] at failed
      rw [failed]
    | ok later => exact ih (next.trans advanced) (by omega)

/-- A conference runs through its cycles and closes. -/
theorem run_after (settings : Settings) (count cycles : Nat) (now : Moment) :
    run settings count cycles now = (after settings count cycles now cycles).map close := by
  have start : opening settings count now = after settings count cycles now 0 := rfl
  rw [run, start]
  cases opened : after settings count cycles now 0 with
  | error e =>
    have failed := after_failed opened cycles
    rw [Nat.zero_add] at failed
    rw [failed]
    rfl
  | ok simulation =>
    simp only [cycles_from opened (Nat.zero_add cycles)]
    cases after settings count cycles now cycles <;> rfl

/-- A conference under way: nobody has left, and the negotiation goes by its script. -/
structure UnderWay (settings : Settings) (count cycles : Nat) (now : Moment) (done : Nat)
    (simulation : Simulation) : Prop where
  same : simulation.settings = settings
  reached : Reached settings.mix count now done 0 simulation.exchange
  desk : simulation.desk = NegotiationScript.deskAfter settings.texts cycles done
  places : simulation.participants.map Participant.place = List.range count

theorem advance_under_way (way : UnderWay settings count cycles now done simulation) :
    ∃ next, simulation.advance done cycles = .ok next ∧
      UnderWay settings count cycles now (done + 1) next := by
  obtain ⟨same, reached, script, places⟩ := way
  obtain ⟨_, exchange, desk, people⟩ := simulation
  simp only at same reached script places
  obtain rfl := same.symm
  subst script
  obtain ⟨spoken, spokenPlaces⟩ := speak_reached (places.trans List.range_eq_range')
    (Nat.zero_add _) reached
  have there : ∀ place ∈ (speak settings.mix.frameSamples people exchange).1.map Participant.place,
      place < count := by
    rw [spokenPlaces, places]
    exact fun place => List.mem_range.mp
  obtain ⟨heard, heardPlaces⟩ := hear_all_reached there spoken.mixes
  refine ⟨⟨settings, _, NegotiationScript.deskAfter settings.texts cycles (done + 1), _⟩, ?_,
    rfl, heard, rfl, heardPlaces.trans (spokenPlaces.trans places)⟩
  simp only [advance, NegotiationScript.negotiate_succeeds]

/-- No cycle of a conference fails. -/
theorem after_under_way (valid : settings.mix.format.validate = .ok limit)
    (room : fits settings.mix count = true) (cycles : Nat) (now : Moment) (done : Nat) :
    ∃ simulation, after settings count cycles now done = .ok simulation ∧
      UnderWay settings count cycles now done simulation := by
  induction done with
  | zero =>
    obtain ⟨people, opened, places⟩ := Assembly.opening_gathers valid room now
    exact ⟨_, opened, rfl, .gathered, rfl, places⟩
  | succ done ih =>
    obtain ⟨simulation, came, way⟩ := ih
    obtain ⟨next, advanced, later⟩ := advance_under_way way
    refine ⟨next, ?_, later⟩
    rw [after, came]
    exact advanced

end

/-! ## The end -/

/-- Sources, statistics and memory are the same in two exchanges. -/
structure Settled (before after : Exchange) : Prop where
  sources : after.sources = before.sources
  stats : after.mixers.map Mixer.stats = before.mixers.map Mixer.stats
  room : after.exhausted = before.exhausted

/-- What is done at the end. -/
inductive Leaving : Step → Prop where
  | halt (mixer : Nat) : Leaving (.halt mixer)
  | stop (listener : Nat) : Leaving (.stop listener)
  | clearHandler (listener : Nat) : Leaving (.clearHandler listener)

section
variable {exchange : Exchange}

theorem settled_refl (exchange : Exchange) : Settled exchange exchange := ⟨rfl, rfl, rfl⟩

theorem update_mixer_settled (mixer : Nat) {change : Mixer → Mixer}
    (same : ∀ found, (change found).stats = found.stats) :
    Settled exchange (exchange.updateMixer mixer change) :=
  ⟨rfl, CycleCourse.map_modify_same same mixer, rfl⟩

theorem unregister_settled (mixer listener : Nat) :
    Settled exchange (exchange.unregister mixer listener).2 := by
  have updated : Settled exchange (exchange.updateMixer mixer fun found =>
      found.unregister listener) := update_mixer_settled mixer fun _ => rfl
  unfold Exchange.unregister
  split
  · exact settled_refl exchange
  split
  · exact ⟨rfl, updated.stats, rfl⟩
  · exact settled_refl exchange

theorem stop_settled (listener : Nat) : Settled exchange (exchange.stop listener).2 := by
  unfold Exchange.stop
  split
  · exact settled_refl exchange
  split
  · exact ⟨rfl, rfl, rfl⟩
  · exact unregister_settled _ listener

theorem leaving_settled (leaving : Leaving step) : Settled exchange (exchange.step step).2 := by
  cases leaving with
  | halt mixer =>
    simp only [Exchange.step, Exchange.perform, Exchange.onMixer, Exchange.onFound]
    split
    · exact settled_refl exchange
    · exact update_mixer_settled mixer fun _ => rfl
  | stop listener =>
    simp only [Exchange.step, Exchange.perform, Exchange.onListener, Exchange.onFound]
    split
    · exact settled_refl exchange
    · exact stop_settled listener
  | clearHandler listener =>
    simp only [Exchange.step, Exchange.perform, Exchange.onListener, Exchange.onFound]
    split <;> exact ⟨rfl, rfl, rfl⟩

theorem leave_settled {program : List Step} (leaving : ∀ step ∈ program, Leaving step) :
    Settled exchange (exchange.run program).2 := by
  induction program generalizing exchange with
  | nil => exact settled_refl exchange
  | cons step rest ih =>
    obtain ⟨first, others⟩ := List.forall_mem_cons.mp leaving
    have now : Settled exchange (exchange.step step).2 := leaving_settled first
    have later : Settled (exchange.step step).2 (exchange.run (step :: rest)).2 := ih others
    exact ⟨later.sources.trans now.sources, later.stats.trans now.stats, later.room.trans now.room⟩

end

theorem close_settled (simulation : Simulation) :
    Settled simulation.exchange simulation.close.exchange := by
  change Settled simulation.exchange (simulation.exchange.run (.halt mixer ::
    simulation.participants.flatMap fun participant =>
      [.stop participant.place, .clearHandler participant.place])).2
  refine leave_settled fun step member => ?_
  rcases List.mem_cons.mp member with rfl | later
  · exact .halt mixer
  · obtain ⟨participant, -, leaves⟩ := List.mem_flatMap.mp later
    simp only [List.mem_cons, List.not_mem_nil, or_false] at leaves
    rcases leaves with rfl | rfl
    · exact .stop participant.place
    · exact .clearHandler participant.place

theorem close_untold (simulation : Simulation) :
    simulation.close.desk.told = simulation.desk.told :=
  NegotiationScript.ended_untold _ rfl

/-! ## Statistics -/

section
variable {stats : Statistics} {speakers cycles : Nat}

theorem clocked_totals (clocked : Clocked speakers cycles stats) (going : 1 ≤ cycles) :
    stats.totals.cycles = cycles ∧
      stats.totals.emptyCycles = (if speakers = 0 then cycles else 0) ∧
      stats.totals.peakSources = speakers := by
  obtain ⟨log, ⟨-, totals, -⟩, same⟩ := clocked
  rw [totals]
  generalize StatisticsLog.sinceReset log = recent at same
  refine ⟨?_, ?_, ?_⟩
  · have length := congrArg List.length same
    rwa [List.length_map, List.length_replicate] at length
  · -- Cycles without speakers are counted among their numbers of speakers, which all agree.
    have empty := congrArg (List.countP (· = 0)) same
    rw [List.countP_map, List.countP_replicate] at empty
    simp only [decide_eq_true_eq] at empty
    exact empty
  · simp only [StatisticsLog.totalsOf, same]
    rw [List.max?_replicate_of_pos going, Option.getD_some]

theorem clocked_history (clocked : Clocked speakers cycles stats) :
    stats.history.map CycleRecord.sources =
      List.replicate (min Statistics.minute cycles) speakers := by
  obtain ⟨log, ⟨-, -, history⟩, same⟩ := clocked
  have length := congrArg List.length same
  rw [List.length_map, List.length_replicate] at length
  rw [history, StatisticsLog.latest, List.rtake, length, List.map_drop, same, List.drop_replicate]
  congr 1
  omega

/-- A multitude that a word holds easily is averaged exactly. -/
theorem clocked_average (clocked : Clocked speakers cycles stats) (going : 1 ≤ cycles)
    (few : speakers < 2 ^ 40) :
    DoubleRounding.number? stats.averageSources = some (speakers : ℚ) := by
  have history := clocked_history clocked
  have length : stats.history.length = min Statistics.minute cycles := by
    simpa using congrArg List.length history
  have sum : stats.remembered = speakers * stats.history.length := by
    rw [StatisticsLog.remembered_sources, StatisticsLog.sourcesOf, history, List.sum_replicate,
      length, smul_eq_mul, Nat.mul_comm]
  have short : stats.history.length ≤ 3000 := length ▸ Nat.min_le_left _ _
  have some : 0 < stats.history.length := by
    rw [length, Statistics.minute]
    omega
  have product : speakers * stats.history.length ≤ 2 ^ 40 * 3000 := Nat.mul_le_mul few.le short
  rw [Statistics.averageSources, if_neg, sum]
  · exact DoubleRounding.whole_quotient some (by omega) (by omega)
  · simpa using List.length_pos_iff.mp some

end

/-! ## The report -/

/-- What a report says of a conference of so many participants and cycles. -/
structure Reported (settings : MixSettings) (count cycles : Nat) (report : Report) : Prop where
  mixed : report.totals.cycles = cycles
  silent : report.totals.emptyCycles = if settings.frameSamples = 0 then cycles else 0
  peak : report.totals.peakSources = if settings.frameSamples = 0 then 0 else count
  average : DoubleRounding.number? report.average =
    some (if settings.frameSamples = 0 then 0 else (count : ℚ))
  places : report.participants.map ParticipantReport.place = List.range count
  dropped : ∀ participant ∈ report.participants, participant.dropped.toNat =
    cycles * (settings.frameSamples - max settings.sourceCapacity 1)
  told : report.securityUpdates = NegotiationScript.updatesIn cycles

section
variable {settings : Settings} {count cycles : Nat} {now : Moment} {simulation : Simulation}

/-- Between two cycles no samples wait. -/
theorem under_way_empty (room : fits settings.mix count = true)
    (way : UnderWay settings count cycles now done simulation) (inside : place < count) :
    ∃ queue, simulation.exchange.queue? place = some queue ∧ queue.waiting = [] ∧
      queue.dropped = UInt64.ofNat (done * lost settings.mix) := by
  obtain ⟨queue, there, known⟩ := (reached_seated room way.reached).stocked.queues place inside
  rw [InRound, if_neg (Nat.not_lt_zero place)] at known
  refine ⟨queue, ?_, List.eq_nil_of_length_eq_zero known.waiting, known.dropped⟩
  rw [Exchange.queue?, there]
  rfl

theorem turnout_zero_iff {settings : MixSettings} (somebody : 1 ≤ count) :
    turnout settings count = 0 ↔ settings.frameSamples = 0 := by
  rw [turnout]
  split <;> omega

/-- In every cycle a participant loses what its queue cannot hold. -/
theorem participant_dropped (room : fits settings.mix count = true)
    (short : cycles * settings.mix.frameSamples < 2 ^ 64)
    (way : UnderWay settings count cycles now cycles simulation) {participant : Participant}
    (inside : participant.place < count) : (simulation.close.dropped participant).toNat =
      cycles * (settings.mix.frameSamples - max settings.mix.sourceCapacity 1) := by
  obtain ⟨queue, there, -, dropped⟩ := under_way_empty room way inside
  have counted : simulation.close.dropped participant = queue.dropped := by
    rw [Simulation.dropped, (close_settled simulation).sources, ← Exchange.queue?, there]
    rfl
  have fewer : cycles * lost settings.mix < UInt64.size :=
    Nat.lt_of_le_of_lt (Nat.mul_le_mul_left cycles (Nat.sub_le _ _)) short
  rw [counted, dropped, UInt64.toNat_ofNat_of_lt' fewer, lost]

theorem close_reported (somebody : 1 ≤ count) (going : 1 ≤ cycles)
    (room : fits settings.mix count = true) (short : cycles * settings.mix.frameSamples < 2 ^ 64)
    (few : count < 2 ^ 40) (way : UnderWay settings count cycles now cycles simulation)
    (started finished : Moment) :
    Reported settings.mix count cycles
      (Report.ofSimulation simulation.close cycles started finished) := by
  obtain ⟨clock, mixers, clocked⟩ := (reached_seated room way.reached).presides
  have clockTold : simulation.close.statistics = clock := by
    rw [Simulation.statistics, ← Array.getElem?_map, (close_settled simulation).stats,
      Array.getElem?_map, mixers]
    rfl
  have turnoutFew : turnout settings.mix count < 2 ^ 40 := by
    rw [turnout]
    split <;> omega
  obtain ⟨mixed, silent, peak⟩ := clocked_totals clocked going
  have average := clocked_average clocked going turnoutFew
  refine ⟨?_, ?_, ?_, ?_, ?_, ?_, ?_⟩
  · simp only [Report.ofSimulation, clockTold, mixed]
  · simp only [Report.ofSimulation, clockTold, silent, turnout_zero_iff somebody]
  · simp only [Report.ofSimulation, clockTold, peak, turnout]
  · simp only [Report.ofSimulation, clockTold, average, turnout, Nat.cast_ite, Nat.cast_zero]
  · simp only [Report.ofSimulation, List.map_map]
    exact way.places
  · intro reported member
    obtain ⟨participant, attends, rfl⟩ := List.mem_map.mp member
    have inside : participant.place < count :=
      List.mem_range.mp (way.places ▸ List.mem_map_of_mem attends)
    exact participant_dropped room short way inside
  · rw [Report.ofSimulation]
    simp only [Simulation.securityUpdates, close_untold, way.desk]
    exact NegotiationScript.updates_after settings.texts cycles

/-- A conference that memory holds comes to its end, with every queue empty after each cycle. Its
report follows from the number of participants and cycles, the frame size and the capacity, also
where participants read their mixes at other times. -/
theorem conference_accounted (somebody : 1 ≤ count) (going : 1 ≤ cycles)
    (valid : settings.mix.format.validate = .ok limit) (room : fits settings.mix count = true)
    (short : cycles * settings.mix.frameSamples < 2 ^ 64) (few : count < 2 ^ 40)
    (now started finished : Moment) :
    (∀ done ≤ cycles, ∃ simulation, after settings count cycles now done = .ok simulation ∧
      ∀ place < count, ∃ queue, simulation.exchange.queue? place = some queue ∧
        queue.waiting = []) ∧
    (∃ simulation, run settings count cycles now = .ok simulation ∧
      simulation.exchange.exhausted = false ∧
      Reported settings.mix count cycles (Report.ofSimulation simulation cycles started finished)) ∧
    ∀ simulation, UnderWay settings count cycles now cycles simulation →
      Reported settings.mix count cycles
        (Report.ofSimulation simulation.close cycles started finished) := by
  have reported (simulation : Simulation)
      (way : UnderWay settings count cycles now cycles simulation) :
      Reported settings.mix count cycles
        (Report.ofSimulation simulation.close cycles started finished) :=
    close_reported somebody going room short few way started finished
  refine ⟨fun done _ => ?_, ?_, reported⟩
  · obtain ⟨simulation, came, way⟩ := after_under_way valid room cycles now done
    refine ⟨simulation, came, fun place inside => ?_⟩
    obtain ⟨queue, there, empty, -⟩ := under_way_empty room way inside
    exact ⟨queue, there, empty⟩
  · obtain ⟨simulation, came, way⟩ := after_under_way valid room cycles now cycles
    refine ⟨simulation.close, ?_, ?_, reported simulation way⟩
    · rw [run_after, came]
      rfl
    · exact (close_settled simulation).room.trans (reached_seated room way.reached).room

end

/-- Frames of 160 samples for queues of 100. -/
def cramped : Settings :=
  { Settings.standard with mix := { MixSettings.standard with sourceCapacity := 100 } }

theorem cramped_conference_accounted :
    cramped.mix.format.validate = .ok 32767 ∧ fits cramped.mix 3 = true ∧
    (∃ simulation, after cramped 3 6 0 4 = .ok simulation ∧
      ∀ place < 3, ∃ queue, simulation.exchange.queue? place = some queue ∧ queue.waiting = []) ∧
    ∃ simulation, run cramped 3 6 0 = .ok simulation ∧
      let report := Report.ofSimulation simulation 6 0 0
      report.totals.cycles = 6 ∧ report.totals.emptyCycles = 0 ∧ report.totals.peakSources = 3 ∧
      DoubleRounding.number? report.average = some 3 ∧
      report.participants.map ParticipantReport.place = [0, 1, 2] ∧
      (∀ participant ∈ report.participants, participant.dropped.toNat = 360) ∧
      report.securityUpdates = 3 := by
  have valid : cramped.mix.format.validate = .ok 32767 := rfl
  have room : fits cramped.mix 3 = true := by decide
  obtain ⟨empty, ⟨simulation, ran, -, report⟩, -⟩ := conference_accounted (by decide) (by decide)
    valid room (by decide : 6 * 160 < 2 ^ 64) (by decide) 0 0 0
  exact ⟨valid, room, empty 4 (by decide), simulation, ran, report.mixed, report.silent,
    report.peak, report.average, report.places, report.dropped, report.told⟩

/-- Queues of as many samples as a word can count, which no block of memory holds. -/
def boundless : Settings :=
  { Settings.standard with mix := { MixSettings.standard with sourceCapacity := 2 ^ 64 - 1 } }

theorem boundless_queue_fails :
    boundless.mix.format.validate = .ok 32767 ∧ 1 * boundless.mix.frameSamples < 2 ^ 64 ∧
      run boundless 1 1 0 = .error .exhausted :=
  ⟨rfl, by decide, rfl⟩

end Conference.ConferenceAccounts
