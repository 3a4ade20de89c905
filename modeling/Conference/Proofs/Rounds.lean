import Conference.Proofs.Assembly
import Conference.Proofs.CycleCourse
import Conference.Proofs.Handoff
import Conference.Proofs.StatisticsLog

/-! The rounds of a simulated conference. In a round every participant speaks a frame and the mixer
mixes what they spoke; in between participants read their mixes. What the queues hold and drop and
what the statistics say of the cycles follows from the settings: no tone and no reading matters. -/
namespace Conference.Rounds
open Simulation Assembly
open StatisticsLog (Accounts Occurrence cycle? sinceReset)
open CycleCourse (offered offers opened speechOf)

/-! ## Queues -/

/-- The samples of a spoken frame that find room. -/
def kept (settings : MixSettings) : Nat := min settings.frameSamples (max settings.sourceCapacity 1)

/-- The samples of a spoken frame that find none. -/
def lost (settings : MixSettings) : Nat := settings.frameSamples - max settings.sourceCapacity 1

/-- A participant's queue after so many spoken frames, with so many samples that still wait. -/
structure Stock (settings : MixSettings) (frames waiting : Nat) (queue : SampleQueue) : Prop where
  frame : queue.frame = max settings.frameSamples 1
  capacity : queue.capacity = max settings.sourceCapacity 1
  waiting : queue.waiting.length = waiting
  dropped : queue.dropped = UInt64.ofNat (frames * lost settings)

section
variable {settings : MixSettings} {queue : SampleQueue}

theorem stock_fresh (settings : MixSettings) : Stock settings 0 0
    (SampleQueue.ofSizes settings.frameSamples settings.sourceCapacity) :=
  ⟨rfl, rfl, rfl, by rw [Nat.zero_mul]; rfl⟩

theorem stock_spoken (stock : Stock settings frames 0 queue)
    (length : samples.length = settings.frameSamples) :
    Stock settings (frames + 1) (kept settings) (queue.push samples) := by
  obtain ⟨frame, capacity, waiting, dropped⟩ := stock
  have room : queue.room = max settings.sourceCapacity 1 := by
    rw [SampleQueue.room, waiting, capacity, Nat.sub_zero]
  refine ⟨frame, capacity, ?_, ?_⟩
  · simp only [SampleQueue.push, List.length_append, List.length_take, waiting, room, length, kept]
    omega
  · have missing : samples.length - queue.accepted samples = lost settings := by
      rw [SampleQueue.accepted, room, length, lost]
      omega
    simp only [SampleQueue.push]
    rw [missing, dropped, ← UInt64.ofNat_add, Nat.succ_mul]

theorem stock_mixed (stock : Stock settings frames (kept settings) queue) :
    Stock settings frames 0 queue.afterRead := by
  obtain ⟨frame, capacity, waiting, dropped⟩ := stock
  refine ⟨frame, capacity, ?_, dropped⟩
  simp only [SampleQueue.afterRead, List.length_drop, waiting, frame, kept]
  omega

end

/-! ## Statistics -/

/-- How many speak in a cycle. -/
def turnout (settings : MixSettings) (count : Nat) : Nat :=
  if settings.frameSamples = 0 then 0 else count

/-- Statistics of so many cycles, each with the same number of speakers. -/
def Clocked (speakers cycles : Nat) (stats : Statistics) : Prop :=
  ∃ log, Accounts Statistics.minute (sinceReset log) stats ∧
    (StatisticsLog.cycles (sinceReset log)).map CycleRecord.sources =
      List.replicate cycles speakers

section
variable {stats : Statistics}

theorem clocked_fresh (speakers : Nat) : Clocked speakers 0 Statistics.empty :=
  ⟨[], StatisticsLog.recorded_accounts Statistics.minute [], rfl⟩

theorem clocked_cycle (clocked : Clocked speakers cycles stats) (now : Moment)
    (sources : cycle.sources = speakers) :
    Clocked speakers (cycles + 1) (stats.recordCycle now cycle) := by
  obtain ⟨log, accounts, same⟩ := clocked
  refine ⟨log ++ [.cycle now cycle], StatisticsLog.record_accounts (by decide) accounts _, ?_⟩
  rw [StatisticsLog.since_reset_snoc, if_neg nofun, StatisticsLog.cycles_snoc, List.map_append,
    same, List.replicate_succ', ← sources]
  rfl

/-- Reads are recorded too, but not as cycles. -/
theorem clocked_read (clocked : Clocked speakers cycles stats) (occurrence : Occurrence)
    (lasting : occurrence ≠ .reset) (aside : cycle? occurrence = none) :
    Clocked speakers cycles (StatisticsLog.record stats occurrence) := by
  obtain ⟨log, accounts, same⟩ := clocked
  refine ⟨log ++ [occurrence], StatisticsLog.record_accounts (by decide) accounts _, ?_⟩
  rw [StatisticsLog.since_reset_snoc, if_neg lasting, StatisticsLog.cycles_snoc, aside,
    List.map_append, same]
  exact List.append_nil _

end

/-! ## The exchange of a conference -/

/-- Every participant has a listener of its own, with a handler that notifies its channel. -/
structure Wired (settings : MixSettings) (count : Nat) (exchange : Exchange) : Prop where
  listeners : ∀ place < count, ∃ pending, exchange.listeners[place]? =
      some { joinedListener settings.format place with pending } ∧
    ∀ input ∈ pending, Memory.holdsSamples input.length = true
  handlers : ∀ place < count, ∃ calls, exchange.handlers[place]? = some { bell place with calls }
  room : exchange.exhausted = false

/-- One mixer, with everybody at its table, has run so many cycles. -/
def Presides (settings : MixSettings) (count rounds : Nat) (mixers : Array Mixer) : Prop :=
  ∃ stats, mixers = #[{ table settings.format count count with stats }] ∧
    Clocked (turnout settings count) rounds stats

/-- A queue after so many rounds, while so many participants have spoken in the next one: only
theirs have samples waiting. -/
def InRound (settings : MixSettings) (rounds spoken place : Nat) (queue : SampleQueue) : Prop :=
  if place < spoken then Stock settings (rounds + 1) (kept settings) queue
  else Stock settings rounds 0 queue

/-- Every participant has such a queue, and there are no other sources. -/
structure Stocked (settings : MixSettings) (count rounds spoken : Nat) (sources : Array Source) :
    Prop where
  queues : ∀ place < count, ∃ queue,
    sources[place]? = some ⟨voiceOf place, .queue queue⟩ ∧
      InRound settings rounds spoken place queue
  nowhere : ∀ place, count ≤ place → sources[place]? = none

/-- An exchange after so many rounds, while so many participants have spoken in the next one. -/
structure Seated (settings : MixSettings) (count rounds spoken : Nat) (exchange : Exchange) : Prop
    extends Wired settings count exchange where
  presides : Presides settings count rounds exchange.mixers
  stocked : Stocked settings count rounds spoken exchange.sources

variable {settings : MixSettings} {count rounds spoken : Nat} {exchange : Exchange}

theorem assembled_seated (settings : MixSettings) (now : Moment) (count : Nat) :
    Seated settings count 0 0 (assembled settings now count) := by
  refine ⟨⟨fun place there => ⟨none, ?_, nofun⟩, fun place there => ⟨0, ?_⟩, rfl⟩,
    ⟨Statistics.empty, rfl, clocked_fresh _⟩, ⟨fun place there =>
      ⟨_, ?_, (if_neg (Nat.not_lt_zero _)).mpr (stock_fresh settings)⟩, fun place outside => ?_⟩⟩
  · simp [assembled, hall, getElem?_each there, joinedListener, listener]
  · simp [assembled, hall, getElem?_each there, bell]
  · simp [assembled, hall, getElem?_each there, source]
  · simp [assembled, hall, outside]

/-- Another input is put in place for a participant, or none. -/
theorem pending_wired (wired : Wired settings count exchange) (place : Nat)
    (fits : ∀ input ∈ pending, Memory.holdsSamples input.length = true) :
    Wired settings count (exchange.updateListener place fun found => { found with pending }) := by
  refine ⟨fun other inside => ?_, wired.handlers, wired.room⟩
  obtain ⟨waiting, found, room⟩ := wired.listeners other inside
  simp only [Exchange.updateListener, Array.getElem?_modify, found]
  split
  · exact ⟨pending, rfl, fits⟩
  · exact ⟨waiting, rfl, room⟩

/-! ## Speaking -/

/-- The next participant speaks a frame. -/
theorem speaks_seated (seated : Seated settings count rounds spoken exchange)
    (waits : spoken < count) (length : samples.length = settings.frameSamples) :
    Seated settings count rounds (spoken + 1) (exchange.step (.offer spoken samples)).2 := by
  obtain ⟨wired, presides, ⟨queues, nowhere⟩⟩ := seated
  obtain ⟨queue, there, silent⟩ := queues spoken waits
  rw [InRound, if_neg (Nat.lt_irrefl _)] at silent
  have queued : exchange.queue? spoken = some queue := by
    rw [Exchange.queue?, there]
    rfl
  have spoke : (exchange.step (.offer spoken samples)).2 =
      (exchange.updateSource spoken fun found =>
        { found with feed := .queue (queue.push samples) }).note
          (.offered spoken samples (queue.accepted samples)) := by
    simp only [Exchange.step, Exchange.perform, Exchange.onQueue, queued, Exchange.onFound,
      Exchange.offer]
  rw [spoke]
  refine ⟨⟨wired.listeners, wired.handlers, wired.room⟩, presides,
    ⟨fun place inside => ?_, fun place outside => ?_⟩⟩
  · simp only [Exchange.note, Exchange.updateSource, Array.getElem?_modify]
    by_cases here : spoken = place
    · subst here
      refine ⟨queue.push samples, by rw [if_pos rfl, there]; rfl, ?_⟩
      rw [InRound, if_pos (Nat.lt_succ_self _)]
      exact stock_spoken silent length
    · obtain ⟨other, found, known⟩ := queues place inside
      refine ⟨other, by rw [if_neg here, found], ?_⟩
      have same : place < spoken + 1 ↔ place < spoken := by omega
      simpa only [InRound, same] using known
  · simp only [Exchange.note, Exchange.updateSource, Array.getElem?_modify]
    rw [nowhere place outside]
    split <;> rfl

/-! ## Hearing -/

/-- What a participant may do to hear. -/
inductive Hearing (count : Nat) : Step → Prop where
  | receive (place : Nat) : Hearing count (.receive place)
  | read (there : place < count) : Hearing count (.read place)
  | dropChannel (place : Nat) : Hearing count (.dropChannel place)

theorem channel_seated (seated : Seated settings count rounds spoken exchange) (place : Nat)
    (change : Channel → Channel) :
    Seated settings count rounds spoken (exchange.updateChannel place change) :=
  ⟨⟨seated.listeners, seated.handlers, seated.room⟩, seated.presides, seated.stocked⟩

theorem update_presides (presides : Presides settings count rounds exchange.mixers)
    (change : Statistics → Statistics)
    (clocks : ∀ stats, Clocked (turnout settings count) rounds stats →
      Clocked (turnout settings count) later (change stats)) :
    Presides settings count later (exchange.updateMixer mixer fun found =>
      { found with stats := change found.stats }).mixers := by
  obtain ⟨stats, mixers, clocked⟩ := presides
  refine ⟨change stats, ?_, clocks stats clocked⟩
  simp [Exchange.updateMixer, mixers, mixer]

/-- Statistics may record anything but a cycle. -/
theorem statistics_seated (seated : Seated settings count rounds spoken exchange)
    (change : Statistics → Statistics)
    (clocks : ∀ stats, Clocked (turnout settings count) rounds stats →
      Clocked (turnout settings count) rounds (change stats)) :
    Seated settings count rounds spoken (exchange.updateMixer mixer fun found =>
      { found with stats := change found.stats }) :=
  ⟨⟨seated.listeners, seated.handlers, seated.room⟩,
    update_presides seated.presides change clocks, seated.stocked⟩

theorem record_read_seated (seated : Seated settings count rounds spoken exchange)
    {card : Listener} (own : card.mixer = mixer) (heard : Heard) :
    Seated settings count rounds spoken (exchange.recordRead card heard) := by
  unfold Exchange.recordRead
  rw [own]
  split
  · exact seated
  · cases heard with
    | nothing =>
      exact statistics_seated seated _ fun _ clocked => clocked_read clocked .underrun nofun rfl
    | frame bytes =>
      exact statistics_seated seated _ fun _ clocked => clocked_read clocked (.delivery _) nofun rfl
    | failed error => exact seated

theorem read_seated (seated : Seated settings count rounds spoken exchange)
    (there : place < count) :
    Seated settings count rounds spoken (exchange.read place).2 := by
  obtain ⟨card, found, own, fits⟩ : ∃ card, exchange.listeners[place]? = some card ∧
      card.mixer = mixer ∧ ∀ input ∈ card.pending, Memory.holdsSamples input.length = true := by
    obtain ⟨pending, found, fits⟩ := seated.listeners place there
    exact ⟨_, found, rfl, fits⟩
  have taken : Wired settings count (exchange.updateListener place fun found =>
      { found with pending := none }) := pending_wired seated.toWired place nofun
  have holds : card.pending.all fun input =>
      input.isSilent || Memory.holdsSamples input.length := by
    simp only [Option.all_eq_true]
    intro input waits
    rw [fits input waits, Bool.or_true]
  have recorded := record_read_seated ⟨taken, seated.presides, seated.stocked⟩ own card.heard
  simp only [Exchange.read, found, Listener.heard?, holds, ↓reduceIte]
  exact ⟨⟨recorded.listeners, recorded.handlers, recorded.room⟩, recorded.presides,
    recorded.stocked⟩

theorem hears_seated (seated : Seated settings count rounds spoken exchange)
    (hearing : Hearing count step) :
    Seated settings count rounds spoken (exchange.step step).2 := by
  cases hearing with
  | receive place =>
    simp only [Exchange.step, Exchange.perform, Exchange.onChannel, Exchange.onFound]
    split
    · exact seated
    · unfold Exchange.receive
      split
      · exact channel_seated seated place _
      · exact seated
  | @read place there =>
    obtain ⟨pending, found, -⟩ := seated.listeners place there
    have held : exchange.heldListener? place =
        some { joinedListener settings.format place with pending } := by
      rw [Exchange.heldListener?, found]
      rfl
    simp only [Exchange.step, Exchange.perform, Exchange.onListener, held, Exchange.onFound]
    exact read_seated seated there
  | dropChannel place =>
    simp only [Exchange.step, Exchange.perform, Exchange.onFound]
    split
    · exact seated
    · exact channel_seated seated place _

/-! ## Mixing -/

theorem seats_distinct (count : Nat) : ((each count seat).map Attached.source).Nodup := by
  simp [each, seat, Function.comp_def, List.nodup_range]

theorem queue_speaks (one : Attached) (queue : SampleQueue) :
    (speechOf (one, queue.read)).isSome = !queue.waiting.isEmpty := by
  unfold SampleQueue.read
  cases waits : queue.waiting with
  | nil => rfl
  | cons first rest =>
    obtain ⟨frame, same⟩ : ∃ frame, queue.frame = frame + 1 :=
      ⟨queue.frame - 1, (Nat.succ_pred_eq_of_pos queue.frame_pos).symm⟩
    simp [same, speechOf]

/-- As many are heard as speak in a cycle. -/
theorem speeches_counted (stocked : Stocked settings count rounds count exchange.sources) :
    (offered (each count seat) exchange.sources).length = turnout settings count := by
  have speaks : ∀ one ∈ each count seat, (CycleCourse.speechOf
      (one, offers exchange.sources one)).isSome = true ↔ settings.frameSamples ≠ 0 := by
    intro one attends
    obtain ⟨place, there, rfl⟩ := mem_each.mp attends
    obtain ⟨queue, found, known⟩ := stocked.queues place there
    rw [InRound, if_pos there] at known
    have waiting := known.waiting
    have offer : offers exchange.sources (seat place) = queue.read := by
      simp [offers, seat, found, Feed.read]
    rw [offer, queue_speaks, Bool.not_eq_true', List.isEmpty_eq_false_iff, ← List.length_pos_iff,
      waiting, kept]
    omega
  rw [offered, List.length_filterMap_eq_countP, turnout]
  split
  · rename_i silent
    exact List.countP_eq_zero.mpr fun one attends loud => (speaks one attends).mp loud silent
  · rename_i sounding
    rw [List.countP_eq_length.mpr fun one attends => (speaks one attends).mpr sounding, length_each]

/-- A participant's handler notifies its channel. -/
theorem ring_eq (wired : Wired settings count exchange) (there : place < count) (depth : Nat) :
    Handoff.ring (Exchange.respond depth) place exchange =
      (exchange.updateHandler place fun found =>
        { found with calls := found.calls + 1 }).updateChannel place (·.offer place) := by
  obtain ⟨pending, found, -⟩ := wired.listeners place there
  obtain ⟨calls, installed⟩ := wired.handlers place there
  unfold Handoff.ring
  simp only [found, Option.bind_eq_bind, Option.bind_some, joinedListener, listener]
  unfold Exchange.respond
  simp only [installed, bell]

theorem ring_wired (wired : Wired settings count exchange) (place : Nat) :
    Wired settings count ((exchange.updateHandler place fun found =>
      { found with calls := found.calls + 1 }).updateChannel place (·.offer place)) := by
  refine ⟨wired.listeners, fun other inside => ?_, wired.room⟩
  obtain ⟨calls, installed⟩ := wired.handlers other inside
  simp only [Exchange.updateChannel, Exchange.updateHandler, Array.getElem?_modify, installed]
  split
  · exact ⟨calls + 1, rfl⟩
  · exact ⟨calls, rfl⟩

/-- Handing out reaches neither sources nor mixers. -/
theorem feed_wired (wired : Wired settings count exchange) {entries : List Registered}
    (known : ∀ entry ∈ entries, entry.listener < count)
    (fits : Memory.holdsSamples (Speech.longest speeches) = true) (depth cycle : Nat) :
    let after := Exchange.feed (Exchange.respond depth) cycle speeches entries exchange
    Wired settings count after ∧ after.sources = exchange.sources ∧
      after.mixers = exchange.mixers := by
  induction entries generalizing exchange with
  | nil => exact ⟨wired, rfl, rfl⟩
  | cons entry rest ih =>
    have waiting : Wired settings count (exchange.updateListener entry.listener fun found =>
        { found with pending := some (CycleCourse.share speeches entry) }) := by
      refine pending_wired wired entry.listener fun input waits => ?_
      cases waits
      exact fits
    have placed : Wired settings count (Handoff.place entry.listener (some cycle)
        (CycleCourse.share speeches entry) exchange) :=
      ⟨waiting.listeners, waiting.handlers, waiting.room⟩
    rw [CycleCourse.feed_cons, Handoff.hand_eq, ring_eq placed (known entry List.mem_cons_self)]
    exact ih (ring_wired placed entry.listener) fun one later =>
      known one (List.mem_cons_of_mem _ later)

theorem stocked_source {sources : Array Source}
    (stocked : Stocked settings count rounds spoken sources) {found : Source} {place : Nat}
    (there : sources[place]? = some found) :
    ∃ queue, found.feed = .queue queue ∧ queue.frame = max settings.frameSamples 1 ∧
      queue.capacity = max settings.sourceCapacity 1 ∧ queue.waiting.length ≤ kept settings := by
  have inside : place < count := by
    by_contra outside
    rw [stocked.nowhere place (Nat.le_of_not_lt outside)] at there
    cases there
  obtain ⟨queue, same, known⟩ := stocked.queues place inside
  cases there.symm.trans same
  obtain ⟨frames, waiting, stock, few⟩ : ∃ frames waiting,
      Stock settings frames waiting queue ∧ waiting ≤ kept settings := by
    unfold InRound at known
    split at known
    · exact ⟨_, _, known, Nat.le_refl _⟩
    · exact ⟨_, _, known, Nat.zero_le _⟩
  exact ⟨queue, rfl, stock.frame, stock.capacity, stock.waiting.trans_le few⟩

/-- The mixer has read what everybody spoke. -/
theorem opened_stocked {found : Mixer} (attached : found.sources = each count seat)
    (stocked : Stocked settings count rounds count exchange.sources) :
    Stocked settings count (rounds + 1) 0 (opened mixer found exchange).sources := by
  have distinct : (found.sources.map Attached.source).Nodup := attached ▸ seats_distinct count
  have sources (place : Nat) : (opened mixer found exchange).sources[place]? = _ :=
    CycleCourse.draw_all_sources distinct place
  refine ⟨fun place inside => ?_, fun place outside => ?_⟩
  · obtain ⟨queue, there, known⟩ := stocked.queues place inside
    rw [InRound, if_pos inside] at known
    refine ⟨queue.afterRead, ?_, (if_neg (Nat.not_lt_zero _)).mpr (stock_mixed known)⟩
    have member : place ∈ found.sources.map Attached.source := by
      rw [attached]
      simp [each, seat, inside]
    rw [sources, if_pos member, there]
    rfl
  · rw [sources, stocked.nowhere place outside]
    split <;> rfl

theorem opened_wired {found : Mixer} (wired : Wired settings count exchange)
    (stocked : Stocked settings count rounds spoken exchange.sources)
    (frames : Memory.holdsSamples settings.frameSamples = true)
    (sets : Memory.holdsShared (kept settings) = true) :
    Wired settings count (opened mixer found exchange) := by
  obtain ⟨listeners, handlers⟩ := CycleCourse.draw_all_aside found.sources exchange
  have enough : (Exchange.drawAll found.sources exchange).2.exhausted = exchange.exhausted := by
    refine CycleCourse.draw_all_room fun one _ source there => ?_
    obtain ⟨queue, feed, frame, -, few⟩ := stocked_source stocked there
    rw [feed, Feed.hasRoom, SampleQueue.hasRoom, Bool.and_eq_true, frame]
    exact ⟨queue_fits frames, Memory.shared_of_le sets ((Nat.min_le_right _ _).trans few)⟩
  exact ⟨fun place inside => listeners ▸ wired.listeners place inside,
    fun place inside => handlers ▸ wired.handlers place inside, enough.trans wired.room⟩

theorem opened_presides {found : Mixer}
    (presides : Presides settings count rounds exchange.mixers) :
    Presides settings count rounds (opened mixer found exchange).mixers := by
  have same : (opened mixer found exchange).mixers = exchange.mixers :=
    CycleCourse.draw_all_mixers found.sources exchange
  rwa [same]

/-- Memory holds whatever is spoken in a cycle. -/
theorem speeches_fit {sources : Array Source}
    (stocked : Stocked settings count rounds spoken sources)
    (room : SampleQueue.fits settings.sourceCapacity = true) :
    Memory.holdsSamples (Speech.longest (offered (each count seat) sources)) = true := by
  refine CycleCourse.longest_fits fun place found there => ?_
  obtain ⟨queue, feed, -, capacity, -⟩ := stocked_source stocked there
  rw [feed, Feed.fits, capacity]
  exact queue_fits room

/-- A cycle is recorded with all that spoke in it. -/
theorem finish_seated (report : CycleReport) (wired : Wired settings count exchange)
    (presides : Presides settings count rounds exchange.mixers)
    (stocked : Stocked settings count (rounds + 1) 0 exchange.sources)
    (speaking : report.speaking = turnout settings count) (cycle : Nat) :
    Seated settings count (rounds + 1) 0 (exchange.finish mixer cycle report) :=
  ⟨⟨wired.listeners, wired.handlers, wired.room⟩,
    update_presides presides _ fun _ clocked => clocked_cycle clocked exchange.now speaking,
    stocked⟩

/-- All participants have spoken, and the mixer mixes. -/
theorem cycle_seated (fits : fits settings count = true)
    (seated : Seated settings count rounds count exchange) (depth : Nat) :
    Seated settings count (rounds + 1) 0
      (Exchange.runCycle (Exchange.respond depth) mixer exchange).2 := by
  simp only [Simulation.fits, Bool.and_eq_true] at fits
  obtain ⟨⟨⟨⟨-, queues⟩, -⟩, frames⟩, sets⟩ := fits
  obtain ⟨stats, mixers, -⟩ := seated.presides
  obtain ⟨found, there, running, attached, registered⟩ : ∃ found,
      exchange.mixers[mixer]? = some found ∧ found.stopped = false ∧
        found.sources = each count seat ∧ found.listeners = each count ear :=
    ⟨_, by rw [mixers]; rfl, rfl, rfl, rfl⟩
  have heard : CycleCourse.spoken found.sources exchange.sources =
      offered (each count seat) exchange.sources := by
    rw [attached]
    exact CycleCourse.spoken_of_distinct (seats_distinct count)
  have counted := speeches_counted seated.stocked
  have wired : Wired settings count (opened mixer found exchange) :=
    opened_wired seated.toWired seated.stocked frames sets
  have presides : Presides settings count rounds (opened mixer found exchange).mixers :=
    opened_presides seated.presides
  have stocked := opened_stocked attached seated.stocked
  -- Either way the queues were read; only what is handed out differs.
  by_cases silent : offered (each count seat) exchange.sources = []
  · rw [CycleCourse.run_cycle_silent there running (heard.trans silent)]
    rw [silent] at counted
    exact finish_seated .idle wired presides stocked counted exchange.cycles
  · rw [CycleCourse.run_cycle_heard there running heard silent]
    have known : ∀ entry ∈ found.listeners, entry.listener < count := by
      rw [registered]
      intro entry member
      obtain ⟨place, inside, rfl⟩ := mem_each.mp member
      exact inside
    have held : Wired settings count ((opened mixer found exchange).holding
        ⟨[mixer], found.listeners.map Registered.listener⟩) :=
      ⟨wired.listeners, wired.handlers, wired.room⟩
    obtain ⟨fed, sources, mixers⟩ := feed_wired held known
      (speeches_fit seated.stocked queues) depth exchange.cycles
    have finished := finish_seated
      ⟨_, Speech.longest (offered (each count seat) exchange.sources), found.listeners.length⟩
      fed (mixers ▸ presides) (sources ▸ stocked) counted exchange.cycles
    exact ⟨⟨finished.listeners, finished.handlers, finished.room⟩, finished.presides,
      finished.stocked⟩

theorem mixes_seated (fits : fits settings count = true)
    (seated : Seated settings count rounds count exchange) :
    Seated settings count (rounds + 1) 0 (exchange.step (.cycle mixer)).2 := by
  obtain ⟨stats, mixers, -⟩ := seated.presides
  obtain ⟨found, held⟩ : ∃ found, exchange.heldMixer? mixer = some found :=
    ⟨_, by rw [Exchange.heldMixer?, mixers]; rfl⟩
  simp only [Exchange.step, Exchange.perform, Exchange.onMixer, held, Exchange.onFound]
  exact cycle_seated fits seated _

/-! ## Whole conferences -/

/-- An exchange that a conference may reach after so many rounds, while so many participants have
spoken in the next one. They speak one after another, whatever they say, and the mixer mixes once
all have spoken. When they hear is up to them. -/
inductive Reached (settings : MixSettings) (count : Nat) (now : Moment) :
    Nat → Nat → Exchange → Prop where
  | gathered : Reached settings count now 0 0 (assembled settings now count)
  | speaks {rounds spoken : Nat} {exchange : Exchange} {samples : List Sample}
      (reached : Reached settings count now rounds spoken exchange) (waits : spoken < count)
      (length : samples.length = settings.frameSamples) :
      Reached settings count now rounds (spoken + 1) (exchange.step (.offer spoken samples)).2
  | mixes {rounds : Nat} {exchange : Exchange}
      (reached : Reached settings count now rounds count exchange) :
      Reached settings count now (rounds + 1) 0 (exchange.step (.cycle mixer)).2
  | hears {rounds spoken : Nat} {exchange : Exchange} {step : Step}
      (reached : Reached settings count now rounds spoken exchange) (hearing : Hearing count step) :
      Reached settings count now rounds spoken (exchange.step step).2

/-- However a conference comes about, its accounts are those of its rounds. -/
theorem reached_seated (fits : fits settings count = true)
    (reached : Reached settings count now rounds spoken exchange) :
    Seated settings count rounds spoken exchange := by
  induction reached with
  | gathered => exact assembled_seated settings now count
  | speaks _ waits length seated => exact speaks_seated seated waits length
  | mixes _ seated => exact mixes_seated fits seated
  | hears _ hearing seated => exact hears_seated seated hearing

end Conference.Rounds
