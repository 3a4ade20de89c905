import Conference.Proofs.NegotiationScript

/-! How a simulated conference gathers. Participants join one after another. Each of them adds a
source, a listener and a channel, so that what belongs to a participant lies at its own place and
everything is in order of joining. -/
namespace Conference.Assembly
open Simulation

/-! ## What belongs to a participant -/

/-- What there is for each of `count` participants, in order. -/
def each (count : Nat) (item : Nat → α) : List α := (List.range count).map item

section
variable {count : Nat} {item : Nat → α}

theorem each_succ (count : Nat) (item : Nat → α) :
    each (count + 1) item = each count item ++ [item count] := by
  simp [each, List.range_succ]

@[simp] theorem length_each : (each count item).length = count := by simp [each]

theorem getElem?_each (there : place < count) : (each count item)[place]? = some (item place) := by
  simp [each, there]

theorem mem_each : one ∈ each count item ↔ ∃ place < count, item place = one := by simp [each]

private theorem modify_last (items : List α) (last : α) (change : α → α) :
    (items ++ [last]).modify items.length change = items ++ [change last] := by
  induction items with
  | nil => rfl
  | cons first rest ih => simpa using ih

end

/-- Identities are given from one on. -/
def voiceOf (place : Nat) : SourceId := place + 1

def source (settings : MixSettings) (place : Nat) : Source :=
  ⟨voiceOf place, .queue (SampleQueue.ofSizes settings.frameSamples settings.sourceCapacity)⟩

def seat (place : Nat) : Attached := ⟨place, voiceOf place⟩

/-- A participant hears all but itself. -/
def ear (place : Nat) : Registered := ⟨place, [voiceOf place]⟩

/-- A participant's listener while it joins. -/
def listener (format : SampleFormat) (handler : Option Nat) (started : Bool) (place : Nat) :
    Listener :=
  ⟨mixer, format, [voiceOf place], none, handler, started, true⟩

/-- A participant's listener once it has joined. -/
def joinedListener (format : SampleFormat) (place : Nat) : Listener :=
  listener format (some place) true place

def bell (place : Nat) : Handler := ⟨.notify place, 0, 0⟩

/-- The mixer once so many sources are attached and so many listeners registered. -/
def table (format : SampleFormat) (seated hearing : Nat) : Mixer :=
  ⟨format, each seated seat, each hearing ear, false, Statistics.empty, true⟩

section
variable {format : SampleFormat} {count seated hearing : Nat}

theorem seat_attached :
    (table format count hearing).attach (seat count) = table format (count + 1) hearing := by
  have new : (table format count hearing).attaches (voiceOf count) = false := by
    simp [Mixer.attaches, table, each, seat, voiceOf]
    omega
  rw [Mixer.attach, seat, new, table, table, each_succ]
  rfl

theorem ear_unregistered : (table format seated count).registers count = false := by
  simp [Mixer.registers, table, each, ear]
  omega

theorem ear_registered :
    (table format seated count).register (ear count) = table format seated (count + 1) := by
  rw [Mixer.register, ear, ear_unregistered, table, table, each_succ]
  rfl

end

/-! ## Joining -/

/-- An exchange in which participants are joining: so many have a source, an attached source, a
registered listener and a channel. -/
def hall (settings : MixSettings) (now : Moment) (speaking seated hearing belled : Nat)
    (listeners : List Listener) : Exchange where
  mixers := #[table settings.format seated hearing]
  sources := (each speaking (source settings)).toArray
  listeners := listeners.toArray
  channels := (each belled fun _ => Channel.ofCapacity settings.handoffCapacity).toArray
  handlers := (each belled bell).toArray
  holds := []
  nextId := voiceOf speaking
  cycles := 0
  now := now
  journal := #[]
  exhausted := false

/-- An exchange that so many participants have joined. -/
def assembled (settings : MixSettings) (now : Moment) (count : Nat) : Exchange :=
  hall settings now count count count count (each count (joinedListener settings.format))

section
variable {settings : MixSettings} {now : Moment} {count speaking seated hearing belled : Nat}
  {listeners : List Listener}

theorem mixer_added (valid : settings.format.validate = .ok limit) (now : Moment) :
    ({ Exchange.empty with now }.step (.addMixer settings.format)).2 =
      assembled settings now 0 := by
  simp only [Exchange.step, Exchange.perform, Mixer.ofFormat, valid]
  rfl

theorem queue_added (room : SampleQueue.fits (max settings.sourceCapacity 1) = true) :
    ((hall settings now count seated hearing belled listeners).step
        (.addQueue settings.frameSamples settings.sourceCapacity)).2 =
      hall settings now (count + 1) seated hearing belled listeners := by
  simp [Exchange.step, Exchange.perform, Exchange.addNewSource, Exchange.addSource, hall,
    Exchange.demand, Feed.fits, SampleQueue.ofSizes, room, each_succ, source, voiceOf]

theorem held_mixer : (hall settings now speaking seated hearing belled listeners).heldMixer? mixer =
    some (table settings.format seated hearing) := rfl

theorem seat_taken (there : count < speaking) :
    ((hall settings now speaking count hearing belled listeners).step (.attach mixer count)).2 =
      hall settings now speaking (count + 1) hearing belled listeners := by
  have found : (hall settings now speaking count hearing belled listeners).sources[count]? =
      some (source settings count) := by
    simp [hall, getElem?_each there]
  have attached := @seat_attached settings.format count hearing
  simp only [Exchange.step, Exchange.perform, Exchange.onMixer, Exchange.onSource, held_mixer,
    found, Exchange.onFound]
  simpa [Exchange.updateMixer, hall, mixer, seat, source] using attached

theorem listener_added (there : count < speaking) :
    ((hall settings now speaking seated hearing belled listeners).step
        (.addListener mixer [count])).2 =
      hall settings now speaking seated hearing belled
        (listeners ++ [listener settings.format none false count]) := by
  have ids : (hall settings now speaking seated hearing belled listeners).idsOf? [count] =
      some [voiceOf count] := by
    simp [Exchange.idsOf?, hall, getElem?_each there, source]
  simp only [Exchange.step, Exchange.perform, Exchange.onMixer, Exchange.onIds, held_mixer, ids,
    Exchange.onFound]
  simp [hall, listener, table]

theorem last_listener (length : listeners.length = count) (last : Listener) :
    (hall settings now speaking seated hearing belled (listeners ++ [last])).listeners[count]? =
      some last := by
  simp [hall, ← length]

theorem last_held (length : listeners.length = count) (handler : Option Nat) :
    (hall settings now speaking seated hearing belled
        (listeners ++ [listener settings.format handler false count])).heldListener? count =
      some (listener settings.format handler false count) := by
  rw [Exchange.heldListener?, last_listener length]
  rfl

theorem channel_opened (room : Channel.fits settings.handoffCapacity = true)
    (length : listeners.length = count) :
    ((hall settings now speaking seated hearing count
        (listeners ++ [listener settings.format none false count])).step
        (.notifyOnInput count settings.handoffCapacity)).2 =
      hall settings now speaking seated hearing (count + 1)
        (listeners ++ [listener settings.format (some count) false count]) := by
  simp only [Exchange.step, Exchange.perform, Exchange.onListener, last_held length,
    Exchange.onFound]
  simp [hall, Exchange.setHandler, Exchange.demand, room, Exchange.updateListener, each_succ, bell,
    ← length, listener, modify_last]

theorem listener_started (length : listeners.length = count) :
    ((hall settings now speaking seated count belled
        (listeners ++ [listener settings.format (some count) false count])).step (.start count)).2 =
      hall settings now speaking seated (count + 1) belled
        (listeners ++ [joinedListener settings.format count]) := by
  have started : ((hall settings now speaking seated count belled
      (listeners ++ [listener settings.format (some count) false count])).step (.start count)).2 =
        ((hall settings now speaking seated count belled
          (listeners ++ [listener settings.format (some count) false count])).register
            mixer count).2 := by
    simp only [Exchange.step, Exchange.perform, Exchange.onListener, last_held length,
      Exchange.onFound, Exchange.start, last_listener length]
    rfl
  have found : (hall settings now speaking seated count belled
      (listeners ++ [listener settings.format (some count) false count])).mixers[mixer]? =
        some (table settings.format seated count) := rfl
  have registered := @ear_registered settings.format count seated
  rw [started, Exchange.register, found, last_listener length]
  simp only [ear_unregistered]
  simpa [hall, mixer, Exchange.updateListener, Exchange.updateMixer, listener, joinedListener, ear,
    ← length, modify_last] using registered

/-- One more participant joins. -/
theorem joining_seats (queueFits : SampleQueue.fits (max settings.sourceCapacity 1) = true)
    (channelFits : Channel.fits settings.handoffCapacity = true) :
    ((assembled settings now count).run (joining settings count)).2 =
      assembled settings now (count + 1) := by
  simp only [joining, Exchange.run, assembled]
  rw [queue_added queueFits, seat_taken (Nat.lt_succ_self count),
    listener_added (Nat.lt_succ_self count), channel_opened channelFits length_each,
    listener_started length_each, each_succ]

/-! ## The opening -/

theorem queue_fits (fits : SampleQueue.fits capacity = true) :
    SampleQueue.fits (max capacity 1) = true := by
  rcases Nat.eq_zero_or_pos capacity with rfl | some
  · rfl
  · rwa [Nat.max_eq_left some]

/-- Participants that can be mixed find their places, in order. -/
theorem join_seats (valid : settings.format.validate = .ok limit)
    (queueFits : SampleQueue.fits (max settings.sourceCapacity 1) = true)
    (channelFits : Channel.fits settings.handoffCapacity = true) (place : Nat) :
    ∃ participants, join settings count place (assembled settings now place) =
        .ok (participants, assembled settings now (place + count)) ∧
      participants.map Participant.place = List.range' place count := by
  induction count generalizing place with
  | zero => exact ⟨[], rfl, rfl⟩
  | succ count ih =>
    obtain ⟨others, joined, places⟩ := ih (place + 1)
    obtain ⟨tone, voiced⟩ : ∃ tone, voice settings place = .ok tone := by
      simp [voice, Tone.ofFormat, valid]
    refine ⟨⟨place, tone, true, 0, 0⟩ :: others, ?_, ?_⟩
    · rw [join, voiced]
      simp only
      rw [joining_seats queueFits channelFits, joined, Nat.add_right_comm, Nat.add_assoc]
    · rw [List.map_cons, places, List.range'_succ]

end

/-- A conference opens as long as its format is valid and memory holds it. -/
theorem opening_gathers {settings : Settings} (valid : settings.mix.format.validate = .ok limit)
    (room : fits settings.mix count = true) (now : Moment) :
    ∃ participants, opening settings count now =
        .ok ⟨settings, assembled settings.mix now count,
          NegotiationScript.startedDesk settings.texts, participants⟩ ∧
      participants.map Participant.place = List.range count := by
  have parts := room
  simp only [fits, Bool.and_eq_true] at parts
  obtain ⟨⟨⟨⟨-, queues⟩, channels⟩, -⟩, -⟩ := parts
  obtain ⟨participants, joined, places⟩ : ∃ participants,
      join settings.mix count 0 (assembled settings.mix now 0) =
          .ok (participants, assembled settings.mix now (0 + count)) ∧
        participants.map Participant.place = List.range' 0 count :=
    join_seats valid (queue_fits queues) channels 0
  rw [Nat.zero_add] at joined
  refine ⟨participants, ?_, by rw [places, List.range_eq_range']⟩
  simp only [opening, Mixer.ofFormat, valid, room, ↓reduceIte, mixer_added valid, joined,
    NegotiationScript.open_desk]

end Conference.Assembly
