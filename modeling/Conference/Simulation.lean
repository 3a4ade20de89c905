import Conference.Exchange.Run
import Conference.KeyAgreement.Desk
import Conference.Settings
import Conference.Tone

/-! A simulated conference. Every participant speaks a tone of its own and hears a mix without its
own voice, which it reads whenever it is notified; next to the audio a scripted negotiation turns
the call secure. -/
namespace Conference

/-- Why a conference could not be run. -/
inductive SimulationError where
  | format (error : FormatError)
  | session (error : SessionError)
  /-- Memory cannot hold the conference. -/
  | exhausted
  deriving DecidableEq, Repr

namespace SimulationError

/-- The text shown for an error. -/
def message : SimulationError → String
  | format error => error.message
  | session error => error.message
  | exhausted => "capacity overflow"

end SimulationError

/-- A participant. Its source, listener and channel all have its own place in the exchange. -/
structure Participant where
  place : Nat
  tone : Tone
  /-- Whether it still reads its mix; a mix that cannot be read ends that. -/
  listening : Bool
  frames : Nat
  bytes : Nat

/-- A conference under way. -/
structure Simulation where
  settings : Settings
  exchange : Exchange
  desk : Desk
  participants : List Participant

namespace Simulation

/-- The place of the only mixer. -/
def mixer : Nat := 0

/-- The session of the first media stream. -/
def master : SessionId := 1

/-! ## Joining -/

/-- The frequency of a participant's voice. -/
def frequency (settings : MixSettings) (place : Nat) : Float :=
  settings.baseFrequency + 100 * (UInt64.ofNat place).toFloat

/-- The steps by which a participant joins: it speaks, and hears all but itself. -/
def joining (settings : MixSettings) (place : Nat) : List Step :=
  [.addQueue settings.frameSamples settings.sourceCapacity, .attach mixer place,
    .addListener mixer [place], .notifyOnInput place settings.handoffCapacity, .start place]

/-- A participant's voice. -/
def voice (settings : MixSettings) (place : Nat) : Except FormatError Tone :=
  Tone.ofFormat (frequency settings place) settings.sampleRate settings.toneAmplitude
    settings.format

/-- Lets participants join at the places from `place` on. -/
def join (settings : MixSettings) : Nat → Nat → Exchange →
    Except FormatError (List Participant × Exchange)
  | 0, _, exchange => .ok ([], exchange)
  | count + 1, place, exchange =>
    match voice settings place with
    | .error e => .error e
    | .ok tone =>
      match join settings count (place + 1) (exchange.run (joining settings place)).2 with
      | .error e => .error e
      | .ok (others, exchange) => .ok (⟨place, tone, true, 0, 0⟩ :: others, exchange)

/-! ## The negotiation -/

/-- The call only listens. -/
def listens : Desk.Reaction := fun _ _ => []

/-- Feeds events of one session. -/
def feed (id : SessionId) (events : List Event) (desk : Desk) : Desk :=
  events.foldl (fun desk event => desk.handle listens id event) desk

def secured : Event := .message (.info .secureStateOn)

/-- A second stream joins, with keys derived from those of the first. -/
def addVideo (desk : Desk) : Except SessionError Desk :=
  match desk.sessions.createDerived master .video with
  | .error e => .error e
  | .ok (video, sessions) =>
    match sessions.start video with
    | .error e => .error e
    | .ok sessions => .ok (feed video [.cipherAgreed "AES-256", secured] { desk with sessions })

/-- Whether the call was asked for sessions that derive from the first. -/
def derivedDue (desk : Desk) : Bool := desk.told.any (·.update == .startDerived)

/-- The negotiation's part in one of `cycles` cycles: it greets, then turns secure, then adds a
second stream, and half way through warns about a missing secret unless another part comes first. -/
def negotiate (cycle cycles : Nat) (desk : Desk) : Except SessionError Desk :=
  if cycle = 0 then .ok (feed master [.message (.info .helloReceived)] desk)
  else if cycle = 1 then
    .ok (feed master [.cipherAgreed "AES-256", .sasComputed "ab12" false, secured] desk)
  else if cycle = 2 ∧ derivedDue desk then addVideo desk
  else if cycle = cycles / 2 then .ok (feed master [.message (.warning .noRsMatch)] desk)
  else .ok desk

/-- A desk with the first stream's session started. -/
def openDesk (texts : Texts) : Except SessionError Desk :=
  let desk := Desk.ofTexts texts
  let (_, sessions) := desk.sessions.createMaster .audio
  match sessions.start master with
  | .error e => .error e
  | .ok sessions => .ok { desk with sessions }

/-! ## Cycles -/

/-- Every participant speaks a frame. -/
def speak (frame : Nat) : List Participant → Exchange → List Participant × Exchange
  | [], exchange => ([], exchange)
  | participant :: rest, exchange =>
    let samples := participant.tone.frame frame
    let (_, exchange) := exchange.step (.offer participant.place samples)
    let (others, exchange) := speak frame rest exchange
    ({ participant with tone := participant.tone.advance frame } :: others, exchange)

/-- A participant reads its mix if it was notified. -/
def hear (participant : Participant) (exchange : Exchange) : Participant × Exchange :=
  if participant.listening then
    match exchange.step (.receive participant.place) with
    | (.received _, exchange) =>
      match exchange.step (.read participant.place) with
      | (.heard (.frame bytes), exchange) =>
        ({ participant with
            frames := participant.frames + 1, bytes := participant.bytes + bytes.length }, exchange)
      | (.heard (.failed _), exchange) =>
        ({ participant with listening := false },
          (exchange.step (.dropChannel participant.place)).2)
      | (_, exchange) => (participant, exchange)
    | (_, exchange) => (participant, exchange)
  else (participant, exchange)

def hearAll : List Participant → Exchange → List Participant × Exchange
  | [], exchange => ([], exchange)
  | participant :: rest, exchange =>
    let (participant, exchange) := hear participant exchange
    let (others, exchange) := hearAll rest exchange
    (participant :: others, exchange)

/-- One cycle: all speak, the mixer mixes, all read, and the negotiation goes on. -/
def advance (cycle cycles : Nat) (simulation : Simulation) : Except SimulationError Simulation :=
  let (participants, exchange) :=
    speak simulation.settings.mix.frameSamples simulation.participants simulation.exchange
  let (_, exchange) := exchange.step (.cycle mixer)
  let (participants, exchange) := hearAll participants exchange
  match negotiate cycle cycles simulation.desk with
  | .error e => .error (.session e)
  | .ok desk => .ok { simulation with participants, exchange, desk }

/-- The cycles that are left, of `cycles` in all. -/
def cyclesFrom (cycles : Nat) : Nat → Simulation → Except SimulationError Simulation
  | 0, simulation => .ok simulation
  | left + 1, simulation =>
    match simulation.advance (cycles - (left + 1)) cycles with
    | .error e => .error e
    | .ok simulation => cyclesFrom cycles left simulation

/-! ## From beginning to end -/

/-- Whether memory holds a conference: its participants, of 72 bytes each, and what every one of
them needs, which is a queue, a channel, a frame and the shared set of what a cycle reads. -/
def fits (settings : MixSettings) (participants : Nat) : Bool :=
  Memory.holds 72 participants && SampleQueue.fits settings.sourceCapacity
    && Channel.fits settings.handoffCapacity && Memory.holdsSamples settings.frameSamples
    && Memory.holdsShared (min settings.frameSamples (max settings.sourceCapacity 1))

/-- A conference before its first cycle. -/
def opening (settings : Settings) (participants : Nat) (now : Moment) :
    Except SimulationError Simulation :=
  match Mixer.ofFormat settings.mix.format with
  | .error e => .error (.format e)
  | .ok _ =>
    if fits settings.mix participants then
      let (_, exchange) := { Exchange.empty with now }.step (.addMixer settings.mix.format)
      match join settings.mix participants 0 exchange with
      | .error e => .error (.format e)
      | .ok (joined, exchange) =>
        match openDesk settings.texts with
        | .error e => .error (.session e)
        | .ok desk => .ok ⟨settings, exchange, desk, joined⟩
    else .error .exhausted

/-- The mixer stops and the call ends. -/
def close (simulation : Simulation) : Simulation :=
  let leaving := simulation.participants.flatMap fun participant =>
    [Step.stop participant.place, .clearHandler participant.place]
  let (_, exchange) := simulation.exchange.run (.halt mixer :: leaving)
  let desk := feed master [.secureOff] { simulation.desk with callEnded := true }
  { simulation with exchange, desk := { desk with sessions := desk.sessions.endAll.2 } }

/-- A whole conference. -/
def run (settings : Settings) (participants cycles : Nat) (now : Moment) :
    Except SimulationError Simulation :=
  match opening settings participants now with
  | .error e => .error e
  | .ok simulation =>
    match cyclesFrom cycles cycles simulation with
    | .error e => .error e
    | .ok simulation => .ok simulation.close

/-! ## What is left to report -/

/-- Updates that the call was told, other than to start sessions. -/
def securityUpdates (simulation : Simulation) : Nat :=
  (simulation.desk.told.filter (·.update != .startDerived)).size

/-- The mixer's statistics. -/
def statistics (simulation : Simulation) : Statistics :=
  (simulation.exchange.mixers[mixer]?.map Mixer.stats).getD Statistics.empty

/-- Samples of a participant that found no room. -/
def dropped (simulation : Simulation) (participant : Participant) : UInt64 :=
  ((simulation.exchange.sources[participant.place]? >>= Source.queue?).map
    SampleQueue.dropped).getD 0

end Simulation

end Conference
