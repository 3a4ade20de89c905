import Conference.Exchange.Cycle

/-! Running programs on an exchange. Programs left on listeners run inside the cycle that feeds
them and may run further cycles. Every such program has a limited number of runs, so that the
nesting of a step is bounded by the runs that it can still reach. -/
namespace Conference

namespace Step

mutual

/-- The most runs of left programs that a step can add. -/
def runs : Step → Nat
  | runOnInput _ runs program => runs * (1 + runsOf program)
  | rounds times program => times * runsOf program
  | _ => 0

/-- The most runs of left programs that a program can add. -/
def runsOf : List Step → Nat
  | [] => 0
  | step :: rest => step.runs + runsOf rest

end

end Step

namespace Exchange

/-- Repeats an action and keeps the answer of the last round. -/
def repeating (action : Exchange → List Outcome × Exchange) :
    Nat → List Outcome → Exchange → List Outcome × Exchange
  | 0, last, exchange => (last, exchange)
  | times + 1, _, exchange =>
    let (outcomes, exchange) := action exchange
    repeating action times outcomes exchange

/-- Sets a listener's handler. -/
def setHandler (listener : Nat) (handler : Handler) (exchange : Exchange) : Exchange :=
  let place := exchange.handlers.size
  { exchange with handlers := exchange.handlers.push handler }.updateListener listener
    fun found => { found with handler := some place }

/-- Adds a source under an identity, where memory holds its feed. -/
def addSource (id : SourceId) (feed : Feed) (exchange : Exchange) : Outcome × Exchange :=
  let exchange := exchange.demand feed.fits
  (.place exchange.sources.size, { exchange with sources := exchange.sources.push ⟨id, feed⟩ })

/-- Adds a source under an identity that no source has yet. -/
def addNewSource (feed : Feed) (exchange : Exchange) : Outcome × Exchange :=
  addSource exchange.nextId feed { exchange with nextId := exchange.nextId + 1 }

/-- Takes the oldest notification of a channel. -/
def receive (place : Nat) (channel : Channel) (exchange : Exchange) : Outcome × Exchange :=
  match channel.queue with
  | listener :: _ => (.received listener, exchange.updateChannel place Channel.dequeue)
  | [] => (if exchange.connected place then .noneWaiting else .disconnected, exchange)

/-- Runs `act` on what was found, if anything was. -/
def onFound (exchange : Exchange) (found : Option α) (act : α → Outcome × Exchange) :
    Outcome × Exchange :=
  match found with
  | none => (.missing, exchange)
  | some found => act found

/-- Runs `act` on a mixer that is held. -/
def onMixer (exchange : Exchange) (mixer : Nat) (act : Mixer → Outcome × Exchange) :
    Outcome × Exchange :=
  exchange.onFound (exchange.heldMixer? mixer) act

/-- Runs `act` on a listener that is held. -/
def onListener (exchange : Exchange) (listener : Nat) (act : Listener → Outcome × Exchange) :
    Outcome × Exchange :=
  exchange.onFound (exchange.heldListener? listener) act

/-- Runs `act` on a source. -/
def onSource (exchange : Exchange) (source : Nat) (act : Source → Outcome × Exchange) :
    Outcome × Exchange :=
  exchange.onFound exchange.sources[source]? act

/-- Runs `act` on the queue of a source that has one. -/
def onQueue (exchange : Exchange) (source : Nat) (act : SampleQueue → Outcome × Exchange) :
    Outcome × Exchange :=
  exchange.onFound (exchange.queue? source) act

/-- Runs `act` on the identities of sources. -/
def onIds (exchange : Exchange) (sources : List Nat) (act : List SourceId → Outcome × Exchange) :
    Outcome × Exchange :=
  exchange.onFound (exchange.idsOf? sources) act

/-- Runs `act` on a channel that still has a receiver. -/
def onChannel (exchange : Exchange) (channel : Nat) (act : Channel → Outcome × Exchange) :
    Outcome × Exchange :=
  exchange.onFound (exchange.channels[channel]?.filter (·.receiving)) act

private def answering (result : Bool × Exchange) : Outcome × Exchange :=
  (.answer result.1, result.2)

mutual

/-- Performs one step, handlers being called through `notify`. -/
def perform (notify : Notify) : Step → Exchange → Outcome × Exchange
  | .addMixer format, exchange =>
    match Mixer.ofFormat format with
    | .error e => (.refused e, exchange)
    | .ok mixer =>
      (.place exchange.mixers.size, { exchange with mixers := exchange.mixers.push mixer })
  | .dropMixer mixer, exchange =>
    exchange.onFound exchange.mixers[mixer]? fun found =>
      (.answer found.held, exchange.updateMixer mixer fun found => { found with held := false })
  | .addQueue frame capacity, exchange =>
    exchange.addNewSource (.queue (SampleQueue.ofSizes frame capacity))
  | .addScript frames none, exchange => exchange.addNewSource (.script frames)
  | .addScript frames (some source), exchange =>
    exchange.onSource source fun found => exchange.addSource found.id (.script frames)
  | .attach mixer source, exchange =>
    exchange.onMixer mixer fun found => exchange.onSource source fun attached =>
      (.answer !found.attaches attached.id,
        exchange.updateMixer mixer fun found => found.attach ⟨source, attached.id⟩)
  | .detach mixer source, exchange =>
    exchange.onMixer mixer fun found => exchange.onSource source fun attached =>
      (.answer (found.attaches attached.id),
        exchange.updateMixer mixer fun found => found.detach attached.id)
  | .addListener mixer excluded, exchange =>
    exchange.onMixer mixer fun found => exchange.onIds excluded fun ids =>
      let listener : Listener := ⟨mixer, found.format, ids, none, none, false, true⟩
      (.place exchange.listeners.size,
        { exchange with listeners := exchange.listeners.push listener })
  | .dropListener listener, exchange =>
    exchange.onFound exchange.listeners[listener]? fun found =>
      (.answer found.held,
        exchange.updateListener listener fun found => { found with held := false })
  | .start listener, exchange =>
    exchange.onListener listener fun _ => answering (exchange.start listener)
  | .stop listener, exchange =>
    exchange.onListener listener fun _ => answering (exchange.stop listener)
  | .register mixer listener, exchange =>
    exchange.onMixer mixer fun _ => exchange.onListener listener fun _ =>
      answering (exchange.register mixer listener)
  | .unregister mixer listener, exchange =>
    exchange.onMixer mixer fun _ => exchange.onListener listener fun _ =>
      answering (exchange.unregister mixer listener)
  | .exclude mixer listener sources, exchange =>
    exchange.onMixer mixer fun _ => exchange.onListener listener fun _ =>
      exchange.onIds sources fun ids => (.done, exchange.exclude mixer listener ids)
  | .push mixer source samples, exchange =>
    exchange.onMixer mixer fun _ => exchange.onQueue source fun _ =>
      let (report, exchange) := exchange.push notify mixer source samples
      (.report report, exchange)
  | .offer source samples, exchange =>
    exchange.onQueue source fun _ =>
      let (accepted, exchange) := exchange.offer source samples
      (.accepted accepted, exchange)
  | .offerBytes source bytes format, exchange =>
    exchange.onQueue source fun _ =>
      match Pcm.decode bytes format with
      | .error e => (.refused e, exchange)
      | .ok samples =>
        let (accepted, exchange) := exchange.offer source samples
        (.accepted accepted, exchange)
  | .draw source, exchange =>
    exchange.onSource source fun _ =>
      let (drawn, exchange) := exchange.draw source
      (.drawn drawn, exchange)
  | .inspectSource source, exchange =>
    exchange.onSource source fun found => (.source (viewSource found), exchange)
  | .cycle mixer, exchange =>
    exchange.onMixer mixer fun _ =>
      let (report, exchange) := runCycle notify mixer exchange
      (.report report, exchange)
  | .hand listener sets length, exchange =>
    exchange.onListener listener fun _ =>
      let exchange := exchange.holding ⟨[], [listener]⟩
      (.done, (exchange.hand notify listener none ⟨sets, length⟩).release)
  | .read listener, exchange =>
    exchange.onListener listener fun _ =>
      let (heard, exchange) := exchange.read listener
      (.heard heard, exchange)
  | .inspectListener listener, exchange =>
    exchange.onListener listener fun found =>
      (.listener (exchange.viewListener listener found), exchange)
  | .countOnInput listener, exchange =>
    exchange.onListener listener fun _ => (.done, exchange.setHandler listener ⟨.count, 0, 0⟩)
  | .readOnInput listener, exchange =>
    exchange.onListener listener fun _ => (.done, exchange.setHandler listener ⟨.read, 0, 0⟩)
  | .notifyOnInput listener capacity, exchange =>
    exchange.onListener listener fun _ =>
      let place := exchange.channels.size
      let exchange := (exchange.demand (Channel.fits capacity)).setHandler listener
        ⟨.notify place, 0, 0⟩
      (.place place,
        { exchange with channels := exchange.channels.push (Channel.ofCapacity capacity) })
  | .runOnInput listener runs program, exchange =>
    exchange.onListener listener fun _ =>
      (.done, exchange.setHandler listener ⟨.run program, 0, runs⟩)
  | .clearHandler listener, exchange =>
    exchange.onListener listener fun _ =>
      (.done, exchange.updateListener listener fun found => { found with handler := none })
  | .receive channel, exchange =>
    exchange.onChannel channel fun found => exchange.receive channel found
  | .dropChannel channel, exchange =>
    exchange.onFound exchange.channels[channel]? fun found =>
      (.answer found.receiving, exchange.updateChannel channel Channel.close)
  | .halt mixer, exchange =>
    exchange.onMixer mixer fun _ =>
      (.done, exchange.updateMixer mixer fun found => { found with stopped := true })
  | .inspectMixer mixer, exchange =>
    exchange.onMixer mixer fun found => (.mixer (viewMixer found), exchange)
  | .average mixer, exchange =>
    exchange.onMixer mixer fun found => (.average found.stats.averageSources, exchange)
  | .resetStatistics mixer, exchange =>
    exchange.onMixer mixer fun _ =>
      (.done, exchange.updateMixer mixer fun found => { found with stats := found.stats.reset })
  | .describeMixer mixer, exchange =>
    exchange.onMixer mixer fun found => (.text found.describe, exchange)
  | .describeSource source, exchange =>
    exchange.onSource source fun found =>
      match found.describe? with
      | none => (.missing, exchange)
      | some text => (.text text, exchange)
  | .describeListener listener, exchange =>
    exchange.onListener listener fun found => (.text (found.describe listener), exchange)
  | .rounds times program, exchange =>
    let (last, exchange) := repeating (performAll notify program) times [] exchange
    (.rounds last, exchange)

/-- Performs a program step by step. -/
def performAll (notify : Notify) : List Step → Exchange → List Outcome × Exchange
  | [], exchange => ([], exchange)
  | step :: rest, exchange =>
    let (outcome, exchange) := perform notify step exchange
    let (outcomes, exchange) := performAll notify rest exchange
    (outcome :: outcomes, exchange)

end

/-- Calls a handler. Programs nest at most `depth` deep. -/
def respond : Nat → Notify
  | depth, handler, listener, exchange =>
    match exchange.handlers[handler]? with
    | none => exchange
    | some found =>
      let exchange := exchange.updateHandler handler fun found =>
        { found with calls := found.calls + 1 }
      match found.reaction with
      | .count => exchange.note (.counted listener (found.calls + 1))
      | .read =>
        let (heard, exchange) := exchange.read listener
        exchange.note (.answered listener heard)
      | .notify channel => exchange.updateChannel channel (·.offer listener)
      | .run program =>
        match depth, found.runsLeft with
        | depth + 1, left + 1 =>
          let exchange := exchange.updateHandler handler fun found =>
            { found with runsLeft := left }
          let (outcomes, exchange) := performAll (respond depth) program exchange
          exchange.note (.ran listener outcomes)
        | _, _ => exchange

/-- The most runs that the programs left on listeners can still reach. -/
def runsLeft (exchange : Exchange) : Nat :=
  exchange.handlers.foldl (fun runs handler =>
    match handler.reaction with
    | .run program => runs + handler.runsLeft * (1 + Step.runsOf program)
    | _ => runs) 0

/-- Performs one step with all that its handlers do. -/
def step (exchange : Exchange) (step : Step) : Outcome × Exchange :=
  perform (respond (exchange.runsLeft + step.runs)) step exchange

/-- Performs a program with all that handlers do. -/
def run (exchange : Exchange) : List Step → List Outcome × Exchange
  | [] => ([], exchange)
  | first :: rest =>
    let (outcome, exchange) := exchange.step first
    let (outcomes, exchange) := exchange.run rest
    (outcome :: outcomes, exchange)

end Exchange

end Conference
