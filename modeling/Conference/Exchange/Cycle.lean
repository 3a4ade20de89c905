import Conference.Exchange

/-! Mix cycles. A cycle reads every source of its mixer once, in registration order, and hands
each registered listener the sample sets it does not exclude. The registry it works on is the one
it found; `notify` stands for all that a handler may do to the exchange between two listeners. -/
namespace Conference.Exchange

/-- What happens to an exchange when a handler is called for its listener. -/
abbrev Notify := (handler listener : Nat) → Exchange → Exchange

/-! ## Sources -/

/-- Pushes samples into a queued source and gives how many were accepted; a source without a queue
accepts none. -/
def offer (source : Nat) (samples : List Sample) (exchange : Exchange) : Nat × Exchange :=
  match exchange.queue? source with
  | none => (0, exchange)
  | some waiting =>
    let exchange := exchange.updateSource source fun found =>
      { found with feed := .queue (waiting.push samples) }
    let accepted := waiting.accepted samples
    (accepted, exchange.note (.offered source samples accepted))

/-- Reads a source. -/
def draw (source : Nat) (exchange : Exchange) : Option (List Sample) × Exchange :=
  match exchange.sources[source]? with
  | none => (none, exchange)
  | some found =>
    let drawn := found.feed.read
    let exchange := (exchange.demand found.feed.hasRoom).updateSource source fun found =>
      { found with feed := found.feed.afterRead }
    (drawn, exchange.note (.drawn source drawn))

/-- Reads sources in order and keeps what is not empty. -/
def drawAll : List Attached → Exchange → List Speech × Exchange
  | [], exchange => ([], exchange)
  | attached :: rest, exchange =>
    let (drawn, exchange) := exchange.draw attached.source
    let (speeches, exchange) := drawAll rest exchange
    match drawn with
    | some (sample :: samples) => (⟨attached.id, sample :: samples⟩ :: speeches, exchange)
    | _ => (speeches, exchange)

/-! ## Listeners -/

/-- Replaces a listener's pending input and calls its handler once the input is in place. -/
def hand (notify : Notify) (listener : Nat) (cycle : Option Nat) (input : Pending)
    (exchange : Exchange) : Exchange :=
  let exchange := (exchange.updateListener listener fun found =>
    { found with pending := some input }).note (.fed listener cycle input)
  match exchange.listeners[listener]? >>= Listener.handler with
  | none => exchange
  | some handler => notify handler listener exchange

/-- Records a read with the listener's mixer, as long as that lives. -/
def recordRead (listener : Listener) (heard : Heard) (exchange : Exchange) : Exchange :=
  match exchange.liveMixer? listener.mixer with
  | none => exchange
  | some _ =>
    match heard with
    | .nothing => exchange.updateMixer listener.mixer fun mixer =>
        { mixer with stats := mixer.stats.recordUnderrun }
    | .frame _ => exchange.updateMixer listener.mixer fun mixer =>
        { mixer with
          stats := mixer.stats.recordDelivery ((listener.pending.map Pending.length).getD 0) }
    | .failed _ => exchange

/-- Takes a listener's pending input and mixes it, where memory holds the mix. -/
def read (listener : Nat) (exchange : Exchange) : Heard × Exchange :=
  match exchange.listeners[listener]? with
  | none => (.nothing, exchange)
  | some found =>
    let exchange := exchange.updateListener listener fun found => { found with pending := none }
    match found.heard? with
    | none => (.nothing, exchange.demand false)
    | some heard => (heard, (recordRead found heard exchange).note (.heard listener heard))

/-! ## Cycles -/

/-- Hands the listeners of a registry, in order, what they do not exclude. -/
def feed (notify : Notify) (cycle : Nat) (speeches : List Speech) :
    List Registered → Exchange → Exchange
  | [], exchange => exchange
  | entry :: rest, exchange =>
    let input := ⟨Speech.audible entry.excluded speeches, Speech.longest speeches⟩
    feed notify cycle speeches rest (exchange.hand notify entry.listener (some cycle) input)

/-- Records a finished cycle. -/
def finish (mixer cycle : Nat) (report : CycleReport) (exchange : Exchange) : Exchange :=
  let now := exchange.now
  (exchange.updateMixer mixer fun found =>
    { found with stats := found.stats.recordCycle now report.record }).note (.ended cycle report)

/-- Runs one cycle. A stopped mixer does nothing; a cycle in which no source speaks feeds
nobody and is recorded as empty. -/
def runCycle (notify : Notify) (mixer : Nat) (exchange : Exchange) : CycleReport × Exchange :=
  match exchange.mixers[mixer]? with
  | none => (.idle, exchange)
  | some found =>
    if found.stopped then (.idle, exchange)
    else
      let cycle := exchange.cycles
      let (speeches, exchange) := drawAll found.sources exchange
      let exchange :=
        { exchange with cycles := cycle + 1 }.note (.began cycle mixer speeches)
      if speeches.isEmpty then (.idle, exchange.finish mixer cycle .idle)
      else
        let hold := ⟨[mixer], found.listeners.map Registered.listener⟩
        let exchange := feed notify cycle speeches found.listeners (exchange.holding hold)
        let report := ⟨speeches.length, Speech.longest speeches, found.listeners.length⟩
        (report, (exchange.finish mixer cycle report).release)

/-- Pushes samples into a queued source, then runs a cycle. -/
def push (notify : Notify) (mixer source : Nat) (samples : List Sample) (exchange : Exchange) :
    CycleReport × Exchange :=
  runCycle notify mixer (exchange.offer source samples).2

/-! ## Registration -/

/-- Registers a listener with a mixer, under the exclusions it has now. -/
def register (mixer listener : Nat) (exchange : Exchange) : Bool × Exchange :=
  match exchange.mixers[mixer]?, exchange.listeners[listener]? with
  | some found, some listening =>
    if found.registers listener then (false, exchange)
    else
      let exchange := exchange.updateMixer mixer fun found =>
        found.register ⟨listener, listening.excluded⟩
      (true, exchange.updateListener listener fun found => { found with started := true })
  | _, _ => (false, exchange)

/-- Removes a listener from a mixer's registry. -/
def unregister (mixer listener : Nat) (exchange : Exchange) : Bool × Exchange :=
  match exchange.mixers[mixer]? with
  | none => (false, exchange)
  | some found =>
    if found.registers listener then
      let exchange := exchange.updateMixer mixer fun found => found.unregister listener
      (true, exchange.updateListener listener fun found => { found with started := false })
    else (false, exchange)

/-- Registers a listener with its own mixer, if that lives. -/
def start (listener : Nat) (exchange : Exchange) : Bool × Exchange :=
  match exchange.listeners[listener]? with
  | none => (false, exchange)
  | some found =>
    match exchange.liveMixer? found.mixer with
    | none => (false, exchange)
    | some _ => exchange.register found.mixer listener

/-- Removes a listener from its own mixer's registry. Where that mixer is gone, the listener
only ceases to count as started. -/
def stop (listener : Nat) (exchange : Exchange) : Bool × Exchange :=
  match exchange.listeners[listener]? with
  | none => (false, exchange)
  | some found =>
    match exchange.liveMixer? found.mixer with
    | none => (false, exchange.updateListener listener fun found => { found with started := false })
    | some _ => exchange.unregister found.mixer listener

/-- Replaces a listener's exclusions, and those a mixer uses for it. -/
def exclude (mixer listener : Nat) (ids : List SourceId) (exchange : Exchange) : Exchange :=
  (exchange.updateMixer mixer fun found => found.exclude listener ids).updateListener listener
    fun found => { found with excluded := ids }

end Conference.Exchange
