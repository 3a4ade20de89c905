import Conference.Proofs.ExchangeCourse
import Conference.Proofs.ListenerReads

/-! A listener's input is handed over in two pieces that may fall apart: first the input is in
place, then a channel is told of it. A consumer on the other side does likewise: it takes a
notification, then it reads. A full channel drops notifications. In whatever order the pieces follow
each other, no input stays unnoticed, and who has read on every notification has read the latest
input. -/
namespace Conference.Handoff
open Exchange ExchangeCourse ListenerReads

/-! ## The two pieces of handing input -/

/-- Input is in place, and nobody knows yet. -/
def place (listener : Nat) (cycle : Option Nat) (input : Pending) (exchange : Exchange) :
    Exchange :=
  (exchange.updateListener listener fun found =>
    { found with pending := some input }).note (.fed listener cycle input)

/-- The handler that a listener has now is called. -/
def ring (notify : Notify) (listener : Nat) (exchange : Exchange) : Exchange :=
  match exchange.listeners[listener]? >>= Listener.handler with
  | none => exchange
  | some handler => notify handler listener exchange

/-- A cycle hands over input in these two pieces. -/
theorem hand_eq (notify : Notify) (listener : Nat) (cycle : Option Nat) (input : Pending)
    (exchange : Exchange) :
    exchange.hand notify listener cycle input =
      ring notify listener (place listener cycle input exchange) := rfl

/-! ## One producer and one consumer -/

def pendingOf (exchange : Exchange) (listener : Nat) : Option Pending :=
  exchange.listeners[listener]? >>= Listener.pending

def queueOf (exchange : Exchange) (channel : Nat) : List Nat :=
  (exchange.channels[channel]?).elim [] Channel.queue

structure Scene where
  exchange : Exchange
  /-- Whether the producer still owes the notification of its current cycle. -/
  owing : Bool
  /-- The listener that the consumer was told of and has not read yet. -/
  woken : Option Nat
  /-- All input that was put in place. -/
  produced : List Pending
  /-- All input that the consumer took. -/
  taken : List Pending

/-- What one of the two does next; a handler may be called at any depth of nested programs. -/
inductive Act where
  | place (cycle : Option Nat) (input : Pending)
  | ring (depth : Nat)
  | receive
  | read

/-- One piece of a cycle of the producer or of a round of the consumer, when its turn is due. A
round in which nothing waits does not begin. -/
def turn (listener channel : Nat) : Act → Scene → Option Scene
  | .place cycle input, scene =>
    if scene.owing then none
    else some { scene with
      exchange := place listener cycle input scene.exchange
      owing := true
      produced := scene.produced ++ [input] }
  | .ring depth, scene =>
    if scene.owing then some { scene with
      exchange := ring (respond depth) listener scene.exchange
      owing := false }
    else none
  | .receive, scene =>
    match scene.woken, perform idle (.receive channel) scene.exchange with
    | none, (.received who, exchange) => some { scene with exchange, woken := some who }
    | _, _ => none
  | .read, scene =>
    match scene.woken with
    | none => none
    | some who => some { scene with
      exchange := (perform idle (.read who) scene.exchange).2
      woken := none
      taken := scene.taken ++ (pendingOf scene.exchange who).toList }

/-- The turns of both in one order of many. -/
def interleave (listener channel : Nat) : List Act → Scene → Option Scene
  | [], scene => some scene
  | act :: rest, scene => turn listener channel act scene >>= interleave listener channel rest

/-- The channel was just installed on the listener. -/
def start (listener capacity : Nat) (exchange : Exchange) : Scene :=
  ⟨(perform idle (.notifyOnInput listener capacity) exchange).2, false, none, [], []⟩

/-! ## What every turn keeps -/

/-- A held listener notifies a channel of some capacity that somebody receives. -/
structure Wired (listener channel capacity : Nat) (exchange : Exchange) : Prop where
  handled : ∃ card handler found, exchange.heldListener? listener = some card ∧
    card.handler = some handler ∧ exchange.handlers[handler]? = some found ∧
    found.reaction = .notify channel
  received : ∃ box, exchange.channels[channel]? = some box ∧ box.capacity = max capacity 1 ∧
    box.receiving = true

/-- Pending input does not go unnoticed, and it is the latest. -/
structure Watched (listener channel capacity : Nat) (scene : Scene) : Prop where
  wired : Wired listener channel capacity scene.exchange
  own : ∀ who ∈ queueOf scene.exchange channel, who = listener
  told : ∀ who, scene.woken = some who → who = listener
  room : (queueOf scene.exchange channel).length ≤ max capacity 1
  awake : pendingOf scene.exchange listener ≠ none →
    queueOf scene.exchange channel ≠ [] ∨ scene.owing = true ∨ scene.woken ≠ none
  latest : ∀ input, pendingOf scene.exchange listener = some input →
    scene.produced.getLast? = some input
  settled : pendingOf scene.exchange listener = none →
    scene.taken.getLast? = scene.produced.getLast?

section
variable {listener channel capacity : Nat} {scene next : Scene} {exchange : Exchange}

private theorem update_listener_at (there : exchange.listeners[listener]? = some card)
    (change : Listener → Listener) :
    (exchange.updateListener listener change).listeners[listener]? = some (change card) := by
  rw [updateListener, Array.getElem?_modify, if_pos rfl, there, Option.map_some]

/-- Installing the channel only sets the handler and opens the channel. -/
private theorem start_watched (listening : exchange.heldListener? listener = some card)
    (fresh : card.pending = none) :
    Watched listener exchange.channels.size capacity (start listener capacity exchange) := by
  obtain ⟨there, held⟩ := Option.filter_eq_some_iff.mp listening
  have handlers : (start listener capacity exchange).exchange.handlers =
      exchange.handlers.push ⟨.notify exchange.channels.size, 0, 0⟩ := by
    simp only [start, perform, onListener, onFound, listening]
    rfl
  have channels : (start listener capacity exchange).exchange.channels =
      exchange.channels.push (Channel.ofCapacity capacity) := by
    simp only [start, perform, onListener, onFound, listening]
    rfl
  have installed : (start listener capacity exchange).exchange.listeners[listener]? =
      some { card with handler := some exchange.handlers.size } := by
    simp only [start, perform, onListener, onFound, listening]
    exact update_listener_at there _
  have queue : queueOf (start listener capacity exchange).exchange exchange.channels.size = [] := by
    simp [queueOf, channels, Channel.ofCapacity]
  have waits : pendingOf (start listener capacity exchange).exchange listener = none := by
    simp [pendingOf, installed, fresh]
  exact
    { wired :=
        { handled := ⟨_, exchange.handlers.size, ⟨.notify exchange.channels.size, 0, 0⟩,
            Option.filter_eq_some_iff.mpr ⟨installed, held⟩, rfl, by simp [handlers], rfl⟩
          received := ⟨Channel.ofCapacity capacity, by simp [channels], rfl, rfl⟩ }
      own := by simp [queue]
      told := fun who woken => by cases woken
      room := by simp [queue]
      awake := fun pending => absurd waits pending
      latest := fun input pending => by simp [waits] at pending
      settled := fun _ => rfl }

private theorem place_watched (watched : Watched listener channel capacity scene)
    (turned : turn listener channel (.place cycle input) scene = some next) :
    Watched listener channel capacity next := by
  simp only [turn] at turned
  split at turned
  · cases turned
  · cases turned
    obtain ⟨card, handler, found, listening, handles, there, notifies⟩ := watched.wired.handled
    obtain ⟨present, held⟩ := Option.filter_eq_some_iff.mp listening
    have placed : (place listener cycle input scene.exchange).listeners[listener]? =
        some { card with pending := some input } := update_listener_at present _
    have waits : pendingOf (place listener cycle input scene.exchange) listener = some input := by
      simp [pendingOf, placed]
    exact
      { wired :=
          { handled := ⟨_, handler, found, Option.filter_eq_some_iff.mpr ⟨placed, held⟩, handles,
              there, notifies⟩
            received := watched.wired.received }
        own := watched.own
        told := watched.told
        room := watched.room
        awake := fun _ => .inr (.inl rfl)
        latest := fun other pending => by
          rw [waits] at pending
          cases pending
          exact List.getLast?_concat
        settled := fun pending => by simp [waits] at pending }

private theorem offer_same (box : Channel) (who : Nat) :
    (box.offer who).capacity = box.capacity ∧ (box.offer who).receiving = box.receiving := by
  unfold Channel.offer
  split <;> exact ⟨rfl, rfl⟩

/-- After an offer a channel that somebody receives has a notification queued: if it had no room,
it had one before. -/
private theorem offer_queued {box : Channel} (who : Nat) (receiving : box.receiving = true)
    (positive : 0 < box.capacity) (room : box.queue.length ≤ box.capacity) :
    (box.offer who).queue ≠ [] ∧ (box.offer who).queue.length ≤ box.capacity ∧
      ∀ other ∈ (box.offer who).queue, other ∈ box.queue ∨ other = who := by
  unfold Channel.offer
  simp only [receiving, Bool.true_and, decide_eq_true_eq]
  split
  · refine ⟨by simp, ?_, fun other member => by simpa using member⟩
    simp only [List.length_append, List.length_singleton]
    omega
  · rename_i full
    refine ⟨fun empty => full ?_, room, fun other member => .inl member⟩
    rw [empty]
    exact positive

/-- The handler queues a notification, unless the queue is full and has some already. -/
private theorem ring_watched (watched : Watched listener channel capacity scene)
    (turned : turn listener channel (.ring depth) scene = some next) :
    Watched listener channel capacity next := by
  simp only [turn] at turned
  split at turned
  · cases turned
    obtain ⟨card, handler, found, listening, handles, there, notifies⟩ := watched.wired.handled
    obtain ⟨box, opened, size, receiving⟩ := watched.wired.received
    obtain ⟨present, held⟩ := Option.filter_eq_some_iff.mp listening
    have rung : ring (respond depth) listener scene.exchange =
        (scene.exchange.updateHandler handler fun found =>
          { found with calls := found.calls + 1 }).updateChannel channel (·.offer listener) := by
      unfold ring
      simp only [present, Option.bind_eq_bind, Option.bind_some, handles]
      unfold respond
      simp only [there, notifies]
    have queued : (ring (respond depth) listener scene.exchange).channels[channel]? =
        some (box.offer listener) := by
      rw [rung, updateChannel, Array.getElem?_modify, if_pos rfl]
      exact congrArg (Option.map _) opened
    have counted : (ring (respond depth) listener scene.exchange).handlers[handler]? =
        some { found with calls := found.calls + 1 } := by
      rw [rung]
      simp only [updateChannel, updateHandler]
      rw [Array.getElem?_modify, if_pos rfl, there, Option.map_some]
    have still : (ring (respond depth) listener scene.exchange).listeners =
        scene.exchange.listeners := by
      rw [rung]
      rfl
    have earlier : queueOf scene.exchange channel = box.queue := by simp [queueOf, opened]
    have queue : queueOf (ring (respond depth) listener scene.exchange) channel =
        (box.offer listener).queue := by simp [queueOf, queued]
    have pending : pendingOf (ring (respond depth) listener scene.exchange) listener =
        pendingOf scene.exchange listener := by rw [pendingOf, still, pendingOf]
    have room := watched.room
    rw [earlier, ← size] at room
    have positive : 0 < box.capacity := by omega
    obtain ⟨waiting, fits, members⟩ := offer_queued listener receiving positive room
    exact
      { wired :=
          { handled := ⟨card, handler, _, by rwa [heldListener?, still], handles, counted, notifies⟩
            received := ⟨_, queued, (offer_same box listener).1.trans size,
              (offer_same box listener).2.trans receiving⟩ }
        own := fun who member => by
          rw [queue] at member
          exact (members who member).elim (fun old => watched.own who (earlier ▸ old)) id
        told := watched.told
        room := by rw [queue, ← size]; exact fits
        awake := fun _ => .inl (by rw [queue]; exact waiting)
        latest := fun input waits => watched.latest input (pending ▸ waits)
        settled := fun waits => watched.settled (pending ▸ waits) }
  · cases turned

/-- What is received is the oldest notification, and it is taken from the queue. -/
private theorem receive_took {box : Channel} (opened : exchange.channels[channel]? = some box)
    (took : perform idle (.receive channel) exchange = (.received who, after)) :
    ∃ rest, box.queue = who :: rest ∧ after = exchange.updateChannel channel Channel.dequeue := by
  simp only [perform, onChannel, onFound, opened] at took
  split at took
  · cases took
  · rename_i found kept
    cases (Option.filter_eq_some_iff.mp kept).1
    unfold Exchange.receive at took
    split at took
    · rename_i first rest queued
      cases took
      exact ⟨rest, queued, rfl⟩
    · split at took <;> cases took

private theorem receive_watched (watched : Watched listener channel capacity scene)
    (turned : turn listener channel .receive scene = some next) :
    Watched listener channel capacity next := by
  simp only [turn] at turned
  split at turned
  · rename_i who after free took
    cases turned
    obtain ⟨box, opened, size, receiving⟩ := watched.wired.received
    obtain ⟨rest, queued, rfl⟩ := receive_took opened took
    have earlier : queueOf scene.exchange channel = who :: rest := by
      simp [queueOf, opened, queued]
    have taken : (scene.exchange.updateChannel channel Channel.dequeue).channels[channel]? =
        some box.dequeue := by
      rw [updateChannel, Array.getElem?_modify, if_pos rfl, opened, Option.map_some]
    have queue : queueOf (scene.exchange.updateChannel channel Channel.dequeue) channel = rest := by
      simp [queueOf, taken, Channel.dequeue, queued]
    have own := watched.own
    have room := watched.room
    rw [earlier] at own room
    exact
      { wired :=
          { handled := watched.wired.handled
            received := ⟨_, taken, size, receiving⟩ }
        own := fun other member => own other (by rw [queue] at member; exact .tail _ member)
        told := fun other woken => by cases woken; exact own who List.mem_cons_self
        room := by
          rw [queue]
          exact Nat.le_of_succ_le room
        awake := fun _ => .inr (.inr (Option.some_ne_none who))
        latest := watched.latest
        settled := watched.settled }
  · cases turned

private theorem read_aside (place : Nat) (exchange : Exchange) :
    (exchange.read place).2.handlers = exchange.handlers ∧
      (exchange.read place).2.channels = exchange.channels := by
  unfold Exchange.read
  split
  · exact ⟨rfl, rfl⟩
  · simp only
    split
    · exact ⟨rfl, rfl⟩
    · unfold recordRead
      split
      · exact ⟨rfl, rfl⟩
      · split <;> exact ⟨rfl, rfl⟩

/-- Whoever reads leaves nothing pending, and has taken the latest input. -/
private theorem read_watched (watched : Watched listener channel capacity scene)
    (turned : turn listener channel .read scene = some next) :
    Watched listener channel capacity next := by
  simp only [turn] at turned
  split at turned
  · cases turned
  · rename_i who woken
    cases turned
    cases watched.told who woken
    obtain ⟨card, handler, found, listening, handles, there, notifies⟩ := watched.wired.handled
    obtain ⟨present, held⟩ := Option.filter_eq_some_iff.mp listening
    have reading : (perform idle (.read listener) scene.exchange).2 =
        (scene.exchange.read listener).2 := by
      simp only [perform, onListener, onFound, listening]
    obtain ⟨handlers, channels⟩ := read_aside listener scene.exchange
    have left : (scene.exchange.read listener).2.listeners[listener]? =
        some { card with pending := none } := by
      rw [read_listeners, Array.getElem?_modify, if_pos rfl, present, Option.map_some]
    have queue : queueOf (scene.exchange.read listener).2 channel =
        queueOf scene.exchange channel := by
      rw [queueOf, channels, queueOf]
    have nothing : pendingOf (scene.exchange.read listener).2 listener = none := by
      simp [pendingOf, left]
    rw [reading]
    exact
      { wired :=
          { handled := ⟨_, handler, found, Option.filter_eq_some_iff.mpr ⟨left, held⟩, handles,
              handlers ▸ there, notifies⟩
            received := by rw [channels]; exact watched.wired.received }
        own := by rw [queue]; exact watched.own
        told := fun other later => by cases later
        room := by rw [queue]; exact watched.room
        awake := fun waits => absurd nothing waits
        latest := fun input waits => by rw [nothing] at waits; cases waits
        settled := fun _ => by
          cases waits : pendingOf scene.exchange listener with
          | none => simpa using watched.settled waits
          | some input =>
            rw [watched.latest input waits]
            exact List.getLast?_concat }

theorem turn_watched (watched : Watched listener channel capacity scene) (act : Act)
    (turned : turn listener channel act scene = some next) :
    Watched listener channel capacity next := by
  cases act with
  | place cycle input => exact place_watched watched turned
  | ring depth => exact ring_watched watched turned
  | receive => exact receive_watched watched turned
  | read => exact read_watched watched turned

theorem interleave_watched (watched : Watched listener channel capacity scene) (acts : List Act)
    (turned : interleave listener channel acts scene = some next) :
    Watched listener channel capacity next := by
  induction acts generalizing scene with
  | nil =>
    cases turned
    exact watched
  | cons act rest ih =>
    obtain ⟨middle, first, later⟩ := Option.bind_eq_some_iff.mp turned
    exact ih (turn_watched watched act first) later

end

/-- No wake-up is lost, in whatever order producer and consumer take their turns: pending input
still has a notification queued or owed, or the consumer is about to read. Once both are done and
the queue is empty, nothing is pending and the last input taken is the last one produced, whatever
notifications were dropped. -/
theorem no_lost_wakeup {exchange : Exchange}
    (listening : exchange.heldListener? listener = some card) (fresh : card.pending = none)
    (acts : List Act)
    (turned : interleave listener exchange.channels.size acts
      (start listener capacity exchange) = some scene) :
    (pendingOf scene.exchange listener ≠ none →
      queueOf scene.exchange exchange.channels.size ≠ [] ∨ scene.owing = true ∨
        scene.woken ≠ none) ∧
    (queueOf scene.exchange exchange.channels.size).length ≤ max capacity 1 ∧
    (scene.owing = false → queueOf scene.exchange exchange.channels.size = [] →
      scene.woken = none → pendingOf scene.exchange listener = none ∧
        scene.taken.getLast? = scene.produced.getLast?) := by
  have watched := interleave_watched (start_watched listening fresh) acts turned
  refine ⟨watched.awake, watched.room, fun paid empty asleep => ?_⟩
  have nothing : pendingOf scene.exchange listener = none := by
    by_contra waits
    rcases watched.awake waits with queued | owing | woken
    · exact queued empty
    · rw [paid] at owing
      cases owing
    · exact woken asleep
  exact ⟨nothing, watched.settled nothing⟩

/-- A listener that was never fed. -/
def fresh : Exchange := (Exchange.empty.run [.addMixer .pcm16, .addListener 0 []]).2

/-- The second notification finds the queue full; the third is owed while the consumer reads. -/
def crossing : List Act :=
  [.place none ⟨[[1]], 1⟩, .ring 0, .place none ⟨[[2]], 1⟩, .ring 0, .receive,
    .place none ⟨[[3]], 1⟩, .read, .ring 0, .receive, .read]

/-- The consumer takes the third input only, and then nothing is left. -/
theorem crossing_settles : ∃ scene,
    interleave 0 0 crossing (start 0 0 fresh) = some scene ∧
      scene.produced = [⟨[[1]], 1⟩, ⟨[[2]], 1⟩, ⟨[[3]], 1⟩] ∧ scene.taken = [⟨[[3]], 1⟩] ∧
      pendingOf scene.exchange 0 = none ∧ scene.taken.getLast? = scene.produced.getLast? := by
  have held : (fresh.heldListener? 0).map Listener.pending = some none := by decide +kernel
  obtain ⟨card, listening, waits⟩ := Option.map_eq_some_iff.mp held
  have channels : fresh.channels.size = 0 := by decide +kernel
  have facts : (interleave 0 0 crossing (start 0 0 fresh)).map (fun scene =>
      (scene.produced, scene.taken, scene.owing, queueOf scene.exchange 0, scene.woken)) =
        some ([⟨[[1]], 1⟩, ⟨[[2]], 1⟩, ⟨[[3]], 1⟩], [⟨[[3]], 1⟩], false, [], none) := by
    decide +kernel
  obtain ⟨scene, turned, same⟩ := Option.map_eq_some_iff.mp facts
  simp only [Prod.mk.injEq] at same
  obtain ⟨produced, taken, paid, empty, asleep⟩ := same
  have passed : interleave 0 fresh.channels.size crossing (start 0 0 fresh) = some scene := by
    rw [channels, turned]
  obtain ⟨-, -, settles⟩ := no_lost_wakeup listening waits crossing passed
  rw [channels] at settles
  exact ⟨scene, turned, produced, taken, settles paid empty asleep⟩

end Conference.Handoff
