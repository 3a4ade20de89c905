import Mathlib.Logic.Relation
import Conference.Exchange.Run

/-! Whatever is done to an exchange, by a program or by a handler in the middle of a cycle, is a
finite sequence of elementary changes and of turns that a cycle takes. A relation that each of these
respects therefore holds between the ends of every program, and a property that each of these keeps
holds in every state that a run passes through. -/
namespace Conference.ExchangeMoves
open Exchange

/-- Whether an entry of the journal tells of something else than cycles and the input of listeners. -/
def isAside : Entry → Bool
  | .began _ _ _ | .fed _ _ _ | .ended _ _ => false
  | _ => true

/-- An elementary change, made in one piece and outside the course of any cycle. -/
inductive Change : Exchange → Exchange → Prop where
  | addMixer (made : Mixer.ofFormat format = .ok mixer) :
      Change exchange { exchange with mixers := exchange.mixers.push mixer }
  | dropMixer : Change exchange (exchange.updateMixer place fun found =>
      { found with held := false })
  | halt : Change exchange (exchange.updateMixer place fun found => { found with stopped := true })
  | account (change : Statistics → Statistics) : Change exchange
      (exchange.updateMixer place fun found => { found with stats := change found.stats })
  | attach (there : exchange.sources[source]? = some attached) : Change exchange
      (exchange.updateMixer place fun found => found.attach ⟨source, attached.id⟩)
  | detach : Change exchange (exchange.updateMixer place fun found => found.detach identity)
  | addListener (there : exchange.mixers[mixer]? = some found) : Change exchange
      { exchange with
        listeners := exchange.listeners.push ⟨mixer, found.format, ids, none, none, false, true⟩ }
  | dropListener : Change exchange (exchange.updateListener place fun found =>
      { found with held := false })
  | register : Change exchange (exchange.register mixer place).2
  | unregister : Change exchange (exchange.unregister mixer place).2
  | orphan (there : exchange.listeners[place]? = some found)
      (gone : exchange.liveMixer? found.mixer = none) :
      Change exchange (exchange.updateListener place fun found => { found with started := false })
  | exclude : Change exchange (exchange.exclude mixer place ids)
  | setHandler : Change exchange (exchange.setHandler place handler)
  | clearHandler : Change exchange (exchange.updateListener place fun found =>
      { found with handler := none })
  | take : Change exchange (exchange.updateListener place fun found =>
      { found with pending := none })
  | hand : Change exchange ((exchange.updateListener place fun found =>
      { found with pending := some input }).note (.fed place none input))
  | number : Change exchange { exchange with nextId := exchange.nextId + 1 }
  | addSource {feed : Feed} : Change exchange (exchange.addSource identity feed).2
  | push (there : exchange.queue? source = some waiting) : Change exchange
      (exchange.updateSource source fun found => { found with feed := .queue (waiting.push samples) })
  | drain : Change exchange (exchange.updateSource source fun found =>
      { found with feed := found.feed.afterRead })
  | demand : Change exchange (exchange.demand room)
  | openChannel : Change exchange { exchange with channels := exchange.channels.push channel }
  | channel : Change exchange (exchange.updateChannel place change)
  | handler : Change exchange (exchange.updateHandler place change)
  | hold : Change exchange (exchange.holding held)
  | release : Change exchange exchange.release
  | note (aside : isAside entry = true) : Change exchange (exchange.note entry)

/-- One turn of a cycle: it begins once its sources are read, hands input to a listener, or ends. -/
inductive Turn : Exchange → Exchange → Prop where
  | begin (mixer : Nat) (speeches : List Speech) : Turn exchange
      ({ exchange with cycles := exchange.cycles + 1 }.note (.began exchange.cycles mixer speeches))
  | hand : Turn exchange ((exchange.updateListener place fun found =>
      { found with pending := some input }).note (.fed place (some cycle) input))
  | finish : Turn exchange (exchange.finish mixer cycle report)

/-- A relation that every sequence of elementary changes respects. -/
structure Closed (R : Exchange → Exchange → Prop) : Prop where
  refl : R exchange exchange
  trans : R first second → R second third → R first third
  change : Change before after → R before after

/-- A relation that whole cycles respect too, as long as their handlers do. -/
structure Kept (R : Exchange → Exchange → Prop) : Prop extends Closed R where
  cycle (free : ∀ handler listener exchange, R exchange (notify handler listener exchange)) :
    R exchange (runCycle notify mixer exchange).2

/-- Registering a listener does nothing, or it enters the listener and marks it as started. -/
theorem register_cases (mixer place : Nat) (exchange : Exchange) :
    (exchange.register mixer place).2 = exchange ∨
      ∃ excluded, (exchange.register mixer place).2 =
        (exchange.updateMixer mixer fun found =>
          found.register ⟨place, excluded⟩).updateListener place fun found =>
            { found with started := true } := by
  unfold Exchange.register
  split
  · split
    · exact .inl rfl
    · exact .inr ⟨_, rfl⟩
  · exact .inl rfl

/-- Unregistering a listener does nothing, or it undoes both. -/
theorem unregister_cases (mixer place : Nat) (exchange : Exchange) :
    (exchange.unregister mixer place).2 = exchange ∨
      (exchange.unregister mixer place).2 =
        (exchange.updateMixer mixer fun found => found.unregister place).updateListener place
          fun found => { found with started := false } := by
  unfold Exchange.unregister
  split
  · exact .inl rfl
  · split
    · exact .inr rfl
    · exact .inl rfl

section Operations
variable {R : Exchange → Exchange → Prop} (closed : Closed R)
include closed

theorem offer_closed : R exchange (exchange.offer source samples).2 := by
  unfold offer
  split
  · exact closed.refl
  · rename_i waiting there
    exact closed.trans (closed.change (.push there)) (closed.change (.note rfl))

theorem add_new_source_closed {feed : Feed} : R exchange (exchange.addNewSource feed).2 :=
  closed.trans (closed.change .number) (closed.change .addSource)

theorem draw_closed : R exchange (exchange.draw source).2 := by
  unfold draw
  split
  · exact closed.refl
  · exact closed.trans (closed.change .demand)
      (closed.trans (closed.change .drain) (closed.change (.note rfl)))

theorem draw_all_closed (attached : List Attached) : R exchange (drawAll attached exchange).2 := by
  induction attached generalizing exchange with
  | nil => exact closed.refl
  | cons first rest ih =>
    have both : R exchange (drawAll rest (exchange.draw first.source).2).2 :=
      closed.trans (draw_closed closed) ih
    simp only [drawAll]
    split <;> exact both

theorem record_read_closed : R exchange (exchange.recordRead listener heard) := by
  unfold recordRead
  split
  · exact closed.refl
  · cases heard with
    | nothing => exact closed.change (.account Statistics.recordUnderrun)
    | frame bytes => exact closed.change (.account fun stats =>
        stats.recordDelivery ((listener.pending.map Pending.length).getD 0))
    | failed error => exact closed.refl

theorem read_closed : R exchange (exchange.read place).2 := by
  unfold Exchange.read
  split
  · exact closed.refl
  · simp only
    split
    · exact closed.trans (closed.change .take) (closed.change .demand)
    · exact closed.trans (closed.change .take)
        (closed.trans (record_read_closed closed) (closed.change (.note rfl)))

theorem start_closed : R exchange (exchange.start place).2 := by
  unfold start
  split
  · exact closed.refl
  · split
    · exact closed.refl
    · exact closed.change .register

theorem stop_closed : R exchange (exchange.stop place).2 := by
  unfold stop
  split
  · exact closed.refl
  · rename_i found there
    split
    · rename_i gone
      exact closed.change (.orphan there gone)
    · exact closed.change .unregister

theorem hand_closed
    (free : ∀ handler listener exchange, R exchange (notify handler listener exchange)) :
    R exchange (exchange.hand notify place none input) := by
  unfold hand
  simp only
  split
  · exact closed.change .hand
  · exact closed.trans (closed.change .hand) (free _ _ _)

theorem found_closed (acts : ∀ found, R exchange (act found).2) :
    R exchange (exchange.onFound found? act).2 := by
  unfold onFound
  split
  · exact closed.refl
  · exact acts _

theorem repeating_closed (acts : ∀ exchange, R exchange (action exchange).2) (times : Nat)
    (last : List Outcome) : R exchange (repeating action times last exchange).2 := by
  induction times generalizing last exchange with
  | zero => exact closed.refl
  | succ times ih => exact closed.trans (acts _) (ih _)

end Operations

section Programs
variable {R : Exchange → Exchange → Prop} (kept : Kept R)
include kept

mutual

/-- A step respects whatever elementary changes, cycles and its handlers respect. -/
theorem perform_kept
    (free : ∀ handler listener exchange, R exchange (notify handler listener exchange)) :
    ∀ (step : Step) (exchange : Exchange), R exchange (perform notify step exchange).2
  | .addMixer format, exchange => by
    simp only [perform]
    split
    · exact kept.refl
    · rename_i made
      exact kept.change (.addMixer made)
  | .dropMixer mixer, exchange =>
    found_closed kept.toClosed fun _ => kept.change .dropMixer
  | .addQueue frame capacity, exchange => add_new_source_closed kept.toClosed
  | .addScript frames none, exchange => add_new_source_closed kept.toClosed
  | .addScript frames (some source), exchange =>
    found_closed kept.toClosed fun _ => kept.change .addSource
  | .attach mixer source, exchange => by
    refine found_closed kept.toClosed fun _ => ?_
    simp only [onSource, onFound]
    split
    · exact kept.refl
    · rename_i there
      exact kept.change (.attach there)
  | .detach mixer source, exchange =>
    found_closed kept.toClosed fun _ => found_closed kept.toClosed fun _ => kept.change .detach
  | .addListener mixer excluded, exchange => by
    simp only [perform, onMixer, onFound]
    split
    · exact kept.refl
    · rename_i held
      have there := (Option.filter_eq_some_iff.mp held).1
      exact found_closed kept.toClosed fun _ => kept.change (.addListener there)
  | .dropListener listener, exchange =>
    found_closed kept.toClosed fun _ => kept.change .dropListener
  | .start listener, exchange => found_closed kept.toClosed fun _ => start_closed kept.toClosed
  | .stop listener, exchange => found_closed kept.toClosed fun _ => stop_closed kept.toClosed
  | .register mixer listener, exchange =>
    found_closed kept.toClosed fun _ => found_closed kept.toClosed fun _ => kept.change .register
  | .unregister mixer listener, exchange =>
    found_closed kept.toClosed fun _ => found_closed kept.toClosed fun _ => kept.change .unregister
  | .exclude mixer listener sources, exchange =>
    found_closed kept.toClosed fun _ => found_closed kept.toClosed fun _ =>
      found_closed kept.toClosed fun _ => kept.change .exclude
  | .push mixer source samples, exchange =>
    found_closed kept.toClosed fun _ => found_closed kept.toClosed fun _ =>
      kept.trans (offer_closed kept.toClosed) (kept.cycle free)
  | .offer source samples, exchange =>
    found_closed kept.toClosed fun _ => offer_closed kept.toClosed
  | .offerBytes source bytes format, exchange => by
    refine found_closed kept.toClosed fun _ => ?_
    split
    · exact kept.refl
    · exact offer_closed kept.toClosed
  | .draw source, exchange => found_closed kept.toClosed fun _ => draw_closed kept.toClosed
  | .inspectSource source, exchange => found_closed kept.toClosed fun _ => kept.refl
  | .cycle mixer, exchange => found_closed kept.toClosed fun _ => kept.cycle free
  | .hand listener sets length, exchange =>
    found_closed kept.toClosed fun _ => kept.trans (kept.change .hold)
      (kept.trans (hand_closed kept.toClosed free) (kept.change .release))
  | .read listener, exchange => found_closed kept.toClosed fun _ => read_closed kept.toClosed
  | .inspectListener listener, exchange => found_closed kept.toClosed fun _ => kept.refl
  | .countOnInput listener, exchange =>
    found_closed kept.toClosed fun _ => kept.change .setHandler
  | .readOnInput listener, exchange =>
    found_closed kept.toClosed fun _ => kept.change .setHandler
  | .notifyOnInput listener capacity, exchange =>
    found_closed kept.toClosed fun _ => kept.trans (kept.change .demand)
      (kept.trans (kept.change .setHandler) (kept.change .openChannel))
  | .runOnInput listener runs program, exchange =>
    found_closed kept.toClosed fun _ => kept.change .setHandler
  | .clearHandler listener, exchange =>
    found_closed kept.toClosed fun _ => kept.change .clearHandler
  | .receive channel, exchange => by
    refine found_closed kept.toClosed fun found => ?_
    unfold receive
    split
    · exact kept.change .channel
    · exact kept.refl
  | .dropChannel channel, exchange =>
    found_closed kept.toClosed fun _ => kept.change .channel
  | .halt mixer, exchange => found_closed kept.toClosed fun _ => kept.change .halt
  | .inspectMixer mixer, exchange => found_closed kept.toClosed fun _ => kept.refl
  | .average mixer, exchange => found_closed kept.toClosed fun _ => kept.refl
  | .resetStatistics mixer, exchange =>
    found_closed kept.toClosed fun _ => kept.change (.account Statistics.reset)
  | .describeMixer mixer, exchange => found_closed kept.toClosed fun _ => kept.refl
  | .describeSource source, exchange => by
    refine found_closed kept.toClosed fun found => ?_
    split <;> exact kept.refl
  | .describeListener listener, exchange => found_closed kept.toClosed fun _ => kept.refl
  | .rounds times program, exchange =>
    repeating_closed kept.toClosed (performAll_kept free program) times []

/-- A program respects what its steps respect. -/
theorem performAll_kept
    (free : ∀ handler listener exchange, R exchange (notify handler listener exchange)) :
    ∀ (program : List Step) (exchange : Exchange), R exchange (performAll notify program exchange).2
  | [], _ => kept.refl
  | step :: rest, exchange => kept.trans (perform_kept free step exchange) (performAll_kept free rest _)

end

/-- The handlers that programs leave behind respect what programs respect, however deep they
nest. -/
theorem respond_kept (depth handler listener : Nat) (exchange : Exchange) :
    R exchange (respond depth handler listener exchange) := by
  induction depth using Nat.strongRecOn generalizing handler listener exchange with
  | ind depth ih =>
    unfold respond
    split
    · exact kept.refl
    · have called : R exchange (exchange.updateHandler handler fun found =>
          { found with calls := found.calls + 1 }) := kept.change .handler
      refine kept.trans called ?_
      rename_i found there
      cases found.reaction with
      | count => exact kept.change (.note rfl)
      | read => exact kept.trans (read_closed kept.toClosed) (kept.change (.note rfl))
      | notify channel => exact kept.change .channel
      | run program =>
        cases depth with
        | zero => exact kept.refl
        | succ depth =>
          cases found.runsLeft with
          | zero => exact kept.refl
          | succ left =>
            exact kept.trans (kept.change .handler)
              (kept.trans (performAll_kept kept (ih depth (Nat.lt_succ_self depth)) program _)
                (kept.change (.note rfl)))

/-- A program with all that its handlers do respects what steps respect. -/
theorem run_kept (program : List Step) (exchange : Exchange) : R exchange (exchange.run program).2 := by
  induction program generalizing exchange with
  | nil => exact kept.refl
  | cons first rest ih =>
    have stepped : R exchange (exchange.step first).2 :=
      perform_kept kept (respond_kept kept _) first exchange
    exact kept.trans stepped (ih _)

end Programs

/-! ## Handlers without restriction -/

/-- What finitely many elementary changes and whole cycles bring about. The handlers of each cycle
bring about such things in turn, and may do something else at every call. -/
inductive Leads : Exchange → Exchange → Prop where
  | refl : Leads exchange exchange
  | change (earlier : Leads before middle) (change : Change middle after) : Leads before after
  | cycle (earlier : Leads before middle)
      (free : ∀ handler listener exchange, Leads exchange (notify handler listener exchange)) :
      Leads before (runCycle notify mixer middle).2

/-- Handlers that do anything that can be done to an exchange in finitely many steps. -/
def Free (notify : Notify) : Prop :=
  ∀ handler listener exchange, Leads exchange (notify handler listener exchange)

private theorem leads_trans (first : Leads before middle) (second : Leads middle after) :
    Leads before after := by
  induction second with
  | refl => exact first
  | change _ change ih => exact .change (ih first) change
  | cycle _ free ih => exact .cycle (ih first) free

theorem leads_kept : Kept Leads where
  refl := .refl
  trans := leads_trans
  change := .change .refl
  cycle := .cycle .refl

/-- A relation that changes and cycles respect holds between the ends of all that is done. -/
theorem kept_of_leads {R : Exchange → Exchange → Prop} (kept : Kept R)
    (leads : Leads before after) : R before after := by
  induction leads with
  | refl => exact kept.refl
  | change _ change ih => exact kept.trans ih (kept.change change)
  | cycle _ _ ih freely => exact kept.trans ih (kept.cycle freely)

/-- The handlers that programs leave behind do nothing beyond this. -/
theorem respond_free (depth : Nat) : Free (respond depth) := respond_kept leads_kept depth

theorem run_leads (program : List Step) : Leads exchange (exchange.run program).2 :=
  run_kept leads_kept program exchange

/-! ## The states of a run -/

/-- One move of a run. -/
def Move (before after : Exchange) : Prop := Change before after ∨ Turn before after

/-- An exchange in the course of a run, between its operations or in the middle of a cycle. A run
whose memory did not suffice has ended. -/
structure Reachable (exchange : Exchange) : Prop where
  moves : Relation.ReflTransGen Move Exchange.empty exchange
  sufficed : exchange.exhausted = false

theorem moves_closed : Closed (Relation.ReflTransGen Move) where
  refl := .refl
  trans := .trans
  change change := .single (.inl change)

private theorem hand_moves
    (free : ∀ handler listener exchange,
      Relation.ReflTransGen Move exchange (notify handler listener exchange)) :
    Relation.ReflTransGen Move exchange (exchange.hand notify place (some cycle) input) := by
  unfold hand
  simp only
  split
  · exact .single (.inr .hand)
  · exact .head (.inr .hand) (free _ _ _)

private theorem feed_moves
    (free : ∀ handler listener exchange,
      Relation.ReflTransGen Move exchange (notify handler listener exchange))
    (entries : List Registered) :
    Relation.ReflTransGen Move exchange (feed notify cycle speeches entries exchange) := by
  induction entries generalizing exchange with
  | nil => exact .refl
  | cons entry rest ih => exact (hand_moves free).trans ih

/-- Only cycles count cycles. -/
theorem cycles_closed : Closed fun before after => after.cycles = before.cycles where
  refl := rfl
  trans first second := second.trans first
  change {before after} change := by
    cases change with
    | register =>
      rcases register_cases _ _ before with same | ⟨_, same⟩
      · rw [same]
      · exact (congrArg Exchange.cycles same).trans rfl
    | unregister =>
      rcases unregister_cases _ _ before with same | same
      · rw [same]
      · exact (congrArg Exchange.cycles same).trans rfl
    | _ => rfl

theorem moves_kept : Kept (Relation.ReflTransGen Move) where
  toClosed := moves_closed
  cycle {notify exchange mixer} free := by
    unfold runCycle
    split
    · exact .refl
    · rename_i found there
      split
      · exact .refl
      · have counted : (drawAll found.sources exchange).2.cycles = exchange.cycles :=
          draw_all_closed cycles_closed found.sources
        have read : Relation.ReflTransGen Move exchange (drawAll found.sources exchange).2 :=
          draw_all_closed moves_closed found.sources
        have begun := read.tail (.inr (.begin mixer (drawAll found.sources exchange).1))
        rw [counted] at begun
        simp only
        split
        · exact begun.tail (.inr .finish)
        · exact (((begun.tail (.inl .hold)).trans (feed_moves free found.listeners)).tail
            (.inr .finish)).tail (.inl .release)

/-- Memory that suffices in the end sufficed before. -/
theorem moves_sufficed (moves : Relation.ReflTransGen Move before after)
    (sufficed : after.exhausted = false) : before.exhausted = false := by
  induction moves with
  | refl => exact sufficed
  | tail _ move ih =>
    apply ih
    rcases move with change | turn
    · cases change with
      | register =>
        rcases register_cases _ _ _ with same | ⟨_, same⟩ <;> rw [same] at sufficed <;>
          exact sufficed
      | unregister =>
        rcases unregister_cases _ _ _ with same | same <;> rw [same] at sufficed <;>
          exact sufficed
      | addSource | demand => exact (Bool.or_eq_false_iff.mp sufficed).1
      | _ => exact sufficed
    · cases turn <;> exact sufficed

/-- What is done to a reachable exchange leaves it reachable, as long as memory suffices. -/
theorem leads_reachable (reachable : Reachable before) (leads : Leads before after)
    (sufficed : after.exhausted = false) : Reachable after :=
  ⟨reachable.moves.trans (kept_of_leads moves_kept leads), sufficed⟩

theorem run_reachable (sufficed : (Exchange.empty.run program).2.exhausted = false) :
    Reachable (Exchange.empty.run program).2 :=
  leads_reachable ⟨.refl, rfl⟩ (run_leads program) sufficed

end Conference.ExchangeMoves
