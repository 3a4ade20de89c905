import Mathlib.Data.List.Infix
import Conference.Proofs.QueueAccounts

/-! Mixers that were stopped. A mixer is stopped once it was halted, by whomever, and it stays so. It
runs no cycle from then on, and its listeners are told that nothing more comes. What is pushed
through it all the same enters the source, since the push looks at the mixer only afterwards: it is
handed out to whoever reads the source far enough. -/
namespace Conference.StoppedMixers
open Exchange ExchangeCourse ExchangeMoves ExchangeDealings RegistryEvents QueueAccounts

variable {before middle after exchange later : Exchange} {mixer place source : Nat}
  {queue : SampleQueue} {step : Step}

/-! ## Stopping -/

def stoppedAt : Exchange → Nat → Bool := ofMixer false Mixer.stopped

/-- All mixers are stopped or not as before. -/
def SameStops (before after : Exchange) : Prop := stoppedAt after = stoppedAt before

theorem same_stops_mixer (change : Mixer → Mixer)
    (same : ∀ mixer, (change mixer).stopped = mixer.stopped) :
    SameStops exchange (exchange.updateMixer place change) := of_mixer_same same

private theorem attach_stops (attached : Attached) :
    SameStops exchange (exchange.updateMixer place fun found => found.attach attached) := by
  apply same_stops_mixer
  intro mixer
  unfold Mixer.attach
  split <;> rfl

private theorem register_stops (mixer listener : Nat) :
    SameStops exchange (exchange.register mixer listener).2 := by
  rcases register_cases mixer listener exchange with same | ⟨excluded, same⟩
  · rw [same]
    rfl
  · rw [same]
    apply same_stops_mixer
    intro mixer
    unfold Mixer.register
    split <;> rfl

private theorem unregister_stops (mixer listener : Nat) :
    SameStops exchange (exchange.unregister mixer listener).2 := by
  rcases unregister_cases mixer listener exchange with same | same
  · rw [same]
    rfl
  · rw [same]
    exact same_stops_mixer _ fun _ => rfl

private theorem start_stops (listener : Nat) :
    SameStops exchange (exchange.start listener).2 := by
  unfold Exchange.start
  split
  · rfl
  · split
    · rfl
    · exact register_stops _ _

private theorem stop_stops (listener : Nat) : SameStops exchange (exchange.stop listener).2 := by
  unfold Exchange.stop
  split
  · rfl
  · split
    · rfl
    · exact unregister_stops _ _

private theorem offer_stops (source : Nat) (samples : List Sample) :
    SameStops exchange (exchange.offer source samples).2 := by
  unfold Exchange.offer
  split <;> rfl

private theorem draw_stops (source : Nat) : SameStops exchange (exchange.draw source).2 := by
  unfold Exchange.draw
  split <;> rfl

private theorem read_stops (listener : Nat) : SameStops exchange (exchange.read listener).2 := by
  have recorded (reading : Listener) (heard : Heard) (other : Exchange) :
      SameStops other (other.recordRead reading heard) := by
    unfold recordRead
    split
    · rfl
    · cases heard with
      | failed => rfl
      | _ => exact same_stops_mixer _ fun _ => rfl
  unfold Exchange.read
  split
  · rfl
  · simp only
    split
    · rfl
    · exact recorded _ _ _

private theorem found_stops {α : Type} {found? : Option α} {act : α → Outcome × Exchange}
    (acts : ∀ found, SameStops exchange (act found).2) :
    SameStops exchange (exchange.onFound found? act).2 := by
  unfold onFound
  split
  · rfl
  · exact acts _

/-- No step stops a mixer or lets it go on, apart from halting and from those that run others. -/
private theorem unhalted_stops (plain : isPlain step = true) (unhalted : ∀ mixer, step ≠ .halt mixer)
    (exchange : Exchange) : SameStops exchange (perform idle step exchange).2 := by
  cases step with
  | push | cycle | hand | rounds => cases plain
  | halt mixer => exact absurd rfl (unhalted mixer)
  | addMixer format =>
    simp only [perform]
    split
    · rfl
    · rename_i made
      apply of_mixer_push
      unfold Mixer.ofFormat at made
      split at made
      · cases made
      · cases made
        rfl
  | attach => exact found_stops fun _ => found_stops fun _ => attach_stops _
  | start => exact found_stops fun _ => start_stops _
  | stop => exact found_stops fun _ => stop_stops _
  | register => exact found_stops fun _ => found_stops fun _ => register_stops _ _
  | unregister => exact found_stops fun _ => found_stops fun _ => unregister_stops _ _
  | detach => exact found_stops fun _ => found_stops fun _ => same_stops_mixer _ fun _ => rfl
  | dropMixer | resetStatistics => exact found_stops fun _ => same_stops_mixer _ fun _ => rfl
  | exclude =>
    exact found_stops fun _ => found_stops fun _ => found_stops fun _ =>
      same_stops_mixer _ fun _ => rfl
  | offer => exact found_stops fun _ => offer_stops _ _
  | offerBytes =>
    refine found_stops fun _ => ?_
    split
    · rfl
    · exact offer_stops _ _
  | draw => exact found_stops fun _ => draw_stops _
  | read => exact found_stops fun _ => read_stops _
  | addScript _ sameIdAs =>
    cases sameIdAs with
    | none => rfl
    | some => exact found_stops fun _ => rfl
  | addQueue => rfl
  | addListener => exact found_stops fun _ => found_stops fun _ => rfl
  | receive =>
    refine found_stops fun _ => ?_
    unfold Exchange.receive
    split <;> rfl
  | describeSource =>
    refine found_stops fun _ => ?_
    split <;> rfl
  | _ => exact found_stops fun _ => rfl

/-- Halting stops the mixer that was halted, and no other step stops any. -/
theorem plain_stops (plain : isPlain step = true) (exchange : Exchange) :
    SameStops exchange (perform idle step exchange).2 ∧
        (∀ mixer, step = .halt mixer → (perform idle step exchange).1 ≠ .done) ∨
      ∃ mixer, step = .halt mixer ∧ (perform idle step exchange).1 = .done ∧
        stoppedAt (perform idle step exchange).2 = Function.update (stoppedAt exchange) mixer true := by
  by_cases halts : ∃ mixer, step = .halt mixer
  · obtain ⟨mixer, rfl⟩ := halts
    simp only [perform, onMixer, onFound]
    split
    · exact .inl ⟨rfl, by simp⟩
    · rename_i found held
      have there := (Option.filter_eq_some_iff.mp held).1
      refine .inr ⟨mixer, rfl, rfl, ?_⟩
      rw [stoppedAt, of_mixer_update]
      simp [ofMixer, there]
  · have unhalted := not_exists.mp halts
    exact .inl ⟨unhalted_stops plain unhalted exchange, fun mixer same =>
      absurd same (unhalted mixer)⟩

theorem passage_stops (passage : Passage before after) : SameStops before after := by
  cases passage with
  | offer => exact offer_stops _ _
  | draw => exact draw_stops _
  | read => exact read_stops _
  | finish => exact same_stops_mixer _ fun _ => rfl
  | _ => rfl

/-- A mixer is stopped exactly if it was halted before, in whatever step of the run. -/
theorem stopped_iff_halted (chronicle : Chronicle Exchange.empty deeds exchange) :
    stoppedAt exchange mixer = true ↔
      ∃ deed ∈ deeds, deed.step = .halt mixer ∧ deed.outcome = .done := by
  induction chronicle with
  | nil => simp [stoppedAt, ofMixer, Exchange.empty]
  | passage _ passage ih => rw [passage_stops passage, ih]
  | @deed deeds exchange step earlier plain ih =>
    simp only [List.mem_append, List.mem_singleton, or_and_right, exists_or, exists_eq_left, ← ih]
    rcases plain_stops plain exchange with ⟨same, other⟩ | ⟨halted, halts, done, stops⟩
    · have never : ¬(step = .halt mixer ∧ Deed.outcome ⟨exchange, step⟩ = .done) :=
        fun both => other mixer both.1 both.2
      simp only [Deed.after, show stoppedAt _ = _ from same, never, or_false]
    · subst halts
      simp only [Deed.after, stops, Function.update_apply, Step.halt.injEq, Deed.outcome, done,
        and_true]
      by_cases here : mixer = halted
      · simp [here]
      · simp [here, Ne.symm here]

/-! ## A stopped mixer -/

private theorem stopped_cycle (stopped : stoppedAt exchange mixer = true) (notify : Notify) :
    runCycle notify mixer exchange = (.idle, exchange) := by
  unfold runCycle
  cases there : exchange.mixers[mixer]? with
  | none => rfl
  | some found =>
    have stops : found.stopped = true := by simpa [stoppedAt, ofMixer, there] using stopped
    simp [stops]

private theorem stopped_push (stopped : stoppedAt exchange mixer = true) (notify : Notify)
    (source : Nat) (samples : List Sample) :
    exchange.push notify mixer source samples = (.idle, (exchange.offer source samples).2) := by
  have still : stoppedAt (exchange.offer source samples).2 mixer = true := by
    rwa [show stoppedAt _ = _ from offer_stops source samples]
  exact stopped_cycle still notify

/-- Samples were offered to a source, and nothing else happened. -/
structure Offered (source : Nat) (samples : List Sample) (before after : Exchange) : Prop where
  mixers : after.mixers = before.mixers
  listeners : after.listeners = before.listeners
  handlers : after.handlers = before.handlers
  channels : after.channels = before.channels
  others : ∀ (place : Nat), place ≠ source → after.sources[place]? = before.sources[place]?
  own : after.queue? source = (before.queue? source).map (·.push samples)

/-- What holds of a mixer from its stop on, whatever handlers there are. -/
structure Silenced (mixer : Nat) (exchange : Exchange) : Prop where
  /-- A cycle does nothing at all: it reads no source, feeds nobody and is not recorded. -/
  cycles : ∀ notify, runCycle notify mixer exchange = (.idle, exchange)
  /-- A push does what the source does with it, and nothing else. -/
  pushes : ∀ notify source samples,
    exchange.push notify mixer source samples = (.idle, (exchange.offer source samples).2)
  /-- No listener and no other source notices the push, and nothing is drained by it. -/
  spares : ∀ notify source samples,
    Offered source samples exchange (exchange.push notify mixer source samples).2
  /-- Nothing more comes for its listeners, even if the mixer is gone. -/
  ends : ∀ (listener : Nat) found, exchange.listeners[listener]? = some found →
    found.mixer = mixer → exchange.endOfStream found = true

private theorem offer_offered (source : Nat) (samples : List Sample) :
    Offered source samples exchange (exchange.offer source samples).2 := by
  cases there : exchange.queue? source with
  | none =>
    have same : (exchange.offer source samples).2 = exchange := by simp [Exchange.offer, there]
    rw [same]
    exact ⟨rfl, rfl, rfl, rfl, fun _ _ => rfl, by rw [there]; rfl⟩
  | some queue =>
    obtain ⟨-, now, -⟩ := offer_queued there samples
    refine ⟨?_, ?_, ?_, ?_, fun place other => ?_, by rw [there]; exact now⟩
    iterate 4 simp only [Exchange.offer, there]; rfl
    simp [Exchange.offer, there, note, updateSource, Array.getElem?_modify, Ne.symm other]

theorem silenced_of_stopped (stopped : stoppedAt exchange mixer = true) :
    Silenced mixer exchange where
  cycles := stopped_cycle stopped
  pushes := stopped_push stopped
  spares notify source samples := by
    rw [stopped_push stopped]
    exact offer_offered source samples
  ends listener found _ own := by
    subst own
    unfold endOfStream
    split
    · rfl
    · rename_i live
      have there := (Option.filter_eq_some_iff.mp live).1
      simpa [stoppedAt, ofMixer, there] using stopped

/-! ## What becomes of the samples of a push -/

/-- What a queue held, and what it accepted since, was handed out or still waits, in order. -/
structure Flows (source : Nat) (before : Exchange) (queue : SampleQueue) (since : List Call)
    (after : Exchange) : Prop where
  calls : calls source after = calls source before ++ since
  conserved : ∃ now, after.queue? source = some now ∧
    queue.waiting ++ accepted since = handedOut since ++ now.waiting

private theorem read_rest (queue : SampleQueue) :
    queue.read.getD [] ++ queue.afterRead.waiting = queue.waiting := by
  unfold SampleQueue.read SampleQueue.afterRead
  split
  · rename_i nothing
    simp [List.isEmpty_iff.mp nothing]
  · exact List.take_append_drop _ _

private theorem flows_dealing (flows : Flows source before queue since middle)
    (dealing : Dealing spared middle after) : ∃ since, Flows source before queue since after := by
  obtain ⟨called, now, there, conserved⟩ := flows
  cases (dealing_served dealing : Served source middle after) with
  | spared kept uncalled =>
    obtain ⟨found, held, feed⟩ := source_of_queue there
    exact ⟨since, uncalled.trans called, now, queue_of_source (kept held) feed, conserved⟩
  | @pushed samples _ held next added =>
    cases there.symm.trans held
    refine ⟨since ++ [.push samples (now.accepted samples)], ?_, now.push samples, next, ?_⟩
    · rw [added, called, List.append_assoc]
    · rw [accepted_snoc, handed_out_snoc, ← List.append_assoc, conserved]
      simp [Call.accepted, Call.handedOut, take_accepted, SampleQueue.push]
  | drawn held next added =>
    obtain ⟨found, same, feed⟩ := source_of_queue there
    cases held.symm.trans same
    rw [feed] at next added
    refine ⟨since ++ [.read now.read], ?_, now.afterRead, queue_of_source next rfl, ?_⟩
    · rw [added, called, List.append_assoc]
      rfl
    · rw [accepted_snoc, handed_out_snoc, Call.accepted, Call.handedOut, List.append_nil, conserved,
        List.append_assoc, read_rest]

/-- Nothing is lost in the course of a run, whoever reads and pushes. -/
theorem flows_chronicle (there : before.queue? source = some queue)
    (chronicle : Chronicle before deeds after) : ∃ since, Flows source before queue since after := by
  have dealings : Relation.ReflTransGen (Dealing none) before after :=
    chronicle_dealt chronicle nofun
  clear chronicle
  induction dealings with
  | refl => exact ⟨[], (List.append_nil _).symm, queue, there, List.append_nil _⟩
  | tail _ dealing ih =>
    obtain ⟨since, flows⟩ := ih
    exact flows_dealing flows dealing

/-- The samples of a push that are among those handed out since: `ahead` samples waited before it,
and the queue accepted `count` of it. -/
def passedOn (ahead count : Nat) (handed : List Sample) : List Sample :=
  (handed.drop ahead).take count

/-- What is handed out of a push is its beginning, as far as the reads came. -/
private theorem passed_on_eq {waiting pushed others : List Sample}
    (order : handed <+: waiting ++ pushed ++ others) :
    passedOn waiting.length pushed.length handed =
      pushed.take (handed.length - waiting.length) := by
  have rest : handed.drop waiting.length <+: pushed ++ others := by
    have dropped := List.IsPrefix.drop order waiting.length
    rwa [List.append_assoc, List.drop_left] at dropped
  have part : passedOn waiting.length pushed.length handed <+: pushed := by
    have taken := List.IsPrefix.take rest pushed.length
    rwa [List.take_left] at taken
  rw [List.prefix_iff_eq_take.mp part, passedOn, List.length_take, List.length_drop,
    Nat.min_comm, ← List.take_eq_take_min]

/-- In the course of a run in which a mixer was halted, be it by a handler, the mixer is silent. A
push through it is not dropped, however: the samples that its source accepts are handed out after
those that waited, to other mixers or to whoever reads the source. None of them is handed out exactly
if the source accepted none or no more was handed out since than had waited. -/
theorem late_push_dropped_iff (chronicle : Chronicle Exchange.empty deeds exchange)
    (member : deed ∈ deeds) (halts : deed.step = .halt mixer) (done : deed.outcome = .done) :
    Silenced mixer exchange ∧
    ∀ notify source samples queue more later, exchange.queue? source = some queue →
      Chronicle (exchange.push notify mixer source samples).2 more later →
      let count := queue.accepted samples
      ∃ since, calls source later = calls source exchange ++ .push samples count :: since ∧
        handedOut since <+: queue.waiting ++ samples.take count ++ accepted since ∧
        passedOn queue.waiting.length count (handedOut since) =
          (samples.take count).take ((handedOut since).length - queue.waiting.length) ∧
        (passedOn queue.waiting.length count (handedOut since) = [] ↔
          count = 0 ∨ (handedOut since).length ≤ queue.waiting.length) := by
  have silenced : Silenced mixer exchange :=
    silenced_of_stopped ((stopped_iff_halted chronicle).mpr ⟨deed, member, halts, done⟩)
  refine ⟨silenced, fun notify source samples queue more later there rest => ?_⟩
  rw [silenced.pushes] at rest
  obtain ⟨-, pushed, called⟩ := offer_queued there samples
  obtain ⟨since, calledSince, now, -, conserved⟩ := flows_chronicle pushed rest
  have order : handedOut since <+:
      queue.waiting ++ samples.take (queue.accepted samples) ++ accepted since := by
    rw [take_accepted]
    exact ⟨now.waiting, conserved.symm⟩
  have most : queue.accepted samples ≤ samples.length := Nat.min_le_left _ _
  have size : (samples.take (queue.accepted samples)).length = queue.accepted samples := by
    rw [List.length_take, Nat.min_eq_left most]
  have passed := passed_on_eq order
  rw [size] at passed
  refine ⟨since, ?_, order, passed, ?_⟩
  · rw [calledSince, called, List.append_assoc]
    rfl
  · rw [← List.length_eq_zero_iff, passedOn, List.length_take, List.length_drop]
    omega

/-- A listener's handler halts the mixer that feeds it. -/
def haltedInside : Exchange := (Exchange.empty.run [.addMixer .pcm16, .addQueue 1 8, .attach 0 0,
  .addListener 0 [], .start 0, .runOnInput 0 1 [.halt 0], .push 0 0 [1]]).2

/-- The mixer was pushed to and the source read after that. -/
def readOnwards : Exchange := Deed.after ⟨(haltedInside.push idle 0 0 [9]).2, .draw 0⟩

theorem halted_inside_passes_on : Silenced 0 haltedInside ∧
    ∃ since, calls 0 readOnwards = calls 0 haltedInside ++ .push [9] 1 :: since ∧
      passedOn 0 1 (handedOut since) = [9] := by
  obtain ⟨deeds, chronicle⟩ : Chronicled Exchange.empty haltedInside := run_chronicled _
  have stopped : stoppedAt haltedInside 0 = true := by decide +kernel
  obtain ⟨deed, member, halts, done⟩ := (stopped_iff_halted chronicle).mp stopped
  obtain ⟨silenced, passes⟩ := late_push_dropped_iff chronicle member halts done
  have onwards : Chronicle (haltedInside.push idle 0 0 [9]).2 [_] readOnwards := .deed .nil rfl
  have held : (haltedInside.queue? 0).map (fun queue =>
      (queue.waiting, queue.accepted [9])) = some ([], 1) := by decide +kernel
  obtain ⟨queue, there, parts⟩ := Option.map_eq_some_iff.mp held
  obtain ⟨since, called, -, passed, -⟩ := passes idle 0 [9] queue [_] readOnwards there onwards
  obtain ⟨waiting, count⟩ := Prod.mk.inj parts
  rw [waiting, count] at passed
  rw [count] at called
  have all : calls 0 readOnwards =
      calls 0 haltedInside ++ [.push [9] 1, .read (some [9])] := by decide +kernel
  cases (List.cons.inj (List.append_cancel_left (called.symm.trans all))).2
  exact ⟨silenced, _, called, passed⟩

/-- A mixer that was halted, and a source with nothing to say. -/
def haltedOutside : Exchange :=
  (Exchange.empty.run [.addMixer .pcm16, .addQueue 1 8, .attach 0 0, .halt 0]).2

theorem late_push_heard : stoppedAt haltedOutside 0 = true ∧ (haltedOutside.draw 0).1 = none ∧
    ((haltedOutside.push idle 0 0 [9]).2.draw 0).1 = some [9] := by
  decide +kernel

end Conference.StoppedMixers
