import Conference.Proofs.CycleNesting

/-! A cycle works on what it found. Its handlers may attach and detach, register and unregister,
change exclusions, push samples, stop the mixer and run further cycles: what the cycle itself hands
out, to whom and in which order, and what it reports, was settled when it began. -/
namespace Conference.SnapshotIsolation
open Exchange ExchangeMoves ExchangeInvariants CycleCourse CycleNesting

private theorem handed_by_append (cycle : Nat) (trace more : List Entry) :
    handedBy cycle (trace ++ more) = handedBy cycle trace ++ handedBy cycle more :=
  List.filterMap_append

/-- One cycle in any exchange, with handlers that do anything at all. Everything that it adds to the
journal is `trace`: first its readings, then what it hands out with all that handlers do meanwhile.
The exclusions are those of the registry that it found: this mixer's own copy of them, which stays as
it is when they are changed through another mixer. -/
theorem cycle_isolated {exchange : Exchange} {found : Mixer} {notify : Notify}
    (there : exchange.mixers[mixer]? = some found) (running : found.stopped = false)
    (free : Free notify) :
    (runCycle notify mixer exchange).1 = reportOf found exchange.sources ∧
    (∃ trace body, (runCycle notify mixer exchange).2.journal.toList =
        exchange.journal.toList ++ trace ∧
      trace = ((readings found.sources exchange.sources).map fun reading =>
          .drawn reading.1.source reading.2) ++
        .began exchange.cycles mixer (spoken found.sources exchange.sources) ::
          (body ++ [.ended exchange.cycles (reportOf found exchange.sources)]) ∧
      handedBy exchange.cycles trace = dueOf found exchange.sources) ∧
    (Reachable exchange → (found.listeners.map Registered.listener).Nodup) := by
  have continued : ∀ handler listener exchange,
      Continues exchange (notify handler listener exchange) :=
    fun handler listener exchange => kept_of_leads continues_kept (free handler listener exchange)
  obtain ⟨report, body, written, -, handed⟩ := run_cycle_journal continued there running
  refine ⟨report, ⟨_, body, by rw [written, List.append_assoc], rfl, ?_⟩, fun reachable => ?_⟩
  · have read : handedBy exchange.cycles ((readings found.sources exchange.sources).map
        fun reading => .drawn reading.1.source reading.2) = [] := by
      simp [handedBy]
    have closed : handedBy exchange.cycles (body ++
        [.ended exchange.cycles (reportOf found exchange.sources)]) =
          dueOf found exchange.sources := by
      rw [handed_by_append, handed]
      exact List.append_nil _
    rw [handed_by_append, read, List.nil_append]
    exact closed
  · exact ((reachable_orderly reachable).registry _ _ there).once

/-- Two listeners, the first of which interrupts the cycle that feeds it: it pushes another sample,
which runs a cycle of its own, then unregisters the second listener and stops the mixer. -/
def interrupted : Exchange := (Exchange.empty.run [.addMixer .pcm16, .addQueue 1 8, .attach 0 0,
  .addListener 0 [], .addListener 0 [], .start 0, .start 1,
  .runOnInput 0 1 [.push 0 0 [9], .stop 1, .halt 0], .offer 0 [1]]).2

theorem interrupted_cycle_isolated :
    (runCycle (respond 2) 0 interrupted).1 = ⟨1, 1, 2⟩ ∧
    ∃ trace, (runCycle (respond 2) 0 interrupted).2.journal.toList =
        interrupted.journal.toList ++ trace ∧
      handedBy interrupted.cycles trace = [(0, ⟨[[1]], 1⟩), (1, ⟨[[1]], 1⟩)] := by
  have facts : (interrupted.mixers[0]?).map (fun found => (found.stopped,
      reportOf found interrupted.sources, dueOf found interrupted.sources)) =
        some (false, ⟨1, 1, 2⟩, [(0, ⟨[[1]], 1⟩), (1, ⟨[[1]], 1⟩)]) := by decide +kernel
  obtain ⟨found, there, same⟩ := Option.map_eq_some_iff.mp facts
  simp only [Prod.mk.injEq] at same
  obtain ⟨running, report, due⟩ := same
  obtain ⟨reported, ⟨trace, -, written, -, handed⟩, -⟩ :=
    cycle_isolated there running (respond_free 2)
  exact ⟨reported.trans report, trace, written, handed.trans due⟩

/-- A registered listener and no source. -/
def silentRoom : Exchange := (Exchange.empty.run [.addMixer .pcm16, .addListener 0 [], .start 0]).2

/-- A cycle in which no source speaks is an exception: it feeds no registered listener. -/
theorem silent_cycle_feeds_nobody :
    ¬ ∀ (exchange : Exchange) (mixer : Nat) (found : Mixer) (notify : Notify),
      Reachable exchange → exchange.mixers[mixer]? = some found → found.stopped = false →
      Free notify → ∀ trace, (runCycle notify mixer exchange).2.journal.toList =
          exchange.journal.toList ++ trace →
        (handedBy exchange.cycles trace).map Prod.fst =
          found.listeners.map Registered.listener := by
  intro fed
  have facts : (silentRoom.mixers[0]?).map (fun found =>
      (found.stopped, found.listeners.map Registered.listener)) = some (false, [0]) := by
    decide +kernel
  obtain ⟨found, there, same⟩ := Option.map_eq_some_iff.mp facts
  obtain ⟨running, listeners⟩ := Prod.mk.inj same
  have reachable : Reachable silentRoom := run_reachable (by decide +kernel)
  have quiet : silentRoom.journal.toList.isEmpty = true := by decide +kernel
  have nothing : handedBy silentRoom.cycles
      (runCycle (respond 0) 0 silentRoom).2.journal.toList = [] := by decide +kernel
  have all := fed silentRoom 0 found (respond 0) reachable there running (respond_free 0)
    (runCycle (respond 0) 0 silentRoom).2.journal.toList
    (by rw [List.isEmpty_iff.mp quiet, List.nil_append])
  rw [nothing, listeners] at all
  cases all

end Conference.SnapshotIsolation
