import Conference.Proofs.CycleCourse
import Conference.Proofs.ListenerReads

/-! The personalised mix. A cycle leaves each registered listener the sample sets that it does not
exclude, and what the listener is read next is their mix, as long as the longest set of the whole
cycle. Excluded sources have no part in it beyond that length. -/
namespace Conference.PersonalisedMix
open Exchange ExchangeMoves ExchangeInvariants CycleCourse ListenerReads

/-- A listener with a share of a cycle hears nothing exactly when it excludes every source that
speaks, and otherwise the mix of the others. -/
theorem share_heard {format : SampleFormat} {sources : Array Source} (little : format.order = .little)
    (depth : format.bits = 16 ∨ format.bits = 32) {listening : Listener}
    (alike : listening.format = format)
    (waits : listening.pending = some (share (offered attached sources) entry))
    (somebody : offered attached sources ≠ []) :
    (listening.heard = .nothing ↔
      ∀ speech ∈ offered attached sources, speech.id ∈ entry.excluded) ∧
    (listening.heard ≠ .nothing → ∃ bytes, listening.heard = .frame bytes ∧
      Spells format (Speech.longest (offered attached sources))
        (Speech.audible entry.excluded (offered attached sources)) bytes) := by
  subst alike
  by_cases nobody : Speech.audible entry.excluded (offered attached sources) = []
  · have nothing : listening.heard = .nothing := heard_nothing waits nobody
    exact ⟨⟨fun _ => audible_nil_iff.mp nobody, fun _ => nothing⟩, fun sounds => absurd nothing sounds⟩
  · have long := Nat.ne_of_gt (longest_pos somebody)
    obtain ⟨bytes, heard, spells⟩ := heard_frame waits nobody long little depth
    refine ⟨⟨fun nothing => ?_, fun all => absurd (audible_nil_iff.mpr all) nobody⟩,
      fun _ => ⟨bytes, heard, spells⟩⟩
    rw [heard] at nothing
    cases nothing

section
variable {exchange : Exchange} {mixer : Nat} {found : Mixer} {notify : Notify}
  (reachable : Reachable exchange) (there : exchange.mixers[mixer]? = some found)
include reachable there

/-- In the course of a run a cycle hands out what each source offers at its beginning. -/
theorem spoken_offered :
    spoken found.sources exchange.sources = offered found.sources exchange.sources :=
  spoken_of_distinct (places_distinct ((reachable_orderly reachable).registry _ _ there))

variable (running : found.stopped = false)
  (quiet : ∀ entry ∈ found.listeners, Quiet notify exchange entry.listener)
include running quiet

omit quiet in
/-- A cycle that is not silent reports the length of its longest sample set. -/
theorem report_longest (somebody : offered found.sources exchange.sources ≠ []) :
    (runCycle notify mixer exchange).1.longest =
      Speech.longest (offered found.sources exchange.sources) := by
  rw [run_cycle_heard there running (spoken_offered reachable there) somebody]

/-- A cycle leaves each registered listener its share. -/
theorem cycle_delivers (somebody : offered found.sources exchange.sources ≠ [])
    (member : entry ∈ found.listeners) :
    (runCycle notify mixer exchange).2.listeners[entry.listener]? =
      (exchange.listeners[entry.listener]?).map fun listening =>
        { listening with pending := some (share (offered found.sources exchange.sources) entry) } := by
  have once := ((reachable_orderly reachable).registry _ _ there).once
  have listeners := (draw_all_aside found.sources exchange).1
  rw [run_cycle_heard there running (spoken_offered reachable there) somebody]
  refine (feed_delivers quiet (opened_same_handlers mixer found exchange) once member).trans ?_
  exact congrArg (fun all : Array Listener => (all[entry.listener]?).map _) listeners

/-- The next read of a registered listener finds its share, whoever else is read before. -/
theorem read_after_cycle (somebody : offered found.sources exchange.sources ≠ [])
    (member : entry ∈ found.listeners)
    (own : (exchange.listeners[entry.listener]?).map Listener.mixer = some mixer)
    (elsewhere : entry.listener ∉ others) :
    ∃ listening : Listener, listening.format = found.format ∧
      listening.pending = some (share (offered found.sources exchange.sources) entry) ∧
      ((readInTurn others (runCycle notify mixer exchange).2).read entry.listener).1 =
        listening.heard ∧
      ((readInTurn others (runCycle notify mixer exchange).2).read entry.listener).2.exhausted =
        (readInTurn others (runCycle notify mixer exchange).2).exhausted := by
  have orderly := reachable_orderly reachable
  obtain ⟨listening, held, home⟩ := Option.map_eq_some_iff.mp own
  have format : listening.format = found.format := by
    have kept := orderly.format _ _ held
    rw [home, there, Option.map_some] at kept
    exact (Option.some.inj kept).symm
  have delivered := cycle_delivers reachable there running quiet somebody member
  rw [held, Option.map_some, ← read_in_turn_elsewhere others elsewhere] at delivered
  have fits : Memory.holdsSamples (Speech.longest (offered found.sources exchange.sources)) = true :=
    longest_fits (orderly.fits reachable.sufficed)
  obtain ⟨heard, room⟩ := read_heard delivered fun input waits => by
    cases waits
    exact fits
  exact ⟨{ listening with
    pending := some (share (offered found.sources exchange.sources) entry) },
    format, rfl, heard, room⟩

/-- A cycle needs no more memory than reading its sources does. -/
theorem cycle_room (room : ∀ one ∈ found.sources, ∀ source,
      exchange.sources[one.source]? = some source → source.feed.hasRoom = true) :
    (runCycle notify mixer exchange).2.exhausted = false := by
  have read : (drawAll found.sources exchange).2.exhausted = false :=
    (draw_all_room room).trans reachable.sufficed
  by_cases silent : spoken found.sources exchange.sources = []
  · rw [run_cycle_silent there running silent]
    exact read
  · rw [run_cycle_heard there running rfl silent]
    exact (feed_room quiet (opened_same_handlers mixer found exchange)).trans read

/-- One cycle with quiet handlers, and the next read of each registered listener. Where no source
speaks, no listener is touched and no handler called. -/
theorem cycle_then_read (little : found.format.order = .little)
    (depth : found.format.bits = 16 ∨ found.format.bits = 32)
    (own : ∀ entry ∈ found.listeners,
      (exchange.listeners[entry.listener]?).map Listener.mixer = some mixer) :
    (offered found.sources exchange.sources = [] →
      (runCycle notify mixer exchange).2.listeners = exchange.listeners ∧
      ∀ other, runCycle other mixer exchange = runCycle notify mixer exchange) ∧
    (offered found.sources exchange.sources ≠ [] →
      ∃ count, (∃ speech ∈ offered found.sources exchange.sources,
          speech.samples.length = count) ∧
        (∀ speech ∈ offered found.sources exchange.sources, speech.samples.length ≤ count) ∧
        ∀ entry ∈ found.listeners, ∀ others, entry.listener ∉ others →
          let before := readInTurn others (runCycle notify mixer exchange).2
          let heard := (before.read entry.listener).1
          (before.read entry.listener).2.exhausted = before.exhausted ∧
          (heard = .nothing ↔
            ∀ speech ∈ offered found.sources exchange.sources, speech.id ∈ entry.excluded) ∧
          (heard ≠ .nothing → ∃ bytes, heard = .frame bytes ∧
            Spells found.format count
              (Speech.audible entry.excluded (offered found.sources exchange.sources)) bytes)) ∧
    ((∀ one ∈ found.sources, ∀ source, exchange.sources[one.source]? = some source →
        source.feed.hasRoom = true) →
      (runCycle notify mixer exchange).2.exhausted = false) := by
  refine ⟨fun silent => ?_, fun somebody => ?_, cycle_room reachable there running quiet⟩
  · rw [← spoken_offered reachable there] at silent
    rw [run_cycle_silent there running silent]
    refine ⟨(draw_all_aside found.sources exchange).1, fun other => ?_⟩
    exact run_cycle_silent there running silent
  · refine ⟨Speech.longest (offered found.sources exchange.sources), longest_attained somebody,
      fun _ => length_le_longest, fun entry member others elsewhere => ?_⟩
    obtain ⟨listening, alike, waits, heard, room⟩ :=
      read_after_cycle reachable there running quiet somebody member (own entry member) elsewhere
    refine ⟨room, ?_⟩
    simp only [heard]
    exact share_heard little depth alike waits somebody

end

/-- Two speakers, a listener that excludes the first and counts its input, and one that excludes
both. -/
def twoSpeakers : Exchange := (Exchange.empty.run [.addMixer .pcm16, .addQueue 2 8, .addQueue 3 8,
  .attach 0 0, .attach 0 1, .addListener 0 [0], .addListener 0 [0, 1], .start 0, .start 1,
  .countOnInput 0, .offer 0 [100, 200], .offer 1 [1, 2, 3]]).2

theorem second_speaker_alone :
    let after := (runCycle (respond 0) 0 twoSpeakers).2
    (∃ bytes, (after.read 0).1 = .frame bytes ∧ Spells .pcm16 3 [[1, 2, 3]] bytes) ∧
      (after.read 1).1 = .nothing := by
  obtain ⟨found, there⟩ : ∃ found, twoSpeakers.mixers[0]? = some found :=
    Option.isSome_iff_exists.mp (by decide +kernel)
  have facts : (twoSpeakers.mixers[0]?).map (fun found => (found.stopped, found.format,
      found.listeners, offered found.sources twoSpeakers.sources)) = some (false, .pcm16,
        [⟨0, [1]⟩, ⟨1, [1, 2]⟩], [⟨1, [100, 200]⟩, ⟨2, [1, 2, 3]⟩]) := by decide +kernel
  rw [there, Option.map_some, Option.some.injEq, Prod.mk.injEq, Prod.mk.injEq,
    Prod.mk.injEq] at facts
  obtain ⟨running, format, listeners, speeches⟩ := facts
  have reachable : Reachable twoSpeakers := run_reachable (by decide +kernel)
  have own : ∀ entry ∈ found.listeners,
      (twoSpeakers.listeners[entry.listener]?).map Listener.mixer = some 0 := by
    rw [listeners]
    decide +kernel
  have counting : ∀ handler ∈ twoSpeakers.handlers.toList,
      (handler.reaction matches .count) = true :=
    List.all_eq_true.mp (by decide +kernel)
  have quiet : ∀ entry ∈ found.listeners, Quiet (respond 0) twoSpeakers entry.listener := by
    refine fun entry _ => respond_quiet 0 fun handler installed _ held => .inl ?_
    have counts := counting installed (Array.mem_toList_iff.mpr (Array.mem_of_getElem? held))
    cases kind : installed.reaction with
    | count => rfl
    | _ => simp [kind] at counts
  have little : found.format.order = .little := by rw [format]; rfl
  have depth : found.format.bits = 16 ∨ found.format.bits = 32 := by rw [format]; exact .inl rfl
  obtain ⟨-, heard, -⟩ := cycle_then_read reachable there running quiet little depth own
  rw [speeches, listeners, format] at heard
  obtain ⟨count, ⟨speech, attained, size⟩, bounded, each⟩ := heard (List.cons_ne_nil _ _)
  have three : count = 3 := by
    have least := bounded ⟨2, [1, 2, 3]⟩ (by decide)
    simp only [List.mem_cons, List.not_mem_nil, or_false] at attained
    rcases attained with rfl | rfl <;> simp at size least <;> omega
  subst three
  obtain ⟨-, silent, sounds⟩ := each ⟨0, [1]⟩ (by decide) [] List.not_mem_nil
  obtain ⟨-, nothing, -⟩ := each ⟨1, [1, 2]⟩ (by decide) [] List.not_mem_nil
  exact ⟨sounds fun mute => absurd (silent.mp mute) (by decide), nothing.mpr (by decide)⟩

end Conference.PersonalisedMix
