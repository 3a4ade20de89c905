import Conference.Proofs.PersonalisedMix

/-! What a listener is read tells nothing of the sources it excludes but their part in the length of
the frame. Two runs are compared in which only excluded sources differ, in whatever they hand out:
the frames carry the same samples as far as both reach, and silence past the audible sets. -/
namespace Conference.Noninterference
open Exchange ExchangeMoves CycleCourse ListenerReads MixSemantics PersonalisedMix

private theorem audible_cons (excluded : List SourceId) (speech : Speech) (speeches : List Speech) :
    Speech.audible excluded (speech :: speeches) =
      Speech.audible excluded [speech] ++ Speech.audible excluded speeches := by
  rw [Speech.audible, Speech.audible, Speech.audible, ← List.map_append, ← List.filter_append,
    List.singleton_append]

private theorem audible_cons_hidden {one : Attached} {sources : Array Source}
    (hidden : one.id ∈ excluded) : Speech.audible excluded (offered (one :: rest) sources) =
      Speech.audible excluded (offered rest sources) := by
  rw [offered, List.filterMap_cons]
  cases speaks : speechOf (one, offers sources one) with
  | none => rfl
  | some speech =>
    have dropped : Speech.audible excluded [speech] = [] := by
      simp [Speech.audible, speech_of_id speaks, hidden]
    rw [audible_cons, dropped, List.nil_append, offered]

section
variable {left right : Array Source} {attached : List Attached} {excluded : List SourceId}
  (agree : ∀ one ∈ attached, one.id ∉ excluded → offers left one = offers right one)
include agree

/-- What is audible rests on the sources that are not excluded. -/
theorem audible_agree : Speech.audible excluded (offered attached left) =
    Speech.audible excluded (offered attached right) := by
  induction attached with
  | nil => rfl
  | cons one rest ih =>
    have later := ih fun other member => agree other (List.mem_cons_of_mem _ member)
    by_cases hidden : one.id ∈ excluded
    · rw [audible_cons_hidden hidden, audible_cons_hidden hidden, later]
    · have same := agree one List.mem_cons_self hidden
      rw [offered, offered, List.filterMap_cons, List.filterMap_cons, same]
      cases speechOf (one, offers right one) with
      | none => exact later
      | some speech =>
        exact (audible_cons excluded speech _).trans
          ((congrArg _ later).trans (audible_cons excluded speech _).symm)

end

/-- A mixer in the course of a run, about to run a cycle with quiet handlers, and one of its own
listeners that it feeds. -/
structure Ready (notify : Notify) (mixer : Nat) (found : Mixer) (entry : Registered)
    (exchange : Exchange) : Prop where
  reachable : Reachable exchange
  there : exchange.mixers[mixer]? = some found
  running : found.stopped = false
  quiet : ∀ entry ∈ found.listeners, Quiet notify exchange entry.listener
  registered : entry ∈ found.listeners
  own : (exchange.listeners[entry.listener]?).map Listener.mixer = some mixer

section
variable {exchange : Exchange} {found : Mixer} (ready : Ready notify mixer found entry exchange)
  (somebody : ∃ speech ∈ offered found.sources exchange.sources, speech.id ∉ entry.excluded)
include somebody

omit ready in
private theorem offered_some : offered found.sources exchange.sources ≠ [] := by
  obtain ⟨speech, member, -⟩ := somebody
  exact List.ne_nil_of_mem member

include ready

private theorem reads_frame (little : found.format.order = .little)
    (depth : found.format.bits = 16 ∨ found.format.bits = 32) :
    ∃ bytes, ((runCycle notify mixer exchange).2.read entry.listener).1 = .frame bytes ∧
      Spells found.format (Speech.longest (offered found.sources exchange.sources))
        (Speech.audible entry.excluded (offered found.sources exchange.sources)) bytes := by
  obtain ⟨listening, alike, waits, heard, -⟩ := read_after_cycle ready.reachable ready.there
    ready.running ready.quiet (offered_some somebody) ready.registered ready.own List.not_mem_nil
  obtain ⟨nothing, sounds⟩ := share_heard little depth alike waits (offered_some somebody)
  obtain ⟨speech, member, audible⟩ := somebody
  obtain ⟨bytes, frame, spells⟩ := sounds fun mute => audible (nothing.mp mute speech member)
  exact ⟨bytes, heard.trans frame, spells⟩

end

private theorem heard_alike {one other : Listener} (format : one.format = other.format)
    (pending : one.pending = other.pending) : one.heard = other.heard := by
  simp only [Listener.heard, format, pending]

private theorem frame_sample {sets : List (List Sample)}
    (here : ((List.range count).map (mixAt limit sets))[index]? = some sample) :
    index < count ∧ mixAt limit sets index = sample := by
  rw [List.getElem?_map] at here
  obtain ⟨place, inside, same⟩ := Option.map_eq_some_iff.mp here
  obtain ⟨short, rfl⟩ := List.getElem?_eq_some_iff.mp inside
  rw [List.getElem_range] at same
  exact ⟨by simpa using short, same⟩

section
variable {left right : Exchange} {found other : Mixer}
  (leftReady : Ready leftNotify mixer found entry left)
  (rightReady : Ready rightNotify mixer other entry right)
  (format : other.format = found.format) (sources : other.sources = found.sources)
  (agree : ∀ one ∈ found.sources, one.id ∉ entry.excluded →
    offers left.sources one = offers right.sources one)
  (somebody : ∃ speech ∈ offered found.sources left.sources, speech.id ∉ entry.excluded)
include leftReady rightReady format sources agree somebody

omit leftReady rightReady format sources in
private theorem somebody_right :
    ∃ speech ∈ offered found.sources right.sources, speech.id ∉ entry.excluded := by
  by_contra nobody
  have silent : Speech.audible entry.excluded (offered found.sources right.sources) = [] := by
    refine audible_nil_iff.mpr fun speech member => ?_
    by_contra apart
    exact nobody ⟨speech, member, apart⟩
  rw [← audible_agree agree] at silent
  obtain ⟨speech, member, apart⟩ := somebody
  exact apart (audible_nil_iff.mp silent speech member)

/-- Same audible sets and same length make the same bytes. -/
private theorem reads_alike (lengths : Speech.longest (offered found.sources left.sources) =
      Speech.longest (offered found.sources right.sources)) :
    ((runCycle leftNotify mixer left).2.read entry.listener).1 =
      ((runCycle rightNotify mixer right).2.read entry.listener).1 := by
  have somebodyRight := somebody_right agree somebody
  rw [← sources] at somebodyRight
  obtain ⟨one, oneFormat, oneWaits, oneHeard, -⟩ := read_after_cycle leftReady.reachable
    leftReady.there leftReady.running leftReady.quiet (offered_some somebody)
    leftReady.registered leftReady.own List.not_mem_nil
  obtain ⟨two, twoFormat, twoWaits, twoHeard, -⟩ := read_after_cycle rightReady.reachable
    rightReady.there rightReady.running rightReady.quiet (offered_some somebodyRight)
    rightReady.registered rightReady.own List.not_mem_nil
  have shares : share (offered found.sources left.sources) entry =
      share (offered other.sources right.sources) entry := by
    rw [share, share, sources, audible_agree agree, lengths]
  have alike : one.heard = two.heard := by
    refine heard_alike ?_ ?_
    · rw [oneFormat, twoFormat, format]
    · rw [oneWaits, twoWaits, shares]
  exact oneHeard.trans (alike.trans twoHeard.symm)

/-- Two runs that agree on everything but what the excluded sources of a listener hand out. The
frames that it is read agree as far as both reach and are silent past the longest set it hears;
where the longest sets of the two cycles have the same length, the bytes are the same. -/
theorem excluded_not_heard (little : found.format.order = .little)
    (depth : found.format.bits = 16 ∨ found.format.bits = 32) :
    ∃ leftBytes rightBytes leftFrame rightFrame,
      ((runCycle leftNotify mixer left).2.read entry.listener).1 = .frame leftBytes ∧
      ((runCycle rightNotify mixer right).2.read entry.listener).1 = .frame rightBytes ∧
      Pcm.decode leftBytes found.format = .ok leftFrame ∧
      Pcm.decode rightBytes found.format = .ok rightFrame ∧
      (∀ (index : Nat) one two, leftFrame[index]? = some one → rightFrame[index]? = some two →
        one = two) ∧
      (∀ index : Nat, (∀ speech ∈ offered found.sources left.sources, speech.id ∉ entry.excluded →
          speech.samples.length ≤ index) →
        (∀ sample, leftFrame[index]? = some sample → sample = 0) ∧
        (∀ sample, rightFrame[index]? = some sample → sample = 0)) ∧
      ((runCycle leftNotify mixer left).1.longest = (runCycle rightNotify mixer right).1.longest →
        leftBytes = rightBytes) := by
  have somebodyRight := somebody_right agree somebody
  rw [← sources] at somebodyRight
  obtain ⟨leftBytes, leftHeard, limit, valid, -, leftBack⟩ :=
    reads_frame leftReady somebody little depth
  obtain ⟨rightBytes, rightHeard, otherLimit, otherValid, -, rightBack⟩ :=
    reads_frame rightReady somebodyRight (format ▸ little) (format ▸ depth)
  rw [format, valid] at otherValid
  cases otherValid
  rw [sources, ← audible_agree agree, format] at rightBack
  refine ⟨leftBytes, rightBytes, _, _, leftHeard, rightHeard, leftBack, rightBack, ?_, ?_, ?_⟩
  · intro index one two here there
    obtain ⟨-, rfl⟩ := frame_sample here
    obtain ⟨-, rfl⟩ := frame_sample there
    rfl
  · intro index past
    have silent : mixAt limit (Speech.audible entry.excluded
        (offered found.sources left.sources)) index = 0 := by
      refine mix_at_silent fun set heard => ?_
      obtain ⟨speech, kept, rfl⟩ := List.mem_map.mp heard
      obtain ⟨member, apart⟩ := List.mem_filter.mp kept
      exact past speech member (by simpa using apart)
    refine ⟨fun sample here => ?_, fun sample here => ?_⟩
    · exact (frame_sample here).2.symm.trans silent
    · exact (frame_sample here).2.symm.trans silent
  · intro lengths
    rw [report_longest leftReady.reachable leftReady.there leftReady.running
      (offered_some somebody), report_longest rightReady.reachable rightReady.there
      rightReady.running (offered_some somebodyRight), sources] at lengths
    have same := reads_alike leftReady rightReady format sources agree somebody lengths
    rw [leftHeard, rightHeard] at same
    exact Heard.frame.inj same

end

/-- A listener that excludes the first of two speakers, who has these samples. -/
def besides (samples : List Sample) : Exchange := (Exchange.empty.run [.addMixer .pcm16,
  .addQueue 8 8, .addQueue 8 8, .attach 0 0, .attach 0 1, .addListener 0 [0], .start 0,
  .offer 0 samples, .offer 1 [1, 2, 3]]).2

private theorem besides_ready (samples : List Sample)
    (sufficed : (besides samples).exhausted = false)
    (registry : ((besides samples).mixers[0]?).map (fun found =>
        (found.stopped, found.format, found.sources, found.listeners)) =
      some (false, .pcm16, [⟨0, 1⟩, ⟨1, 2⟩], [⟨0, [1]⟩]))
    (own : ((besides samples).listeners[0]?).map Listener.mixer = some 0) :
    ∃ found, Ready (fun _ _ exchange => exchange) 0 found ⟨0, [1]⟩ (besides samples) ∧
      found.format = .pcm16 ∧ found.sources = [⟨0, 1⟩, ⟨1, 2⟩] := by
  obtain ⟨found, there, same⟩ := Option.map_eq_some_iff.mp registry
  simp only [Prod.mk.injEq] at same
  obtain ⟨running, format, sources, listeners⟩ := same
  have reachable : Reachable (besides samples) := by
    unfold besides at sufficed ⊢
    exact run_reachable sufficed
  refine ⟨found, ⟨reachable, there, running, ?_, ?_, own⟩, format, sources⟩
  · exact fun _ _ _ _ _ _ => ⟨rfl, rfl, rfl⟩
  · rw [listeners]
    exact List.mem_singleton.mpr rfl

theorem long_speech_not_heard : ∃ leftBytes rightBytes leftFrame rightFrame,
    ((runCycle (fun _ _ exchange => exchange) 0 (besides [100])).2.read 0).1 =
      .frame leftBytes ∧
    ((runCycle (fun _ _ exchange => exchange) 0 (besides [9, 9, 9, 9])).2.read 0).1 =
      .frame rightBytes ∧
    Pcm.decode leftBytes .pcm16 = .ok leftFrame ∧ Pcm.decode rightBytes .pcm16 = .ok rightFrame ∧
    ∀ (index : Nat) one two, leftFrame[index]? = some one → rightFrame[index]? = some two →
      one = two := by
  obtain ⟨found, left, format, sources⟩ :=
    besides_ready [100] (by decide +kernel) (by decide +kernel) (by decide +kernel)
  obtain ⟨other, right, otherFormat, otherSources⟩ :=
    besides_ready [9, 9, 9, 9] (by decide +kernel) (by decide +kernel) (by decide +kernel)
  have agree : ∀ one ∈ found.sources, one.id ∉ [1] →
      offers (besides [100]).sources one = offers (besides [9, 9, 9, 9]).sources one := by
    rw [sources]
    decide +kernel
  have somebody : ∃ speech ∈ offered found.sources (besides [100]).sources,
      speech.id ∉ [1] := by
    rw [sources]
    exact ⟨⟨2, [1, 2, 3]⟩, by decide +kernel, by decide⟩
  have little : found.format.order = .little := by rw [format]; rfl
  have depth : found.format.bits = 16 ∨ found.format.bits = 32 := by rw [format]; exact .inl rfl
  obtain ⟨leftBytes, rightBytes, leftFrame, rightFrame, leftHeard, rightHeard, leftBack,
      rightBack, same, -⟩ := excluded_not_heard left right (otherFormat.trans format.symm)
    (otherSources.trans sources.symm) agree somebody little depth
  rw [format] at leftBack rightBack
  exact ⟨leftBytes, rightBytes, leftFrame, rightFrame, leftHeard, rightHeard, leftBack, rightBack,
    same⟩

end Conference.Noninterference
