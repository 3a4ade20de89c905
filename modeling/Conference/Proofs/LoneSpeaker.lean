import Conference.Proofs.FedOnce
import Conference.Proofs.PersonalisedMix
import Conference.Proofs.QueueAccounts
import Conference.Proofs.SilentFolds

/-! One speaker alone. Bytes that are pushed to a source come back from a listener that hears no
other: they are decoded, wait in the queue, are handed out by one cycle, folded into silence and
encoded. Only the most negative sample of a width has no counterpart in the range of the mix, and
comes back one higher. -/
namespace Conference.LoneSpeaker
open Exchange ExchangeMoves ExchangeInvariants ExchangeCourse ExchangeDealings DeliveryAccounts
open CycleCourse ListenerReads MixSemantics PcmRoundTrip SilentFolds FedOnce
open QueueAccounts (offer_queued source_of_queue)

variable {exchange later : Exchange} {mixer : Nat} {found : Mixer} {one : Attached}
  {queue : SampleQueue} {entry : Registered} {samples : List Sample} {bytes : List UInt8}
  {format : SampleFormat} {sources : Array Source}

/-! ## Samples -/

/-- The sample as it comes back: the most negative one of its width is raised into the range. -/
def raised (limit sample : Sample) : Sample :=
  if sample.toInt = -limit.toInt - 1 then -limit else sample

/-- The clamp does nothing else to samples of their width. -/
theorem clamp_carried (valid : format.validate = .ok limit)
    (codec : format.width direction = .ok width) (carried : Carried width sample) :
    clampTo limit sample.toInt = raised limit sample := by
  have positive := limit_nonneg valid
  have range : -limit.toInt - 1 ≤ sample.toInt ∧ sample.toInt ≤ limit.toInt := by
    obtain ⟨low, high⟩ := carried
    rw [SampleFormat.validate_eq_maxValue] at valid
    obtain ⟨-, ⟨sixteen, rfl⟩ | ⟨full, rfl⟩⟩ := width_cases codec
    · simp only [SampleFormat.maxValue, sixteen] at valid
      cases valid
      have top : (32767 : Sample).toInt = 32767 := rfl
      omega
    · simp only [SampleFormat.maxValue, full] at valid
      cases valid
      have top : (2147483647 : Sample).toInt = 2147483647 := rfl
      omega
  unfold clampTo raised
  split
  · have lowest : max (-limit.toInt) (min limit.toInt sample.toInt) = -limit.toInt := by omega
    rw [lowest, Int32.ofInt_neg, Int32.ofInt_toInt]
  · have same : max (-limit.toInt) (min limit.toInt sample.toInt) = sample.toInt := by omega
    rw [same, Int32.ofInt_toInt]

/-- The mix of one set is the set, raised into range, with silence behind it. -/
theorem mix_of_one (valid : format.validate = .ok limit)
    (codec : format.width direction = .ok width)
    (carried : ∀ sample ∈ samples, Carried width sample) (zeros : Nat) :
    (List.range (samples.length + zeros)).map (mixAt limit [samples]) =
      samples.map (raised limit) ++ List.replicate zeros 0 := by
  apply List.ext_getElem (by simp)
  intro index inside _
  rw [List.getElem_map, List.getElem_range, mix_at_single]
  by_cases own : index < samples.length
  · rw [List.getElem_append_left (by simpa using own), List.getElem_map,
      List.getElem?_eq_getElem own, Option.map_some, Option.getD_some]
    exact clamp_carried valid codec (carried _ (List.getElem_mem own))
  · rw [List.getElem_append_right (by simpa using own), List.getElem_replicate,
      List.getElem?_eq_none (Nat.le_of_not_lt own)]
    rfl

/-- What a frame spells first is what its bytes begin with. -/
private theorem begins_with (converted : ∀ direction, format.width direction = .ok width)
    (written : Pcm.encode samples format = .ok bytes)
    (back : Pcm.decode frame format = .ok (samples ++ more)) : bytes <+: frame := by
  obtain ⟨again, -⟩ := encode_decode (converted .decode) back
  rw [encode_eq (converted .encode), Except.ok.injEq] at again written
  rw [← again, ← written, List.flatMap_append]
  exact List.prefix_append _ _

/-! ## Sets -/

private theorem offered_cons (first : Attached) (rest : List Attached) :
    offered (first :: rest) sources =
      (speechOf (first, offers sources first)).toList ++ offered rest sources := by
  cases speaks : speechOf (first, offers sources first) <;> simp [offered, speaks]

private theorem speech_of_some (some : samples ≠ []) :
    speechOf (one, .some samples) = .some ⟨one.id, samples⟩ := by
  cases samples with
  | nil => exact absurd rfl some
  | cons sample samples => rfl

/-- Whether a source is not heard: it is excluded, or it has nothing to say. -/
def Mute (sources : Array Source) (excluded : List SourceId) (attached : Attached) : Prop :=
  attached.id ∈ excluded ∨ ∀ set, offers sources attached = some set → set = []

private theorem audible_none {attached : List Attached}
    (mute : ∀ one ∈ attached, Mute sources excluded one) :
    Speech.audible excluded (offered attached sources) = [] := by
  rw [audible_nil_iff]
  intro speech member
  obtain ⟨some, one, attends, same, given⟩ := speech_offered member
  rcases mute one attends with barred | silent
  · exact same ▸ barred
  · exact absurd (silent _ given) some

private theorem audible_append (excluded : List SourceId) (first second : List Speech) :
    Speech.audible excluded (first ++ second) =
      Speech.audible excluded first ++ Speech.audible excluded second := by
  simp [Speech.audible]

/-- Where only one source is heard, its set is all that is audible. -/
theorem audible_one {attached : List Attached} (distinct : attached.Nodup) (member : one ∈ attached)
    (heard : one.id ∉ excluded) (given : offers sources one = .some samples) (some : samples ≠ [])
    (alone : ∀ other ∈ attached, other ≠ one → Mute sources excluded other) :
    Speech.audible excluded (offered attached sources) = [samples] := by
  induction attached with
  | nil => cases member
  | cons first rest ih =>
    obtain ⟨absent, restDistinct⟩ := List.nodup_cons.mp distinct
    rw [offered_cons, audible_append]
    rcases List.mem_cons.mp member with rfl | later
    · have others : Speech.audible excluded (offered rest sources) = [] :=
        audible_none fun other attends =>
          alone other (List.mem_cons_of_mem _ attends) fun same => absent (same ▸ attends)
      rw [others, given, speech_of_some some]
      simp [Speech.audible, heard]
    · have apart : first ≠ one := fun same => absent (same ▸ later)
      have silent : Speech.audible excluded (offered [first] sources) = [] :=
        audible_none fun other attends =>
          List.mem_singleton.mp attends ▸ alone first List.mem_cons_self apart
      rw [offered_cons] at silent
      rw [audible_append] at silent
      rw [(List.append_eq_nil_iff.mp silent).1, List.nil_append]
      exact ih restDistinct later fun other attends =>
        alone other (List.mem_cons_of_mem _ attends)

/-! ## The push -/

/-- A push installs nothing. -/
private theorem offer_same_handlers (source : Nat) (samples : List Sample) :
    SameHandlers exchange (exchange.offer source samples).2 := by
  unfold Exchange.offer
  split <;> exact ⟨rfl, fun _ => rfl⟩

private theorem offer_reachable (reachable : Reachable exchange) (source : Nat)
    (samples : List Sample) : Reachable (exchange.offer source samples).2 := by
  have room : (exchange.offer source samples).2.exhausted = exchange.exhausted := by
    unfold Exchange.offer
    split <;> rfl
  exact ⟨reachable.moves.trans (offer_closed moves_closed), room.trans reachable.sufficed⟩

/-- A mixer of 16 or 32 bits at which a listener of its format hears a source with an empty queue,
and no other source that has anything to say. -/
structure Lone (exchange : Exchange) (mixer : Nat) (found : Mixer) (one : Attached)
    (queue : SampleQueue) (entry : Registered) : Prop where
  live : exchange.liveMixer? mixer = some found
  running : found.stopped = false
  little : found.format.order = .little
  depth : found.format.bits = 16 ∨ found.format.bits = 32
  attached : one ∈ found.sources
  queued : exchange.queue? one.source = some queue
  empty : queue.waiting = []
  registered : entry ∈ found.listeners
  format : listenerFormat? exchange entry.listener = some found.format
  heard : one.id ∉ entry.excluded
  alone : ∀ other ∈ found.sources, other ≠ one → Mute exchange.sources entry.excluded other

/-- What a read gives of `bytes` that were pushed, which spell `samples`: a frame of these samples,
raised into range, and behind them silence, if an excluded source had more to say. -/
def Returned (exchange : Exchange) (found : Mixer) (entry : Registered) (bytes : List UInt8)
    (samples : List Sample) (read : Heard × Exchange) : Prop :=
  ∃ limit heard zeros, found.format.validate = .ok limit ∧
    read.1 = .frame heard ∧ read.2.exhausted = false ∧
    Pcm.decode heard found.format = .ok (samples.map (raised limit) ++ List.replicate zeros 0) ∧
    ((∀ sample ∈ samples, sample.toInt ≠ -limit.toInt - 1) → bytes <+: heard) ∧
    (∀ other ∈ found.sources, ∀ set, offers exchange.sources other = some set →
      set.length ≤ samples.length + zeros) ∧
    (zeros ≠ 0 → ∃ other ∈ found.sources, other.id ∈ entry.excluded ∧
      ∃ set, offers exchange.sources other = some set ∧ set.length = samples.length + zeros)

section
variable (lone : Lone exchange mixer found one queue entry)
  (short : samples.length ≤ min queue.frame queue.capacity)
include lone

/-- Bytes that spell samples at all spell some. -/
private theorem decoded_some (decoded : Pcm.decode bytes found.format = .ok samples)
    (nonempty : bytes ≠ []) : samples ≠ [] := by
  rintro rfl
  obtain ⟨-, converted⟩ := convertible lone.little lone.depth
  obtain ⟨-, size, -⟩ := encode_decode (converted .decode) decoded
  exact nonempty (List.length_eq_zero_iff.mp (by simpa using size))

private theorem offers_elsewhere (apart : other.source ≠ one.source) :
    offers (exchange.offer one.source samples).2.sources other =
      offers exchange.sources other := by
  simp [offers, Exchange.offer, lone.queued, note, updateSource, Array.getElem?_modify,
    Ne.symm apart]

include short

/-- All of the push is accepted, and all of it is handed out next. -/
private theorem offers_own (some : samples ≠ []) :
    queue.accepted samples = samples.length ∧
      offers (exchange.offer one.source samples).2.sources one = .some samples := by
  have room : queue.room = queue.capacity := by simp [SampleQueue.room, lone.empty]
  have within : samples.length ≤ queue.frame ∧ samples.length ≤ queue.capacity := le_min_iff.mp short
  refine ⟨by rw [SampleQueue.accepted, room, Nat.min_eq_left within.2], ?_⟩
  obtain ⟨-, now, -⟩ := offer_queued lone.queued samples
  obtain ⟨source, there, feed⟩ := source_of_queue now
  have waiting : (queue.push samples).waiting = samples := by
    simp [SampleQueue.push, lone.empty, room, within.2]
  have frame : (queue.push samples).frame = queue.frame := rfl
  have given : (queue.push samples).read = .some samples := by
    simp [SampleQueue.read, waiting, frame, some, within.1]
  rw [offers, there]
  exact (congrArg Feed.read feed).trans given

private theorem push_answered (notify : Notify)
    (decoded : Pcm.decode bytes found.format = .ok samples) (some : samples ≠ []) :
    perform notify (.offerBytes one.source bytes found.format) exchange =
      (.accepted samples.length, (exchange.offer one.source samples).2) := by
  simp only [perform, onQueue, onFound, lone.queued, decoded,
    (offer_queued lone.queued samples).1, (offers_own lone short some).1]

end

/-! ## The cycle -/

section
variable (lone : Lone exchange mixer found one queue entry)
  (reachable : Reachable (exchange.offer one.source samples).2)
  (short : samples.length ≤ min queue.frame queue.capacity) (some : samples ≠ [])
include lone

private theorem offer_live :
    (exchange.offer one.source samples).2.liveMixer? mixer = .some found := by
  have same : (exchange.offer one.source samples).2.liveMixer? mixer = exchange.liveMixer? mixer := by
    unfold Exchange.offer
    split <;> rfl
  exact same.trans lone.live

private theorem offer_there :
    (exchange.offer one.source samples).2.mixers[mixer]? = .some found :=
  (Option.filter_eq_some_iff.mp (offer_live lone)).1

include reachable

private theorem registry_after : RegistryOrderly (exchange.offer one.source samples).2.sources found :=
  (reachable_orderly reachable).registry _ _ (offer_there lone)

/-- The other sources are at other places, and offer what they offered before. -/
private theorem offers_other (attends : other ∈ found.sources) (apart : other ≠ one) :
    offers (exchange.offer one.source samples).2.sources other =
      offers exchange.sources other := by
  refine offers_elsewhere lone fun same => apart ?_
  exact List.inj_on_of_nodup_map (places_distinct (registry_after lone reachable)) attends
    lone.attached same

include short some

/-- What is handed out reaches the listener as the samples that were pushed, and nothing else does. -/
private theorem audible_pushed : Speech.audible entry.excluded
    (offered found.sources (exchange.offer one.source samples).2.sources) = [samples] := by
  have distinct := (places_distinct (registry_after lone reachable)).of_map
  refine audible_one distinct lone.attached lone.heard (offers_own lone short some).2 some ?_
  intro other attends apart
  have same := offers_other lone reachable attends apart
  exact (lone.alone other attends apart).imp_right fun silent set given =>
    silent set (same.symm.trans given)

/-- The longest set of the cycle is that of the push or of an excluded source. -/
private theorem longest_pushed : ∃ zeros,
    Speech.longest (offered found.sources (exchange.offer one.source samples).2.sources) =
      samples.length + zeros ∧
    (∀ other ∈ found.sources, ∀ set, offers exchange.sources other = .some set →
      set.length ≤ samples.length + zeros) ∧
    (zeros ≠ 0 → ∃ other ∈ found.sources, other.id ∈ entry.excluded ∧
      ∃ set, offers exchange.sources other = .some set ∧ set.length = samples.length + zeros) := by
  have own := (offers_own lone short some).2
  have spoke {other : Attached} {set : List Sample} (attends : other ∈ found.sources)
      (given : offers (exchange.offer one.source samples).2.sources other = .some set)
      (speaks : set ≠ []) :
      ⟨other.id, set⟩ ∈ offered found.sources (exchange.offer one.source samples).2.sources :=
    List.mem_filterMap.mpr ⟨other, attends, by rw [given, speech_of_some speaks]⟩
  have least := length_le_longest (spoke lone.attached own some)
  obtain ⟨zeros, long⟩ := Nat.exists_eq_add_of_le least
  refine ⟨zeros, long, fun other attends set given => ?_, fun more => ?_⟩
  · by_cases silent : set = []
    · simp [silent]
    · have apart : other ≠ one := by
        rintro rfl
        obtain ⟨source, there, feed⟩ := source_of_queue lone.queued
        simp [offers, there, feed, Feed.read, SampleQueue.read, lone.empty] at given
      rw [← offers_other lone reachable attends apart] at given
      exact long ▸ length_le_longest (spoke attends given silent)
  · obtain ⟨speech, member, size⟩ :=
      longest_attained (List.ne_nil_of_mem (spoke lone.attached own some))
    obtain ⟨speaks, other, attends, -, given⟩ := speech_offered member
    rw [long] at size
    have apart : other ≠ one := by
      rintro rfl
      cases given.symm.trans own
      simp only at size
      omega
    rw [offers_other lone reachable attends apart] at given
    rcases lone.alone other attends apart with barred | silent
    · exact ⟨other, attends, barred, _, given, size⟩
    · exact absurd (silent _ given) speaks

private theorem push_spoken :
    offered found.sources (exchange.offer one.source samples).2.sources ≠ [] := by
  intro silent
  have audible := audible_pushed lone reachable short some
  rw [silent] at audible
  cases audible

/-- A listener at which its share of the cycle waits gives back what was pushed. -/
private theorem share_returned (decoded : Pcm.decode bytes found.format = .ok samples)
    {listening : Listener} (there : later.listeners[entry.listener]? = .some listening)
    (alike : listening.format = found.format)
    (waits : listening.pending = .some
      (share (offered found.sources (exchange.offer one.source samples).2.sources) entry))
    (sufficed : later.exhausted = false) :
    Returned exchange found entry bytes samples (later.read entry.listener) := by
  obtain ⟨⟨limit, valid⟩, converted⟩ := convertible lone.little lone.depth
  obtain ⟨written, -, carried⟩ := encode_decode (converted .decode) decoded
  obtain ⟨zeros, long, bound, longer⟩ := longest_pushed lone reachable short some
  have fits : Memory.holdsSamples (samples.length + zeros) = true :=
    long ▸ longest_fits ((reachable_orderly reachable).fits reachable.sufficed)
  rw [share, audible_pushed lone reachable short some, long] at waits
  obtain ⟨heard, room⟩ := read_heard there fun input held => by
    cases waits.symm.trans held
    exact fits
  have more : samples.length + zeros ≠ 0 := by
    have positive := List.length_pos_iff.mpr some
    omega
  obtain ⟨frame, mixed, _, valid', -, back⟩ := heard_frame waits (List.cons_ne_nil _ _) more
    (alike ▸ lone.little) (alike ▸ lone.depth)
  rw [alike] at valid' back
  cases valid.symm.trans valid'
  rw [mix_of_one valid (converted .decode) carried] at back
  refine ⟨limit, frame, zeros, valid, heard.trans mixed, room.trans sufficed, back, ?_, bound, longer⟩
  intro ordinary
  have unchanged : samples.map (raised limit) = samples :=
    (List.map_congr_left fun sample member => if_neg (ordinary sample member)).trans
      (List.map_id' samples)
  rw [unchanged] at back
  exact begins_with converted written back

/-- The listener that is fed once finds its share of the cycle, whatever handlers do. -/
private theorem push_waits {notify : Notify} (told : Told notify)
    (next : Chronicled (runCycle notify mixer (exchange.offer one.source samples).2).2 later)
    (sufficed : later.exhausted = false)
    (once : (occasions entry.listener later).length =
      (occasions entry.listener exchange).length + 1) :
    ∃ listening, later.listeners[entry.listener]? = .some listening ∧
      listening.format = found.format ∧ listening.pending = .some
        (share (offered found.sources (exchange.offer one.source samples).2.sources) entry) := by
  have speeches := PersonalisedMix.spoken_offered reachable (offer_there lone)
  have somebody := push_spoken lone reachable short some
  rw [← @offer_occasions exchange one.source samples entry.listener] at once
  rw [← speeches] at somebody ⊢
  exact share_waits told (offer_live lone) lone.running somebody lone.registered
    (chronicled_format (chronicled_passage .offer) lone.format) next sufficed once

/-- Where handlers are quiet it does so right after the cycle. -/
private theorem push_waits_quietly {notify : Notify}
    (quiet : ∀ other ∈ found.listeners,
      Quiet notify (exchange.offer one.source samples).2 other.listener) :
    ∃ listening, (runCycle notify mixer
        (exchange.offer one.source samples).2).2.listeners[entry.listener]? = .some listening ∧
      listening.format = found.format ∧ listening.pending = .some
        (share (offered found.sources (exchange.offer one.source samples).2.sources) entry) := by
  have known : listenerFormat? (exchange.offer one.source samples).2 entry.listener =
      .some found.format := chronicled_format (chronicled_passage .offer) lone.format
  obtain ⟨listening, there, alike⟩ := listener_of_format known
  have delivered := PersonalisedMix.cycle_delivers reachable (offer_there lone) lone.running quiet
    (push_spoken lone reachable short some) lone.registered
  rw [there] at delivered
  exact ⟨_, delivered, alike, rfl⟩

end

/-! ## The read -/

/-- Bytes of whole samples, no more than a frame and than the queue holds, that are pushed to an empty
source, one cycle, and the next read of a listener that hears this source and no other: the listener
is fed once and not read before, whatever handlers do otherwise. The read gives back what was pushed. -/
theorem lone_speaker_heard {notify : Notify} (told : Told notify)
    (reached : Chronicled Exchange.empty exchange)
    (lone : Lone exchange mixer found one queue entry)
    (decoded : Pcm.decode bytes found.format = .ok samples) (nonempty : bytes ≠ [])
    (short : samples.length ≤ min queue.frame queue.capacity) :
    let pushed := perform notify (.offerBytes one.source bytes found.format) exchange
    pushed.1 = .accepted samples.length ∧
    (∀ later, Chronicled (runCycle notify mixer pushed.2).2 later → later.exhausted = false →
      (occasions entry.listener later).length =
        (occasions entry.listener exchange).length + 1 →
      Returned exchange found entry bytes samples (later.read entry.listener)) ∧
    ∀ limit sample : Sample, 0 ≤ limit →
      mixSample? limit sample 0 = some (clampTo limit sample.toInt) := by
  have some : samples ≠ [] := decoded_some lone decoded nonempty
  simp only [push_answered lone short notify decoded some]
  refine ⟨trivial, fun later next sufficed once => ?_,
    fun limit sample positive => mix_sample_first_succeeds positive sample⟩
  have cycled : Chronicled (exchange.offer one.source samples).2
      (runCycle notify mixer (exchange.offer one.source samples).2).2 :=
    chronicled_iff_recorded.mpr (cycle_recorded
      (fun _ _ _ => chronicled_iff_recorded.mp (told _ _ _)) (by rw [offer_live lone]; rfl))
  have reachable : Reachable (exchange.offer one.source samples).2 := by
    obtain ⟨deeds, chronicle⟩ := chronicled_trans reached (chronicled_passage .offer)
    exact ⟨course_moves (chronicle_course chronicle),
      chronicled_sufficed (chronicled_trans cycled next) sufficed⟩
  obtain ⟨listening, there, alike, waits⟩ :=
    push_waits lone reachable short some told next sufficed once
  exact share_returned lone reachable short some decoded there alike waits sufficed

/-- Where the handlers of all that are fed are quiet, so that they count or notify at most, and memory
has room to read the sources, nothing need be known of how the cycle ends. -/
theorem lone_speaker_heard_quietly {notify : Notify} (reachable : Reachable exchange)
    (lone : Lone exchange mixer found one queue entry)
    (quiet : ∀ other ∈ found.listeners, Quiet notify exchange other.listener)
    (decoded : Pcm.decode bytes found.format = .ok samples) (nonempty : bytes ≠ [])
    (short : samples.length ≤ min queue.frame queue.capacity) :
    let pushed := (perform notify (.offerBytes one.source bytes found.format) exchange).2
    (∀ other ∈ found.sources, ∀ source, pushed.sources[other.source]? = some source →
      source.feed.hasRoom = true) →
    Returned exchange found entry bytes samples
      ((runCycle notify mixer pushed).2.read entry.listener) := by
  have some : samples ≠ [] := decoded_some lone decoded nonempty
  simp only [push_answered lone short notify decoded some]
  intro room
  have pushed : Reachable (exchange.offer one.source samples).2 :=
    offer_reachable reachable one.source samples
  have still : ∀ other ∈ found.listeners,
      Quiet notify (exchange.offer one.source samples).2 other.listener :=
    fun other member => quiet_after (offer_same_handlers _ _) (quiet other member)
  obtain ⟨listening, there, alike, waits⟩ := push_waits_quietly lone pushed short some still
  refine share_returned lone pushed short some decoded there alike waits ?_
  exact PersonalisedMix.cycle_room pushed (offer_there lone) lone.running still room

/-- A listener that excludes the second of two speakers, and one whose handler reads it and pushes
more to that speaker. -/
def besideAnother : Exchange := (Exchange.empty.run [.addMixer .pcm16, .addQueue 4 8, .addQueue 4 8,
  .attach 0 0, .attach 0 1, .addListener 0 [1], .addListener 0 [], .start 0, .start 1,
  .runOnInput 1 1 [.read 1, .offer 1 [5]], .offer 1 [7, 7, 7]]).2

private theorem beside_another_lone : ∃ found queue,
    Lone besideAnother 0 found ⟨0, 1⟩ queue ⟨0, [2]⟩ ∧ found.format = .pcm16 ∧
      found.sources = [⟨0, 1⟩, ⟨1, 2⟩] ∧ min queue.frame queue.capacity = 4 := by
  have mixing : (besideAnother.liveMixer? 0).map (fun found => (found.stopped, found.format,
      found.sources, found.listeners)) = some (false, .pcm16, [⟨0, 1⟩, ⟨1, 2⟩],
        [⟨0, [2]⟩, ⟨1, []⟩]) := by decide +kernel
  obtain ⟨found, live, facts⟩ := Option.map_eq_some_iff.mp mixing
  simp only [Prod.mk.injEq] at facts
  obtain ⟨running, format, sources, listeners⟩ := facts
  have holding : (besideAnother.queue? 0).map (fun queue =>
      (queue.waiting, min queue.frame queue.capacity)) = some ([], 4) := by decide +kernel
  obtain ⟨queue, queued, parts⟩ := Option.map_eq_some_iff.mp holding
  obtain ⟨empty, most⟩ := Prod.mk.inj parts
  have hearing : listenerFormat? besideAnother 0 = some .pcm16 := by decide +kernel
  refine ⟨found, queue, ?_, format, sources, most⟩
  exact {
    live, running, queued, empty
    little := by rw [format]; rfl
    depth := by rw [format]; exact .inl rfl
    attached := by simp [sources]
    registered := by simp [listeners]
    format := format ▸ hearing
    heard := by simp
    alone := by
      intro other attends apart
      rw [sources] at attends
      refine .inl ?_
      revert other
      decide }

theorem lowest_sample_raised :
    let pushed := (perform (respond 3) (.offerBytes 0 [1, 0, 0, 128] .pcm16) besideAnother).2
    ∃ heard, ((runCycle (respond 3) 0 pushed).2.read 0).1 = .frame heard ∧
      Pcm.decode heard .pcm16 = .ok [1, -32767, 0] := by
  obtain ⟨found, queue, lone, format, sources, most⟩ := beside_another_lone
  have decoded : Pcm.decode [1, 0, 0, 128] found.format = .ok [1, -32768] := by
    rw [format]
    decide +kernel
  have reached : Chronicled Exchange.empty besideAnother := run_chronicled _
  obtain ⟨-, heard, -⟩ := lone_speaker_heard (respond_told 3) reached lone decoded
    (List.cons_ne_nil _ _) (by rw [most]; decide)
  rw [format] at heard
  obtain ⟨limit, bytes, zeros, valid, read, -, back, -, bound, longer⟩ :=
    heard _ chronicled_refl (by decide +kernel) (by decide +kernel)
  rw [format] at valid back
  rw [sources] at bound longer
  -- The excluded source says three samples, so one is added.
  have second : offers besideAnother.sources ⟨1, 2⟩ = some [7, 7, 7] := by decide +kernel
  have least := bound ⟨1, 2⟩ (by decide) _ second
  have one : zeros = 1 := by
    obtain ⟨other, attends, barred, set, given, size⟩ := longer fun none => by
      simp [none] at least
    have same : other = ⟨1, 2⟩ := by
      clear given
      revert other
      decide
    rw [same, second] at given
    cases given
    simp only [List.length_cons, List.length_nil] at size
    omega
  cases (show limit = 32767 by cases valid; rfl)
  have lifted : [1, -32768].map (raised 32767) ++ List.replicate 1 0 = [1, -32767, 0] := by
    decide +kernel
  rw [one, lifted] at back
  exact ⟨bytes, read, back⟩

end Conference.LoneSpeaker
