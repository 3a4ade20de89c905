import Mathlib.Data.List.Nodup
import Conference.Proofs.ExchangeInvariants

/-! The course of one cycle: it reads its sources before it hands anything out, and what they hand
it is settled by the registry and the sources as they were found. A cycle in which no source speaks
hands nothing to anyone; any other hands each registered listener its share in turn. -/
namespace Conference.CycleCourse
open Exchange ExchangeMoves ExchangeInvariants

/-! ## Reading the sources -/

/-- What attached sources hand out when they are read one after another. -/
def readings : List Attached → Array Source → List (Attached × Option (List Sample))
  | [], _ => []
  | attached :: rest, sources =>
    match sources[attached.source]? with
    | none => readings rest sources
    | some found => (attached, found.feed.read) ::
        readings rest (sources.modify attached.source fun found =>
          { found with feed := found.feed.afterRead })

/-- A reading counts as long as it holds a sample. -/
def speechOf : Attached × Option (List Sample) → Option Speech
  | (attached, some (sample :: samples)) => some ⟨attached.id, sample :: samples⟩
  | _ => none

/-- The sample sets of a cycle that reads these attached sources. -/
def spoken (attached : List Attached) (sources : Array Source) : List Speech :=
  (readings attached sources).filterMap speechOf

/-- What an attached source would hand out now. -/
def offers (sources : Array Source) (attached : Attached) : Option (List Sample) :=
  sources[attached.source]? >>= fun found => found.feed.read

/-- The sample sets that attached sources would hand out now. -/
def offered (attached : List Attached) (sources : Array Source) : List Speech :=
  attached.filterMap fun one => speechOf (one, offers sources one)

/-- A cycle's sample sets follow from its registry and its sources. -/
theorem draw_all_speeches (attached : List Attached) (exchange : Exchange) :
    (drawAll attached exchange).1 = spoken attached exchange.sources := by
  induction attached generalizing exchange with
  | nil => rfl
  | cons first rest ih =>
    simp only [drawAll, spoken, readings, draw]
    cases there : exchange.sources[first.source]? with
    | none => simpa [spoken] using ih exchange
    | some found =>
      simp only [List.filterMap_cons]
      have later := ih (((exchange.demand found.feed.hasRoom).updateSource first.source fun found =>
        { found with feed := found.feed.afterRead }).note (.drawn first.source found.feed.read))
      cases drawn : found.feed.read with
      | none =>
        rw [drawn] at later
        exact later
      | some set =>
        rw [drawn] at later
        cases set with
        | nil => exact later
        | cons sample samples => exact congrArg (⟨first.id, sample :: samples⟩ :: ·) later

private theorem draw_all_cons (first : Attached) (rest : List Attached) (exchange : Exchange) :
    (drawAll (first :: rest) exchange).2 = (drawAll rest (exchange.draw first.source).2).2 := by
  simp only [drawAll]
  split <;> rfl

/-- The journal tells of the readings one by one. -/
theorem draw_all_journal (attached : List Attached) (exchange : Exchange) :
    (drawAll attached exchange).2.journal.toList = exchange.journal.toList ++
      (readings attached exchange.sources).map fun reading =>
        .drawn reading.1.source reading.2 := by
  induction attached generalizing exchange with
  | nil => simp [drawAll, readings]
  | cons first rest ih =>
    rw [draw_all_cons, ih, readings, draw]
    cases there : exchange.sources[first.source]? with
    | none => rfl
    | some found => simp [note, updateSource, demand]

/-- Reading sources touches no listener and no handler. -/
theorem draw_all_aside (attached : List Attached) (exchange : Exchange) :
    (drawAll attached exchange).2.listeners = exchange.listeners ∧
      (drawAll attached exchange).2.handlers = exchange.handlers := by
  induction attached generalizing exchange with
  | nil => exact ⟨rfl, rfl⟩
  | cons first rest ih =>
    rw [draw_all_cons, (ih _).1, (ih _).2]
    unfold draw
    split <;> exact ⟨rfl, rfl⟩

/-- Nor does it touch a mixer. -/
theorem draw_all_mixers (attached : List Attached) (exchange : Exchange) :
    (drawAll attached exchange).2.mixers = exchange.mixers := by
  induction attached generalizing exchange with
  | nil => rfl
  | cons first rest ih =>
    rw [draw_all_cons, ih]
    unfold draw
    split <;> rfl

private theorem draw_sources (source : Nat) (exchange : Exchange) :
    (exchange.draw source).2.sources = exchange.sources.modify source fun found =>
      { found with feed := found.feed.afterRead } := by
  unfold draw
  split
  · rename_i absent
    apply Array.ext_getElem?
    intro place
    rw [Array.getElem?_modify]
    split
    · rename_i same
      rw [← same, absent]
      rfl
    · rfl
  · rfl

/-- Sources at different places are each read once. -/
theorem draw_all_sources {attached : List Attached} {exchange : Exchange}
    (distinct : (attached.map Attached.source).Nodup) (place : Nat) :
    (drawAll attached exchange).2.sources[place]? =
      if place ∈ attached.map Attached.source then
        (exchange.sources[place]?).map fun found => { found with feed := found.feed.afterRead }
      else exchange.sources[place]? := by
  induction attached generalizing exchange with
  | nil => rfl
  | cons first rest ih =>
    obtain ⟨absent, restDistinct⟩ := List.nodup_cons.mp distinct
    rw [draw_all_cons, ih restDistinct, draw_sources, Array.getElem?_modify]
    by_cases here : first.source = place
    · subst here
      simp [absent]
    · simp [here, Ne.symm here]

/-- Sources at different places do not notice that others are read, so reading them one after
another finds what each of them offers now. -/
theorem spoken_of_distinct {attached : List Attached} {sources : Array Source}
    (distinct : (attached.map Attached.source).Nodup) :
    spoken attached sources = offered attached sources := by
  induction attached generalizing sources with
  | nil => rfl
  | cons first rest ih =>
    obtain ⟨absent, restDistinct⟩ := List.nodup_cons.mp distinct
    cases there : sources[first.source]? with
    | none =>
      have nothing : speechOf (first, offers sources first) = none := by
        rw [offers, there]
        rfl
      rw [offered, List.filterMap_cons, nothing, ← offered, ← ih restDistinct, spoken, readings,
        there, spoken]
    | some found =>
      have same : offered rest (sources.modify first.source fun found =>
          { found with feed := found.feed.afterRead }) = offered rest sources := by
        refine List.filterMap_congr fun one member => ?_
        have apart : first.source ≠ one.source := fun same =>
          absent (same ▸ List.mem_map_of_mem member)
        simp only [offers, Array.getElem?_modify, apart, ↓reduceIte]
      have here : offers sources first = found.feed.read := by
        rw [offers, there]
        rfl
      rw [offered, List.filterMap_cons, here, ← offered, ← same, ← ih restDistinct, spoken, readings,
        there]
      rfl

/-- In a registry in order different entries stand for different places. -/
theorem places_distinct {sources : Array Source} {mixer : Mixer}
    (orderly : RegistryOrderly sources mixer) : (mixer.sources.map Attached.source).Nodup := by
  have identities : mixer.sources.map (fun entry => some entry.id) =
      (mixer.sources.map Attached.source).map fun place => (sources[place]?).map Source.id := by
    rw [List.map_map]
    exact List.map_congr_left fun entry member => (orderly.known entry member).symm
  have distinct : (mixer.sources.map fun entry => some entry.id).Nodup := by
    have injected := orderly.distinct.map fun _ _ => Option.some.inj
    rwa [List.map_map] at injected
  rw [identities] at distinct
  exact distinct.of_map _

/-- A read leaves no more waiting than it found, so that the next one needs no more room. -/
private theorem after_read_room {feed : Feed} (room : feed.hasRoom = true) :
    feed.afterRead.hasRoom = true := by
  cases feed with
  | queue waiting =>
    obtain ⟨frame, shared⟩ := Bool.and_eq_true_iff.mp room
    have fewer : min waiting.frame (waiting.waiting.drop waiting.frame).length ≤
        min waiting.frame waiting.waiting.length := by
      simp only [List.length_drop]
      omega
    exact Bool.and_eq_true_iff.mpr ⟨frame, Memory.shared_of_le shared fewer⟩
  | script frames => rfl

/-- Memory suffices for a cycle's reading if it has room to read each source. -/
theorem draw_all_room {attached : List Attached} {exchange : Exchange}
    (room : ∀ one ∈ attached, ∀ source, exchange.sources[one.source]? = some source →
      source.feed.hasRoom = true) :
    (drawAll attached exchange).2.exhausted = exchange.exhausted := by
  induction attached generalizing exchange with
  | nil => rfl
  | cons first rest ih =>
    rw [draw_all_cons]
    unfold draw
    cases there : exchange.sources[first.source]? with
    | none => exact ih fun one member => room one (List.mem_cons_of_mem _ member)
    | some found =>
      have enough := room first List.mem_cons_self found there
      rw [ih]
      · simp [note, updateSource, demand, enough]
      · intro one member source found
        simp only [note, updateSource, demand, Array.getElem?_modify] at found
        split at found
        · obtain ⟨before, held, rfl⟩ := Option.map_eq_some_iff.mp found
          rename_i same
          exact after_read_room (room one (List.mem_cons_of_mem _ member) before (same ▸ held))
        · exact room one (List.mem_cons_of_mem _ member) source found

/-! ## Sample sets -/

theorem speech_of_id (speaks : speechOf (one, reading) = some speech) : speech.id = one.id := by
  unfold speechOf at speaks
  split at speaks
  · rename_i same
    cases speaks
    rw [(Prod.mk.inj same).1]
  · cases speaks

/-- A sample set is never empty, and an attached source offers it. -/
theorem speech_offered {attached : List Attached} {sources : Array Source}
    (member : speech ∈ offered attached sources) : speech.samples ≠ [] ∧
      ∃ one ∈ attached, one.id = speech.id ∧ offers sources one = some speech.samples := by
  obtain ⟨one, attends, speaks⟩ := List.mem_filterMap.mp member
  unfold speechOf at speaks
  split at speaks
  · rename_i same
    cases speaks
    obtain ⟨rfl, reading⟩ := Prod.mk.inj same
    exact ⟨List.cons_ne_nil _ _, one, attends, rfl, reading⟩
  · cases speaks

private theorem longest_cons (speech : Speech) (speeches : List Speech) :
    Speech.longest (speech :: speeches) =
      max speech.samples.length (Speech.longest speeches) := by
  have folded : ∀ (speeches : List Speech) (length : Nat),
      speeches.foldl (fun length speech => max length speech.samples.length) length =
        max length (Speech.longest speeches) := by
    intro speeches
    induction speeches with
    | nil => exact fun length => (Nat.max_zero length).symm
    | cons speech speeches ih =>
      intro length
      simp only [Speech.longest, List.foldl_cons]
      rw [ih (max length _), ih (max 0 _)]
      omega
  rw [Speech.longest, List.foldl_cons, folded, Nat.zero_max]

theorem length_le_longest (member : speech ∈ speeches) :
    speech.samples.length ≤ Speech.longest speeches := by
  induction speeches with
  | nil => cases member
  | cons first rest ih =>
    rw [longest_cons]
    rcases List.mem_cons.mp member with rfl | later
    · exact Nat.le_max_left _ _
    · exact Nat.le_trans (ih later) (Nat.le_max_right _ _)

theorem longest_attained (somebody : speeches ≠ []) :
    ∃ speech ∈ speeches, speech.samples.length = Speech.longest speeches := by
  induction speeches with
  | nil => exact absurd rfl somebody
  | cons first rest ih =>
    rw [longest_cons]
    rcases Nat.le_total (Speech.longest rest) first.samples.length with short | long
    · exact ⟨first, List.mem_cons_self, (Nat.max_eq_left short).symm⟩
    · cases rest with
      | nil => exact ⟨first, List.mem_cons_self, (Nat.max_eq_left (Nat.zero_le _)).symm⟩
      | cons second rest =>
        obtain ⟨speech, member, same⟩ := ih (List.cons_ne_nil _ _)
        exact ⟨speech, List.mem_cons_of_mem _ member, same.trans (Nat.max_eq_right long).symm⟩

theorem longest_pos {attached : List Attached} {sources : Array Source}
    (somebody : offered attached sources ≠ []) : 0 < Speech.longest (offered attached sources) := by
  obtain ⟨speech, member⟩ := List.exists_mem_of_ne_nil _ somebody
  have nonempty := List.length_pos_iff.mpr (speech_offered member).1
  exact Nat.lt_of_lt_of_le nonempty (length_le_longest member)

/-- Nothing is audible exactly when every source that speaks is excluded. -/
theorem audible_nil_iff : Speech.audible excluded speeches = [] ↔
    ∀ speech ∈ speeches, speech.id ∈ excluded := by
  simp [Speech.audible]

private theorem read_fits {feed : Feed} (fits : feed.fits = true) (held : feed.read = some samples) :
    Memory.holdsSamples samples.length = true := by
  cases feed with
  | queue waiting =>
    simp only [Feed.read, SampleQueue.read] at held
    split at held
    · cases held
    · cases held
      refine Memory.holds_of_le fits ?_
      have bound := waiting.waiting_le
      simp only [List.length_take]
      omega
  | script frames =>
    cases frames with
    | nil => cases held
    | cons frame frames =>
      simp only [Feed.read, List.head?_cons, Option.join_some] at held
      simp only [Feed.fits, held, List.all_cons, Option.all_some, Bool.and_eq_true] at fits
      exact Memory.samples_of_shared fits.1

/-- What is read from sources that fit into memory does so too. -/
theorem longest_fits {attached : List Attached} {sources : Array Source}
    (fits : ∀ (place : Nat) source, sources[place]? = some source → source.feed.fits = true) :
    Memory.holdsSamples (Speech.longest (offered attached sources)) = true := by
  by_cases silent : offered attached sources = []
  · rw [silent]
    rfl
  · obtain ⟨speech, member, same⟩ := longest_attained silent
    obtain ⟨-, one, -, -, reading⟩ := speech_offered member
    obtain ⟨source, there, held⟩ := Option.bind_eq_some_iff.mp reading
    rw [← same]
    exact read_fits (fits _ source there) held

/-! ## Handing out -/

/-- The exchange once a cycle of a mixer, as it was found, has read its sources. -/
def opened (mixer : Nat) (found : Mixer) (exchange : Exchange) : Exchange :=
  { (drawAll found.sources exchange).2 with cycles := exchange.cycles + 1 }.note
    (.began exchange.cycles mixer (spoken found.sources exchange.sources))

/-- What a registered listener is due to receive. -/
def share (speeches : List Speech) (entry : Registered) : Pending :=
  ⟨Speech.audible entry.excluded speeches, Speech.longest speeches⟩

section
variable {exchange : Exchange} {notify : Notify}

/-- A cycle in which no source speaks calls no handler. -/
theorem run_cycle_silent (there : exchange.mixers[mixer]? = some found)
    (running : found.stopped = false) (silent : spoken found.sources exchange.sources = []) :
    runCycle notify mixer exchange =
      (.idle, (opened mixer found exchange).finish mixer exchange.cycles .idle) := by
  simp [runCycle, there, running, draw_all_speeches, silent, opened]

/-- Any other cycle feeds the listeners of the registry that it found. -/
theorem run_cycle_heard (there : exchange.mixers[mixer]? = some found)
    (running : found.stopped = false) (heard : spoken found.sources exchange.sources = speeches)
    (somebody : speeches ≠ []) :
    runCycle notify mixer exchange =
      (⟨speeches.length, Speech.longest speeches, found.listeners.length⟩,
        ((feed notify exchange.cycles speeches found.listeners
          ((opened mixer found exchange).holding
            ⟨[mixer], found.listeners.map Registered.listener⟩)).finish mixer exchange.cycles
          ⟨speeches.length, Speech.longest speeches, found.listeners.length⟩).release) := by
  have sounding : speeches.isEmpty = false := by simpa using somebody
  simp [runCycle, there, running, draw_all_speeches, heard, sounding, opened]

/-- A change that a view does not notice. -/
theorem map_modify_same {items : Array α} {view : α → β} {change : α → α}
    (same : ∀ item, view (change item) = view item) (place : Nat) :
    (items.modify place change).map view = items.map view := by
  refine Array.ext_getElem? fun other => ?_
  rw [Array.getElem?_map, Array.getElem?_map, Array.getElem?_modify]
  split
  · rw [Option.map_map]
    exact congrArg (Option.map · items[other]?) (funext same)
  · rfl

/-- Whether what is installed on listeners is the same in two exchanges. -/
def SameHandlers (before after : Exchange) : Prop :=
  after.handlers.map Handler.reaction = before.handlers.map Handler.reaction ∧
    ∀ listener : Nat, (after.listeners[listener]? >>= Listener.handler) =
      (before.listeners[listener]? >>= Listener.handler)

/-- A cycle installs nothing before it hands out. -/
theorem opened_same_handlers (mixer : Nat) (found : Mixer) (exchange : Exchange) :
    SameHandlers exchange ((opened mixer found exchange).holding held) := by
  obtain ⟨listeners, handlers⟩ := draw_all_aside found.sources exchange
  refine ⟨congrArg (Array.map Handler.reaction) handlers, fun listener => ?_⟩
  exact congrArg (fun all : Array Listener => all[listener]? >>= Listener.handler) listeners

/-- Called for this listener, what is installed in `before` leaves every listener and every handler
as it is and asks for no memory. It may count its calls or notify a channel. -/
def Quiet (notify : Notify) (before : Exchange) (listener : Nat) : Prop :=
  ∀ handler exchange, SameHandlers before exchange →
    (exchange.listeners[listener]? >>= Listener.handler) = some handler →
    (notify handler listener exchange).listeners = exchange.listeners ∧
      (notify handler listener exchange).handlers.map Handler.reaction =
        exchange.handlers.map Handler.reaction ∧
      (notify handler listener exchange).exhausted = exchange.exhausted

/-- What installs nothing leaves a listener quiet. -/
theorem quiet_after (same : SameHandlers before after) (quiet : Quiet notify before listener) :
    Quiet notify after listener := fun handler exchange later =>
  quiet handler exchange ⟨later.1.trans same.1, fun other => (later.2 other).trans (same.2 other)⟩

/-- A listener is quiet whose handler, if it has one, only counts or notifies a channel. -/
theorem respond_quiet (depth : Nat)
    (mild : ∀ handler found, (exchange.listeners[listener]? >>= Listener.handler) = some handler →
      exchange.handlers[handler]? = some found →
      found.reaction = .count ∨ ∃ channel, found.reaction = .notify channel) :
    Quiet (respond depth) exchange listener := by
  rintro handler other ⟨reactions, installed⟩ called
  have counted : (other.handlers.modify handler fun found =>
      { found with calls := found.calls + 1 }).map Handler.reaction =
        other.handlers.map Handler.reaction := by
    refine map_modify_same ?_ handler
    exact fun _ => rfl
  unfold respond
  cases there : other.handlers[handler]? with
  | none => exact ⟨rfl, rfl, rfl⟩
  | some found =>
    have before : (exchange.handlers[handler]?).map Handler.reaction = some found.reaction := by
      rw [← Array.getElem?_map, ← reactions, Array.getElem?_map, there, Option.map_some]
    obtain ⟨origin, held, same⟩ := Option.map_eq_some_iff.mp before
    have harmless := mild handler origin ((installed listener).symm.trans called) held
    rw [same] at harmless
    rcases harmless with counts | ⟨channel, notifies⟩
    · simp only [counts]
      exact ⟨rfl, counted, rfl⟩
    · simp only [notifies]
      exact ⟨rfl, counted, rfl⟩

theorem same_after_pending (same : SameHandlers before exchange) :
    SameHandlers before ((exchange.updateListener place fun found =>
      { found with pending := input }).note entry) := by
  refine ⟨same.1, fun listener => ?_⟩
  rw [← same.2 listener]
  simp only [note, updateListener, Array.getElem?_modify]
  split
  · cases exchange.listeners[listener]? <;> rfl
  · rfl

/-- A quiet listener is handed its input, and nothing else happens. -/
theorem hand_quiet (cycle : Option Nat) (input : Pending)
    (quiet : Quiet notify before place) (same : SameHandlers before exchange) :
    (exchange.hand notify place cycle input).listeners =
        (exchange.listeners.modify place fun found => { found with pending := some input }) ∧
      SameHandlers before (exchange.hand notify place cycle input) ∧
      (exchange.hand notify place cycle input).exhausted = exchange.exhausted := by
  unfold hand
  simp only
  split
  · exact ⟨rfl, same_after_pending same, rfl⟩
  · rename_i handler called
    obtain ⟨listeners, reactions, room⟩ := quiet handler _ (same_after_pending same) called
    refine ⟨listeners, ⟨reactions.trans same.1, fun listener => ?_⟩, room⟩
    rw [listeners]
    exact (same_after_pending same).2 listener

theorem feed_cons (notify : Notify) (cycle : Nat) (speeches : List Speech) (entry : Registered)
    (rest : List Registered) (exchange : Exchange) :
    feed notify cycle speeches (entry :: rest) exchange = feed notify cycle speeches rest
      (exchange.hand notify entry.listener (some cycle) (share speeches entry)) := rfl

/-- Only those who are fed notice the feeding. -/
theorem feed_elsewhere (quiet : ∀ entry ∈ entries, Quiet notify before entry.listener)
    (same : SameHandlers before exchange)
    (elsewhere : place ∉ entries.map Registered.listener) :
    (feed notify cycle speeches entries exchange).listeners[place]? =
      exchange.listeners[place]? := by
  induction entries generalizing exchange with
  | nil => rfl
  | cons entry rest ih =>
    obtain ⟨apart, later⟩ := not_or.mp (mt List.mem_cons.mpr elsewhere)
    obtain ⟨handed, still, -⟩ := hand_quiet (some cycle) (share speeches entry)
      (quiet entry List.mem_cons_self) same
    rw [feed_cons, ih (fun one member => quiet one (List.mem_cons_of_mem _ member)) still later,
      handed, Array.getElem?_modify, if_neg (Ne.symm apart)]

/-- A registered listener is left with its share, whoever is fed before and after it. -/
theorem feed_delivers (quiet : ∀ entry ∈ entries, Quiet notify before entry.listener)
    (same : SameHandlers before exchange)
    (once : (entries.map Registered.listener).Nodup) (member : entry ∈ entries) :
    (feed notify cycle speeches entries exchange).listeners[entry.listener]? =
      (exchange.listeners[entry.listener]?).map fun found =>
        { found with pending := some (share speeches entry) } := by
  induction entries generalizing exchange with
  | nil => cases member
  | cons first rest ih =>
    obtain ⟨absent, restOnce⟩ := List.nodup_cons.mp once
    have restQuiet : ∀ one ∈ rest, Quiet notify before one.listener :=
      fun one later => quiet one (List.mem_cons_of_mem _ later)
    obtain ⟨handed, still, -⟩ := hand_quiet (some cycle) (share speeches first)
      (quiet first List.mem_cons_self) same
    rcases List.mem_cons.mp member with rfl | later
    · rw [feed_cons, feed_elsewhere restQuiet still absent, handed, Array.getElem?_modify, if_pos rfl]
    · have apart : first.listener ≠ entry.listener := fun same =>
        absent (same ▸ List.mem_map_of_mem later)
      rw [feed_cons, ih restQuiet still restOnce later, handed, Array.getElem?_modify, if_neg apart]

/-- Quiet handlers need no memory. -/
theorem feed_room (quiet : ∀ entry ∈ entries, Quiet notify before entry.listener)
    (same : SameHandlers before exchange) :
    (feed notify cycle speeches entries exchange).exhausted = exchange.exhausted := by
  induction entries generalizing exchange with
  | nil => rfl
  | cons entry rest ih =>
    obtain ⟨-, still, room⟩ := hand_quiet (some cycle) (share speeches entry)
      (quiet entry List.mem_cons_self) same
    rw [feed_cons, ih (fun one member => quiet one (List.mem_cons_of_mem _ member)) still, room]

end

end Conference.CycleCourse
