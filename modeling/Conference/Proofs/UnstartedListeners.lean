import Conference.Proofs.CycleCourse
import Conference.Proofs.RegistryOrder

/-! A listener has one mark for being started, however many mixers register it, and every mixer that
it leaves takes the mark away. A listener without the mark is therefore fed by the mixers that it
came to and did not leave, as long as it left another one since. -/
namespace Conference.UnstartedListeners
open Exchange ExchangeCourse ExchangeInvariants RegistryEvents RegistryOrder CycleCourse

/-! ## Registered and not started -/

/-- A listener came to a mixer and did not leave it, but left another one since. -/
def LeftElsewhere (events : List RegistryEvent) (mixer listener : Nat) : Prop :=
  ∃ earlier later, events = earlier ++ .joined mixer listener :: later ∧
    .left mixer listener ∉ later ∧ ∃ other, .left other listener ∈ later

/-- A listener came to a mixer and did not leave it, and it still counts as started unless it left
another one since. -/
def Stays (exchange : Exchange) (past : List RegistryEvent) (mixer listener : Nat) : Prop :=
  ∃ earlier later, past = earlier ++ .joined mixer listener :: later ∧
    .left mixer listener ∉ later ∧
    (startedAt exchange listener = true ∨ ∃ other, .left other listener ∈ later)

section
variable {before after : Exchange} {past : List RegistryEvent} {event? : Option RegistryEvent}

private theorem stays_on (stays : Stays before past mixer listener)
    (started : startedAt after = startedAt before) : Stays after past mixer listener := by
  rwa [Stays, started]

private theorem stays_later (stays : Stays before past mixer listener)
    (apart : event ≠ .left mixer listener)
    (kept : startedAt before listener = true →
      startedAt after listener = true ∨ ∃ other, event = .left other listener) :
    Stays after (past ++ [event]) mixer listener := by
  obtain ⟨earlier, later, rfl, stayed, mark⟩ := stays
  refine ⟨earlier, later ++ [event], by simp, ?_, ?_⟩
  · simp [stayed, Ne.symm apart]
  · rcases mark with started | ⟨other, left⟩
    · rcases kept started with still | ⟨other, rfl⟩
      · exact .inl still
      · exact .inr ⟨other, by simp⟩
    · exact .inr ⟨other, List.mem_append_left _ left⟩

private theorem moved_stays (moved : Moved before after event?)
    (live : ∀ mixer, gone before mixer = false)
    (stay : ∀ {mixer listener},
      listener ∈ (registeredWith before mixer).map Registered.listener →
        Stays before past mixer listener)
    (registers : listener ∈ (registeredWith after mixer).map Registered.listener) :
    Stays after (past ++ event?.toList) mixer listener := by
  cases moved with
  | still unmoved =>
    rw [unmoved.registered] at registers
    simpa using stays_on (stay registers) unmoved.started
  | attached _ _ same | detached _ _ same =>
    rw [same.registered] at registers
    refine stays_later (stay registers) (by simp) fun started => ?_
    exact .inl (by rwa [same.started])
  | @joined place who ids fresh own registered started =>
    by_cases here : mixer = place ∧ listener = who
    · obtain ⟨rfl, rfl⟩ := here
      exact ⟨past, [], by simp, by simp, .inl (by rw [started, Function.update_self])⟩
    · have old := ((joined_names registered mixer listener).mp registers).resolve_right here
      refine stays_later (stay old) (by simp) fun marked => .inl ?_
      rw [started, Function.update_apply]
      split
      · rfl
      · exact marked
  | @left place who known registered started =>
    obtain ⟨old, apart⟩ := (left_names registered mixer listener).mp registers
    have other : RegistryEvent.left place who ≠ .left mixer listener := by
      rintro ⟨⟩
      exact apart ⟨rfl, rfl⟩
    refine stays_later (stay old) other fun marked => ?_
    by_cases same : listener = who
    · exact .inr ⟨place, by rw [same]⟩
    · exact .inl (by rwa [started, Function.update_of_ne same])
  | orphaned home away => exact absurd away (by simp [live])
  | excluded registered started =>
    rw [excluded_names registered] at registers
    exact stays_later (stay registers) (by simp) fun marked => .inl (by rwa [started])

private theorem moved_live (moved : Moved before after event?)
    (live : ∀ mixer, gone after mixer = false) (mixer : Nat) : gone before mixer = false := by
  by_contra away
  have later : gone after mixer = true := by
    have away : gone before mixer = true := by simpa using away
    cases moved with
    | still unmoved => exact unmoved.gone away
    | attached _ _ same | detached _ _ same => exact same.gone away
    | joined _ _ _ _ _ settled | left _ _ _ _ settled | orphaned _ _ _ _ _ settled
    | excluded _ _ _ settled => rwa [settled.gone]
  rw [live mixer] at later
  cases later

end

/-- In the course of a run in which no mixer is let go, whoever is registered came and did not go
since, and counts as started unless they left another mixer since. -/
theorem registered_stays (course : Course Exchange.empty deeds exchange)
    (live : ∀ mixer, gone exchange mixer = false)
    (registers : listener ∈ (registeredWith exchange mixer).map Registered.listener) :
    Stays exchange (events deeds) mixer listener := by
  induction course generalizing mixer listener with
  | nil => cases registers
  | interlude _ interlude ih =>
    have unmoved := interlude_unmoved interlude
    have earlier (mixer : Nat) : gone _ mixer = false := moved_live (.still unmoved) live mixer
    rw [unmoved.registered] at registers
    exact stays_on (ih earlier registers) unmoved.started
  | deed earlier plain ih =>
    have moved := plain_faithful (moves_orderly (course_moves earlier)) plain
    have live := moved_live moved live
    rw [events_snoc]
    exact moved_stays moved live (ih live) registers

/-- A listener that does not count as started is registered exactly with the mixers that it came to
and did not leave, if it left another one since. -/
theorem unstarted_registered_iff (course : Course Exchange.empty deeds exchange)
    (live : ∀ mixer, gone exchange mixer = false)
    (unstarted : startedAt exchange listener = false) (mixer : Nat) :
    listener ∈ (registeredWith exchange mixer).map Registered.listener ↔
      LeftElsewhere (events deeds) mixer listener := by
  constructor
  · intro registers
    obtain ⟨earlier, later, split, stayed, mark⟩ := registered_stays course live registers
    rw [unstarted] at mark
    exact ⟨earlier, later, split, stayed, mark.resolve_left Bool.false_ne_true⟩
  · rintro ⟨earlier, later, split, stayed, -⟩
    rw [(registry_order course mixer).2, listenersStanding, mem_standing_iff, split]
    refine ⟨earlier.filterMap (listenerTurn mixer), later.filterMap (listenerTurn mixer),
      by simp [listenerTurn], fun left => stayed ?_⟩
    obtain ⟨event, member, turn⟩ := List.mem_filterMap.mp left
    cases event <;> simp [listenerTurn] at turn
    obtain ⟨rfl, rfl⟩ := turn
    exact member

/-! ## Whom a cycle calls -/

/-- Whether a cycle calls the handler of a listener, when all other handlers do nothing: what it
does there makes a difference. -/
def Called (mixer listener : Nat) (exchange : Exchange) : Prop :=
  ∃ notify : Notify,
    (∀ handler other exchange, other ≠ listener → notify handler other exchange = exchange) ∧
    runCycle notify mixer exchange ≠ runCycle idle mixer exchange

section
variable {exchange : Exchange} {notify : Notify}

/-- Whoever is not registered is not called. -/
private theorem feed_uncalled
    (others : ∀ handler other exchange, other ≠ listener → notify handler other exchange = exchange)
    (absent : listener ∉ entries.map Registered.listener) :
    feed notify cycle speeches entries exchange = feed idle cycle speeches entries exchange := by
  induction entries generalizing exchange with
  | nil => rfl
  | cons entry rest ih =>
    obtain ⟨apart, later⟩ := not_or.mp (mt List.mem_cons.mpr absent)
    have handed : exchange.hand notify entry.listener (some cycle) (share speeches entry) =
        exchange.hand idle entry.listener (some cycle) (share speeches entry) := by
      unfold hand
      simp only
      split
      · rfl
      · exact others _ _ _ (Ne.symm apart)
    rw [feed_cons, feed_cons, handed]
    exact ih later

/-- A handler of one listener that leaves a trace whenever it is called. -/
def marking (listener : Nat) : Notify := fun _ place exchange =>
  if place = listener then { exchange with nextId := exchange.nextId + 1 } else exchange

private theorem idle_quiet (before : Exchange) (listener : Nat) : Quiet idle before listener :=
  fun _ _ _ _ => ⟨rfl, rfl, rfl⟩

private theorem marking_quiet (before : Exchange) (listener place : Nat) :
    Quiet (marking listener) before place := by
  intro handler exchange _ _
  unfold marking
  split <;> exact ⟨rfl, rfl, rfl⟩

private theorem hand_mark_le :
    exchange.nextId ≤ (exchange.hand (marking listener) place cycle input).nextId := by
  unfold hand marking
  simp only
  split
  · exact Nat.le_refl _
  · split
    · exact Nat.le_succ _
    · exact Nat.le_refl _

private theorem feed_mark_le : exchange.nextId ≤
    (feed (marking listener) cycle speeches entries exchange).nextId := by
  induction entries generalizing exchange with
  | nil => exact Nat.le_refl _
  | cons entry rest ih => exact Nat.le_trans hand_mark_le ih

/-- A registered listener that has a handler is called. -/
private theorem feed_mark_lt (same : SameHandlers before exchange)
    (handled : (before.listeners[listener]? >>= Listener.handler) = some handler)
    (registers : listener ∈ entries.map Registered.listener) : exchange.nextId <
      (feed (marking listener) cycle speeches entries exchange).nextId := by
  induction entries generalizing exchange with
  | nil => cases registers
  | cons entry rest ih =>
    rw [feed_cons]
    by_cases here : listener = entry.listener
    · refine Nat.lt_of_lt_of_le ?_ feed_mark_le
      rw [here] at handled ⊢
      unfold hand
      simp only
      split
      · rename_i missing
        have clash : none = some handler :=
          missing.symm.trans (((same_after_pending same).2 entry.listener).trans handled)
        cases clash
      · simp only [marking, if_true]
        exact Nat.lt_succ_self _
    · have later := (List.mem_cons.mp registers).resolve_left here
      obtain ⟨-, still, -⟩ := hand_quiet (some cycle) (share speeches entry)
        (marking_quiet before listener entry.listener) same
      exact Nat.lt_of_le_of_lt hand_mark_le (ih still later)

private theorem feed_idle_number :
    (feed idle cycle speeches entries exchange).nextId = exchange.nextId := by
  induction entries generalizing exchange with
  | nil => rfl
  | cons entry rest ih =>
    rw [feed_cons, ih]
    unfold hand
    simp only
    split <;> rfl

end

/-- A cycle of this mixer feeds whom it has registered: it is not stopped, and a source speaks. -/
def Feeds (found : Mixer) (exchange : Exchange) : Prop :=
  found.stopped = false ∧ spoken found.sources exchange.sources ≠ []

section
variable {exchange : Exchange} {mixer listener : Nat} {found : Mixer} {card : Listener}
  (there : exchange.mixers[mixer]? = some found)
  (listening : exchange.listeners[listener]? = some card)
include there

private theorem cycle_spares
    (spared : ¬ (Feeds found exchange ∧ listener ∈ found.listeners.map Registered.listener)) :
    (runCycle idle mixer exchange).2.listeners[listener]? = exchange.listeners[listener]? ∧
      ¬ Called mixer listener exchange := by
  obtain ⟨untouched, -⟩ := draw_all_aside found.sources exchange
  cases running : found.stopped with
  | true =>
    have nothing (notify : Notify) : runCycle notify mixer exchange = (.idle, exchange) := by
      simp [runCycle, there, running]
    refine ⟨by rw [nothing], ?_⟩
    rintro ⟨notify, -, differs⟩
    exact differs (by rw [nothing, nothing])
  | false =>
    by_cases silent : spoken found.sources exchange.sources = []
    · have nothing (notify : Notify) : runCycle notify mixer exchange =
          (.idle, (opened mixer found exchange).finish mixer exchange.cycles .idle) :=
        run_cycle_silent there running silent
      refine ⟨?_, ?_⟩
      · rw [nothing]
        exact congrArg (·[listener]?) untouched
      · rintro ⟨notify, -, differs⟩
        exact differs (by rw [nothing, nothing])
    · have absent : listener ∉ found.listeners.map Registered.listener :=
        fun registers => spared ⟨⟨running, silent⟩, registers⟩
      refine ⟨?_, ?_⟩
      · rw [run_cycle_heard there running rfl silent]
        refine (feed_elsewhere (fun entry _ => idle_quiet exchange entry.listener)
          (opened_same_handlers mixer found exchange) absent).trans ?_
        exact congrArg (·[listener]?) untouched
      · rintro ⟨notify, others, differs⟩
        apply differs
        rw [run_cycle_heard there running rfl silent, run_cycle_heard there running rfl silent,
          feed_uncalled others absent]

include listening

private theorem cycle_feeds (once : (found.listeners.map Registered.listener).Nodup)
    (feeds : Feeds found exchange)
    (registers : listener ∈ found.listeners.map Registered.listener) :
    (∃ input, (runCycle idle mixer exchange).2.listeners[listener]? =
        some { card with pending := some input }) ∧
      (card.handler ≠ none → Called mixer listener exchange) := by
  obtain ⟨running, somebody⟩ := feeds
  obtain ⟨untouched, -⟩ := draw_all_aside found.sources exchange
  constructor
  · obtain ⟨entry, member, rfl⟩ := List.mem_map.mp registers
    refine ⟨share (spoken found.sources exchange.sources) entry, ?_⟩
    rw [run_cycle_heard there running rfl somebody]
    refine (feed_delivers (fun entry _ => idle_quiet exchange entry.listener)
      (opened_same_handlers mixer found exchange) once member).trans ?_
    have still : (drawAll found.sources exchange).2.listeners[entry.listener]? = some card := by
      rw [untouched, listening]
    exact congrArg (Option.map _) still
  · intro handles
    obtain ⟨handler, installed⟩ := Option.ne_none_iff_exists'.mp handles
    refine ⟨marking listener, fun _ other _ apart => if_neg apart, fun same => ?_⟩
    rw [run_cycle_heard there running rfl somebody, run_cycle_heard there running rfl somebody]
      at same
    have handled : (exchange.listeners[listener]? >>= Listener.handler) = some handler := by
      rw [listening]
      exact installed
    have number : (feed (marking listener) exchange.cycles
        (spoken found.sources exchange.sources) found.listeners
        ((opened mixer found exchange).holding
          ⟨[mixer], found.listeners.map Registered.listener⟩)).nextId = _ :=
      (congrArg (fun result : CycleReport × Exchange => result.2.nextId) same).trans
        feed_idle_number
    exact Nat.ne_of_gt (feed_mark_lt (opened_same_handlers mixer found exchange) handled
      registers) number

end

/-! ## Listeners without the mark -/

/-- In the course of a run in which no mixer is let go, a cycle whose handlers do nothing feeds a
listener that does not count as started exactly when the cycle feeds anyone and the listener came to
its mixer, did not leave it, and left another one since. Any other such listener it leaves as it is,
and does not call. -/
theorem unstarted_fed_iff (course : Course Exchange.empty deeds exchange)
    (live : ∀ (place : Nat) other, exchange.mixers[place]? = some other → other.held = true)
    (there : exchange.mixers[mixer]? = some found)
    (listening : exchange.listeners[listener]? = some card) (unstarted : card.started = false) :
    (Feeds found exchange ∧ LeftElsewhere (events deeds) mixer listener →
      (∃ input, (runCycle idle mixer exchange).2.listeners[listener]? =
          some { card with pending := some input }) ∧
        (card.handler ≠ none → Called mixer listener exchange)) ∧
    (¬ (Feeds found exchange ∧ LeftElsewhere (events deeds) mixer listener) →
      (runCycle idle mixer exchange).2.listeners[listener]? = some card ∧
        ¬ Called mixer listener exchange) := by
  have held (place : Nat) : gone exchange place = false := by
    unfold gone ofMixer
    cases other : exchange.mixers[place]? with
    | none => rfl
    | some found => simp [live place found other]
  have mark : startedAt exchange listener = false := by
    simp [startedAt, ofListener, listening, unstarted]
  have registers := unstarted_registered_iff course held mark mixer
  have listed : registeredWith exchange mixer = found.listeners := by
    simp [registeredWith, ofMixer, there]
  rw [listed] at registers
  rw [← registers]
  have once := ((moves_orderly (course_moves course)).registry mixer found there).once
  refine ⟨fun fed => cycle_feeds there listening once fed.1 fed.2, fun spared => ?_⟩
  rw [← listening]
  exact cycle_spares there spared

/-- A listener of the first of two mixers, with a handler that counts. Having started, it is
registered with the second mixer too and unregistered from it again; then a sample waits at the
first. -/
def straying : List Step := [.addMixer .pcm16, .addMixer .pcm16, .addQueue 1 8, .attach 0 0,
  .addListener 0 [], .countOnInput 0, .start 0, .register 1 0, .unregister 1 0, .offer 0 [1]]

def strayed : Exchange := (Exchange.empty.run straying).2

private theorem strayed_course : ∃ deeds, Course Exchange.empty deeds strayed := by
  have all : AllOf (fun _ => True) straying := by simp [straying, AllOf, All]
  obtain ⟨-, deeds, course, -⟩ := run_led straying Exchange.empty all nofun
  exact ⟨deeds, course⟩

private theorem strayed_live (place : Nat) (other : Mixer)
    (there : strayed.mixers[place]? = some other) : other.held = true := by
  have all : strayed.mixers.all (·.held) = true := by decide +kernel
  exact Array.all_eq_true_iff_forall_mem.mp all other (Array.mem_of_getElem? there)

private theorem strayed_fed : ∃ card, strayed.listeners[0]? = some card ∧ card.started = false ∧
    card.handler ≠ none ∧ card.pending = none ∧
    ((runCycle idle 0 strayed).2.listeners[0]?).map Listener.pending =
      some (some ⟨[[1]], 1⟩) := by
  have facts : (strayed.listeners[0]?).map (fun card =>
      (card.started, card.handler, card.pending)) = some (false, some 0, none) := by decide +kernel
  obtain ⟨card, listening, same⟩ := Option.map_eq_some_iff.mp facts
  simp only [Prod.mk.injEq] at same
  obtain ⟨unstarted, handles, waits⟩ := same
  exact ⟨card, listening, unstarted, by simp [handles], waits, by decide +kernel⟩

/-- The first mixer goes on calling the listener, although it does not count as started. -/
theorem strayed_listener_called : ∃ deeds, Course Exchange.empty deeds strayed ∧
    LeftElsewhere (events deeds) 0 0 ∧ Called 0 0 strayed := by
  obtain ⟨deeds, course⟩ := strayed_course
  obtain ⟨card, listening, unstarted, handles, waits, fed⟩ := strayed_fed
  have mixers : (strayed.mixers[0]?).isSome = true := by decide +kernel
  obtain ⟨found, there⟩ := Option.isSome_iff_exists.mp mixers
  obtain ⟨feeds, spares⟩ := unstarted_fed_iff course strayed_live there listening unstarted
  have due : Feeds found strayed ∧ LeftElsewhere (events deeds) 0 0 := by
    by_contra spared
    rw [(spares spared).1, Option.map_some, waits] at fed
    cases fed
  exact ⟨deeds, course, due.2, (feeds due).2 handles⟩

/-- So a listener that does not count as started may be fed. -/
theorem unstarted_listener_not_spared :
    ¬ ∀ (deeds : List Deed) (exchange : Exchange) (mixer listener : Nat) (card : Listener),
      Course Exchange.empty deeds exchange →
      (∀ (place : Nat) other, exchange.mixers[place]? = some other → other.held = true) →
      exchange.listeners[listener]? = some card → card.started = false →
      ((runCycle idle mixer exchange).2.listeners[listener]?).map Listener.pending =
          some card.pending ∧
        ¬ Called mixer listener exchange := by
  intro spared
  obtain ⟨deeds, course⟩ := strayed_course
  obtain ⟨card, listening, unstarted, -, waits, fed⟩ := strayed_fed
  have left := (spared deeds strayed 0 0 card course strayed_live listening unstarted).1
  rw [fed, waits] at left
  cases left

end Conference.UnstartedListeners
