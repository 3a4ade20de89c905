import Mathlib.Logic.Function.Basic
import Conference.Proofs.ExchangeCourse
import Conference.Proofs.ExchangeInvariants

/-! What becomes of registries in the course of a run. Few steps change one, and each change has a
name; everything else, cycles included, leaves all registries as they are. -/
namespace Conference.RegistryEvents
open Exchange ExchangeMoves ExchangeCourse ExchangeInvariants

/-- A change of what a mixer has registered. -/
inductive RegistryEvent where
  | attached (mixer : Nat) (identity : SourceId)
  | detached (mixer : Nat) (identity : SourceId)
  | joined (mixer listener : Nat)
  | left (mixer listener : Nat)
  /-- A listener has new exclusions, and a mixer was told of them. -/
  | excluded (mixer listener : Nat)
  deriving DecidableEq

/-- The identity a source has in an exchange. -/
def identity? (exchange : Exchange) (source : Nat) : Option SourceId :=
  (exchange.sources[source]?).map Source.id

section Views
variable {α : Type}

/-- What is to be seen of the mixer at a place, or a default where there is none. -/
def ofMixer (default : α) (view : Mixer → α) (exchange : Exchange) (mixer : Nat) : α :=
  (exchange.mixers[mixer]?).elim default view

/-- What is to be seen of the listener at a place, or a default where there is none. -/
def ofListener (default : α) (view : Listener → α) (exchange : Exchange) (listener : Nat) : α :=
  (exchange.listeners[listener]?).elim default view

end Views

/-- The identities of the sources attached to a mixer. -/
def attachedTo : Exchange → Nat → List SourceId := ofMixer [] (·.sources.map Attached.id)

def registeredWith : Exchange → Nat → List Registered := ofMixer [] Mixer.listeners

/-- Whether a mixer was let go. -/
def gone : Exchange → Nat → Bool := ofMixer false (!·.held)

def startedAt : Exchange → Nat → Bool := ofListener false Listener.started

/-- The mixer that created a listener. -/
def homeOf? : Exchange → Nat → Option Nat := ofListener none (some ·.mixer)

def excludedBy? : Exchange → Nat → Option (List SourceId) := ofListener none (some ·.excluded)

/-- The change that a step made, if it made one. -/
def event? (deed : Deed) : Option RegistryEvent :=
  match deed.step, deed.outcome with
  | .attach mixer source, .answer true => (identity? deed.before source).map (.attached mixer)
  | .detach mixer source, .answer true => (identity? deed.before source).map (.detached mixer)
  | .start listener, .answer true => (homeOf? deed.before listener).map (.joined · listener)
  | .stop listener, .answer true => (homeOf? deed.before listener).map (.left · listener)
  | .register mixer listener, .answer true => some (.joined mixer listener)
  | .unregister mixer listener, .answer true => some (.left mixer listener)
  | .exclude mixer listener _, .done => some (.excluded mixer listener)
  | _, _ => none

/-- The changes of registries in a course. -/
def events (deeds : List Deed) : List RegistryEvent := deeds.filterMap event?

theorem events_snoc (deeds : List Deed) (deed : Deed) :
    events (deeds ++ [deed]) = events deeds ++ (event? deed).toList := by
  cases made : event? deed <;> simp [events, made]

/-! ## What a step does to registries -/

/-- What no step undoes. -/
structure Lasting (before after : Exchange) : Prop where
  home : ∀ {listener mixer}, homeOf? before listener = some mixer →
    homeOf? after listener = some mixer
  gone : ∀ {mixer}, gone before mixer = true → gone after mixer = true

/-- All listeners are registered, started and barred from sources as before. -/
structure SameListeners (before after : Exchange) : Prop extends Lasting before after where
  registered : registeredWith after = registeredWith before
  started : startedAt after = startedAt before
  excluded : ∀ {listener ids}, excludedBy? before listener = some ids →
    excludedBy? after listener = some ids

structure Unmoved (before after : Exchange) : Prop extends SameListeners before after where
  sources : attachedTo after = attachedTo before

/-- All but what registries and listeners know of each other is as before. -/
structure Settled (before after : Exchange) : Prop where
  sources : attachedTo after = attachedTo before
  home : homeOf? after = homeOf? before
  gone : gone after = gone before

/-- What a change of registries brings about, and under which conditions it is one. -/
inductive Moved (before after : Exchange) : Option RegistryEvent → Prop where
  | still (unmoved : Unmoved before after) : Moved before after none
  | attached (fresh : identity ∉ attachedTo before mixer)
      (sources : attachedTo after =
        Function.update (attachedTo before) mixer (attachedTo before mixer ++ [identity]))
      (same : SameListeners before after) : Moved before after (some (.attached mixer identity))
  | detached (known : identity ∈ attachedTo before mixer)
      (sources : attachedTo after =
        Function.update (attachedTo before) mixer
          ((attachedTo before mixer).filter (· != identity)))
      (same : SameListeners before after) : Moved before after (some (.detached mixer identity))
  | joined (fresh : listener ∉ (registeredWith before mixer).map Registered.listener)
      (own : excludedBy? before listener = some ids)
      (registered : registeredWith after =
        Function.update (registeredWith before) mixer
          (registeredWith before mixer ++ [⟨listener, ids⟩]))
      (started : startedAt after = Function.update (startedAt before) listener true)
      (excluded : excludedBy? after = excludedBy? before) (settled : Settled before after) :
      Moved before after (some (.joined mixer listener))
  | left (known : listener ∈ (registeredWith before mixer).map Registered.listener)
      (registered : registeredWith after =
        Function.update (registeredWith before) mixer
          ((registeredWith before mixer).filter (·.listener != listener)))
      (started : startedAt after = Function.update (startedAt before) listener false)
      (excluded : excludedBy? after = excludedBy? before) (settled : Settled before after) :
      Moved before after (some (.left mixer listener))
  /-- A listener whose mixer is gone only ceases to count as started. -/
  | orphaned (home : homeOf? before listener = some mixer) (away : gone before mixer = true)
      (registered : registeredWith after = registeredWith before)
      (started : startedAt after = Function.update (startedAt before) listener false)
      (excluded : excludedBy? after = excludedBy? before) (settled : Settled before after) :
      Moved before after none
  | excluded (registered : registeredWith after =
        Function.update (registeredWith before) mixer
          ((registeredWith before mixer).map fun entry =>
            if entry.listener == listener then { entry with excluded := ids } else entry))
      (started : startedAt after = startedAt before)
      (excluded : excludedBy? after = Function.update (excludedBy? before) listener (some ids))
      (settled : Settled before after) : Moved before after (some (.excluded mixer listener))

section Names
variable {before after : Exchange}

/-- Whoever joins is registered there, and nobody else comes or goes. -/
theorem joined_names (registered : registeredWith after =
      Function.update (registeredWith before) mixer
        (registeredWith before mixer ++ [⟨listener, ids⟩])) (place other : Nat) :
    other ∈ (registeredWith after place).map Registered.listener ↔
      other ∈ (registeredWith before place).map Registered.listener ∨
        place = mixer ∧ other = listener := by
  rw [registered, Function.update_apply]
  by_cases here : place = mixer
  · simp [here]
  · simp [here]

/-- Whoever leaves is not registered there, and nobody else comes or goes. -/
theorem left_names (registered : registeredWith after =
      Function.update (registeredWith before) mixer
        ((registeredWith before mixer).filter (·.listener != listener))) (place other : Nat) :
    other ∈ (registeredWith after place).map Registered.listener ↔
      other ∈ (registeredWith before place).map Registered.listener ∧
        ¬ (place = mixer ∧ other = listener) := by
  rw [registered, Function.update_apply]
  by_cases here : place = mixer
  · simp only [here, if_true, true_and, List.mem_map, List.mem_filter, bne_iff_ne]
    constructor
    · rintro ⟨entry, ⟨listed, apart⟩, rfl⟩
      exact ⟨⟨entry, listed, rfl⟩, apart⟩
    · rintro ⟨⟨entry, listed, rfl⟩, apart⟩
      exact ⟨entry, ⟨listed, apart⟩, rfl⟩
  · simp [here]

/-- New exclusions leave everyone where they are. -/
theorem excluded_names (registered : registeredWith after =
      Function.update (registeredWith before) mixer
        ((registeredWith before mixer).map fun entry =>
          if entry.listener == listener then { entry with excluded := ids } else entry))
    (place : Nat) : (registeredWith after place).map Registered.listener =
      (registeredWith before place).map Registered.listener := by
  rw [registered, Function.update_apply]
  split
  · rename_i here
    rw [here, List.map_map]
    refine List.map_congr_left fun entry _ => ?_
    simp only [Function.comp_apply]
    split <;> rfl
  · rfl

end Names

/-! ## Views of mixers and listeners -/

section
variable {α : Type} {initial : α} {view : Mixer → α} {look : Listener → α}

theorem of_mixer_update (change : Mixer → Mixer) :
    ofMixer initial view (exchange.updateMixer place change) =
      Function.update (ofMixer initial view exchange) place
        (ofMixer initial (view ∘ change) exchange place) := by
  funext other
  simp only [ofMixer, updateMixer, Array.getElem?_modify, Function.update_apply]
  split
  · rename_i same
    subst same
    rw [if_pos rfl, Option.elim_map]
  · rename_i apart
    rw [if_neg (Ne.symm apart)]

theorem of_mixer_same {change : Mixer → Mixer} (same : ∀ mixer, view (change mixer) = view mixer) :
    ofMixer initial view (exchange.updateMixer place change) = ofMixer initial view exchange := by
  rw [of_mixer_update, show view ∘ change = view from funext same]
  exact Function.update_eq_self place _

theorem of_mixer_push (fresh : view mixer = initial) :
    ofMixer initial view { exchange with mixers := exchange.mixers.push mixer } =
      ofMixer initial view exchange := by
  funext other
  simp only [ofMixer, Array.getElem?_push]
  split
  · rename_i last
    subst last
    rw [Array.getElem?_eq_none (Nat.le_refl _)]
    exact fresh
  · rfl

theorem of_listener_update (change : Listener → Listener) :
    ofListener initial look (exchange.updateListener place change) =
      Function.update (ofListener initial look exchange) place
        (ofListener initial (look ∘ change) exchange place) := by
  funext other
  simp only [ofListener, updateListener, Array.getElem?_modify, Function.update_apply]
  split
  · rename_i same
    subst same
    rw [if_pos rfl, Option.elim_map]
  · rename_i apart
    rw [if_neg (Ne.symm apart)]

theorem of_listener_same {change : Listener → Listener}
    (same : ∀ listener, look (change listener) = look listener) :
    ofListener initial look (exchange.updateListener place change) =
      ofListener initial look exchange := by
  rw [of_listener_update, show look ∘ change = look from funext same]
  exact Function.update_eq_self place _

theorem of_listener_default (plain : ∀ listener, look listener = initial) :
    ofListener initial look exchange place = initial := by
  unfold ofListener
  cases exchange.listeners[place]? with
  | none => rfl
  | some listener => exact plain listener

/-- What an added listener shows is new, and nothing else changes. -/
theorem of_listener_push (exchange : Exchange) (other : Nat) {added : Listener} :
    ofListener initial look { exchange with listeners := exchange.listeners.push added } other =
      if other = exchange.listeners.size then look added
      else ofListener initial look exchange other := by
  simp only [ofListener, Array.getElem?_push]
  split <;> rfl

end

/-! ## What leaves registries alone -/

section
variable {before middle after exchange : Exchange}

theorem lasting_trans (first : Lasting before middle) (second : Lasting middle after) :
    Lasting before after where
  home known := second.home (first.home known)
  gone away := second.gone (first.gone away)

theorem unmoved_refl : Unmoved exchange exchange :=
  ⟨⟨⟨id, id⟩, rfl, rfl, id⟩, rfl⟩

theorem unmoved_trans (first : Unmoved before middle) (second : Unmoved middle after) :
    Unmoved before after where
  toLasting := lasting_trans first.toLasting second.toLasting
  registered := second.registered.trans first.registered
  started := second.started.trans first.started
  excluded known := second.excluded (first.excluded known)
  sources := second.sources.trans first.sources

/-- Registries and listeners are all that counts. -/
theorem unmoved_of_parts (mixers : after.mixers = before.mixers)
    (listeners : after.listeners = before.listeners) : Unmoved before after := by
  have mixer {α} (initial : α) (view) :
      ofMixer initial view after = ofMixer initial view before := by
    funext place
    simp only [ofMixer, mixers]
  have listener {α} (initial : α) (look) :
      ofListener initial look after = ofListener initial look before := by
    funext place
    simp only [ofListener, listeners]
  exact
    { home := fun known => (congrFun (listener _ _) _).trans known
      gone := fun away => (congrFun (mixer _ _) _).trans away
      registered := mixer _ _
      started := listener _ _
      excluded := fun known => (congrFun (listener _ _) _).trans known
      sources := mixer _ _ }

/-- A mixer that was let go is not taken back. -/
theorem lasting_mixer (change : Mixer → Mixer)
    (held : ∀ mixer, mixer.held = false → (change mixer).held = false) :
    Lasting exchange (exchange.updateMixer place change) where
  home := id
  gone {mixer} away := by
    simp only [gone, ofMixer, updateMixer, Array.getElem?_modify] at away ⊢
    split
    · rename_i same
      subst same
      cases there : exchange.mixers[place]? with
      | none =>
        rw [there] at away
        exact away
      | some found =>
        rw [there] at away
        simp only [Option.elim_some, Bool.not_eq_true'] at away
        simp [held found away]
    · exact away

/-- A listener stays with its mixer. -/
theorem lasting_listener (change : Listener → Listener)
    (mixer : ∀ listener, (change listener).mixer = listener.mixer) :
    Lasting exchange (exchange.updateListener place change) where
  home known := by
    have homes : homeOf? (exchange.updateListener place change) = homeOf? exchange :=
      of_listener_same fun listener => congrArg some (mixer listener)
    rwa [homes]
  gone := id

/-- A mixer may change in all but the listeners it registers. -/
theorem same_listeners_mixer (change : Mixer → Mixer)
    (listeners : ∀ mixer, (change mixer).listeners = mixer.listeners)
    (held : ∀ mixer, mixer.held = false → (change mixer).held = false) :
    SameListeners exchange (exchange.updateMixer place change) where
  toLasting := lasting_mixer change held
  registered := of_mixer_same listeners
  started := rfl
  excluded := id

/-- A mixer may change in all but its registry. -/
theorem unmoved_mixer (change : Mixer → Mixer)
    (sources : ∀ mixer, (change mixer).sources = mixer.sources)
    (listeners : ∀ mixer, (change mixer).listeners = mixer.listeners)
    (held : ∀ mixer, mixer.held = false → (change mixer).held = false) :
    Unmoved exchange (exchange.updateMixer place change) where
  toSameListeners := same_listeners_mixer change listeners held
  sources := of_mixer_same fun mixer => congrArg (List.map Attached.id) (sources mixer)

/-- A listener may change in all that registries do not depend on. -/
theorem unmoved_listener (change : Listener → Listener)
    (mixer : ∀ listener, (change listener).mixer = listener.mixer)
    (excluded : ∀ listener, (change listener).excluded = listener.excluded)
    (started : ∀ listener, (change listener).started = listener.started) :
    Unmoved exchange (exchange.updateListener place change) where
  toLasting := lasting_listener change mixer
  registered := rfl
  started := of_listener_same started
  excluded known := by
    have exclusions : excludedBy? (exchange.updateListener place change) = excludedBy? exchange :=
      of_listener_same fun listener => congrArg some (excluded listener)
    rwa [exclusions]
  sources := rfl

private theorem found_unmoved (acts : ∀ found, Unmoved exchange (act found).2) :
    Unmoved exchange (exchange.onFound found? act).2 := by
  unfold onFound
  split
  · exact unmoved_refl
  · exact acts _

/-- A new mixer has nothing registered. -/
theorem add_mixer_unmoved (made : Mixer.ofFormat format = .ok mixer) :
    Unmoved exchange { exchange with mixers := exchange.mixers.push mixer } := by
  unfold Mixer.ofFormat at made
  split at made
  · cases made
  · cases made
    have same {α} {initial : α} (view : Mixer → α)
        (fresh : view ⟨format, [], [], false, Statistics.empty, true⟩ = initial) :
        ofMixer initial view { exchange with
          mixers := exchange.mixers.push ⟨format, [], [], false, Statistics.empty, true⟩ } =
          ofMixer initial view exchange := of_mixer_push fresh
    exact
      { home := id
        gone := fun away => (congrFun (same (!·.held) rfl) _).trans away
        registered := same _ rfl
        started := rfl
        excluded := id
        sources := same _ rfl }

/-- A new listener is not started and no registry names it. -/
theorem add_listener_unmoved {added : Listener} (idle : added.started = false) :
    Unmoved exchange { exchange with listeners := exchange.listeners.push added } where
  home {listener mixer} known := by
    rw [homeOf?, of_listener_push]
    split
    · rename_i new
      subst new
      simp [homeOf?, ofListener] at known
    · exact known
  gone := id
  registered := rfl
  started := by
    funext listener
    rw [startedAt, of_listener_push]
    split
    · rename_i new
      subst new
      simp [idle, ofListener]
    · rfl
  excluded {listener ids} known := by
    rw [excludedBy?, of_listener_push]
    split
    · rename_i new
      subst new
      simp [excludedBy?, ofListener] at known
    · exact known
  sources := rfl

private theorem set_handler_unmoved (place : Nat) (handler : Handler) :
    Unmoved exchange (exchange.setHandler place handler) := by
  have pushed : Unmoved exchange { exchange with handlers := exchange.handlers.push handler } :=
    unmoved_of_parts rfl rfl
  exact unmoved_trans pushed (unmoved_listener _ (fun _ => rfl) (fun _ => rfl) fun _ => rfl)

theorem offer_unmoved : Unmoved exchange (exchange.offer source samples).2 := by
  unfold Exchange.offer
  split
  · exact unmoved_refl
  · exact unmoved_of_parts rfl rfl

theorem draw_unmoved : Unmoved exchange (exchange.draw source).2 := by
  unfold Exchange.draw
  split
  · exact unmoved_refl
  · exact unmoved_of_parts rfl rfl

theorem record_read_unmoved : Unmoved exchange (exchange.recordRead listener heard) := by
  unfold recordRead
  split
  · exact unmoved_refl
  · cases heard with
    | failed => exact unmoved_refl
    | _ => exact unmoved_mixer _ (fun _ => rfl) (fun _ => rfl) fun _ away => away

theorem read_unmoved : Unmoved exchange (exchange.read place).2 := by
  unfold Exchange.read
  split
  · exact unmoved_refl
  · have taken : Unmoved exchange (exchange.updateListener place fun found =>
        { found with pending := none }) :=
      unmoved_listener _ (fun _ => rfl) (fun _ => rfl) fun _ => rfl
    simp only
    split
    · exact unmoved_trans taken (unmoved_of_parts rfl rfl)
    · exact unmoved_trans taken
        (unmoved_trans record_read_unmoved (unmoved_of_parts rfl rfl))

/-- Cycles and handlers leave registries alone as long as they perform no steps. -/
theorem interlude_unmoved (interlude : Interlude before after) : Unmoved before after := by
  cases interlude with
  | offer => exact offer_unmoved
  | draw => exact draw_unmoved
  | read => exact read_unmoved
  | @hand _ place input =>
    have handed : Unmoved before (before.updateListener place fun found =>
        { found with pending := some input }) :=
      unmoved_listener _ (fun _ => rfl) (fun _ => rfl) fun _ => rfl
    exact unmoved_trans handed (unmoved_of_parts rfl rfl)
  | @finish _ mixer _ report =>
    have recorded : Unmoved before (before.updateMixer mixer fun found =>
        { found with stats := found.stats.recordCycle before.now report.record }) :=
      unmoved_mixer _ (fun _ => rfl) (fun _ => rfl) fun _ away => away
    exact unmoved_trans recorded (unmoved_of_parts rfl rfl)
  | _ => exact unmoved_of_parts rfl rfl

end

/-! ## What single steps do -/

section
variable {before : Exchange}

/-- The effect of a step on registries is the one its event names. -/
def Faithful (before : Exchange) (step : Step) : Prop :=
  Moved before (Deed.after ⟨before, step⟩) (event? ⟨before, step⟩)

/-- Changing a mixer into itself changes nothing. -/
theorem update_mixer_self {change : Mixer → Mixer} (there : before.mixers[place]? = some found)
    (same : change found = found) : before.updateMixer place change = before := by
  have mixers : before.mixers.modify place change = before.mixers := by
    refine Array.ext_getElem? fun other => ?_
    rw [Array.getElem?_modify]
    split
    · rename_i here
      rw [← here, there, Option.map_some, same]
    · rfl
  unfold updateMixer
  rw [mixers]

theorem attaches_iff (there : before.mixers[mixer]? = some found) (identity : SourceId) :
    found.attaches identity = true ↔ identity ∈ attachedTo before mixer := by
  simp only [attachedTo, ofMixer, there, Option.elim_some, Mixer.attaches, List.any_eq_true,
    List.mem_map, beq_iff_eq]

theorem registers_iff (there : before.mixers[mixer]? = some found) (listener : Nat) :
    found.registers listener = true ↔
      listener ∈ (registeredWith before mixer).map Registered.listener := by
  simp only [registeredWith, ofMixer, there, Option.elim_some, Mixer.registers, List.any_eq_true,
    List.mem_map, beq_iff_eq]

private theorem attach_faithful (mixer source : Nat) : Faithful before (.attach mixer source) := by
  unfold Faithful Deed.after event? Deed.outcome
  simp only [perform, onMixer, onSource, onFound]
  cases held : before.heldMixer? mixer with
  | none => exact .still unmoved_refl
  | some found =>
    have there := (Option.filter_eq_some_iff.mp held).1
    cases known : before.sources[source]? with
    | none => exact .still unmoved_refl
    | some attached =>
      have member := attaches_iff there attached.id
      simp only
      cases attaches : found.attaches attached.id with
      | true =>
        have same : found.attach ⟨source, attached.id⟩ = found := if_pos attaches
        simp only [Bool.not_true]
        rw [update_mixer_self there same]
        exact .still unmoved_refl
      | false =>
        rw [attaches] at member
        simp only [Bool.not_false, identity?, known, Option.map_some]
        refine .attached (by simpa using member) ?_ (same_listeners_mixer _ ?_ ?_)
        · rw [attachedTo, of_mixer_update]
          simp [ofMixer, there, Mixer.attach, attaches]
        · intro mixer
          unfold Mixer.attach
          split <;> rfl
        · intro mixer away
          unfold Mixer.attach
          split <;> exact away

private theorem detach_faithful (mixer source : Nat) : Faithful before (.detach mixer source) := by
  unfold Faithful Deed.after event? Deed.outcome
  simp only [perform, onMixer, onSource, onFound]
  cases held : before.heldMixer? mixer with
  | none => exact .still unmoved_refl
  | some found =>
    have there := (Option.filter_eq_some_iff.mp held).1
    cases known : before.sources[source]? with
    | none => exact .still unmoved_refl
    | some attached =>
      have member := attaches_iff there attached.id
      simp only
      cases attaches : found.attaches attached.id with
      | false =>
        have same : found.detach attached.id = found := by
          have all : found.sources.filter (·.id != attached.id) = found.sources := by
            simpa [Mixer.attaches, List.filter_eq_self] using attaches
          rw [Mixer.detach, all]
        simp only
        rw [update_mixer_self there same]
        exact .still unmoved_refl
      | true =>
        rw [attaches] at member
        simp only [identity?, known, Option.map_some]
        refine .detached (member.mp rfl) ?_
          (same_listeners_mixer _ (fun _ => rfl) fun _ away => away)
        rw [attachedTo, of_mixer_update]
        simp [ofMixer, there, Mixer.detach, List.filter_map, Function.comp_def]

/-- Registering a listener does nothing, or the listener joins the mixer. -/
theorem register_outcome (mixer listener : Nat) (before : Exchange) :
    before.register mixer listener = (false, before) ∨
      ∃ after, before.register mixer listener = (true, after) ∧
        Moved before after (some (.joined mixer listener)) := by
  unfold Exchange.register
  split
  · rename_i found card there listening
    cases fresh : found.registers listener with
    | true => exact .inl rfl
    | false =>
      have member := registers_iff there listener
      rw [fresh] at member
      have own : excludedBy? before listener = some card.excluded := by
        simp [excludedBy?, ofListener, listening]
      have formed (entry : Registered) (mixer : Mixer) :
          (mixer.register entry).sources = mixer.sources ∧
            (mixer.register entry).held = mixer.held := by
        unfold Mixer.register
        split <;> exact ⟨rfl, rfl⟩
      refine .inr ⟨_, rfl, .joined (by simpa using member) own ?_ ?_ ?_ ⟨?_, ?_, ?_⟩⟩
      · refine (of_mixer_update _).trans (congrArg _ ?_)
        simp [registeredWith, ofMixer, there, Mixer.register, fresh]
      · refine (of_listener_update _).trans (congrArg _ ?_)
        simp [ofListener, listening, updateMixer]
      · exact of_listener_same fun _ => rfl
      · exact of_mixer_same fun mixer => congrArg (List.map Attached.id) (formed _ mixer).1
      · exact of_listener_same fun _ => rfl
      · exact of_mixer_same fun mixer => congrArg not (formed _ mixer).2
  · exact .inl rfl

/-- Unregistering a listener does nothing, or the listener leaves the mixer. -/
theorem unregister_outcome (mixer listener : Nat) (before : Exchange) :
    before.unregister mixer listener = (false, before) ∨
      ∃ after, before.unregister mixer listener = (true, after) ∧
        Moved before after (some (.left mixer listener)) := by
  unfold Exchange.unregister
  split
  · exact .inl rfl
  · rename_i found there
    cases known : found.registers listener with
    | false => exact .inl rfl
    | true =>
      have member := registers_iff there listener
      refine .inr ⟨_, rfl, .left (member.mp known) ?_ ?_ ?_ ⟨?_, ?_, ?_⟩⟩
      · refine (of_mixer_update _).trans (congrArg _ ?_)
        simp [registeredWith, ofMixer, there, Mixer.unregister]
      · exact (of_listener_update _).trans (congrArg _ (of_listener_default fun _ => rfl))
      · exact of_listener_same fun _ => rfl
      · exact of_mixer_same fun _ => rfl
      · exact of_listener_same fun _ => rfl
      · exact of_mixer_same fun _ => rfl

private theorem register_faithful (mixer listener : Nat) :
    Faithful before (.register mixer listener) := by
  unfold Faithful Deed.after event? Deed.outcome
  simp only [perform, onMixer, onListener, onFound]
  cases before.heldMixer? mixer with
  | none => exact .still unmoved_refl
  | some _ =>
    cases before.heldListener? listener with
    | none => exact .still unmoved_refl
    | some _ =>
      rcases register_outcome mixer listener before with same | ⟨after, same, moved⟩
      · simp only [same]
        exact .still unmoved_refl
      · simp only [same]
        exact moved

private theorem unregister_faithful (mixer listener : Nat) :
    Faithful before (.unregister mixer listener) := by
  unfold Faithful Deed.after event? Deed.outcome
  simp only [perform, onMixer, onListener, onFound]
  cases before.heldMixer? mixer with
  | none => exact .still unmoved_refl
  | some _ =>
    cases before.heldListener? listener with
    | none => exact .still unmoved_refl
    | some _ =>
      rcases unregister_outcome mixer listener before with same | ⟨after, same, moved⟩
      · simp only [same]
        exact .still unmoved_refl
      · simp only [same]
        exact moved

private theorem start_faithful (listener : Nat) : Faithful before (.start listener) := by
  unfold Faithful Deed.after event? Deed.outcome
  simp only [perform, onListener, onFound]
  cases heard : before.heldListener? listener with
  | none => exact .still unmoved_refl
  | some card =>
    have listening := (Option.filter_eq_some_iff.mp heard).1
    have home : homeOf? before listener = some card.mixer := by
      simp [homeOf?, ofListener, listening]
    simp only [Exchange.start, listening]
    cases before.liveMixer? card.mixer with
    | none => exact .still unmoved_refl
    | some _ =>
      rcases register_outcome card.mixer listener before with same | ⟨after, same, moved⟩
      · simp only [same]
        exact .still unmoved_refl
      · simp only [same]
        change Moved before after ((homeOf? before listener).map (.joined · listener))
        rw [home]
        exact moved

private theorem stop_faithful (orderly : Orderly before) (listener : Nat) :
    Faithful before (.stop listener) := by
  unfold Faithful Deed.after event? Deed.outcome
  simp only [perform, onListener, onFound]
  cases heard : before.heldListener? listener with
  | none => exact .still unmoved_refl
  | some card =>
    have listening := (Option.filter_eq_some_iff.mp heard).1
    have home : homeOf? before listener = some card.mixer := by
      simp [homeOf?, ofListener, listening]
    simp only [Exchange.stop, listening]
    cases live : before.liveMixer? card.mixer with
    | none =>
      obtain ⟨mixer, there, -⟩ := Option.map_eq_some_iff.mp (orderly.format listener card listening)
      have away : gone before card.mixer = true := by
        simp only [liveMixer?, there, Option.filter_eq_none_iff, Option.some.injEq,
          forall_eq', Bool.or_eq_true, not_or] at live
        simp [gone, ofMixer, there, live.1]
      refine .orphaned home away rfl ?_ (of_listener_same fun _ => rfl)
        ⟨rfl, of_listener_same fun _ => rfl, rfl⟩
      exact (of_listener_update _).trans (congrArg _ (of_listener_default fun _ => rfl))
    | some _ =>
      rcases unregister_outcome card.mixer listener before with same | ⟨after, same, moved⟩
      · simp only [same]
        exact .still unmoved_refl
      · simp only [same]
        change Moved before after ((homeOf? before listener).map (.left · listener))
        rw [home]
        exact moved

private theorem exclude_faithful (mixer listener : Nat) (sources : List Nat) :
    Faithful before (.exclude mixer listener sources) := by
  unfold Faithful Deed.after event? Deed.outcome
  simp only [perform, onMixer, onListener, onIds, onFound]
  cases held : before.heldMixer? mixer with
  | none => exact .still unmoved_refl
  | some found =>
    cases heard : before.heldListener? listener with
    | none => exact .still unmoved_refl
    | some card =>
      cases before.idsOf? sources with
      | none => exact .still unmoved_refl
      | some ids =>
        have there := (Option.filter_eq_some_iff.mp held).1
        have listening := (Option.filter_eq_some_iff.mp heard).1
        have registered : registeredWith (before.exclude mixer listener ids) =
            Function.update (registeredWith before) mixer
              ((registeredWith before mixer).map fun entry =>
                if entry.listener == listener then { entry with excluded := ids } else entry) := by
          refine (of_mixer_update _).trans (congrArg _ ?_)
          simp [registeredWith, ofMixer, there, Mixer.exclude]
        have excluded : excludedBy? (before.exclude mixer listener ids) =
            Function.update (excludedBy? before) listener (some ids) := by
          refine (of_listener_update _).trans (congrArg _ ?_)
          simp [ofListener, listening, updateMixer]
        have settled : Settled before (before.exclude mixer listener ids) :=
          ⟨of_mixer_same fun _ => rfl, of_listener_same fun _ => rfl, of_mixer_same fun _ => rfl⟩
        exact .excluded registered (of_listener_same fun _ => rfl) excluded settled

/-- Every step does to registries what its event says, and nothing else. -/
theorem plain_faithful {step : Step} (orderly : Orderly before) (plain : isPlain step = true) :
    Faithful before step := by
  cases step with
  | push | cycle | hand | rounds => cases plain
  | attach mixer source => exact attach_faithful mixer source
  | detach mixer source => exact detach_faithful mixer source
  | register mixer listener => exact register_faithful mixer listener
  | unregister mixer listener => exact unregister_faithful mixer listener
  | start listener => exact start_faithful listener
  | stop listener => exact stop_faithful orderly listener
  | exclude mixer listener sources => exact exclude_faithful mixer listener sources
  | addMixer format =>
    refine .still ?_
    simp only [Deed.after, perform]
    split
    · exact unmoved_refl
    · rename_i made
      exact add_mixer_unmoved made
  | dropMixer =>
    exact .still (found_unmoved fun _ =>
      unmoved_mixer _ (fun _ => rfl) (fun _ => rfl) fun _ _ => rfl)
  | addQueue => exact .still (unmoved_of_parts rfl rfl)
  | addScript frames sameIdAs =>
    cases sameIdAs with
    | none => exact .still (unmoved_of_parts rfl rfl)
    | some source => exact .still (found_unmoved fun _ => unmoved_of_parts rfl rfl)
  | addListener =>
    exact .still (found_unmoved fun _ => found_unmoved fun _ => add_listener_unmoved rfl)
  | dropListener | clearHandler =>
    exact .still (found_unmoved fun _ =>
      unmoved_listener _ (fun _ => rfl) (fun _ => rfl) fun _ => rfl)
  | offer => exact .still (found_unmoved fun _ => offer_unmoved)
  | offerBytes source bytes format =>
    refine .still (found_unmoved fun _ => ?_)
    split
    · exact unmoved_refl
    · exact offer_unmoved
  | draw => exact .still (found_unmoved fun _ => draw_unmoved)
  | read => exact .still (found_unmoved fun _ => read_unmoved)
  | countOnInput | readOnInput | runOnInput =>
    exact .still (found_unmoved fun _ => set_handler_unmoved _ _)
  | notifyOnInput listener capacity =>
    have set : Unmoved before (before.setHandler listener ⟨.notify before.channels.size, 0, 0⟩) :=
      set_handler_unmoved _ _
    exact .still (found_unmoved fun _ => unmoved_trans set (unmoved_of_parts rfl rfl))
  | receive channel =>
    refine .still (found_unmoved fun found => ?_)
    unfold receive
    split
    · exact unmoved_of_parts rfl rfl
    · exact unmoved_refl
  | dropChannel => exact .still (found_unmoved fun _ => unmoved_of_parts rfl rfl)
  | halt | resetStatistics =>
    exact .still (found_unmoved fun _ =>
      unmoved_mixer _ (fun _ => rfl) (fun _ => rfl) fun _ away => away)
  | describeSource source =>
    refine .still (found_unmoved fun found => ?_)
    split <;> exact unmoved_refl
  | _ => exact .still (found_unmoved fun _ => unmoved_refl)

end

end Conference.RegistryEvents
