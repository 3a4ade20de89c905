import Mathlib.Data.List.Nodup
import Conference.Proofs.ExchangeMoves

/-! What holds in every reachable exchange, also while a cycle runs: a registry names each source
and each listener once, an attached source keeps its identity, a listener keeps the format of the
mixer that created it, and what sources hold fits into memory. -/
namespace Conference.ExchangeInvariants
open Exchange ExchangeMoves

/-- The shape of a registry, whatever is attached to it from outside. -/
structure RegistryOrderly (sources : Array Source) (mixer : Mixer) : Prop where
  /-- An attached source is there, under the identity it was attached with. -/
  known : ∀ entry ∈ mixer.sources, (sources[entry.source]?).map Source.id = some entry.id
  distinct : (mixer.sources.map Attached.id).Nodup
  once : (mixer.listeners.map Registered.listener).Nodup

structure Orderly (exchange : Exchange) : Prop where
  registry : ∀ (place : Nat) mixer, exchange.mixers[place]? = some mixer →
    RegistryOrderly exchange.sources mixer
  /-- A listener has the format of the mixer that created it. -/
  format : ∀ (place : Nat) listener, exchange.listeners[place]? = some listener →
    (exchange.mixers[listener.mixer]?).map Mixer.format = some listener.format
  /-- As long as memory suffices, it holds every source. -/
  fits : exchange.exhausted = false → ∀ (place : Nat) source,
    exchange.sources[place]? = some source → source.feed.fits = true

section
variable {exchange : Exchange}

/-- A mixer may change in all but its format, as long as its registry stays in order. -/
theorem orderly_update_mixer (orderly : Orderly exchange) (change : Mixer → Mixer)
    (format : ∀ mixer, (change mixer).format = mixer.format)
    (registry : ∀ mixer, exchange.mixers[place]? = some mixer →
      RegistryOrderly exchange.sources (change mixer)) :
    Orderly (exchange.updateMixer place change) where
  registry other mixer there := by
    simp only [updateMixer, Array.getElem?_modify] at there
    split at there
    · rename_i same
      obtain ⟨found, held, rfl⟩ := Option.map_eq_some_iff.mp there
      subst same
      exact registry found held
    · exact orderly.registry other mixer there
  format other listener there := by
    have kept := orderly.format other listener there
    simp only [updateMixer, Array.getElem?_modify]
    split
    · rename_i same
      subst same
      rw [Option.map_map]
      exact (congrArg (fun f => (exchange.mixers[listener.mixer]?).map f)
        (funext format : Mixer.format ∘ change = Mixer.format)).trans kept
    · exact kept
  fits := orderly.fits

private theorem orderly_account (orderly : Orderly exchange) (change : Mixer → Mixer)
    (format : ∀ mixer, (change mixer).format = mixer.format)
    (sources : ∀ mixer, (change mixer).sources = mixer.sources)
    (listeners : ∀ mixer, (change mixer).listeners = mixer.listeners) :
    Orderly (exchange.updateMixer place change) := by
  refine orderly_update_mixer orderly change format fun mixer there => ?_
  obtain ⟨known, distinct, once⟩ := orderly.registry _ _ there
  exact ⟨by rwa [sources], by rwa [sources], by rwa [listeners]⟩

/-- A listener may change in all but its mixer and its format. -/
theorem orderly_update_listener (orderly : Orderly exchange) (change : Listener → Listener)
    (mixer : ∀ listener, (change listener).mixer = listener.mixer)
    (format : ∀ listener, (change listener).format = listener.format) :
    Orderly (exchange.updateListener place change) where
  registry := orderly.registry
  format other listener there := by
    simp only [updateListener, Array.getElem?_modify] at there
    split at there
    · obtain ⟨found, held, rfl⟩ := Option.map_eq_some_iff.mp there
      rw [mixer, format]
      exact orderly.format _ found held
    · exact orderly.format other listener there
  fits := orderly.fits

private theorem known_update_source (change : Source → Source)
    (id : ∀ source, (change source).id = source.id) (other : Nat) :
    (((exchange.updateSource place change).sources)[other]?).map Source.id =
      (exchange.sources[other]?).map Source.id := by
  simp only [updateSource, Array.getElem?_modify]
  split
  · rw [Option.map_map]
    exact congrArg (fun f => (exchange.sources[other]?).map f)
      (funext id : Source.id ∘ change = Source.id)
  · rfl

/-- A source may change in all but its identity, as long as it still fits into memory. -/
theorem orderly_update_source (orderly : Orderly exchange) (change : Source → Source)
    (id : ∀ source, (change source).id = source.id)
    (fits : ∀ source, exchange.sources[place]? = some source → source.feed.fits = true →
      (change source).feed.fits = true) :
    Orderly (exchange.updateSource place change) where
  registry other mixer there := by
    obtain ⟨known, distinct, once⟩ := orderly.registry other mixer there
    refine ⟨fun entry member => ?_, distinct, once⟩
    rw [known_update_source change id]
    exact known entry member
  format := orderly.format
  fits sufficed other source there := by
    simp only [updateSource, Array.getElem?_modify] at there
    split at there
    · rename_i same
      obtain ⟨found, held, rfl⟩ := Option.map_eq_some_iff.mp there
      subst same
      exact fits found held (orderly.fits sufficed _ found held)
    · exact orderly.fits sufficed other source there

/-- Nothing else has a part in this order. -/
private theorem orderly_of_parts (orderly : Orderly before) (mixers : after.mixers = before.mixers)
    (sources : after.sources = before.sources) (listeners : after.listeners = before.listeners)
    (exhausted : after.exhausted = false → before.exhausted = false) : Orderly after where
  registry := by
    rw [mixers, sources]
    exact orderly.registry
  format := by
    rw [mixers, listeners]
    exact orderly.format
  fits sufficed := by
    rw [sources]
    exact orderly.fits (exhausted sufficed)

end

/-! ## Registries -/

section
variable {sources : Array Source} {mixer : Mixer} (orderly : RegistryOrderly sources mixer)
include orderly

private theorem attach_orderly {attached : Source} (there : sources[place]? = some attached) :
    RegistryOrderly sources (mixer.attach ⟨place, attached.id⟩) := by
  unfold Mixer.attach
  split
  · exact orderly
  · rename_i fresh
    refine ⟨fun entry member => ?_, ?_, orderly.once⟩
    · rcases List.mem_append.mp member with old | new
      · exact orderly.known entry old
      · rw [List.mem_singleton.mp new, there]
        rfl
    · rw [List.map_append, List.map_singleton, List.nodup_append]
      refine ⟨orderly.distinct, by simp, fun identity old other new same => ?_⟩
      obtain ⟨entry, member, rfl⟩ := List.mem_map.mp old
      rw [List.mem_singleton.mp new] at same
      exact fresh (List.any_eq_true.mpr ⟨entry, member, by simpa using same⟩)

private theorem detach_orderly (identity : SourceId) :
    RegistryOrderly sources (mixer.detach identity) where
  known entry member := orderly.known entry (List.mem_filter.mp member).1
  distinct := orderly.distinct.sublist (List.filter_sublist.map Attached.id)
  once := orderly.once

private theorem register_orderly (entry : Registered) :
    RegistryOrderly sources (mixer.register entry) := by
  unfold Mixer.register
  split
  · exact orderly
  · rename_i fresh
    refine ⟨orderly.known, orderly.distinct, ?_⟩
    rw [List.map_append, List.map_singleton, List.nodup_append]
    refine ⟨orderly.once, by simp, fun place old other new same => ?_⟩
    obtain ⟨found, member, rfl⟩ := List.mem_map.mp old
    rw [List.mem_singleton.mp new] at same
    exact fresh (List.any_eq_true.mpr ⟨found, member, by simpa using same⟩)

private theorem unregister_orderly (listener : Nat) :
    RegistryOrderly sources (mixer.unregister listener) where
  known := orderly.known
  distinct := orderly.distinct
  once := orderly.once.sublist (List.filter_sublist.map Registered.listener)

private theorem exclude_orderly (listener : Nat) (ids : List SourceId) :
    RegistryOrderly sources (mixer.exclude listener ids) := by
  refine ⟨orderly.known, orderly.distinct, ?_⟩
  have places : (mixer.exclude listener ids).listeners.map Registered.listener =
      mixer.listeners.map Registered.listener := by
    rw [Mixer.exclude, List.map_map]
    refine List.map_congr_left fun entry _ => ?_
    simp only [Function.comp_apply]
    split <;> rfl
  rw [places]
  exact orderly.once

end

/-! ## Moves -/

private theorem register_format (mixer : Mixer) (entry : Registered) :
    (mixer.register entry).format = mixer.format := by
  unfold Mixer.register
  split <;> rfl

private theorem attach_format (mixer : Mixer) (entry : Attached) :
    (mixer.attach entry).format = mixer.format := by
  unfold Mixer.attach
  split <;> rfl

private theorem add_mixer_orderly (orderly : Orderly exchange)
    (made : Mixer.ofFormat format = .ok mixer) :
    Orderly { exchange with mixers := exchange.mixers.push mixer } where
  registry place found there := by
    simp only [Array.getElem?_push] at there
    split at there
    · cases there
      unfold Mixer.ofFormat at made
      split at made
      · cases made
      · cases made
        exact ⟨nofun, List.nodup_nil, List.nodup_nil⟩
    · exact orderly.registry place found there
  format place listener there := by
    have kept := orderly.format place listener there
    have inside : listener.mixer < exchange.mixers.size := by
      by_contra outside
      rw [Array.getElem?_eq_none (Nat.le_of_not_lt outside)] at kept
      cases kept
    simp only [Array.getElem?_push, Nat.ne_of_lt inside, ↓reduceIte]
    exact kept
  fits := orderly.fits

private theorem add_listener_orderly (orderly : Orderly exchange)
    (there : exchange.mixers[mixer]? = some found) :
    Orderly { exchange with
      listeners := exchange.listeners.push ⟨mixer, found.format, ids, none, none, false, true⟩ } where
  registry := orderly.registry
  format place listener member := by
    simp only [Array.getElem?_push] at member
    split at member
    · cases member
      rw [there]
      rfl
    · exact orderly.format place listener member
  fits := orderly.fits

private theorem add_source_orderly {feed : Feed} (orderly : Orderly exchange) :
    Orderly (exchange.addSource identity feed).2 where
  registry place mixer there := by
    obtain ⟨known, distinct, once⟩ := orderly.registry place mixer there
    refine ⟨fun entry member => ?_, distinct, once⟩
    have kept := known entry member
    have inside : entry.source < exchange.sources.size := by
      by_contra outside
      rw [Array.getElem?_eq_none (Nat.le_of_not_lt outside)] at kept
      cases kept
    simp only [addSource, demand, Array.getElem?_push, Nat.ne_of_lt inside, ↓reduceIte]
    exact kept
  format := orderly.format
  fits sufficed place source there := by
    simp only [addSource, demand, Bool.or_eq_false_iff, Bool.not_eq_false'] at sufficed
    simp only [addSource, demand, Array.getElem?_push] at there
    split at there
    · cases there
      exact sufficed.2
    · exact orderly.fits sufficed.1 place source there

private theorem after_read_fits {feed : Feed} (fits : feed.fits = true) :
    feed.afterRead.fits = true := by
  cases feed with
  | queue waiting => exact fits
  | script frames =>
    simp only [Feed.fits, Feed.afterRead, List.all_eq_true] at fits ⊢
    exact fun frame member => fits frame (List.mem_of_mem_tail member)

private theorem register_both_orderly (orderly : Orderly exchange) :
    Orderly (exchange.register mixer place).2 := by
  rcases register_cases mixer place exchange with same | ⟨excluded, same⟩
  · rw [same]
    exact orderly
  · rw [same]
    have registered : Orderly (exchange.updateMixer mixer fun found =>
        found.register ⟨place, excluded⟩) :=
      orderly_update_mixer orderly _ (fun _ => register_format _ _)
        fun found there => register_orderly (orderly.registry _ _ there) _
    exact orderly_update_listener registered _ (fun _ => rfl) (fun _ => rfl)

private theorem unregister_both_orderly (orderly : Orderly exchange) :
    Orderly (exchange.unregister mixer place).2 := by
  rcases unregister_cases mixer place exchange with same | same
  · rw [same]
    exact orderly
  · rw [same]
    have unregistered : Orderly (exchange.updateMixer mixer fun found => found.unregister place) :=
      orderly_update_mixer orderly _ (fun _ => rfl)
        fun found there => unregister_orderly (orderly.registry _ _ there) place
    exact orderly_update_listener unregistered _ (fun _ => rfl) (fun _ => rfl)

private theorem handed_orderly (orderly : Orderly exchange) :
    Orderly ((exchange.updateListener place fun found =>
      { found with pending := some input }).note entry) := by
  have handed : Orderly (exchange.updateListener place fun found =>
      { found with pending := some input }) :=
    orderly_update_listener orderly _ (fun _ => rfl) (fun _ => rfl)
  exact orderly_of_parts handed rfl rfl rfl id

/-- Every elementary change keeps an exchange in order. -/
theorem change_orderly (orderly : Orderly before) (change : Change before after) :
    Orderly after := by
  cases change with
  | addMixer made => exact add_mixer_orderly orderly made
  | dropMixer => exact orderly_account orderly _ (fun _ => rfl) (fun _ => rfl) (fun _ => rfl)
  | halt => exact orderly_account orderly _ (fun _ => rfl) (fun _ => rfl) (fun _ => rfl)
  | account change => exact orderly_account orderly _ (fun _ => rfl) (fun _ => rfl) (fun _ => rfl)
  | attach there =>
    exact orderly_update_mixer orderly _ (fun _ => attach_format _ _)
      fun mixer held => attach_orderly (orderly.registry _ _ held) there
  | detach =>
    exact orderly_update_mixer orderly _ (fun _ => rfl)
      fun mixer held => detach_orderly (orderly.registry _ _ held) _
  | addListener there => exact add_listener_orderly orderly there
  | dropListener => exact orderly_update_listener orderly _ (fun _ => rfl) (fun _ => rfl)
  | register => exact register_both_orderly orderly
  | unregister => exact unregister_both_orderly orderly
  | orphan => exact orderly_update_listener orderly _ (fun _ => rfl) (fun _ => rfl)
  | @exclude _ mixer place ids =>
    have excluded : Orderly (before.updateMixer mixer fun found => found.exclude place ids) :=
      orderly_update_mixer orderly _ (fun _ => rfl)
        fun mixer held => exclude_orderly (orderly.registry _ _ held) place ids
    exact orderly_update_listener excluded _ (fun _ => rfl) (fun _ => rfl)
  | @setHandler _ place handler =>
    have pushed : Orderly { before with handlers := before.handlers.push handler } :=
      orderly_of_parts orderly rfl rfl rfl id
    exact orderly_update_listener pushed _ (fun _ => rfl) (fun _ => rfl)
  | clearHandler => exact orderly_update_listener orderly _ (fun _ => rfl) (fun _ => rfl)
  | take => exact orderly_update_listener orderly _ (fun _ => rfl) (fun _ => rfl)
  | hand => exact handed_orderly orderly
  | addSource => exact add_source_orderly orderly
  | push there =>
    refine orderly_update_source orderly _ (fun _ => rfl) fun source held fits => ?_
    simp only [queue?, held, Option.bind_eq_bind, Option.bind_some, Source.queue?] at there
    split at there
    · rename_i waiting queued
      cases there
      rw [queued] at fits
      exact fits
    · cases there
  | drain =>
    exact orderly_update_source orderly _ (fun _ => rfl) fun source held fits =>
      after_read_fits fits
  | demand =>
    exact orderly_of_parts orderly rfl rfl rfl fun sufficed => by
      simp only [demand, Bool.or_eq_false_iff] at sufficed
      exact sufficed.1
  | _ => exact orderly_of_parts orderly rfl rfl rfl id

private theorem turn_orderly (orderly : Orderly before) (turn : Turn before after) :
    Orderly after := by
  cases turn with
  | begin mixer speeches => exact orderly_of_parts orderly rfl rfl rfl id
  | hand => exact handed_orderly orderly
  | @finish mixer cycle report =>
    have recorded : Orderly (before.updateMixer mixer fun found =>
        { found with stats := found.stats.recordCycle before.now report.record }) :=
      orderly_account orderly _ (fun _ => rfl) (fun _ => rfl) (fun _ => rfl)
    exact orderly_of_parts recorded rfl rfl rfl id

/-- Whatever moves led to an exchange, it is in order. -/
theorem moves_orderly (moves : Relation.ReflTransGen Move Exchange.empty exchange) :
    Orderly exchange := by
  induction moves with
  | refl => exact ⟨nofun, nofun, nofun⟩
  | tail _ move ih =>
    rcases move with change | turn
    · exact change_orderly ih change
    · exact turn_orderly ih turn

/-- Every reachable exchange is in order. -/
theorem reachable_orderly (reachable : Reachable exchange) : Orderly exchange :=
  moves_orderly reachable.moves

end Conference.ExchangeInvariants
