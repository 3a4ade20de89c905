import Conference.Proofs.RegistryOrder

/-! Whether a listener is registered and whom it excludes is noted twice, by its mixer and by the
listener itself. The two agree in the whole course of a run as long as every listener is used with
its own mixer only: a mixer that was let go is the one that may lag behind. -/
namespace Conference.RegistryInvariant
open Exchange ExchangeMoves ExchangeCourse ExchangeInvariants RegistryEvents RegistryOrder

/-- A step names a listener only together with the mixer that created it. -/
def Own (deed : Deed) : Prop :=
  match deed.step with
  | .register mixer listener | .unregister mixer listener | .exclude mixer listener _ =>
    ∀ home, homeOf? deed.before listener = some home → home = mixer
  | _ => True

/-- A change of registries that concerns a listener is made by its own mixer. -/
def OwnEvent (before : Exchange) (event? : Option RegistryEvent) : Prop :=
  ∀ mixer listener, event? = some (.joined mixer listener) ∨
    event? = some (.excluded mixer listener) →
      ∀ home, homeOf? before listener = some home → home = mixer

private theorem joined_step {deed : Deed} (made : event? deed = some (.joined mixer listener)) :
    deed.step = .register mixer listener ∨ homeOf? deed.before listener = some mixer := by
  unfold event? at made
  split at made
  case h_3 =>
    obtain ⟨home, created, same⟩ := Option.map_eq_some_iff.mp made
    cases same
    exact .inr created
  case h_5 stepped _ =>
    cases made
    exact .inl stepped
  all_goals simp at made

private theorem excluded_step {deed : Deed} (made : event? deed = some (.excluded mixer listener)) :
    ∃ sources, deed.step = .exclude mixer listener sources := by
  unfold event? at made
  split at made
  case h_7 sources stepped _ =>
    cases made
    exact ⟨sources, stepped⟩
  all_goals simp at made

private theorem own_event {deed : Deed} (own : Own deed) : OwnEvent deed.before (event? deed) := by
  rintro mixer listener (joined | excluded) home created
  · rcases joined_step joined with stepped | home'
    · rw [Own, stepped] at own
      exact own home created
    · rw [created] at home'
      exact Option.some.inj home'
  · obtain ⟨sources, stepped⟩ := excluded_step excluded
    rw [Own, stepped] at own
    exact own home created

/-- What mixers and listeners know of each other. -/
structure Agreed (exchange : Exchange) : Prop where
  /-- A registered listener belongs to the mixer, and both know the same exclusions. -/
  known : ∀ {mixer entry}, entry ∈ registeredWith exchange mixer →
    homeOf? exchange entry.listener = some mixer ∧
      excludedBy? exchange entry.listener = some entry.excluded
  started : ∀ {mixer listener}, homeOf? exchange listener = some mixer →
    gone exchange mixer = false →
      (startedAt exchange listener = true ↔
        listener ∈ (registeredWith exchange mixer).map Registered.listener)

section
variable {before after : Exchange} {event? : Option RegistryEvent}

private theorem started_home (started : startedAt exchange listener = true) :
    ∃ mixer, homeOf? exchange listener = some mixer := by
  unfold startedAt ofListener at started
  cases there : exchange.listeners[listener]? with
  | none => simp [there] at started
  | some card => exact ⟨card.mixer, by simp [homeOf?, ofListener, there]⟩

private theorem excluded_home (excluded : excludedBy? exchange listener = some ids) :
    ∃ mixer, homeOf? exchange listener = some mixer := by
  unfold excludedBy? ofListener at excluded
  cases there : exchange.listeners[listener]? with
  | none => simp [there] at excluded
  | some card => exact ⟨card.mixer, by simp [homeOf?, ofListener, there]⟩

/-- What concerns no listener keeps the agreement. -/
private theorem same_agreed (agreed : Agreed before) (same : SameListeners before after) :
    Agreed after where
  known {mixer entry} member := by
    rw [same.registered] at member
    obtain ⟨home, excluded⟩ := agreed.known member
    exact ⟨same.home home, same.excluded excluded⟩
  started {mixer listener} home live := by
    rw [same.started, same.registered]
    have held : gone before mixer = false := by
      by_contra away
      rw [same.gone (by simpa using away)] at live
      cases live
    cases created : homeOf? before listener with
    | some other =>
      have here := same.home created
      rw [home] at here
      cases here
      exact agreed.started created held
    | none =>
      -- A listener that is new is neither started nor registered.
      constructor
      · intro started
        obtain ⟨other, created'⟩ := started_home started
        rw [created] at created'
        cases created'
      · intro member
        obtain ⟨entry, listed, rfl⟩ := List.mem_map.mp member
        rw [(agreed.known listed).1] at created
        cases created

/-- Only one listener comes or goes at a time, and it knows as well as the mixer. -/
private theorem joined_agreed (agreed : Agreed before)
    (home : homeOf? before listener = some mixer)
    (excludes : excludedBy? before listener = some ids)
    (registered : registeredWith after = Function.update (registeredWith before) mixer
      (registeredWith before mixer ++ [⟨listener, ids⟩]))
    (started : startedAt after = Function.update (startedAt before) listener true)
    (excluded : excludedBy? after = excludedBy? before) (settled : Settled before after) :
    Agreed after where
  known {place entry} member := by
    rw [settled.home, excluded]
    rw [registered, Function.update_apply] at member
    split at member
    · rename_i here
      subst here
      rcases List.mem_append.mp member with old | new
      · exact agreed.known old
      · rw [List.mem_singleton.mp new]
        exact ⟨home, excludes⟩
    · exact agreed.known member
  started {place other} created live := by
    rw [settled.home] at created
    rw [settled.gone] at live
    rw [started, joined_names registered, Function.update_apply]
    by_cases same : other = listener
    · subst same
      rw [home] at created
      cases created
      simp
    · simp [same, agreed.started created live]

private theorem left_agreed (agreed : Agreed before)
    (known : listener ∈ (registeredWith before mixer).map Registered.listener)
    (registered : registeredWith after = Function.update (registeredWith before) mixer
      ((registeredWith before mixer).filter (·.listener != listener)))
    (started : startedAt after = Function.update (startedAt before) listener false)
    (excluded : excludedBy? after = excludedBy? before) (settled : Settled before after) :
    Agreed after where
  known {place entry} member := by
    rw [settled.home, excluded]
    rw [registered, Function.update_apply] at member
    split at member
    · rename_i here
      subst here
      exact agreed.known (List.mem_filter.mp member).1
    · exact agreed.known member
  started {place other} created live := by
    rw [settled.home] at created
    rw [settled.gone] at live
    obtain ⟨entry, listed, named⟩ := List.mem_map.mp known
    have home := (agreed.known listed).1
    rw [named] at home
    rw [started, left_names registered, Function.update_apply]
    by_cases same : other = listener
    · subst same
      rw [home] at created
      cases created
      simp
    · simp [same, agreed.started created live]

/-- Both the mixer and the listener learn of new exclusions; no other mixer knew of the old ones. -/
private theorem excluded_agreed (agreed : Agreed before)
    (own : ∀ home, homeOf? before listener = some home → home = mixer)
    (registered : registeredWith after = Function.update (registeredWith before) mixer
      ((registeredWith before mixer).map fun entry =>
        if entry.listener == listener then { entry with excluded := ids } else entry))
    (started : startedAt after = startedAt before)
    (excluded : excludedBy? after = Function.update (excludedBy? before) listener (some ids))
    (settled : Settled before after) : Agreed after where
  known {place entry} member := by
    rw [settled.home, excluded]
    rw [registered, Function.update_apply] at member
    split at member
    · rename_i here
      subst here
      obtain ⟨old, listed, rfl⟩ := List.mem_map.mp member
      obtain ⟨home, excludes⟩ := agreed.known listed
      by_cases same : old.listener = listener
      · simp [same, ← home]
      · simp [same, home, excludes]
    · rename_i elsewhere
      obtain ⟨home, excludes⟩ := agreed.known member
      have apart : entry.listener ≠ listener := by
        intro same
        rw [same] at home
        exact elsewhere (own _ home)
      rw [Function.update_of_ne apart]
      exact ⟨home, excludes⟩
  started {place other} created live := by
    rw [settled.home] at created
    rw [settled.gone] at live
    rw [started, agreed.started created live, excluded_names registered]

theorem moved_agreed (agreed : Agreed before) (moved : Moved before after event?)
    (own : OwnEvent before event?) : Agreed after := by
  cases moved with
  | still unmoved => exact same_agreed agreed unmoved.toSameListeners
  | attached _ _ same | detached _ _ same => exact same_agreed agreed same
  | @joined place listener ids fresh excludes registered started excluded settled =>
    obtain ⟨home, created⟩ := excluded_home excludes
    cases own place listener (.inl rfl) home created
    exact joined_agreed agreed created excludes registered started excluded settled
  | left known registered started excluded settled =>
    exact left_agreed agreed known registered started excluded settled
  | @orphaned listener mixer home away registered started excluded settled =>
    refine ⟨fun member => ?_, fun {place other} created live => ?_⟩
    · rw [registered] at member
      rw [settled.home, excluded]
      exact agreed.known member
    · rw [settled.home] at created
      rw [settled.gone] at live
      have apart : other ≠ listener := by
        rintro rfl
        rw [home] at created
        cases created
        rw [away] at live
        cases live
      rw [started, Function.update_of_ne apart, registered]
      exact agreed.started created live
  | @excluded place listener ids registered started excluded settled =>
    exact excluded_agreed agreed (own place listener (.inr rfl)) registered started excluded settled

end

/-- In the course of a run in which listeners are used with their own mixers, mixers and listeners
agree. -/
theorem course_agreed (course : Course Exchange.empty deeds exchange)
    (own : ∀ deed ∈ deeds, Own deed) : Agreed exchange := by
  induction course with
  | nil => exact { known := nofun, started := nofun }
  | interlude _ interlude ih =>
    exact same_agreed (ih own) (interlude_unmoved interlude).toSameListeners
  | @deed deeds exchange step earlier plain ih =>
    have agreed := ih fun deed member => own deed (List.mem_append_left _ member)
    have moved := plain_faithful (moves_orderly (course_moves earlier)) plain
    exact moved_agreed agreed moved
      (own_event (own ⟨exchange, step⟩ (List.mem_append_right _ (List.mem_singleton_self _))))

/-! ## What operations answer -/

/-- Whether a step attaches, detaches, registers or unregisters something. -/
def isRegistration : Step → Bool
  | .attach _ _ | .detach _ _ | .start _ | .stop _ | .register _ _ | .unregister _ _ => true
  | _ => false

/-- What mixers have registered. -/
def registries (exchange : Exchange) : (Nat → List SourceId) × (Nat → List Registered) :=
  (attachedTo exchange, registeredWith exchange)

private theorem answer_found {exchange : Exchange} {act : α → Outcome × Exchange}
    (answered : (exchange.onFound found? act).1 = .answer yes) :
    ∃ found, found? = some found ∧ (act found).1 = .answer yes := by
  unfold onFound at answered
  split at answered
  · cases answered
  · exact ⟨_, rfl, answered⟩

/-- A step that registers something answers whether it did. -/
theorem answer_event {deed : Deed} (registration : isRegistration deed.step = true)
    (answered : deed.outcome = .answer yes) : yes = (event? deed).isSome := by
  obtain ⟨before, step⟩ := deed
  cases step with
  | attach mixer source | detach mixer source =>
    obtain ⟨_, _, found⟩ := answer_found answered
    obtain ⟨_, known, _⟩ := answer_found found
    cases yes <;> simp [event?, answered, identity?, known]
  | start listener | stop listener =>
    obtain ⟨_, known, _⟩ := answer_found answered
    have listening := (Option.filter_eq_some_iff.mp known).1
    cases yes <;> simp [event?, answered, homeOf?, ofListener, listening]
  | register | unregister => cases yes <;> simp [event?, answered]
  | _ => cases registration

private theorem registration_event {deed : Deed} (registration : isRegistration deed.step = true) :
    event? deed ≠ some (.excluded mixer listener) := by
  intro made
  obtain ⟨sources, stepped⟩ := excluded_step made
  rw [stepped] at registration
  cases registration

/-- What comes or goes changes a registry. -/
private theorem moved_registries {before after : Exchange} {event? : Option RegistryEvent}
    (moved : Moved before after event?)
    (registration : ∀ mixer listener, event? ≠ some (.excluded mixer listener)) :
    event?.isSome = true ↔ registries after ≠ registries before := by
  have longer {α : Type} (names : List α) (name : α) : names ++ [name] ≠ names := by simp
  cases moved with
  | still unmoved => simp [registries, unmoved.sources, unmoved.registered]
  | orphaned _ _ registered _ _ settled => simp [registries, registered, settled.sources]
  | @attached mixer identity fresh sources same =>
    refine ⟨fun _ still => longer (attachedTo before mixer) identity ?_, fun _ => rfl⟩
    have here : attachedTo after mixer = attachedTo before mixer :=
      congrFun (congrArg Prod.fst still) mixer
    rwa [sources, Function.update_self] at here
  | @joined place listener ids fresh own registered =>
    refine ⟨fun _ still => longer (registeredWith before place) ⟨listener, ids⟩ ?_, fun _ => rfl⟩
    have here : registeredWith after place = registeredWith before place :=
      congrFun (congrArg Prod.snd still) place
    rwa [registered, Function.update_self] at here
  | @detached mixer identity known sources same =>
    refine ⟨fun _ still => ?_, fun _ => rfl⟩
    have here : attachedTo after mixer = attachedTo before mixer :=
      congrFun (congrArg Prod.fst still) mixer
    simp only [sources, Function.update_self, List.filter_eq_self, bne_iff_ne] at here
    exact here identity known rfl
  | @left place listener known registered =>
    refine ⟨fun _ still => ?_, fun _ => rfl⟩
    have here : registeredWith after place = registeredWith before place :=
      congrFun (congrArg Prod.snd still) place
    simp only [registered, Function.update_self, List.filter_eq_self, bne_iff_ne] at here
    obtain ⟨entry, listed, named⟩ := List.mem_map.mp known
    exact here entry listed named
  | excluded => exact absurd rfl (registration _ _)

/-! ## The whole course -/

/-- A registry names everyone once, and its mixer agrees with the listeners that it created. -/
structure Consistent (exchange : Exchange) (mixer : Nat) (found : Mixer) : Prop where
  distinct : (found.sources.map Attached.id).Nodup
  once : (found.listeners.map Registered.listener).Nodup
  /-- A listener of this mixer counts as started exactly while it is registered. -/
  started : ∀ (listener : Nat) card, exchange.listeners[listener]? = some card →
    card.mixer = mixer → (card.started = true ↔ found.registers listener = true)
  /-- The exclusions that cycles use for a listener are the listener's own. -/
  excluded : ∀ entry ∈ found.listeners, ∃ card, exchange.listeners[entry.listener]? = some card ∧
    card.mixer = mixer ∧ card.excluded = entry.excluded

private theorem agreed_consistent (orderly : Orderly exchange) (agreed : Agreed exchange)
    (held : exchange.heldMixer? mixer = some found) : Consistent exchange mixer found := by
  obtain ⟨there, live⟩ := Option.filter_eq_some_iff.mp held
  obtain ⟨-, distinct, once⟩ := orderly.registry mixer found there
  have listed : registeredWith exchange mixer = found.listeners := by
    simp [registeredWith, ofMixer, there]
  refine ⟨distinct, once, fun listener card listening home => ?_, fun entry member => ?_⟩
  · have created : homeOf? exchange listener = some mixer := by
      simp [homeOf?, ofListener, listening, home]
    have told := agreed.started created (by simp [gone, ofMixer, there, live])
    rw [registers_iff there, ← told]
    simp [startedAt, ofListener, listening]
  · obtain ⟨home, excludes⟩ := agreed.known (listed ▸ member)
    cases listening : exchange.listeners[entry.listener]? with
    | none => simp [homeOf?, ofListener, listening] at home
    | some card =>
      simp only [homeOf?, excludedBy?, ofListener, listening, Option.elim_some,
        Option.some.injEq] at home excludes
      exact ⟨card, rfl, home, excludes⟩

/-- In the course of a run in which listeners are used with their own mixers, whatever handlers do
and in whatever order: every mixer that was not let go is consistent with its listeners, its
registry stands in the order of registration, and an operation on registries answers whether it
changed one. -/
theorem registry_invariant (course : Course Exchange.empty deeds exchange)
    (own : ∀ deed ∈ deeds, Own deed) :
    (∀ mixer found, exchange.heldMixer? mixer = some found →
      Consistent exchange mixer found ∧
        found.sources.map Attached.id = sourcesStanding mixer (events deeds) ∧
        found.listeners.map Registered.listener = listenersStanding mixer (events deeds)) ∧
      ∀ deed ∈ deeds, isRegistration deed.step = true → ∀ yes, deed.outcome = .answer yes →
        (yes = true ↔ registries deed.after ≠ registries deed.before) := by
  have orderly := moves_orderly (course_moves course)
  have agreed := course_agreed course own
  refine ⟨fun mixer found held => ?_, fun deed member registration yes answered => ?_⟩
  · have there := (Option.filter_eq_some_iff.mp held).1
    obtain ⟨sources, listeners⟩ := registry_order course mixer
    simp only [attachedTo, registeredWith, ofMixer, there, Option.elim_some] at sources listeners
    exact ⟨agreed_consistent orderly agreed held, sources, listeners⟩
  · obtain ⟨plain, earlier, led⟩ := course_to_deed course member
    have moved := plain_faithful (moves_orderly (course_moves led)) plain
    rw [answer_event registration answered]
    exact moved_registries moved fun _ _ => registration_event registration

/-! ## Runs by plan -/

/-- Whether a step names listeners only together with the mixers that they belong to by a plan. -/
def KeepsTo (home : Nat → Nat) : Step → Prop
  | .register mixer listener | .unregister mixer listener | .exclude mixer listener _ =>
    home listener = mixer
  | _ => True

private theorem moved_home {before after : Exchange} {event? : Option RegistryEvent}
    (moved : Moved before after event?) (created : homeOf? before listener = some mixer) :
    homeOf? after listener = some mixer := by
  cases moved with
  | still unmoved => exact unmoved.home created
  | attached _ _ same | detached _ _ same => exact same.home created
  | joined _ _ _ _ _ settled | left _ _ _ _ settled | orphaned _ _ _ _ _ settled
  | excluded _ _ _ settled => rwa [settled.home]

/-- Listeners stay with their mixers. -/
private theorem deed_home (course : Course Exchange.empty deeds exchange) (member : deed ∈ deeds)
    (created : homeOf? deed.before listener = some mixer) :
    homeOf? exchange listener = some mixer := by
  induction course with
  | nil => cases member
  | interlude _ interlude ih => exact (interlude_unmoved interlude).home (ih member)
  | deed earlier plain ih =>
    have moved := plain_faithful (moves_orderly (course_moves earlier)) plain
    rcases List.mem_append.mp member with old | new
    · exact moved_home moved (ih old)
    · cases List.mem_singleton.mp new
      exact moved_home moved created

/-- A program that keeps to a plan, also in the programs that it leaves on listeners, uses every
listener with its own mixer if the plan turns out to be right. -/
theorem run_own (keeps : AllOf (KeepsTo home) program)
    (right : ∀ listener mixer,
      homeOf? (Exchange.empty.run program).2 listener = some mixer → home listener = mixer) :
    ∃ deeds, Course Exchange.empty deeds (Exchange.empty.run program).2 ∧
      ∀ deed ∈ deeds, Own deed := by
  obtain ⟨-, deeds, course, keeping⟩ := run_led program Exchange.empty keeps nofun
  refine ⟨deeds, course, fun deed member => ?_⟩
  obtain ⟨before, step⟩ := deed
  have kept : KeepsTo home step := keeping _ member
  cases step with
  | register mixer listener | unregister mixer listener | exclude mixer listener =>
    intro place created
    have placed := right listener place (deed_home course member created)
    exact placed.symm.trans kept
  | _ => trivial

/-- Two listeners of one mixer. When the first is fed, it stops, excludes the only source and
registers again. -/
def rejoining : List Step := [.addMixer .pcm16, .addQueue 1 8, .attach 0 0, .addListener 0 [],
  .addListener 0 [], .start 0, .start 1,
  .runOnInput 0 1 [.stop 0, .exclude 0 0 [0], .register 0 0], .push 0 0 [5]]

private theorem rejoining_own : ∃ deeds,
    Course Exchange.empty deeds (Exchange.empty.run rejoining).2 ∧ ∀ deed ∈ deeds, Own deed := by
  have keeps : AllOf (KeepsTo fun _ => 0) rejoining := by simp [rejoining, AllOf, All, KeepsTo]
  have created : (Exchange.empty.run rejoining).2.listeners.toList.map Listener.mixer = [0, 0] := by
    decide +kernel
  refine run_own keeps fun listener mixer home => ?_
  simp only [homeOf?, ofListener] at home
  cases there : (Exchange.empty.run rejoining).2.listeners[listener]? with
  | none => simp [there] at home
  | some card =>
    rw [there] at home
    cases home
    have member := List.mem_map_of_mem (f := Listener.mixer) (Array.mem_toList_iff.mpr
      (Array.mem_of_getElem? there))
    rw [created] at member
    simpa [eq_comm] using member

/-- The first listener comes to stand behind the second, with its new exclusions. -/
theorem rejoining_stays_consistent : ∃ deeds found,
    Course Exchange.empty deeds (Exchange.empty.run rejoining).2 ∧
      (∀ deed ∈ deeds, Own deed) ∧
      (Exchange.empty.run rejoining).2.heldMixer? 0 = some found ∧
      found.listeners = [⟨1, []⟩, ⟨0, [1]⟩] ∧
      Consistent (Exchange.empty.run rejoining).2 0 found ∧
      listenersStanding 0 (events deeds) = [1, 0] := by
  obtain ⟨deeds, course, own⟩ := rejoining_own
  have registered : ((Exchange.empty.run rejoining).2.heldMixer? 0).map Mixer.listeners =
      some [⟨1, []⟩, ⟨0, [1]⟩] := by decide +kernel
  obtain ⟨found, held, listed⟩ := Option.map_eq_some_iff.mp registered
  obtain ⟨consistent, -, order⟩ := (registry_invariant course own).1 0 found held
  rw [listed] at order
  exact ⟨deeds, found, course, own, held, listed, consistent, order.symm⟩

end Conference.RegistryInvariant
