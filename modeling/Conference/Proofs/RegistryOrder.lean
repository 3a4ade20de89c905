import Conference.Proofs.RegistryEvents

/-! Registries keep the order of registration: whoever comes stands at the end, whoever goes is
missing, and nobody else changes places. So a registry can be read off the turns that were taken at
its mixer, whatever cycles and handlers did in between. -/
namespace Conference.RegistryOrder
open Exchange ExchangeCourse ExchangeInvariants RegistryEvents

/-! ## Who stands after a sequence of turns -/

/-- Those who came with the last turn that they took, in the order of these turns. A turn tells who
took it and whether it was to come or to go. -/
def standing : List (Nat × Bool) → List Nat
  | [] => []
  | (who, came) :: later =>
    if came && later.all (·.1 != who) then who :: standing later else standing later

/-- Somebody stands exactly when they came once and did not go since. -/
theorem mem_standing_iff (turns : List (Nat × Bool)) (who : Nat) : who ∈ standing turns ↔
    ∃ earlier later, turns = earlier ++ (who, true) :: later ∧ (who, false) ∉ later := by
  induction turns with
  | nil => simp [standing]
  | cons turn rest ih =>
    obtain ⟨first, came⟩ := turn
    constructor
    · intro stands
      by_cases last : (came && rest.all (·.1 != first)) = true
      · rw [standing, if_pos last] at stands
        rcases List.mem_cons.mp stands with rfl | stands
        · simp only [Bool.and_eq_true, List.all_eq_true, bne_iff_ne] at last
          obtain ⟨rfl, apart⟩ := last
          exact ⟨[], rest, rfl, fun member => apart _ member rfl⟩
        · obtain ⟨earlier, later, rfl, stayed⟩ := ih.mp stands
          exact ⟨(first, came) :: earlier, later, rfl, stayed⟩
      · rw [standing, if_neg last] at stands
        obtain ⟨earlier, later, rfl, stayed⟩ := ih.mp stands
        exact ⟨(first, came) :: earlier, later, rfl, stayed⟩
    · rintro ⟨earlier, later, split, stayed⟩
      have inRest (stands : who ∈ standing rest) : who ∈ standing ((first, came) :: rest) := by
        rw [standing]
        split
        · exact List.mem_cons_of_mem _ stands
        · exact stands
      cases earlier with
      | cons turn earlier =>
        rw [List.cons_append, List.cons.injEq] at split
        exact inRest (ih.mpr ⟨earlier, later, split.2, stayed⟩)
      | nil =>
        rw [List.nil_append, List.cons.injEq, Prod.mk.injEq] at split
        obtain ⟨⟨rfl, rfl⟩, rfl⟩ := split
        by_cases again : (first, true) ∈ rest
        -- It is the later of two comings that counts.
        · obtain ⟨earlier, later, rfl⟩ := List.append_of_mem again
          refine inRest (ih.mpr ⟨earlier, later, rfl, fun gone => stayed ?_⟩)
          exact List.mem_append_right _ (List.mem_cons_of_mem _ gone)
        · have last : rest.all (·.1 != first) = true := by
            simp only [List.all_eq_true, bne_iff_ne]
            rintro ⟨_, came⟩ member rfl
            cases came with
            | true => exact again member
            | false => exact stayed member
          simp [standing, last]

/-- Whoever takes a turn loses their place, and has the last one if they came. -/
theorem standing_snoc (turns : List (Nat × Bool)) (who : Nat) (came : Bool) :
    standing (turns ++ [(who, came)]) =
      (standing turns).filter (· != who) ++ if came then [who] else [] := by
  induction turns with
  | nil => cases came <;> simp [standing]
  | cons turn rest ih =>
    obtain ⟨first, early⟩ := turn
    simp only [List.cons_append, standing, List.all_append, List.all_cons, List.all_nil, ih]
    by_cases same : who = first
    · subst same
      simp [apply_ite (List.filter (· != who))]
    · have apart : (who != first) = true ∧ (first != who) = true := by
        simp [same, Ne.symm same]
      simp only [apart.1, Bool.and_true]
      split <;> simp [apart.2]

/-! ## The turns taken at a mixer -/

/-- A source comes to a mixer or goes. -/
def sourceTurn (mixer : Nat) : RegistryEvent → Option (SourceId × Bool)
  | .attached place identity => if place = mixer then some (identity, true) else none
  | .detached place identity => if place = mixer then some (identity, false) else none
  | _ => none

/-- A listener comes to a mixer or goes. -/
def listenerTurn (mixer : Nat) : RegistryEvent → Option (Nat × Bool)
  | .joined place listener => if place = mixer then some (listener, true) else none
  | .left place listener => if place = mixer then some (listener, false) else none
  | _ => none

/-- The sources attached to a mixer, by the changes of registries so far. -/
def sourcesStanding (mixer : Nat) (events : List RegistryEvent) : List SourceId :=
  standing (events.filterMap (sourceTurn mixer))

/-- The listeners registered with a mixer, by the changes of registries so far. -/
def listenersStanding (mixer : Nat) (events : List RegistryEvent) : List Nat :=
  standing (events.filterMap (listenerTurn mixer))

private theorem filter_absent {names : List Nat} {who : Nat} (absent : who ∉ names) :
    names.filter (· != who) = names := by
  simp only [List.filter_eq_self, bne_iff_ne]
  rintro name member rfl
  exact absent member

section
variable {before after : Exchange} {event? : Option RegistryEvent} {past : List RegistryEvent}

theorem moved_sources (moved : Moved before after event?)
    (told : attachedTo before mixer = sourcesStanding mixer past) :
    attachedTo after mixer = sourcesStanding mixer (past ++ event?.toList) := by
  unfold sourcesStanding at told ⊢
  cases moved with
  | still unmoved => simpa [unmoved.sources] using told
  | @attached place identity fresh sources same =>
    rw [sources, Function.update_apply]
    by_cases here : mixer = place
    · subst here
      rw [told] at fresh ⊢
      simp [sourceTurn, standing_snoc, filter_absent fresh]
    · simp [here, sourceTurn, Ne.symm here, told]
  | @detached place identity known sources same =>
    rw [sources, Function.update_apply]
    by_cases here : mixer = place
    · subst here
      simp [sourceTurn, standing_snoc, told]
    · simp [here, sourceTurn, Ne.symm here, told]
  | joined _ _ _ _ _ settled | left _ _ _ _ settled | orphaned _ _ _ _ _ settled
  | excluded _ _ _ settled =>
    simpa [settled.sources, List.filterMap_cons, sourceTurn] using told

theorem moved_listeners (moved : Moved before after event?)
    (told : (registeredWith before mixer).map Registered.listener =
      listenersStanding mixer past) :
    (registeredWith after mixer).map Registered.listener =
      listenersStanding mixer (past ++ event?.toList) := by
  unfold listenersStanding at told ⊢
  cases moved with
  | still unmoved => simpa [unmoved.registered] using told
  | attached _ _ same | detached _ _ same =>
    simpa [same.registered, List.filterMap_cons, listenerTurn] using told
  | @joined place listener ids fresh own registered =>
    rw [registered, Function.update_apply]
    by_cases here : mixer = place
    · subst here
      rw [told] at fresh
      simp [listenerTurn, standing_snoc, told, filter_absent fresh]
    · simp [here, listenerTurn, Ne.symm here, told]
  | @left place listener known registered =>
    rw [registered, Function.update_apply]
    by_cases here : mixer = place
    · subst here
      simp [listenerTurn, standing_snoc, ← told, List.filter_map, Function.comp_def]
    · simp [here, listenerTurn, Ne.symm here, told]
  | orphaned _ _ registered => simpa [registered] using told
  | excluded registered =>
    rw [excluded_names registered]
    simpa [List.filterMap_cons, listenerTurn] using told

/-- In the course of a run every registry lists, in order, those who came and did not go since. -/
theorem registry_order (course : Course Exchange.empty deeds exchange) (mixer : Nat) :
    attachedTo exchange mixer = sourcesStanding mixer (events deeds) ∧
      (registeredWith exchange mixer).map Registered.listener =
        listenersStanding mixer (events deeds) := by
  induction course with
  | nil => exact ⟨rfl, rfl⟩
  | interlude _ interlude ih =>
    have unmoved := interlude_unmoved interlude
    rwa [unmoved.sources, unmoved.registered]
  | deed earlier plain ih =>
    have moved := plain_faithful (moves_orderly (course_moves earlier)) plain
    rw [events_snoc]
    exact ⟨moved_sources moved ih.1, moved_listeners moved ih.2⟩

end

end Conference.RegistryOrder
