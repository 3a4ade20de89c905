import Conference.Proofs.CycleNesting

/-! Which cycle's input waits. A listener keeps the input that reached it last, which is that of the
latest cycle as long as cycles do not nest. A nested cycle reads its sources later and feeds
everyone before the cycle around it goes on, and to those whom that one has yet to feed it then
hands its own, older input. Exactly this makes the latest input be lost. -/
namespace Conference.LatestCycle
open Exchange ExchangeMoves CycleNesting

/-- The input that an entry tells of a listener receiving, with the cycle that handed it out. -/
def givenTo (place : Nat) : Entry → Option (Option Nat × Pending)
  | .fed listener cycle input => if listener = place then some (cycle, input) else none
  | _ => none

/-- All that a listener received, in order. -/
def received (place : Nat) (journal : List Entry) : List (Option Nat × Pending) :=
  journal.filterMap (givenTo place)

private theorem received_push (place : Nat) (journal : Array Entry) (entry : Entry) :
    received place (journal.push entry).toList =
      received place journal.toList ++ (givenTo place entry).toList := by
  rw [received, Array.toList_push, List.filterMap_append]
  cases given : givenTo place entry <;> simp [received, given]

/-- Unread input is what the listener received last. -/
def Fresh (exchange : Exchange) : Prop :=
  ∀ (place : Nat) listening input, exchange.listeners[place]? = some listening →
    listening.pending = some input →
    ∃ giver, (received place exchange.journal.toList).getLast? = some (giver, input)

private theorem fresh_same (fresh : Fresh before) (journal : after.journal = before.journal)
    (pending : ∀ (place : Nat) listening input, after.listeners[place]? = some listening →
      listening.pending = some input →
      ∃ earlier, before.listeners[place]? = some earlier ∧ earlier.pending = some input) :
    Fresh after := by
  intro place listening input there waits
  obtain ⟨earlier, held, waited⟩ := pending place listening input there waits
  rw [journal]
  exact fresh place earlier input held waited

private theorem fresh_kept (fresh : Fresh before) (journal : after.journal = before.journal)
    (listeners : after.listeners = before.listeners) : Fresh after := by
  refine fresh_same fresh journal fun place listening input there waits => ?_
  rw [listeners] at there
  exact ⟨listening, there, waits⟩

private theorem fresh_mixers {exchange : Exchange} (fresh : Fresh exchange) :
    Fresh (exchange.updateMixer mixer change) := fresh_kept fresh rfl rfl

private theorem fresh_update {exchange : Exchange} (fresh : Fresh exchange)
    (change : Listener → Listener) (pending : ∀ listening input,
      (change listening).pending = some input → listening.pending = some input) :
    Fresh (exchange.updateListener place change) := by
  refine fresh_same fresh rfl fun other listening input there waits => ?_
  simp only [updateListener, Array.getElem?_modify] at there
  split at there
  · obtain ⟨earlier, held, rfl⟩ := Option.map_eq_some_iff.mp there
    exact ⟨earlier, held, pending earlier input waits⟩
  · exact ⟨listening, there, waits⟩

private theorem fresh_unfed {exchange : Exchange} (fresh : Fresh exchange)
    (apart : ∀ place, givenTo place entry = none) : Fresh (exchange.note entry) := by
  intro place listening input there waits
  obtain ⟨giver, last⟩ := fresh place listening input there waits
  refine ⟨giver, ?_⟩
  rw [note, received_push, apart, Option.toList_none, List.append_nil]
  exact last

/-- Handing input to a listener changes what waits for it and for nobody else. -/
private theorem fresh_handed {exchange : Exchange} (fresh : Fresh exchange) :
    Fresh ((exchange.updateListener place fun found =>
      { found with pending := some input }).note (.fed place giver input)) := by
  intro other listening waiting there waits
  simp only [note, updateListener, Array.getElem?_modify] at there
  simp only [note, updateListener, received_push, givenTo]
  split at there
  · rename_i same
    obtain ⟨earlier, -, rfl⟩ := Option.map_eq_some_iff.mp there
    cases waits
    exact ⟨giver, by simp [same]⟩
  · rename_i apart
    obtain ⟨origin, last⟩ := fresh other listening waiting there waits
    exact ⟨origin, by simpa [apart] using last⟩

private theorem given_to_aside (aside : isAside entry = true) (place : Nat) :
    givenTo place entry = none := by
  cases entry with
  | began | fed | ended => cases aside
  | _ => rfl

private theorem change_fresh (fresh : Fresh before) (change : Change before after) :
    Fresh after := by
  cases change with
  | dropListener => exact fresh_update fresh _ fun _ _ waits => waits
  | addListener =>
    refine fresh_same fresh rfl fun place listening input there waits => ?_
    simp only [Array.getElem?_push] at there
    split at there
    · cases there
      cases waits
    · exact ⟨listening, there, waits⟩
  | register =>
    rcases register_cases _ _ before with same | ⟨_, same⟩
    · rw [same]
      exact fresh
    · rw [same]
      exact fresh_update (fresh_mixers fresh) _ fun _ _ waits => waits
  | unregister =>
    rcases unregister_cases _ _ before with same | same
    · rw [same]
      exact fresh
    · rw [same]
      exact fresh_update (fresh_mixers fresh) _ fun _ _ waits => waits
  | orphan => exact fresh_update fresh _ fun _ _ waits => waits
  | exclude => exact fresh_update (fresh_mixers fresh) _ fun _ _ waits => waits
  | @setHandler _ place handler =>
    have installed : Fresh { before with handlers := before.handlers.push handler } :=
      fresh_kept fresh rfl rfl
    exact fresh_update installed _ fun _ _ waits => waits
  | clearHandler => exact fresh_update fresh _ fun _ _ waits => waits
  | take => exact fresh_update fresh _ nofun
  | hand => exact fresh_handed fresh
  | note aside => exact fresh_unfed fresh (given_to_aside aside)
  | _ => exact fresh_kept fresh rfl rfl

private theorem turn_fresh (fresh : Fresh before) (turn : Turn before after) : Fresh after := by
  cases turn with
  | begin mixer speeches => exact fresh_unfed fresh fun _ => rfl
  | hand => exact fresh_handed fresh
  | finish => exact fresh_unfed fresh fun _ => rfl

/-- In every state that a run passes through, unread input is what came last. -/
theorem moves_fresh (moves : Relation.ReflTransGen Move Exchange.empty exchange) :
    Fresh exchange := by
  induction moves with
  | refl => exact fun _ _ _ there _ => by cases there
  | tail _ move ih =>
    rcases move with change | turn
    · exact change_fresh ih change
    · exact turn_fresh ih turn

private theorem given_to_cycle (given : givenTo place entry = some (giver, input)) :
    cycleOf entry = giver := by
  cases entry with
  | fed listener cycle waiting =>
    simp only [givenTo] at given
    split at given
    · cases given
      rfl
    · cases given
  | _ => cases given

/-- A listener receives an older cycle's input after a newer one's only where the newer cycle ran
inside the older one. -/
theorem received_order {journal : List Entry} (passed : Passed none 0 journal next)
    (place : Nat) : (received place journal).Pairwise fun earlier later =>
      ∀ newer older, earlier.1 = some newer → later.1 = some older → older < newer →
        RanInside journal newer older := by
  refine (passed_in_order passed nofun (List.infix_refl journal)).filterMap _ ?_
  rintro earlier later ordered ⟨one, _⟩ oneGiven ⟨two, _⟩ twoGiven newer older rfl rfl above
  rcases ordered newer older (given_to_cycle oneGiven) (given_to_cycle twoGiven) above with
    nowhere | ran
  · cases nowhere
  · exact ran

/-- Between the operations of a run, where a listener was fed by cycles only: its unread input
comes from the cycle that fed it last, and that is the latest that fed it exactly when none of
those that ran inside it fed it too. -/
theorem latest_cycle_iff {exchange : Exchange} (leads : Leads Exchange.empty exchange)
    (only : ∀ input, (none, input) ∉ received place exchange.journal.toList)
    (there : exchange.listeners[place]? = some listening)
    (waits : listening.pending = some input) :
    ∃ cycle, (received place exchange.journal.toList).getLast? = some (some cycle, input) ∧
      ((∀ other given, (some other, given) ∈ received place exchange.journal.toList →
          other ≤ cycle) ↔
        ¬ ∃ newer given, (some newer, given) ∈ received place exchange.journal.toList ∧
          RanInside exchange.journal.toList newer cycle) := by
  obtain ⟨trace, written, passed⟩ := kept_of_leads continues_kept leads
  have whole : exchange.journal.toList = trace := written.trans (List.nil_append trace)
  rw [← whole] at passed
  obtain ⟨giver, last⟩ := moves_fresh (kept_of_leads moves_kept leads) place listening input
    there waits
  cases giver with
  | none => exact absurd (List.mem_of_getLast? last) (only input)
  | some cycle =>
    refine ⟨cycle, last, fun latest => ?_, fun apart other given member => ?_⟩
    · rintro ⟨newer, given, member, inside⟩
      have below := latest newer given member
      have above := ran_inside_later passed inside
      omega
    · by_contra above
      obtain ⟨earlier, split⟩ := List.getLast?_eq_some_iff.mp last
      have ordered := received_order passed place
      rw [split] at ordered member
      rcases List.mem_append.mp member with before | here
      · have ran := (List.pairwise_append.mp ordered).2.2 _ before _ List.mem_cons_self other
          cycle rfl rfl (Nat.lt_of_not_le above)
        exact apart ⟨other, given, by rw [split]; exact List.mem_append_left _ before, ran⟩
      · cases List.mem_singleton.mp here
        exact above (Nat.le_refl _)

/-- Two listeners of one mixer; fed with a sample, the first pushes another. -/
def echoed : Exchange := (Exchange.empty.run [.addMixer .pcm16, .addQueue 1 8, .attach 0 0,
  .addListener 0 [], .addListener 0 [], .start 0, .start 1,
  .runOnInput 0 1 [.push 0 0 [9]], .push 0 0 [1]]).2

private theorem echoed_waits : ∃ listening, echoed.listeners[1]? = some listening ∧
    listening.pending = some ⟨[[1]], 1⟩ := by
  have waits : (echoed.listeners[1]?).map Listener.pending = some (some ⟨[[1]], 1⟩) := by
    decide +kernel
  exact Option.map_eq_some_iff.mp waits

private theorem echoed_received : received 1 echoed.journal.toList =
    [(some 1, ⟨[[9]], 1⟩), (some 0, ⟨[[1]], 1⟩)] := by decide +kernel

private theorem echoed_leads : Leads Exchange.empty echoed := by
  unfold echoed
  exact run_leads _

theorem newer_cycle_inside : ∃ newer given,
    (some newer, given) ∈ received 1 echoed.journal.toList ∧
      RanInside echoed.journal.toList newer 0 := by
  obtain ⟨listening, there, waits⟩ := echoed_waits
  have only : ∀ input, (none, input) ∉ received 1 echoed.journal.toList := by
    simp [echoed_received]
  obtain ⟨cycle, last, exact⟩ := latest_cycle_iff echoed_leads only there waits
  rw [echoed_received] at last
  cases last
  by_contra apart
  have latest := exact.mpr apart 1 ⟨[[9]], 1⟩ (by simp [echoed_received])
  omega

/-- The second listener is left with the sample that was pushed first, although the cycle that
handed it the other one had read it later. -/
theorem older_input_replaces_newer :
    ¬ ∀ (exchange : Exchange) (place : Nat) (listening : Listener) (input : Pending),
      Leads Exchange.empty exchange →
      (∀ given, (none, given) ∉ received place exchange.journal.toList) →
      exchange.listeners[place]? = some listening → listening.pending = some input →
      ∃ cycle, (some cycle, input) ∈ received place exchange.journal.toList ∧
        ∀ other given, (some other, given) ∈ received place exchange.journal.toList →
          other ≤ cycle := by
  intro wins
  obtain ⟨listening, there, waits⟩ := echoed_waits
  obtain ⟨cycle, member, latest⟩ := wins echoed 1 listening _ echoed_leads
    (by simp [echoed_received]) there waits
  have newest := latest 1 ⟨[[9]], 1⟩ (by simp [echoed_received])
  have oldest : cycle = 0 := by simpa [echoed_received] using member
  omega

end Conference.LatestCycle
