import Conference.Proofs.CycleCourse
import Conference.Proofs.DeliveryAccounts

/-! A listener that a cycle feeds. Among what it goes through there is its share of the cycle; and if
it goes through nothing else until it is read, be it because of handlers or in between, then its
share is what the read finds. -/
namespace Conference.FedOnce
open Exchange ExchangeCourse ExchangeDealings DeliveryAccounts CycleCourse ExchangeInvariants

variable {before middle after exchange : Exchange} {place mixer : Nat}

/-! ## What a listener goes through -/

/-- What a piece of a run means to a listener. -/
inductive Went (place : Nat) (before after : Exchange) : Prop where
  | spared (same : occasions place after = occasions place before)
      (waiting : waitingAt after place = waitingAt before place) : Went place before after
  | occasion (told : occasions place after = occasions place before ++ [last]) :
      Went place before after
  /-- There was no room for a read. -/
  | starved (same : occasions place after = occasions place before)
      (exhausted : after.exhausted = true) : Went place before after

private theorem occasions_note (place : Nat) (exchange : Exchange) (entry : Entry) :
    occasions place (exchange.note entry) =
      occasions place exchange ++ (Occasion.ofEntry? place entry).toList := by
  cases told : Occasion.ofEntry? place entry <;> simp [occasions, note, told]

private theorem waiting_of_listeners (same : after.listeners = before.listeners) (place : Nat) :
    waitingAt after place = waitingAt before place := by
  rw [waitingAt, RegistryEvents.ofListener, same]
  rfl

private theorem waiting_elsewhere (apart : other ≠ place) (change : Listener → Listener) :
    waitingAt (exchange.updateListener other change) place = waitingAt exchange place := by
  simp only [waitingAt, RegistryEvents.ofListener, updateListener, Array.getElem?_modify,
    if_neg apart]

private theorem read_went (other : Nat) : Went place exchange (exchange.read other).2 := by
  have recorded (reading : Listener) (heard : Heard) (exchange : Exchange) :
      (exchange.recordRead reading heard).journal = exchange.journal ∧
        (exchange.recordRead reading heard).listeners = exchange.listeners := by
    unfold recordRead
    split
    · exact ⟨rfl, rfl⟩
    · cases heard <;> exact ⟨rfl, rfl⟩
  unfold Exchange.read
  split
  · exact .spared rfl rfl
  · rename_i reading _
    simp only
    split
    · exact .starved rfl (Bool.or_true _)
    · rename_i heard _
      obtain ⟨journal, listeners⟩ := recorded reading heard
        (exchange.updateListener other fun found => { found with pending := none })
      have earlier : occasions place ((exchange.updateListener other fun found =>
          { found with pending := none }).recordRead reading heard) =
            occasions place exchange := by
        rw [occasions, journal]
        rfl
      have told := occasions_note place ((exchange.updateListener other fun found =>
        { found with pending := none }).recordRead reading heard) (.heard other heard)
      rw [earlier] at told
      by_cases here : other = place
      · rw [Occasion.ofEntry?, if_pos here] at told
        exact .occasion told
      · rw [Occasion.ofEntry?, if_neg here] at told
        refine .spared (told.trans (List.append_nil _)) ?_
        exact (waiting_of_listeners listeners place).trans (waiting_elsewhere here _)

theorem offer_occasions (source : Nat) (samples : List Sample) (place : Nat) :
    occasions place (exchange.offer source samples).2 = occasions place exchange := by
  unfold Exchange.offer
  split
  · rfl
  · rw [occasions_note]
    exact List.append_nil _

private theorem dealing_went (dealing : Dealing spared before after) : Went place before after := by
  cases dealing with
  | offer =>
    refine .spared (offer_occasions _ _ place) ?_
    unfold Exchange.offer
    split <;> rfl
  | draw =>
    unfold Exchange.draw
    split
    · exact .spared rfl rfl
    · refine .spared ?_ rfl
      rw [occasions_note]
      exact List.append_nil _
  | @hand _ other input giver =>
    have told := occasions_note place (before.updateListener other fun found =>
      { found with pending := some input }) (.fed other giver input)
    by_cases here : other = place
    · rw [Occasion.ofEntry?, if_pos here] at told
      exact .occasion told
    · rw [Occasion.ofEntry?, if_neg here] at told
      exact .spared (told.trans (List.append_nil _)) (waiting_elsewhere here _)
  | read => exact read_went _
  | forget => exact .spared rfl rfl
  | other undealt =>
    obtain ⟨entries, journal, neutral⟩ := undealt.journal
    refine .spared ?_ (congrFun undealt.waiting place)
    have silent : entries.filterMap (Occasion.ofEntry? place) = [] := by
      rw [List.filterMap_eq_nil_iff]
      intro entry member
      have told := neutral entry member
      cases entry with
      | fed | heard => cases told
      | _ => rfl
    rw [occasions, journal, List.filterMap_append, silent, List.append_nil]
    rfl

/-- What a listener went through is not forgotten, and while nothing is added to it the listener keeps
what waits for it. -/
def Since (place : Nat) (before after : Exchange) : Prop :=
  ∃ since, occasions place after = occasions place before ++ since ∧
    (since = [] → after.exhausted = false → waitingAt after place = waitingAt before place)

private theorem since_dealing (since : Since place before middle)
    (dealing : Dealing none middle after)
    (lasts : after.exhausted = false → middle.exhausted = false) : Since place before after := by
  obtain ⟨since, told, still⟩ := since
  cases (dealing_went dealing : Went place middle after) with
  | spared same waiting =>
    refine ⟨since, same.trans told, fun none sufficed => ?_⟩
    rw [waiting, still none (lasts sufficed)]
  | occasion added =>
    refine ⟨since ++ [_], by rw [added, told, List.append_assoc], fun none => ?_⟩
    exact absurd none (List.append_ne_nil_of_right_ne_nil _ (List.cons_ne_nil _ _))
  | starved same exhausted =>
    refine ⟨since, same.trans told, fun _ sufficed => ?_⟩
    rw [exhausted] at sufficed
    cases sufficed

theorem chronicled_since (chronicled : Chronicled before after) (place : Nat) :
    Since place before after := by
  obtain ⟨deeds, chronicle⟩ := chronicled
  induction chronicle with
  | nil => exact ⟨[], (List.append_nil _).symm, fun _ _ => rfl⟩
  | deed _ plain ih =>
    refine since_dealing ih (plain_dealt plain nofun) ?_
    exact chronicled_sufficed (chronicled_deed plain idle)
  | passage _ passage ih =>
    exact since_dealing ih (passage_dealt passage) (chronicled_sufficed (chronicled_passage passage))

/-! ## Being fed -/

/-- An exchange once a listener was handed its input, before its handler is called. -/
def handed (place : Nat) (giver : Option Nat) (input : Pending) (exchange : Exchange) : Exchange :=
  (exchange.updateListener place fun found => { found with pending := some input }).note
    (.fed place giver input)

section
variable {notify : Notify} (told : Told notify)
include told

private theorem hand_told (place : Nat) (giver : Option Nat) (input : Pending)
    (exchange : Exchange) :
    Chronicled (handed place giver input exchange) (exchange.hand notify place giver input) := by
  unfold Exchange.hand
  simp only
  split
  · exact chronicled_refl
  · exact told _ _ _

private theorem feed_told (entries : List Registered) (exchange : Exchange) :
    Chronicled exchange (feed notify cycle speeches entries exchange) :=
  chronicled_iff_recorded.mpr
    (feed_recorded (fun _ _ _ => chronicled_iff_recorded.mp (told _ _ _)) entries)

/-- In the course of feeding a registry each of its listeners is handed its share. -/
private theorem feed_hands (member : entry ∈ entries) (exchange : Exchange) :
    ∃ middle, Chronicled exchange middle ∧
      Chronicled (handed entry.listener (some cycle) (share speeches entry) middle)
        (feed notify cycle speeches entries exchange) := by
  induction entries generalizing exchange with
  | nil => cases member
  | cons first rest ih =>
    rw [feed_cons]
    have given := hand_told told first.listener (some cycle) (share speeches first) exchange
    rcases List.mem_cons.mp member with rfl | later
    · exact ⟨exchange, chronicled_refl, chronicled_trans given (feed_told told rest _)⟩
    · obtain ⟨middle, before, after⟩ := ih later
        (exchange.hand notify first.listener (some cycle) (share speeches first))
      exact ⟨middle, chronicled_trans (chronicled_trans (chronicled_passage .hand) given) before,
        after⟩

omit told in
/-- A cycle reads its sources and begins, and its mixer is alive all the time. -/
private theorem opened_held (live : exchange.liveMixer? mixer = some found) (places : List Nat) :
    Chronicled exchange ((opened mixer found exchange).holding ⟨[mixer], places⟩) := by
  have read : Chronicled exchange (drawAll found.sources exchange).2 :=
    chronicled_iff_recorded.mpr (draw_all_recorded found.sources)
  have counted : (drawAll found.sources exchange).2.cycles = exchange.cycles :=
    ExchangeMoves.draw_all_closed ExchangeMoves.cycles_closed found.sources
  have begun : Chronicled (drawAll found.sources exchange).2 (opened mixer found exchange) := by
    have passage := chronicled_passage (.begin mixer (spoken found.sources exchange.sources) :
      Passage (drawAll found.sources exchange).2 _)
    rwa [counted] at passage
  have alive : (opened mixer found exchange).liveMixer? mixer = some found :=
    (draw_all_live found.sources mixer).trans live
  refine chronicled_trans (chronicled_trans read begun) (chronicled_passage (.hold _ ?_))
  intro one member
  cases List.mem_singleton.mp member
  rw [alive]
  rfl

/-- So it is in the course of a cycle in which any source speaks. -/
theorem cycle_hands (live : exchange.liveMixer? mixer = some found)
    (running : found.stopped = false) (somebody : spoken found.sources exchange.sources ≠ [])
    (member : entry ∈ found.listeners) :
    ∃ middle, Chronicled exchange middle ∧
      Chronicled (handed entry.listener (some exchange.cycles)
          (share (spoken found.sources exchange.sources) entry) middle)
        (runCycle notify mixer exchange).2 := by
  have there := (Option.filter_eq_some_iff.mp live).1
  obtain ⟨middle, before, after⟩ := feed_hands told member
    ((opened mixer found exchange).holding ⟨[mixer], found.listeners.map Registered.listener⟩)
  refine ⟨middle, chronicled_trans (opened_held live _) before, ?_⟩
  rw [run_cycle_heard there running rfl somebody]
  exact chronicled_trans after
    (chronicled_trans (chronicled_passage .finish) (chronicled_passage .release))

end

/-! ## Being read -/

theorem chronicled_format (chronicled : Chronicled before after)
    (known : listenerFormat? before place = some format) :
    listenerFormat? after place = some format := by
  obtain ⟨deeds, chronicle⟩ := chronicled
  have dealings : Relation.ReflTransGen (Dealing none) before after :=
    chronicle_dealt chronicle nofun
  clear chronicle
  induction dealings with
  | refl => exact known
  | tail _ dealing ih => exact (dealing_enduring dealing).listenerFormat ih

/-- A listener whose format is known is there. -/
theorem listener_of_format (known : listenerFormat? exchange place = some format) :
    ∃ listening, exchange.listeners[place]? = some listening ∧ listening.format = format := by
  unfold listenerFormat? RegistryEvents.ofListener at known
  cases there : exchange.listeners[place]? with
  | none => simp [there] at known
  | some listening =>
    rw [there] at known
    exact ⟨listening, rfl, Option.some.inj known⟩

private theorem handed_occasions (place : Nat) (giver : Option Nat) (input : Pending)
    (exchange : Exchange) :
    occasions place (handed place giver input exchange) =
      occasions place exchange ++ [.fed input] := by
  rw [handed, occasions_note, Occasion.ofEntry?, if_pos rfl]
  rfl

private theorem handed_waits (known : listenerFormat? exchange place = some format) :
    waitingAt (handed place giver input exchange) place = some input := by
  obtain ⟨listening, there, -⟩ := listener_of_format known
  simp [waitingAt, RegistryEvents.ofListener, handed, note, updateListener,
    Array.getElem?_modify, there]

/-- A listener of a registry that a cycle feeds, and that goes through nothing else until `later`,
finds its share of the cycle there. -/
theorem share_waits {notify : Notify} (told : Told notify)
    (live : exchange.liveMixer? mixer = some found)
    (running : found.stopped = false) (somebody : spoken found.sources exchange.sources ≠ [])
    (member : entry ∈ found.listeners)
    (known : listenerFormat? exchange entry.listener = some format)
    (next : Chronicled (runCycle notify mixer exchange).2 later)
    (sufficed : later.exhausted = false)
    (once : (occasions entry.listener later).length =
      (occasions entry.listener exchange).length + 1) :
    ∃ listening, later.listeners[entry.listener]? = some listening ∧ listening.format = format ∧
      listening.pending = some (share (spoken found.sources exchange.sources) entry) := by
  obtain ⟨middle, before, after⟩ := cycle_hands told live running somebody member
  have rest := chronicled_trans after next
  obtain ⟨earlier, toldBefore, -⟩ := chronicled_since before entry.listener
  obtain ⟨since, toldAfter, still⟩ := chronicled_since rest entry.listener
  rw [handed_occasions, toldBefore] at toldAfter
  have nothing : since = [] := by
    rw [toldAfter] at once
    simp only [List.length_append, List.length_singleton] at once
    exact List.length_eq_zero_iff.mp (by omega)
  have form := chronicled_format before known
  have waits := (still nothing sufficed).trans (handed_waits form)
  have kept := chronicled_format (chronicled_trans (chronicled_passage .hand) rest) form
  obtain ⟨listening, there, alike⟩ := listener_of_format kept
  unfold waitingAt RegistryEvents.ofListener at waits
  rw [there] at waits
  exact ⟨listening, there, alike, waits⟩

end Conference.FedOnce
