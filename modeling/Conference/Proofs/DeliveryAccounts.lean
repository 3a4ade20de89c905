import Mathlib.Data.List.Induction
import Conference.Proofs.ExchangeDealings
import Conference.Proofs.ListenerReads

/-! The accounts that a mixer keeps of its listeners. As long as it lives and nobody makes it forget
them, it counts every read of a listener it created, in or outside of handlers, once and for what it
was: a frame, nothing, or a failure, which it does not count. A listener gives at most one frame for
an input, before it is fed again, and so in the order of the inputs. -/
namespace Conference.DeliveryAccounts
open Exchange ExchangeMoves ExchangeInvariants ExchangeCourse RegistryEvents ExchangeDealings
open MixSemantics PcmRoundTrip

/-! ## Reads and inputs -/

/-- The read of a listener that an entry of the journal tells of, with what it found. -/
def reading? : Entry → Option (Nat × Heard)
  | .heard listener heard => some (listener, heard)
  | _ => none

def readings (exchange : Exchange) : List (Nat × Heard) :=
  exchange.journal.toList.filterMap reading?

/-- What reads of the listeners found that a mixer created. -/
def heardFrom (mixer : Nat) (exchange : Exchange) : List Heard :=
  ((readings exchange).filter fun reading => homeOf? exchange reading.1 == some mixer).map Prod.snd

def frame? : Heard → Option (List UInt8)
  | .frame bytes => some bytes
  | _ => none

/-- The frames among what was heard. -/
def frames (heard : List Heard) : List (List UInt8) := heard.filterMap frame?

/-- What a listener goes through: it is fed, by a cycle or from outside, and it is read. -/
inductive Occasion where
  | fed (input : Pending)
  | heard (heard : Heard)

namespace Occasion

def ofEntry? (listener : Nat) : Entry → Option Occasion
  | .fed place _ input => if place = listener then some (fed input) else none
  | .heard place found => if place = listener then some (heard found) else none
  | _ => none

def input? : Occasion → Option Pending
  | fed input => some input
  | heard _ => none

def heard? : Occasion → Option Heard
  | fed _ => none
  | heard found => some found

end Occasion

def occasions (listener : Nat) (exchange : Exchange) : List Occasion :=
  exchange.journal.toList.filterMap (Occasion.ofEntry? listener)

def inputs (occasions : List Occasion) : List Pending := occasions.filterMap Occasion.input?

def heardIn (occasions : List Occasion) : List Heard := occasions.filterMap Occasion.heard?

/-- The frame that an input gives, if it gives one. -/
def due? (format : SampleFormat) (input : Pending) : Option (List UInt8) :=
  if input.isSilent then none else (input.render format).toOption

/-- Every frame was heard right after an input that gives it, so that no input gives two. -/
def Prompt (format : SampleFormat) (occasions : List Occasion) : Prop :=
  ∀ earlier bytes, earlier ++ [.heard (.frame bytes)] <+: occasions →
    ∃ before input, earlier = before ++ [.fed input] ∧ due? format input = some bytes

/-- Whether a mixer was let go and no running operation refers to it. -/
def Perished (exchange : Exchange) (mixer : Nat) : Prop :=
  gone exchange mixer = true ∧ keptBusy exchange mixer = false

/-- A listener that was read is there. -/
def Known (exchange : Exchange) : Prop :=
  ∀ reading ∈ readings exchange, (homeOf? exchange reading.1).isSome

/-- The account of a mixer agrees with what its listeners heard. -/
structure Tallied (mixer : Nat) (exchange : Exchange) : Prop where
  frames : (accountOf exchange mixer).frames = (frames (heardFrom mixer exchange)).length
  samples : ∀ format, mixerFormat? exchange mixer = some format →
    (accountOf exchange mixer).samples * format.bytesPerSample =
      (DeliveryAccounts.frames (heardFrom mixer exchange)).flatten.length
  underruns : (accountOf exchange mixer).underruns = (heardFrom mixer exchange).count .nothing

/-- What waits at a listener was the last thing that it went through. -/
structure InTurn (listener : Nat) (exchange : Exchange) : Prop where
  waiting : ∀ input, waitingAt exchange listener = some input →
    ∃ before, occasions listener exchange = before ++ [.fed input]
  prompt : ∀ format, listenerFormat? exchange listener = some format →
    Prompt format (occasions listener exchange)

variable {mixer listener place : Nat} {before after exchange : Exchange}

/-! ## What a listener goes through -/

private theorem prompt_snoc {earlier : List Occasion} {last : Occasion}
    (prompt : Prompt format earlier)
    (due : ∀ bytes, last = .heard (.frame bytes) →
      ∃ before input, earlier = before ++ [.fed input] ∧ due? format input = some bytes) :
    Prompt format (earlier ++ [last]) := by
  intro first bytes within
  rcases List.prefix_concat_iff.mp within with whole | old
  · obtain ⟨same, final⟩ := List.append_inj' whole rfl
    rw [same]
    exact due bytes (List.singleton_inj.mp final).symm
  · exact prompt first bytes old

private theorem frames_snoc (earlier : List Heard) (heard : Heard) :
    frames (earlier ++ [heard]) = frames earlier ++ (frame? heard).toList := by
  cases found : frame? heard <;> simp [frames, found]

/-- Frames that come promptly are those of some inputs, each taken once and in order. An input that
was the last of all has not given one yet. -/
private theorem prompt_in_order {occasions : List Occasion} (prompt : Prompt format occasions) :
    (frames (heardIn occasions)).Sublist ((inputs occasions).filterMap (due? format)) ∧
      ∀ before input, occasions = before ++ [.fed input] →
        (frames (heardIn occasions)).Sublist ((inputs before).filterMap (due? format)) := by
  induction occasions using List.reverseRecOn with
  | nil => exact ⟨List.nil_sublist _, fun _ _ _ => List.nil_sublist _⟩
  | append_singleton earlier last ih =>
    obtain ⟨order, fresh⟩ := ih fun first bytes within =>
      prompt first bytes (within.trans (List.prefix_append _ _))
    cases last with
    | fed input =>
      have same : heardIn (earlier ++ [.fed input]) = heardIn earlier := by
        simp [heardIn, Occasion.heard?]
      have more : inputs (earlier ++ [.fed input]) = inputs earlier ++ [input] := by
        simp [inputs, Occasion.input?]
      rw [same, more, List.filterMap_append]
      constructor
      · exact order.trans (List.sublist_append_left _ _)
      · intro before other whole
        rw [← (List.append_inj' whole rfl).1]
        exact order
    | heard found =>
      have same : inputs (earlier ++ [.heard found]) = inputs earlier := by
        simp [inputs, Occasion.input?]
      have more : heardIn (earlier ++ [.heard found]) = heardIn earlier ++ [found] := by
        simp [heardIn, Occasion.heard?]
      rw [same, more, frames_snoc]
      constructor
      · cases given : frame? found with
        | none =>
          rw [Option.toList_none, List.append_nil]
          exact order
        | some bytes =>
          have frame : found = .frame bytes := by
            cases found <;> simp_all [frame?]
          subst frame
          obtain ⟨before, input, rfl, due⟩ := prompt earlier bytes (List.prefix_refl _)
          have last : (inputs (before ++ [.fed input])).filterMap (due? format) =
              (inputs before).filterMap (due? format) ++ [bytes] := by
            simp [inputs, Occasion.input?, due]
          rw [last]
          exact (fresh before input rfl).append (List.Sublist.refl _)
      · intro before input whole
        cases List.singleton_inj.mp (List.append_inj' whole rfl).2

/-! ## What a read finds -/

private theorem heard_due (card : Listener) :
    frame? card.heard = card.pending.bind (due? card.format) := by
  unfold Listener.heard
  cases card.pending with
  | none => rfl
  | some input =>
    simp only [Option.bind_some, due?]
    split
    · rfl
    · cases input.render card.format <;> rfl

/-- A mix has as many samples as its input is long, each as wide as the format says. -/
theorem render_length {input : Pending} (rendered : input.render format = .ok bytes) :
    input.length * format.bytesPerSample = bytes.length := by
  unfold Pending.render at rendered
  cases valid : format.validate with
  | error e => simp [mix, valid] at rendered
  | ok limit =>
    rw [mix_eq valid] at rendered
    simp only [Pcm.encode] at rendered
    split at rendered
    · cases rendered
    · rename_i width codec
      cases rendered
      have wide : format.bytesPerSample = width := by
        unfold SampleFormat.bytesPerSample
        obtain ⟨-, ⟨sixteen, rfl⟩ | ⟨full, rfl⟩⟩ := width_cases codec
        · rw [sixteen]; rfl
        · rw [full]; rfl
      rw [length_written, List.length_map, List.length_range, wide]

private theorem heard_length {card : Listener} (heard : card.heard = .frame bytes) :
    (card.pending.map Pending.length).getD 0 * card.format.bytesPerSample = bytes.length := by
  have due := heard_due card
  rw [heard] at due
  obtain ⟨input, waits, given⟩ := Option.bind_eq_some_iff.mp due.symm
  rw [waits, Option.map_some, Option.getD_some]
  unfold due? at given
  split at given
  · cases given
  · apply render_length
    cases rendered : input.render card.format with
    | error e => simp [rendered, Except.toOption] at given
    | ok mixed =>
      rw [rendered] at given
      cases given
      rfl

/-! ## What is no read -/

/-- Nothing was read, and the account of a mixer is as it was. -/
structure Unread (mixer : Nat) (before after : Exchange) : Prop extends Enduring before after where
  readings : readings after = readings before
  account : accountOf after mixer = accountOf before mixer

private theorem perished_lasts (enduring : Enduring before after)
    (perished : Perished before mixer) : Perished after mixer := by
  obtain ⟨away, still⟩ := perished
  refine ⟨enduring.gone away, ?_⟩
  by_contra busy
  rw [Bool.not_eq_false] at busy
  rw [enduring.idle away busy] at still
  cases still

private theorem heard_from_same (known : Known before) (enduring : Enduring before after)
    (same : readings after = readings before) (mixer : Nat) :
    heardFrom mixer after = heardFrom mixer before := by
  unfold heardFrom
  rw [same]
  congr 1
  apply List.filter_congr
  intro reading member
  obtain ⟨home, there⟩ := Option.isSome_iff_exists.mp (known reading member)
  rw [there, enduring.home there]

private theorem unread_known (known : Known before) (unread : Unread mixer before after) :
    Known after := by
  intro reading member
  rw [unread.readings] at member
  obtain ⟨home, there⟩ := Option.isSome_iff_exists.mp (known reading member)
  rw [unread.home there]
  rfl

private theorem account_absent (absent : mixerFormat? exchange mixer = none) :
    accountOf exchange mixer = .none := by
  unfold accountOf ofMixer
  unfold mixerFormat? ofMixer at absent
  cases there : exchange.mixers[mixer]? with
  | none => rfl
  | some found => simp [there] at absent

private theorem unread_tallied (known : Known before) (tallied : Tallied mixer before)
    (unread : Unread mixer before after) : Tallied mixer after := by
  have same := heard_from_same known unread.toEnduring unread.readings mixer
  obtain ⟨frames, samples, underruns⟩ := tallied
  constructor
  · rw [unread.account, same]
    exact frames
  · intro format there
    rw [unread.account, same]
    cases earlier : mixerFormat? before mixer with
    | none =>
      -- A mixer that is not there yet has no account, so that no frame was heard from it.
      have untold := account_absent earlier
      rw [untold] at frames ⊢
      rw [List.eq_nil_of_length_eq_zero frames.symm]
      exact Nat.zero_mul _
    | some found =>
      cases there.symm.trans (unread.mixerFormat earlier)
      exact samples format earlier
  · rw [unread.account, same]
    exact underruns

/-- A listener that is not there yet was not read. -/
private theorem absent_unheard (known : Known exchange)
    (absent : listenerFormat? exchange listener = none) (heard : Heard) :
    .heard heard ∉ occasions listener exchange := by
  intro member
  obtain ⟨entry, told, found⟩ := List.mem_filterMap.mp member
  have entered : entry = .heard listener heard := by
    cases entry <;> simp_all [Occasion.ofEntry?]
  subst entered
  have there := known (listener, heard) (List.mem_filterMap.mpr ⟨_, told, rfl⟩)
  unfold homeOf? ofListener at there
  unfold listenerFormat? ofListener at absent
  cases held : exchange.listeners[listener]? with
  | none => simp [held] at there
  | some card => simp [held] at absent

/-- A listener that was neither fed nor read stays as it was. -/
private theorem unfed_in_turn (known : Known before) (turn : InTurn listener before)
    (enduring : Enduring before after)
    (same : occasions listener after = occasions listener before)
    (waiting : waitingAt after listener = waitingAt before listener) :
    InTurn listener after := by
  constructor
  · rw [same, waiting]
    exact turn.waiting
  · intro format there
    rw [same]
    cases earlier : listenerFormat? before listener with
    | none =>
      intro first bytes within
      have member := within.subset (List.mem_append_right first List.mem_cons_self)
      exact absurd member (absent_unheard known earlier _)
    | some found =>
      cases there.symm.trans (enduring.listenerFormat earlier)
      exact turn.prompt format earlier

/-! ## Pieces of a run -/

/-- The accounts of a mixer and of all listeners. -/
structure Accounted (mixer : Nat) (exchange : Exchange) : Prop where
  known : Known exchange
  tallied : ¬Perished exchange mixer → Tallied mixer exchange
  turn : ∀ listener, InTurn listener exchange

private theorem unread_accounted (accounted : Accounted mixer before)
    (unread : Unread mixer before after)
    (turn : ∀ listener, InTurn listener before → InTurn listener after) :
    Accounted mixer after := by
  obtain ⟨known, tallied, inTurn⟩ := accounted
  refine ⟨unread_known known unread, ?_, fun listener => turn listener (inTurn listener)⟩
  intro alive
  exact unread_tallied known (tallied (mt (perished_lasts unread.toEnduring) alive)) unread

/-- Nothing that leaves reads, inputs and the account alone upsets it. -/
private theorem calm_accounted (accounted : Accounted mixer before)
    (enduring : Enduring before after) (account : accountOf after mixer = accountOf before mixer)
    (waiting : waitingAt after = waitingAt before)
    (journal : ∃ entries, after.journal.toList = before.journal.toList ++ entries ∧
      ∀ entry ∈ entries, ∀ listener, Occasion.ofEntry? listener entry = none) :
    Accounted mixer after := by
  obtain ⟨entries, journal, silent⟩ := journal
  have read : readings after = readings before := by
    have none : entries.filterMap reading? = [] := by
      rw [List.filterMap_eq_nil_iff]
      intro entry member
      cases entry with
      | heard place => simpa [Occasion.ofEntry?] using silent _ member place
      | _ => rfl
    rw [readings, journal, List.filterMap_append, none, List.append_nil, readings]
  apply unread_accounted accounted ⟨enduring, read, account⟩
  intro listener turn
  apply unfed_in_turn accounted.known turn enduring
  · have none : entries.filterMap (Occasion.ofEntry? listener) = [] :=
      List.filterMap_eq_nil_iff.mpr fun entry member => silent entry member listener
    rw [occasions, journal, List.filterMap_append, none, List.append_nil, occasions]
  · rw [waiting]

private theorem offer_accounted (accounted : Accounted mixer before) :
    Accounted mixer (before.offer source samples).2 := by
  have enduring : Enduring before (before.offer source samples).2 :=
    dealing_enduring (Dealing.offer : Dealing none _ _)
  unfold Exchange.offer at enduring ⊢
  split
  · exact accounted
  · rename_i there
    rw [there] at enduring
    apply calm_accounted accounted enduring rfl rfl
    exact ⟨[_], Array.toList_push, by simp [Occasion.ofEntry?]⟩

private theorem draw_accounted (accounted : Accounted mixer before) :
    Accounted mixer (before.draw source).2 := by
  have enduring : Enduring before (before.draw source).2 :=
    dealing_enduring (Dealing.draw : Dealing none _ _)
  unfold Exchange.draw at enduring ⊢
  split
  · exact accounted
  · rename_i there
    rw [there] at enduring
    apply calm_accounted accounted enduring rfl rfl
    exact ⟨[_], Array.toList_push, by simp [Occasion.ofEntry?]⟩

private theorem undealt_accounted (accounted : Accounted mixer before)
    (undealt : Undealt before after) : Accounted mixer after := by
  obtain ⟨entries, journal, neutral⟩ := undealt.journal
  apply calm_accounted accounted undealt.toEnduring (congrFun undealt.account mixer) undealt.waiting
  refine ⟨entries, journal, ?_⟩
  intro entry member
  have silent := neutral entry member
  cases entry with
  | heard | fed => cases silent
  | _ => exact fun _ => rfl

/-- Another mixer may forget its account. -/
private theorem forget_accounted (accounted : Accounted mixer before) (apart : other ≠ mixer) :
    Accounted mixer (before.updateMixer other fun found =>
      { found with stats := found.stats.reset }) := by
  have enduring : Enduring before (before.updateMixer other fun found =>
      { found with stats := found.stats.reset }) :=
    dealing_enduring (Dealing.forget (Option.some_ne_none other) : Dealing none _ _)
  have account : accountOf (before.updateMixer other fun found =>
      { found with stats := found.stats.reset }) mixer = accountOf before mixer := by
    rw [accountOf, of_mixer_update]
    exact Function.update_of_ne (Ne.symm apart) _ _
  apply calm_accounted accounted enduring account rfl
  exact ⟨[], (List.append_nil _).symm, fun _ none => absurd none List.not_mem_nil⟩

/-- A new input takes the place of the one that waited. -/
private theorem hand_accounted (accounted : Accounted mixer before) (place : Nat)
    (giver : Option Nat) (input : Pending) :
    Accounted mixer ((before.updateListener place fun found =>
      { found with pending := some input }).note (.fed place giver input)) := by
  let after := (before.updateListener place fun found =>
      { found with pending := some input }).note (.fed place giver input)
  have enduring : Enduring before after := dealing_enduring (Dealing.hand : Dealing none _ _)
  have read : readings after = readings before := by
    simp [after, readings, note, updateListener, reading?]
  have fed (listener : Nat) : occasions listener after =
      occasions listener before ++ if place = listener then [.fed input] else [] := by
    by_cases here : place = listener <;>
      simp [after, occasions, note, updateListener, Occasion.ofEntry?, here]
  apply unread_accounted accounted ⟨enduring, read, rfl⟩
  intro listener turn
  by_cases here : place = listener
  · subst here
    constructor
    · intro other waits
      have replaced : waitingAt after = Function.update (waitingAt before) place
          (ofListener none (fun _ => some input) before place) := of_listener_update _
      rw [replaced, Function.update_self, ofListener] at waits
      have same : other = input := by
        cases held : before.listeners[place]? with
        | none => simp [held] at waits
        | some card =>
          rw [held] at waits
          exact (Option.some.inj waits).symm
      rw [fed, if_pos rfl, same]
      exact ⟨_, rfl⟩
    · intro format there
      have form : listenerFormat? after = listenerFormat? before := of_listener_same fun _ => rfl
      rw [form] at there
      rw [fed, if_pos rfl]
      apply prompt_snoc (turn.prompt format there)
      intro bytes heard
      cases heard
  · apply unfed_in_turn accounted.known turn enduring
    · rw [fed, if_neg here, List.append_nil]
    · simp [after, waitingAt, ofListener, note, updateListener, Array.getElem?_modify, here]

/-! ### A read -/

/-- What an account comes to by a read of an input of some length. -/
def record (account : Account) (length : Nat) : Heard → Account
  | .nothing => { account with underruns := account.underruns + 1 }
  | .frame _ =>
    { account with frames := account.frames + 1, samples := account.samples + length }
  | .failed _ => account

private theorem record_read_account {card : Listener}
    (live : (exchange.liveMixer? card.mixer).isSome) (heard : Heard) :
    accountOf (exchange.recordRead card heard) card.mixer =
      record (accountOf exchange card.mixer) ((card.pending.map Pending.length).getD 0) heard := by
  obtain ⟨found, lives⟩ := Option.isSome_iff_exists.mp live
  have there := (Option.filter_eq_some_iff.mp lives).1
  simp only [recordRead, lives]
  cases heard with
  | failed => rfl
  | _ =>
    rw [accountOf, of_mixer_update, Function.update_self]
    simp [ofMixer, there, record, Account.ofMixer, Statistics.recordUnderrun,
      Statistics.recordDelivery]

private theorem record_read_other {card : Listener} (apart : card.mixer ≠ mixer) (heard : Heard) :
    accountOf (exchange.recordRead card heard) mixer = accountOf exchange mixer := by
  unfold recordRead
  split
  · rfl
  · cases heard with
    | failed => rfl
    | _ =>
      rw [accountOf, of_mixer_update]
      exact Function.update_of_ne (Ne.symm apart) _ _

private theorem record_read_rest (card : Listener) (heard : Heard) (exchange : Exchange) :
    (exchange.recordRead card heard).listeners = exchange.listeners ∧
      (exchange.recordRead card heard).journal = exchange.journal ∧
      mixerFormat? (exchange.recordRead card heard) = mixerFormat? exchange := by
  unfold recordRead
  split
  · exact ⟨rfl, rfl, rfl⟩
  · cases heard with
    | failed => exact ⟨rfl, rfl, rfl⟩
    | _ => exact ⟨rfl, rfl, of_mixer_same fun _ => rfl⟩

/-- A read that is counted for what it found keeps an account in order. -/
private theorem recorded_tallied (tallied : Tallied mixer before)
    (account : accountOf after mixer = record (accountOf before mixer) length heard)
    (form : mixerFormat? after mixer = mixerFormat? before mixer)
    (more : heardFrom mixer after = heardFrom mixer before ++ [heard])
    (long : ∀ bytes, heard = .frame bytes → ∀ format, mixerFormat? before mixer = some format →
      length * format.bytesPerSample = bytes.length) : Tallied mixer after := by
  obtain ⟨frames, samples, underruns⟩ := tallied
  constructor
  · rw [account, more, frames_snoc, List.length_append, ← frames]
    cases heard <;> rfl
  · intro format there
    rw [form] at there
    rw [account, more, frames_snoc, List.flatten_append, List.length_append, ← samples format there]
    cases heard with
    | nothing | failed => rfl
    | frame bytes =>
      simp only [record, frame?, Option.toList_some, List.flatten_singleton]
      rw [Nat.add_mul, long bytes rfl format there]
  · rw [account, more, List.count_append, ← underruns]
    cases heard <;> rfl

/-- What a read leaves of a listener: its input is used up. -/
structure Taken (place : Nat) (before after : Exchange) : Prop where
  home : homeOf? after = homeOf? before
  form : listenerFormat? after = listenerFormat? before
  waiting : waitingAt after = Function.update (waitingAt before) place none

private theorem take_taken (place : Nat) (exchange : Exchange) :
    Taken place exchange (exchange.updateListener place fun found =>
      { found with pending := none }) := by
  refine ⟨of_listener_same fun _ => rfl, of_listener_same fun _ => rfl, ?_⟩
  rw [waitingAt, of_listener_update, of_listener_default]
  exact fun _ => rfl

private theorem taken_of_listeners (taken : Taken place before middle)
    (listeners : after.listeners = middle.listeners) : Taken place before after := by
  obtain ⟨home, form, waiting⟩ := taken
  refine ⟨?_, ?_, ?_⟩
  · rw [← home]
    funext listener
    simp only [homeOf?, ofListener, listeners]
  · rw [← form]
    funext listener
    simp only [listenerFormat?, ofListener, listeners]
  · rw [← waiting]
    funext listener
    simp only [waitingAt, ofListener, listeners]

/-- Where memory does not suffice for a frame, its input is lost. -/
private theorem starved_in_turn (turn : InTurn listener before) (taken : Taken place before after)
    (same : occasions listener after = occasions listener before) : InTurn listener after := by
  constructor
  · intro input waits
    rw [taken.waiting] at waits
    rw [same]
    by_cases here : listener = place
    · subst here
      rw [Function.update_self] at waits
      cases waits
    · rw [Function.update_of_ne here] at waits
      exact turn.waiting input waits
  · rw [taken.form, same]
    exact turn.prompt

/-- What is read was waiting, and nothing waits after it. -/
private theorem read_in_turn {card : Listener} (turn : InTurn place before)
    (there : before.listeners[place]? = some card) (taken : Taken place before after)
    (more : occasions place after = occasions place before ++ [.heard card.heard]) :
    InTurn place after := by
  constructor
  · intro input waits
    rw [taken.waiting, Function.update_self] at waits
    cases waits
  · intro format formed
    rw [taken.form] at formed
    rw [more]
    apply prompt_snoc (turn.prompt format formed)
    intro bytes heard
    have form : card.format = format := by
      simpa [listenerFormat?, ofListener, there] using formed
    have waits : waitingAt before place = card.pending := by
      simp [waitingAt, ofListener, there]
    have due := heard_due card
    rw [Occasion.heard.inj heard, form, ← waits] at due
    obtain ⟨input, held, given⟩ := Option.bind_eq_some_iff.mp due.symm
    obtain ⟨before, last⟩ := turn.waiting input held
    exact ⟨before, input, last, given⟩

private theorem heard_some {card : Listener} (found : card.heard? = some heard) :
    heard = card.heard := by
  unfold Listener.heard? at found
  dsimp only at found
  split at found
  · exact (Option.some.inj found).symm
  · cases found

/-- A listener was read, and its mixer has counted that if it lives. -/
structure Counted (place : Nat) (card : Listener) (before after : Exchange) : Prop
    extends Taken place before after where
  readings : readings after = readings before ++ [(place, card.heard)]
  occasions : ∀ listener, occasions listener after = occasions listener before ++
    if place = listener then [.heard card.heard] else []
  formats : mixerFormat? after = mixerFormat? before
  account : (before.liveMixer? card.mixer).isSome → accountOf after card.mixer =
    record (accountOf before card.mixer) ((card.pending.map Pending.length).getD 0) card.heard
  others : ∀ mixer, card.mixer ≠ mixer → accountOf after mixer = accountOf before mixer

private theorem read_counted {card : Listener} (there : before.listeners[place]? = some card)
    (found : card.heard? = some heard) : Counted place card before (before.read place).2 := by
  cases heard_some found
  let taken := before.updateListener place fun found => { found with pending := none }
  have after : (before.read place).2 =
      (taken.recordRead card card.heard).note (.heard place card.heard) := by
    simp only [Exchange.read, there, found, taken]
  obtain ⟨listeners, journal, formats⟩ := record_read_rest card card.heard taken
  rw [after]
  refine ⟨taken_of_listeners (take_taken place before) listeners, ?_, ?_, formats, ?_, ?_⟩
  · rw [readings, note, journal, Array.toList_push, List.filterMap_append]
    rfl
  · intro listener
    rw [occasions, note, journal, Array.toList_push, List.filterMap_append]
    by_cases here : place = listener <;>
      simp [Occasion.ofEntry?, here, occasions, taken, updateListener]
  · intro live
    have alive : (taken.liveMixer? card.mixer).isSome := live
    exact record_read_account alive card.heard
  · intro mixer apart
    exact record_read_other apart card.heard

/-- A mixer whose listener is read is there, with the format of the listener, and it lives unless it
has perished. -/
private theorem home_there {card : Listener} (orderly : Orderly exchange)
    (there : exchange.listeners[place]? = some card) :
    mixerFormat? exchange card.mixer = some card.format ∧
      (¬Perished exchange card.mixer → (exchange.liveMixer? card.mixer).isSome) := by
  obtain ⟨found, held, same⟩ := Option.map_eq_some_iff.mp (orderly.format place card there)
  constructor
  · simp [mixerFormat?, ofMixer, held, same]
  · intro alive
    rw [liveMixer?, held, Option.filter_some_pos]
    · rfl
    · by_contra dead
      apply alive
      simpa [Perished, gone, ofMixer, held, keptBusy] using dead

private theorem counted_known {card : Listener} (known : Known before)
    (there : before.listeners[place]? = some card) (counted : Counted place card before after) :
    Known after := by
  intro reading member
  rw [counted.home]
  rw [counted.readings] at member
  rcases List.mem_append.mp member with old | new
  · exact known reading old
  · rw [List.mem_singleton.mp new]
    simp [homeOf?, ofListener, there]

private theorem counted_tallied {card : Listener} (orderly : Orderly before)
    (tallied : Tallied mixer before) (alive : ¬Perished before mixer)
    (there : before.listeners[place]? = some card) (counted : Counted place card before after) :
    Tallied mixer after := by
  have home : homeOf? before place = some card.mixer := by simp [homeOf?, ofListener, there]
  obtain ⟨form, lives⟩ := home_there orderly there
  by_cases own : card.mixer = mixer
  · subst own
    apply recorded_tallied tallied (counted.account (lives alive)) (congrFun counted.formats _)
    · simp [heardFrom, counted.home, counted.readings, home]
    · intro bytes heard format same
      cases form.symm.trans same
      exact heard_length heard
  · obtain ⟨frames, samples, underruns⟩ := tallied
    have same : heardFrom mixer after = heardFrom mixer before := by
      simp [heardFrom, counted.home, counted.readings, home, own]
    constructor
    · rw [counted.others mixer own, same]
      exact frames
    · rw [counted.others mixer own, same, counted.formats]
      exact samples
    · rw [counted.others mixer own, same]
      exact underruns

private theorem read_accounted (orderly : Orderly before) (accounted : Accounted mixer before)
    (place : Nat) : Accounted mixer (before.read place).2 := by
  have enduring : Enduring before (before.read place).2 :=
    dealing_enduring (Dealing.read : Dealing none _ _)
  cases there : before.listeners[place]? with
  | none =>
    simp only [Exchange.read, there]
    exact accounted
  | some card =>
    cases found : card.heard? with
    | none =>
      have taken := take_taken place before
      simp only [Exchange.read, there, found] at enduring ⊢
      apply unread_accounted accounted ⟨enduring, rfl, rfl⟩
      intro listener turn
      exact starved_in_turn turn ⟨taken.home, taken.form, taken.waiting⟩ rfl
    | some heard =>
      have counted := read_counted there found
      constructor
      · exact counted_known accounted.known there counted
      · intro lives
        have alive := mt (perished_lasts enduring) lives
        exact counted_tallied orderly (accounted.tallied alive) alive there counted
      · intro listener
        have turn := accounted.turn listener
        by_cases here : place = listener
        · subst here
          have more := counted.occasions place
          rw [if_pos rfl] at more
          exact read_in_turn turn there counted.toTaken more
        · have same := counted.occasions listener
          rw [if_neg here, List.append_nil] at same
          exact starved_in_turn turn counted.toTaken same

/-! ## Runs -/

private theorem dealing_accounted (orderly : Orderly before) (accounted : Accounted mixer before)
    (dealing : Dealing (some mixer) before after) : Accounted mixer after := by
  cases dealing with
  | offer => exact offer_accounted accounted
  | draw => exact draw_accounted accounted
  | hand => exact hand_accounted accounted _ _ _
  | read => exact read_accounted orderly accounted _
  | forget apart => exact forget_accounted accounted fun same => apart (congrArg some same)
  | other undealt => exact undealt_accounted accounted undealt

private theorem chronicle_accounted (chronicle : Chronicle Exchange.empty deeds exchange)
    (spared : ∀ deed ∈ deeds, deed.step ≠ .resetStatistics mixer) :
    Accounted mixer exchange := by
  induction chronicle with
  | nil =>
    refine ⟨nofun, fun _ => ⟨rfl, nofun, rfl⟩, ?_⟩
    intro listener
    exact ⟨nofun, nofun⟩
  | passage earlier passage ih =>
    have orderly := moves_orderly (course_moves (chronicle_course earlier))
    exact dealing_accounted orderly (ih spared) (passage_dealt passage)
  | deed earlier plain ih =>
    have orderly := moves_orderly (course_moves (chronicle_course earlier))
    have before := ih fun deed member => spared deed (List.mem_append_left _ member)
    have last := spared _ (List.mem_append_right _ List.mem_cons_self)
    apply dealing_accounted orderly before
    apply plain_dealt plain
    rintro other resets same
    cases same
    exact last resets

/-- A read from outside that memory has room for finds what the journal tells of it. -/
private theorem read_told (held : (exchange.heldListener? listener).isSome) (notify : Notify)
    (sufficed : (perform notify (.read listener) exchange).2.exhausted = false) :
    ∃ heard, (perform notify (.read listener) exchange).1 = .heard heard ∧
      readings (perform notify (.read listener) exchange).2 =
        readings exchange ++ [(listener, heard)] := by
  obtain ⟨card, found⟩ := Option.isSome_iff_exists.mp held
  have there := (Option.filter_eq_some_iff.mp found).1
  simp only [perform, onListener, onFound, found] at sufficed ⊢
  cases due : card.heard? with
  | none =>
    simp [Exchange.read, there, due, demand] at sufficed
  | some heard =>
    refine ⟨heard, ?_, ?_⟩
    · simp only [Exchange.read, there, due]
    · cases heard_some due
      exact (read_counted there due).readings

/-- While a mixer lives and is not made to forget them, it counts the reads of the listeners that it
created: every frame with all its samples, and every read that found nothing, but no failure. A
listener gives a frame for the input that it was fed last, and only once; its frames are therefore
those of some of its inputs, in order. A read finds what is told of it. -/
theorem deliveries_accounted (chronicle : Chronicle Exchange.empty deeds exchange)
    (live : exchange.liveMixer? mixer = some found)
    (spared : ∀ deed ∈ deeds, deed.step ≠ .resetStatistics mixer) :
    let totals := found.stats.totals
    let heard := heardFrom mixer exchange
    totals.framesDelivered = (frames heard).length ∧
    totals.samplesDelivered * found.format.bytesPerSample = (frames heard).flatten.length ∧
    totals.underruns = heard.count .nothing ∧
    (∀ listener, homeOf? exchange listener = some mixer →
      Prompt found.format (occasions listener exchange) ∧
      (frames (heardIn (occasions listener exchange))).Sublist
        ((inputs (occasions listener exchange)).filterMap (due? found.format))) ∧
    ∀ notify listener, (exchange.heldListener? listener).isSome →
      (perform notify (.read listener) exchange).2.exhausted = false →
      ∃ heard, (perform notify (.read listener) exchange).1 = .heard heard ∧
        readings (perform notify (.read listener) exchange).2 =
          readings exchange ++ [(listener, heard)] := by
  have orderly := moves_orderly (course_moves (chronicle_course chronicle))
  obtain ⟨known, tallied, turn⟩ := chronicle_accounted chronicle spared
  have there := (Option.filter_eq_some_iff.mp live).1
  have alive : ¬Perished exchange mixer := by
    rintro ⟨away, still⟩
    rw [live_busy away (Option.isSome_of_eq_some live)] at still
    cases still
  have account : accountOf exchange mixer = Account.ofMixer found := by
    simp [accountOf, ofMixer, there]
  have form : mixerFormat? exchange mixer = some found.format := by
    simp [mixerFormat?, ofMixer, there]
  obtain ⟨frames, samples, underruns⟩ := tallied alive
  rw [account] at frames samples underruns
  refine ⟨frames, samples found.format form, underruns, ?_, ?_⟩
  · intro listener home
    unfold homeOf? ofListener at home
    cases held : exchange.listeners[listener]? with
    | none => simp [held] at home
    | some card =>
      rw [held] at home
      cases home
      have same : found.format = card.format :=
        Option.some.inj (form.symm.trans (home_there orderly held).1)
      have formed : listenerFormat? exchange listener = some card.format := by
        simp [listenerFormat?, ofListener, held]
      rw [same]
      have prompt := (turn listener).prompt card.format formed
      exact ⟨prompt, (prompt_in_order prompt).1⟩
  · intro notify listener held sufficed
    exact read_told held notify sufficed

/-- A listener that is read whenever it is fed, and later on only from outside. Cycles feed it and
others do; some inputs are silent, and one is replaced before it is read. -/
def listening : List Step :=
  [.addMixer .pcm16, .addQueue 2 8, .attach 0 0, .addListener 0 [], .start 0, .read 0,
    .readOnInput 0, .push 0 0 [100, 200], .hand 0 [[3]] 1, .read 0, .clearHandler 0,
    .hand 0 [[4]] 1, .push 0 0 [5], .read 0, .hand 0 [] 3, .read 0]

def listened : Exchange := (Exchange.empty.run listening).2

/-- Three of the five inputs are heard, and three reads find nothing. -/
theorem listening_accounted : ∃ found : Mixer, listened.liveMixer? 0 = some found ∧
    heardFrom 0 listened =
      [.nothing, .frame [100, 0, 200, 0], .frame [3, 0], .nothing, .frame [5, 0], .nothing] ∧
    found.stats.totals.framesDelivered = 3 ∧ found.stats.totals.samplesDelivered * 2 = 8 ∧
    found.stats.totals.underruns = 3 ∧ (inputs (occasions 0 listened)).length = 5 ∧
    Prompt .pcm16 (occasions 0 listened) := by
  have recorded : Recorded (· ≠ .resetStatistics 0) Exchange.empty listened :=
    run_recorded listening Exchange.empty (by simp [listening, AllOf, All])
  obtain ⟨-, deeds, chronicle, spared⟩ := recorded nofun
  have lives : (listened.liveMixer? 0).map Mixer.format = some .pcm16 := by decide +kernel
  obtain ⟨found, live, form⟩ := Option.map_eq_some_iff.mp lives
  have heard : heardFrom 0 listened =
      [.nothing, .frame [100, 0, 200, 0], .frame [3, 0], .nothing, .frame [5, 0], .nothing] := by
    decide +kernel
  obtain ⟨count, samples, underruns, order, -⟩ := deliveries_accounted chronicle live spared
  rw [heard] at count samples underruns
  rw [form] at samples order
  exact ⟨found, live, heard, count, samples, underruns, by decide +kernel,
    (order 0 (by decide +kernel)).1⟩

end Conference.DeliveryAccounts
