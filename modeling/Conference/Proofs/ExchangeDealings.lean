import Conference.Proofs.RegistryEvents

/-! What passes between the parties of an exchange: sources are offered samples and read, listeners
are fed and read. All else that steps, cycles and handlers do has no part in it: it leaves sources,
pending input and the accounts of mixers alone, and the journal does not speak of such dealings. -/
namespace Conference.ExchangeDealings
open Exchange ExchangeCourse RegistryEvents

/-! ## What is dealt with -/

def waitingAt : Exchange → Nat → Option Pending := ofListener none Listener.pending

/-- What a mixer counts of the reads of its listeners. -/
structure Account where
  frames : Nat
  samples : Nat
  underruns : Nat

namespace Account

def none : Account := ⟨0, 0, 0⟩

def ofMixer (mixer : Mixer) : Account :=
  let totals := mixer.stats.totals
  ⟨totals.framesDelivered, totals.samplesDelivered, totals.underruns⟩

end Account

def accountOf : Exchange → Nat → Account := ofMixer .none Account.ofMixer

def mixerFormat? : Exchange → Nat → Option SampleFormat := ofMixer none (some ·.format)

def listenerFormat? : Exchange → Nat → Option SampleFormat := ofListener none (some ·.format)

/-- Whether a running operation refers to a mixer. -/
def keptBusy (exchange : Exchange) (mixer : Nat) : Bool :=
  exchange.holds.any (·.mixers.contains mixer)

/-- Whether an entry of the journal tells of anything but dealings. -/
def isNeutral : Entry → Bool
  | .offered _ _ _ | .drawn _ _ | .fed _ _ _ | .heard _ _ => false
  | _ => true

/-- What nothing undoes. A mixer that was let go and is not busy does not become so again. -/
structure Enduring (before after : Exchange) : Prop extends Lasting before after where
  mixerFormat : ∀ {mixer format}, mixerFormat? before mixer = some format →
    mixerFormat? after mixer = some format
  listenerFormat : ∀ {listener format}, listenerFormat? before listener = some format →
    listenerFormat? after listener = some format
  idle : ∀ {mixer}, RegistryEvents.gone before mixer = true → keptBusy after mixer = true →
    keptBusy before mixer = true

/-- Nothing was dealt with. -/
structure Undealt (before after : Exchange) : Prop extends Enduring before after where
  sources : ∀ {place : Nat} {source}, before.sources[place]? = some source →
    after.sources[place]? = some source
  waiting : waitingAt after = waitingAt before
  account : accountOf after = accountOf before
  journal : ∃ entries, after.journal.toList = before.journal.toList ++ entries ∧
    ∀ entry ∈ entries, isNeutral entry = true

/-- One piece of what is done to an exchange. The account of one mixer may be spared from being
forgotten. -/
inductive Dealing (spared : Option Nat) : Exchange → Exchange → Prop where
  | offer : Dealing spared exchange (exchange.offer source samples).2
  | draw : Dealing spared exchange (exchange.draw source).2
  | hand : Dealing spared exchange ((exchange.updateListener place fun found =>
      { found with pending := some input }).note (.fed place giver input))
  | read : Dealing spared exchange (exchange.read place).2
  | forget (apart : some mixer ≠ spared) : Dealing spared exchange
      (exchange.updateMixer mixer fun found => { found with stats := found.stats.reset })
  | other (undealt : Undealt before after) : Dealing spared before after

section
variable {exchange before middle after : Exchange}

/-! ## What endures -/

theorem enduring_refl : Enduring exchange exchange :=
  ⟨⟨id, id⟩, id, id, fun _ busy => busy⟩

theorem enduring_trans (first : Enduring before middle) (second : Enduring middle after) :
    Enduring before after where
  toLasting := lasting_trans first.toLasting second.toLasting
  mixerFormat known := second.mixerFormat (first.mixerFormat known)
  listenerFormat known := second.listenerFormat (first.listenerFormat known)
  idle away busy := first.idle away (second.idle (first.gone away) busy)

private theorem enduring_of_parts (mixers : after.mixers = before.mixers)
    (listeners : after.listeners = before.listeners)
    (idle : ∀ {mixer}, RegistryEvents.gone before mixer = true → keptBusy after mixer = true →
      keptBusy before mixer = true) : Enduring before after where
  toLasting := (unmoved_of_parts mixers listeners).toLasting
  mixerFormat {mixer format} known := by
    rw [mixerFormat?, ofMixer, mixers]
    exact known
  listenerFormat {listener format} known := by
    rw [listenerFormat?, ofListener, listeners]
    exact known
  idle := idle

private theorem enduring_mixer (change : Mixer → Mixer)
    (format : ∀ mixer, (change mixer).format = mixer.format)
    (held : ∀ mixer, mixer.held = false → (change mixer).held = false) :
    Enduring exchange (exchange.updateMixer place change) where
  toLasting := lasting_mixer change held
  mixerFormat known := by
    have formats : mixerFormat? (exchange.updateMixer place change) = mixerFormat? exchange :=
      of_mixer_same fun mixer => congrArg some (format mixer)
    rwa [formats]
  listenerFormat := id
  idle _ busy := busy

private theorem enduring_listener (change : Listener → Listener)
    (mixer : ∀ listener, (change listener).mixer = listener.mixer)
    (format : ∀ listener, (change listener).format = listener.format) :
    Enduring exchange (exchange.updateListener place change) where
  toLasting := lasting_listener change mixer
  mixerFormat := id
  listenerFormat known := by
    have formats : listenerFormat? (exchange.updateListener place change) =
        listenerFormat? exchange := of_listener_same fun listener => congrArg some (format listener)
    rwa [formats]
  idle _ busy := busy

private theorem record_read_enduring (listener : Listener) (heard : Heard) :
    Enduring exchange (exchange.recordRead listener heard) := by
  unfold recordRead
  split
  · exact enduring_refl
  · cases heard with
    | failed => exact enduring_refl
    | _ => exact enduring_mixer _ (fun _ => rfl) fun _ away => away

private theorem read_enduring (place : Nat) : Enduring exchange (exchange.read place).2 := by
  unfold Exchange.read
  split
  · exact enduring_refl
  · have taken : Enduring exchange (exchange.updateListener place fun found =>
        { found with pending := none }) :=
      enduring_listener _ (fun _ => rfl) fun _ => rfl
    simp only
    split
    · exact enduring_trans taken (enduring_of_parts rfl rfl fun _ busy => busy)
    · exact enduring_trans taken (enduring_trans (record_read_enduring _ _)
        (enduring_of_parts rfl rfl fun _ busy => busy))

theorem dealing_enduring (dealing : Dealing spared before after) : Enduring before after := by
  cases dealing with
  | offer =>
    unfold Exchange.offer
    split
    · exact enduring_refl
    · exact enduring_of_parts rfl rfl fun _ busy => busy
  | draw =>
    unfold Exchange.draw
    split
    · exact enduring_refl
    · exact enduring_of_parts rfl rfl fun _ busy => busy
  | @hand _ place input =>
    have handed : Enduring before (before.updateListener place fun found =>
        { found with pending := some input }) :=
      enduring_listener _ (fun _ => rfl) fun _ => rfl
    exact enduring_trans handed (enduring_of_parts rfl rfl fun _ busy => busy)
  | read => exact read_enduring _
  | forget => exact enduring_mixer _ (fun _ => rfl) fun _ away => away
  | other undealt => exact undealt.toEnduring

/-! ## What is no dealing -/

theorem undealt_refl : Undealt exchange exchange :=
  ⟨enduring_refl, id, rfl, rfl, [], (List.append_nil _).symm, nofun⟩

theorem undealt_trans (first : Undealt before middle) (second : Undealt middle after) :
    Undealt before after where
  toEnduring := enduring_trans first.toEnduring second.toEnduring
  sources there := second.sources (first.sources there)
  waiting := second.waiting.trans first.waiting
  account := second.account.trans first.account
  journal := by
    obtain ⟨entries, journal, neutral⟩ := first.journal
    obtain ⟨more, journalMore, neutralMore⟩ := second.journal
    refine ⟨entries ++ more, ?_, ?_⟩
    · rw [journalMore, journal, List.append_assoc]
    · intro entry member
      exact (List.mem_append.mp member).elim (neutral entry) (neutralMore entry)

private theorem undealt_of_parts (mixers : after.mixers = before.mixers)
    (listeners : after.listeners = before.listeners)
    (idle : ∀ {mixer}, RegistryEvents.gone before mixer = true → keptBusy after mixer = true →
      keptBusy before mixer = true)
    (sources : ∀ {place : Nat} {source}, before.sources[place]? = some source →
      after.sources[place]? = some source)
    (journal : after.journal = before.journal) : Undealt before after where
  toEnduring := enduring_of_parts mixers listeners idle
  sources := sources
  waiting := by
    funext place
    simp only [waitingAt, ofListener, listeners]
  account := by
    funext place
    simp only [accountOf, ofMixer, mixers]
  journal := ⟨[], by rw [journal, List.append_nil], nofun⟩

private theorem undealt_mixer (change : Mixer → Mixer)
    (format : ∀ mixer, (change mixer).format = mixer.format)
    (held : ∀ mixer, mixer.held = false → (change mixer).held = false)
    (account : ∀ mixer, Account.ofMixer (change mixer) = Account.ofMixer mixer) :
    Undealt exchange (exchange.updateMixer place change) where
  toEnduring := enduring_mixer change format held
  sources := id
  waiting := rfl
  account := of_mixer_same account
  journal := ⟨[], (List.append_nil _).symm, nofun⟩

private theorem undealt_listener (change : Listener → Listener)
    (mixer : ∀ listener, (change listener).mixer = listener.mixer)
    (format : ∀ listener, (change listener).format = listener.format)
    (pending : ∀ listener, (change listener).pending = listener.pending) :
    Undealt exchange (exchange.updateListener place change) where
  toEnduring := enduring_listener change mixer format
  sources := id
  waiting := of_listener_same pending
  account := rfl
  journal := ⟨[], (List.append_nil _).symm, nofun⟩

private theorem note_undealt (neutral : isNeutral entry = true) :
    Undealt exchange (exchange.note entry) where
  toEnduring := enduring_of_parts rfl rfl fun _ busy => busy
  sources := id
  waiting := rfl
  account := rfl
  journal := by
    refine ⟨[entry], Array.toList_push, ?_⟩
    intro one member
    rwa [List.mem_singleton.mp member]

private theorem push_known {α : Type} {items : Array α} {item : α} {place : Nat}
    (there : items[place]? = some item) (added : α) : (items.push added)[place]? = some item := by
  have inside : place < items.size := by
    by_contra outside
    rw [Array.getElem?_eq_none (Nat.le_of_not_lt outside)] at there
    cases there
  rw [Array.getElem?_push, if_neg (Nat.ne_of_lt inside)]
  exact there

private theorem add_mixer_undealt (made : Mixer.ofFormat format = .ok mixer) :
    Undealt exchange { exchange with mixers := exchange.mixers.push mixer } where
  toLasting := (add_mixer_unmoved made).toLasting
  mixerFormat {place format} known := by
    simp only [mixerFormat?, ofMixer] at known ⊢
    cases there : exchange.mixers[place]? with
    | none => simp [there] at known
    | some found =>
      rw [there] at known
      rw [push_known there]
      exact known
  listenerFormat := id
  idle _ busy := busy
  sources := id
  waiting := rfl
  account := by
    apply of_mixer_push
    unfold Mixer.ofFormat at made
    split at made
    · cases made
    · cases made
      rfl
  journal := ⟨[], (List.append_nil _).symm, nofun⟩

/-- A new listener has no pending input. -/
private theorem add_listener_undealt {added : Listener} (unfed : added.pending = none)
    (unstarted : added.started = false) :
    Undealt exchange { exchange with listeners := exchange.listeners.push added } where
  toLasting := (add_listener_unmoved unstarted).toLasting
  mixerFormat := id
  listenerFormat {place format} known := by
    rw [listenerFormat?, of_listener_push]
    split
    · rename_i new
      subst new
      simp [listenerFormat?, ofListener] at known
    · exact known
  idle _ busy := busy
  sources := id
  waiting := by
    funext place
    rw [waitingAt, of_listener_push, unfed]
    split
    · rename_i new
      rw [new, ofListener, Array.getElem?_eq_none (Nat.le_refl _)]
      rfl
    · rfl
  account := rfl
  journal := ⟨[], (List.append_nil _).symm, nofun⟩

private theorem add_source_undealt {feed : Feed} :
    Undealt exchange (exchange.addSource identity feed).2 :=
  undealt_of_parts rfl rfl (fun _ busy => busy) (fun there => push_known there _) rfl

private theorem add_new_source_undealt {feed : Feed} :
    Undealt exchange (exchange.addNewSource feed).2 := by
  have numbered : Undealt exchange { exchange with nextId := exchange.nextId + 1 } :=
    undealt_of_parts rfl rfl (fun _ busy => busy) id rfl
  exact undealt_trans numbered add_source_undealt

private theorem set_handler_undealt (place : Nat) (handler : Handler) :
    Undealt exchange (exchange.setHandler place handler) := by
  have pushed : Undealt exchange { exchange with handlers := exchange.handlers.push handler } :=
    undealt_of_parts rfl rfl (fun _ busy => busy) id rfl
  exact undealt_trans pushed
    (undealt_listener _ (fun _ => rfl) (fun _ => rfl) fun _ => rfl)

private theorem attach_undealt (place : Nat) (attached : Attached) :
    Undealt exchange (exchange.updateMixer place fun found => found.attach attached) := by
  have parts (mixer : Mixer) : (mixer.attach attached).format = mixer.format ∧
      (mixer.attach attached).held = mixer.held ∧
      Account.ofMixer (mixer.attach attached) = Account.ofMixer mixer := by
    unfold Mixer.attach
    split <;> exact ⟨rfl, rfl, rfl⟩
  apply undealt_mixer
  · intro mixer
    exact (parts mixer).1
  · intro mixer away
    exact (parts mixer).2.1.trans away
  · intro mixer
    exact (parts mixer).2.2

private theorem register_undealt (mixer listener : Nat) :
    Undealt exchange (exchange.register mixer listener).2 := by
  have parts (entry : Registered) (mixer : Mixer) :
      (mixer.register entry).format = mixer.format ∧
      (mixer.register entry).held = mixer.held ∧
      Account.ofMixer (mixer.register entry) = Account.ofMixer mixer := by
    unfold Mixer.register
    split <;> exact ⟨rfl, rfl, rfl⟩
  rcases ExchangeMoves.register_cases mixer listener exchange with same | ⟨excluded, same⟩
  · rw [same]
    exact undealt_refl
  · rw [same]
    have entered : Undealt exchange (exchange.updateMixer mixer fun found =>
        found.register ⟨listener, excluded⟩) := by
      apply undealt_mixer
      · intro mixer
        exact (parts _ mixer).1
      · intro mixer away
        exact (parts _ mixer).2.1.trans away
      · intro mixer
        exact (parts _ mixer).2.2
    exact undealt_trans entered
      (undealt_listener _ (fun _ => rfl) (fun _ => rfl) fun _ => rfl)

private theorem unregister_undealt (mixer listener : Nat) :
    Undealt exchange (exchange.unregister mixer listener).2 := by
  rcases ExchangeMoves.unregister_cases mixer listener exchange with same | same
  · rw [same]
    exact undealt_refl
  · rw [same]
    have removed : Undealt exchange (exchange.updateMixer mixer fun found =>
        found.unregister listener) :=
      undealt_mixer _ (fun _ => rfl) (fun _ away => away) fun _ => rfl
    exact undealt_trans removed
      (undealt_listener _ (fun _ => rfl) (fun _ => rfl) fun _ => rfl)

private theorem exclude_undealt (mixer listener : Nat) (ids : List SourceId) :
    Undealt exchange (exchange.exclude mixer listener ids) := by
  have told : Undealt exchange (exchange.updateMixer mixer fun found =>
      found.exclude listener ids) :=
    undealt_mixer _ (fun _ => rfl) (fun _ away => away) fun _ => rfl
  exact undealt_trans told (undealt_listener _ (fun _ => rfl) (fun _ => rfl) fun _ => rfl)

private theorem start_undealt (listener : Nat) : Undealt exchange (exchange.start listener).2 := by
  unfold Exchange.start
  split
  · exact undealt_refl
  · split
    · exact undealt_refl
    · exact register_undealt _ _

private theorem stop_undealt (listener : Nat) : Undealt exchange (exchange.stop listener).2 := by
  unfold Exchange.stop
  split
  · exact undealt_refl
  · split
    · exact undealt_listener _ (fun _ => rfl) (fun _ => rfl) fun _ => rfl
    · exact unregister_undealt _ _

/-! ## Steps and passages -/

private theorem found_dealt (acts : ∀ found, Dealing spared exchange (act found).2) :
    Dealing spared exchange (exchange.onFound found? act).2 := by
  unfold onFound
  split
  · exact .other undealt_refl
  · exact acts _

/-- A plain step is one piece, and one that forgets no account that is to be spared. -/
theorem plain_dealt {step : Step} (plain : isPlain step = true)
    (spares : ∀ mixer, step = .resetStatistics mixer → some mixer ≠ spared) :
    Dealing spared exchange (perform idle step exchange).2 := by
  cases step with
  | push | cycle | hand | rounds => cases plain
  | offer => exact found_dealt fun _ => .offer
  | offerBytes source bytes format =>
    refine found_dealt fun _ => ?_
    split
    · exact .other undealt_refl
    · exact .offer
  | draw => exact found_dealt fun _ => .draw
  | read => exact found_dealt fun _ => .read
  | resetStatistics mixer => exact found_dealt fun _ => .forget (spares mixer rfl)
  | addMixer format =>
    simp only [perform]
    split
    · exact .other undealt_refl
    · rename_i made
      exact .other (add_mixer_undealt made)
  | addQueue => exact .other add_new_source_undealt
  | addScript frames sameIdAs =>
    cases sameIdAs with
    | none => exact .other add_new_source_undealt
    | some source => exact found_dealt fun _ => .other add_source_undealt
  | attach => exact found_dealt fun _ => found_dealt fun _ => .other (attach_undealt _ _)
  | detach =>
    exact found_dealt fun _ => found_dealt fun _ => .other
      (undealt_mixer _ (fun _ => rfl) (fun _ away => away) fun _ => rfl)
  | dropMixer =>
    exact found_dealt fun _ => .other (undealt_mixer _ (fun _ => rfl) (fun _ _ => rfl) fun _ => rfl)
  | halt =>
    exact found_dealt fun _ => .other
      (undealt_mixer _ (fun _ => rfl) (fun _ away => away) fun _ => rfl)
  | addListener =>
    exact found_dealt fun _ => found_dealt fun _ => .other (add_listener_undealt rfl rfl)
  | dropListener | clearHandler =>
    exact found_dealt fun _ => .other
      (undealt_listener _ (fun _ => rfl) (fun _ => rfl) fun _ => rfl)
  | start => exact found_dealt fun _ => .other (start_undealt _)
  | stop => exact found_dealt fun _ => .other (stop_undealt _)
  | register =>
    exact found_dealt fun _ => found_dealt fun _ => .other (register_undealt _ _)
  | unregister =>
    exact found_dealt fun _ => found_dealt fun _ => .other (unregister_undealt _ _)
  | exclude =>
    exact found_dealt fun _ => found_dealt fun _ => found_dealt fun _ =>
      .other (exclude_undealt _ _ _)
  | countOnInput | readOnInput | runOnInput =>
    exact found_dealt fun _ => .other (set_handler_undealt _ _)
  | notifyOnInput listener capacity =>
    have demanded : Undealt exchange (exchange.demand (Channel.fits capacity)) :=
      undealt_of_parts rfl rfl (fun _ busy => busy) id rfl
    refine found_dealt fun _ => .other (undealt_trans demanded
      (undealt_trans (set_handler_undealt listener ⟨.notify exchange.channels.size, 0, 0⟩) ?_))
    exact undealt_of_parts rfl rfl (fun _ busy => busy) id rfl
  | receive channel =>
    refine found_dealt fun found => ?_
    unfold Exchange.receive
    split
    · exact .other (undealt_of_parts rfl rfl (fun _ busy => busy) id rfl)
    · exact .other undealt_refl
  | dropChannel =>
    exact found_dealt fun _ => .other (undealt_of_parts rfl rfl (fun _ busy => busy) id rfl)
  | describeSource source =>
    refine found_dealt fun found => ?_
    split <;> exact .other undealt_refl
  | _ => exact found_dealt fun _ => .other undealt_refl

/-- A mixer that was let go lives on only while an operation refers to it. -/
theorem live_busy (away : RegistryEvents.gone exchange mixer = true)
    (live : (exchange.liveMixer? mixer).isSome) : keptBusy exchange mixer = true := by
  obtain ⟨found, there⟩ := Option.isSome_iff_exists.mp live
  obtain ⟨there, lives⟩ := Option.filter_eq_some_iff.mp there
  have released : found.held = false := by
    simpa [RegistryEvents.gone, ofMixer, there] using away
  simpa [released, keptBusy] using lives

private theorem hold_undealt (held : Hold)
    (live : ∀ mixer ∈ held.mixers, (exchange.liveMixer? mixer).isSome) :
    Undealt exchange (exchange.holding held) := by
  refine undealt_of_parts rfl rfl (fun {mixer} away busy => ?_) id rfl
  rcases Bool.or_eq_true_iff.mp busy with named | already
  · exact live_busy away (live mixer (List.contains_iff_mem.mp named))
  · exact already

private theorem release_undealt : Undealt exchange exchange.release := by
  refine undealt_of_parts rfl rfl (fun _ busy => ?_) id rfl
  obtain ⟨hold, member, names⟩ := List.any_eq_true.mp busy
  exact List.any_eq_true.mpr ⟨hold, List.mem_of_mem_tail member, names⟩

private theorem finish_undealt (mixer cycle : Nat) (report : CycleReport) :
    Undealt exchange (exchange.finish mixer cycle report) := by
  have recorded : Undealt exchange (exchange.updateMixer mixer fun found =>
      { found with stats := found.stats.recordCycle exchange.now report.record }) :=
    undealt_mixer _ (fun _ => rfl) (fun _ away => away) fun _ => rfl
  exact undealt_trans recorded (note_undealt rfl)

theorem passage_dealt (passage : Passage before after) : Dealing spared before after := by
  cases passage with
  | offer => exact .offer
  | draw => exact .draw
  | read => exact .read
  | hand => exact .hand
  | begin mixer speeches =>
    have counted : Undealt before { before with cycles := before.cycles + 1 } :=
      undealt_of_parts rfl rfl (fun _ busy => busy) id rfl
    exact .other (undealt_trans counted (note_undealt rfl))
  | finish => exact .other (finish_undealt _ _ _)
  | call | notify => exact .other (undealt_of_parts rfl rfl (fun _ busy => busy) id rfl)
  | hold held live => exact .other (hold_undealt held live)
  | release => exact .other release_undealt
  | @remark entry _ noted =>
    apply Dealing.other
    apply note_undealt
    cases entry with
    | offered | drawn | fed | heard => cases noted
    | _ => rfl

/-- A chronicle is made of such pieces. -/
theorem chronicle_dealt (chronicle : Chronicle before deeds after)
    (spares : ∀ deed ∈ deeds, ∀ mixer, deed.step = .resetStatistics mixer → some mixer ≠ spared) :
    Relation.ReflTransGen (Dealing spared) before after := by
  induction chronicle with
  | nil => exact .refl
  | passage _ passage ih => exact (ih spares).tail (passage_dealt passage)
  | deed _ plain ih =>
    have earlier := ih fun deed member => spares deed (List.mem_append_left _ member)
    exact earlier.tail
      (plain_dealt plain (spares _ (List.mem_append_right _ List.mem_cons_self)))

end

end Conference.ExchangeDealings
