import Conference.Proofs.ExchangeDealings

/-! The accounts of a queued source. Whoever pushes and reads, inside cycles or outside, nothing is
lost and nothing comes twice: what a source accepted is what it handed out followed by what waits,
in the order in which it came. Each push accepts as much as has room, each read hands out as much as
waits, and what was refused is counted. -/
namespace Conference.QueueAccounts
open Exchange ExchangeCourse ExchangeDealings

/-! ## Calls -/

/-- A call on a source, with its answer. -/
inductive Call where
  | push (samples : List Sample) (accepted : Nat)
  | read (answer : Option (List Sample))
  deriving DecidableEq

namespace Call

def offered : Call → List Sample
  | push samples _ => samples
  | read _ => []

def accepted : Call → List Sample
  | push samples accepted => samples.take accepted
  | read _ => []

def handedOut : Call → List Sample
  | push _ _ => []
  | read answer => answer.getD []

/-- The call on a source that an entry of the journal tells of. -/
def ofEntry? (place : Nat) : Entry → Option Call
  | .offered source samples accepted =>
    if source = place then some (push samples accepted) else none
  | .drawn source answer => if source = place then some (read answer) else none
  | _ => none

end Call

/-- The calls on a source so far, by whomever. -/
def calls (place : Nat) (exchange : Exchange) : List Call :=
  exchange.journal.toList.filterMap (Call.ofEntry? place)

def offered (calls : List Call) : List Sample := calls.flatMap Call.offered

def accepted (calls : List Call) : List Sample := calls.flatMap Call.accepted

def handedOut (calls : List Call) : List Sample := calls.flatMap Call.handedOut

/-- What was accepted and has not been handed out. -/
def left (calls : List Call) : List Sample := (accepted calls).drop (handedOut calls).length

/-- What a call does at a queue in which `waiting` waits. -/
def Answered (frame capacity : Nat) (waiting : List Sample) : Call → Prop
  | .push samples accepted => accepted = min samples.length (capacity - waiting.length)
  | .read answer => (answer = none ↔ waiting = []) ∧ ∀ samples, answer = some samples →
      samples = waiting.take frame ∧ samples.length = min frame waiting.length ∧ samples ≠ []

/-- The accounts of a source over some calls, at any time of which `earlier` were over. -/
structure Lossless (frame capacity : Nat) (calls : List Call) : Prop where
  /-- What was accepted is what was handed out, followed by what waited. -/
  conserved : ∀ earlier, earlier <+: calls → accepted earlier = handedOut earlier ++ left earlier
  bounded : ∀ earlier, earlier <+: calls → (left earlier).length ≤ capacity
  answered : ∀ earlier call, earlier ++ [call] <+: calls →
    Answered frame capacity (left earlier) call

/-- A queue in accordance with the calls that were made on it. -/
structure Balanced (frame capacity : Nat) (calls : List Call) (queue : SampleQueue) : Prop
    extends Lossless frame capacity calls where
  sizes : queue.frame = frame ∧ queue.capacity = capacity
  waiting : queue.waiting = left calls
  /-- What was offered was accepted or is counted as dropped, in a 64-bit word. -/
  dropped : queue.dropped + UInt64.ofNat (accepted calls).length =
    UInt64.ofNat (offered calls).length

variable {frame capacity place : Nat} {earlier : List Call} {queue : SampleQueue}
  {before after exchange : Exchange}

/-! ## One call on a queue -/

theorem accepted_snoc (earlier : List Call) (call : Call) :
    accepted (earlier ++ [call]) = accepted earlier ++ call.accepted := by
  simp [accepted]

theorem handed_out_snoc (earlier : List Call) (call : Call) :
    handedOut (earlier ++ [call]) = handedOut earlier ++ call.handedOut := by
  simp [handedOut]

private theorem offered_snoc (earlier : List Call) (call : Call) :
    offered (earlier ++ [call]) = offered earlier ++ call.offered := by
  simp [offered]

/-- What waits after a call is what waited before and was accepted, less what was handed out. -/
private theorem left_snoc (conserved : accepted earlier = handedOut earlier ++ left earlier)
    {call : Call} (rest : left earlier ++ call.accepted = call.handedOut ++ waiting) :
    left (earlier ++ [call]) = waiting := by
  have all : accepted (earlier ++ [call]) = handedOut (earlier ++ [call]) ++ waiting := by
    rw [accepted_snoc, handed_out_snoc, conserved, List.append_assoc, rest, List.append_assoc]
  rw [left, all, List.drop_left]

private theorem left_push (conserved : accepted earlier = handedOut earlier ++ left earlier)
    (samples : List Sample) (count : Nat) :
    left (earlier ++ [.push samples count]) = left earlier ++ samples.take count :=
  left_snoc conserved rfl

private theorem left_read (conserved : accepted earlier = handedOut earlier ++ left earlier)
    {answer : Option (List Sample)}
    (answered : Answered frame capacity (left earlier) (.read answer)) :
    left (earlier ++ [.read answer]) = (left earlier).drop frame ∧
      answer.getD [] = (left earlier).take frame := by
  obtain ⟨nothing, something⟩ := answered
  have handed : answer.getD [] = (left earlier).take frame := by
    cases answer with
    | none => simp [nothing.mp rfl]
    | some samples => exact (something samples rfl).1
  refine ⟨left_snoc conserved ?_, handed⟩
  simp [Call.accepted, Call.handedOut, handed]

private theorem lossless_snoc (lossless : Lossless frame capacity earlier)
    (answered : Answered frame capacity (left earlier) call) :
    Lossless frame capacity (earlier ++ [call]) := by
  have conserved := lossless.conserved earlier (List.prefix_refl _)
  have bounded := lossless.bounded earlier (List.prefix_refl _)
  constructor
  · intro first within
    rcases List.prefix_concat_iff.mp within with rfl | old
    · rw [accepted_snoc, handed_out_snoc, conserved, List.append_assoc, List.append_assoc]
      congr 1
      cases call with
      | push samples count =>
        rw [left_push conserved]
        rfl
      | read answer =>
        obtain ⟨rest, handed⟩ := left_read conserved answered
        simp [rest, Call.accepted, Call.handedOut, handed]
    · exact lossless.conserved first old
  · intro first within
    rcases List.prefix_concat_iff.mp within with rfl | old
    · cases call with
      | push samples count =>
        have most : count ≤ capacity - (left earlier).length := by
          rw [show count = _ from answered]
          exact Nat.min_le_right _ _
        rw [left_push conserved, List.length_append, List.length_take]
        omega
      | read answer =>
        rw [(left_read conserved answered).1, List.length_drop]
        omega
    · exact lossless.bounded first old
  · intro first other within
    rcases List.prefix_concat_iff.mp within with whole | old
    · obtain ⟨same, last⟩ := List.append_inj' whole rfl
      rw [same, List.singleton_inj.mp last]
      exact answered
    · exact lossless.answered first other old

/-- What a queue accepts of a push is what has room. -/
theorem take_accepted (queue : SampleQueue) (samples : List Sample) :
    samples.take (queue.accepted samples) = samples.take queue.room := by
  rw [SampleQueue.accepted, Nat.min_comm, ← List.take_eq_take_min]

private theorem push_balanced (balanced : Balanced frame capacity earlier queue)
    (samples : List Sample) :
    Balanced frame capacity (earlier ++ [.push samples (queue.accepted samples)])
      (queue.push samples) := by
  obtain ⟨lossless, sizes, waiting, dropped⟩ := balanced
  have conserved := lossless.conserved earlier (List.prefix_refl _)
  have answered : Answered frame capacity (left earlier)
      (.push samples (queue.accepted samples)) := by
    rw [Answered, SampleQueue.accepted, SampleQueue.room, sizes.2, waiting]
  have taken := take_accepted queue samples
  refine ⟨lossless_snoc lossless answered, sizes, ?_, ?_⟩
  · rw [left_push conserved, taken, ← waiting]
    rfl
  · have part : queue.accepted samples ≤ samples.length := Nat.min_le_left _ _
    have whole : samples.length - queue.accepted samples + queue.accepted samples =
        samples.length := Nat.sub_add_cancel part
    have count : (samples.take (queue.accepted samples)).length = queue.accepted samples := by
      rw [List.length_take, Nat.min_eq_left part]
    rw [accepted_snoc, offered_snoc, List.length_append, List.length_append]
    simp only [Call.accepted, Call.offered, count]
    change queue.dropped + UInt64.ofNat (samples.length - queue.accepted samples) + _ = _
    calc queue.dropped + UInt64.ofNat (samples.length - queue.accepted samples) +
          UInt64.ofNat ((accepted earlier).length + queue.accepted samples)
        = queue.dropped + UInt64.ofNat (accepted earlier).length +
          UInt64.ofNat (samples.length - queue.accepted samples + queue.accepted samples) := by
          simp only [UInt64.ofNat_add]
          ac_rfl
      _ = UInt64.ofNat ((offered earlier).length + samples.length) := by
          rw [dropped, whole, UInt64.ofNat_add]

private theorem read_balanced (balanced : Balanced frame capacity earlier queue) :
    Balanced frame capacity (earlier ++ [.read queue.read]) queue.afterRead := by
  obtain ⟨lossless, sizes, waiting, dropped⟩ := balanced
  have conserved := lossless.conserved earlier (List.prefix_refl _)
  have answered : Answered frame capacity (left earlier) (.read queue.read) := by
    unfold SampleQueue.read
    rw [sizes.1, waiting]
    cases held : left earlier with
    | nil => exact ⟨⟨fun _ => rfl, fun _ => rfl⟩, nofun⟩
    | cons oldest rest =>
      refine ⟨⟨nofun, nofun⟩, ?_⟩
      rintro _ ⟨⟩
      have some : 0 < frame := sizes.1 ▸ queue.frame_pos
      refine ⟨rfl, List.length_take, ?_⟩
      rw [ne_eq, List.take_eq_nil_iff]
      simp [Nat.ne_of_gt some]
  refine ⟨lossless_snoc lossless answered, sizes, ?_, ?_⟩
  · rw [(left_read conserved answered).1, ← sizes.1, ← waiting]
    rfl
  · rw [accepted_snoc, offered_snoc]
    simp only [Call.accepted, Call.offered, List.append_nil]
    exact dropped

/-! ## One piece of a run -/

/-- What a piece of a run does to one source. -/
inductive Served (place : Nat) (before after : Exchange) : Prop where
  | spared (kept : ∀ {source}, before.sources[place]? = some source →
        after.sources[place]? = some source)
      (uncalled : calls place after = calls place before) : Served place before after
  | pushed {queue : SampleQueue} (there : before.queue? place = some queue)
      (now : after.queue? place = some (queue.push samples))
      (called : calls place after =
        calls place before ++ [.push samples (queue.accepted samples)]) :
      Served place before after
  | drawn (there : before.sources[place]? = some found)
      (now : after.sources[place]? = some { found with feed := found.feed.afterRead })
      (called : calls place after = calls place before ++ [.read found.feed.read]) :
      Served place before after

private theorem calls_note (place : Nat) (exchange : Exchange) (entry : Entry) :
    calls place (exchange.note entry) =
      calls place exchange ++ (Call.ofEntry? place entry).toList := by
  cases told : Call.ofEntry? place entry <;> simp [calls, note, told]

theorem source_of_queue (there : exchange.queue? place = some queue) :
    ∃ found, exchange.sources[place]? = some found ∧ found.feed = .queue queue := by
  obtain ⟨found, held, queued⟩ := Option.bind_eq_some_iff.mp there
  refine ⟨found, held, ?_⟩
  unfold Source.queue? at queued
  split at queued
  · rename_i waiting feed
    cases queued
    exact feed
  · cases queued

theorem queue_of_source {found : Source} (there : exchange.sources[place]? = some found)
    (feed : found.feed = .queue queue) : exchange.queue? place = some queue := by
  simp [queue?, there, Source.queue?, feed]

/-- A source with a queue accepts what has room. -/
theorem offer_queued (there : exchange.queue? place = some queue) (samples : List Sample) :
    (exchange.offer place samples).1 = queue.accepted samples ∧
      (exchange.offer place samples).2.queue? place = some (queue.push samples) ∧
      calls place (exchange.offer place samples).2 =
        calls place exchange ++ [.push samples (queue.accepted samples)] := by
  obtain ⟨found, held, feed⟩ := source_of_queue there
  simp only [Exchange.offer, there]
  refine ⟨trivial, ?_, ?_⟩
  · simp [note, queue?, updateSource, Array.getElem?_modify, held, Source.queue?]
  · rw [calls_note]
    simp [Call.ofEntry?, calls, updateSource]

private theorem offer_served (source : Nat) (samples : List Sample) :
    Served place exchange (exchange.offer source samples).2 := by
  by_cases here : source = place
  · subst here
    cases there : exchange.queue? source with
    | none =>
      simp only [Exchange.offer, there]
      exact .spared id rfl
    | some queue =>
      obtain ⟨-, now, called⟩ := offer_queued there samples
      exact .pushed there now called
  · unfold Exchange.offer
    split
    · exact .spared id rfl
    · refine .spared (fun there => ?_) ?_
      · simpa [note, updateSource, Array.getElem?_modify, here] using there
      · rw [calls_note]
        simp [Call.ofEntry?, here, calls, updateSource]

private theorem draw_found {found : Source} (there : exchange.sources[place]? = some found) :
    (exchange.draw place).1 = found.feed.read ∧
      (exchange.draw place).2.sources[place]? =
        some { found with feed := found.feed.afterRead } ∧
      calls place (exchange.draw place).2 =
        calls place exchange ++ [.read found.feed.read] ∧
      (exchange.draw place).2.exhausted = (exchange.exhausted || !found.feed.hasRoom) := by
  simp only [Exchange.draw, there]
  refine ⟨trivial, ?_, ?_, rfl⟩
  · simp [note, updateSource, demand, Array.getElem?_modify, there]
  · rw [calls_note]
    simp [Call.ofEntry?, calls, updateSource, demand]

private theorem draw_served (source : Nat) : Served place exchange (exchange.draw source).2 := by
  by_cases here : source = place
  · subst here
    cases there : exchange.sources[source]? with
    | none =>
      simp only [Exchange.draw, there]
      exact .spared id rfl
    | some found =>
      obtain ⟨-, now, called, -⟩ := draw_found there
      exact .drawn there now called
  · unfold Exchange.draw
    split
    · exact .spared id rfl
    · refine .spared (fun there => ?_) ?_
      · simpa [note, updateSource, demand, Array.getElem?_modify, here] using there
      · rw [calls_note]
        simp [Call.ofEntry?, here, calls, updateSource, demand]

private theorem read_served (listener : Nat) :
    Served place exchange (exchange.read listener).2 := by
  have recorded (reading : Listener) (heard : Heard) (other : Exchange) :
      (other.recordRead reading heard).sources = other.sources ∧
        (other.recordRead reading heard).journal = other.journal := by
    unfold recordRead
    split
    · exact ⟨rfl, rfl⟩
    · cases heard <;> exact ⟨rfl, rfl⟩
  unfold Exchange.read
  split
  · exact .spared id rfl
  · rename_i reading _
    simp only
    split
    · exact .spared id rfl
    · rename_i heard _
      obtain ⟨sources, journal⟩ := recorded reading heard
        (exchange.updateListener listener fun found => { found with pending := none })
      refine .spared (fun there => ?_) ?_
      · rw [note, sources]
        exact there
      · rw [calls_note, calls, journal]
        simp [Call.ofEntry?, calls, updateListener]

theorem dealing_served (dealing : Dealing spared before after) :
    Served place before after := by
  cases dealing with
  | offer => exact offer_served _ _
  | draw => exact draw_served _
  | read => exact read_served _
  | hand =>
    refine .spared id ?_
    rw [calls_note]
    simp [Call.ofEntry?, calls, updateListener]
  | forget => exact .spared id rfl
  | other undealt =>
    obtain ⟨entries, journal, neutral⟩ := undealt.journal
    refine .spared undealt.sources ?_
    have silent : entries.filterMap (Call.ofEntry? place) = [] := by
      rw [List.filterMap_eq_nil_iff]
      intro entry member
      have told := neutral entry member
      cases entry with
      | offered | drawn => cases told
      | _ => rfl
    rw [calls, journal, List.filterMap_append, silent, List.append_nil]
    rfl

/-! ## Runs -/

/-- A source that is not there yet was not called. -/
private theorem dealings_uncalled
    (dealings : Relation.ReflTransGen (Dealing spared) Exchange.empty exchange)
    (absent : exchange.sources[place]? = none) : calls place exchange = [] := by
  induction dealings with
  | refl => rfl
  | @tail before after _ dealing ih =>
    cases (dealing_served dealing : Served place before after) with
    | spared kept uncalled =>
      rw [uncalled]
      apply ih
      cases there : before.sources[place]? with
      | none => rfl
      | some source => cases absent.symm.trans (kept there)
    | pushed there now =>
      obtain ⟨found, held, -⟩ := source_of_queue now
      cases absent.symm.trans held
    | drawn there now => cases absent.symm.trans now

/-- Each piece of a run keeps the accounts of a queue. -/
private theorem dealing_balanced (dealing : Dealing spared before after)
    (there : before.queue? place = some queue)
    (balanced : Balanced frame capacity (calls place before) queue) :
    ∃ later, after.queue? place = some later ∧
      Balanced frame capacity (calls place after) later := by
  cases (dealing_served dealing : Served place before after) with
  | spared kept uncalled =>
    obtain ⟨found, held, feed⟩ := source_of_queue there
    rw [uncalled]
    exact ⟨queue, queue_of_source (kept held) feed, balanced⟩
  | pushed held now called =>
    cases there.symm.trans held
    rw [called]
    exact ⟨_, now, push_balanced balanced _⟩
  | drawn held now called =>
    obtain ⟨found, same, feed⟩ := source_of_queue there
    cases held.symm.trans same
    rw [called, feed]
    exact ⟨queue.afterRead, queue_of_source now (by rw [feed]; rfl), read_balanced balanced⟩

private theorem dealings_balanced (dealings : Relation.ReflTransGen (Dealing spared) before after)
    (there : before.queue? place = some queue)
    (balanced : Balanced frame capacity (calls place before) queue) :
    ∃ later, after.queue? place = some later ∧
      Balanced frame capacity (calls place after) later := by
  induction dealings with
  | refl => exact ⟨queue, there, balanced⟩
  | tail _ dealing ih =>
    obtain ⟨middle, held, kept⟩ := ih
    exact dealing_balanced dealing held kept

private theorem new_balanced (frame capacity : Nat) :
    Balanced (max frame 1) (max capacity 1) [] (SampleQueue.ofSizes frame capacity) := by
  refine ⟨⟨?_, ?_, ?_⟩, ⟨rfl, rfl⟩, rfl, rfl⟩
  · intro earlier within
    rw [List.prefix_nil.mp within]
    rfl
  · intro earlier within
    rw [List.prefix_nil.mp within]
    exact Nat.zero_le _
  · intro earlier call within
    cases List.append_eq_nil_iff.mp (List.prefix_nil.mp within) with
    | intro _ none => cases none

/-- A source that has just been added is an empty queue, and nobody called it. -/
private theorem added_balanced {deed : Deed}
    (dealings : Relation.ReflTransGen (Dealing spared) Exchange.empty deed.before)
    (added : deed.step = .addQueue frame capacity) (placed : deed.outcome = .place place) :
    ∃ queue, deed.after.queue? place = some queue ∧
      Balanced (max frame 1) (max capacity 1) (calls place deed.after) queue := by
  obtain ⟨before, step⟩ := deed
  cases (added : step = _)
  have last : before.sources.size = place := Outcome.place.inj placed
  have absent : before.sources[place]? = none := by simp [← last]
  have same : calls place (Deed.after ⟨before, .addQueue frame capacity⟩) =
      calls place before := rfl
  have silent : calls place before = [] := dealings_uncalled dealings absent
  refine ⟨SampleQueue.ofSizes frame capacity, ?_, ?_⟩
  · simp [Deed.after, perform, addNewSource, addSource, demand, queue?, ← last, Source.queue?]
  · rw [same, silent]
    exact new_balanced frame capacity

/-- Whatever happens to an exchange, a queued source keeps its accounts: it loses nothing that it
accepted and hands out nothing twice. A frame and a capacity of zero count as one. What is pushed
and read from outside is answered by the very calls that the accounts tell of; bytes are pushed as
the samples that they spell, and change nothing where they spell none. The answer to a read counts
only where memory has room for it: anywhere else the read exhausts the exchange. -/
theorem queue_accounted (chronicle : Chronicle Exchange.empty deeds exchange)
    (member : deed ∈ deeds) (added : deed.step = .addQueue frame capacity)
    (placed : deed.outcome = .place place) :
    ∃ queue, exchange.queue? place = some queue ∧
      Balanced (max frame 1) (max capacity 1) (calls place exchange) queue ∧
      (∀ notify samples,
        let count := min samples.length (max capacity 1 - queue.waiting.length)
        (perform notify (.offer place samples) exchange).1 = .accepted count ∧
          calls place (perform notify (.offer place samples) exchange).2 =
            calls place exchange ++ [.push samples count]) ∧
      (∀ notify, (perform notify (.draw place) exchange).1 = .drawn queue.read ∧
        calls place (perform notify (.draw place) exchange).2 =
          calls place exchange ++ [.read queue.read] ∧
        (perform notify (.draw place) exchange).2.exhausted =
          (exchange.exhausted || !queue.hasRoom)) ∧
      ∀ notify bytes format, perform notify (.offerBytes place bytes format) exchange =
        match Pcm.decode bytes format with
        | .error error => (.refused error, exchange)
        | .ok samples => perform notify (.offer place samples) exchange := by
  obtain ⟨⟨earlier, before⟩, later, after⟩ := chronicle_split chronicle member
  have past : Relation.ReflTransGen (Dealing none) _ _ := chronicle_dealt before nofun
  have since : Relation.ReflTransGen (Dealing none) _ _ := chronicle_dealt after nofun
  obtain ⟨new, there, balanced⟩ := added_balanced past added placed
  obtain ⟨queue, held, kept⟩ := dealings_balanced since there balanced
  obtain ⟨source, found, feed⟩ := source_of_queue held
  refine ⟨queue, held, kept, ?_, ?_, ?_⟩
  · intro notify samples
    obtain ⟨count, -, called⟩ := offer_queued held samples
    have room : queue.accepted samples =
        min samples.length (max capacity 1 - queue.waiting.length) := by
      rw [SampleQueue.accepted, SampleQueue.room, kept.sizes.2]
    rw [← room]
    constructor
    · simp only [perform, onQueue, onFound, held, count]
    · simp only [perform, onQueue, onFound, held, called]
  · intro notify
    obtain ⟨answer, -, called, room⟩ := draw_found found
    rw [feed] at answer called room
    refine ⟨?_, ?_, ?_⟩
    · simp only [perform, onSource, onFound, found, answer, Feed.read]
    · simp only [perform, onSource, onFound, found, called, Feed.read]
    · simp only [perform, onSource, onFound, found, room, Feed.hasRoom]
  · intro notify bytes format
    cases decoded : Pcm.decode bytes format with
    | error error => simp only [perform, onQueue, onFound, held, decoded]
    | ok samples => simp only [perform, onQueue, onFound, held, decoded]

/-- A queue of three samples that hands out two at once. -/
def shortQueue : Exchange := Deed.after ⟨.empty, .addQueue 2 3⟩

/-- Cycles and others read the queue, and it is offered more than has room. -/
def crowding : List Step :=
  [.addMixer .pcm16, .attach 0 0, .offer 0 [1, 2], .offer 0 [3, 4, 5], .cycle 0, .push 0 0 [6],
    .offerBytes 0 [7, 0, 8, 0] .pcm16, .offerBytes 0 [9] .pcm16, .draw 0, .draw 0, .offer 0 [10]]

theorem crowded_queue_accounted :
    ∃ queue, (shortQueue.run crowding).2.queue? 0 = some queue ∧
      Balanced 2 3 (calls 0 (shortQueue.run crowding).2) queue ∧
      calls 0 (shortQueue.run crowding).2 =
        [.push [1, 2] 2, .push [3, 4, 5] 1, .read (some [1, 2]), .push [6] 1, .read (some [3, 6]),
          .push [7, 8] 2, .read (some [7, 8]), .read none, .push [10] 1] := by
  have recorded : Recorded (fun _ => True) shortQueue (shortQueue.run crowding).2 :=
    run_recorded crowding shortQueue (by simp [crowding, AllOf, All])
  obtain ⟨-, deeds, rest, -⟩ := recorded nofun
  have chronicle := chronicle_trans (.deed .nil rfl) rest
  obtain ⟨queue, there, balanced, -⟩ :=
    queue_accounted chronicle List.mem_cons_self (rfl : _ = Step.addQueue 2 3) rfl
  exact ⟨queue, there, balanced, by decide +kernel⟩

end Conference.QueueAccounts
