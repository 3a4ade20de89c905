import Conference.Proofs.ExchangeMoves

/-! What is asked of an exchange in the course of a run, step by step and with what each step found.
Handlers ask in the middle of cycles, and what they ask stands in the order in which it is done.
Between two steps cycles and handlers only go about their own business: they read sources, hand out
input, count calls and keep records. The journal tells of it as it happened. -/
namespace Conference.ExchangeCourse
open Exchange ExchangeMoves

/-! ## Steps -/

section
variable {step : Step}

/-- Whether a step calls no handler and performs no other steps. -/
def isPlain : Step → Bool
  | .push _ _ _ | .cycle _ | .hand _ _ _ | .rounds _ _ => false
  | _ => true

/-- Handlers that do nothing. -/
def idle : Notify := fun _ _ exchange => exchange

/-- A plain step does not depend on what handlers do. -/
theorem perform_plain (plain : isPlain step = true) (notify : Notify) (exchange : Exchange) :
    perform notify step exchange = perform idle step exchange := by
  cases step with
  | push | cycle | hand | rounds => cases plain
  | addScript _ sameIdAs => cases sameIdAs <;> simp only [perform]
  | _ => simp only [perform]

end

/-- A plain step in the state in which it was performed. -/
structure Deed where
  before : Exchange
  step : Step

namespace Deed

def outcome (deed : Deed) : Outcome := (perform idle deed.step deed.before).1

def after (deed : Deed) : Exchange := (perform idle deed.step deed.before).2

end Deed

/-- What cycles and calls of handlers do on their own, one piece at a time. -/
inductive Interlude : Exchange → Exchange → Prop where
  | offer : Interlude exchange (exchange.offer source samples).2
  | draw : Interlude exchange (exchange.draw source).2
  | begin (mixer : Nat) (speeches : List Speech) : Interlude exchange
      ({ exchange with cycles := exchange.cycles + 1 }.note (.began exchange.cycles mixer speeches))
  | hand : Interlude exchange ((exchange.updateListener place fun found =>
      { found with pending := some input }).note (.fed place giver input))
  | finish : Interlude exchange (exchange.finish mixer cycle report)
  | read : Interlude exchange (exchange.read place).2
  | call (handler : Nat) (change : Handler → Handler)
      (same : ∀ found, (change found).reaction = found.reaction) :
      Interlude exchange (exchange.updateHandler handler change)
  | notify : Interlude exchange (exchange.updateChannel channel (·.offer place))
  | hold : Interlude exchange (exchange.holding held)
  | release : Interlude exchange exchange.release
  | note (aside : isAside entry = true) : Interlude exchange (exchange.note entry)

/-- The plain steps that were performed between two states, in order. Every run of a program is
such a course (`run_led`). -/
inductive Course (start : Exchange) : List Deed → Exchange → Prop where
  | nil : Course start [] start
  | deed {step : Step} (earlier : Course start deeds exchange) (plain : isPlain step = true) :
      Course start (deeds ++ [⟨exchange, step⟩]) (Deed.after ⟨exchange, step⟩)
  | interlude (earlier : Course start deeds before) (interlude : Interlude before after) :
      Course start deeds after

/-- Whether an entry of the journal tells what a handler did, of itself. -/
def isRemark : Entry → Bool
  | .counted _ _ | .answered _ _ | .ran _ _ => true
  | _ => false

/-- An interlude as it happens. The journal tells that a source was offered samples or read, or that
a listener was fed or read, only where this was done; what is held was alive. -/
inductive Passage : Exchange → Exchange → Prop where
  | offer : Passage exchange (exchange.offer source samples).2
  | draw : Passage exchange (exchange.draw source).2
  | begin (mixer : Nat) (speeches : List Speech) : Passage exchange
      ({ exchange with cycles := exchange.cycles + 1 }.note (.began exchange.cycles mixer speeches))
  | hand : Passage exchange ((exchange.updateListener place fun found =>
      { found with pending := some input }).note (.fed place giver input))
  | finish : Passage exchange (exchange.finish mixer cycle report)
  | read : Passage exchange (exchange.read place).2
  | call (handler : Nat) (change : Handler → Handler)
      (same : ∀ found, (change found).reaction = found.reaction) :
      Passage exchange (exchange.updateHandler handler change)
  | notify : Passage exchange (exchange.updateChannel channel (·.offer place))
  | hold (held : Hold) (live : ∀ mixer ∈ held.mixers, (exchange.liveMixer? mixer).isSome) :
      Passage exchange (exchange.holding held)
  | release : Passage exchange exchange.release
  | remark (noted : isRemark entry = true) : Passage exchange (exchange.note entry)

/-- The plain steps that were performed between two states, in order, where all the rest is told as
it happened. Every run of a program is such a chronicle (`run_recorded`). -/
inductive Chronicle (start : Exchange) : List Deed → Exchange → Prop where
  | nil : Chronicle start [] start
  | deed {step : Step} (earlier : Chronicle start deeds exchange) (plain : isPlain step = true) :
      Chronicle start (deeds ++ [⟨exchange, step⟩]) (Deed.after ⟨exchange, step⟩)
  | passage (earlier : Chronicle start deeds before) (passage : Passage before after) :
      Chronicle start deeds after

variable {step : Step} {before middle after exchange : Exchange}

theorem passage_interlude (passage : Passage before after) : Interlude before after := by
  cases passage with
  | offer => exact .offer
  | draw => exact .draw
  | begin mixer speeches => exact .begin mixer speeches
  | hand => exact .hand
  | finish => exact .finish
  | read => exact .read
  | call handler change same => exact .call handler change same
  | notify => exact .notify
  | hold => exact .hold
  | release => exact .release
  | @remark entry _ noted =>
    apply Interlude.note
    cases entry with
    | began | fed | ended => cases noted
    | _ => rfl

theorem chronicle_course (chronicle : Chronicle before deeds after) :
    Course before deeds after := by
  induction chronicle with
  | nil => exact .nil
  | deed _ plain ih => exact .deed ih plain
  | passage _ passage ih => exact .interlude ih (passage_interlude passage)

theorem chronicle_trans (first : Chronicle before deeds middle)
    (second : Chronicle middle more after) : Chronicle before (deeds ++ more) after := by
  induction second with
  | nil => rwa [List.append_nil]
  | deed _ plain ih =>
    rw [← List.append_assoc]
    exact .deed ih plain
  | passage _ passage ih => exact .passage ih passage

/-- A chronicle goes on from each of its deeds. -/
theorem chronicle_split (chronicle : Chronicle before deeds after) (member : deed ∈ deeds) :
    (∃ earlier, Chronicle before earlier deed.before) ∧
      ∃ later, Chronicle deed.after later after := by
  induction chronicle with
  | nil => cases member
  | passage _ passage ih =>
    obtain ⟨earlier, later, rest⟩ := ih member
    exact ⟨earlier, later, .passage rest passage⟩
  | deed earlier plain ih =>
    rcases List.mem_append.mp member with old | new
    · obtain ⟨begun, later, rest⟩ := ih old
      exact ⟨begun, _, .deed rest plain⟩
    · cases List.mem_singleton.mp new
      exact ⟨⟨_, earlier⟩, [], .nil⟩

/-- Every deed of a course is one of its steps, and a course led there. -/
theorem course_to_deed (course : Course before deeds after) (member : deed ∈ deeds) :
    isPlain deed.step = true ∧ ∃ earlier, Course before earlier deed.before := by
  induction course with
  | nil => cases member
  | interlude _ _ ih => exact ih member
  | deed earlier plain ih =>
    rcases List.mem_append.mp member with old | new
    · exact ih old
    · cases List.mem_singleton.mp new
      exact ⟨plain, _, earlier⟩

private theorem interlude_moves (interlude : Interlude before after) :
    Relation.ReflTransGen Move before after := by
  cases interlude with
  | offer => exact offer_closed moves_closed
  | draw => exact draw_closed moves_closed
  | read => exact read_closed moves_closed
  | begin mixer speeches => exact .single (.inr (.begin mixer speeches))
  | @hand _ _ _ giver =>
    cases giver with
    | none => exact .single (.inl .hand)
    | some cycle => exact .single (.inr .hand)
  | finish => exact .single (.inr .finish)
  | call => exact .single (.inl .handler)
  | notify => exact .single (.inl .channel)
  | hold => exact .single (.inl .hold)
  | release => exact .single (.inl .release)
  | note aside => exact .single (.inl (.note aside))

/-- A course consists of the moves of a run. -/
theorem course_moves (course : Course before deeds after) :
    Relation.ReflTransGen Move before after := by
  induction course with
  | nil => exact .refl
  | deed _ _ ih => exact ih.trans (perform_kept moves_kept (fun _ _ _ => .refl) _ _)
  | interlude _ interlude ih => exact ih.trans (interlude_moves interlude)

/-! ## Programs of one kind -/

mutual

/-- Whether a step and all steps of the programs in it are of one kind. -/
def All (kind : Step → Prop) : Step → Prop
  | .runOnInput listener runs program =>
    kind (.runOnInput listener runs program) ∧ AllOf kind program
  | .rounds _ program => AllOf kind program
  | step => kind step

def AllOf (kind : Step → Prop) : List Step → Prop
  | [] => True
  | step :: rest => All kind step ∧ AllOf kind rest

end

/-- Whether the programs that were left on listeners are of one kind. -/
def Stored (kind : Step → Prop) (exchange : Exchange) : Prop :=
  ∀ (place : Nat) handler program, exchange.handlers[place]? = some handler →
    handler.reaction = .run program → AllOf kind program

/-- What steps of one kind bring about, as long as the programs left on listeners are of that kind
too. -/
def Led (kind : Step → Prop) (before after : Exchange) : Prop :=
  Stored kind before → Stored kind after ∧
    ∃ deeds, Course before deeds after ∧ ∀ deed ∈ deeds, kind deed.step

/-- What steps of one kind bring about, and the journal tells of it. -/
def Recorded (kind : Step → Prop) (before after : Exchange) : Prop :=
  Stored kind before → Stored kind after ∧
    ∃ deeds, Chronicle before deeds after ∧ ∀ deed ∈ deeds, kind deed.step

variable {kind : Step → Prop}

private theorem all_kind (plain : isPlain step = true) (all : All kind step) : kind step := by
  cases step with
  | push | cycle | hand | rounds => cases plain
  | runOnInput => exact all.1
  | _ => exact all

theorem recorded_led (recorded : Recorded kind before after) : Led kind before after := by
  intro stored
  obtain ⟨kept, deeds, chronicle, kinds⟩ := recorded stored
  exact ⟨kept, deeds, chronicle_course chronicle, kinds⟩

theorem recorded_refl : Recorded kind exchange exchange :=
  fun stored => ⟨stored, [], .nil, nofun⟩

theorem recorded_trans (first : Recorded kind before middle) (second : Recorded kind middle after) :
    Recorded kind before after := by
  intro stored
  obtain ⟨storedMiddle, deeds, chronicle, kinds⟩ := first stored
  obtain ⟨storedAfter, more, chronicleMore, kindsMore⟩ := second storedMiddle
  refine ⟨storedAfter, deeds ++ more, chronicle_trans chronicle chronicleMore,
    fun deed member => ?_⟩
  exact (List.mem_append.mp member).elim (kinds deed) (kindsMore deed)

private theorem interlude_reactions (interlude : Interlude before after) (place : Nat) :
    (after.handlers[place]?).map Handler.reaction =
      (before.handlers[place]?).map Handler.reaction := by
  cases interlude with
  | call _ change same =>
    simp only [updateHandler, Array.getElem?_modify]
    split
    · rw [Option.map_map]
      exact congrArg (fun f => (before.handlers[place]?).map f)
        (funext same : Handler.reaction ∘ change = Handler.reaction)
    · rfl
  | offer | draw | read =>
    simp only [Exchange.offer, Exchange.draw, Exchange.read, recordRead]
    repeat' split
    all_goals rfl
  | _ => rfl

theorem passage_recorded (passage : Passage before after) : Recorded kind before after := by
  intro stored
  refine ⟨fun place handler program there runs => ?_, [], .passage .nil passage, nofun⟩
  have same := interlude_reactions (passage_interlude passage) place
  rw [there, Option.map_some, runs] at same
  obtain ⟨earlier, held, ran⟩ := Option.map_eq_some_iff.mp same.symm
  exact stored place earlier program held ran

/-- A plain step installs at most one handler, and a program only if it says so. -/
private theorem plain_handlers (plain : isPlain step = true) (exchange : Exchange) :
    (perform idle step exchange).2.handlers = exchange.handlers ∨
      ∃ handler, (perform idle step exchange).2.handlers = exchange.handlers.push handler ∧
        ∀ program, handler.reaction = .run program →
          ∃ listener runs, step = .runOnInput listener runs program := by
  cases step with
  | push | cycle | hand | rounds => cases plain
  | runOnInput listener runs program =>
    simp only [perform, onListener, onFound]
    split
    · exact .inl rfl
    · refine .inr ⟨_, rfl, ?_⟩
      rintro _ ⟨⟩
      exact ⟨_, _, rfl⟩
  | countOnInput | readOnInput | notifyOnInput =>
    simp only [perform, onListener, onFound]
    split
    · exact .inl rfl
    · refine .inr ⟨_, rfl, fun program runs => ?_⟩
      cases runs
  | addScript _ sameIdAs =>
    left
    cases sameIdAs with
    | none => rfl
    | some source =>
      simp only [perform, onSource, onFound]
      split <;> rfl
  | _ =>
    left
    simp only [perform, onMixer, onListener, onSource, onQueue, onIds, onChannel, onFound,
      Exchange.offer, Exchange.draw, Exchange.read, recordRead, Exchange.start, Exchange.stop,
      Exchange.register, Exchange.unregister, receive]
    repeat' split
    all_goals rfl

private theorem plain_recorded (plain : isPlain step = true) (all : All kind step)
    (notify : Notify) : Recorded kind exchange (perform notify step exchange).2 := by
  intro stored
  rw [perform_plain plain]
  refine ⟨?_, [⟨exchange, step⟩], .deed .nil plain, fun deed member => ?_⟩
  · rcases plain_handlers plain exchange with same | ⟨handler, pushed, installed⟩
    · intro place found program there
      rw [same] at there
      exact stored place found program there
    · intro place found program there runs
      rw [pushed, Array.getElem?_push] at there
      split at there
      · cases there
        obtain ⟨listener, runs, rfl⟩ := installed program runs
        exact all.2
      · exact stored place found program there runs
  · rw [List.mem_singleton.mp member]
    exact all_kind plain all

section Cycles
variable {notify : Notify}
  (free : ∀ handler listener exchange, Recorded kind exchange (notify handler listener exchange))
include free

theorem hand_recorded :
    Recorded kind exchange (exchange.hand notify place giver input) := by
  unfold Exchange.hand
  simp only
  split
  · exact passage_recorded .hand
  · exact recorded_trans (passage_recorded .hand) (free _ _ _)

theorem feed_recorded (entries : List Registered) :
    Recorded kind exchange (feed notify cycle speeches entries exchange) := by
  induction entries generalizing exchange with
  | nil => exact recorded_refl
  | cons entry rest ih => exact recorded_trans (hand_recorded free) ih

omit free in
theorem draw_all_recorded (attached : List Attached) :
    Recorded kind exchange (drawAll attached exchange).2 := by
  induction attached generalizing exchange with
  | nil => exact recorded_refl
  | cons first rest ih =>
    have both : Recorded kind exchange (drawAll rest (exchange.draw first.source).2).2 :=
      recorded_trans (passage_recorded .draw) ih
    simp only [drawAll]
    split <;> exact both

omit free in
private theorem offer_live (mixer : Nat) :
    ((exchange.offer source samples).2.liveMixer? mixer).isSome =
      (exchange.liveMixer? mixer).isSome := by
  unfold Exchange.offer
  split <;> rfl

omit free in
/-- Reading sources does not decide on who lives. -/
theorem draw_all_live (attached : List Attached) (mixer : Nat) :
    (drawAll attached exchange).2.liveMixer? mixer = exchange.liveMixer? mixer := by
  induction attached generalizing exchange with
  | nil => rfl
  | cons first rest ih =>
    have drawn : (exchange.draw first.source).2.liveMixer? mixer = exchange.liveMixer? mixer := by
      unfold Exchange.draw
      split <;> rfl
    have both : (drawAll rest (exchange.draw first.source).2).2.liveMixer? mixer =
        exchange.liveMixer? mixer := ih.trans drawn
    simp only [drawAll]
    split <;> exact both

theorem cycle_recorded (live : (exchange.liveMixer? mixer).isSome) :
    Recorded kind exchange (runCycle notify mixer exchange).2 := by
  unfold runCycle
  split
  · exact recorded_refl
  · rename_i found there
    split
    · exact recorded_refl
    · have counted : (drawAll found.sources exchange).2.cycles = exchange.cycles :=
        draw_all_closed cycles_closed found.sources
      have read : Recorded kind exchange (drawAll found.sources exchange).2 :=
        draw_all_recorded found.sources
      have begun := recorded_trans read
        (passage_recorded (.begin mixer (drawAll found.sources exchange).1))
      rw [counted] at begun
      simp only
      split
      · exact recorded_trans begun (passage_recorded .finish)
      · have alive : ((drawAll found.sources exchange).2.liveMixer? mixer).isSome := by
          rwa [draw_all_live]
        have held := recorded_trans begun (passage_recorded
          (.hold ⟨[mixer], found.listeners.map Registered.listener⟩ fun one member =>
            List.mem_singleton.mp member ▸ alive))
        exact recorded_trans held (recorded_trans (feed_recorded free found.listeners)
          (recorded_trans (passage_recorded .finish) (passage_recorded .release)))

omit free in
private theorem found_recorded (acts : ∀ found, Recorded kind exchange (act found).2) :
    Recorded kind exchange (exchange.onFound found? act).2 := by
  unfold onFound
  split
  · exact recorded_refl
  · exact acts _

omit free in
private theorem mixer_recorded
    (acts : ∀ found, (exchange.liveMixer? mixer).isSome → Recorded kind exchange (act found).2) :
    Recorded kind exchange (exchange.onMixer mixer act).2 := by
  unfold onMixer onFound
  split
  · exact recorded_refl
  · rename_i found held
    obtain ⟨there, holds⟩ := Option.filter_eq_some_iff.mp held
    apply acts
    rw [liveMixer?, there, Option.filter_some_pos]
    · rfl
    · simp [holds]

omit free in
private theorem repeating_recorded
    (acts : ∀ exchange, Recorded kind exchange (action exchange).2) (times : Nat)
    (last : List Outcome) : Recorded kind exchange (repeating action times last exchange).2 := by
  induction times generalizing last exchange with
  | zero => exact recorded_refl
  | succ times ih => exact recorded_trans (acts _) (ih _)

end Cycles

mutual

/-- A step of one kind leads through deeds of that kind, as long as its handlers do. -/
theorem perform_recorded
    (free : ∀ handler listener exchange,
      Recorded kind exchange (notify handler listener exchange)) :
    ∀ (step : Step) (exchange : Exchange), All kind step →
      Recorded kind exchange (perform notify step exchange).2
  | .push _ _ _, _, _ =>
    mixer_recorded fun _ live => found_recorded fun _ =>
      recorded_trans (passage_recorded .offer) (cycle_recorded free ((offer_live _).trans live))
  | .cycle _, _, _ => mixer_recorded fun _ live => cycle_recorded free live
  | .hand _ _ _, _, _ => found_recorded fun _ =>
    recorded_trans (passage_recorded (.hold _ fun _ member => absurd member List.not_mem_nil))
      (recorded_trans (hand_recorded free) (passage_recorded .release))
  | .rounds times program, _, all =>
    repeating_recorded (fun exchange => performAll_recorded free program exchange all) times []
  | .addMixer _, _, all | .dropMixer _, _, all | .addQueue _ _, _, all | .addScript _ _, _, all
  | .attach _ _, _, all | .detach _ _, _, all | .addListener _ _, _, all | .dropListener _, _, all
  | .start _, _, all | .stop _, _, all | .register _ _, _, all | .unregister _ _, _, all
  | .exclude _ _ _, _, all | .offer _ _, _, all | .offerBytes _ _ _, _, all | .draw _, _, all
  | .inspectSource _, _, all | .read _, _, all | .inspectListener _, _, all
  | .countOnInput _, _, all | .readOnInput _, _, all | .notifyOnInput _ _, _, all
  | .runOnInput _ _ _, _, all | .clearHandler _, _, all | .receive _, _, all
  | .dropChannel _, _, all | .halt _, _, all | .inspectMixer _, _, all | .average _, _, all
  | .resetStatistics _, _, all | .describeMixer _, _, all | .describeSource _, _, all
  | .describeListener _, _, all => plain_recorded rfl all notify

theorem performAll_recorded
    (free : ∀ handler listener exchange,
      Recorded kind exchange (notify handler listener exchange)) :
    ∀ (program : List Step) (exchange : Exchange), AllOf kind program →
      Recorded kind exchange (performAll notify program exchange).2
  | [], _, _ => recorded_refl
  | step :: rest, exchange, all =>
    recorded_trans (perform_recorded free step exchange all.1)
      (performAll_recorded free rest _ all.2)

end

/-- So do the handlers that programs leave behind. -/
theorem respond_recorded (depth handler listener : Nat) (exchange : Exchange) :
    Recorded kind exchange (respond depth handler listener exchange) := by
  induction depth using Nat.strongRecOn generalizing handler listener exchange with
  | ind depth ih =>
    unfold respond
    split
    · exact recorded_refl
    · rename_i found there
      have called : Recorded kind exchange (exchange.updateHandler handler fun found =>
          { found with calls := found.calls + 1 }) :=
        passage_recorded (.call handler _ fun _ => rfl)
      cases runs : found.reaction with
      | count => exact recorded_trans called (passage_recorded (.remark rfl))
      | read =>
        exact recorded_trans called
          (recorded_trans (passage_recorded .read) (passage_recorded (.remark rfl)))
      | notify channel => exact recorded_trans called (passage_recorded .notify)
      | run program =>
        cases depth with
        | zero => exact called
        | succ depth =>
          cases found.runsLeft with
          | zero => exact called
          | succ left =>
            have spent : Recorded kind (exchange.updateHandler handler fun found =>
                { found with calls := found.calls + 1 }) _ :=
              passage_recorded
                (.call handler (fun found => { found with runsLeft := left }) fun _ => rfl)
            intro stored
            have all := stored handler found program there runs
            have performed := recorded_trans (recorded_trans called spent)
              (performAll_recorded (ih depth (Nat.lt_succ_self depth)) program _ all)
            exact recorded_trans performed (passage_recorded (.remark rfl)) stored

/-- A run of steps of one kind is a chronicle of deeds of that kind. -/
theorem run_recorded (program : List Step) (exchange : Exchange) (all : AllOf kind program) :
    Recorded kind exchange (exchange.run program).2 := by
  induction program generalizing exchange with
  | nil => exact recorded_refl
  | cons first rest ih =>
    have stepped : Recorded kind exchange (exchange.step first).2 :=
      perform_recorded (respond_recorded _) first exchange all.1
    exact recorded_trans stepped (ih _ all.2)

/-- A run of steps of one kind leads through deeds of that kind. -/
theorem run_led (program : List Step) (exchange : Exchange) (all : AllOf kind program) :
    Led kind exchange (exchange.run program).2 :=
  recorded_led (run_recorded program exchange all)

/-! ## Runs of any kind -/

mutual

theorem all_any (step : Step) : All (fun _ => True) step := by
  cases step with
  | runOnInput listener runs program => exact ⟨trivial, all_of_any program⟩
  | rounds times program => exact all_of_any program
  | _ => exact trivial

theorem all_of_any : ∀ program : List Step, AllOf (fun _ => True) program
  | [] => trivial
  | step :: rest => ⟨all_any step, all_of_any rest⟩

end

/-- Whether a chronicle leads from one state to another. -/
def Chronicled (before after : Exchange) : Prop := ∃ deeds, Chronicle before deeds after

theorem chronicled_refl : Chronicled exchange exchange := ⟨[], .nil⟩

theorem chronicled_trans (first : Chronicled before middle) (second : Chronicled middle after) :
    Chronicled before after := by
  obtain ⟨deeds, first⟩ := first
  obtain ⟨more, second⟩ := second
  exact ⟨deeds ++ more, chronicle_trans first second⟩

theorem chronicled_passage (passage : Passage before after) : Chronicled before after :=
  ⟨[], .passage .nil passage⟩

theorem chronicled_deed (plain : isPlain step = true) (notify : Notify) :
    Chronicled exchange (perform notify step exchange).2 := by
  rw [perform_plain plain]
  exact ⟨_, .deed .nil plain⟩

/-- Memory that suffices in the end sufficed before. -/
theorem chronicled_sufficed (chronicled : Chronicled before after)
    (sufficed : after.exhausted = false) : before.exhausted = false := by
  obtain ⟨deeds, chronicle⟩ := chronicled
  exact moves_sufficed (course_moves (chronicle_course chronicle)) sufficed

/-- What is recorded for steps of any kind is chronicled. -/
theorem chronicled_iff_recorded :
    Chronicled before after ↔ Recorded (fun _ => True) before after := by
  have stored (exchange : Exchange) : Stored (fun _ => True) exchange :=
    fun _ _ program _ _ => all_of_any program
  constructor
  · rintro ⟨deeds, chronicle⟩ -
    exact ⟨stored after, deeds, chronicle, fun _ _ => trivial⟩
  · intro recorded
    obtain ⟨-, deeds, chronicle, -⟩ := recorded (stored before)
    exact ⟨deeds, chronicle⟩

/-- Handlers that do what steps, cycles and reads can do, and no other thing. -/
def Told (notify : Notify) : Prop :=
  ∀ handler listener exchange, Chronicled exchange (notify handler listener exchange)

/-- So do the handlers that programs leave behind, however deep they nest. -/
theorem respond_told (depth : Nat) : Told (respond depth) :=
  fun handler listener exchange =>
    chronicled_iff_recorded.mpr (respond_recorded depth handler listener exchange)

theorem run_chronicled (program : List Step) : Chronicled exchange (exchange.run program).2 :=
  chronicled_iff_recorded.mpr (run_recorded program exchange (all_of_any program))

end Conference.ExchangeCourse
