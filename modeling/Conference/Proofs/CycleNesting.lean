import Conference.Proofs.CycleCourse

/-! How cycles nest. Handlers may run whole cycles between two listeners that a cycle feeds, and
inside those further ones. What the journal writes down of all this is a bracketed text: a cycle
opens when it has read its sources, encloses whatever its handlers do, and closes before anything
outside goes on. Cycles are numbered as they open. -/
namespace Conference.CycleNesting
open Exchange ExchangeMoves CycleCourse

/-- The cycle that an entry of the journal belongs to. -/
def cycleOf : Entry → Option Nat
  | .began cycle _ _ => some cycle
  | .fed _ cycle _ => cycle
  | .ended cycle _ => some cycle
  | _ => none

/-- What passed while the cycles from one number up to another began, `outer` being the innermost
cycle that was running. A cycle that began also ended. -/
inductive Passed : Option Nat → Nat → List Entry → Nat → Prop where
  | nil : Passed outer first [] first
  | aside (apart : cycleOf entry = none) (rest : Passed outer first trace next) :
      Passed outer first (entry :: trace) next
  | fed (rest : Passed (some cycle) first trace next) :
      Passed (some cycle) first (.fed place (some cycle) input :: trace) next
  | cycle (inside : Passed (some first) (first + 1) body middle)
      (rest : Passed outer middle trace next) :
      Passed outer first
        (.began first mixer speeches :: (body ++ .ended first report :: trace)) next

theorem passed_append (early : Passed outer first trace middle)
    (late : Passed outer middle more next) : Passed outer first (trace ++ more) next := by
  induction early with
  | nil => exact late
  | aside apart _ ih => exact .aside apart (ih late)
  | fed _ ih => exact .fed (ih late)
  | cycle inside _ _ ih =>
    rw [List.cons_append, List.append_assoc, List.cons_append]
    exact .cycle inside (ih late)

/-- What passes outside any cycle may pass within one. -/
theorem passed_within (outside : Passed none first trace next) (outer : Option Nat) :
    Passed outer first trace next := by
  generalize nobody : (none : Option Nat) = nowhere at outside
  induction outside with
  | nil => exact .nil
  | aside apart _ ih => exact .aside apart (ih nobody)
  | fed => cases nobody
  | cycle inside _ _ ih => exact .cycle inside (ih nobody)

theorem passed_le (passed : Passed outer first trace next) : first ≤ next := by
  induction passed with
  | nil => exact Nat.le_refl _
  | aside _ _ ih => exact ih
  | fed _ ih => exact ih
  | cycle _ _ inside rest => omega

/-- Every cycle that is told of either runs around all this or began in it. -/
theorem passed_cycles (passed : Passed outer first trace next) (member : entry ∈ trace)
    (belongs : cycleOf entry = some cycle) : outer = some cycle ∨ first ≤ cycle ∧ cycle < next := by
  induction passed with
  | nil => cases member
  | aside apart _ ih =>
    rcases List.mem_cons.mp member with rfl | later
    · rw [apart] at belongs
      cases belongs
    · exact ih later
  | fed _ ih =>
    rcases List.mem_cons.mp member with rfl | later
    · exact .inl belongs
    · exact ih later
  | cycle inside rest insideCycles restCycles =>
    have inner := passed_le inside
    have outer := passed_le rest
    rcases List.mem_cons.mp member with rfl | later
    · cases belongs
      exact .inr ⟨Nat.le_refl _, by omega⟩
    rcases List.mem_append.mp later with within | after
    · rcases insideCycles within with same | ⟨low, high⟩
      · cases same
        exact .inr ⟨Nat.le_refl _, by omega⟩
      · exact .inr ⟨by omega, by omega⟩
    rcases List.mem_cons.mp after with rfl | beyond
    · cases belongs
      exact .inr ⟨Nat.le_refl _, by omega⟩
    · rcases restCycles beyond with same | ⟨low, high⟩
      · exact .inl same
      · exact .inr ⟨by omega, high⟩

/-- A cycle of one number began in a piece of a journal before the cycle of another, which was
running, ended. -/
def RanInside (journal : List Entry) (inner outer : Nat) : Prop :=
  ∃ before mixer speeches body report after innerMixer innerSpeeches,
    journal = before ++ .began outer mixer speeches :: (body ++ .ended outer report :: after) ∧
    .began inner innerMixer innerSpeeches ∈ body

/-- The number of a cycle that an entry tells the beginning of. -/
def beginning : Entry → Option Nat
  | .began cycle _ _ => some cycle
  | _ => none

/-- Cycles begin in the order of their numbers. -/
theorem passed_numbers (passed : Passed outer first trace next) :
    trace.filterMap beginning = List.range' first (next - first) := by
  induction passed with
  | nil => simp
  | @aside entry _ _ _ _ apart _ ih =>
    have aside : beginning entry = none := by
      cases entry with
      | began => cases apart
      | _ => rfl
    rw [List.filterMap_cons, aside]
    exact ih
  | fed _ ih => exact ih
  | @cycle first body middle _ trace next _ _ _ inside rest insideNumbers restNumbers =>
    have inner := passed_le inside
    have outer := passed_le rest
    have split : next - first = (middle - (first + 1)) + (next - middle) + 1 := by omega
    have seam : first + 1 + (middle - (first + 1)) = middle := by omega
    rw [List.filterMap_cons, List.filterMap_append, List.filterMap_cons, insideNumbers,
      restNumbers, split, List.range'_succ, ← List.range'_append_1, seam]
    rfl

/-- A cycle that is told of and does not run around all this began in it. -/
theorem passed_began (passed : Passed outer first trace next) (member : entry ∈ trace)
    (belongs : cycleOf entry = some cycle) :
    outer = some cycle ∨ ∃ mixer speeches, .began cycle mixer speeches ∈ trace := by
  rcases passed_cycles passed member belongs with same | ⟨low, high⟩
  · exact .inl same
  · have numbered : cycle ∈ trace.filterMap beginning := by
      rw [passed_numbers passed, List.mem_range'_1]
      omega
    obtain ⟨origin, told, begins⟩ := List.mem_filterMap.mp numbered
    cases origin with
    | began number mixer speeches =>
      cases begins
      exact .inr ⟨mixer, speeches, told⟩
    | _ => cases begins

/-- What began inside a cycle has a higher number. -/
theorem ran_inside_later {journal : List Entry} (passed : Passed outer first journal next)
    (inside : RanInside journal newer older) : older < newer := by
  obtain ⟨before, mixer, speeches, body, report, after, innerMixer, innerSpeeches, rfl, began⟩ :=
    inside
  have ordered : (List.range' first (next - first)).Pairwise (· < ·) := List.pairwise_lt_range'
  rw [← passed_numbers passed, List.filterMap_append, List.filterMap_cons,
    List.filterMap_append] at ordered
  have follows := (List.pairwise_append.mp ordered).2.1
  refine (List.pairwise_cons.mp follows).1 newer (List.mem_append_left _ ?_)
  exact List.mem_filterMap.mpr ⟨_, began, rfl⟩

/-- What is told of a newer cycle inside the body of an older one shows that it ran there. -/
private theorem ran_inside_body (inside : Passed (some older) next body middle)
    (part : .began older mixer speeches :: (body ++ .ended older report :: trace) <:+: whole)
    (member : entry ∈ body) (belongs : cycleOf entry = some newer) (above : older < newer) :
    RanInside whole newer older := by
  rcases passed_began inside member belongs with same | ⟨inner, set, began⟩
  · cases same
    exact absurd above (Nat.lt_irrefl _)
  · obtain ⟨before, after, rfl⟩ := part
    exact ⟨before, mixer, speeches, body, report, trace ++ after, inner, set, by simp, began⟩

/-- Of two entries, one after the other, the later one belongs to an older cycle only if that runs
around all this or the newer cycle ran inside it. -/
def InOrder (whole : List Entry) (outer : Option Nat) (earlier later : Entry) : Prop :=
  ∀ newer older, cycleOf earlier = some newer → cycleOf later = some older → older < newer →
    outer = some older ∨ RanInside whole newer older

private theorem block_in_order (inside : Passed (some first) (first + 1) body middle)
    (part : .began first mixer speeches :: (body ++ .ended first report :: trace) <:+: whole)
    (ordered : body.Pairwise (InOrder whole (some first))) :
    (.began first mixer speeches :: (body ++ [.ended first report])).Pairwise
      (InOrder whole outer) := by
  have block : Passed none first (.began first mixer speeches :: (body ++ [.ended first report]))
      middle := .cycle inside .nil
  refine List.pairwise_cons.mpr ⟨?_, List.pairwise_append.mpr
    ⟨?_, List.pairwise_singleton _ _, ?_⟩⟩
  · intro later member newer older told belongs above
    cases told
    rcases passed_cycles block (List.mem_cons_of_mem _ member) belongs with nowhere | ⟨low, -⟩
    · cases nowhere
    · omega
  · refine ordered.imp_of_mem fun within _ explained newer older told belongs above => ?_
    rcases explained newer older told belongs above with same | ran
    · cases same
      exact .inr (ran_inside_body inside part within told above)
    · exact .inr ran
  · intro earlier within later member newer older told belongs above
    cases List.mem_singleton.mp member
    cases belongs
    exact .inr (ran_inside_body inside part within told above)

/-- Entries come in the order of their cycles, but where cycles nest. -/
theorem passed_in_order (passed : Passed outer first trace next)
    (around : ∀ cycle, outer = some cycle → cycle < first) (part : trace <:+: whole) :
    trace.Pairwise (InOrder whole outer) := by
  induction passed with
  | nil => exact List.Pairwise.nil
  | aside apart _ ih =>
    refine List.pairwise_cons.mpr ⟨fun later _ newer older told => ?_,
      ih around ((List.suffix_cons _ _).isInfix.trans part)⟩
    rw [apart] at told
    cases told
  | fed rest ih =>
    refine List.pairwise_cons.mpr ⟨fun later member newer older told belongs above => ?_,
      ih around ((List.suffix_cons _ _).isInfix.trans part)⟩
    have below := around _ rfl
    cases told
    rcases passed_cycles rest member belongs with same | ⟨low, -⟩
    · exact .inl same
    · omega
  | @cycle first body middle outer trace next mixer speeches report inside rest insideOrder
      restOrder =>
    have opened := passed_le inside
    have bodyPart : body <:+: whole := by
      refine List.IsInfix.trans ⟨[.began first mixer speeches], .ended first report :: trace, ?_⟩ part
      simp
    have tracePart : trace <:+: whole := by
      refine List.IsInfix.trans
        ⟨.began first mixer speeches :: (body ++ [.ended first report]), [], ?_⟩ part
      simp
    have bodyOrder : body.Pairwise (InOrder whole (some first)) := by
      refine insideOrder (fun cycle same => ?_) bodyPart
      cases same
      exact Nat.lt_succ_self _
    have traceOrder : trace.Pairwise (InOrder whole outer) := by
      refine restOrder (fun cycle same => ?_) tracePart
      have below := around cycle same
      omega
    have seam : .began first mixer speeches :: (body ++ .ended first report :: trace) =
        (.began first mixer speeches :: (body ++ [.ended first report])) ++ trace := by simp
    rw [seam]
    refine List.pairwise_append.mpr ⟨block_in_order inside part bodyOrder, traceOrder, ?_⟩
    -- What follows the block belongs to a cycle around it or to one that began after its end.
    intro earlier within later member newer older told belongs above
    rcases passed_cycles rest member belongs with same | ⟨low, -⟩
    · exact .inl same
    · rcases passed_cycles (.cycle inside .nil) within told with same | ⟨-, high⟩
      · have below := around newer same
        omega
      · omega

/-! ## Exchanges -/

/-- What is done to an exchange adds to its journal, and what it adds is such a text. -/
def Continues (before after : Exchange) : Prop :=
  ∃ trace, after.journal.toList = before.journal.toList ++ trace ∧
    Passed none before.cycles trace after.cycles

private theorem continues_trans (first : Continues before middle)
    (second : Continues middle after) : Continues before after := by
  obtain ⟨trace, written, passed⟩ := first
  obtain ⟨more, writtenMore, passedMore⟩ := second
  exact ⟨trace ++ more, by rw [writtenMore, written, List.append_assoc],
    passed_append passed passedMore⟩

private theorem continues_same (journal : after.journal = before.journal)
    (cycles : after.cycles = before.cycles) : Continues before after :=
  ⟨[], by rw [journal, List.append_nil], cycles ▸ .nil⟩

private theorem continues_aside (apart : cycleOf entry = none)
    (journal : after.journal = before.journal.push entry)
    (cycles : after.cycles = before.cycles) : Continues before after :=
  ⟨[entry], by rw [journal, Array.toList_push], cycles ▸ .aside apart .nil⟩

private theorem cycle_of_aside (aside : isAside entry = true) : cycleOf entry = none := by
  cases entry with
  | began | fed | ended => cases aside
  | _ => rfl

private theorem change_continues (change : Change before after) : Continues before after := by
  cases change with
  | hand => exact continues_aside rfl rfl rfl
  | note aside => exact continues_aside (cycle_of_aside aside) rfl rfl
  | register =>
    rcases register_cases _ _ before with same | ⟨_, same⟩ <;> rw [same] <;>
      exact continues_same rfl rfl
  | unregister =>
    rcases unregister_cases _ _ before with same | same <;> rw [same] <;>
      exact continues_same rfl rfl
  | _ => exact continues_same rfl rfl

theorem continues_closed : Closed Continues where
  refl := continues_same rfl rfl
  trans := continues_trans
  change := change_continues

/-- The inputs that a cycle itself hands out in a piece of a journal, in order. -/
def handedBy (cycle : Nat) (trace : List Entry) : List (Nat × Pending) :=
  trace.filterMap fun
    | .fed place (some giver) input => if giver = cycle then some (place, input) else none
    | _ => none

/-- A cycle hands nothing out in what passes after it began and outside it. -/
theorem handed_by_none (passed : Passed none first trace next) (earlier : cycle < first) :
    handedBy cycle trace = [] := by
  refine List.filterMap_eq_nil_iff.mpr fun entry member => ?_
  split
  · rename_i place giver input
    rcases passed_cycles passed member rfl with same | ⟨low, -⟩
    · cases same
    · rw [if_neg (by omega)]
  · rfl

/-- What a cycle reports, given its mixer and the sources as it found them. -/
def reportOf (found : Mixer) (sources : Array Source) : CycleReport :=
  if spoken found.sources sources = [] then .idle
  else ⟨(spoken found.sources sources).length, Speech.longest (spoken found.sources sources),
    found.listeners.length⟩

/-- What a cycle hands out, given its mixer and the sources as it found them: its share to each
registered listener, unless no source speaks. -/
def dueOf (found : Mixer) (sources : Array Source) : List (Nat × Pending) :=
  if spoken found.sources sources = [] then []
  else found.listeners.map fun entry =>
    (entry.listener, share (spoken found.sources sources) entry)

section
variable {notify : Notify} (free : ∀ handler listener exchange,
  Continues exchange (notify handler listener exchange))
include free

private theorem hand_continues (place cycle : Nat) (input : Pending) (exchange : Exchange) :
    ∃ trace, (exchange.hand notify place (some cycle) input).journal.toList =
        exchange.journal.toList ++ .fed place (some cycle) input :: trace ∧
      Passed none exchange.cycles trace (exchange.hand notify place (some cycle) input).cycles := by
  unfold hand
  simp only
  split
  · exact ⟨[], by simp [note, updateListener], .nil⟩
  · rename_i handler called
    obtain ⟨trace, written, passed⟩ := free handler place
      ((exchange.updateListener place fun found => { found with pending := some input }).note
        (.fed place (some cycle) input))
    exact ⟨trace, by rw [written]; simp [note, updateListener], passed⟩

/-- A cycle feeds the listeners of its registry once each and in order, whatever their handlers
do in between. -/
theorem feed_continues (cycle : Nat) (speeches : List Speech) (entries : List Registered)
    (exchange : Exchange) (begun : cycle < exchange.cycles) :
    ∃ trace, (feed notify cycle speeches entries exchange).journal.toList =
        exchange.journal.toList ++ trace ∧
      Passed (some cycle) exchange.cycles trace
        (feed notify cycle speeches entries exchange).cycles ∧
      handedBy cycle trace = entries.map fun entry => (entry.listener, share speeches entry) := by
  induction entries generalizing exchange with
  | nil => exact ⟨[], by simp [feed], .nil, rfl⟩
  | cons entry rest ih =>
    obtain ⟨called, written, passed⟩ :=
      hand_continues free entry.listener cycle (share speeches entry) exchange
    have later := Nat.lt_of_lt_of_le begun (passed_le passed)
    obtain ⟨trace, writtenMore, passedMore, handed⟩ := ih _ later
    refine ⟨.fed entry.listener (some cycle) (share speeches entry) :: (called ++ trace), ?_, ?_, ?_⟩
    · rw [feed_cons, writtenMore, written]
      simp
    · exact .fed (passed_append (passed_within passed (some cycle)) passedMore)
    · have silent : handedBy cycle called = [] := handed_by_none passed begun
      rw [handedBy] at silent handed
      simp [handedBy, silent, handed]

/-- The journal of a whole cycle. What stands between its beginning and its end is what it hands out
and what its handlers do. -/
theorem run_cycle_journal {exchange : Exchange} (there : exchange.mixers[mixer]? = some found)
    (running : found.stopped = false) :
    (runCycle notify mixer exchange).1 = reportOf found exchange.sources ∧
    ∃ body, (runCycle notify mixer exchange).2.journal.toList =
        exchange.journal.toList ++ ((readings found.sources exchange.sources).map fun reading =>
          .drawn reading.1.source reading.2) ++
        .began exchange.cycles mixer (spoken found.sources exchange.sources) ::
          (body ++ [.ended exchange.cycles (reportOf found exchange.sources)]) ∧
      Passed (some exchange.cycles) (exchange.cycles + 1) body
        (runCycle notify mixer exchange).2.cycles ∧
      handedBy exchange.cycles body = dueOf found exchange.sources := by
  have read := draw_all_journal found.sources exchange
  by_cases silent : spoken found.sources exchange.sources = []
  · rw [run_cycle_silent there running silent, reportOf, dueOf, if_pos silent, if_pos silent]
    refine ⟨rfl, [], ?_, .nil, rfl⟩
    simp [finish, updateMixer, opened, note, read, silent]
  · rw [run_cycle_heard there running rfl silent, reportOf, dueOf, if_neg silent, if_neg silent]
    obtain ⟨body, written, passed, handed⟩ := feed_continues free exchange.cycles
      (spoken found.sources exchange.sources) found.listeners
      ((opened mixer found exchange).holding ⟨[mixer], found.listeners.map Registered.listener⟩)
      (Nat.lt_succ_self _)
    refine ⟨rfl, body, ?_, passed, handed⟩
    simp only [release, finish, updateMixer, note, Array.toList_push, written]
    simp [opened, holding, note, read]

end

private theorem passed_aside (apart : ∀ entry ∈ trace, cycleOf entry = none) :
    Passed outer first trace first := by
  induction trace with
  | nil => exact .nil
  | cons entry trace ih =>
    exact .aside (apart entry List.mem_cons_self)
      (ih fun one member => apart one (List.mem_cons_of_mem _ member))

theorem continues_kept : Kept Continues where
  toClosed := continues_closed
  cycle {notify exchange mixer} free := by
    cases there : exchange.mixers[mixer]? with
    | none =>
      rw [runCycle, there]
      exact continues_same rfl rfl
    | some found =>
      cases running : found.stopped with
      | true =>
        simp only [runCycle, there, running, if_true]
        exact continues_same rfl rfl
      | false =>
        obtain ⟨-, body, written, passed, -⟩ := run_cycle_journal free there running
        refine ⟨_, by rw [written, List.append_assoc], ?_⟩
        refine passed_append (passed_aside fun entry member => ?_) (.cycle passed .nil)
        obtain ⟨reading, -, rfl⟩ := List.mem_map.mp member
        rfl

end Conference.CycleNesting
