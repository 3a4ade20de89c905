import Conference.Proofs.DeskMoves

/-! The life of a session. Whatever the engine reports and whatever the call does meanwhile, one
operation takes a session along an edge of the life cycle or leaves its phase; no run leads back to
an earlier stage, out of a failure or out of the end. A failure is on record exactly when there was
one. -/
namespace Conference.SessionLifeCycle
open DeskMoves

variable {id : SessionId} {session : Session}

/-- The phases that a phase may give way to in one operation. -/
def onward : Phase → List Phase
  | .idle => [.negotiating, .secureOn, .secureOff, .failed, .ended]
  | .negotiating => [.secureOn, .secureOff, .failed, .ended]
  | .secureOn => [.secureOff, .ended]
  | .secureOff => [.secureOn, .failed, .ended]
  | .failed => [.ended]
  | .ended => []

/-- What one operation may make of a session. -/
structure Proceeds (session later : Session) : Prop where
  phase : later.phase = session.phase ∨ later.phase ∈ onward session.phase
  ended : session.phase = .ended → later = session

/-- What a whole run may make of a session: nothing that has passed comes back. -/
structure Outlived (session later : Session) : Prop where
  idle : later.phase = .idle → session.phase = .idle
  negotiating : later.phase = .negotiating →
    session.phase = .idle ∨ session.phase = .negotiating
  failed : session.phase = .failed → later.phase = .failed ∨ later.phase = .ended
  ended : session.phase = .ended → later = session

/-- What is on record about a failure. -/
structure Accounted (session : Session) : Prop where
  failed : session.phase = .failed → session.progress.failure.isSome
  sound : session.phase ≠ .failed → session.phase ≠ .ended → session.progress.failure = none

/-! ## One operation -/

private theorem idle_proceeds (idle : session.phase = .idle) : Proceeds session later where
  phase := by
    rw [idle]
    cases later.phase <;> simp [onward]
  ended ended := by cases idle.symm.trans ended

private theorem ending_proceeds (session : Session) : Proceeds session session.ending where
  phase := by
    change Phase.ended = session.phase ∨ Phase.ended ∈ onward session.phase
    cases session.phase <;> simp [onward]
  ended := ending_of_ended

private theorem same_proceeds : Proceeds session session := ⟨.inl rfl, fun _ => rfl⟩

private theorem tended_proceeds (tended : Tended session later) : Proceeds session later := by
  cases tended with
  | same => exact same_proceeds
  | started idle => exact idle_proceeds idle
  | ended => exact ending_proceeds session

/-- Requests after an operation add no edge: an idle session may turn into anything, and into every
phase there is a way to the end. -/
private theorem proceeds_tended (proceeds : Proceeds session middle)
    (tended : Tended middle later) : Proceeds session later := by
  cases tended with
  | same => exact proceeds
  | started idle =>
    have before : session.phase = .idle := by
      rcases proceeds.phase with same | moved
      · exact same.symm.trans idle
      · rw [idle] at moved
        cases old : session.phase <;> simp [old, onward] at moved
    exact idle_proceeds before
  | ended =>
    by_cases ended : session.phase = .ended
    · rw [proceeds.ended ended]
      exact ending_proceeds session
    · refine ⟨(ending_proceeds session).phase, fun finished => absurd finished ended⟩

private theorem taken_proceeds (busy : session.phase ≠ .idle) (alive : session.phase ≠ .ended)
    (taken : Taken callEnded session event later updates) : Proceeds session later := by
  refine ⟨?_, fun ended => absurd ended alive⟩
  cases taken with
  | noted change phase => exact .inl phase
  | derivedDue sound | secured sound =>
    change Phase.secureOn = session.phase ∨ Phase.secureOn ∈ onward session.phase
    cases old : session.phase <;> simp_all [onward]
  | cleared _ sound =>
    change Phase.secureOff = session.phase ∨ Phase.secureOff ∈ onward session.phase
    cases old : session.phase <;> simp_all [onward]
  | clearedFailed => exact .inl rfl
  | ended => exact (ending_proceeds session).phase
  | failed insecure =>
    change Phase.failed = session.phase ∨ Phase.failed ∈ onward session.phase
    cases old : session.phase <;> simp_all [onward]

private theorem stepped_proceeds (stepped : Stepped session later) : Proceeds session later := by
  cases stepped with
  | tended tended => exact tended_proceeds tended
  | @received middle _ _ _ found _ asked alive taken told =>
    rcases awaken_cases middle with ⟨idle, -⟩ | ⟨busy, awake⟩
    · have before : session.phase = .idle := by
        cases asked with
        | same => exact idle
        | started begun => exact begun
        | ended => exact absurd rfl alive
      exact idle_proceeds before
    · rw [awake] at taken
      refine proceeds_tended ?_ told
      have proceeds := taken_proceeds busy alive taken
      cases asked with
      | same => exact proceeds
      | started begun => exact idle_proceeds begun
      | ended => exact absurd rfl alive

/-! ## Whole runs -/

private theorem outlived_refl : Outlived session session :=
  ⟨fun same => same, .inr, .inl, fun _ => rfl⟩

private theorem outlived_proceeds (outlived : Outlived session middle)
    (proceeds : Proceeds middle later) : Outlived session later where
  idle now := by
    refine outlived.idle ?_
    rcases proceeds.phase with same | moved
    · exact same.symm.trans now
    · rw [now] at moved
      cases old : middle.phase <;> simp [old, onward] at moved
  negotiating now := by
    rcases proceeds.phase with same | moved
    · exact outlived.negotiating (same.symm.trans now)
    · rw [now] at moved
      refine .inl (outlived.idle ?_)
      cases old : middle.phase <;> simp [old, onward] at moved ⊢
  failed failed := by
    rcases outlived.failed failed with old | old
    · rcases proceeds.phase with same | moved
      · exact .inl (same.trans old)
      · rw [old] at moved
        exact .inr (List.mem_singleton.mp moved)
    · rw [proceeds.ended old]
      exact .inr old
  ended ended := by
    have same := outlived.ended ended
    subst same
    exact proceeds.ended ended

private theorem run_outlived {desk : Desk} (there : desk.sessions.get? id = some session)
    (operations : List Operation) : ∃ later,
      (operations.foldl perform desk).sessions.get? id = some later ∧ Outlived session later := by
  induction operations using List.reverseRecOn with
  | nil => exact ⟨session, there, outlived_refl⟩
  | append_singleton earlier operation ih =>
    obtain ⟨middle, held, outlived⟩ := ih
    rw [List.foldl_append]
    obtain ⟨later, found, stepped⟩ := perform_known held operation
    exact ⟨later, found, outlived_proceeds outlived (stepped_proceeds stepped)⟩

/-! ## Failures -/

private theorem tended_accounted (tended : Tended session later) (accounted : Accounted session) :
    Accounted later := by
  cases tended with
  | same => exact accounted
  | started idle =>
    have clean := accounted.sound (by simp [idle]) (by simp [idle])
    exact ⟨nofun, fun _ _ => clean⟩
  | ended => exact ⟨nofun, fun _ alive => absurd rfl alive⟩

private theorem taken_accounted (taken : Taken callEnded session event later updates)
    (alive : session.phase ≠ .ended) (accounted : Accounted session) : Accounted later := by
  cases taken with
  | noted change phase failure =>
    refine ⟨fun failed => ?_, fun sound _ => ?_⟩
    · exact (congrArg Option.isSome failure).trans (accounted.failed (phase.symm.trans failed))
    · exact failure.trans (accounted.sound (fun failed => sound (phase.trans failed)) alive)
  | derivedDue sound | secured sound | cleared _ sound =>
    exact ⟨nofun, fun _ _ => accounted.sound sound alive⟩
  | clearedFailed => exact accounted
  | ended => exact ⟨nofun, fun _ finished => absurd rfl finished⟩
  | failed => exact ⟨fun _ => rfl, fun sound _ => absurd rfl sound⟩

private theorem stepped_accounted (stepped : Stepped session later)
    (accounted : Accounted session) : Accounted later := by
  cases stepped with
  | tended tended => exact tended_accounted tended accounted
  | @received middle _ _ _ found _ asked alive taken told =>
    have before := tended_accounted asked accounted
    refine tended_accounted told ?_
    rcases awaken_cases middle with ⟨idle, awake⟩ | ⟨-, awake⟩
    · rw [awake] at taken
      exact taken_accounted taken nofun (tended_accounted (.started idle) before)
    · rw [awake] at taken
      exact taken_accounted taken alive before

/-! ## The life cycle -/

/-- Every session of every run, from the moment at which it is known: the next operation takes it
along an edge or leaves it in its phase, no further run brings back what has passed, and its
failure is accounted for. -/
theorem life_cycle (texts : Texts) (earlier : List Operation)
    (known : (run texts earlier).sessions.get? id = some session) :
    (∀ operation, ∃ next, (run texts (earlier ++ [operation])).sessions.get? id = some next ∧
      (next.phase = session.phase ∨ next.phase ∈ onward session.phase)) ∧
    (∀ operations, ∃ later, (run texts (earlier ++ operations)).sessions.get? id = some later ∧
      Outlived session later) ∧
    Accounted session := by
  refine ⟨fun operation => ?_, fun operations => ?_, ?_⟩
  · rw [run_append]
    obtain ⟨next, found, stepped⟩ := perform_known known operation
    exact ⟨next, found, (stepped_proceeds stepped).phase⟩
  · rw [run_append]
    exact run_outlived known operations
  · refine run_each_keeps (fun fresh initial => ?_) stepped_accounted texts earlier known
    have idle : fresh.phase = .idle := congrArg Progress.phase initial
    constructor
    · intro failed
      cases idle.symm.trans failed
    · intro _ _
      exact congrArg Progress.failure initial

/-- A master turns secure, and the session made while the call was told so fails. -/
def videoFails : List Operation :=
  [.ask (.createMaster .audio), .report 1 (.message (.info .secureStateOn)) [] startsVideo,
    .report 2 (.negotiationFailed (.severe .tooMuchRetries)) [] startsVideo]

theorem failed_video_stays_insecure : ∃ video : Session,
    (run .standard videoFails).sessions.get? 2 = some video ∧ video.phase = .failed ∧
      video.progress.failure.isSome ∧
      ∀ operations, ∃ later,
        (run .standard (videoFails ++ operations)).sessions.get? 2 = some later ∧
        (later.phase = .failed ∨ later.phase = .ended) := by
  have known : (run .standard videoFails).sessions.get? 2 = some ⟨2, .video, some 1,
      { Progress.initial with phase := .failed, failure := some (.severe .tooMuchRetries) }⟩ := rfl
  obtain ⟨-, forward, accounted⟩ := life_cycle .standard videoFails known
  refine ⟨_, known, rfl, accounted.failed rfl, ?_⟩
  intro operations
  obtain ⟨later, found, outlived⟩ := forward operations
  exact ⟨later, found, outlived.failed rfl⟩

end Conference.SessionLifeCycle
