import Conference.Proofs.DeskMoves

/-! What the call believes about encryption. Of a session that has not ended, the last report that
the call had, if any, says that media is encrypted exactly when the session is secure. Between a
change of state and the report of it the call may make, start and end sessions; it can make none
secure, and none clear but by ending it. -/
namespace Conference.SecurityReports
open DeskMoves

variable {id : SessionId} {session : Session} {desk : Desk}

/-- What an update says about encryption. -/
def encrypted? : Update → Option Bool
  | .securityOn _ _ _ _ => some true
  | .securityOff _ => some false
  | .startDerived => none
  | .message _ => none

/-- What a delivery says about the encryption of one session. -/
def sayingOf (id : SessionId) (delivery : Delivery) : Option Bool :=
  if delivery.session = id then encrypted? delivery.update else none

/-- All that the call was told about the encryption of a session, in order. -/
def reported (id : SessionId) (told : List Delivery) : List Bool := told.filterMap (sayingOf id)

/-- The sessions that deliveries are about are known, and those that have not ended are as they
were reported last. -/
structure InForce (desk : Desk) : Prop where
  known : ∀ delivery ∈ desk.told.toList,
    ∃ session, desk.sessions.get? delivery.session = some session
  agrees : ∀ id session, desk.sessions.get? id = some session → session.phase ≠ .ended →
    (session.phase = .secureOn ↔ (reported id desk.told.toList).getLast? = some true)

/-! ## Requests -/

private theorem tended_secure (tended : Tended session later) (alive : later.phase ≠ .ended) :
    session.phase ≠ .ended ∧ (later.phase = .secureOn ↔ session.phase = .secureOn) := by
  cases tended with
  | same => exact ⟨alive, Iff.rfl⟩
  | started idle => exact ⟨by simp [idle], by simp [idle]⟩
  | ended => exact absurd rfl alive

private theorem reported_unknown (known : ∀ delivery ∈ desk.told.toList, ∃ session,
      desk.sessions.get? delivery.session = some session)
    (absent : desk.sessions.get? id = none) : reported id desk.told.toList = [] := by
  refine List.filterMap_eq_nil_iff.mpr fun delivery member => ?_
  obtain ⟨session, there⟩ := known delivery member
  have apart : delivery.session ≠ id := by
    rintro rfl
    cases absent.symm.trans there
  exact if_neg apart

/-- Requests leave it at that: a session that they make is not secure, and was never reported. -/
private theorem served_in_force {served : Desk} (sound : InForce desk)
    (changes : Relation.ReflTransGen Change desk.sessions served.sessions)
    (told : served.told = desk.told) : InForce served := by
  constructor
  · intro delivery member
    rw [told] at member
    obtain ⟨session, there⟩ := sound.known delivery member
    obtain ⟨later, found, -⟩ := changes_known changes there
    exact ⟨later, found⟩
  · intro id later found alive
    rw [told]
    cases there : desk.sessions.get? id with
    | some session =>
      obtain ⟨same, kept, tended⟩ := changes_known changes there
      cases found.symm.trans kept
      obtain ⟨before, secure⟩ := tended_secure tended alive
      exact secure.trans (sound.agrees id session there before)
    | none =>
      obtain ⟨born, initial, tended⟩ := changes_new changes there found
      have idle : born.phase = .idle := congrArg Progress.phase initial
      rw [(tended_secure tended alive).2, reported_unknown sound.known there, idle]
      simp

/-! ## Events -/

private theorem secure_reported (session : Session) :
    [session.securityOn].filterMap encrypted? = [true] := by
  unfold Session.securityOn
  split <;> rfl

/-- An event that leaves a session alive reports exactly what it changes about encryption. -/
private theorem taken_reports (taken : Taken callEnded session event later updates)
    (alive : later.phase ≠ .ended) {past : List Bool}
    (agrees : session.phase = .secureOn ↔ past.getLast? = some true) :
    later.phase = .secureOn ↔
      (past ++ updates.filterMap encrypted?).getLast? = some true := by
  cases taken with
  | noted change phase failure asked message =>
    have unrelated : (message.map Update.message).toList.filterMap encrypted? = [] := by
      cases message <;> rfl
    rw [unrelated, List.append_nil, ← agrees]
    exact Eq.congr_left phase
  | derivedDue =>
    have said : [.startDerived, session.securityOn].filterMap encrypted? = [true] :=
      secure_reported session
    simp [said]
  | secured => simp [secure_reported]
  | cleared => simp [encrypted?]
  | clearedFailed _ failed => simp [encrypted?, failed]
  | ended => exact absurd rfl alive
  | failed insecure =>
    have never : past.getLast? ≠ some true := mt agrees.mpr insecure
    simpa using never

private theorem awaken_secure (session : Session) :
    session.awaken.phase = .secureOn ↔ session.phase = .secureOn := by
  rcases awaken_cases session with ⟨idle, awake⟩ | ⟨-, awake⟩
  · simp [awake, idle]
  · rw [awake]

private theorem reported_append (id : SessionId) (told more : List Delivery) :
    reported id (told ++ more) = reported id told ++ reported id more := List.filterMap_append

private theorem reported_entries (id subject : SessionId) (updates : List Update) (desk : Desk) :
    reported id ((tellings reaction subject updates desk).map (entry reaction subject)) =
      if subject = id then updates.filterMap encrypted? else [] := by
  have about (telling : Desk × Update) : sayingOf id (entry reaction subject telling) =
      if subject = id then encrypted? telling.2 else none := rfl
  rw [reported, List.filterMap_map, Function.comp_def, funext about]
  split
  · have updated := List.filterMap_map (f := Prod.snd) (g := encrypted?)
      (l := tellings reaction subject updates desk)
    rw [tellings_updates] at updated
    exact updated.symm
  · simp

/-- An event that was applied, with all that the call is told of it. -/
private theorem event_in_force (sound : InForce desk)
    (there : desk.sessions.get? id = some session) : InForce (desk.handle reaction id event) := by
  -- the entries may as well be made at once: what requests do later keeps the agreement
  have told : InForce { applied id session event desk with
      told := (desk.told.toList ++
        (tellingsOf reaction id session event desk).map (entry reaction id)).toArray } := by
    constructor
    · intro delivery member
      rcases List.mem_append.mp member with old | new
      · by_cases same : delivery.session = id
        · rw [same]
          exact ⟨_, get_applied there event⟩
        · obtain ⟨known, held⟩ := sound.known delivery old
          exact ⟨known, (get_applied_other same).trans held⟩
      · obtain ⟨telling, -, rfl⟩ := List.mem_map.mp new
        exact ⟨_, get_applied there event⟩
    · intro other later found alive
      rw [List.toList_toArray, reported_append, tellingsOf, reported_entries]
      by_cases same : id = other
      · subst same
        cases found.symm.trans (get_applied there _)
        have living : session.phase ≠ .ended := by
          intro ended
          rw [receive_ended ended] at alive
          exact alive ended
        have agrees := (awaken_secure session).trans (sound.agrees id session there living)
        simpa only [if_true] using taken_reports (receive_taken living _ _ _) alive agrees
      · rw [if_neg same, List.append_nil]
        refine sound.agrees other later ?_ alive
        exact (get_applied_other (Ne.symm same)).symm.trans found
  refine served_in_force told (handle_changes there reaction event) ?_
  exact Array.toList_inj.mp (handle_told there reaction event)

private theorem perform_in_force (sound : InForce desk) (operation : Operation) :
    InForce (perform desk operation) := by
  cases operation with
  | ask request =>
    have served := serve_served desk request
    exact served_in_force sound served.sessions served.told
  | report id event inquired reaction =>
    have served := consult_served event inquired desk
    have asked := served_in_force sound served.sessions served.told
    change InForce ((consult event inquired desk).handle reaction id event)
    cases there : (consult event inquired desk).sessions.get? id with
    | none => rwa [handle_unknown there]
    | some session => exact event_in_force asked there

/-- Between the operations of a run, a session that has not ended is secure exactly when the last
that the call was told about its encryption is that it is on. -/
theorem secure_iff_reported (texts : Texts) (operations : List Operation)
    (known : (run texts operations).sessions.get? id = some session)
    (alive : session.phase ≠ .ended) :
    session.phase = .secureOn ↔
      (reported id (run texts operations).told.toList).getLast? = some true := by
  have begin : InForce (Desk.ofTexts texts) := by
    constructor
    · intro delivery member
      exact absurd member List.not_mem_nil
    · intro other early there
      have nobody : (Desk.ofTexts texts).sessions.get? other = none := rfl
      cases nobody.symm.trans there
  have sound := run_keeps begin (fun _ operation sound => perform_in_force sound operation)
    operations
  exact sound.agrees id session known alive

/-- Both sessions turn secure, the second made while the call was told of the first; then the
master turns clear and fails. -/
def masterFails : List Operation :=
  [.ask (.createMaster .audio), .report 1 (.message (.info .secureStateOn)) [] startsVideo,
    .report 2 (.message (.info .secureStateOn)) [] startsVideo,
    .report 1 .secureOff [.setCallEnded true, .setCallEnded false] startsVideo,
    .report 1 (.negotiationFailed (.severe .noTimer)) [] startsVideo]

theorem video_remains_secure :
    (reported 2 (run .standard masterFails).told.toList).getLast? = some true ∧
      (reported 1 (run .standard masterFails).told.toList).getLast? ≠ some true := by
  have video : (run .standard masterFails).sessions.get? 2 = some ⟨2, .video, some 1,
      { Progress.initial with phase := .secureOn }⟩ := by decide +kernel
  have master : (run .standard masterFails).sessions.get? 1 = some ⟨1, .audio, none,
      { Progress.initial with
        phase := .failed, failure := some (.severe .noTimer), derivedStarted := true }⟩ := by
    decide +kernel
  constructor
  · exact (secure_iff_reported .standard masterFails video nofun).mp rfl
  · exact mt (secure_iff_reported .standard masterFails master nofun).mpr nofun

end Conference.SecurityReports
