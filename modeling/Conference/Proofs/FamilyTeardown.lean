import Conference.Proofs.SessionLineage

/-! Families of sessions are torn down exactly. Ending a session reports those of its family that
had not ended, and touches nothing else; it does not matter whether the family is gone through
session by session or the call in one pass. Each session belongs to one master, itself or the one it
derives from, so ending every master, in any order, comes to the same as ending all at once. -/
namespace Conference.FamilyTeardown
open DeskMoves SessionLineage

/-! ## What shall be ended -/

/-- Those of some identities whose sessions have not ended. -/
def living (sessions : Sessions) (ids : List SessionId) : List SessionId :=
  ids.filter fun id => (sessions.get? id).any (!·.isEnded)

def masters (sessions : Sessions) : List SessionId :=
  (sessions.toList.filter Session.isMaster).map Session.id

/-- The sessions of some identities are torn down, and nothing else happens. -/
structure TornDown (sessions : Sessions) (ids : List SessionId) (ended : List SessionId)
    (later : Sessions) : Prop where
  reported : ended = living sessions ids
  ascend : ended.Pairwise (· < ·)
  finished : ∀ id ∈ ids, ∃ session, sessions.get? id = some session ∧
    later.get? id = some session.ending
  spared : ∀ id, id ∉ ids → later.get? id = sessions.get? id
  same : later.ids = sessions.ids ∧ later.issued = sessions.issued

/-- Goes through some identities and ends each session that has not ended yet. -/
def endInTurn (sessions : Sessions) : List SessionId → List SessionId × Sessions
  | [] => ([], sessions)
  | id :: rest =>
    match sessions.get? id with
    | none => endInTurn sessions rest
    | some session =>
      if session.isEnded then endInTurn sessions rest
      else
        let (ended, last) := endInTurn
          (sessions.update id fun progress => { progress with phase := .ended }) rest
        (id :: ended, last)

/-- Ends sessions, each with its family, one after another; gives what is reported each time. -/
def endEach (sessions : Sessions) :
    List SessionId → Except SessionError (List (List SessionId) × Sessions)
  | [] => .ok ([], sessions)
  | id :: rest => do
    let (ended, later) ← sessions.endSession id
    let (reports, last) ← endEach later rest
    return (ended :: reports, last)

variable {sessions : Sessions} {session : Session} {id master : SessionId} {born : List Session}
  {first second chosen : Session → Bool}

theorem mem_living {ids : List SessionId} : id ∈ living sessions ids ↔
    id ∈ ids ∧ ∃ session, sessions.get? id = some session ∧ session.isEnded = false := by
  rw [living, List.mem_filter]
  cases sessions.get? id <;> simp

/-! ## Passes -/

@[simp]
theorem is_ended_ending (session : Session) : session.ending.isEnded = true := rfl

/-- A pass takes a session if it is chosen. -/
theorem end_where_congr (alike : ∀ session ∈ sessions.toList, first session = second session) :
    sessions.endWhere first = sessions.endWhere second := by
  simp only [Sessions.endWhere, Prod.mk.injEq, Sessions.mk.injEq, and_true]
  constructor
  · rw [List.filter_congr fun session member => by rw [alike session member]]
  · exact List.map_congr_left fun session member => by rw [alike session member]

/-- Two passes come to one; the second reports what the first did not choose. -/
theorem end_where_twice (sessions : Sessions) (first second : Session → Bool)
    (stable : ∀ session, second (Session.ending session) = second session) :
    (sessions.endWhere first).2.endWhere second =
      ((sessions.toList.filter fun session =>
          !first session && (second session && !session.isEnded)).map Session.id,
        (sessions.endWhere fun session => first session || second session).2) := by
  simp only [Sessions.endWhere, Prod.mk.injEq, Sessions.mk.injEq, and_true, List.filter_map,
    List.map_map]
  constructor
  · have kept : Session.id ∘ (fun session => if first session then session.ending else session) =
        Session.id := by
      funext session
      simp only [Function.comp_apply]
      split <;> rfl
    rw [kept]
    congr 1
    apply List.filter_congr
    intro session _
    cases chosen : first session <;> simp [chosen]
  · apply List.map_congr_left
    intro session _
    by_cases chosen : first session = true
    · by_cases again : second session = true <;>
        simp [chosen, again, stable, ending_of_ended (phase_ending session)]
    · simp [chosen]

theorem end_where_again (sessions : Sessions)
    (stable : ∀ session, chosen (Session.ending session) = chosen session) :
    (sessions.endWhere chosen).2.endWhere chosen = ([], (sessions.endWhere chosen).2) := by
  rw [end_where_twice sessions chosen chosen stable]
  refine Prod.ext ?_ ?_
  · rw [List.map_eq_nil_iff, List.filter_eq_nil_iff]
    intro session _
    cases chosen session <;> simp
  · simp only [Bool.or_self]

/-- What two passes report is what one would. -/
theorem reported_twice (sessions : Sessions) (first second : Session → Bool) :
    ((sessions.endWhere first).1 ++ (sessions.toList.filter fun session =>
        !first session && (second session && !session.isEnded)).map Session.id).Perm
      (sessions.endWhere fun session => first session || second session).1 := by
  simp only [Sessions.endWhere, ← List.map_append]
  apply List.Perm.map
  have parted := List.filter_append_perm first
    (sessions.toList.filter fun session => (first session || second session) && !session.isEnded)
  simp only [List.filter_filter] at parted
  convert parted using 2
  · congr 1
    funext session
    cases first session <;> simp
  · congr 1
    funext session
    cases first session <;> simp

/-! ## Families -/

/-- A session belongs to the family of an identity if it has that identity or derives from it. -/
def inFamily (id : SessionId) (session : Session) : Bool :=
  session.id == id || session.master == some id

theorem family_iff (recorded : Recorded born sessions) (member : session ∈ sessions.toList) :
    inFamily id session = true ↔ session.id ∈ id :: sessions.derivedOf id := by
  rw [inFamily, Bool.or_eq_true, beq_iff_eq, beq_iff_eq, List.mem_cons, mem_derived_of]
  refine or_congr Iff.rfl ⟨fun derives => ⟨session, member, derives, rfl⟩, ?_⟩
  rintro ⟨other, listed, derives, same⟩
  have only := (get_iff recorded).mpr ⟨listed, same⟩
  cases only.symm.trans ((get_iff recorded).mpr ⟨member, rfl⟩)
  exact derives

theorem family_ascends (recorded : Recorded born sessions) (id : SessionId) :
    (id :: sessions.derivedOf id).Pairwise (· < ·) := by
  rw [List.pairwise_cons]
  refine ⟨?_, derived_ascend recorded id⟩
  intro derived member
  obtain ⟨session, listed, derives, rfl⟩ := mem_derived_of.mp member
  exact (recorded.rooted session listed id derives).1

/-- Everything in a family of a known session is known. -/
theorem family_known (recorded : Recorded born sessions) (there : sessions.get? id = some session) :
    ∀ member ∈ id :: sessions.derivedOf id, ∃ one, sessions.get? member = some one := by
  intro member belongs
  rcases List.mem_cons.mp belongs with rfl | derives
  · exact ⟨session, there⟩
  · obtain ⟨one, listed, -, rfl⟩ := mem_derived_of.mp derives
    exact ⟨one, (get_iff recorded).mpr ⟨listed, rfl⟩⟩

/-- A pass over ascending identities tears down what it chooses. -/
theorem end_where_torn_down (recorded : Recorded born sessions) {ids : List SessionId}
    (ascend : ids.Pairwise (· < ·)) (known : ∀ id ∈ ids, ∃ session, sessions.get? id = some session)
    (named : ∀ session ∈ sessions.toList, chosen session = true ↔ session.id ∈ ids) :
    TornDown sessions ids (sessions.endWhere chosen).1 (sessions.endWhere chosen).2 := by
  have reported : (sessions.endWhere chosen).1 = living sessions ids := by
    have passed : (sessions.endWhere chosen).1.Pairwise (· < ·) :=
      (ids_ascend recorded).sublist (List.filter_sublist.map Session.id)
    refine passed.eq_of_mem_iff (ascend.sublist List.filter_sublist) fun id => ?_
    rw [mem_living]
    constructor
    · intro ends
      obtain ⟨session, picked, rfl⟩ := List.mem_map.mp ends
      obtain ⟨member, both⟩ := List.mem_filter.mp picked
      obtain ⟨hit, alive⟩ := (Bool.and_eq_true _ _).mp both
      exact ⟨(named session member).mp hit, session, (get_iff recorded).mpr ⟨member, rfl⟩,
        (Bool.not_eq_true' _).mp alive⟩
    · rintro ⟨member, session, there, alive⟩
      obtain ⟨listed, rfl⟩ := (get_iff recorded).mp there
      refine List.mem_map.mpr ⟨session, List.mem_filter.mpr ⟨listed, ?_⟩, rfl⟩
      simp [(named session listed).mpr member, alive]
  refine ⟨reported, ?_, ?_, ?_, ?_⟩
  · rw [reported]
    exact ascend.sublist List.filter_sublist
  · intro id member
    obtain ⟨session, there⟩ := known id member
    have named := named session (List.mem_of_find?_eq_some there)
    rw [get_id there] at named
    refine ⟨session, there, ?_⟩
    rw [get_end_where, there, Option.map_some, if_pos (named.mpr member)]
  · intro id apart
    rw [get_end_where]
    cases there : sessions.get? id with
    | none => rfl
    | some session =>
      have named := named session (List.mem_of_find?_eq_some there)
      rw [get_id there] at named
      rw [Option.map_some, if_neg (mt named.mp apart)]
  · exact ⟨ids_map _ (by intro session; split <;> rfl), rfl⟩

theorem family_torn_down (recorded : Recorded born sessions)
    (there : sessions.get? id = some session) :
    TornDown sessions (id :: sessions.derivedOf id) (sessions.endWhere (inFamily id)).1
      (sessions.endWhere (inFamily id)).2 :=
  end_where_torn_down recorded (family_ascends recorded id) (family_known recorded there)
    fun _ member => family_iff recorded member

theorem all_torn_down (recorded : Recorded born sessions) :
    TornDown sessions sessions.ids sessions.endAll.1 sessions.endAll.2 := by
  refine end_where_torn_down recorded (ids_ascend recorded) ?_ ?_
  · intro id member
    obtain ⟨session, listed, rfl⟩ := List.mem_map.mp member
    exact ⟨session, (get_iff recorded).mpr ⟨listed, rfl⟩⟩
  · intro session member
    exact ⟨fun _ => List.mem_map_of_mem member, fun _ => rfl⟩

/-! ## One session after another -/

private theorem end_where_recorded (recorded : Recorded born sessions)
    (chosen : Session → Bool) : Recorded born (sessions.endWhere chosen).2 := by
  simpa using effect_recorded (end_where_effect chosen) recorded

/-- Passes that differ in nothing but sessions that have ended leave the same behind. -/
theorem end_where_alike (alike : ∀ session ∈ sessions.toList,
      first session = second session ∨ session.phase = .ended) :
    (sessions.endWhere first).2 = (sessions.endWhere second).2 := by
  simp only [Sessions.endWhere, Sessions.mk.injEq, and_true]
  apply List.map_congr_left
  intro session member
  rcases alike session member with same | ended
  · rw [same]
  · rw [ending_of_ended ended, ite_self, ite_self]

/-- An identity whose session has ended, or that has none, is passed by. -/
private theorem end_in_turn_skips
    (gone : ∀ session, sessions.get? id = some session → session.isEnded = true)
    (rest : List SessionId) : endInTurn sessions (id :: rest) = endInTurn sessions rest ∧
      living sessions (id :: rest) = living sessions rest := by
  cases there : sessions.get? id with
  | none => simp [endInTurn, living, there]
  | some session => simp [endInTurn, living, there, gone session there]

/-- A session that has not ended is ended in a pass of its own, before the others. -/
private theorem end_in_turn_ends (there : sessions.get? id = some session)
    (alive : session.isEnded = false) (rest : List SessionId) (fresh : id ∉ rest) :
    endInTurn sessions (id :: rest) =
        (id :: (endInTurn (sessions.endWhere (·.id == id)).2 rest).1,
          (endInTurn (sessions.endWhere (·.id == id)).2 rest).2) ∧
      living sessions (id :: rest) = id :: living (sessions.endWhere (·.id == id)).2 rest := by
  have begun : sessions.update id (fun progress => { progress with phase := .ended }) =
      (sessions.endWhere (·.id == id)).2 := rfl
  have others : living (sessions.endWhere (·.id == id)).2 rest = living sessions rest := by
    apply List.filter_congr
    intro other member
    rw [← begun, get_update_other (ne_of_mem_of_not_mem member fresh)]
  refine ⟨by simp [endInTurn, there, alive, begun], ?_⟩
  rw [others]
  simp [living, there, alive]

/-- Going through identities one by one comes to the same as one pass. -/
theorem end_in_turn (recorded : Recorded born sessions) {ids : List SessionId}
    (once : ids.Nodup) : endInTurn sessions ids =
      (living sessions ids, (sessions.endWhere fun session => decide (session.id ∈ ids)).2) := by
  induction ids generalizing sessions with
  | nil => simp [endInTurn, living, Sessions.endWhere]
  | cons id rest ih =>
    obtain ⟨fresh, once⟩ := List.nodup_cons.mp once
    by_cases lives : ∃ session, sessions.get? id = some session ∧ session.isEnded = false
    · obtain ⟨session, there, alive⟩ := lives
      obtain ⟨turn, reported⟩ := end_in_turn_ends there alive rest fresh
      rw [turn, reported, ih (end_where_recorded recorded _) once,
        end_where_twice _ _ _ fun _ => rfl]
      refine congrArg _ (end_where_alike fun other _ => .inl ?_)
      by_cases same : other.id = id <;> simp [same]
    · have gone : ∀ session, sessions.get? id = some session → session.isEnded = true := by
        simpa using lives
      obtain ⟨turn, reported⟩ := end_in_turn_skips gone rest
      rw [turn, reported, ih recorded once]
      refine congrArg _ (end_where_alike fun other member => ?_)
      by_cases same : other.id = id
      · exact .inr ((ended_iff other).mp (gone other ((get_iff recorded).mpr ⟨member, same⟩)))
      · exact .inl (by simp [same])

/-! ## One family after another -/

theorem end_session_known (there : sessions.get? id = some session) :
    sessions.endSession id = .ok (sessions.endWhere (inFamily id)) := by
  simp only [Sessions.endSession, there]
  rfl

/-- Ending sessions one after another comes to one pass through their families. -/
theorem end_each_passes {order : List SessionId}
    (known : ∀ id ∈ order, ∃ session, sessions.get? id = some session) : ∃ reports,
      endEach sessions order =
        .ok (reports, (sessions.endWhere fun session => order.any (inFamily · session)).2) ∧
      reports.flatten.Perm
        (sessions.endWhere fun session => order.any (inFamily · session)).1 := by
  induction order generalizing sessions with
  | nil => exact ⟨[], by simp [endEach, Sessions.endWhere], by simp [Sessions.endWhere]⟩
  | cons id rest ih =>
    obtain ⟨session, there⟩ := known id List.mem_cons_self
    have remain : ∀ other ∈ rest, ∃ session,
        (sessions.endWhere (inFamily id)).2.get? other = some session := by
      intro other member
      obtain ⟨session, held⟩ := known other (List.mem_cons_of_mem id member)
      exact ⟨_, by rw [get_end_where, held, Option.map_some]⟩
    obtain ⟨reports, ended, reported⟩ := ih remain
    rw [end_where_twice sessions _ _ fun _ => rfl] at ended reported
    refine ⟨(sessions.endWhere (inFamily id)).1 :: reports, ?_, ?_⟩
    · simp only [endEach, end_session_known there]
      change (endEach (sessions.endWhere (inFamily id)).2 rest >>= _) = _
      rw [ended]
      rfl
    · rw [List.flatten_cons]
      exact (reported.append_left _).trans (reported_twice sessions _ _)

/-- Each session belongs to the family of a master. -/
theorem has_master (recorded : Recorded born sessions) (member : session ∈ sessions.toList) :
    ∃ id ∈ masters sessions, inFamily id session = true := by
  cases above : session.master with
  | none =>
    have full : session.isMaster = true := by simp [Session.isMaster, above]
    refine ⟨session.id, List.mem_map_of_mem (List.mem_filter.mpr ⟨member, full⟩), ?_⟩
    simp [inFamily]
  | some master =>
    obtain ⟨-, parent, there, full⟩ := recorded.rooted session member master above
    obtain ⟨listed, rfl⟩ := (get_iff recorded).mp there
    refine ⟨parent.id, List.mem_map_of_mem (List.mem_filter.mpr ⟨listed, full⟩), ?_⟩
    simp [inFamily, above]

theorem end_each_master (recorded : Recorded born sessions) {order : List SessionId}
    (same : order.Perm (masters sessions)) : ∃ reports,
      endEach sessions order = .ok (reports, sessions.endAll.2) ∧
      reports.flatten.Perm sessions.endAll.1 := by
  have known : ∀ id ∈ order, ∃ session, sessions.get? id = some session := by
    intro id member
    obtain ⟨session, picked, rfl⟩ := List.mem_map.mp (same.mem_iff.mp member)
    exact ⟨session, (get_iff recorded).mpr ⟨(List.mem_filter.mp picked).1, rfl⟩⟩
  have all : sessions.endWhere (fun session => order.any (inFamily · session)) =
      sessions.endAll := by
    apply end_where_congr
    intro session member
    obtain ⟨id, listed, belongs⟩ := has_master recorded member
    exact List.any_eq_true.mpr ⟨id, same.mem_iff.mpr listed, belongs⟩
  have each := end_each_passes known
  rwa [all] at each

/-! ## Teardown -/

/-- How sessions are ended. -/
structure Exact (sessions : Sessions) : Prop where
  /-- One session with its family; a second time there is nothing left to end. -/
  one : ∀ id session, sessions.get? id = some session → ∃ ended later,
    sessions.endSession id = .ok (ended, later) ∧
    TornDown sessions (id :: sessions.derivedOf id) ended later ∧
    later.endSession id = .ok ([], later)
  /-- The same, session by session. Only masters are asked for what derives from them. -/
  inTurn : ∀ id session, sessions.get? id = some session → sessions.endSession id =
    .ok (endInTurn sessions (id :: if session.isMaster then sessions.derivedOf id else []))
  all : TornDown sessions sessions.ids sessions.endAll.1 sessions.endAll.2
  /-- The pass may go through the sessions in any order, as long as its report is sorted. -/
  unordered : ∀ passed : List Session, passed.Perm sessions.toList →
    ((passed.filter (!·.isEnded)).map Session.id).mergeSort = sessions.endAll.1
  /-- Ending every master, in any order, ends all sessions and reports each of them once. -/
  each : ∀ order : List SessionId, order.Perm (masters sessions) → ∃ reports,
    endEach sessions order = .ok (reports, sessions.endAll.2) ∧
    reports.flatten.Perm sessions.endAll.1 ∧ reports.flatten.Nodup

/-- Whatever was done to the sessions of a call before, they are torn down exactly. -/
theorem teardown_exact (acts : List Act) : Exact (sessionsAfter acts) := by
  have recorded := sessions_after_recorded acts
  generalize sessionsAfter acts = sessions at recorded
  have all := all_torn_down recorded
  refine ⟨?_, ?_, all, ?_, ?_⟩
  · intro id session there
    have torn := family_torn_down recorded there
    obtain ⟨kept, -, found⟩ := torn.finished id List.mem_cons_self
    refine ⟨(sessions.endWhere (inFamily id)).1, (sessions.endWhere (inFamily id)).2,
      end_session_known there, torn, ?_⟩
    rw [end_session_known found, end_where_again sessions fun _ => rfl]
  · intro id session there
    have targets : (if session.isMaster then sessions.derivedOf id else []) =
        sessions.derivedOf id := by
      split
      · rfl
      · rename_i derived
        refine (derived_of_childless recorded fun one held => ?_).symm
        cases held.symm.trans there
        exact Bool.eq_false_iff.mpr derived
    have once := (family_ascends recorded id).imp Nat.ne_of_lt
    rw [end_session_known there, targets, end_in_turn recorded once]
    refine congrArg _ (Prod.ext (family_torn_down recorded there).reported ?_)
    refine end_where_alike fun one member => .inl ?_
    exact Bool.eq_iff_iff.mpr ((family_iff recorded member).trans decide_eq_true_iff.symm)
  · intro passed same
    exact sort_ascending all.ascend ((same.filter _).map Session.id)
  · intro order same
    obtain ⟨reports, ended, reported⟩ := end_each_master recorded same
    exact ⟨reports, ended, reported, reported.nodup_iff.mpr (all.ascend.imp Nat.ne_of_lt)⟩

/-- Two families, one of which has lost a derived session and the other its master. -/
def bereft : List Act :=
  [.createMaster .audio, .createDerived 1 .video, .createDerived 1 .video, .createMaster .audio,
    .createDerived 4 .video, .endSession 2,
    .edit 4 fun progress => { progress with phase := .ended }]

theorem bereft_families_end :
    (∃ ended later, (sessionsAfter bereft).endSession 4 = .ok (ended, later) ∧ ended = [5] ∧
      later.endSession 4 = .ok ([], later)) ∧
    ∃ reports, endEach (sessionsAfter bereft) [4, 1] =
        .ok (reports, (sessionsAfter bereft).endAll.2) ∧
      reports.flatten.Perm [1, 3, 5] ∧ reports.flatten.Nodup := by
  obtain ⟨one, -, -, -, each⟩ := teardown_exact bereft
  obtain ⟨ended, later, done, torn, again⟩ := one 4 _ rfl
  exact ⟨⟨ended, later, done, torn.reported, again⟩, each [4, 1] (.swap 1 4 [])⟩

end Conference.FamilyTeardown
