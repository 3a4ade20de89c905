import Mathlib.Data.List.Sort
import Conference.Proofs.DeskMoves

/-! The sessions of a call as they were made. Identities are given out one by one and never again,
and a session keeps its identity, its media and its master, whatever is done to its progress. Only
masters are derived from, so families are two generations deep. What the sessions say of each other
is therefore what those were told who made them, in whatever order the sessions are gone through. -/
namespace Conference.SessionLineage
open DeskMoves

/-! ## Acts -/

/-- What can be done to the sessions of a call. -/
inductive Act where
  | createMaster (media : Media)
  | createDerived (master : SessionId) (media : Media)
  | endSession (id : SessionId)
  | endAll
  /-- Changes the progress of a session at will. -/
  | edit (id : SessionId) (change : Progress → Progress)

/-- Does an act. One that is refused leaves the sessions as they were. -/
def act (sessions : Sessions) : Act → Reply × Sessions
  | .createMaster media =>
    let (id, later) := sessions.createMaster media
    (.id id, later)
  | .createDerived master media =>
    match sessions.createDerived master media with
    | .error e => (.refused e, sessions)
    | .ok (id, later) => (.id id, later)
  | .endSession id =>
    match sessions.endSession id with
    | .error e => (.refused e, sessions)
    | .ok (ended, later) => (.ids ended, later)
  | .endAll =>
    let (ended, later) := sessions.endAll
    (.ids ended, later)
  | .edit id change => (.session (sessions.get? id), sessions.update id change)

/-- The sessions after some acts. -/
def sessionsAfter (acts : List Act) : Sessions :=
  acts.foldl (fun sessions done => (act sessions done).2) Sessions.empty

/-- Acts, each with its reply. -/
def answered (sessions : Sessions) : List Act → List (Act × Reply)
  | [] => []
  | done :: rest => (done, (act sessions done).1) :: answered (act sessions done).2 rest

/-- The session that an act made, as it was then. -/
def made : Act × Reply → Option Session
  | (.createMaster media, .id id) => some ⟨id, media, none, Progress.initial⟩
  | (.createDerived master media, .id id) => some ⟨id, media, some master, Progress.initial⟩
  | _ => none

/-- The sessions that acts made, as their replies tell. -/
def births (acts : List Act) : List Session := (answered Sessions.empty acts).filterMap made

/-- A session as it was made. -/
def original (session : Session) : Session := session.update fun _ => Progress.initial

/-- Sessions that were made alike differ in nothing but their progress. -/
theorem fixed_of_original {one other : Session} (same : original one = original other) :
    one.id = other.id ∧ one.media = other.media ∧ one.master = other.master :=
  ⟨(congrArg Session.id same :), (congrArg Session.media same :), (congrArg Session.master same :)⟩

variable {sessions later : Sessions} {session : Session} {id master : SessionId}
  {born : List Session}

theorem sessions_after_snoc (acts : List Act) (done : Act) :
    sessionsAfter (acts ++ [done]) = (act (sessionsAfter acts) done).2 := by
  simp [sessionsAfter]

private theorem answered_snoc (sessions : Sessions) (acts : List Act) (last : Act) :
    answered sessions (acts ++ [last]) = answered sessions acts ++
      [(last, (act (acts.foldl (fun earlier done => (act earlier done).2) sessions) last).1)] := by
  induction acts generalizing sessions with
  | nil => rfl
  | cons first rest ih => simp only [List.cons_append, answered, ih, List.foldl_cons]

theorem births_snoc (acts : List Act) (done : Act) : births (acts ++ [done]) =
    births acts ++ (made (done, (act (sessionsAfter acts) done).1)).toList := by
  rw [births, answered_snoc, List.filterMap_append]
  rfl

/-! ## One act -/

/-- What an act does to the sessions: it makes one, or it changes what is not fixed. -/
inductive Effect (sessions : Sessions) : Option Session → Sessions → Prop where
  | makes (rooted : ∀ master, above = some master →
      ∃ parent, sessions.get? master = some parent ∧ parent.isMaster = true) :
      Effect sessions (some ⟨sessions.issued + 1, media, above, Progress.initial⟩)
        (sessions.add media above).2
  | changes (change : Session → Session)
      (same : ∀ session, original (change session) = original session) :
      Effect sessions none ⟨sessions.toList.map change, sessions.issued⟩

private theorem no_effect (sessions : Sessions) : Effect sessions none sessions := by
  simpa using (.changes (fun session => session) fun _ => rfl : Effect sessions none _)

theorem end_where_effect (chosen : Session → Bool) :
    Effect sessions none (sessions.endWhere chosen).2 := by
  apply Effect.changes
  intro session
  split <;> rfl

theorem act_effect (sessions : Sessions) (done : Act) :
    Effect sessions (made (done, (act sessions done).1)) (act sessions done).2 := by
  cases done with
  | createMaster media =>
    refine .makes ?_
    rintro _ ⟨⟩
  | createDerived master media =>
    rcases create_derived_cases sessions master media with
      ⟨error, refused⟩ | ⟨parent, there, full, -, made⟩
    · simp only [act, refused]
      exact no_effect sessions
    · simp only [act, made]
      refine .makes ?_
      rintro _ ⟨⟩
      exact ⟨parent, there, full⟩
  | endSession id =>
    simp only [act, Sessions.endSession]
    cases sessions.get? id with
    | none => exact no_effect sessions
    | some session => exact end_where_effect _
  | endAll => exact end_where_effect _
  | edit id change =>
    apply Effect.changes
    intro session
    split <;> rfl

/-! ## What is on record -/

/-- Sessions in accordance with those that were made. -/
structure Recorded (born : List Session) (sessions : Sessions) : Prop where
  listed : sessions.toList.map original = born
  issued : sessions.issued = born.length
  numbered : sessions.ids = List.range' 1 born.length
  /-- Families are two generations deep, and the older one comes first. -/
  rooted : ∀ session ∈ sessions.toList, ∀ master, session.master = some master →
    master < session.id ∧ ∃ parent, sessions.get? master = some parent ∧ parent.isMaster = true

private theorem ids_original (sessions : Sessions) :
    sessions.ids = (sessions.toList.map original).map Session.id := by
  simp only [Sessions.ids, List.map_map]
  rfl

theorem ids_ascend (recorded : Recorded born sessions) : sessions.ids.Pairwise (· < ·) := by
  rw [recorded.numbered]
  exact List.pairwise_lt_range'

theorem ids_distinct (recorded : Recorded born sessions) : sessions.ids.Nodup :=
  (ids_ascend recorded).imp Nat.ne_of_lt

/-- The session of an identity is the one that has it. -/
theorem get_iff (recorded : Recorded born sessions) :
    sessions.get? id = some session ↔ session ∈ sessions.toList ∧ session.id = id := by
  constructor
  · intro there
    exact ⟨List.mem_of_find?_eq_some there, get_id there⟩
  · rintro ⟨member, rfl⟩
    exact get_of_member (ids_distinct recorded) member

theorem effect_keeps (effect : Effect sessions new later)
    (there : sessions.get? id = some session) :
    ∃ kept, later.get? id = some kept ∧ original kept = original session := by
  cases effect with
  | makes => exact ⟨session, get_add_known there, rfl⟩
  | changes change same =>
    refine ⟨change session, ?_, same session⟩
    rw [get_map change fun session => (fixed_of_original (same session)).1, there, Option.map_some]

theorem effect_listed (effect : Effect sessions new later) :
    later.toList.map original = sessions.toList.map original ++ new.toList ∧
      later.issued = sessions.issued + new.toList.length := by
  cases effect with
  | makes => exact ⟨List.map_append, rfl⟩
  | changes change same => exact ⟨by simp [same], rfl⟩

/-- Identities in use have been given out. -/
private theorem id_le_issued (recorded : Recorded born sessions)
    (there : sessions.get? id = some session) : id ≤ sessions.issued := by
  have known : id ∈ sessions.ids := by
    rw [← get_id there]
    exact List.mem_map_of_mem (List.mem_of_find?_eq_some there)
  rw [recorded.numbered, List.mem_range'_1, Nat.add_comm, ← recorded.issued] at known
  exact Nat.lt_succ_iff.mp known.2

private theorem effect_keeps_master (effect : Effect sessions new later) (master : SessionId)
    (held : ∃ parent, sessions.get? master = some parent ∧ parent.isMaster = true) :
    ∃ parent, later.get? master = some parent ∧ parent.isMaster = true := by
  obtain ⟨parent, there, full⟩ := held
  obtain ⟨still, found, same⟩ := effect_keeps effect there
  refine ⟨still, found, ?_⟩
  rwa [Session.isMaster, (fixed_of_original same).2.2]

private theorem effect_numbered (effect : Effect sessions new later)
    (recorded : Recorded born sessions) :
    later.ids = List.range' 1 (born ++ new.toList).length := by
  have before := recorded.numbered
  rw [ids_original] at before ⊢
  rw [(effect_listed effect).1, List.map_append, before]
  cases effect with
  | makes => simp [List.range'_concat, recorded.issued, Nat.add_comm]
  | changes => simp

private theorem effect_rooted (effect : Effect sessions new later)
    (recorded : Recorded born sessions) (member : session ∈ later.toList)
    (derives : session.master = some master) : master < session.id ∧
      ∃ parent, later.get? master = some parent ∧ parent.isMaster = true := by
  have kept := effect_keeps_master effect master
  cases effect with
  | @makes above media rooted =>
    rcases List.mem_append.mp member with old | new
    · obtain ⟨less, held⟩ := recorded.rooted session old master derives
      exact ⟨less, kept held⟩
    · rw [List.mem_singleton.mp new] at derives ⊢
      obtain ⟨parent, there, full⟩ := rooted master derives
      exact ⟨Nat.lt_succ_of_le (id_le_issued recorded there), kept ⟨parent, there, full⟩⟩
  | changes change same =>
    obtain ⟨old, there, rfl⟩ := List.mem_map.mp member
    obtain ⟨sameId, -, sameMaster⟩ := fixed_of_original (same old)
    obtain ⟨less, held⟩ := recorded.rooted old there master (sameMaster.symm.trans derives)
    exact ⟨sameId.symm ▸ less, kept held⟩

theorem effect_recorded (effect : Effect sessions new later) (recorded : Recorded born sessions) :
    Recorded (born ++ new.toList) later := by
  obtain ⟨listed, issued⟩ := effect_listed effect
  refine ⟨?_, ?_, effect_numbered effect recorded,
    fun session member master => effect_rooted effect recorded member⟩
  · rw [listed, recorded.listed]
  · rw [issued, recorded.issued, List.length_append]

/-- After any acts the sessions are in accordance with the replies to them. -/
theorem sessions_after_recorded (acts : List Act) :
    Recorded (births acts) (sessionsAfter acts) := by
  induction acts using List.reverseRecOn with
  | nil =>
    refine ⟨rfl, rfl, rfl, ?_⟩
    intro session none
    cases none
  | append_singleton earlier done ih =>
    rw [sessions_after_snoc, births_snoc]
    exact effect_recorded (act_effect _ done) ih

/-- Sessions made earlier are there later, and nothing that is fixed about them has changed. -/
theorem sessions_after_keep {acts : List Act} (there : (sessionsAfter acts).get? id = some session)
    (more : List Act) : ∃ later,
      (sessionsAfter (acts ++ more)).get? id = some later ∧ original later = original session := by
  induction more using List.reverseRecOn with
  | nil => exact ⟨session, by rwa [List.append_nil], rfl⟩
  | append_singleton earlier done ih =>
    obtain ⟨middle, held, alike⟩ := ih
    rw [← List.append_assoc, sessions_after_snoc]
    obtain ⟨later, found, same⟩ := effect_keeps (act_effect _ done) held
    exact ⟨later, found, same.trans alike⟩

/-! ## Families -/

theorem derived_of_born (recorded : Recorded born sessions) (master : SessionId) :
    sessions.derivedOf master = (born.filter (·.master == some master)).map Session.id := by
  rw [← recorded.listed, List.filter_map, List.map_map]
  rfl

theorem derived_ascend (recorded : Recorded born sessions) (master : SessionId) :
    (sessions.derivedOf master).Pairwise (· < ·) :=
  (ids_ascend recorded).sublist (List.filter_sublist.map Session.id)

theorem mem_derived_of : id ∈ sessions.derivedOf master ↔
    ∃ session ∈ sessions.toList, session.master = some master ∧ session.id = id := by
  simp [Sessions.derivedOf, and_assoc]

/-- Nothing derives from what is not a master. -/
theorem derived_of_childless (recorded : Recorded born sessions)
    (barren : ∀ session, sessions.get? id = some session → session.isMaster = false) :
    sessions.derivedOf id = [] := by
  rw [List.eq_nil_iff_forall_not_mem]
  intro derived member
  obtain ⟨session, listed, derives, -⟩ := mem_derived_of.mp member
  obtain ⟨-, parent, there, full⟩ := recorded.rooted session listed id derives
  cases full.symm.trans (barren parent there)

/-- Identities that are gone through in any order ascend once they are sorted. -/
theorem sort_ascending {ids passed : List SessionId} (ascend : ids.Pairwise (· < ·))
    (same : passed.Perm ids) : passed.mergeSort = ids :=
  ((List.mergeSort_perm passed _).trans same).eq_of_pairwise' (List.pairwise_mergeSort' _ passed)
    (ascend.imp Nat.le_of_lt)

/-! ## Refusals -/

/-- Why nothing can derive from a session. -/
inductive Unfit (sessions : Sessions) (master : SessionId) : SessionError → Prop where
  | unknown (absent : sessions.get? master = none) : Unfit sessions master (.unknown master)
  /-- Whether it has ended or not. -/
  | derived (there : sessions.get? master = some parent) (derives : parent.isMaster = false) :
      Unfit sessions master (.notAMaster master)
  | ended (there : sessions.get? master = some parent) (full : parent.isMaster = true)
      (ended : parent.phase = .ended) : Unfit sessions master (.masterEnded master)

theorem create_derived_refused_iff (sessions : Sessions) (master : SessionId) (media : Media)
    (error : SessionError) :
    sessions.createDerived master media = .error error ↔ Unfit sessions master error := by
  constructor
  · intro refused
    unfold Sessions.createDerived at refused
    cases there : sessions.get? master with
    | none =>
      simp only [there] at refused
      cases refused
      exact .unknown there
    | some parent =>
      simp only [there] at refused
      cases full : parent.isMaster with
      | false =>
        simp only [full] at refused
        cases refused
        exact .derived there full
      | true =>
        cases ended : parent.isEnded with
        | false => simp [full, ended] at refused
        | true =>
          simp only [full, ended] at refused
          cases refused
          exact .ended there full (by simpa [Session.isEnded] using ended)
  · intro unfit
    unfold Sessions.createDerived
    cases unfit with
    | unknown absent => simp only [absent]
    | derived there derives => simp [there, derives]
    | ended there full ended => simp [there, full, Session.isEnded, ended]

private theorem act_refused {done : Act} (refused : (act sessions done).1 = .refused error) :
    (act sessions done).2 = sessions := by
  cases done with
  | createMaster | endAll | edit => cases refused
  | createDerived master media =>
    simp only [act] at refused ⊢
    split at refused
    · rfl
    · cases refused
  | endSession id =>
    simp only [act] at refused ⊢
    split at refused
    · rfl
    · cases refused

/-! ## The lineage of every session -/

/-- What the sessions of a call have to do with those that were made. -/
structure Lineage (born : List Session) (sessions : Sessions) : Prop where
  /-- Identities count the sessions that were made, from one on. -/
  numbered : sessions.ids = List.range' 1 born.length ∧ sessions.issued = born.length
  /-- What is fixed about each session is what its maker asked for. -/
  listed : sessions.toList.map original = born
  found : ∀ id session, sessions.get? id = some session ↔
    session ∈ sessions.toList ∧ session.id = id
  /-- Families are two generations deep, and the older one comes first. -/
  rooted : ∀ id session master, sessions.get? id = some session → session.master = some master →
    master < id ∧ ∃ parent, sessions.get? master = some parent ∧ parent.isMaster = true
  derived : ∀ master,
    sessions.derivedOf master = (born.filter (·.master == some master)).map Session.id
  childless : ∀ id, (∀ session, sessions.get? id = some session → session.isMaster = false) →
    sessions.derivedOf id = []
  /-- The sessions may be gone through in any order, as long as their identities are sorted. -/
  unordered : ∀ passed : List Session, passed.Perm sessions.toList →
    (passed.map Session.id).mergeSort = sessions.ids ∧ ∀ master,
      ((passed.filter (·.master == some master)).map Session.id).mergeSort =
        sessions.derivedOf master
  refused : ∀ master media error,
    sessions.createDerived master media = .error error ↔ Unfit sessions master error
  unchanged : ∀ done error,
    (act sessions done).1 = .refused error → (act sessions done).2 = sessions

/-- Whatever is done to the sessions of a call, and in whatever order, their lineage is settled by
the replies to those who made them, and it lasts. -/
theorem lineage_settled (acts : List Act) :
    Lineage (births acts) (sessionsAfter acts) ∧
    ∀ id session, (sessionsAfter acts).get? id = some session → ∀ more, ∃ later,
      (sessionsAfter (acts ++ more)).get? id = some later ∧
        later.id = session.id ∧ later.media = session.media ∧ later.master = session.master := by
  have recorded := sessions_after_recorded acts
  refine ⟨⟨⟨recorded.numbered, recorded.issued⟩, recorded.listed,
    fun id session => get_iff recorded, ?_, derived_of_born recorded,
    fun id => derived_of_childless recorded, ?_, create_derived_refused_iff _,
    fun done error => act_refused⟩, ?_⟩
  · intro id session master there derives
    obtain ⟨member, rfl⟩ := (get_iff recorded).mp there
    exact recorded.rooted session member master derives
  · intro passed same
    refine ⟨sort_ascending (ids_ascend recorded) (same.map Session.id), fun master => ?_⟩
    exact sort_ascending (derived_ascend recorded master) ((same.filter _).map Session.id)
  · intro id session there more
    obtain ⟨later, found, same⟩ := sessions_after_keep there more
    exact ⟨later, found, fixed_of_original same⟩

/-- A family whose master is ended and revived, with refusals in between. -/
def revived : List Act :=
  [.createMaster .audio, .createDerived 1 .video, .createDerived 2 .audio, .createDerived 9 .audio,
    .endSession 1, .createDerived 1 .audio, .endSession 9,
    .edit 1 fun progress => { progress with phase := .idle }, .createDerived 1 .audio,
    .createMaster .video]

theorem revived_lineage : (sessionsAfter revived).ids = [1, 2, 3, 4] ∧
    (sessionsAfter revived).derivedOf 1 = [2, 3] ∧ (sessionsAfter revived).derivedOf 2 = [] ∧
    (sessionsAfter revived).createDerived 2 .video = .error (.notAMaster 2) ∧
    ∀ more, ∃ later,
      (sessionsAfter (revived ++ more)).get? 2 = some later ∧ later.master = some 1 := by
  obtain ⟨⟨⟨numbered, -⟩, -, -, -, derived, childless, -, refused, -⟩, lasting⟩ :=
    lineage_settled revived
  have video : (sessionsAfter revived).get? 2 =
      some ⟨2, .video, some 1, { Progress.initial with phase := .ended }⟩ := rfl
  refine ⟨numbered, derived 1, childless 2 ?_, (refused 2 .video _).mpr (.derived video rfl), ?_⟩
  · intro session there
    cases there.symm.trans video
    rfl
  · intro more
    obtain ⟨later, found, -, -, above⟩ := lasting 2 _ video more
    exact ⟨later, found, above⟩

end Conference.SessionLineage
