import Mathlib.Data.List.Induction
import Mathlib.Logic.Relation
import Conference.KeyAgreement.Desk

/-! Whatever happens at a desk is a sequence of operations: the call asks for something, or the
engine reports an event, and the call asks for more while it is told of it. Requests do five things
to the sessions, whenever they are made; an event changes one session, in one of seven ways, before
the call is told anything. -/
namespace Conference.DeskMoves
open Desk (Reaction ofTexts deliver)

/-! ## Runs -/

/-- What happens at a desk from outside. -/
inductive Operation where
  | ask (request : Request)
  /-- An event of a session. The call asks for `inquired` when it is asked whether it has ended,
  and so may change its answer and much else; it answers an update by the requests of `reaction`. -/
  | report (id : SessionId) (event : Event) (inquired : List Request) (reaction : Reaction)

/-- The desk when an event is applied. The call is asked whether it has ended only where this
matters, and before the session is looked up. -/
def consult (event : Event) (inquired : List Request) (desk : Desk) : Desk :=
  if event = .secureOff then (desk.serveAll inquired).2 else desk

def perform (desk : Desk) : Operation → Desk
  | .ask request => (desk.serve request).2
  | .report id event inquired reaction => (consult event inquired desk).handle reaction id event

/-- The desk after a run, which begins without sessions. -/
def run (texts : Texts) (operations : List Operation) : Desk :=
  operations.foldl perform (ofTexts texts)

theorem run_append (texts : Texts) (earlier operations : List Operation) :
    run texts (earlier ++ operations) = operations.foldl perform (run texts earlier) :=
  List.foldl_append

/-- A call that makes and starts a second session when it is asked for those that derive from the
first. -/
def startsVideo : Reaction
  | _, .startDerived => [.createDerived 1 .video, .start 2]
  | _, _ => []

/-- What a request does to the sessions, if it changes them. -/
inductive Change : Sessions → Sessions → Prop where
  | createMaster : Change sessions (sessions.add media none).2
  | createDerived (there : sessions.get? master = some parent)
      (full : parent.isMaster = true) (alive : parent.phase ≠ .ended) :
      Change sessions (sessions.add media (some master)).2
  | start {id : SessionId} (there : sessions.get? id = some session)
      (idle : session.phase = .idle) :
      Change sessions (sessions.update id fun progress => { progress with phase := .negotiating })
  | endSession {id : SessionId} (there : sessions.get? id = some session) : Change sessions
      (sessions.endWhere fun session => session.id == id || session.master == some id).2
  | endAll : Change sessions (sessions.endWhere fun _ => true).2

/-- What requests leave behind: the sessions may have changed, and the call was told nothing. -/
structure Served (before after : Desk) : Prop where
  sessions : Relation.ReflTransGen Change before.sessions after.sessions
  told : after.told = before.told
  texts : after.texts = before.texts

variable {id other : SessionId} {session : Session} {sessions before after : Sessions}
  {desk : Desk} {reaction : Reaction}

/-! ## Sessions by their identity -/

@[simp]
theorem phase_update (session : Session) (change : Progress → Progress) :
    (session.update change).phase = (change session.progress).phase := rfl

@[simp]
theorem phase_ending (session : Session) : session.ending.phase = .ended := rfl

/-- Ending a session a second time changes nothing. -/
theorem ending_of_ended (ended : session.phase = .ended) : session.ending = session := by
  have same : { session.progress with phase := .ended } = session.progress := by
    rw [← ended]
    rfl
  exact congrArg (fun progress => { session with progress }) same

theorem no_master (full : session.isMaster = true) : session.master = none := by
  simpa [Session.isMaster] using full

theorem get_id (there : sessions.get? id = some session) : session.id = id := by
  simpa using List.find?_some there

theorem ids_map (change : Session → Session)
    (same : ∀ session, (change session).id = session.id) :
    Sessions.ids ⟨sessions.toList.map change, sessions.issued⟩ = sessions.ids := by
  simp only [Sessions.ids, List.map_map]
  exact List.map_congr_left fun session _ => same session

/-- A change that keeps identities changes the session of each identity. -/
theorem get_map (change : Session → Session)
    (same : ∀ session, (change session).id = session.id) :
    Sessions.get? ⟨sessions.toList.map change, sessions.issued⟩ id =
      (sessions.get? id).map change := by
  simp only [Sessions.get?, List.find?_map, Function.comp_def, same]

theorem get_update (there : sessions.get? id = some session) (change : Progress → Progress) :
    (sessions.update id change).get? id = some (session.update change) := by
  rw [Sessions.update, get_map _ (by intro session; split <;> rfl), there]
  simp [get_id there]

theorem get_update_other (apart : other ≠ id) (change : Progress → Progress) :
    (sessions.update id change).get? other = sessions.get? other := by
  rw [Sessions.update, get_map _ (by intro session; split <;> rfl)]
  cases there : sessions.get? other with
  | none => rfl
  | some session => simp [get_id there, apart]

theorem get_end_where (chosen : Session → Bool) : (sessions.endWhere chosen).2.get? id =
    (sessions.get? id).map fun session => if chosen session then session.ending else session :=
  get_map _ (by intro session; split <;> rfl)

theorem get_add_known (there : sessions.get? id = some session) :
    (sessions.add media master).2.get? id = some session := by
  have found : sessions.toList.find? (·.id == id) = some session := there
  simp [Sessions.get?, Sessions.add, List.find?_append, found]

theorem get_add_new (absent : sessions.get? id = none)
    (there : (sessions.add media master).2.get? id = some session) :
    session = ⟨sessions.issued + 1, media, master, Progress.initial⟩ := by
  have missing : sessions.toList.find? (·.id == id) = none := absent
  simp only [Sessions.get?, Sessions.add, List.find?_append, missing, Option.none_or] at there
  exact List.mem_singleton.mp (List.mem_of_find?_eq_some there)

/-- Where identities are distinct, the session of an identity is the one that has it. -/
theorem get_of_member (distinct : sessions.ids.Nodup) (member : session ∈ sessions.toList) :
    sessions.get? session.id = some session := by
  obtain ⟨list, issued⟩ := sessions
  change list.find? (·.id == session.id) = some session
  induction list with
  | nil => cases member
  | cons first rest ih =>
    obtain ⟨absent, restDistinct⟩ := List.nodup_cons.mp distinct
    rcases List.mem_cons.mp member with rfl | later
    · simp
    · have apart : first.id ≠ session.id := by
        intro same
        apply absent
        rw [same]
        exact List.mem_map_of_mem later
      rw [List.find?_cons_of_neg (by simpa using apart)]
      exact ih restDistinct later

/-! ## Requests -/

private theorem served_refl : Served desk desk := ⟨.refl, rfl, rfl⟩

private theorem served_trans {desk middle served : Desk} (first : Served desk middle)
    (second : Served middle served) : Served desk served :=
  ⟨first.sessions.trans second.sessions, second.told.trans first.told,
    second.texts.trans first.texts⟩

theorem ended_iff (session : Session) :
    session.isEnded = true ↔ session.phase = .ended := by
  simp [Session.isEnded]

theorem create_derived_cases (sessions : Sessions) (master : SessionId) (media : Media) :
    (∃ error, sessions.createDerived master media = .error error) ∨
    ∃ parent, sessions.get? master = some parent ∧ parent.isMaster = true ∧
      parent.phase ≠ .ended ∧
      sessions.createDerived master media = .ok (sessions.add media (some master)) := by
  unfold Sessions.createDerived
  cases sessions.get? master with
  | none => exact .inl ⟨_, rfl⟩
  | some parent =>
    by_cases full : parent.isMaster = true
    · by_cases ended : parent.isEnded = true
      · exact .inl ⟨.masterEnded master, by simp [full, ended]⟩
      · exact .inr ⟨parent, rfl, full, mt (ended_iff parent).mpr ended, by simp [full, ended]⟩
    · exact .inl ⟨.notAMaster master, by simp [full]⟩

theorem start_cases (sessions : Sessions) (id : SessionId) :
    (∃ error, sessions.start id = .error error) ∨
    ∃ session, sessions.get? id = some session ∧ session.phase = .idle ∧
      sessions.start id =
        .ok (sessions.update id fun progress => { progress with phase := .negotiating }) := by
  unfold Sessions.start
  cases sessions.get? id with
  | none => exact .inl ⟨_, rfl⟩
  | some session =>
    by_cases idle : session.phase = .idle
    · exact .inr ⟨session, rfl, idle, by simp [idle]⟩
    · exact .inl ⟨.cannotStart id session.phase, by simp [idle]⟩

theorem serve_served (desk : Desk) (request : Request) : Served desk (desk.serve request).2 := by
  cases request with
  | createMaster media => exact ⟨.single .createMaster, rfl, rfl⟩
  | createDerived master media =>
    rcases create_derived_cases desk.sessions master media with
      ⟨error, refused⟩ | ⟨parent, there, full, alive, made⟩
    · simpa only [Desk.serve, refused] using served_refl
    · simp only [Desk.serve, made]
      exact ⟨.single (.createDerived there full alive), rfl, rfl⟩
  | start id =>
    rcases start_cases desk.sessions id with ⟨error, refused⟩ | ⟨session, there, idle, started⟩
    · simpa only [Desk.serve, refused] using served_refl
    · simp only [Desk.serve, started]
      exact ⟨.single (.start there idle), rfl, rfl⟩
  | endSession id =>
    simp only [Desk.serve, Sessions.endSession]
    cases there : desk.sessions.get? id with
    | none => exact served_refl
    | some session => exact ⟨.single (.endSession there), rfl, rfl⟩
  | endCall => exact ⟨.single .endAll, rfl, rfl⟩
  | setCallEnded ended => exact ⟨.refl, rfl, rfl⟩
  | inspect | derivedOf | describe | feed => exact served_refl

theorem serve_all_served (desk : Desk) (requests : List Request) :
    Served desk (desk.serveAll requests).2 := by
  induction requests generalizing desk with
  | nil => exact served_refl
  | cons request rest ih => exact served_trans (serve_served desk request) (ih _)

theorem consult_served (event : Event) (inquired : List Request) (desk : Desk) :
    Served desk (consult event inquired desk) := by
  unfold consult
  split
  · exact serve_all_served desk inquired
  · exact served_refl

/-! ### What requests make of one session -/

inductive Tended (session : Session) : Session → Prop where
  | same : Tended session session
  | started (idle : session.phase = .idle) :
      Tended session (session.update fun progress => { progress with phase := .negotiating })
  | ended : Tended session session.ending

theorem tended_trans {middle : Session} (first : Tended session middle)
    (second : Tended middle later) : Tended session later := by
  cases first with
  | same => exact second
  | started idle =>
    cases second with
    | same => exact .started idle
    | started again => cases again
    | ended => exact .ended
  | ended =>
    cases second with
    | same => exact .ended
    | started again => cases again
    | ended => exact .ended

theorem change_known (change : Change before after) (there : before.get? id = some session) :
    ∃ later, after.get? id = some later ∧ Tended session later := by
  have tend (chosen : Session → Bool) : ∃ later,
      (before.endWhere chosen).2.get? id = some later ∧ Tended session later := by
    rw [get_end_where, there]
    refine ⟨_, rfl, ?_⟩
    dsimp only
    split
    · exact .ended
    · exact .same
  cases change with
  | createMaster => exact ⟨session, get_add_known there, .same⟩
  | createDerived => exact ⟨session, get_add_known there, .same⟩
  | @start _ _ other found idle =>
    by_cases same : id = other
    · subst same
      cases there.symm.trans found
      exact ⟨_, get_update there _, .started idle⟩
    · exact ⟨session, (get_update_other same _).trans there, .same⟩
  | endSession => exact tend _
  | endAll => exact tend _

/-- A session that a request has just made is a master or derives from one that has not ended. -/
structure Born (sessions : Sessions) (session : Session) : Prop where
  initial : session.progress = Progress.initial
  rooted : ∀ master, session.master = some master → ∃ parent,
    sessions.get? master = some parent ∧ parent.isMaster = true ∧ parent.phase ≠ .ended

theorem change_new (change : Change before after) (absent : before.get? id = none)
    (there : after.get? id = some session) : Born after session := by
  have tend (chosen : Session → Bool) : (before.endWhere chosen).2.get? id ≠ some session := by
    simp [get_end_where, absent]
  cases change with
  | createMaster =>
    rw [get_add_new absent there]
    exact ⟨rfl, nofun⟩
  | createDerived held full alive =>
    rw [get_add_new absent there]
    refine ⟨rfl, ?_⟩
    rintro _ ⟨⟩
    exact ⟨_, get_add_known held, full, alive⟩
  | @start _ _ other found =>
    have apart : id ≠ other := by
      rintro rfl
      cases absent.symm.trans found
    rw [get_update_other apart, absent] at there
    cases there
  | endSession => exact absurd there (tend _)
  | endAll => exact absurd there (tend _)

theorem changes_known (changes : Relation.ReflTransGen Change before after)
    (there : before.get? id = some session) :
    ∃ later, after.get? id = some later ∧ Tended session later := by
  induction changes with
  | refl => exact ⟨session, there, .same⟩
  | tail _ change ih =>
    obtain ⟨middle, held, tended⟩ := ih
    obtain ⟨later, found, more⟩ := change_known change held
    exact ⟨later, found, tended_trans tended more⟩

/-- A session that requests made has had no event yet. -/
theorem changes_new (changes : Relation.ReflTransGen Change before after)
    (absent : before.get? id = none) (there : after.get? id = some later) :
    ∃ session : Session, session.progress = Progress.initial ∧ Tended session later := by
  induction changes generalizing later with
  | refl => cases absent.symm.trans there
  | @tail middle _ _ change ih =>
    cases held : middle.get? id with
    | none => exact ⟨later, (change_new change held there).initial, .same⟩
    | some session =>
      obtain ⟨born, initial, tended⟩ := ih held
      obtain ⟨found, same, more⟩ := change_known change held
      cases there.symm.trans same
      exact ⟨born, initial, tended_trans tended more⟩

/-! ## Events -/

/-- What an event makes of a session that is under way, and the updates that follow from it. -/
inductive Taken (callEnded : Bool) (session : Session) : Event → Session → List Update → Prop where
  /-- Nothing changes about encryption; the call may be told a message. -/
  | noted (change : Progress → Progress)
      (phase : (change session.progress).phase = session.progress.phase)
      (failure : (change session.progress).failure = session.progress.failure)
      (asked : (change session.progress).derivedStarted = session.progress.derivedStarted)
      (message : Option Message) :
      Taken callEnded session event (session.update change) (message.map Update.message).toList
  /-- The first time that a master turns secure. -/
  | derivedDue (sound : session.phase ≠ .failed) (full : session.isMaster = true)
      (first : session.progress.derivedStarted = false) :
      Taken callEnded session (.message (.info .secureStateOn))
        (session.update fun progress =>
          { progress with phase := .secureOn, derivedStarted := true })
        [.startDerived, session.securityOn]
  | secured (sound : session.phase ≠ .failed)
      (settled : session.isMaster = true → session.progress.derivedStarted = true) :
      Taken callEnded session (.message (.info .secureStateOn))
        (session.update fun progress => { progress with phase := .secureOn }) [session.securityOn]
  | cleared (during : callEnded = false) (sound : session.phase ≠ .failed) :
      Taken callEnded session .secureOff
        (session.update fun progress => { progress with phase := .secureOff })
        [.securityOff session.media]
  /-- A failed session was never secure, and yet the call is told that it is not. -/
  | clearedFailed (during : callEnded = false) (failed : session.phase = .failed) :
      Taken callEnded session .secureOff session [.securityOff session.media]
  | ended (finished : callEnded = true) : Taken callEnded session .secureOff session.ending []
  | failed (insecure : session.phase ≠ .secureOn) :
      Taken callEnded session (.negotiationFailed code)
        (session.update fun progress => { progress with phase := .failed, failure := some code }) []

private theorem noted_nothing (session : Session) : Taken callEnded session event session [] :=
  .noted id rfl rfl rfl none

theorem secure_on_taken (session : Session) :
    Taken callEnded session (.message (.info .secureStateOn)) session.receiveSecureOn.1
      session.receiveSecureOn.2 := by
  unfold Session.receiveSecureOn
  split
  · exact noted_nothing session
  · rename_i sound
    dsimp only
    split
    · rename_i due
      have both : session.isMaster = true ∧ session.progress.derivedStarted = false := by
        simpa using due
      exact .derivedDue sound both.1 both.2
    · rename_i settled
      exact .secured sound (by simpa using settled)

theorem secure_off_taken (callEnded : Bool) (session : Session) : Taken callEnded session .secureOff
    (session.receiveSecureOff callEnded).1 (session.receiveSecureOff callEnded).2 := by
  unfold Session.receiveSecureOff
  split
  · rename_i finished
    exact .ended finished
  · rename_i running
    have during : callEnded = false := by simpa using running
    split
    · rename_i failed
      exact .clearedFailed during failed
    · rename_i sound
      exact .cleared during sound

theorem apply_taken (texts : Texts) (callEnded : Bool) (session : Session) (event : Event) :
    Taken callEnded session event (session.apply texts callEnded event).1
      (session.apply texts callEnded event).2 := by
  unfold Session.apply
  split
  · exact .noted (fun progress => { progress with cipher := some _ }) rfl rfl rfl none
  · exact .noted (fun progress => { progress with sas := some _, sasVerified := _ })
      rfl rfl rfl none
  · exact secure_on_taken session
  · exact .noted id rfl rfl rfl (texts.message? _)
  · exact secure_off_taken callEnded session
  · dsimp only [Session.receiveFailure]
    split
    · exact noted_nothing session
    · rename_i insecure
      exact .failed insecure
  · exact noted_nothing session
  · exact noted_nothing session

theorem receive_ended (ended : session.phase = .ended) (texts : Texts) (callEnded : Bool)
    (event : Event) : session.receive texts callEnded event = (session, []) := by
  simp [Session.receive, (ended_iff session).mpr ended]

theorem receive_taken (alive : session.phase ≠ .ended) (texts : Texts) (callEnded : Bool)
    (event : Event) : Taken callEnded session.awaken event
      (session.receive texts callEnded event).1 (session.receive texts callEnded event).2 := by
  rw [Session.receive, if_neg (mt (ended_iff session).mp alive)]
  exact apply_taken texts callEnded session.awaken event

theorem awaken_cases (session : Session) :
    (session.phase = .idle ∧ session.awaken =
      session.update fun progress => { progress with phase := .negotiating }) ∨
    (session.phase ≠ .idle ∧ session.awaken = session) := by
  unfold Session.awaken
  split
  · exact .inl ⟨‹_›, rfl⟩
  · exact .inr ⟨‹_›, rfl⟩

theorem awaken_alive (alive : session.phase ≠ .ended) : session.awaken.phase ≠ .ended := by
  rcases awaken_cases session with ⟨-, awake⟩ | ⟨-, awake⟩
  · simp [awake]
  · rwa [awake]

private theorem taken_update (taken : Taken callEnded session event later updates) :
    session.update (fun _ => later.progress) = later := by
  cases taken <;> rfl

/-- An event changes the progress of a session and nothing else. -/
theorem receive_update (session : Session) (texts : Texts) (callEnded : Bool) (event : Event) :
    session.update (fun _ => (session.receive texts callEnded event).1.progress) =
      (session.receive texts callEnded event).1 := by
  by_cases ended : session.phase = .ended
  · rw [receive_ended ended]
    rfl
  · have taken := receive_taken ended texts callEnded event
    rcases awaken_cases session with ⟨-, awake⟩ | ⟨-, awake⟩ <;> rw [awake] at taken
    · exact (taken_update taken :)
    · exact taken_update taken

/-! ### Telling the call -/

/-- The desk once an event was applied, before the call is told of it. -/
def applied (id : SessionId) (session : Session) (event : Event) (desk : Desk) : Desk :=
  { desk with
    sessions := desk.sessions.update id fun _ =>
      (session.receive desk.texts desk.callEnded event).1.progress }

theorem handle_known (there : desk.sessions.get? id = some session) :
    desk.handle reaction id event = (session.receive desk.texts desk.callEnded event).2.foldl
      (deliver reaction id) (applied id session event desk) := by
  simp only [Desk.handle, there]
  rfl

theorem handle_unknown (absent : desk.sessions.get? id = none) :
    desk.handle reaction id event = desk := by
  simp only [Desk.handle, absent]

theorem get_applied (there : desk.sessions.get? id = some session) (event : Event) :
    (applied id session event desk).sessions.get? id =
      some (session.receive desk.texts desk.callEnded event).1 := by
  rw [applied, get_update there, receive_update]

theorem get_applied_other (apart : other ≠ id) :
    (applied id session event desk).sessions.get? other = desk.sessions.get? other :=
  get_update_other apart _

/-- The desk at the moment when the call is told each of some updates. -/
def tellings (reaction : Reaction) (id : SessionId) : List Update → Desk → List (Desk × Update)
  | [], _ => []
  | update :: rest, desk =>
    (desk, update) :: tellings reaction id rest (deliver reaction id desk update)

/-- The entry that telling an update leaves. -/
def entry (reaction : Reaction) (id : SessionId) (telling : Desk × Update) : Delivery :=
  ⟨id, telling.2, (telling.1.sessions.get? id).map Session.phase,
    (telling.1.serveAll (reaction telling.1 telling.2)).1⟩

theorem deliver_changes (desk : Desk) (update : Update) :
    Relation.ReflTransGen Change desk.sessions (deliver reaction id desk update).sessions :=
  (serve_all_served desk (reaction desk update)).sessions

private theorem deliver_told (desk : Desk) (update : Update) :
    (deliver reaction id desk update).told.toList =
      desk.told.toList ++ [entry reaction id (desk, update)] := by
  simp only [deliver, Array.toList_push, (serve_all_served desk (reaction desk update)).told, entry]

theorem tell_all_changes (updates : List Update) (desk : Desk) : Relation.ReflTransGen Change
    desk.sessions (updates.foldl (deliver reaction id) desk).sessions := by
  induction updates generalizing desk with
  | nil => exact .refl
  | cons update rest ih => exact (deliver_changes desk update).trans (ih _)

theorem tell_all_told (updates : List Update) (desk : Desk) :
    (updates.foldl (deliver reaction id) desk).told.toList =
      desk.told.toList ++ (tellings reaction id updates desk).map (entry reaction id) := by
  induction updates generalizing desk with
  | nil => simp [tellings]
  | cons update rest ih => simp [tellings, ih, deliver_told]

theorem telling_changes (telling : (now, update) ∈ tellings reaction id updates desk) :
    Relation.ReflTransGen Change desk.sessions now.sessions ∧ update ∈ updates := by
  induction updates generalizing desk with
  | nil => cases telling
  | cons first rest ih =>
    rcases List.mem_cons.mp telling with here | later
    · cases here
      exact ⟨.refl, List.mem_cons_self⟩
    · obtain ⟨changes, member⟩ := ih later
      exact ⟨(deliver_changes desk first).trans changes, List.mem_cons_of_mem _ member⟩

theorem tellings_updates (updates : List Update) (desk : Desk) :
    (tellings reaction id updates desk).map Prod.snd = updates := by
  induction updates generalizing desk with
  | nil => rfl
  | cons update rest ih => simp [tellings, ih]

/-- What the call is told of an event that was applied to a session. -/
def tellingsOf (reaction : Reaction) (id : SessionId) (session : Session) (event : Event)
    (desk : Desk) : List (Desk × Update) :=
  tellings reaction id (session.receive desk.texts desk.callEnded event).2
    (applied id session event desk)

theorem handle_changes (there : desk.sessions.get? id = some session) (reaction : Reaction)
    (event : Event) : Relation.ReflTransGen Change (applied id session event desk).sessions
      (desk.handle reaction id event).sessions := by
  rw [handle_known there]
  exact tell_all_changes _ _

theorem handle_told (there : desk.sessions.get? id = some session) (reaction : Reaction)
    (event : Event) : (desk.handle reaction id event).told.toList =
      desk.told.toList ++ (tellingsOf reaction id session event desk).map (entry reaction id) := by
  rw [handle_known there]
  exact tell_all_told _ _

/-- The call is told nothing but what follows from the event, once it was applied. -/
theorem telling_taken (there : desk.sessions.get? id = some session)
    (telling : (now, update) ∈ tellingsOf reaction id session event desk) : ∃ after updates,
      session.phase ≠ .ended ∧ Taken desk.callEnded session.awaken event after updates ∧
      (applied id session event desk).sessions.get? id = some after ∧
      tellingsOf reaction id session event desk =
        tellings reaction id updates (applied id session event desk) := by
  have alive : session.phase ≠ .ended := by
    intro ended
    rw [tellingsOf, receive_ended ended] at telling
    cases telling
  exact ⟨_, _, alive, receive_taken alive _ _ _, get_applied there event, rfl⟩

/-- The moments of an operation at which the call is told something: the session on whose account,
the desk at that time, and the update. -/
def moments (desk : Desk) : Operation → List (SessionId × Desk × Update)
  | .ask _ => []
  | .report id event inquired reaction =>
    let consulted := consult event inquired desk
    match consulted.sessions.get? id with
    | none => []
    | some session =>
      (tellingsOf reaction id session event consulted).map fun telling => (id, telling)

/-- The moments of an operation are those that it enters, with the phase that the session has. -/
theorem perform_told (desk : Desk) (operation : Operation) :
    (perform desk operation).told.toList.map (fun told => (told.session, told.update, told.phase)) =
      desk.told.toList.map (fun told => (told.session, told.update, told.phase)) ++
      (moments desk operation).map fun (id, now, update) =>
        (id, update, (now.sessions.get? id).map Session.phase) := by
  cases operation with
  | ask request => simp [perform, moments, (serve_served desk request).told]
  | report id event inquired reaction =>
    rw [← (consult_served event inquired desk).told]
    simp only [perform, moments]
    generalize consult event inquired desk = consulted
    cases there : consulted.sessions.get? id with
    | none => simp [handle_unknown there]
    | some session =>
      rw [handle_told there, List.map_append, List.map_map, List.map_map]
      rfl

/-! ## What one operation makes of a session -/

/-- Requests may tend a session, and it may receive an event between them. -/
inductive Stepped (session : Session) : Session → Prop where
  | tended (tended : Tended session later) : Stepped session later
  | received (asked : Tended session middle) (alive : middle.phase ≠ .ended)
      (taken : Taken callEnded middle.awaken event found updates) (told : Tended found later) :
      Stepped session later

private theorem tended_stepped (asked : Tended session middle) (stepped : Stepped middle later) :
    Stepped session later := by
  cases stepped with
  | tended more => exact .tended (tended_trans asked more)
  | received more alive taken told => exact .received (tended_trans asked more) alive taken told

private theorem handle_stepped (there : desk.sessions.get? id = some session) (reaction : Reaction)
    (subject : SessionId) (event : Event) : ∃ later,
      (desk.handle reaction subject event).sessions.get? id = some later ∧
        Stepped session later := by
  cases reported : desk.sessions.get? subject with
  | none =>
    rw [handle_unknown reported]
    exact ⟨session, there, .tended .same⟩
  | some received =>
    have told := handle_changes reported reaction event
    by_cases same : id = subject
    · subst same
      cases there.symm.trans reported
      obtain ⟨later, found, tended⟩ := changes_known told (get_applied reported event)
      refine ⟨later, found, ?_⟩
      by_cases ended : session.phase = .ended
      · rw [receive_ended ended] at tended
        exact .tended tended
      · exact .received .same ended (receive_taken ended _ _ _) tended
    · obtain ⟨later, found, tended⟩ := changes_known told ((get_applied_other same).trans there)
      exact ⟨later, found, .tended tended⟩

/-- Events and requests take no session away. -/
theorem perform_known (there : desk.sessions.get? id = some session) (operation : Operation) :
    ∃ later, (perform desk operation).sessions.get? id = some later ∧ Stepped session later := by
  cases operation with
  | ask request =>
    obtain ⟨later, found, tended⟩ := changes_known (serve_served desk request).sessions there
    exact ⟨later, found, .tended tended⟩
  | report subject event inquired reaction =>
    obtain ⟨middle, held, asked⟩ :=
      changes_known (consult_served event inquired desk).sessions there
    obtain ⟨later, found, stepped⟩ := handle_stepped held reaction subject event
    exact ⟨later, found, tended_stepped asked stepped⟩

theorem perform_new (absent : desk.sessions.get? id = none) (operation : Operation)
    (there : (perform desk operation).sessions.get? id = some later) :
    ∃ session : Session, session.progress = Progress.initial ∧ Stepped session later := by
  cases operation with
  | ask request =>
    obtain ⟨born, initial, tended⟩ :=
      changes_new (serve_served desk request).sessions absent there
    exact ⟨born, initial, .tended tended⟩
  | report subject event inquired reaction =>
    have asked := (consult_served event inquired desk).sessions
    change ((consult event inquired desk).handle reaction subject event).sessions.get? id = _
      at there
    generalize consult event inquired desk = consulted at asked there
    cases held : consulted.sessions.get? id with
    | some middle =>
      obtain ⟨born, initial, tended⟩ := changes_new asked absent held
      obtain ⟨found, same, stepped⟩ := handle_stepped held reaction subject event
      cases there.symm.trans same
      exact ⟨born, initial, tended_stepped tended stepped⟩
    | none =>
      cases reported : consulted.sessions.get? subject with
      | none =>
        rw [handle_unknown reported, held] at there
        cases there
      | some received =>
        have apart : id ≠ subject := by
          rintro rfl
          cases held.symm.trans reported
        obtain ⟨born, initial, tended⟩ := changes_new (handle_changes reported reaction event)
          ((get_applied_other apart).trans held) there
        exact ⟨born, initial, .tended tended⟩

/-! ## What a run keeps -/

/-- A property that each operation keeps holds after every run. -/
theorem run_keeps {P : Desk → Prop} (begin : P (ofTexts texts))
    (step : ∀ desk operation, P desk → P (perform desk operation)) (operations : List Operation) :
    P (run texts operations) := by
  induction operations using List.reverseRecOn with
  | nil => exact begin
  | append_singleton earlier operation ih =>
    rw [run_append]
    exact step _ operation ih

theorem changes_keep {P : Sessions → Prop}
    (keep : ∀ {before after}, Change before after → P before → P after)
    (changes : Relation.ReflTransGen Change before after) (holds : P before) : P after := by
  induction changes with
  | refl => exact holds
  | tail _ change ih => exact keep change ih

/-- A property of the sessions that requests and events keep holds after every run. -/
theorem run_sessions_keep {P : Sessions → Prop} (none : P Sessions.empty)
    (keep : ∀ {before after}, Change before after → P before → P after)
    (take : ∀ {desk : Desk} {id session event}, desk.sessions.get? id = some session →
      P desk.sessions → P (applied id session event desk).sessions)
    (texts : Texts) (operations : List Operation) : P (run texts operations).sessions := by
  refine run_keeps (P := fun desk => P desk.sessions) none ?_ operations
  intro desk operation holds
  cases operation with
  | ask request => exact changes_keep keep (serve_served desk request).sessions holds
  | report id event inquired reaction =>
    have asked := changes_keep keep (consult_served event inquired desk).sessions holds
    change P ((consult event inquired desk).handle reaction id event).sessions
    cases there : (consult event inquired desk).sessions.get? id with
    | none => rwa [handle_unknown there]
    | some session =>
      exact changes_keep keep (handle_changes there reaction event) (take there asked)

/-- A property of single sessions that new ones have and operations keep is one of every session. -/
theorem run_each_keeps {P : Session → Prop}
    (initial : ∀ session, session.progress = Progress.initial → P session)
    (step : ∀ {session later}, Stepped session later → P session → P later)
    (texts : Texts) (operations : List Operation)
    (there : (run texts operations).sessions.get? id = some session) : P session := by
  refine run_keeps (P := fun desk => ∀ id session, desk.sessions.get? id = some session → P session)
    (fun _ _ none => by cases none) (fun desk operation each id later found => ?_) operations id
    session there
  cases held : desk.sessions.get? id with
  | none =>
    obtain ⟨born, fresh, stepped⟩ := perform_new held operation found
    exact step stepped (initial born fresh)
  | some earlier =>
    obtain ⟨same, kept, stepped⟩ := perform_known held operation
    cases found.symm.trans kept
    exact step stepped (each id earlier held)

end Conference.DeskMoves
