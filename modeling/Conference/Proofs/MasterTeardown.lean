import Mathlib.Data.List.Infix
import Conference.Proofs.DeskMoves

/-! Masters end together with what derives from them, when they are ended by a request: the end of
one session and the end of the call both reach every session concerned, however many there are. A
master has one more way to end. Media that turns clear once the call has ended takes the session of
that event along and no other, so that sessions which derive from it stay behind, and may even be
reported secure. Runs without this event keep masters and derived sessions together throughout. -/
namespace Conference.MasterTeardown
open DeskMoves

variable {id master : SessionId} {session parent : Session} {sessions before after : Sessions}
  {desk : Desk}

/-- Every session whose master has ended has ended. -/
def Together (sessions : Sessions) : Prop :=
  ∀ id session master parent, sessions.get? id = some session → session.master = some master →
    sessions.get? master = some parent → parent.phase = .ended → session.phase = .ended

/-- What sessions derive from is known, and is a master. -/
def Rooted (sessions : Sessions) : Prop :=
  ∀ id session master, sessions.get? id = some session → session.master = some master →
    ∃ parent, sessions.get? master = some parent ∧ parent.isMaster = true

private theorem tended_master (tended : Tended session later) : later.master = session.master := by
  cases tended <;> rfl

private theorem tended_ended (tended : Tended session later) (ended : session.phase = .ended) :
    later.phase = .ended := by
  cases tended with
  | same => exact ended
  | started idle => cases idle.symm.trans ended
  | ended => rfl

/-! ## Where sessions come from -/

private theorem change_rooted (rooted : Rooted before) (change : Change before after) :
    Rooted after := by
  intro id later master found derives
  cases there : before.get? id with
  | none =>
    obtain ⟨parent, held, full, -⟩ := (change_new change there found).rooted master derives
    exact ⟨parent, held, full⟩
  | some session =>
    obtain ⟨same, kept, tended⟩ := change_known change there
    cases found.symm.trans kept
    obtain ⟨parent, held, full⟩ :=
      rooted id session master there ((tended_master tended).symm.trans derives)
    obtain ⟨now, stays, changed⟩ := change_known change held
    refine ⟨now, stays, ?_⟩
    rw [Session.isMaster, tended_master changed]
    exact full

private theorem receive_master (session : Session) (texts : Texts) (callEnded : Bool)
    (event : Event) : (session.receive texts callEnded event).1.master = session.master := by
  rw [← receive_update session texts callEnded event]
  rfl

private theorem applied_rooted (there : desk.sessions.get? id = some session)
    (rooted : Rooted desk.sessions) : Rooted (applied id session event desk).sessions := by
  have kept (master parent) (held : desk.sessions.get? master = some parent)
      (full : parent.isMaster = true) : ∃ now,
      (applied id session event desk).sessions.get? master = some now ∧ now.isMaster = true := by
    by_cases same : master = id
    · subst same
      cases held.symm.trans there
      refine ⟨_, get_applied there event, ?_⟩
      rw [Session.isMaster, receive_master]
      exact full
    · exact ⟨parent, (get_applied_other same).trans held, full⟩
  intro other later master found derives
  by_cases same : other = id
  · subst same
    cases found.symm.trans (get_applied there _)
    rw [receive_master] at derives
    obtain ⟨parent, held, full⟩ := rooted _ session master there derives
    exact kept master parent held full
  · rw [get_applied_other same] at found
    obtain ⟨parent, held, full⟩ := rooted other later master found derives
    exact kept master parent held full

theorem run_rooted (texts : Texts) (operations : List Operation) :
    Rooted (run texts operations).sessions :=
  run_sessions_keep (fun _ _ _ none => by cases none)
    (fun change rooted => change_rooted rooted change) applied_rooted texts operations

/-- No session derives from itself. -/
private theorem master_apart (rooted : Rooted sessions) (there : sessions.get? id = some session)
    (derives : session.master = some master) : master ≠ id := by
  rintro rfl
  obtain ⟨parent, held, full⟩ := rooted _ session _ there derives
  cases held.symm.trans there
  cases derives.symm.trans (no_master full)

/-! ## Requests -/

/-- A request that ends a master ends each session that derives from it. -/
private theorem change_ends (change : Change before after)
    (there : before.get? master = some parent) (full : parent.isMaster = true)
    (alive : parent.phase ≠ .ended) (now : after.get? master = some ended)
    (finished : ended.phase = .ended) (derived : before.get? id = some session)
    (derives : session.master = some master) (found : after.get? id = some later) :
    later.phase = .ended := by
  cases change with
  | createMaster | createDerived =>
    cases now.symm.trans (get_add_known there)
    exact absurd finished alive
  | @start _ _ other held idle =>
    by_cases same : master = other
    · subst same
      cases now.symm.trans (get_update there _)
      cases finished
    · rw [get_update_other same] at now
      cases now.symm.trans there
      exact absurd finished alive
  | @endSession _ _ target held =>
    rw [get_end_where, there] at now
    rw [get_end_where, derived] at found
    have hit : target = master := by
      by_contra apart
      have spared : (parent.id == target || parent.master == some target) = false := by
        simp [get_id there, no_master full, Ne.symm apart]
      simp only [Option.map_some, Option.some.injEq, spared] at now
      exact alive (congrArg Session.phase now |>.trans finished)
    subst hit
    have reached : (session.id == target || session.master == some target) = true := by
      simp [derives]
    simp only [Option.map_some, Option.some.injEq, reached, if_true] at found
    rw [← found, phase_ending]
  | endAll =>
    rw [get_end_where, derived] at found
    cases found
    rfl

private theorem change_together (rooted : Rooted before) (together : Together before)
    (change : Change before after) : Together after := by
  intro id later master ended found derives now finished
  cases there : before.get? id with
  | none =>
    obtain ⟨parent, held, -, alive⟩ := (change_new change there found).rooted master derives
    cases now.symm.trans held
    exact absurd finished alive
  | some session =>
    obtain ⟨same, kept, tended⟩ := change_known change there
    cases found.symm.trans kept
    have derived : session.master = some master := (tended_master tended).symm.trans derives
    obtain ⟨parent, held, full⟩ := rooted id session master there derived
    by_cases alive : parent.phase = .ended
    · exact tended_ended tended (together id session master parent there derived held alive)
    · exact change_ends change held full alive now finished there derived found

private theorem changes_together (rooted : Rooted before) (together : Together before)
    (changes : Relation.ReflTransGen Change before after) : Rooted after ∧ Together after :=
  changes_keep (P := fun sessions => Rooted sessions ∧ Together sessions)
    (fun change both => ⟨change_rooted both.1 change, change_together both.1 both.2 change⟩)
    changes ⟨rooted, together⟩

/-! ## Events -/

/-- An event that ends its session alone, although others derive from it: media turns clear and the
call says that it has ended. -/
structure Deserts (desk : Desk) (master : SessionId) (event : Event) : Prop where
  clear : event = .secureOff
  finished : desk.callEnded = true
  alive : ∃ parent, desk.sessions.get? master = some parent ∧ parent.phase ≠ .ended
  behind : ∃ id session, desk.sessions.get? id = some session ∧ session.master = some master ∧
    session.phase ≠ .ended

private theorem receive_ends (alive : session.phase ≠ .ended)
    (finished : (session.receive texts callEnded event).1.phase = .ended) :
    event = .secureOff ∧ callEnded = true := by
  have taken := receive_taken alive texts callEnded event
  generalize session.receive texts callEnded event = outcome at taken finished
  obtain ⟨later, updates⟩ := outcome
  cases taken with
  | noted change phase => exact absurd (phase.symm.trans finished) (awaken_alive alive)
  | clearedFailed => exact absurd finished (awaken_alive alive)
  | ended ended => exact ⟨rfl, ended⟩
  | derivedDue | secured | cleared | failed => cases finished

/-- No other event parts a master from what derives from it. -/
private theorem applied_together (rooted : Rooted desk.sessions) (together : Together desk.sessions)
    (there : desk.sessions.get? id = some session) (stays : ¬ Deserts desk id event) :
    Together (applied id session event desk).sessions := by
  intro other derived master ended found derives now finished
  by_cases same : other = id
  · -- the session of the event derives from another one, which is untouched
    subst same
    cases found.symm.trans (get_applied there _)
    rw [receive_master] at derives
    rw [get_applied_other (master_apart rooted there derives)] at now
    have before := together other session master ended there derives now finished
    rw [receive_ended before]
    exact before
  · rw [get_applied_other same] at found
    by_cases struck : master = id
    · subst struck
      cases now.symm.trans (get_applied there _)
      by_cases alive : session.phase = .ended
      · exact together other derived master session found derives there alive
      · obtain ⟨clear, left⟩ := receive_ends alive finished
        by_contra behind
        exact stays ⟨clear, left, ⟨session, there, alive⟩, ⟨other, derived, found, derives, behind⟩⟩
    · rw [get_applied_other struck] at now
      exact together other derived master ended found derives now finished

/-! ## What the call is told -/

/-- A moment at which the call is told something: masters and derived sessions are together, and
if the call is told that a session is secure, then the master of that session has not ended. -/
structure Heeds (id : SessionId) (now : Desk) (update : Update) : Prop where
  together : Together now.sessions
  secure : ∀ media cipher sas verified, update = .securityOn media cipher sas verified →
    ∀ session master parent, now.sessions.get? id = some session →
      session.master = some master → now.sessions.get? master = some parent →
      parent.phase ≠ .ended

/-- The report of a derived session is the first that the call is told of an event, and its master
has not ended by then. A master derives from nothing. -/
private theorem tellings_heed (rooted : Rooted desk.sessions)
    (together : Together (applied id session event desk).sessions)
    (there : desk.sessions.get? id = some session)
    (telling : (now, update) ∈ tellingsOf reaction id session event desk) :
    Heeds id now update := by
  obtain ⟨after, updates, -, taken, first, told⟩ := telling_taken there telling
  rw [told] at telling
  obtain ⟨changes, member⟩ := telling_changes telling
  refine ⟨(changes_together (applied_rooted there rooted) together changes).2, ?_⟩
  intro media cipher sas verified secure later master parent found derives held finished
  have derived : after.master = some master := by
    obtain ⟨same, kept, tended⟩ := changes_known changes first
    cases found.symm.trans kept
    exact (tended_master tended).symm.trans derives
  cases taken with
  | noted _ _ _ _ message =>
    cases message with
    | none => cases member
    | some text => cases secure.symm.trans (List.mem_singleton.mp member)
  | derivedDue sound full => cases derived.symm.trans (no_master full)
  | secured sound =>
    cases List.mem_singleton.mp telling
    cases together id _ master parent first derived held finished
  | cleared | clearedFailed => cases secure.symm.trans (List.mem_singleton.mp member)
  | ended | failed => cases member

/-! ## Runs -/

/-- An operation that reports an event which deserts derived sessions. The call may have asked for
more when it was asked whether it has ended. -/
def Abandons (desk : Desk) : Operation → Prop
  | .ask _ => False
  | .report master event inquired _ => Deserts (consult event inquired desk) master event

/-- Masters and derived sessions end together in a run: after each operation, and whenever the call
is told something; and no session is reported secure once its master has ended. -/
structure TornDownTogether (texts : Texts) (operations : List Operation) : Prop where
  states : ∀ past, past <+: operations → Together (run texts past).sessions
  reports : ∀ past operation, past ++ [operation] <+: operations → ∀ id now update,
    (id, now, update) ∈ moments (run texts past) operation → Heeds id now update

private theorem perform_together {operation : Operation} (rooted : Rooted desk.sessions)
    (together : Together desk.sessions) (stays : ¬ Abandons desk operation) :
    Together (perform desk operation).sessions ∧ ∀ id now update,
      (id, now, update) ∈ moments desk operation → Heeds id now update := by
  cases operation with
  | ask request =>
    have served := (serve_served desk request).sessions
    refine ⟨(changes_together rooted together served).2, ?_⟩
    intro id now update none
    cases none
  | report subject event inquired reaction =>
    have asked := (consult_served event inquired desk).sessions
    obtain ⟨rooted, together⟩ := changes_together rooted together asked
    simp only [Abandons] at stays
    simp only [perform, moments]
    generalize consult event inquired desk = consulted at rooted together stays
    cases there : consulted.sessions.get? subject with
    | none =>
      rw [handle_unknown there]
      refine ⟨together, ?_⟩
      intro id now update none
      cases none
    | some session =>
      have after := applied_together rooted together there stays
      have told := handle_changes there reaction event
      constructor
      · exact (changes_together (applied_rooted there rooted) after told).2
      · intro id now update moment
        obtain ⟨telling, member, same⟩ := List.mem_map.mp moment
        cases same
        exact tellings_heed rooted after there member

private theorem receive_over (alive : session.phase ≠ .ended) (texts : Texts) :
    session.receive texts true .secureOff = (session.awaken.ending, []) := by
  have unended : session.isEnded = false := by simpa [Session.isEnded] using alive
  simp [Session.receive, unended, Session.apply, Session.receiveSecureOff]

/-- The derived sessions of a master that ends alone are still there when the operation is over. -/
private theorem abandons_apart {operation : Operation} (rooted : Rooted desk.sessions)
    (abandons : Abandons desk operation) : ¬ Together (perform desk operation).sessions := by
  cases operation with
  | ask request => cases abandons
  | report master event inquired reaction =>
    have asked := (consult_served event inquired desk).sessions
    have rooted := changes_keep (fun change rooted => change_rooted rooted change) asked rooted
    obtain ⟨rfl, finished, ⟨parent, held, alive⟩, ⟨id, session, there, derives, living⟩⟩ := abandons
    simp only [perform]
    generalize consult .secureOff inquired desk = consulted at rooted finished held there
    have last : parent.receive consulted.texts consulted.callEnded .secureOff =
        (parent.awaken.ending, []) := by
      rw [finished]
      exact receive_over alive consulted.texts
    rw [handle_known held, last]
    intro together
    refine living (together id session master parent.awaken.ending ?_ derives ?_ rfl)
    · exact (get_applied_other (master_apart rooted there derives).symm).trans there
    · have now := get_applied held .secureOff
      rwa [last] at now

/-- Masters and derived sessions end together in exactly the runs in which media of a master never
turns clear after the call has ended, while sessions that derive from it go on. -/
theorem torn_down_together_iff (texts : Texts) (operations : List Operation) :
    TornDownTogether texts operations ↔ ∀ past operation, past ++ [operation] <+: operations →
      ¬ Abandons (run texts past) operation := by
  constructor
  · intro ⟨states, _⟩ past operation begins abandons
    have after := states _ begins
    rw [run_append] at after
    exact abandons_apart (run_rooted texts past) abandons after
  · intro stays
    have states past (begins : past <+: operations) : Together (run texts past).sessions := by
      induction past using List.reverseRecOn with
      | nil => exact fun _ _ _ _ none => by cases none
      | append_singleton earlier operation ih =>
        have before := ih ((List.prefix_append earlier [operation]).trans begins)
        rw [run_append]
        exact (perform_together (run_rooted texts earlier) before (stays _ _ begins)).1
    refine ⟨states, ?_⟩
    intro past operation begins
    have before := states past ((List.prefix_append past [operation]).trans begins)
    exact (perform_together (run_rooted texts past) before (stays _ _ begins)).2

/-- The call ends, media of the master turns clear, and then the derived session turns secure. -/
def deserted : List Operation :=
  [.ask (.createMaster .audio), .ask (.createDerived 1 .video), .ask (.setCallEnded true),
    .report 1 .secureOff [] startsVideo, .report 2 (.message (.info .secureStateOn)) [] startsVideo]

theorem ended_master_leaves_secure_session :
    ¬ ∀ texts operations, TornDownTogether texts operations := by
  intro always
  have together := (always .standard deserted).states deserted List.prefix_rfl
  have master : (run .standard deserted).sessions.get? 1 =
      some ⟨1, .audio, none, { Progress.initial with phase := .ended }⟩ := by decide +kernel
  have video : (run .standard deserted).sessions.get? 2 =
      some ⟨2, .video, some 1, { Progress.initial with phase := .secureOn }⟩ := by decide +kernel
  cases together 2 _ 1 _ video rfl master rfl

end Conference.MasterTeardown
