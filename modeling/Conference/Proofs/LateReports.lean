import Mathlib.Data.List.Infix
import Conference.Proofs.DeskMoves

/-! An event of a session that has ended is not reported. Whether a session has ended is looked up
once, though, when its event is applied, and the first secure report of a master comes only after
the call could work with the sessions. A call that ends the master there is still told that the
master is secure. No other report comes late. -/
namespace Conference.LateReports
open DeskMoves
open Desk (Reaction)

variable {id : SessionId} {session later : Session} {sessions : Sessions} {desk now : Desk}
  {reaction : Reaction} {update reported : Update}

/-! ## Requests that end a master -/

/-- A request that ends a master: derived sessions may end with others, but masters do not. -/
def Ends (id : SessionId) (request : Request) : Prop :=
  request = .endCall ∨ request = .endSession id

private theorem get_end_master (there : sessions.get? id = some session)
    (full : session.isMaster = true) (target : SessionId) : ∃ later,
    (sessions.endWhere fun session =>
      session.id == target || session.master == some target).2.get? id = some later ∧
    later.isMaster = true ∧ (later.phase = .ended ↔ session.phase = .ended ∨ target = id) := by
  rw [get_end_where, there]
  by_cases hit : target = id
  · subst hit
    exact ⟨session.ending, by simp [get_id there], full, by simp⟩
  · exact ⟨session, by simp [get_id there, no_master full, Ne.symm hit], full, by simp [hit]⟩

private theorem serve_ends (there : desk.sessions.get? id = some session)
    (full : session.isMaster = true) (request : Request) : ∃ later,
    (desk.serve request).2.sessions.get? id = some later ∧ later.isMaster = true ∧
      (later.phase = .ended ↔ session.phase = .ended ∨ Ends id request) := by
  cases request with
  | createMaster media => exact ⟨session, get_add_known there, full, by simp [Ends]⟩
  | createDerived master media =>
    refine ⟨session, ?_, full, by simp [Ends]⟩
    rcases create_derived_cases desk.sessions master media with
      ⟨error, refused⟩ | ⟨parent, -, -, -, made⟩
    · simpa only [Desk.serve, refused] using there
    · simp only [Desk.serve, made]
      exact get_add_known there
  | start other =>
    rcases start_cases desk.sessions other with ⟨error, refused⟩ | ⟨idler, held, idle, started⟩
    · refine ⟨session, ?_, full, by simp [Ends]⟩
      simpa only [Desk.serve, refused] using there
    · simp only [Desk.serve, started]
      by_cases same : id = other
      · subst same
        cases held.symm.trans there
        exact ⟨_, get_update there _, full, by simp [Ends, idle]⟩
      · exact ⟨session, (get_update_other same _).trans there, full, by simp [Ends]⟩
  | endSession target =>
    cases held : desk.sessions.get? target with
    | none =>
      have apart : target ≠ id := by
        rintro rfl
        cases held.symm.trans there
      refine ⟨session, ?_, full, by simp [Ends, apart]⟩
      simpa only [Desk.serve, Sessions.endSession, held] using there
    | some _ =>
      obtain ⟨later, found, master, whenEnded⟩ := get_end_master there full target
      refine ⟨later, ?_, master, by simp [Ends, whenEnded]⟩
      simpa only [Desk.serve, Sessions.endSession, held] using found
  | endCall =>
    refine ⟨session.ending, ?_, full, by simp [Ends]⟩
    simp only [Desk.serve, Sessions.endAll, get_end_where, there]
    rfl
  | inspect | derivedOf | setCallEnded | describe | feed =>
    exact ⟨session, there, full, by simp [Ends]⟩

/-- A master has ended after some requests if and only if it had before or one of them ends it. -/
theorem serve_all_ends (there : desk.sessions.get? id = some session)
    (full : session.isMaster = true) (requests : List Request) : ∃ later,
    (desk.serveAll requests).2.sessions.get? id = some later ∧
      (later.phase = .ended ↔ session.phase = .ended ∨ ∃ request ∈ requests, Ends id request) := by
  induction requests generalizing desk session with
  | nil => exact ⟨session, there, by simp⟩
  | cons request rest ih =>
    obtain ⟨middle, held, master, first⟩ := serve_ends there full request
    obtain ⟨later, found, second⟩ := ih held master
    exact ⟨later, found, by simp [second, first, or_assoc]⟩

/-! ## The reports of one event -/

/-- While the call is told that derived sessions are due, it ends the session that they derive
from. -/
def EndedWhenDue (reaction : Reaction) (id : SessionId) (told : List (Desk × Update)) : Prop :=
  ∃ due, (due, .startDerived) ∈ told ∧ ∃ request ∈ reaction due .startDerived, Ends id request

private theorem security_on_reports (session : Session) : session.securityOn ≠ .startDerived := by
  unfold Session.securityOn
  split <;> nofun

/-- The call can do nothing before the only report of an event. -/
private theorem lone_report (found : desk.sessions.get? id = some later)
    (alive : later.phase ≠ .ended) (report : reported ≠ .startDerived)
    (telling : (now, update) ∈ tellings reaction id [reported] desk) : ∃ told,
    now.sessions.get? id = some told ∧
      (told.phase = .ended ↔ EndedWhenDue reaction id (tellings reaction id [reported] desk)) := by
  have never : ¬ EndedWhenDue reaction id (tellings reaction id [reported] desk) := by
    rintro ⟨due, member, -⟩
    cases List.mem_singleton.mp member
    exact report rfl
  cases List.mem_singleton.mp telling
  exact ⟨later, found, iff_of_false alive never⟩

/-- Whatever the call did to a master when derived sessions were due, the master is reported. -/
private theorem due_report (found : desk.sessions.get? id = some later)
    (full : later.isMaster = true) (alive : later.phase ≠ .ended) (report : update ≠ .startDerived)
    (telling : (now, update) ∈ tellings reaction id [.startDerived, reported] desk) : ∃ told,
    now.sessions.get? id = some told ∧ (told.phase = .ended ↔
      EndedWhenDue reaction id (tellings reaction id [.startDerived, reported] desk)) := by
  rcases List.mem_cons.mp telling with first | rest
  · cases first
    exact absurd rfl report
  · cases List.mem_singleton.mp rest
    obtain ⟨told, held, whenEnded⟩ := serve_all_ends found full (reaction desk .startDerived)
    refine ⟨told, held, whenEnded.trans ?_⟩
    constructor
    · intro ends
      exact ⟨desk, List.mem_cons_self, ends.resolve_left alive⟩
    · rintro ⟨due, member, ends⟩
      rcases List.mem_cons.mp member with first | rest
      · cases first
        exact .inr ends
      · cases List.mem_singleton.mp rest
        exact absurd rfl report

/-- A session has ended when the call is told of it exactly if the call has just ended it. -/
private theorem report_late_iff (there : desk.sessions.get? id = some session)
    (report : update ≠ .startDerived)
    (telling : (now, update) ∈ tellingsOf reaction id session event desk) : ∃ told,
    now.sessions.get? id = some told ∧ (told.phase = .ended ↔
      EndedWhenDue reaction id (tellingsOf reaction id session event desk)) := by
  obtain ⟨after, updates, alive, taken, first, told⟩ := telling_taken there telling
  rw [told] at telling ⊢
  have awake := awaken_alive alive
  cases taken with
  | noted change phase _ _ message =>
    cases message with
    | none => cases telling
    | some text =>
      have still : (session.awaken.update change).phase ≠ .ended := mt phase.symm.trans awake
      exact lone_report first still nofun telling
  | derivedDue sound full => exact due_report first full nofun report telling
  | secured => exact lone_report first nofun (security_on_reports _) telling
  | cleared => exact lone_report first nofun nofun telling
  | clearedFailed => exact lone_report first awake nofun telling
  | ended | failed => cases telling

/-- Derived sessions are due only before a report. -/
private theorem due_reported (there : desk.sessions.get? id = some session)
    (due : (now, .startDerived) ∈ tellingsOf reaction id session event desk) : ∃ later update,
    update ≠ .startDerived ∧ (later, update) ∈ tellingsOf reaction id session event desk := by
  obtain ⟨after, updates, -, taken, -, told⟩ := telling_taken there due
  rw [told] at due ⊢
  obtain ⟨-, member⟩ := telling_changes due
  cases taken with
  | noted _ _ _ _ message =>
    cases message with
    | none => cases member
    | some text => cases List.mem_singleton.mp member
  | derivedDue => exact ⟨_, _, security_on_reports _, List.mem_cons_of_mem _ List.mem_cons_self⟩
  | secured => exact absurd (List.mem_singleton.mp member).symm (security_on_reports _)
  | cleared | clearedFailed => cases List.mem_singleton.mp member
  | ended | failed => cases member

/-! ## Runs -/

/-- No report is about a session that has ended by the time at which the call is told. -/
def Timely (told : List Delivery) : Prop :=
  ∀ delivery ∈ told, delivery.update ≠ .startDerived →
    ∃ phase, delivery.phase = some phase ∧ phase ≠ .ended

/-- An operation in which the call ends a master when it is told that derived sessions are due. -/
def EndsDue (desk : Desk) : Operation → Prop
  | .ask _ => False
  | .report id event inquired reaction => EndedWhenDue reaction id
      ((moments desk (.report id event inquired reaction)).map Prod.snd)

private theorem entries_timely (there : desk.sessions.get? id = some session) (reaction : Reaction)
    (event : Event) :
    Timely ((tellingsOf reaction id session event desk).map (entry reaction id)) ↔
      ¬ EndedWhenDue reaction id (tellingsOf reaction id session event desk) := by
  constructor
  · intro timely ended
    obtain ⟨due, member, ends⟩ := ended
    obtain ⟨now, update, report, telling⟩ := due_reported there member
    obtain ⟨told, held, whenEnded⟩ := report_late_iff there report telling
    obtain ⟨phase, same, alive⟩ := timely _ (List.mem_map_of_mem telling) report
    simp only [entry, held, Option.map_some, Option.some.injEq] at same
    exact alive (same ▸ whenEnded.mpr ⟨due, member, ends⟩)
  · intro spared delivery member report
    obtain ⟨⟨now, update⟩, telling, rfl⟩ := List.mem_map.mp member
    obtain ⟨told, held, whenEnded⟩ := report_late_iff there report telling
    exact ⟨told.phase, by simp [entry, held], mt whenEnded.mp spared⟩

private theorem perform_timely (desk : Desk) (operation : Operation) :
    Timely (perform desk operation).told.toList ↔
      Timely desk.told.toList ∧ ¬ EndsDue desk operation := by
  cases operation with
  | ask request => simp [perform, (serve_served desk request).told, EndsDue]
  | report id event inquired reaction =>
    rw [← (consult_served event inquired desk).told]
    simp only [perform, EndsDue, moments]
    generalize consult event inquired desk = consulted
    cases there : consulted.sessions.get? id with
    | none => simp [handle_unknown there, EndedWhenDue]
    | some session =>
      rw [handle_told there]
      simp only [List.map_map, Function.comp_def, List.map_id']
      rw [← entries_timely there reaction event]
      exact List.forall_mem_append

private theorem prefix_snoc {P : List Operation → Operation → Prop} {earlier : List Operation}
    {last : Operation} :
    (∀ past operation, past ++ [operation] <+: earlier ++ [last] → P past operation) ↔
    (∀ past operation, past ++ [operation] <+: earlier → P past operation) ∧ P earlier last := by
  constructor
  · intro all
    exact ⟨fun past operation begins => all past operation (begins.trans (List.prefix_append _ _)),
      all earlier last List.prefix_rfl⟩
  · rintro ⟨before, now⟩ past operation begins
    rcases List.prefix_concat_iff.mp begins with whole | begins
    · obtain ⟨rfl, same⟩ := List.append_inj' whole rfl
      cases same
      exact now
    · exact before past operation begins

/-- Every report of a run is about a session that has not ended, in exactly the runs in which the
call never ends a master while it is asked for the sessions that derive from it. -/
theorem timely_iff (texts : Texts) (operations : List Operation) :
    Timely (run texts operations).told.toList ↔
      ∀ past operation, past ++ [operation] <+: operations →
        ¬ EndsDue (run texts past) operation := by
  induction operations using List.reverseRecOn with
  | nil =>
    refine iff_of_true nofun ?_
    intro past operation begins
    simp at begins
  | append_singleton earlier last ih =>
    rw [prefix_snoc, ← ih, run_append]
    exact perform_timely (run texts earlier) last

/-- A call that ends when it is asked for derived sessions. -/
def hangsUp : Reaction
  | _, .startDerived => [.endCall]
  | _, _ => []

def hungUp : List Operation :=
  [.ask (.createMaster .audio), .report 1 (.message (.info .secureStateOn)) [] hangsUp]

theorem ended_master_reported_secure :
    ¬ ∀ texts operations, Timely (run texts operations).told.toList := by
  intro always
  have told : (run .standard hungUp).told.toList =
      [⟨1, .startDerived, some .secureOn, [.ids [1]]⟩,
        ⟨1, .securityOn .audio none none false, some .ended, []⟩] := by decide +kernel
  have timely := told ▸ always .standard hungUp
  obtain ⟨phase, same, alive⟩ := timely _ (List.mem_cons_of_mem _ List.mem_cons_self) nofun
  cases same
  exact alive rfl

end Conference.LateReports
