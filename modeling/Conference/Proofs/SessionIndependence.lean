import Mathlib.Data.List.Nodup
import Conference.Proofs.DeskMoves

/-! Sessions do not interfere. As long as the call asks for nothing while it is told of events, an
event concerns one session: what becomes of that session, and what the call is told, follow from
the session as it was and from the event. Events of different sessions may therefore come in any
order. -/
namespace Conference.SessionIndependence
open DeskMoves
open Desk (Reaction deliver)

/-! ## One session on its own -/

section
variable (texts : Texts) (callEnded : Bool)

/-- What its events make of a session. -/
def become (session : Session) (events : List Event) : Session :=
  events.foldl (fun session event => (session.receive texts callEnded event).1) session

/-- What a silent call is told of a session on account of its events. -/
def account : Session → List Event → List Delivery
  | _, [] => []
  | session, event :: rest =>
    let (later, updates) := session.receive texts callEnded event
    updates.map (fun update => ⟨session.id, update, some later.phase, []⟩) ++ account later rest

end

/-! ## Many sessions at a desk -/

/-- A call that asks for nothing, whatever it is told. -/
def silent : Reaction := fun _ _ => []

/-- Reports events one after another, each with its session, to a silent call. -/
def feedAll (events : List (SessionId × Event)) (desk : Desk) : Desk :=
  events.foldl (fun desk (id, event) => perform desk (.report id event [] silent)) desk

/-- The events of one session, in order. -/
def eventsOf (id : SessionId) (events : List (SessionId × Event)) : List Event :=
  events.filterMap fun (subject, event) => if subject = id then some event else none

/-- Events in an order that keeps the order of each session's own. -/
def Interleaves (family : SessionId → List Event) (events : List (SessionId × Event)) : Prop :=
  ∀ id, eventsOf id events = family id

/-- What the call was told on account of one session. -/
def toldOf (id : SessionId) (desk : Desk) : List Delivery :=
  desk.told.toList.filter (·.session == id)

variable {id : SessionId} {session : Session} {sessions before after : Sessions} {desk : Desk}

/-! ## Distinct identities -/

/-- Identities are numbered in the order in which they are given out. -/
structure Numbered (sessions : Sessions) : Prop where
  distinct : sessions.ids.Nodup
  below : ∀ id ∈ sessions.ids, id ≤ sessions.issued

private theorem map_numbered (numbered : Numbered sessions) (change : Session → Session)
    (same : ∀ session, (change session).id = session.id) :
    Numbered ⟨sessions.toList.map change, sessions.issued⟩ := by
  constructor
  · rw [ids_map change same]
    exact numbered.distinct
  · rw [ids_map change same]
    exact numbered.below

private theorem add_numbered (numbered : Numbered sessions) (media : Media)
    (master : Option SessionId) : Numbered (sessions.add media master).2 := by
  have listed : (sessions.add media master).2.ids = sessions.ids ++ [sessions.issued + 1] := by
    simp [Sessions.ids, Sessions.add]
  constructor
  · rw [listed, List.nodup_append]
    refine ⟨numbered.distinct, List.nodup_singleton _, ?_⟩
    intro id old other new same
    have low := numbered.below id old
    rw [same, List.mem_singleton.mp new] at low
    exact Nat.not_succ_le_self _ low
  · intro id member
    rw [listed] at member
    change id ≤ sessions.issued + 1
    rcases List.mem_append.mp member with old | new
    · exact Nat.le_succ_of_le (numbered.below id old)
    · exact Nat.le_of_eq (List.mem_singleton.mp new)

private theorem change_numbered (change : Change before after) (numbered : Numbered before) :
    Numbered after := by
  cases change with
  | createMaster => exact add_numbered numbered _ _
  | createDerived => exact add_numbered numbered _ _
  | start | endSession | endAll =>
    apply map_numbered numbered
    intro session
    split <;> rfl

/-- The sessions of a call never share an identity. -/
theorem run_distinct (texts : Texts) (operations : List Operation) :
    (run texts operations).sessions.ids.Nodup := by
  have numbered : Numbered (run texts operations).sessions := by
    apply run_sessions_keep (P := Numbered)
    · exact ⟨List.nodup_nil, nofun⟩
    · exact change_numbered
    · intro desk id session event there numbered
      apply map_numbered numbered
      intro session
      split <;> rfl
  exact numbered.distinct

/-! ## One event -/

theorem receive_id (session : Session) (texts : Texts) (callEnded : Bool) (event : Event) :
    (session.receive texts callEnded event).1.id = session.id := by
  rw [← receive_update]
  rfl

private theorem become_id (session : Session) (texts : Texts) (callEnded : Bool)
    (events : List Event) : (become texts callEnded session events).id = session.id := by
  induction events generalizing session with
  | nil => rfl
  | cons event rest ih => exact (ih _).trans (receive_id session texts callEnded event)

/-- A silent call leaves the desk as it is, but for what it was told. -/
private theorem tell_silent (there : desk.sessions.get? id = some session)
    (updates : List Update) :
    updates.foldl (deliver silent id) desk = { desk with
      told := desk.told ++
        (updates.map fun update => ⟨id, update, some session.phase, []⟩).toArray } := by
  induction updates generalizing desk with
  | nil => simp
  | cons update rest ih =>
    have told : deliver silent id desk update =
        { desk with told := desk.told.push ⟨id, update, some session.phase, []⟩ } := by
      simp [deliver, silent, Desk.serveAll, there]
    have held : (deliver silent id desk update).sessions.get? id = some session := by rwa [told]
    rw [List.foldl_cons, ih held, told]
    simp

private theorem report_handled (id : SessionId) (event : Event) (desk : Desk) :
    perform desk (.report id event [] silent) = desk.handle silent id event := by
  have still : consult event [] desk = desk := by
    unfold consult
    split <;> rfl
  rw [perform, still]

/-- An event concerns the sessions of one identity. -/
theorem report_sessions (distinct : desk.sessions.ids.Nodup) (id : SessionId)
    (event : Event) : (perform desk (.report id event [] silent)).sessions =
      ⟨desk.sessions.toList.map fun session =>
        if session.id = id then (session.receive desk.texts desk.callEnded event).1 else session,
        desk.sessions.issued⟩ := by
  rw [report_handled]
  cases there : desk.sessions.get? id with
  | none =>
    have others : ∀ session ∈ desk.sessions.toList, session.id ≠ id := by
      simpa [Sessions.get?] using there
    have same : (desk.sessions.toList.map fun session =>
        if session.id = id then (session.receive desk.texts desk.callEnded event).1
        else session) = desk.sessions.toList := by
      rw [List.map_congr_left fun session member => if_neg (others session member), List.map_id']
    rw [handle_unknown there, same]
  | some session =>
    rw [handle_known there, tell_silent (get_applied there event)]
    simp only [applied, Sessions.update, Sessions.mk.injEq, and_true]
    apply List.map_congr_left
    intro one member
    by_cases same : one.id = id
    · have only := get_of_member distinct member
      rw [same, there] at only
      cases only
      simp [same, receive_update]
    · simp [same]

/-- The call is told what follows for the session that an event concerns. -/
private theorem report_told (id : SessionId) (event : Event) (desk : Desk) (other : SessionId) :
    toldOf other (perform desk (.report id event [] silent)) = toldOf other desk ++
      if id = other then
        (desk.sessions.get? id).elim [] (account desk.texts desk.callEnded · [event])
      else [] := by
  rw [report_handled]
  cases there : desk.sessions.get? id with
  | none => simp [handle_unknown there]
  | some session =>
    rw [handle_known there, tell_silent (get_applied there event)]
    simp only [toldOf, applied, Array.toList_append, List.filter_append, List.append_cancel_left_eq]
    by_cases same : id = other
    · simp [same, account, get_id (same ▸ there)]
    · simp [same]

private theorem report_distinct (distinct : desk.sessions.ids.Nodup) (id : SessionId)
    (event : Event) : (perform desk (.report id event [] silent)).sessions.ids.Nodup := by
  rw [report_sessions distinct, ids_map]
  · exact distinct
  · intro session
    split
    · exact receive_id session _ _ _
    · rfl

private theorem report_get (distinct : desk.sessions.ids.Nodup) (id : SessionId) (event : Event)
    (other : SessionId) : (perform desk (.report id event [] silent)).sessions.get? other =
      (desk.sessions.get? other).map fun session =>
        if session.id = id then (session.receive desk.texts desk.callEnded event).1
        else session := by
  rw [report_sessions distinct, get_map]
  intro session
  split
  · exact receive_id session _ _ _
  · rfl

private theorem report_parts (id : SessionId) (event : Event) (desk : Desk) :
    (perform desk (.report id event [] silent)).texts = desk.texts ∧
      (perform desk (.report id event [] silent)).callEnded = desk.callEnded := by
  rw [report_handled]
  cases there : desk.sessions.get? id with
  | none => rw [handle_unknown there]; exact ⟨rfl, rfl⟩
  | some session =>
    rw [handle_known there, tell_silent (get_applied there event)]
    exact ⟨rfl, rfl⟩

/-- Events of sessions that are unknown or have ended change nothing. -/
private theorem report_ignored (distinct : desk.sessions.ids.Nodup) (id : SessionId)
    (event : Event)
    (settled : ∀ session, desk.sessions.get? id = some session → session.phase = .ended) :
    perform desk (.report id event [] silent) = desk := by
  rw [report_handled]
  cases there : desk.sessions.get? id with
  | none => exact handle_unknown there
  | some session =>
    have fixed : ∀ one ∈ desk.sessions.toList,
        (if one.id == id then one.update fun _ => session.progress else one) = one := by
      intro one member
      by_cases same : one.id = id
      · have only := get_of_member distinct member
        rw [same, there] at only
        cases only
        rw [if_pos (by simpa using same)]
        rfl
      · simp [same]
    have kept : desk.sessions.update id (fun _ => session.progress) = desk.sessions := by
      rw [Sessions.update, List.map_congr_left fixed, List.map_id']
    rw [handle_known there, applied, receive_ended (settled session there)]
    simp only [List.foldl_nil, kept]

/-! ## All events -/

/-- Its events alone make of a session what becomes of it. -/
private theorem feed_sessions (distinct : desk.sessions.ids.Nodup)
    (events : List (SessionId × Event)) : (feedAll events desk).sessions =
      ⟨desk.sessions.toList.map fun session =>
        become desk.texts desk.callEnded session (eventsOf session.id events),
        desk.sessions.issued⟩ := by
  induction events generalizing desk with
  | nil => simp [feedAll, eventsOf, become]
  | cons event rest ih =>
    obtain ⟨id, event⟩ := event
    obtain ⟨texts, callEnded⟩ := report_parts id event desk
    change (feedAll rest (perform desk (.report id event [] silent))).sessions = _
    rw [ih (report_distinct distinct id event), texts, callEnded, report_sessions distinct,
      List.map_map]
    congr 1
    apply List.map_congr_left
    intro session member
    by_cases same : session.id = id
    · simp [same, receive_id, eventsOf, become]
    · simp [same, Ne.symm same, eventsOf]

/-- What the call is told of a session follows from its events alone. -/
private theorem feed_told (distinct : desk.sessions.ids.Nodup)
    (events : List (SessionId × Event)) (other : SessionId) :
    toldOf other (feedAll events desk) = toldOf other desk ++
      (desk.sessions.get? other).elim []
        (account desk.texts desk.callEnded · (eventsOf other events)) := by
  induction events generalizing desk with
  | nil => cases desk.sessions.get? other <;> simp [feedAll, eventsOf, account]
  | cons event rest ih =>
    obtain ⟨id, event⟩ := event
    obtain ⟨texts, callEnded⟩ := report_parts id event desk
    have later := report_get distinct id event other
    change toldOf other (feedAll rest (perform desk (.report id event [] silent))) = _
    rw [ih (report_distinct distinct id event), texts, callEnded, report_told, List.append_assoc,
      later]
    by_cases same : id = other
    · subst same
      cases there : desk.sessions.get? id with
      | none => simp
      | some session => simp [get_id there, eventsOf, account]
    · cases there : desk.sessions.get? other with
      | none => simp [same]
      | some session =>
        have apart : session.id ≠ id := by
          rw [get_id there]
          exact Ne.symm same
        simp [same, apart, eventsOf]

private theorem feed_distinct (distinct : desk.sessions.ids.Nodup)
    (events : List (SessionId × Event)) : (feedAll events desk).sessions.ids.Nodup := by
  rw [feed_sessions distinct, ids_map]
  · exact distinct
  · intro session
    exact become_id session _ _ _

/-- However the events of some sessions are interleaved, the same sessions come of them and the call
is told the same of each; both follow from the session and its own events. Events of sessions that
are unknown or have ended are as good as none. -/
theorem order_independent (distinct : desk.sessions.ids.Nodup) (one : Interleaves family events)
    (other : Interleaves family others) :
    (feedAll events desk).sessions = (feedAll others desk).sessions ∧
    (∀ id, toldOf id (feedAll events desk) = toldOf id (feedAll others desk)) ∧
    (∀ id, (feedAll events desk).sessions.get? id =
        (desk.sessions.get? id).map (become desk.texts desk.callEnded · (family id)) ∧
      toldOf id (feedAll events desk) = toldOf id desk ++
        (desk.sessions.get? id).elim [] (account desk.texts desk.callEnded · (family id))) ∧
    ∀ past id event,
      (∀ session, (feedAll past desk).sessions.get? id = some session → session.phase = .ended) →
      perform (feedAll past desk) (.report id event [] silent) = feedAll past desk := by
  have alike : ∀ id, eventsOf id others = eventsOf id events := by
    intro id
    rw [one id, other id]
  refine ⟨?_, ?_, ?_, ?_⟩
  · rw [feed_sessions distinct, feed_sessions distinct]
    simp only [alike]
  · intro id
    rw [feed_told distinct, feed_told distinct, alike]
  · intro id
    rw [feed_sessions distinct, get_map, feed_told distinct, one id]
    · cases there : desk.sessions.get? id with
      | none => exact ⟨rfl, rfl⟩
      | some session => simp [get_id there, one id]
    · intro session
      exact become_id session _ _ _
  · intro past id event settled
    exact report_ignored (feed_distinct distinct past) id event settled

/-- An audio session and a video session that derives from it. -/
def twoMedia : Desk := run .standard [.ask (.createMaster .audio), .ask (.createDerived 1 .video)]

/-- The audio session turns secure and clear again, and the video session fails. -/
def audioFirst : List (SessionId × Event) :=
  [(1, .message (.info .secureStateOn)), (1, .secureOff),
    (2, .negotiationFailed (.severe .noTimer)), (7, .goClear), (2, .message (.severe .cannotSend))]

def videoFirst : List (SessionId × Event) :=
  [(2, .negotiationFailed (.severe .noTimer)), (1, .message (.info .secureStateOn)), (7, .goClear),
    (2, .message (.severe .cannotSend)), (1, .secureOff)]

/-- The call is told of the two sessions in another order, but the same of each. -/
theorem media_do_not_interfere :
    (feedAll audioFirst twoMedia).sessions = (feedAll videoFirst twoMedia).sessions ∧
      (∀ id, toldOf id (feedAll audioFirst twoMedia) = toldOf id (feedAll videoFirst twoMedia)) ∧
      (feedAll audioFirst twoMedia).told ≠ (feedAll videoFirst twoMedia).told := by
  have alike : Interleaves (fun id => eventsOf id audioFirst) videoFirst := by
    intro id
    simp only [eventsOf, audioFirst, videoFirst, List.filterMap_cons, List.filterMap_nil]
    by_cases audio : 1 = id
    · subst audio
      rfl
    · by_cases video : 2 = id
      · subst video
        rfl
      · simp [audio, video]
  obtain ⟨sessions, told, -⟩ :=
    order_independent (run_distinct _ _ : twoMedia.sessions.ids.Nodup) (fun _ => rfl) alike
  exact ⟨sessions, told, by decide +kernel⟩

end Conference.SessionIndependence
