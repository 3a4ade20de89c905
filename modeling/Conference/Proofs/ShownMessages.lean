import Conference.Proofs.FilledTexts
import Conference.Proofs.SecureOnHistory
import Conference.Proofs.SessionIndependence

/-! Which problems the user sees. What a problem shows is said of the texts alone; the call is told
just that, once for each problem that reaches a session which has not ended, in order. A problem is
no more than a message: it changes nothing about a session, but the first event starts its
negotiation. -/
namespace Conference.ShownMessages
open DeskMoves FilledTexts
open Desk (Reaction ofTexts deliver)
open SecureOnHistory (told news told_perform news_report)
open SessionIndependence (silent report_sessions run_distinct)

/-! ## What the user shall see -/

/-- The doubts that concern the user, each with its text. -/
def warnings (texts : Texts) : List (WarningCode × String) :=
  [(.noRsMatch, texts.noRsMatch), (.noExpectedRsMatch, texts.noExpectedRsMatch),
    (.crcMismatch, texts.checksumMismatch)]

/-- The severe problems that have a template of their own. -/
def ownTemplates (texts : Texts) : List (SevereCode × String) :=
  [(.cannotSend, texts.dataSendFailed), (.tooMuchRetries, texts.retryRateExceeded),
    (.protocolError, texts.internalProtocolError)]

/-- The message that an event shows. -/
inductive Shows (texts : Texts) : Event → Message → Prop where
  | warning (own : (code, text) ∈ warnings texts) :
      Shows texts (.message (.warning code)) ⟨texts.warningLabel, text, .warning⟩
  | severe (own : (code, template) ∈ ownTemplates texts)
      (filled : Filled template (Code.severe code).display text) :
      Shows texts (.message (.severe code)) ⟨texts.severeLabel, text, .severe⟩
  | generic (other : ∀ template, (code, template) ∉ ownTemplates texts)
      (filled : Filled texts.generic (Code.severe code).display text) :
      Shows texts (.message (.severe code)) ⟨texts.severeLabel, text, .severe⟩
  | protocol (filled : Filled texts.generic (Code.protocol code).display text) :
      Shows texts (.message (.protocol code)) ⟨texts.zrtpLabel, text, .zrtp⟩

/-- Whether an event is a problem that the user shall see. -/
def visible : Event → Bool
  | .message (.warning code) => code ∈ [.noRsMatch, .noExpectedRsMatch, .crcMismatch]
  | .message (.severe _) => true
  | .message (.protocol _) => true
  | _ => false

/-- A negotiation that is under way, if it was not. -/
def begun (progress : Progress) : Progress :=
  { progress with phase := if progress.phase = .idle then .negotiating else progress.phase }

/-- The event of an operation, if it finds a session that has not ended. -/
def arrival? (desk : Desk) : Operation → Option Event
  | .ask _ => none
  | .report id event inquired _ =>
    ((consult event inquired desk).sessions.get? id).bind fun session =>
      if session.phase = .ended then none else some event

/-- The events that find a session in the course of some operations. -/
def arrivals : Desk → List Operation → List Event
  | _, [] => []
  | desk, operation :: rest =>
    (arrival? desk operation).toList ++ arrivals (perform desk operation) rest

/-! ## What the user sees -/

def message? : Update → Option Message
  | .message message => some message
  | _ => none

/-- The messages that the call was told, in order. -/
def shown (desk : Desk) : List Message := (told desk).filterMap fun entry => message? entry.2

variable {texts : Texts} {session : Session} {desk : Desk} {id : SessionId}

/-! ### One event -/

theorem shows_code (code : Code) : List.Forall₂ (Shows texts)
    ([Event.message code].filter visible) (texts.message? code).toList := by
  have filled (template : String) : Filled template code.display (fill template code.display) :=
    (filled_iff _ _ _).mpr rfl
  cases code with
  | info => exact .nil
  | warning code =>
    cases code with
    | noRsMatch | noExpectedRsMatch | crcMismatch =>
      exact .cons (.warning (by simp [warnings])) .nil
    | dhAesMismatch | goClearReceived | dhShort | srtpAuthError | srtpReplayError => exact .nil
  | severe code =>
    cases code with
    | cannotSend | tooMuchRetries | protocolError =>
      exact .cons (.severe (by simp [ownTemplates, Texts.severe]) (filled _)) .nil
    | helloHmacFailed | commitHmacFailed | dh1HmacFailed | dh2HmacFailed | noTimer =>
      exact .cons (.generic (by simp [ownTemplates]) (filled _)) .nil
  | protocol => exact .cons (.protocol (filled _)) .nil

private theorem secure_on_shows_nothing (session : Session) :
    session.receiveSecureOn.2.filterMap message? = [] := by
  have report (session : Session) : message? session.securityOn = none := by
    unfold Session.securityOn
    split <;> rfl
  have due : message? .startDerived = none := rfl
  unfold Session.receiveSecureOn
  split
  · rfl
  · dsimp only
    split <;> simp [due, report]

private theorem secure_off_shows_nothing (callEnded : Bool) (session : Session) :
    (session.receiveSecureOff callEnded).2.filterMap message? = [] := by
  unfold Session.receiveSecureOff
  split
  · rfl
  · split <;> rfl

/-- What an event shows, if it finds a session that has not ended. -/
theorem receive_shows (alive : session.phase ≠ .ended) (callEnded : Bool) (event : Event) :
    List.Forall₂ (Shows texts) ([event].filter visible)
      ((session.receive texts callEnded event).2.filterMap message?) := by
  rw [Session.receive, if_neg (mt (ended_iff session).mp alive)]
  unfold Session.apply
  split
  · exact .nil
  · exact .nil
  · rw [secure_on_shows_nothing]
    exact .nil
  · rename_i code _
    have told : ((texts.message? code).map Update.message).toList.filterMap message? =
        (texts.message? code).toList := by
      cases texts.message? code <;> rfl
    rw [told]
    exact shows_code code
  · rw [secure_off_shows_nothing]
    exact .nil
  · exact .nil
  · exact .nil
  · exact .nil

private theorem update_begun (busy : session.phase ≠ .idle) : session.update begun = session := by
  have going : session.progress.phase ≠ .idle := busy
  rw [Session.update, begun, if_neg going]

private theorem awaken_begun (session : Session) : session.awaken = session.update begun := by
  rcases awaken_cases session with ⟨idle, awake⟩ | ⟨busy, awake⟩
  · have started : session.progress.phase = .idle := idle
    rw [awake, Session.update, Session.update, begun, if_pos started]
  · rw [awake, update_begun busy]

/-- Unless it tells that media is secure, a message changes nothing about the session. -/
theorem receive_message (other : code ≠ .info .secureStateOn) (callEnded : Bool) :
    (session.receive texts callEnded (.message code)).1 = session.update begun := by
  by_cases ended : session.phase = .ended
  · rw [receive_ended ended, update_begun (by simp [ended])]
  · rw [Session.receive, if_neg (mt (ended_iff session).mp ended), ← awaken_begun, Session.apply]
    rintro rfl
    exact other rfl

/-! ### Runs -/

theorem arrivals_snoc (desk : Desk) (earlier : List Operation) (operation : Operation) :
    arrivals desk (earlier ++ [operation]) =
      arrivals desk earlier ++ (arrival? (earlier.foldl perform desk) operation).toList := by
  induction earlier generalizing desk with
  | nil => simp [arrivals]
  | cons first rest ih => simp [arrivals, ih]

private theorem tell_all_texts (reaction : Reaction) (id : SessionId) (updates : List Update)
    (desk : Desk) : (updates.foldl (deliver reaction id) desk).texts = desk.texts := by
  induction updates generalizing desk with
  | nil => rfl
  | cons update rest ih => exact (ih _).trans (serve_all_served desk (reaction desk update)).texts

/-- The texts of a call stay as they are. -/
theorem perform_texts (desk : Desk) (operation : Operation) :
    (perform desk operation).texts = desk.texts := by
  cases operation with
  | ask request => exact (serve_served desk request).texts
  | report id event inquired reaction =>
    rw [perform, ← (consult_served event inquired desk).texts]
    generalize consult event inquired desk = consulted
    cases there : consulted.sessions.get? id with
    | none => rw [handle_unknown there]
    | some session =>
      rw [handle_known there, tell_all_texts]
      rfl

theorem run_texts (texts : Texts) (operations : List Operation) :
    (run texts operations).texts = texts :=
  run_keeps (P := fun desk => desk.texts = texts) rfl
    (fun desk operation kept => (perform_texts desk operation).trans kept) operations

/-- An operation shows what its event does. -/
theorem perform_shows (desk : Desk) (operation : Operation) :
    List.Forall₂ (Shows desk.texts) ((arrival? desk operation).toList.filter visible)
      ((news desk operation).filterMap fun entry => message? entry.2) := by
  cases operation with
  | ask => exact .nil
  | report id event inquired reaction =>
    cases there : (consult event inquired desk).sessions.get? id with
    | none =>
      simp only [arrival?, news, moments, there]
      exact .nil
    | some session =>
      rw [news_report there, List.filterMap_map, ← (consult_served event inquired desk).texts]
      simp only [arrival?, there, Option.bind_some]
      by_cases ended : session.phase = .ended
      · simp [receive_ended ended, ended]
      · simpa [ended, Function.comp_def] using receive_shows ended _ event

/-- A run shows what its events do, in their order. -/
theorem run_shows (texts : Texts) (operations : List Operation) : List.Forall₂ (Shows texts)
    ((arrivals (ofTexts texts) operations).filter visible) (shown (run texts operations)) := by
  induction operations using List.reverseRecOn with
  | nil => exact .nil
  | append_singleton earlier operation ih =>
    have told_more : shown (run texts (earlier ++ [operation])) = shown (run texts earlier) ++
        (news (run texts earlier) operation).filterMap fun entry => message? entry.2 := by
      rw [run_append, List.foldl_cons, List.foldl_nil, shown, told_perform, List.filterMap_append]
      rfl
    have step := perform_shows (run texts earlier) operation
    rw [run_texts] at step
    rw [told_more, arrivals_snoc, List.filter_append]
    exact List.rel_append ih step

/-- Exactly the problems that find a session which has not ended are shown, each once, in order and
as the texts have it, whatever the call does meanwhile. No message changes anything about its session,
shown or not, unless it tells that media is secure; the negotiation of an idle one is under way. -/
theorem problems_shown (texts : Texts) (operations : List Operation) :
    List.Forall₂ (Shows texts) ((arrivals (ofTexts texts) operations).filter visible)
      (shown (run texts operations)) ∧
    ∀ id code inquired, code ≠ .info .secureStateOn →
      (perform (run texts operations) (.report id (.message code) inquired silent)).sessions =
        (run texts operations).sessions.update id begun := by
  refine ⟨run_shows texts operations, ?_⟩
  intro id code inquired other
  have unasked : perform (run texts operations) (.report id (.message code) inquired silent) =
      perform (run texts operations) (.report id (.message code) [] silent) := rfl
  rw [unasked, report_sessions (run_distinct texts operations), Sessions.update]
  simp only [receive_message other, beq_iff_eq]

/-- Texts with places next to each other, at the ends and nearly. -/
def odd : Texts :=
  { Texts.standard with
    dataSendFailed := "\x7b0\x7d\x7b0\x7d, \x7b\x7b0\x7d"
    checksumMismatch := "\x7b0\x7d stays"
    generic := "\x7b0 \x7b0\x7d0\x7d" }

/-- The first session fails and the second has ended when they have problems. -/
def lateProblems : List Operation :=
  let report (id : SessionId) (event : Event) : Operation := .report id event [] silent
  [.ask (.createMaster .audio), .ask (.createMaster .video), .ask (.createMaster .audio),
    report 2 (.message (.protocol .ssrcCollision)),
    report 1 (.negotiationFailed (.severe .cannotSend)), .ask (.endSession 2),
    report 1 (.message (.severe .cannotSend)), report 2 (.message (.severe .noTimer)),
    report 7 (.message (.severe .noTimer)), report 1 (.message (.warning .dhShort)),
    report 1 (.message (.warning .crcMismatch))]

theorem failed_session_complains :
    List.Forall₂ (Shows odd)
      [.message (.protocol .ssrcCollision), .message (.severe .cannotSend),
        .message (.warning .crcMismatch)]
      [⟨"ZRTP", "\x7b0 SsrcCollision (0x91)0\x7d", .zrtp⟩,
        ⟨"Severe", "SevereCannotSendSevereCannotSend, \x7bSevereCannotSend", .severe⟩,
        ⟨"Warning", "\x7b0\x7d stays", .warning⟩] ∧
    (perform (run odd lateProblems)
        (.report 3 (.message (.severe .noTimer)) [.endCall] silent)).sessions =
      (run odd lateProblems).sessions.update 3 begun := by
  obtain ⟨messages, sessions⟩ := problems_shown odd lateProblems
  refine ⟨?_, sessions 3 _ _ nofun⟩
  have arrived : (arrivals (ofTexts odd) lateProblems).filter visible =
      [.message (.protocol .ssrcCollision), .message (.severe .cannotSend),
        .message (.warning .crcMismatch)] := by decide +kernel
  have told : shown (run odd lateProblems) =
      [⟨"ZRTP", "\x7b0 SsrcCollision (0x91)0\x7d", .zrtp⟩,
        ⟨"Severe", "SevereCannotSendSevereCannotSend, \x7bSevereCannotSend", .severe⟩,
        ⟨"Warning", "\x7b0\x7d stays", .warning⟩] := by decide +kernel
  rwa [arrived, told] at messages

end Conference.ShownMessages
