import Mathlib.Data.List.Induction
import Conference.Proofs.DeskMoves

/-! What the call is told when a session turns secure. It follows from the events that the session
received while it had not ended: the cipher agreed on last, for a master the string computed last,
and whether the session had turned secure before. Only masters ask for deriving sessions, and each
of them asks once. -/
namespace Conference.SecureOnHistory
open DeskMoves
open Desk (Reaction ofTexts)

/-! ## What a session received -/

/-- An event that a session received, and the phase in which it found the session. -/
structure Receipt where
  event : Event
  found : Phase

namespace Receipt

def cipher? (receipt : Receipt) : Option String :=
  match receipt.event with
  | .cipherAgreed cipher => some cipher
  | _ => none

/-- The string to compare, and whether it was verified. -/
def sas? (receipt : Receipt) : Option (String × Bool) :=
  match receipt.event with
  | .sasComputed sas verified => some (sas, verified)
  | _ => none

/-- Whether the session turned secure by it. -/
def secures (receipt : Receipt) : Bool :=
  decide (receipt.event = .message (.info .secureStateOn)) && decide (receipt.found ≠ .failed)

end Receipt

/-- What a session receives in an operation. Events of a session that has ended do not reach it. -/
def receipt? (id : SessionId) (desk : Desk) : Operation → Option Receipt
  | .ask _ => none
  | .report subject event inquired _ =>
    if subject = id then
      ((consult event inquired desk).sessions.get? id).bind fun session =>
        if session.phase = .ended then none else some ⟨event, session.phase⟩
    else none

/-- What a session receives in the course of some operations. -/
def received (id : SessionId) : Desk → List Operation → List Receipt
  | _, [] => []
  | desk, operation :: rest =>
    (receipt? id desk operation).toList ++ received id (perform desk operation) rest

def latestCipher (receipts : List Receipt) : Option String :=
  (receipts.filterMap Receipt.cipher?).getLast?

def latestSas (receipts : List Receipt) : Option (String × Bool) :=
  (receipts.filterMap Receipt.sas?).getLast?

/-! ## What the call is told -/

/-- The updates that the call was told, each with its session. -/
def told (desk : Desk) : List (SessionId × Update) :=
  desk.told.toList.map fun delivery => (delivery.session, delivery.update)

/-- What the call is to be told when a session turns secure that received these events before. The
string to compare belongs to masters, whatever a derived session received. -/
def announcement (session : Session) (receipts : List Receipt) : List Update :=
  let report (sas : Option (String × Bool)) : Update :=
    .securityOn session.media (latestCipher receipts) (sas.map Prod.fst)
      ((sas.map Prod.snd).getD false)
  if session.isMaster then
    if receipts.any Receipt.secures then [report (latestSas receipts)]
    else [.startDerived, report (latestSas receipts)]
  else [report none]

/-- Whether an update is part of such an announcement. -/
def announces : Update → Bool
  | .startDerived | .securityOn _ _ _ _ => true
  | _ => false

/-- An operation by which a session turns secure. -/
def TurnsSecure (desk : Desk) (operation : Operation) (id : SessionId) (session : Session) : Prop :=
  (∃ inquired reaction,
      operation = .report id (.message (.info .secureStateOn)) inquired reaction) ∧
    desk.sessions.get? id = some session ∧ session.phase ≠ .ended ∧ session.phase ≠ .failed

variable {id : SessionId} {session later : Session} {sessions before after : Sessions} {desk : Desk}
  {receipts : List Receipt}

theorem received_snoc (id : SessionId) (desk : Desk) (earlier : List Operation)
    (operation : Operation) : received id desk (earlier ++ [operation]) =
      received id desk earlier ++ (receipt? id (earlier.foldl perform desk) operation).toList := by
  induction earlier generalizing desk with
  | nil => simp [received]
  | cons first rest ih => simp [received, ih]

private theorem latest_snoc {α : Type} (view : Receipt → Option α) (receipts : List Receipt)
    (receipt : Receipt) : ((receipts ++ [receipt]).filterMap view).getLast? =
      (view receipt).or (receipts.filterMap view).getLast? := by
  cases seen : view receipt <;> simp [seen]

/-! ## Sessions remember -/

/-- The progress of a session tells of what it received. -/
structure Remembers (receipts : List Receipt) (session : Session) : Prop where
  cipher : session.progress.cipher = latestCipher receipts
  sas : session.progress.sas = (latestSas receipts).map Prod.fst
  verified : session.progress.sasVerified = ((latestSas receipts).map Prod.snd).getD false
  asked : session.isMaster = true →
    session.progress.derivedStarted = receipts.any Receipt.secures

private theorem fresh_remembers (fresh : session.progress = Progress.initial) :
    Remembers [] session := by
  constructor
  · rw [fresh]; rfl
  · rw [fresh]; rfl
  · rw [fresh]; rfl
  · intro _
    rw [fresh]
    rfl

private theorem tended_remembers (remembers : Remembers receipts session)
    (tended : Tended session later) : Remembers receipts later := by
  obtain ⟨cipher, sas, verified, asked⟩ := remembers
  cases tended with
  | same => exact ⟨cipher, sas, verified, asked⟩
  | started => exact ⟨cipher, sas, verified, asked⟩
  | ended => exact ⟨cipher, sas, verified, asked⟩

private theorem awaken_remembers (remembers : Remembers receipts session) :
    Remembers receipts session.awaken := by
  rcases awaken_cases session with ⟨idle, awake⟩ | ⟨-, awake⟩
  · rw [awake]
    exact tended_remembers remembers (.started idle)
  · rwa [awake]

private theorem awaken_failed (session : Session) :
    session.awaken.phase = .failed ↔ session.phase = .failed := by
  rcases awaken_cases session with ⟨idle, awake⟩ | ⟨-, awake⟩
  · simp [awake, idle]
  · rw [awake]

/-- The session has the cipher and the string that it had, and the same master. -/
structure Unrelated (session later : Session) : Prop where
  cipher : later.progress.cipher = session.progress.cipher
  sas : later.progress.sas = session.progress.sas
  verified : later.progress.sasVerified = session.progress.sasVerified
  master : later.master = session.master

private theorem unrelated_remembers (remembers : Remembers receipts session)
    (unrelated : Unrelated session later) (receipt : Receipt)
    (asked : session.isMaster = true → later.progress.derivedStarted =
      (session.progress.derivedStarted || receipt.secures))
    (noCipher : receipt.cipher? = none) (noSas : receipt.sas? = none) :
    Remembers (receipts ++ [receipt]) later := by
  obtain ⟨cipher, sas, verified, master⟩ := unrelated
  constructor
  · rw [cipher, remembers.cipher, latestCipher, latestCipher, latest_snoc, noCipher]; rfl
  · rw [sas, remembers.sas, latestSas, latestSas, latest_snoc, noSas]; rfl
  · rw [verified, remembers.verified, latestSas, latestSas, latest_snoc, noSas]; rfl
  · intro full
    have same : session.isMaster = true := by rwa [Session.isMaster, master] at full
    rw [asked same, remembers.asked same]
    simp

private theorem secure_on_remembers (remembers : Remembers receipts session) (found : Phase)
    (alike : session.phase = .failed ↔ found = .failed) :
    Remembers (receipts ++ [⟨.message (.info .secureStateOn), found⟩])
      session.receiveSecureOn.1 := by
  have unrelated : Unrelated session session.receiveSecureOn.1 := by
    unfold Session.receiveSecureOn
    split
    · exact ⟨rfl, rfl, rfl, rfl⟩
    · dsimp only
      split <;> exact ⟨rfl, rfl, rfl, rfl⟩
  apply unrelated_remembers remembers unrelated
  · intro full
    unfold Session.receiveSecureOn
    by_cases failed : session.phase = .failed
    · simp [Receipt.secures, failed, alike.mp failed]
    · have sound : found ≠ .failed := mt alike.mpr failed
      cases asked : session.progress.derivedStarted <;>
        simp [Receipt.secures, failed, full, asked, sound, Session.update]
  · rfl
  · rfl

/-- What a session makes of an event that is neither about a cipher nor about a string, and by which
it does not turn secure. -/
structure Indifferent (session later : Session) : Prop extends Unrelated session later where
  asked : later.progress.derivedStarted = session.progress.derivedStarted

private theorem secure_off_indifferent (session : Session) (callEnded : Bool) :
    Indifferent session (session.receiveSecureOff callEnded).1 := by
  unfold Session.receiveSecureOff
  split
  · exact ⟨⟨rfl, rfl, rfl, rfl⟩, rfl⟩
  · split <;> exact ⟨⟨rfl, rfl, rfl, rfl⟩, rfl⟩

private theorem failure_indifferent (session : Session) (code : Code) :
    Indifferent session (session.receiveFailure code) := by
  unfold Session.receiveFailure
  split <;> exact ⟨⟨rfl, rfl, rfl, rfl⟩, rfl⟩

private theorem apply_remembers (remembers : Remembers receipts session) (found : Phase)
    (alike : session.phase = .failed ↔ found = .failed) (texts : Texts) (callEnded : Bool)
    (event : Event) :
    Remembers (receipts ++ [⟨event, found⟩]) (session.apply texts callEnded event).1 := by
  have indifferent (later : Session) (kept : Indifferent session later)
      (unsecured : event ≠ .message (.info .secureStateOn))
      (noCipher : Receipt.cipher? ⟨event, found⟩ = none)
      (noSas : Receipt.sas? ⟨event, found⟩ = none) :
      Remembers (receipts ++ [⟨event, found⟩]) later := by
    apply unrelated_remembers remembers kept.toUnrelated
    · intro _
      simp [Receipt.secures, unsecured, kept.asked]
    · exact noCipher
    · exact noSas
  unfold Session.apply
  split
  · obtain ⟨-, sas, verified, asked⟩ := remembers
    constructor
    · rw [latestCipher, latest_snoc]; rfl
    · rw [latestSas, latest_snoc]; exact sas
    · rw [latestSas, latest_snoc]; exact verified
    · intro full
      rw [List.any_append]
      exact (asked full).trans (Bool.or_false _).symm
  · obtain ⟨cipher, -, -, asked⟩ := remembers
    constructor
    · rw [latestCipher, latest_snoc]; exact cipher
    · rw [latestSas, latest_snoc]; rfl
    · rw [latestSas, latest_snoc]; rfl
    · intro full
      rw [List.any_append]
      exact (asked full).trans (Bool.or_false _).symm
  · exact secure_on_remembers remembers found alike
  · rename_i code other
    apply indifferent session ⟨⟨rfl, rfl, rfl, rfl⟩, rfl⟩
    · intro same
      exact other (Event.message.inj same)
    · rfl
    · rfl
  · exact indifferent _ (secure_off_indifferent session callEnded) nofun rfl rfl
  · exact indifferent _ (failure_indifferent session _) nofun rfl rfl
  · exact indifferent session ⟨⟨rfl, rfl, rfl, rfl⟩, rfl⟩ nofun rfl rfl
  · exact indifferent session ⟨⟨rfl, rfl, rfl, rfl⟩, rfl⟩ nofun rfl rfl

theorem receive_remembers (alive : session.phase ≠ .ended) (remembers : Remembers receipts session)
    (texts : Texts) (callEnded : Bool) (event : Event) :
    Remembers (receipts ++ [⟨event, session.phase⟩])
      (session.receive texts callEnded event).1 := by
  have running : ¬session.isEnded = true := by simpa [Session.isEnded] using alive
  rw [Session.receive, if_neg running]
  exact apply_remembers (awaken_remembers remembers) session.phase (awaken_failed session) texts
    callEnded event

/-! ## What an event tells -/

/-- A session that turns secure tells what it remembers. -/
private theorem secure_on_updates (sound : session.phase ≠ .failed)
    (remembers : Remembers receipts session) :
    session.receiveSecureOn.2 = announcement session receipts := by
  obtain ⟨cipher, sas, verified, asked⟩ := remembers
  have same : (session.update fun progress => { progress with phase := .secureOn }).securityOn =
      session.securityOn := rfl
  simp only [Session.receiveSecureOn, if_neg sound, announcement, same]
  cases full : session.isMaster with
  | false => simp [Session.securityOn, full, cipher]
  | true =>
    rw [← asked full]
    cases session.progress.derivedStarted <;>
      simp [Session.securityOn, full, cipher, sas, verified]

theorem securing_updates (alive : session.phase ≠ .ended) (sound : session.phase ≠ .failed)
    (remembers : Remembers receipts session) (texts : Texts) (callEnded : Bool) :
    (session.receive texts callEnded (.message (.info .secureStateOn))).2 =
      announcement session receipts := by
  have running : ¬session.isEnded = true := by simpa [Session.isEnded] using alive
  have same : announcement session.awaken receipts = announcement session receipts := by
    rcases awaken_cases session with ⟨-, awake⟩ | ⟨-, awake⟩ <;> rw [awake]
    rfl
  rw [Session.receive, if_neg running, ← same]
  exact secure_on_updates (mt (awaken_failed session).mp sound) (awaken_remembers remembers)

/-- Only a session that turns secure tells so. -/
theorem announcing_event (alive : session.phase ≠ .ended) (texts : Texts) (callEnded : Bool)
    (member : update ∈ (session.receive texts callEnded event).2) (announced : announces update) :
    event = .message (.info .secureStateOn) ∧ session.phase ≠ .failed := by
  have taken := receive_taken alive texts callEnded event
  generalize (session.receive texts callEnded event).1 = later at taken
  generalize (session.receive texts callEnded event).2 = updates at member taken
  rw [ne_eq, ← awaken_failed session]
  cases taken with
  | noted change phase failure asked message =>
    obtain ⟨message, -, rfl⟩ := by simpa using member
    cases announced
  | derivedDue sound => exact ⟨rfl, sound⟩
  | secured sound => exact ⟨rfl, sound⟩
  | cleared =>
    rw [List.mem_singleton.mp member] at announced
    cases announced
  | clearedFailed =>
    rw [List.mem_singleton.mp member] at announced
    cases announced
  | ended => cases member
  | failed => cases member

/-! ## Runs -/

/-- The sessions remember what they received; an identity that has no session received nothing. -/
structure Kept (id : SessionId) (receipts : List Receipt) (sessions : Sessions) : Prop where
  unknown : sessions.get? id = none → receipts = []
  known : ∀ session, sessions.get? id = some session → Remembers receipts session

private theorem changes_kept (changes : Relation.ReflTransGen Change before after)
    (kept : Kept id receipts before) : Kept id receipts after := by
  constructor
  · intro absent
    cases there : before.get? id with
    | none => exact kept.unknown there
    | some session =>
      obtain ⟨later, held, -⟩ := changes_known changes there
      cases absent.symm.trans held
  · intro later held
    cases there : before.get? id with
    | none =>
      obtain ⟨born, initial, tended⟩ := changes_new changes there held
      rw [kept.unknown there]
      exact tended_remembers (fresh_remembers initial) tended
    | some session =>
      obtain ⟨same, found, tended⟩ := changes_known changes there
      cases held.symm.trans found
      exact tended_remembers (kept.known session there) tended

private theorem applied_kept (there : desk.sessions.get? id = some session)
    (kept : Kept id receipts desk.sessions) (event : Event) :
    Kept id (receipts ++ if session.phase = .ended then [] else [⟨event, session.phase⟩])
      (applied id session event desk).sessions := by
  have now := get_applied there event
  have remembers := kept.known session there
  constructor
  · intro absent
    cases absent.symm.trans now
  · intro later held
    cases held.symm.trans now
    by_cases ended : session.phase = .ended
    · simpa [receive_ended ended, ended] using remembers
    · simpa [ended] using receive_remembers ended remembers desk.texts desk.callEnded event

private theorem applied_kept_other {subject : SessionId} (apart : id ≠ subject)
    (kept : Kept id receipts desk.sessions) (event : Event) :
    Kept id receipts (applied subject session event desk).sessions := by
  constructor
  · intro absent
    exact kept.unknown ((get_applied_other apart).symm.trans absent)
  · intro later held
    exact kept.known later ((get_applied_other apart).symm.trans held)

theorem perform_kept (kept : Kept id receipts desk.sessions) (operation : Operation) :
    Kept id (receipts ++ (receipt? id desk operation).toList)
      (perform desk operation).sessions := by
  cases operation with
  | ask request =>
    rw [receipt?, Option.toList_none, List.append_nil]
    exact changes_kept (serve_served desk request).sessions kept
  | report subject event inquired reaction =>
    have asked := changes_kept (consult_served event inquired desk).sessions kept
    simp only [receipt?, perform]
    generalize consult event inquired desk = consulted at asked
    cases there : consulted.sessions.get? subject with
    | none =>
      rw [handle_unknown there]
      by_cases same : subject = id
      · rw [← same] at asked
        simpa [same.symm, there] using asked
      · simpa [same] using asked
    | some session =>
      apply changes_kept (handle_changes there reaction event)
      by_cases same : subject = id
      · subst same
        have taken := applied_kept there asked event
        by_cases ended : session.phase = .ended
        · simpa [there, ended] using taken
        · simpa [there, ended] using taken
      · simpa [same] using applied_kept_other (Ne.symm same) asked event

theorem run_kept (texts : Texts) (operations : List Operation) (id : SessionId) :
    Kept id (received id (ofTexts texts) operations) (run texts operations).sessions := by
  induction operations using List.reverseRecOn with
  | nil =>
    constructor
    · intro _
      rfl
    · intro session none
      cases none
  | append_singleton earlier operation ih =>
    rw [received_snoc, run_append]
    exact perform_kept ih operation

/-! ### What a run tells -/

/-- What the call is told in an operation. -/
def news (desk : Desk) (operation : Operation) : List (SessionId × Update) :=
  (moments desk operation).map fun (id, _, update) => (id, update)

theorem told_perform (desk : Desk) (operation : Operation) :
    told (perform desk operation) = told desk ++ news desk operation := by
  have entered := congrArg (List.map fun (id, update, _) => (id, update))
    (perform_told desk operation)
  simpa [told, news, Function.comp_def] using entered

theorem news_report (there : (consult event inquired desk).sessions.get? id = some session)
    (reaction : Reaction) : news desk (.report id event inquired reaction) =
      (session.receive (consult event inquired desk).texts (consult event inquired desk).callEnded
        event).2.map (Prod.mk id) := by
  simp only [news, moments, there, tellingsOf]
  generalize consult event inquired desk = consulted
  have updates : (tellings reaction id (session.receive consulted.texts consulted.callEnded event).2
      (applied id session event consulted)).map Prod.snd =
        (session.receive consulted.texts consulted.callEnded event).2 := tellings_updates _ _
  conv_rhs => rw [← updates]
  simp [Function.comp_def]

/-- Only for one event is the call asked anything before it is applied, and it is not this one. -/
theorem consult_message (code : Code) (inquired : List Request) (desk : Desk) :
    consult (.message code) inquired desk = desk := rfl

/-- A session that turns secure has the call told what follows from what it received. -/
theorem turning_news (turns : TurnsSecure desk operation id session)
    (kept : Kept id receipts desk.sessions) :
    news desk operation = (announcement session receipts).map (Prod.mk id) := by
  obtain ⟨⟨inquired, reaction, rfl⟩, there, alive, sound⟩ := turns
  rw [news_report (consult_message _ inquired desk ▸ there), consult_message,
    securing_updates alive sound (kept.known session there)]

private theorem turning_receipt (turns : TurnsSecure desk operation id session) :
    receipt? id desk operation = some ⟨.message (.info .secureStateOn), session.phase⟩ := by
  obtain ⟨⟨inquired, reaction, rfl⟩, there, alive, -⟩ := turns
  simp [receipt?, consult_message, there, alive]

/-- Nothing else has the call told that media is secure, or that deriving sessions are due. -/
theorem announced_turning (member : (id, update) ∈ news desk operation)
    (announced : announces update) : ∃ session, TurnsSecure desk operation id session := by
  cases operation with
  | ask request => cases member
  | report subject event inquired reaction =>
    cases there : (consult event inquired desk).sessions.get? subject with
    | none =>
      simp only [news, moments, there] at member
      cases member
    | some session =>
      rw [news_report there] at member
      obtain ⟨told, follows, same⟩ := List.mem_map.mp member
      cases same
      have alive : session.phase ≠ .ended := by
        intro ended
        rw [receive_ended ended] at follows
        cases follows
      obtain ⟨rfl, sound⟩ := announcing_event alive _ _ follows announced
      exact ⟨session, ⟨inquired, reaction, rfl⟩, there, alive, sound⟩

/-- The call is asked for deriving sessions only by the first event that finds a session neither
ended nor failed and by which it turns secure. -/
private theorem asking_first (kept : Kept id receipts desk.sessions)
    (asks : (id, .startDerived) ∈ news desk operation) :
    receipts.any Receipt.secures = false ∧
      ((receipt? id desk operation).toList.any Receipt.secures) = true ∧
      (news desk operation).count (id, .startDerived) = 1 := by
  obtain ⟨session, turns⟩ := announced_turning asks rfl
  have secures : Receipt.secures ⟨.message (.info .secureStateOn), session.phase⟩ = true := by
    simp [Receipt.secures, turns.2.2.2]
  rw [turning_news turns kept] at asks ⊢
  rw [turning_receipt turns]
  unfold announcement at asks ⊢
  by_cases full : session.isMaster = true
  · cases secured : receipts.any Receipt.secures with
    | false => simp [full, secures]
    | true => simp [full, secured] at asks
  · simp [full] at asks

theorem asked_once (texts : Texts) (operations : List Operation) (id : SessionId) :
    (told (run texts operations)).count (id, .startDerived) ≤
      ((received id (ofTexts texts) operations).any Receipt.secures).toNat := by
  induction operations using List.reverseRecOn with
  | nil => exact Nat.zero_le _
  | append_singleton earlier operation ih =>
    have kept := run_kept texts earlier id
    have snoc : run texts (earlier ++ [operation]) = perform (run texts earlier) operation :=
      run_append texts earlier [operation]
    rw [snoc, told_perform, received_snoc, List.count_append, List.any_append]
    change _ ≤ (_ || (receipt? id (run texts earlier) operation).toList.any Receipt.secures).toNat
    by_cases asks : (id, .startDerived) ∈ news (run texts earlier) operation
    · obtain ⟨unsecured, secures, once⟩ := asking_first kept asks
      rw [unsecured] at ih
      rw [secures, once, Nat.le_zero.mp ih, unsecured]
      exact Nat.le_refl 1
    · rw [List.count_eq_zero.mpr asks]
      cases secured : (received id (ofTexts texts) earlier).any Receipt.secures with
      | false =>
        rw [secured] at ih
        rw [Nat.le_zero.mp ih]
        exact Nat.zero_le _
      | true => simpa [secured] using ih

/-- When a session that has neither ended nor failed turns secure, the call is told once, with what
the events before say about it; nothing else has the call told so. A master asks for its deriving
sessions right before, the first time; so each session asks at most once. -/
theorem secure_on_announced (texts : Texts) (past : List Operation) (operation : Operation) :
    (∀ id session, TurnsSecure (run texts past) operation id session →
      told (run texts (past ++ [operation])) = told (run texts past) ++
        (announcement session (received id (ofTexts texts) past)).map (Prod.mk id)) ∧
    ((∀ id session, ¬TurnsSecure (run texts past) operation id session) →
      ∃ others, told (run texts (past ++ [operation])) = told (run texts past) ++ others ∧
        ∀ entry ∈ others, announces entry.2 = false) ∧
    ∀ id, (told (run texts (past ++ [operation]))).count (id, .startDerived) ≤ 1 := by
  have snoc : run texts (past ++ [operation]) = perform (run texts past) operation :=
    run_append texts past [operation]
  refine ⟨?_, ?_, ?_⟩
  · intro id session turns
    rw [snoc, told_perform, turning_news turns (run_kept texts past id)]
  · intro calm
    refine ⟨news (run texts past) operation, ?_, ?_⟩
    · rw [snoc, told_perform]
    · rintro ⟨id, update⟩ member
      by_contra announced
      obtain ⟨session, turns⟩ := announced_turning member (by simpa using announced)
      exact calm id session turns
  · intro id
    exact Nat.le_trans (asked_once texts (past ++ [operation]) id) (Bool.toNat_le _)

/-- A call with audio and video, each with a cipher and a string, whose audio has been secure and is
clear again. -/
def clearAgain : List Operation :=
  let report (id : SessionId) (event : Event) : Operation := .report id event [] fun _ _ => []
  [.ask (.createMaster .audio), report 1 (.cipherAgreed "AES-128"),
    report 1 (.sasComputed "a3tn" false),
    .report 1 (.message (.info .secureStateOn)) [] startsVideo, report 1 .secureOff,
    report 2 (.cipherAgreed "AES-256"), report 2 (.sasComputed "q7xk" true),
    report 1 (.sasComputed "b9mw" true), report 1 (.message (.warning .crcMismatch))]

/-- The audio session does not ask again and has its new string; the video session keeps its own
string to itself. -/
theorem audio_and_video_announced :
    let secureOn (id : SessionId) : List Operation :=
      clearAgain ++ [.report id (.message (.info .secureStateOn)) [] fun _ _ => []]
    told (run .standard (secureOn 1)) = told (run .standard clearAgain) ++
        [(1, .securityOn .audio (some "AES-128") (some "b9mw") true)] ∧
      told (run .standard (secureOn 2)) = told (run .standard clearAgain) ++
        [(2, .securityOn .video (some "AES-256") none false)] ∧
      (1, .startDerived) ∈ told (run .standard clearAgain) := by
  have audio := (secure_on_announced .standard clearAgain _).1 1
    ⟨1, .audio, none, ⟨some "AES-128", some "b9mw", true, .secureOff, none, true⟩⟩
    ⟨⟨[], fun _ _ => [], rfl⟩, by decide +kernel, nofun, nofun⟩
  have video := (secure_on_announced .standard clearAgain _).1 2
    ⟨2, .video, some 1, ⟨some "AES-256", some "q7xk", true, .negotiating, none, false⟩⟩
    ⟨⟨[], fun _ _ => [], rfl⟩, by decide +kernel, nofun, nofun⟩
  refine ⟨audio.trans (congrArg _ ?_), video.trans (congrArg _ ?_), ?_⟩
  · decide +kernel
  · decide +kernel
  · decide +kernel

end Conference.SecureOnHistory
