import Conference.Simulation

/-! The scripted negotiation of a simulated conference. It has the same course whatever the texts of
messages are: it never fails, and the call is told of it as often as there are cycles for its parts.
The warning half way through gives way to an earlier part of the same cycle. -/
namespace Conference.NegotiationScript
open Simulation

variable (texts : Texts)

/-! ## The course of the negotiation -/

/-- The first session with some progress. -/
def audio (progress : Progress) : Session := ⟨1, .audio, none, progress⟩

/-- The second session, which derives its keys from the first. -/
def video : Session := ⟨2, .video, some 1, ⟨some "AES-256", none, false, .secureOn, none, false⟩⟩

def negotiating : Progress := { Progress.initial with phase := .negotiating }

/-- The progress of a master that turned secure. -/
def agreed : Progress := ⟨some "AES-256", some "ab12", false, .secureOn, none, true⟩

/-- What the call is told when the first session turns secure. -/
def audioSecured : List Delivery :=
  [⟨1, .startDerived, some .secureOn, []⟩,
    ⟨1, .securityOn .audio (some "AES-256") (some "ab12") false, some .secureOn, []⟩]

def videoSecured : Delivery :=
  ⟨2, .securityOn .video (some "AES-256") none false, some .secureOn, []⟩

def warned : Delivery :=
  ⟨1, .message ⟨texts.warningLabel, texts.noRsMatch, .warning⟩, some .secureOn, []⟩

def startedDesk : Desk := ⟨texts, ⟨[audio negotiating], 1⟩, false, #[]⟩

def secureDesk : Desk := ⟨texts, ⟨[audio agreed], 1⟩, false, audioSecured.toArray⟩

def videoDesk : Desk :=
  ⟨texts, ⟨[audio agreed, video], 2⟩, false, (audioSecured ++ [videoSecured]).toArray⟩

def warnedDesk : Desk :=
  ⟨texts, ⟨[audio agreed, video], 2⟩, false, (audioSecured ++ [videoSecured, warned texts]).toArray⟩

/-- Whether the warning half way through `cycles` cycles was given after the first `done` of them. The
cycles before the third have other parts. -/
def Warned (cycles done : Nat) : Prop := 3 ≤ cycles / 2 ∧ cycles / 2 < done

instance : DecidablePred (Warned cycles) := fun _ => inferInstanceAs (Decidable (_ ∧ _))

/-- The desk after the first `done` of `cycles` cycles. -/
def deskAfter (cycles done : Nat) : Desk :=
  if done < 2 then startedDesk texts
  else if done = 2 then secureDesk texts
  else if Warned cycles done then warnedDesk texts
  else videoDesk texts

theorem open_desk : openDesk texts = .ok (startedDesk texts) := rfl

/-- Deriving sessions are due once the first session is secure. -/
theorem derived_due : derivedDue (secureDesk texts) = true := by
  simp [derivedDue, secureDesk, audioSecured]

theorem video_added : addVideo (secureDesk texts) = .ok (videoDesk texts) := rfl

theorem warning_given :
    feed master [.message (.warning .noRsMatch)] (videoDesk texts) = warnedDesk texts := rfl

/-- The script goes on as it should in every cycle. -/
theorem negotiate_succeeds (cycles done : Nat) :
    negotiate done cycles (deskAfter texts cycles done) = .ok (deskAfter texts cycles (done + 1)) := by
  match done with
  | 0 => rfl
  | 1 => rfl
  | 2 =>
    have early : ¬Warned cycles 3 := fun warned => by
      have late : 3 ≤ cycles / 2 := warned.1
      exact Nat.lt_irrefl _ (Nat.lt_of_le_of_lt late warned.2)
    have secure : deskAfter texts cycles 2 = secureDesk texts := rfl
    have last : deskAfter texts cycles 3 = videoDesk texts := if_neg early
    rw [secure, last, negotiate, if_neg (by decide), if_neg (by decide),
      if_pos ⟨rfl, derived_due texts⟩, video_added]
  | done + 3 =>
    have later (done : Nat) : deskAfter texts cycles (done + 3) =
        if Warned cycles (done + 3) then warnedDesk texts else videoDesk texts := by
      rw [deskAfter, if_neg (by omega), if_neg (by omega)]
    rw [negotiate, if_neg (by omega), if_neg (by omega), if_neg (by omega), later done,
      later (done + 1)]
    by_cases now : done + 3 = cycles / 2
    · have before : ¬Warned cycles (done + 3) := fun warned => Nat.ne_of_gt warned.2 now
      have after : Warned cycles (done + 1 + 3) := ⟨by omega, by omega⟩
      rw [if_pos now, if_neg before, if_pos after, warning_given]
    · have same : Warned cycles (done + 3) ↔ Warned cycles (done + 1 + 3) := by
        unfold Warned
        omega
      rw [if_neg now]
      simp only [same]

/-! ## What the call is told -/

/-- Updates that the call was told, other than to start sessions. -/
def updates (desk : Desk) : Nat := (desk.told.filter (·.update != .startDerived)).size

/-- How often the call is told of a conference of so many cycles. -/
def updatesIn (cycles : Nat) : Nat :=
  if cycles ≤ 1 then 0 else if cycles = 2 then 1 else if cycles ≤ 5 then 2 else 3

theorem updates_after (cycles : Nat) : updates (deskAfter texts cycles cycles) = updatesIn cycles := by
  have half : Warned cycles cycles ↔ 5 < cycles := by
    unfold Warned
    omega
  rw [deskAfter, updatesIn]
  by_cases few : cycles < 2
  · rw [if_pos few, if_pos (show cycles ≤ 1 by omega)]
    simp [updates, startedDesk]
  rw [if_neg few, if_neg (show ¬cycles ≤ 1 by omega)]
  by_cases two : cycles = 2
  · rw [if_pos two, if_pos two]
    simp [updates, secureDesk, audioSecured]
  rw [if_neg two, if_neg two]
  by_cases many : 5 < cycles
  · rw [if_pos (half.mpr many), if_neg (show ¬cycles ≤ 5 by omega)]
    simp [updates, warnedDesk, audioSecured, videoSecured, warned]
  · rw [if_neg (mt half.mp many), if_pos (show cycles ≤ 5 by omega)]
    simp [updates, videoDesk, audioSecured, videoSecured]

/-- Once the call has ended it is not told that media turns clear. -/
theorem ended_untold (desk : Desk) (ended : desk.callEnded = true) :
    (feed master [.secureOff] desk).told = desk.told := by
  rw [feed, List.foldl_cons, List.foldl_nil, Desk.handle]
  split
  · rfl
  · rename_i session _
    have silent : (session.receive desk.texts desk.callEnded .secureOff).2 = [] := by
      unfold Session.receive
      split
      · rfl
      · rw [Session.apply, Session.receiveSecureOff, if_pos ended]
    simp only [silent, List.foldl_nil]

end Conference.NegotiationScript
