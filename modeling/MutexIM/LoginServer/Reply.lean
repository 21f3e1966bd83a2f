import MutexIM.LoginServer.Authentication

/-!
# The answer to a login

The client opens its main window when the answer to its `LoginRequest` has the result `SUCCESS`.
`onLoginRequest` has three outcomes, and sets the result in two of them; an unset field reads as the
first value of its type, which is `SUCCESS`.

* `DlgLogin.handleLoginResponse` is what the client does with the answer.
* `onLoginRequest_cases`: the three outcomes.
* `reply_iff`: the answer tells the outcome, and the client opens its window for accepted logins only,
  unless the check of the request failed.
* `rejected_login_succeeds`: for a user who does not exist the client opens its window.
-/

namespace MutexIM.LoginServer

open Bytes

/-! ## The client -/

namespace DlgLogin

/-- What the client keeps of an answer. -/
structure UserInfo where
  timeTamp : ℤ
  encryptoSeed : Bytes
  userId : Bytes
  name : Bytes
  nickName : Bytes
  email : Bytes
  position : Bytes
  imageUrl : Bytes
  sex : ℤ

/-- What the client does with an answer: it closes the dialog and opens the main window, it shows that
the user is online already, or it does nothing. -/
inductive Outcome
  | onOK (m_userInfo : UserInfo)
  | messageBox
  | nothing

/-- `DlgLogin::handleLoginResponse`. -/
def handleLoginResponse (msg : LoginResponse) : Outcome :=
  if .success = msg.result then
    .onOK
      { timeTamp := msg.timeTamp
        encryptoSeed := msg.sessionId
        userId := msg.userId
        name := msg.name
        nickName := msg.nickName
        email := msg.email
        position := msg.position
        imageUrl := msg.imageUrl
        sex := msg.sex }
  else if .onlyOneError = msg.result then .messageBox
  else .nothing

/-- The main window opens. -/
def Admits (msg : LoginResponse) : Prop := ∃ info, handleLoginResponse msg = .onOK info

theorem admits_iff {msg : LoginResponse} : Admits msg ↔ msg.result = .success := by
  unfold Admits handleLoginResponse
  constructor
  · rintro ⟨info, h⟩
    split at h
    · next hsuccess => exact hsuccess.symm
    · split at h <;> cases h
  · intro h
    rw [if_pos h.symm]
    exact ⟨_, rfl⟩

end DlgLogin

/-! ## The server -/

section Reply

variable (md5 : Bytes → Bytes) (sessionID : Bytes) (r : Redis) (request : LoginRequest)

/-- The result is `SUCCESS` exactly when the request passed and got a session id. -/
def TellsOutcome (response : LoginResponse) : Prop :=
  response.result = .success ↔ Passes md5 r request ∧ response.sessionId = sessionID

/-- The check of the request did not fail: it passed, or the user is online and nothing was checked. -/
def NotRejected : Prop :=
  CRedis.existsKey r (ascii "online:" ++ request.userId) = false →
    CheckData md5 (CRedis.hgetAll r (ascii "user:" ++ request.userId)) request

variable {md5 sessionID r request} {nTimeTamp : ℤ} {response : LoginResponse} {r' : Redis}

/-- **The three outcomes** of a `LoginRequest`. -/
theorem onLoginRequest_cases
    (h : onLoginRequest md5 sessionID nTimeTamp r request = some (response, r')) :
    Passes md5 r request ∧ response.result = .success ∧ response.sessionId = sessionID ∨
    ¬NotRejected md5 r request ∧ response = {} ∨
    CRedis.existsKey r (ascii "online:" ++ request.userId) = true ∧
      response = { result := .onlyOneError } := by
  simp only [onLoginRequest] at h
  split at h
  · next honline =>
    have honline : CRedis.existsKey r (ascii "online:" ++ request.userId) = false := by
      simpa using honline
    split at h
    · next hcheck =>
      obtain ⟨r₁, -, heq⟩ := Option.map_eq_some_iff.1 h
      obtain ⟨rfl, -⟩ := Prod.mk.inj heq
      exact .inl ⟨⟨honline, hcheck⟩, rfl, rfl⟩
    · next hcheck =>
      obtain ⟨rfl, -⟩ := Prod.mk.inj (Option.some.inj h)
      exact .inr (.inl ⟨fun hn => hcheck (hn honline), rfl⟩)
  · next honline =>
    obtain ⟨rfl, -⟩ := Prod.mk.inj (Option.some.inj h)
    exact .inr (.inr ⟨by simpa using honline, rfl⟩)

theorem Passes.notRejected (h : Passes md5 r request) : NotRejected md5 r request := fun _ => h.2

theorem not_passes_of_rejected (h : ¬NotRejected md5 r request) : ¬Passes md5 r request :=
  fun hp => h hp.notRejected

/-- **When the answer tells the outcome**: the result is `SUCCESS` exactly for an accepted login, and
the client opens its main window for accepted logins only, if and only if the check of the request did
not fail. -/
theorem reply_iff (h : onLoginRequest md5 sessionID nTimeTamp r request = some (response, r')) :
    (TellsOutcome md5 sessionID r request response ↔ NotRejected md5 r request) ∧
      ((DlgLogin.Admits response → Passes md5 r request) ↔ NotRejected md5 r request) := by
  unfold TellsOutcome
  rw [DlgLogin.admits_iff]
  rcases onLoginRequest_cases h with ⟨hpass, hresult, hid⟩ | ⟨hrejected, rfl⟩ | ⟨honline, rfl⟩
  · have hok := hpass.notRejected
    exact ⟨iff_of_true (iff_of_true hresult ⟨hpass, hid⟩) hok, iff_of_true (fun _ => hpass) hok⟩
  · have hnot := not_passes_of_rejected hrejected
    exact ⟨iff_of_false (fun hiff => hnot (hiff.1 rfl).1) hrejected,
      iff_of_false (fun himp => hnot (himp rfl)) hrejected⟩
  · have hnot : ¬Passes md5 r request := by
      rintro ⟨hoff, -⟩
      rw [honline] at hoff
      cases hoff
    have hok : NotRejected md5 r request := by
      intro hoff
      rw [honline] at hoff
      cases hoff
    exact ⟨iff_of_true (iff_of_false (by decide) fun hp => hnot hp.1) hok,
      iff_of_true (fun hsuccess => by cases hsuccess) hok⟩

end Reply

/-- The user `a` logs in with the right password. -/
theorem reply_accepted : ∃ response r',
    onLoginRequest md5A (ascii "1") 0 userRedis ⟨0, ascii "a", digestA⟩ = some (response, r') ∧
      TellsOutcome md5A (ascii "1") userRedis ⟨0, ascii "a", digestA⟩ response := by
  have hsome : (onLoginRequest md5A (ascii "1") 0 userRedis ⟨0, ascii "a", digestA⟩).isSome = true := by
    decide +kernel
  obtain ⟨⟨response, r'⟩, h⟩ := Option.isSome_iff_exists.1 hsome
  have hcheck : CheckData md5A (CRedis.hgetAll userRedis (ascii "user:a")) ⟨0, ascii "a", digestA⟩ := by
    decide +kernel
  exact ⟨response, r', h, (reply_iff h).1.2 fun _ => hcheck⟩

/-- The user `b` does not exist, and the client opens its main window. -/
theorem rejected_login_succeeds : ∃ response r',
    onLoginRequest md5A (ascii "1") 0 userRedis ⟨0, ascii "b", digestA⟩ = some (response, r') ∧
      ¬Passes md5A userRedis ⟨0, ascii "b", digestA⟩ ∧ response.result = .success ∧
      DlgLogin.Admits response := by
  have hexec : (onLoginRequest md5A (ascii "1") 0 userRedis ⟨0, ascii "b", digestA⟩).map Prod.fst =
      some {} := by decide +kernel
  obtain ⟨⟨response, r'⟩, h, rfl⟩ := Option.map_eq_some_iff.1 hexec
  exact ⟨{}, r', h, by decide +kernel, rfl, DlgLogin.admits_iff.2 rfl⟩

end MutexIM.LoginServer
