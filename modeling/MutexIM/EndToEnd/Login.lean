import MutexIM.Foundations.Network
import MutexIM.LoginServer.Reply

/-!
# Logging in

A client asks the login server for a message server, and then logs in. The dialog waits in `SyncRead` for
each of the two answers, so that it has no more than one message on the way; other clients do the same, and
other programs write to Redis.

* `DlgLogin.input`, `DlgLogin.receive`: the dialog; `loginSystem`: the dialogs and the login server.
* `Phase` is what is on the way between a dialog and the server; `LoginNet.Whole.step`: every step keeps it.
* `opened_of_run`: a dialog that is left with `OnOK` got the answer to what the user has typed, and has the
  address of the server that was ranked first.
-/

namespace MutexIM.EndToEnd

open Bytes LoginServer

/-- The messages between clients and the login server. -/
inductive LoginMsg
  | msgServerRequest (m : MsgServerRequest)
  | msgServResponse (m : MsgServResponse)
  | loginRequest (m : LoginRequest)
  | loginResponse (m : LoginResponse)

/-! ## The dialog -/

/-- What `DoModal` gives. -/
inductive DialogResult
  | running
  | ok (m_userInfo : DlgLogin.UserInfo)
  | cancel

/-- The members of `DlgLogin`. `reading`: it is in `SyncRead`. -/
structure DlgLogin where
  userName : Bytes
  password : Bytes
  strMsgAddress : Bytes
  nPortMsg : UInt16
  reading : Bool
  result : DialogResult

namespace DlgLogin

def new : DlgLogin where
  userName := []
  password := []
  strMsgAddress := []
  nPortMsg := 0
  reading := false
  result := .running

inductive Input
  | btnLogin (userName password : Bytes)
  | close

variable (c : DlgLogin)

/-- The user can do something while the dialog is shown and does not wait. -/
def Free : Prop :=
  match c.result with
  | .running => c.reading = false
  | _ => False

instance : Decidable c.Free := by
  unfold Free
  split <;> infer_instance

/-- `OnBnClickedBtnlogin` with `doMsgServerRequest`, and `OnClose`. -/
def input : Input → Option (DlgLogin × List LoginMsg)
  | .btnLogin userName password =>
    if c.Free then
      some ({ c with userName := userName, password := password, reading := true },
        [.msgServerRequest ⟨userName⟩])
    else none
  | .close => if c.Free then some ({ c with result := .cancel }, []) else none

/-- `handleMsgServerResponse`, but for the request that follows. -/
def handleMsgServerResponse (msg : MsgServResponse) : DlgLogin :=
  if .success = msg.result then { c with nPortMsg := UInt16.ofInt msg.port, strMsgAddress := msg.address }
  else c

/-- `doLoginRequest`. -/
def loginRequest (md5 : Bytes → Bytes) : LoginRequest := ⟨0, c.userName, md5 c.password⟩

/-- What `SyncRead` does with a message. -/
def receive (md5 : Bytes → Bytes) (m : LoginMsg) : Option (DlgLogin × List LoginMsg) :=
  if c.reading then
    match m with
    | .msgServResponse msg =>
      let c := c.handleMsgServerResponse msg
      some (c, [.loginRequest (c.loginRequest md5)])
    | .loginResponse msg =>
      match DlgLogin.handleLoginResponse msg with
      | .onOK info => some ({ c with reading := false, result := .ok info }, [])
      | .messageBox => some ({ c with reading := false }, [])
      | .nothing => some ({ c with reading := false }, [])
    | _ => none
  else none

end DlgLogin

/-! ## The login server -/

/-- A `MsgServerRequest` that was answered, and what Redis was then. -/
structure Assigned (n : ℕ) where
  client : Fin n
  redis : Redis
  request : MsgServerRequest
  response : MsgServResponse
  sound : ∃ r, onMsgServerRequest redis request = some (some response, r)

/-- A `LoginRequest` that was answered, and what Redis was then. -/
structure Answered (md5 : Bytes → Bytes) (n : ℕ) where
  client : Fin n
  sessionID : Bytes
  nTimeTamp : ℤ
  redis : Redis
  request : LoginRequest
  response : LoginResponse
  sound : ∃ r, onLoginRequest md5 sessionID nTimeTamp redis request = some (response, r)

/-- Redis, and what the login server takes next for a session id and for the time. As history, what it has
answered. -/
structure LoginBackend (md5 : Bytes → Bytes) (n : ℕ) where
  redis : Redis
  sessionID : Bytes
  nTimeTamp : ℤ
  assigned : List (Assigned n)
  answered : List (Answered md5 n)

namespace LoginBackend

variable {md5 : Bytes → Bytes} {n : ℕ}

def new (r : Redis) : LoginBackend md5 n where
  redis := r
  sessionID := []
  nTimeTamp := 0
  assigned := []
  answered := []

/-- Other programs write to Redis, and time goes on. -/
inductive Input
  | other (r : Redis)
  | next (sessionID : Bytes) (nTimeTamp : ℤ)

variable (b : LoginBackend md5 n)

def input : Input → LoginBackend md5 n
  | .other r => { b with redis := r }
  | .next sessionID nTimeTamp => { b with sessionID := sessionID, nTimeTamp := nTimeTamp }

/-- The handlers of the messages of a client. -/
def receive (k : Fin n) : LoginMsg → Option (LoginBackend md5 n × List LoginMsg)
  | .msgServerRequest request =>
    match h : onMsgServerRequest b.redis request with
    | some (some response, r) =>
      some ({ b with redis := r, assigned := b.assigned ++ [⟨k, b.redis, request, response, r, h⟩] },
        [.msgServResponse response])
    | some (none, r) => some ({ b with redis := r }, [])
    | none => none
  | .loginRequest request =>
    match h : onLoginRequest md5 b.sessionID b.nTimeTamp b.redis request with
    | some (response, r) =>
      some ({ b with
        redis := r
        answered := b.answered ++ [⟨k, b.sessionID, b.nTimeTamp, b.redis, request, response, r, h⟩] },
        [.loginResponse response])
    | none => none
  | _ => some (b, [])

end LoginBackend

/-! ## The system -/

section System

variable (md5 : Bytes → Bytes) (n : ℕ)

/-- The login server, as the party `none`, and the dialogs. -/
def loginSystem : Parties (Option (Fin n)) LoginMsg where
  State
    | none => LoginBackend md5 n
    | some _ => DlgLogin
  Input
    | none => LoginBackend.Input
    | some _ => DlgLogin.Input
  input
    | none, b, x => some (LoginBackend.input b x, [])
    | some _, c, x => (DlgLogin.input c x).map fun out => (out.1, out.2.map (none, ·))
  receive
    | none, b, some k, m => (LoginBackend.receive b k m).map fun out => (out.1, out.2.map (some k, ·))
    | some _, c, none, m => (DlgLogin.receive c md5 m).map fun out => (out.1, out.2.map (none, ·))
    | _, _, _, _ => none

def loginInitial (r : Redis) : (i : Option (Fin n)) → (loginSystem md5 n).State i
  | none => (LoginBackend.new r : LoginBackend md5 n)
  | some _ => DlgLogin.new

/-- The connections keep the messages in order. -/
abbrev LoginNet := Net (loginSystem md5 n) (.fifo LoginMsg)

end System

namespace LoginNet

variable {md5 : Bytes → Bytes} {n : ℕ} (N : LoginNet md5 n)

def server : LoginBackend md5 n := N.party none

def dlg (k : Fin n) : DlgLogin := N.party (some k)

def toServer (k : Fin n) : List LoginMsg := N.link (some k, none)

def toClient (k : Fin n) : List LoginMsg := N.link (none, some k)

end LoginNet

/-! ## What is on the way -/

section Phases

variable {md5 : Bytes → Bytes} {n : ℕ} (b : LoginBackend md5 n) (k : Fin n) (c : DlgLogin)

/-- The dialog knows the message server that it was assigned to for the name typed. -/
def Knows : Prop :=
  ∃ a ∈ b.assigned, a.client = k ∧ a.request = ⟨c.userName⟩ ∧ c.strMsgAddress = a.response.address ∧
    c.nPortMsg = UInt16.ofInt a.response.port

/-- What is on the way between a dialog and the server. -/
inductive Phase : List LoginMsg → List LoginMsg → Prop
  | free (hreading : c.reading = false) : Phase [] []
  | asked (hreading : c.reading = true) : Phase [.msgServerRequest ⟨c.userName⟩] []
  /-- No message server is ranked. -/
  | unanswered (hreading : c.reading = true) : Phase [] []
  | assigned (hreading : c.reading = true) (a : Assigned n) (ha : a ∈ b.assigned) (hk : a.client = k)
      (hrequest : a.request = ⟨c.userName⟩) : Phase [] [.msgServResponse a.response]
  | sent (hreading : c.reading = true) (hknows : Knows b k c) : Phase [.loginRequest (c.loginRequest md5)] []
  | answered (hreading : c.reading = true) (hknows : Knows b k c) (a : Answered md5 n) (ha : a ∈ b.answered)
      (hk : a.client = k) (hrequest : a.request = c.loginRequest md5) : Phase [] [.loginResponse a.response]

/-- The dialog was left with `OnOK` for an answer to what the user has typed. -/
def Opened : Prop :=
  ∀ info, c.result = .ok info → c.reading = false ∧ Knows b k c ∧
    ∃ a ∈ b.answered, a.client = k ∧ a.request = c.loginRequest md5 ∧
      DlgLogin.handleLoginResponse a.response = .onOK info

variable {b k c} {b' : LoginBackend md5 n} {c' : DlgLogin} {ahead back ms : List LoginMsg} {m : LoginMsg}

theorem Knows.mono (h : Knows b k c) (hassigned : b.assigned ⊆ b'.assigned) : Knows b' k c := by
  obtain ⟨a, ha, hrest⟩ := h
  exact ⟨a, hassigned ha, hrest⟩

theorem Phase.mono (h : Phase b k c ahead back) (hassigned : b.assigned ⊆ b'.assigned)
    (hanswered : b.answered ⊆ b'.answered) : Phase b' k c ahead back := by
  cases h with
  | free hreading => exact .free hreading
  | asked hreading => exact .asked hreading
  | unanswered hreading => exact .unanswered hreading
  | assigned hreading a ha hk hrequest => exact .assigned hreading a (hassigned ha) hk hrequest
  | sent hreading hknows => exact .sent hreading (hknows.mono hassigned)
  | answered hreading hknows a ha hk hrequest =>
    exact .answered hreading (hknows.mono hassigned) a (hanswered ha) hk hrequest

theorem Opened.mono (h : Opened b k c) (hassigned : b.assigned ⊆ b'.assigned)
    (hanswered : b.answered ⊆ b'.answered) : Opened b' k c := by
  intro info hinfo
  obtain ⟨hreading, hknows, a, ha, hrest⟩ := h info hinfo
  exact ⟨hreading, hknows.mono hassigned, a, hanswered ha, hrest⟩

/-- A dialog that waits was not left. -/
theorem Opened.not_ok (h : Opened b k c) (hreading : c.reading = true) (info : DlgLogin.UserInfo) :
    c.result ≠ .ok info := by
  intro hinfo
  cases hreading.symm.trans (h info hinfo).1

theorem DlgLogin.Free.eq (h : c.Free) : c.result = .running ∧ c.reading = false := by
  unfold DlgLogin.Free at h
  split at h
  · next hresult => exact ⟨hresult, h⟩
  · exact h.elim

/-- The user does something. -/
theorem Phase.input (h : Phase b k c ahead back) {x : DlgLogin.Input} (hx : c.input x = some (c', ms)) :
    Phase b k c' (ahead ++ ms) back ∧ Opened b k c' := by
  cases x with
  | btnLogin userName password =>
    obtain ⟨hfree, heq⟩ := Option.ite_none_right_eq_some.1 hx
    obtain ⟨rfl, rfl⟩ := Prod.mk.inj (Option.some.inj heq)
    obtain ⟨hresult, hreading⟩ := hfree.eq
    cases h with
    | free => exact ⟨.asked rfl, fun info hinfo => by cases hresult.symm.trans hinfo⟩
    | _ hwaiting => cases hreading.symm.trans hwaiting
  | close =>
    obtain ⟨hfree, heq⟩ := Option.ite_none_right_eq_some.1 hx
    obtain ⟨rfl, rfl⟩ := Prod.mk.inj (Option.some.inj heq)
    obtain ⟨-, hreading⟩ := hfree.eq
    cases h with
    | free => exact ⟨.free hreading, fun info hinfo => by cases hinfo⟩
    | _ hwaiting => cases hreading.symm.trans hwaiting

/-- The server takes a message of the client. -/
theorem Phase.serve (h : Phase b k c (m :: ahead) back) (hm : b.receive k m = some (b', ms)) :
    Phase b' k c ahead (back ++ ms) ∧ b.assigned ⊆ b'.assigned ∧ b.answered ⊆ b'.answered := by
  cases h with
  | asked hreading =>
    simp only [LoginBackend.receive] at hm
    split at hm
    · next response r hresponse =>
      obtain ⟨rfl, rfl⟩ := Prod.mk.inj (Option.some.inj hm)
      let a : Assigned n := ⟨k, b.redis, ⟨c.userName⟩, response, r, hresponse⟩
      have ha : a ∈ b.assigned ++ [a] := List.mem_append_right _ (List.mem_singleton_self a)
      exact ⟨.assigned hreading a ha rfl rfl, List.subset_append_left _ _, List.Subset.refl _⟩
    · obtain ⟨rfl, rfl⟩ := Prod.mk.inj (Option.some.inj hm)
      exact ⟨.unanswered hreading, List.Subset.refl _, List.Subset.refl _⟩
    · cases hm
  | sent hreading hknows =>
    simp only [LoginBackend.receive] at hm
    split at hm
    · next response r hresponse =>
      obtain ⟨rfl, rfl⟩ := Prod.mk.inj (Option.some.inj hm)
      let a : Answered md5 n :=
        ⟨k, b.sessionID, b.nTimeTamp, b.redis, c.loginRequest md5, response, r, hresponse⟩
      have ha : a ∈ b.answered ++ [a] := List.mem_append_right _ (List.mem_singleton_self a)
      have hknows' : Knows { b with redis := r, answered := b.answered ++ [a] } k c := hknows
      exact ⟨.answered hreading hknows' a ha rfl rfl, List.Subset.refl _, List.subset_append_left _ _⟩
    · cases hm

/-- A client is assigned to the server that is ranked first. -/
theorem Assigned.response_eq (a : Assigned n) : ∃ socket,
    CRedis.zrevrange a.redis (ascii "serverRank") 0 0 = [socket] ∧
      a.response = { address := addressOf socket, port := atoi (portOf socket) } := by
  obtain ⟨r, hr⟩ := a.sound
  unfold onMsgServerRequest at hr
  split at hr
  · next socket hsocket =>
    refine ⟨socket, hsocket, ?_⟩
    split at hr
    · obtain ⟨r', -, heq⟩ := Option.map_eq_some_iff.1 hr
      exact (Option.some.inj (Prod.mk.inj heq).1).symm
    · cases hr
  · cases hr

/-- The dialog takes an answer. -/
theorem Phase.receive (h : Phase b k c ahead (m :: back)) (hopened : Opened b k c)
    (hm : c.receive md5 m = some (c', ms)) : Phase b k c' (ahead ++ ms) back ∧ Opened b k c' := by
  cases h with
  | assigned hreading a ha hk hrequest =>
    have hclosed := hopened.not_ok hreading
    obtain ⟨socket, -, hresponse⟩ := a.response_eq
    rw [DlgLogin.receive, if_pos hreading] at hm
    obtain ⟨rfl, rfl⟩ := Prod.mk.inj (Option.some.inj hm)
    rw [DlgLogin.handleMsgServerResponse, if_pos (by rw [hresponse])]
    exact ⟨.sent hreading ⟨a, ha, hk, hrequest, rfl, rfl⟩, fun info hinfo => absurd hinfo (hclosed info)⟩
  | answered hreading hknows a ha hk hrequest =>
    have hclosed := hopened.not_ok hreading
    rw [DlgLogin.receive, if_pos hreading] at hm
    split at hm
    · next info hinfo =>
      obtain ⟨rfl, rfl⟩ := Prod.mk.inj (Option.some.inj hm)
      refine ⟨.free rfl, fun info' hinfo' => ⟨rfl, hknows, a, ha, hk, hrequest, ?_⟩⟩
      cases hinfo'
      exact hinfo
    · obtain ⟨rfl, rfl⟩ := Prod.mk.inj (Option.some.inj hm)
      exact ⟨.free rfl, fun info hinfo => absurd hinfo (hclosed info)⟩
    · obtain ⟨rfl, rfl⟩ := Prod.mk.inj (Option.some.inj hm)
      exact ⟨.free rfl, fun info hinfo => absurd hinfo (hclosed info)⟩

end Phases

/-! ## Runs -/

section Runs

variable {md5 : Bytes → Bytes} {n : ℕ} {N N' : LoginNet md5 n}

/-- The server goes to a state and sends messages to one client. -/
theorem become_server (N : LoginNet md5 n) (b : LoginBackend md5 n) (j : Fin n) (ms : List LoginMsg)
    {N' : LoginNet md5 n} (h : N' = N.become none (b, ms.map (some j, ·))) :
    N'.server = b ∧ ∀ k, N'.dlg k = N.dlg k ∧ N'.toServer k = N.toServer k ∧
      N'.toClient k = N.toClient k ++ if k = j then ms else [] := by
  subst h
  refine ⟨Net.party_become_self none _, fun k => ⟨Net.party_become_of_ne (Option.some_ne_none k) _, ?_, ?_⟩⟩
  · exact (Net.link_become ..).trans (if_neg (Option.some_ne_none k))
  · refine (Net.link_become ..).trans ((if_pos rfl).trans (congrArg (N.toClient k ++ ·) ?_))
    split
    · next hk =>
      rw [hk]
      exact ofPeer_map_self _ ms
    · next hk => exact ofPeer_map_of_ne (fun heq => hk (Option.some.inj heq).symm) ms

/-- A client goes to a state and sends messages to the server. -/
theorem become_dlg (N : LoginNet md5 n) (j : Fin n) (c : DlgLogin) (ms : List LoginMsg)
    {N' : LoginNet md5 n} (h : N' = N.become (some j) (c, ms.map (none, ·))) :
    N'.server = N.server ∧
      (N'.dlg j = c ∧ N'.toServer j = N.toServer j ++ ms ∧ N'.toClient j = N.toClient j) ∧
        ∀ k, k ≠ j → N'.dlg k = N.dlg k ∧ N'.toServer k = N.toServer k ∧ N'.toClient k = N.toClient k := by
  have hback : ∀ k, N'.toClient k = N.toClient k := fun k =>
    h ▸ (Net.link_become ..).trans (if_neg (Option.some_ne_none j).symm)
  subst h
  refine ⟨Net.party_become_of_ne (Option.some_ne_none j).symm _,
    ⟨Net.party_become_self (some j) _, ?_, hback j⟩, fun k hk => ?_⟩
  · refine (Net.link_become ..).trans ((if_pos rfl).trans (congrArg (N.toServer j ++ ·) ?_))
    exact ofPeer_map_self _ ms
  · have hkj : some k ≠ some j := fun heq => hk (Option.some.inj heq)
    exact ⟨Net.party_become_of_ne hkj _, (Net.link_become ..).trans (if_neg hkj), hback k⟩

/-- Every dialog and what is on the way for it. -/
def LoginNet.Whole (N : LoginNet md5 n) : Prop :=
  ∀ k, Phase N.server k (N.dlg k) (N.toServer k) (N.toClient k) ∧ Opened N.server k (N.dlg k)

/-- A step for one client: the server may have answered more, and the others have what they had. -/
theorem LoginNet.Whole.of_client (h : N.Whole) {j : Fin n}
    (hassigned : N.server.assigned ⊆ N'.server.assigned)
    (hanswered : N.server.answered ⊆ N'.server.answered)
    (hj : Phase N'.server j (N'.dlg j) (N'.toServer j) (N'.toClient j) ∧ Opened N'.server j (N'.dlg j))
    (hothers : ∀ k, k ≠ j →
      N'.dlg k = N.dlg k ∧ N'.toServer k = N.toServer k ∧ N'.toClient k = N.toClient k) : N'.Whole := by
  intro k
  by_cases hk : k = j
  · exact hk ▸ hj
  · obtain ⟨hdlg, hto, hback⟩ := hothers k hk
    rw [hdlg, hto, hback]
    exact ⟨(h k).1.mono hassigned hanswered, (h k).2.mono hassigned hanswered⟩

/-- The queue to a client is another one. -/
theorem setLink_dlg (N : LoginNet md5 n) (j k : Fin n) (rest : List LoginMsg) {N₁ : LoginNet md5 n}
    (h : N₁ = N.setLink none (some j) rest) : N₁.toServer k = N.toServer k ∧
      N₁.toClient k = if k = j then rest else N.toClient k := by
  subst h
  refine ⟨Net.link_setLink_of_ne (n := N) (by simp) rest, ?_⟩
  split
  · next hk => exact hk ▸ Net.link_setLink (n := N) ..
  · next hk => exact Net.link_setLink_of_ne (n := N) (by simp [hk]) rest

/-- The queue from a client is another one. -/
theorem setLink_server (N : LoginNet md5 n) (i k : Fin n) (rest : List LoginMsg) {N₁ : LoginNet md5 n}
    (h : N₁ = N.setLink (some i) none rest) : N₁.toClient k = N.toClient k ∧
      N₁.toServer k = if k = i then rest else N.toServer k := by
  subst h
  refine ⟨Net.link_setLink_of_ne (n := N) (by simp) rest, ?_⟩
  split
  · next hk => exact hk ▸ Net.link_setLink (n := N) ..
  · next hk => exact Net.link_setLink_of_ne (n := N) (by simp [hk]) rest

/-- A dialog takes the message that has come. -/
theorem LoginNet.Whole.take_dlg (h : N.Whole) {j : Fin n} {m : LoginMsg} {rest ms : List LoginMsg}
    {c : DlgLogin} (hlink : N.toClient j = m :: rest) (hm : (N.dlg j).receive md5 m = some (c, ms))
    (hN' : N' = (Net.setLink N none (some j) rest).become (some j) (c, ms.map (none, ·))) : N'.Whole := by
  obtain ⟨hserver, ⟨hdlg, hto, hback⟩, hothers⟩ := become_dlg _ j c ms hN'
  have hserver' : N'.server = N.server := hserver
  have hj := h j
  rw [hlink] at hj
  refine h.of_client (j := j) (hserver' ▸ List.Subset.refl _) (hserver' ▸ List.Subset.refl _) ?_
    fun k hk => ?_
  · obtain ⟨hto₁, hback₁⟩ := setLink_dlg N j j rest rfl
    rw [hserver', hdlg, hto, hback, hto₁, hback₁, if_pos rfl]
    exact hj.1.receive hj.2 hm
  · obtain ⟨hdlg, hto, hback⟩ := hothers k hk
    obtain ⟨hto₁, hback₁⟩ := setLink_dlg N j k rest rfl
    exact ⟨hdlg, hto.trans hto₁, hback.trans (hback₁.trans (if_neg hk))⟩

/-- The server takes the message that has come from a client. -/
theorem LoginNet.Whole.take_server (h : N.Whole) {i : Fin n} {m : LoginMsg} {rest ms : List LoginMsg}
    {b : LoginBackend md5 n} (hlink : N.toServer i = m :: rest) (hm : N.server.receive i m = some (b, ms))
    (hN' : N' = (Net.setLink N (some i) none rest).become none (b, ms.map (some i, ·))) : N'.Whole := by
  obtain ⟨hserver, hothers⟩ := become_server _ b i ms hN'
  have hdlg : ∀ k, N'.dlg k = N.dlg k := fun k => (hothers k).1
  have hi := (h i).1
  rw [hlink] at hi
  obtain ⟨hphase, hassigned, hanswered⟩ := hi.serve hm
  rw [← hserver] at hphase hassigned hanswered
  refine h.of_client (j := i) hassigned hanswered ?_ fun k hk => ?_
  · obtain ⟨-, hto, hback⟩ := hothers i
    obtain ⟨hback₁, hto₁⟩ := setLink_server N i i rest rfl
    rw [hdlg, hto, hback, hto₁, hback₁, if_pos rfl, if_pos rfl]
    exact ⟨hphase, (h i).2.mono hassigned hanswered⟩
  · obtain ⟨-, hto, hback⟩ := hothers k
    obtain ⟨hback₁, hto₁⟩ := setLink_server N i k rest rfl
    rw [if_neg hk, List.append_nil] at hback
    exact ⟨hdlg k, hto.trans (hto₁.trans (if_neg hk)), hback.trans hback₁⟩

/-- **Every step keeps it.** -/
theorem LoginNet.Whole.step (h : N.Whole) {e : Net.Event (loginSystem md5 n) (.fifo LoginMsg)}
    (hstep : N.step e = some N') : N'.Whole := by
  cases e with
  | inner i j e => cases hstep
  | input i x =>
    obtain ⟨out, hout, hN'⟩ := Option.map_eq_some_iff.1 hstep
    cases i with
    | none =>
      obtain rfl := Option.some.inj hout
      intro k
      obtain ⟨hserver, hothers⟩ := become_server N (LoginBackend.input N.server x) k [] hN'.symm
      obtain ⟨hdlg, hto, hback⟩ := hothers k
      rw [hserver, hdlg, hto, hback, if_pos rfl, List.append_nil]
      cases x <;> exact ⟨(h k).1.mono (List.Subset.refl _) (List.Subset.refl _),
        (h k).2.mono (List.Subset.refl _) (List.Subset.refl _)⟩
    | some j =>
      obtain ⟨⟨c, ms⟩, hx, rfl⟩ := Option.map_eq_some_iff.1 hout
      obtain ⟨hserver, ⟨hdlg, hto, hback⟩, hothers⟩ := become_dlg N j c ms hN'.symm
      refine h.of_client (hserver ▸ List.Subset.refl _) (hserver ▸ List.Subset.refl _) ?_ hothers
      rw [hserver, hdlg, hto, hback]
      exact (h j).1.input hx
  | take i j =>
    obtain ⟨⟨m, rest⟩, htake, hhandle⟩ := Option.bind_eq_some_iff.1 hstep
    obtain ⟨m, hlink, rfl⟩ := Net.take_fifo htake
    obtain ⟨out, hout, hN'⟩ := Option.map_eq_some_iff.1 hhandle
    cases i with
    | none =>
      cases j with
      | none => cases hout
      | some j =>
        obtain ⟨⟨c, ms⟩, hm, rfl⟩ := Option.map_eq_some_iff.1 hout
        exact h.take_dlg hlink hm hN'.symm
    | some i =>
      cases j with
      | some j => cases hout
      | none =>
        obtain ⟨⟨b, ms⟩, hm, rfl⟩ := Option.map_eq_some_iff.1 hout
        exact h.take_server hlink hm hN'.symm

/-- Over the queues, every message may be sent. -/
abbrev LoginNet.RunsTo (r : Redis) (es : List (Net.Event (loginSystem md5 n) (.fifo LoginMsg)))
    (N : LoginNet md5 n) : Prop :=
  Run Net.step (fun N e => N.AllowedFifo (fun _ => True) e) (Net.new (loginInitial md5 n r)) es N

theorem LoginNet.whole_of_runsTo {r : Redis} {es : List (Net.Event (loginSystem md5 n) (.fifo LoginMsg))}
    (hrun : N.RunsTo r es) : N.Whole :=
  hrun.invariant (I := LoginNet.Whole) (fun _ _ _ h _ hstep => h.step hstep)
    fun _ => ⟨.free rfl, fun _ hinfo => by cases hinfo⟩

/-- The request passed, and the dialog has the user and the session id; or the check of it failed, and
the dialog has nothing. -/
def Answered.Tells (a : Answered md5 n) (info : DlgLogin.UserInfo) : Prop :=
  Passes md5 a.redis a.request ∧ info.userId = a.request.userId ∧ info.encryptoSeed = a.sessionID ∧
      info.timeTamp = a.nTimeTamp ∨
    ¬NotRejected md5 a.redis a.request ∧ info = ⟨0, [], [], [], [], [], [], [], 0⟩

theorem response_of_passes {sessionID : Bytes} {nTimeTamp : ℤ} {r r' : Redis} {request : LoginRequest}
    {response : LoginResponse} (hpass : Passes md5 r request)
    (h : onLoginRequest md5 sessionID nTimeTamp r request = some (response, r')) :
    response.userId = request.userId ∧ response.sessionId = sessionID ∧ response.timeTamp = nTimeTamp := by
  rw [onLoginRequest, if_pos (by rw [hpass.1]; rfl)] at h
  dsimp only at h
  rw [if_pos hpass.2] at h
  obtain ⟨r₁, -, heq⟩ := Option.map_eq_some_iff.1 h
  obtain ⟨rfl, -⟩ := Prod.mk.inj heq
  exact ⟨hpass.2.1.symm, rfl, rfl⟩

theorem Answered.tells {a : Answered md5 n} {info : DlgLogin.UserInfo}
    (h : DlgLogin.handleLoginResponse a.response = .onOK info) : a.Tells info := by
  obtain ⟨r, hr⟩ := a.sound
  have hresult := DlgLogin.admits_iff.1 ⟨info, h⟩
  rw [DlgLogin.handleLoginResponse, if_pos hresult.symm] at h
  cases h
  rcases onLoginRequest_cases hr with ⟨hpass, -, -⟩ | ⟨hrejected, hresponse⟩ | ⟨-, hresponse⟩
  · obtain ⟨huser, hid, htime⟩ := response_of_passes hpass hr
    exact .inl ⟨hpass, huser, hid, htime⟩
  · exact .inr ⟨hrejected, by rw [hresponse]⟩
  · rw [hresponse] at hresult
    cases hresult

/-- **A dialog that was left with `OnOK`** got the answer to the user name and the password that stand in
it. The address it has is that of the server which was ranked first when it asked. -/
theorem opened_of_run {r : Redis} {es : List (Net.Event (loginSystem md5 n) (.fifo LoginMsg))}
    (hrun : N.RunsTo r es) {k : Fin n} {info : DlgLogin.UserInfo} (hinfo : (N.dlg k).result = .ok info) :
    (∃ a ∈ N.server.answered, a.client = k ∧
        a.request = ⟨0, (N.dlg k).userName, md5 (N.dlg k).password⟩ ∧ a.Tells info) ∧
      ∃ a ∈ N.server.assigned, a.client = k ∧ a.request = ⟨(N.dlg k).userName⟩ ∧
        ∃ socket, CRedis.zrevrange a.redis (ascii "serverRank") 0 0 = [socket] ∧
          (N.dlg k).strMsgAddress = addressOf socket ∧
          (N.dlg k).nPortMsg = UInt16.ofInt (atoi (portOf socket)) := by
  obtain ⟨-, ⟨b, hb, hbk, hrequest, haddress, hport⟩, a, ha, hak, hlogin, hresponse⟩ :=
    (LoginNet.whole_of_runsTo hrun k).2 info hinfo
  obtain ⟨socket, hsocket, heq⟩ := b.response_eq
  rw [heq] at haddress hport
  exact ⟨⟨a, ha, hak, hlogin, Answered.tells hresponse⟩,
    b, hb, hbk, hrequest, socket, hsocket, haddress, hport⟩

end Runs

/-- The user a dialog was left with. -/
def DialogResult.userId : DialogResult → Option Bytes
  | .ok info => some info.userId
  | _ => none

/-- The user `a` logs in, while another program writes to Redis that someone is online. -/
theorem opened_other : ∃ (N : LoginNet md5A 2) (info : DlgLogin.UserInfo),
    N.RunsTo userRedis
      [.input (some 1) (DlgLogin.Input.btnLogin (ascii "a") (ascii "a")), .take (some 1) none,
        .take none (some 1), .input none (LoginBackend.Input.next (ascii "1") 7), .take (some 1) none,
        .input none (LoginBackend.Input.other (CRedis.set userRedis (ascii "online:a") (ascii "h:1"))),
        .take none (some 1)] ∧
      (N.dlg 1).result = .ok info ∧
      (∃ a ∈ N.server.answered, a.client = 1 ∧
        a.request = ⟨0, (N.dlg 1).userName, md5A (N.dlg 1).password⟩ ∧ a.Tells info) ∧
      ∃ a ∈ N.server.assigned, a.client = 1 ∧ a.request = ⟨(N.dlg 1).userName⟩ ∧
        ∃ socket, CRedis.zrevrange a.redis (ascii "serverRank") 0 0 = [socket] ∧
          (N.dlg 1).strMsgAddress = addressOf socket ∧
          (N.dlg 1).nPortMsg = UInt16.ofInt (atoi (portOf socket)) := by
  have hexec : ((exec Net.step (fun N e => N.AllowedFifo (fun _ => True) e)
      (Net.new (loginInitial md5A 2 userRedis))
      [.input (some 1) (DlgLogin.Input.btnLogin (ascii "a") (ascii "a")), .take (some 1) none,
        .take none (some 1), .input none (LoginBackend.Input.next (ascii "1") 7), .take (some 1) none,
        .input none (LoginBackend.Input.other (CRedis.set userRedis (ascii "online:a") (ascii "h:1"))),
        .take none (some 1)]).map fun N : LoginNet md5A 2 => (N.dlg 1).result.userId) =
      some (some (ascii "a")) := by decide +kernel
  obtain ⟨N, hexec, huser⟩ := Option.map_eq_some_iff.1 hexec
  have hrun : N.RunsTo userRedis _ := .of_exec hexec
  cases hresult : (N.dlg 1).result with
  | ok info => exact ⟨N, info, hrun, hresult, opened_of_run hrun hresult⟩
  | running => rw [hresult] at huser; cases huser
  | cancel => rw [hresult] at huser; cases huser

end MutexIM.EndToEnd
