import MutexIM.Client.ChatWindows
import MutexIM.Foundations.Runs
import MutexIM.MessageServer.ListMessages

/-!
# The main dialog of the client

`CClientDlg` keeps the friends, the groups and their members, as the server has sent them, and the chat
windows. Its handlers are called for the messages that come in; others are called for what the user does,
and send messages. The messages come in on a thread of their own, which runs before the two pages with the
lists are created: the page of the friends then shows those that have come, that of the groups does not.

* `CClientDlg.input`, `CClientDlg.receive`: what the dialog does, with the messages it sends.
* `Consistent`: what is shown where. `Reacts.input`, `Reacts.receive`: every handler keeps it.
* `sound_of_run`: so it holds whatever the user does and whatever comes in, and what is sent names the user
  and goes to friends and groups.
-/

namespace MutexIM.Client

open Bytes Codec MessageServer

/-! ## Chat windows -/

/-- What is appended to `m_csChatLog`: a message with the nickname of the sender, or what the user sends. -/
inductive LogEntry
  | received (nickName : Bytes) (msg : MsgData)
  | own (nickName strMessage : Bytes)
  deriving DecidableEq

/-- The message that an entry is for, if it came in. -/
def LogEntry.msg? : LogEntry → Option MsgData
  | .received _ msg => some msg
  | .own .. => none

/-- A `DlgChat`. -/
structure DlgChat where
  userData : MessageServer.UserData
  chatLog : List LogEntry
  deriving DecidableEq

/-- A `DlgGroupChat`. -/
structure DlgGroupChat where
  groupInfo : GroupInfo
  chatLog : List LogEntry
  listboxMembers : List GroupMemberInfo
  deriving DecidableEq

/-- Names a chat window. -/
inductive WindowId
  | chat (userId : Bytes)
  | group (groupId : Bytes)
  deriving DecidableEq

/-- The message belongs into the window. -/
def WindowId.Takes : WindowId → MsgData → Prop
  | .chat userId, m => (m.type = chatText ∨ m.type = chatAudio) ∧ m.fromId = userId
  | .group groupId, m => (m.type = groupchatText ∨ m.type = groupchatAudio) ∧ m.toId = groupId

/-! ## The dialog -/

/-- The members of `CClientDlg`, with those of the two lists it shows. `dlgFriends` and `dlgGroups`: the page
has a window. `searching`: the thread of the network has not come out of a search. -/
structure CClientDlg where
  userData : MessageServer.UserData
  nowtime : UInt64
  listFriends : List MessageServer.UserData
  listGroupInfo : List GroupInfo
  allGroupMember : Bytes → Option (List GroupMemberInfo)
  mapdlgChat : Bytes → Option DlgChat
  mapdlgGroupChat : Bytes → Option DlgGroupChat
  dlgFriends : Bool
  listboxFriends : List MessageServer.UserData
  dlgGroups : Bool
  listboxGroups : List GroupInfo
  searching : Bool

namespace CClientDlg

/-- The dialog of a user who has logged in. -/
def new (userData : MessageServer.UserData) : CClientDlg where
  userData := userData
  nowtime := 0
  listFriends := []
  listGroupInfo := []
  allGroupMember _ := none
  mapdlgChat _ := none
  mapdlgGroupChat _ := none
  dlgFriends := false
  listboxFriends := []
  dlgGroups := false
  listboxGroups := []
  searching := false

variable (c : CClientDlg)

/-- An entry of `m_mapdlgChat` is set or erased. -/
def setDlgChat (userId : Bytes) (dlg : Option DlgChat) : CClientDlg :=
  { c with mapdlgChat := Function.update c.mapdlgChat userId dlg }

/-- An entry of `m_mapdlgGroupChat` is set. -/
def setDlgGroupChat (groupId : Bytes) (dlg : Option DlgGroupChat) : CClientDlg :=
  { c with mapdlgGroupChat := Function.update c.mapdlgGroupChat groupId dlg }

/-! ### Messages from the server -/

/-- What the search of `handleMsgData` uses. -/
def toClientDlg : ClientDlg WindowId where
  listFriends := c.listFriends.map fun d => ⟨d.userId, d.nickName⟩
  mapdlgChat u := (c.mapdlgChat u).map fun _ => .chat u
  mapdlgGroupChat g := (c.mapdlgGroupChat g).map fun _ => .group g

/-- `OnWMUpdateData` of a window. -/
def onWMUpdateData (update : UpdateData WindowId) : CClientDlg :=
  let entry : LogEntry := .received update.fromidNickName update.msg
  match update.window with
  | .chat u =>
    c.setDlgChat u ((c.mapdlgChat u).map fun dlg => { dlg with chatLog := dlg.chatLog ++ [entry] })
  | .group g =>
    c.setDlgGroupChat g
      ((c.mapdlgGroupChat g).map fun dlg => { dlg with chatLog := dlg.chatLog ++ [entry] })

/-- `handleMsgData`. A search that does not end in its first turn does not end. -/
def handleMsgData (ptrRes : MsgData) : CClientDlg :=
  match c.toClientDlg.handleMsgData ptrRes 1 with
  | some updates => updates.foldl onWMUpdateData c
  | none => { c with searching := true }

/-- `CDlgFriends::updateFriendsList`: all friends are added to what is shown. A list box without a window
takes nothing. -/
def updateFriendsList : CClientDlg :=
  if c.dlgFriends then { c with listboxFriends := c.listboxFriends ++ c.listFriends } else c

/-- `CDlgGroups::updateGroupMembers`: all groups are added to what is shown. -/
def updateGroupMembers : CClientDlg := { c with listboxGroups := c.listboxGroups ++ c.listGroupInfo }

def handlePeerAllUserInfoResponse (ptrRes : PeerAllUserInfoResponse) : CClientDlg :=
  if ptrRes.friendsCount = UInt32.ofNat ptrRes.msgData.length then
    updateFriendsList { c with listFriends := c.listFriends ++ ptrRes.msgData }
  else c

def handleGroupAllInfoResponse (ptrRes : GroupAllResponse) : CClientDlg :=
  if ptrRes.groupCount = UInt32.ofNat ptrRes.msgData.length then
    let c := { c with listGroupInfo := c.listGroupInfo ++ ptrRes.msgData }
    if c.dlgGroups then c.updateGroupMembers else c
  else c

/-- The members replace those there were, also in the window of the group. -/
def handleGroupMemberResponse (ptrRes : GroupMemberResponse) : CClientDlg :=
  if ptrRes.memberCount = UInt32.ofNat ptrRes.msgData.length then
    setDlgGroupChat
      { c with allGroupMember := Function.update c.allGroupMember ptrRes.groupId (some ptrRes.msgData) }
      ptrRes.groupId
      ((c.mapdlgGroupChat ptrRes.groupId).map fun dlg => { dlg with listboxMembers := ptrRes.msgData })
  else c

/-- `doInitFirstRequest`: the friends, the groups and the unread messages are asked for. -/
def doInitFirstRequest : List IMMsg :=
  [⟨.peerAllUserInfoRequest, (⟨c.nowtime, c.userData.userId⟩ : PeerAllUserInfoRequest)⟩,
    ⟨.groupAllRequest, (⟨c.nowtime, c.userData.userId⟩ : GroupAllRequest)⟩,
    ⟨.chat .unreadMsgRequest, (⟨c.userData.userId, c.nowtime⟩ : UnreadMsgRequest)⟩]

/-- `handleShakeResponse`. -/
def handleShakeResponse (ptrRes : ShakeHandleRes) : List IMMsg :=
  if ptrRes.result = 0 then c.doInitFirstRequest else []

/-- The callbacks that `InitCallback` registers; messages of other types are ignored. Nothing is handled as
long as the thread is searching. -/
def receive (m : IMMsg) : Option (CClientDlg × List IMMsg) :=
  if c.searching then none
  else
    match m with
    | ⟨.chat .msgData, ptrRes⟩ => some (c.handleMsgData ptrRes, [])
    | ⟨.chat .shakeHandleRes, ptrRes⟩ => some (c, c.handleShakeResponse ptrRes)
    | ⟨.peerAllUserInfoResponse, ptrRes⟩ => some (c.handlePeerAllUserInfoResponse ptrRes, [])
    | ⟨.groupAllResponse, ptrRes⟩ => some (c.handleGroupAllInfoResponse ptrRes, [])
    | ⟨.groupMemberResponse, ptrRes⟩ => some (c.handleGroupMemberResponse ptrRes, [])
    | _ => some (c, [])

/-! ### The user -/

/-- What the user does: the dialog comes up and creates its two pages, an entry of one of the lists is clicked
twice, the window for a friend is closed, a text is sent from a window. And the clock goes on. -/
inductive Input
  | time (nowtime : UInt64)
  | initDialog
  | createDlgFriends
  | createDlgGroups
  | lbnDblclkFriends (i : ℕ)
  | lbnDblclkGroups (i : ℕ)
  | closeDlgChat (userId : Bytes)
  | btnSendChat (userId strMessage : Bytes)
  | btnSendGroupChat (groupId strMessage : Bytes)
  deriving DecidableEq

/-- `OnInitDialog`, after the login: the handshake. -/
def onInitDialog : List IMMsg :=
  [⟨.chat .shakeHandleReq, (⟨c.nowtime, c.userData.userId⟩ : ShakeHandleReq)⟩]

/-- `m_dlgFriends.Create`, with `CDlgFriends::OnInitDialog`. -/
def createDlgFriends : CClientDlg := updateFriendsList { c with dlgFriends := true }

/-- `m_dlgGroups.Create`. `CDlgGroups` does nothing when it is created. -/
def createDlgGroups : CClientDlg := { c with dlgGroups := true }

/-- `OnWMDlgChat`: a new window takes the place of the friend's. -/
def onWMDlgChat (pUserData : MessageServer.UserData) : CClientDlg :=
  c.setDlgChat pUserData.userId (some ⟨pUserData, []⟩)

/-- `OnWMDlgGroupChat`: a new window with the members that are known; the members are asked for. -/
def onWMDlgGroupChat (pGroupInfo : GroupInfo) : CClientDlg × List IMMsg :=
  (c.setDlgGroupChat pGroupInfo.groupId
      (some ⟨pGroupInfo, [], (c.allGroupMember pGroupInfo.groupId).getD []⟩),
    [⟨.groupMembeRequest,
      (⟨c.nowtime, pGroupInfo.groupId, c.userData.userId⟩ : GroupMembeRequest)⟩])

/-- `OnWMCloseDlgChat`. -/
def onWMCloseDlgChat (userId : Bytes) : CClientDlg := c.setDlgChat userId none

/-- `OnWMChatMessage` and `OnWMGroupChatMessage`. -/
def chatMessage (type : UInt32) (strMessage userId : Bytes) : IMMsg :=
  ⟨.chat .msgData,
    ({ timestamp := c.nowtime, sequenceNumber := 0, fromId := c.userData.userId, toId := userId
       msgData := strMessage, type := type } : MsgData)⟩

/-- `DlgChat::OnBnClickedBtnsend`. -/
def onBtnSendChat (userId : Bytes) (dlg : DlgChat) (strMessage : Bytes) : CClientDlg × List IMMsg :=
  if strMessage ≠ [] then
    (c.setDlgChat userId
        (some { dlg with chatLog := dlg.chatLog ++ [.own c.userData.nickName strMessage] }),
      [c.chatMessage chatText strMessage dlg.userData.userId])
  else (c, [])

/-- `DlgGroupChat::OnBnClickedBtnsend`. -/
def onBtnSendGroupChat (groupId : Bytes) (dlg : DlgGroupChat) (strMessage : Bytes) :
    CClientDlg × List IMMsg :=
  if strMessage ≠ [] then
    (c.setDlgGroupChat groupId
        (some { dlg with chatLog := dlg.chatLog ++ [.own c.userData.nickName strMessage] }),
      [c.chatMessage groupchatText strMessage dlg.groupInfo.groupId])
  else (c, [])

/-- `none` where there is no such entry or window, or a page is there already. -/
def input : Input → Option (CClientDlg × List IMMsg)
  | .time nowtime => some ({ c with nowtime := nowtime }, [])
  | .initDialog => some (c, c.onInitDialog)
  | .createDlgFriends => if c.dlgFriends then none else some (c.createDlgFriends, [])
  | .createDlgGroups =>
    if c.dlgFriends ∧ c.dlgGroups = false then some (c.createDlgGroups, []) else none
  | .lbnDblclkFriends i => c.listboxFriends[i]?.map fun d => (c.onWMDlgChat d, [])
  | .lbnDblclkGroups i => c.listboxGroups[i]?.map c.onWMDlgGroupChat
  | .closeDlgChat userId => (c.mapdlgChat userId).map fun dlg => (c.onWMCloseDlgChat dlg.userData.userId, [])
  | .btnSendChat userId strMessage =>
    (c.mapdlgChat userId).map fun dlg => c.onBtnSendChat userId dlg strMessage
  | .btnSendGroupChat groupId strMessage =>
    (c.mapdlgGroupChat groupId).map fun dlg => c.onBtnSendGroupChat groupId dlg strMessage

/-! ## What a handler does -/

/-- What a window shows; nothing if it is not open. -/
def chatLog : WindowId → List LogEntry
  | .chat userId => (c.mapdlgChat userId).elim [] DlgChat.chatLog
  | .group groupId => (c.mapdlgGroupChat groupId).elim [] DlgGroupChat.chatLog

variable {c} {u g : Bytes} {w : WindowId} {m : MsgData}

theorem mapdlgChat_setDlgChat (dlg : Option DlgChat) (v : Bytes) :
    (c.setDlgChat u dlg).mapdlgChat v = if v = u then dlg else c.mapdlgChat v :=
  Function.update_apply ..

theorem mapdlgGroupChat_setDlgGroupChat (dlg : Option DlgGroupChat) (v : Bytes) :
    (c.setDlgGroupChat g dlg).mapdlgGroupChat v = if v = g then dlg else c.mapdlgGroupChat v :=
  Function.update_apply ..

theorem chatLog_setDlgChat (dlg : Option DlgChat) :
    (c.setDlgChat u dlg).chatLog w = if w = .chat u then dlg.elim [] DlgChat.chatLog else c.chatLog w := by
  cases w with
  | chat v =>
    simp only [chatLog, mapdlgChat_setDlgChat, WindowId.chat.injEq]
    split <;> rfl
  | group g => rfl

theorem chatLog_setDlgGroupChat (dlg : Option DlgGroupChat) :
    (c.setDlgGroupChat g dlg).chatLog w =
      if w = .group g then dlg.elim [] DlgGroupChat.chatLog else c.chatLog w := by
  cases w with
  | chat u => rfl
  | group v =>
    simp only [chatLog, mapdlgGroupChat_setDlgGroupChat, WindowId.group.injEq]
    split <;> rfl

/-- The window for a message takes it. -/
theorem takes_of_windowFor (h : c.toClientDlg.windowFor m = some w) : w.Takes m := by
  unfold ClientDlg.windowFor at h
  split at h
  · next htype =>
    obtain ⟨dlg, -, rfl⟩ := Option.map_eq_some_iff.1 h
    exact ⟨htype, rfl⟩
  · split at h
    · next htype =>
      obtain ⟨dlg, -, rfl⟩ := Option.map_eq_some_iff.1 h
      exact ⟨htype, rfl⟩
    · cases h

/-- The nickname is that of the first friend, who is the sender; or there was no friend. -/
def Names (c : CClientDlg) (fromId nickName : Bytes) : Prop :=
  nickName = [] ∨ ∃ d ∈ c.listFriends.head?, d.userId = fromId ∧ d.nickName = nickName

/-- A turn of the search leaves with the nickname, or nothing changes. -/
theorem searchTurn_cases (fromId : Bytes) :
    (∃ nick, searchTurn fromId (c.toClientDlg.listFriends, []) = .inr nick ∧ c.Names fromId nick) ∨
      searchTurn fromId (c.toClientDlg.listFriends, []) = .inl (c.toClientDlg.listFriends, []) := by
  unfold toClientDlg Names
  cases c.listFriends with
  | nil => exact .inl ⟨[], rfl, .inl rfl⟩
  | cons d friends =>
    by_cases hd : d.userId = fromId
    · exact .inl ⟨d.nickName, searchTurn_of_eq hd _ _, .inr ⟨d, rfl, hd, rfl⟩⟩
    · exact .inr (searchTurn_of_ne (u := ⟨d.userId, d.nickName⟩) hd _ _)

/-- A handler that does not return after a turn of its loop does not return. -/
theorem handleMsgData_stuck (h : c.toClientDlg.handleMsgData m 1 = none) (fuel : ℕ) :
    c.toClientDlg.handleMsgData m fuel = none := by
  rw [ClientDlg.handleMsgData_eq] at h ⊢
  split at h
  · cases h
  · rcases c.searchTurn_cases m.fromId with ⟨nick, hturn, -⟩ | hturn
    · rw [search, loop_succ_of_inr hturn] at h
      cases h
    · rw [search, loop_of_stuck hturn]
      rfl

/-- **A message that comes in** is shown in the window that takes it, or nowhere. -/
theorem handleMsgData_cases (c : CClientDlg) (m : MsgData) :
    c.handleMsgData m = c ∨ c.handleMsgData m = { c with searching := true } ∨
      ∃ w nick, w.Takes m ∧ c.Names m.fromId nick ∧ c.handleMsgData m = c.onWMUpdateData ⟨w, nick, m⟩ := by
  unfold handleMsgData
  rw [ClientDlg.handleMsgData_eq]
  cases hwindow : c.toClientDlg.windowFor m with
  | none => exact .inl rfl
  | some w =>
    rcases c.searchTurn_cases m.fromId with ⟨nick, hturn, hnick⟩ | hturn
    · dsimp only
      rw [search, loop_succ_of_inr hturn]
      exact .inr (.inr ⟨w, nick, takes_of_windowFor hwindow, hnick, rfl⟩)
    · dsimp only
      rw [search, loop_of_stuck hturn]
      exact .inr (.inl rfl)

/-- **The messages that are handled.** -/
theorem receive_cases {m : IMMsg} {out : CClientDlg × List IMMsg} (h : c.receive m = some out) :
    out = (c, []) ∨ out = (c, c.doInitFirstRequest) ∨
      (∃ ptrRes : MsgData, m = ⟨.chat .msgData, ptrRes⟩ ∧ out = (c.handleMsgData ptrRes, [])) ∨
      (∃ ptrRes : PeerAllUserInfoResponse, m = ⟨.peerAllUserInfoResponse, ptrRes⟩ ∧
        out = (c.handlePeerAllUserInfoResponse ptrRes, [])) ∨
      (∃ ptrRes : GroupAllResponse, m = ⟨.groupAllResponse, ptrRes⟩ ∧
        out = (c.handleGroupAllInfoResponse ptrRes, [])) ∨
      ∃ ptrRes : GroupMemberResponse, m = ⟨.groupMemberResponse, ptrRes⟩ ∧
        out = (c.handleGroupMemberResponse ptrRes, []) := by
  unfold receive at h
  split at h
  · cases h
  · split at h
    · exact .inr (.inr (.inl ⟨_, rfl, (Option.some.inj h).symm⟩))
    · obtain rfl := Option.some.inj h
      unfold handleShakeResponse
      split
      · exact .inr (.inl rfl)
      · exact .inl rfl
    · exact .inr (.inr (.inr (.inl ⟨_, rfl, (Option.some.inj h).symm⟩)))
    · exact .inr (.inr (.inr (.inr (.inl ⟨_, rfl, (Option.some.inj h).symm⟩))))
    · exact .inr (.inr (.inr (.inr (.inr ⟨_, rfl, (Option.some.inj h).symm⟩))))
    · exact .inl (Option.some.inj h).symm

/-! ## What is shown where -/

/-- What the windows show belongs there, the lists show what the server has sent: all of it, except for a list
of groups that has nothing in it. -/
structure Consistent (c : CClientDlg) : Prop where
  chat : ∀ u dlg, c.mapdlgChat u = some dlg →
    dlg.userData ∈ c.listFriends ∧ dlg.userData.userId = u
  group : ∀ g dlg, c.mapdlgGroupChat g = some dlg →
    dlg.groupInfo ∈ c.listGroupInfo ∧ dlg.groupInfo.groupId = g ∧
      dlg.listboxMembers = (c.allGroupMember g).getD []
  log : ∀ w nick m, .received nick m ∈ c.chatLog w → w.Takes m ∧ c.Names m.fromId nick
  listboxFriends : ∀ d, d ∈ c.listboxFriends ↔ c.dlgFriends = true ∧ d ∈ c.listFriends
  listboxGroups : c.listboxGroups = [] ∨
    c.dlgGroups = true ∧ ∀ d, d ∈ c.listboxGroups ↔ d ∈ c.listGroupInfo

/-- The messages a client may send: all name its user, and chat messages go to friends and groups. -/
def Sends (c : CClientDlg) : IMMsg → Prop
  | ⟨.chat .shakeHandleReq, (m : ShakeHandleReq)⟩ => m.userId = c.userData.userId
  | ⟨.chat .unreadMsgRequest, (m : UnreadMsgRequest)⟩ => m.userId = c.userData.userId
  | ⟨.peerAllUserInfoRequest, (m : PeerAllUserInfoRequest)⟩ => m.userId = c.userData.userId
  | ⟨.groupAllRequest, (m : GroupAllRequest)⟩ => m.userId = c.userData.userId
  | ⟨.groupMembeRequest, (m : GroupMembeRequest)⟩ =>
    m.userId = c.userData.userId ∧ ∃ d ∈ c.listGroupInfo, d.groupId = m.groupId
  | ⟨.chat .msgData, (m : MsgData)⟩ => m.fromId = c.userData.userId ∧ m.msgData ≠ [] ∧
    (m.type = chatText ∧ (∃ d ∈ c.listFriends, d.userId = m.toId) ∨
      m.type = groupchatText ∧ ∃ d ∈ c.listGroupInfo, d.groupId = m.toId)
  | _ => False

/-- What a window shows is added to, or there is nothing in it. -/
def Extends (c c' : CClientDlg) (added : List MsgData) : Prop :=
  ∀ w, c'.chatLog w = [] ∨ ∃ es, c'.chatLog w = c.chatLog w ++ es ∧
    (∀ nick m, .received nick m ∈ es → w.Takes m ∧ c.Names m.fromId nick) ∧
      (es.filterMap LogEntry.msg?).Sublist added

/-- The user and the lists a client has, it keeps; the lists get longer. -/
structure Grows (c c' : CClientDlg) : Prop where
  userData : c'.userData = c.userData
  listFriends : c.listFriends <+: c'.listFriends
  listGroupInfo : c.listGroupInfo <+: c'.listGroupInfo

variable {c' : CClientDlg} {added : List MsgData}

theorem Names.mono {fromId nick : Bytes} (h : c.Names fromId nick)
    (hfriends : c.listFriends <+: c'.listFriends) : c'.Names fromId nick := by
  obtain ⟨more, hmore⟩ := hfriends
  refine h.imp_right fun ⟨d, hd, hname⟩ => ⟨d, ?_, hname⟩
  rw [← hmore]
  exact List.mem_head?_append_of_mem_head? hd

theorem Sends.mono {m : IMMsg} (h : c.Sends m) (hc : Grows c c') : c'.Sends m := by
  have hfriends := hc.listFriends.subset
  have hgroups := hc.listGroupInfo.subset
  unfold Sends at h ⊢
  have hown : ∀ {u : Bytes}, u = c.userData.userId → u = c'.userData.userId := fun hu =>
    hu.trans (congrArg MessageServer.UserData.userId hc.userData.symm)
  split at h
  · exact hown h
  · exact hown h
  · exact hown h
  · exact hown h
  · exact ⟨hown h.1, h.2.imp fun d hd => ⟨hgroups hd.1, hd.2⟩⟩
  · exact ⟨hown h.1, h.2.1, h.2.2.imp (fun h => ⟨h.1, h.2.imp fun d hd => ⟨hfriends hd.1, hd.2⟩⟩)
      fun h => ⟨h.1, h.2.imp fun d hd => ⟨hgroups hd.1, hd.2⟩⟩⟩
  · cases h

theorem Extends.of_chatLog_eq (h : ∀ w, c'.chatLog w = c.chatLog w) : c.Extends c' added := by
  refine fun w => .inr ⟨[], by rw [h, List.append_nil], ?_, List.nil_sublist _⟩
  intro nick m hm
  cases hm

/-- The window of a friend is closed, is new or is added to. -/
theorem Extends.setDlgChat {dlg : Option DlgChat}
    (h : dlg.elim [] DlgChat.chatLog = [] ∨ ∃ es, dlg.elim [] DlgChat.chatLog = c.chatLog (.chat u) ++ es ∧
      (∀ nick m, .received nick m ∈ es → WindowId.Takes (.chat u) m ∧ c.Names m.fromId nick) ∧
        (es.filterMap LogEntry.msg?).Sublist added) : c.Extends (c.setDlgChat u dlg) added := by
  intro w
  by_cases hw : w = .chat u
  · rw [chatLog_setDlgChat, if_pos hw]
    exact hw ▸ h
  · refine .inr ⟨[], by rw [chatLog_setDlgChat, if_neg hw, List.append_nil], ?_, List.nil_sublist _⟩
    intro nick m hm
    cases hm

/-- So is that of a group. -/
theorem Extends.setDlgGroupChat {dlg : Option DlgGroupChat}
    (h : dlg.elim [] DlgGroupChat.chatLog = [] ∨
      ∃ es, dlg.elim [] DlgGroupChat.chatLog = c.chatLog (.group g) ++ es ∧
        (∀ nick m, .received nick m ∈ es → WindowId.Takes (.group g) m ∧ c.Names m.fromId nick) ∧
          (es.filterMap LogEntry.msg?).Sublist added) : c.Extends (c.setDlgGroupChat g dlg) added := by
  intro w
  by_cases hw : w = .group g
  · rw [chatLog_setDlgGroupChat, if_pos hw]
    exact hw ▸ h
  · refine .inr ⟨[], by rw [chatLog_setDlgGroupChat, if_neg hw, List.append_nil], ?_, List.nil_sublist _⟩
    intro nick m hm
    cases hm

/-- What a handler does: the invariant is kept, what is shown is added to, and the messages sent are
among those the client may send. -/
structure Reacts (c : CClientDlg) (out : CClientDlg × List IMMsg) (added : List MsgData) : Prop where
  consistent : out.1.Consistent
  grows : Grows c out.1
  log : c.Extends out.1 added
  sends : ∀ m ∈ out.2, c.Sends m

section Handlers

variable (h : c.Consistent) {ms : List IMMsg}
include h

/-- Entries that are shown later belong there as those before. -/
theorem Consistent.log_extends (hgrows : Grows c c') (hlog : c.Extends c' added) (w : WindowId)
    (nick : Bytes) (m : MsgData) (hm : .received nick m ∈ c'.chatLog w) :
    w.Takes m ∧ c'.Names m.fromId nick := by
  have hfriends := hgrows.listFriends
  rcases hlog w with hnil | ⟨es, hes, hfine, -⟩
  · rw [hnil] at hm
    cases hm
  · rw [hes] at hm
    rcases List.mem_append.1 hm with hm | hm
    · exact (h.log w nick m hm).imp_right fun hn => hn.mono hfriends
    · exact (hfine nick m hm).imp_right fun hn => hn.mono hfriends

/-- A group that is shown is one of the list. -/
theorem Consistent.mem_listGroupInfo {d : GroupInfo} (hd : d ∈ c.listboxGroups) : d ∈ c.listGroupInfo := by
  rcases h.listboxGroups with hnil | ⟨-, hall⟩
  · rw [hnil] at hd
    cases hd
  · exact (hall d).1 hd

/-- Messages are sent, and the friends and the groups change with the lists that show them. -/
theorem Reacts.of_lists (hchat : c'.mapdlgChat = c.mapdlgChat)
    (hgroup : c'.mapdlgGroupChat = c.mapdlgGroupChat) (hmember : c'.allGroupMember = c.allGroupMember)
    (hgrows : Grows c c')
    (hboxFriends : ∀ d, d ∈ c'.listboxFriends ↔ c'.dlgFriends = true ∧ d ∈ c'.listFriends)
    (hboxGroups : c'.listboxGroups = [] ∨
      c'.dlgGroups = true ∧ ∀ d, d ∈ c'.listboxGroups ↔ d ∈ c'.listGroupInfo)
    (hsends : ∀ m ∈ ms, c.Sends m) : c.Reacts (c', ms) added := by
  have hlog : c.Extends c' added := .of_chatLog_eq fun w => by
    cases w with
    | chat u => rw [chatLog, chatLog, hchat]
    | group g => rw [chatLog, chatLog, hgroup]
  refine ⟨⟨fun u dlg hdlg => ?_, fun g dlg hdlg => ?_, h.log_extends hgrows hlog, hboxFriends, hboxGroups⟩,
    hgrows, hlog, hsends⟩
  · exact (h.chat u dlg (hchat ▸ hdlg)).imp_left fun hd => hgrows.listFriends.subset hd
  · rw [hmember]
    exact (h.group g dlg (hgroup ▸ hdlg)).imp_left fun hd => hgrows.listGroupInfo.subset hd

/-- Only messages are sent, and what is not shown changes. -/
theorem Reacts.of_eq (hchat : c'.mapdlgChat = c.mapdlgChat)
    (hgroup : c'.mapdlgGroupChat = c.mapdlgGroupChat) (hmember : c'.allGroupMember = c.allGroupMember)
    (huser : c'.userData = c.userData) (hfriends : c'.listFriends = c.listFriends)
    (hgroups : c'.listGroupInfo = c.listGroupInfo)
    (hboxFriends : (c'.dlgFriends, c'.listboxFriends) = (c.dlgFriends, c.listboxFriends))
    (hboxGroups : (c'.dlgGroups, c'.listboxGroups) = (c.dlgGroups, c.listboxGroups))
    (hsends : ∀ m ∈ ms, c.Sends m) : c.Reacts (c', ms) added := by
  obtain ⟨hpage, hbox⟩ := Prod.mk.inj hboxFriends
  obtain ⟨hpage', hbox'⟩ := Prod.mk.inj hboxGroups
  refine Reacts.of_lists h hchat hgroup hmember
    ⟨huser, hfriends ▸ List.prefix_rfl, hgroups ▸ List.prefix_rfl⟩ ?_ ?_ hsends
  · rw [hpage, hbox, hfriends]
    exact h.listboxFriends
  · rw [hpage', hbox', hgroups]
    exact h.listboxGroups

/-- The window of a friend. -/
theorem Reacts.setDlgChat {dlg : Option DlgChat}
    (hdlg : ∀ d ∈ dlg, d.userData ∈ c.listFriends ∧ d.userData.userId = u)
    (hlog : c.Extends (c.setDlgChat u dlg) added) (hsends : ∀ m ∈ ms, c.Sends m) :
    c.Reacts (c.setDlgChat u dlg, ms) added := by
  have hgrows : Grows c (c.setDlgChat u dlg) := ⟨rfl, List.prefix_rfl, List.prefix_rfl⟩
  refine ⟨⟨fun v d hd => ?_, h.group, h.log_extends hgrows hlog, h.listboxFriends, h.listboxGroups⟩,
    hgrows, hlog, hsends⟩
  rw [mapdlgChat_setDlgChat] at hd
  split at hd
  · next hv => exact hv ▸ hdlg d hd
  · exact h.chat v d hd

/-- The window of a group. -/
theorem Reacts.setDlgGroupChat {dlg : Option DlgGroupChat}
    (hdlg : ∀ d ∈ dlg, d.groupInfo ∈ c.listGroupInfo ∧ d.groupInfo.groupId = g ∧
      d.listboxMembers = (c.allGroupMember g).getD [])
    (hlog : c.Extends (c.setDlgGroupChat g dlg) added) (hsends : ∀ m ∈ ms, c.Sends m) :
    c.Reacts (c.setDlgGroupChat g dlg, ms) added := by
  have hgrows : Grows c (c.setDlgGroupChat g dlg) := ⟨rfl, List.prefix_rfl, List.prefix_rfl⟩
  refine ⟨⟨h.chat, fun v d hd => ?_, h.log_extends hgrows hlog, h.listboxFriends, h.listboxGroups⟩,
    hgrows, hlog, hsends⟩
  rw [mapdlgGroupChat_setDlgGroupChat] at hd
  split at hd
  · next hv => exact hv ▸ hdlg d hd
  · exact h.group v d hd

/-! ### Messages from the server -/

/-- A window gets a message. -/
theorem Reacts.onWMUpdateData {nick : Bytes} (hw : w.Takes m) (hnick : c.Names m.fromId nick) :
    c.Reacts (c.onWMUpdateData ⟨w, nick, m⟩, []) [m] := by
  have hentry : ∀ nick' m', LogEntry.received nick' m' ∈ [LogEntry.received nick m] →
      w.Takes m' ∧ c.Names m'.fromId nick' := by
    intro nick' m' hm'
    obtain ⟨rfl, rfl⟩ := LogEntry.received.inj (List.mem_singleton.1 hm')
    exact ⟨hw, hnick⟩
  have hnone : ∀ x ∈ ([] : List IMMsg), c.Sends x := fun x hx => by cases hx
  cases w with
  | chat u =>
    refine Reacts.setDlgChat h (fun d hd => ?_) (.setDlgChat ?_) hnone
    · obtain ⟨dlg, hdlg, rfl⟩ := Option.map_eq_some_iff.1 hd
      exact h.chat u dlg hdlg
    · rw [chatLog]
      cases c.mapdlgChat u with
      | none => exact .inl rfl
      | some dlg => exact .inr ⟨_, rfl, hentry, List.Sublist.refl _⟩
  | group g =>
    refine Reacts.setDlgGroupChat h (fun d hd => ?_) (.setDlgGroupChat ?_) hnone
    · obtain ⟨dlg, hdlg, rfl⟩ := Option.map_eq_some_iff.1 hd
      exact h.group g dlg hdlg
    · rw [chatLog]
      cases c.mapdlgGroupChat g with
      | none => exact .inl rfl
      | some dlg => exact .inr ⟨_, rfl, hentry, List.Sublist.refl _⟩

theorem Reacts.handleMsgData (m : MsgData) : c.Reacts (c.handleMsgData m, []) [m] := by
  have hnone : ∀ x ∈ ([] : List IMMsg), c.Sends x := fun x hx => by cases hx
  rcases c.handleMsgData_cases m with heq | heq | ⟨w, nick, hw, hnick, heq⟩
  · rw [heq]
    exact Reacts.of_eq h rfl rfl rfl rfl rfl rfl rfl rfl hnone
  · rw [heq]
    exact Reacts.of_eq h rfl rfl rfl rfl rfl rfl rfl rfl hnone
  · rw [heq]
    exact Reacts.onWMUpdateData h hw hnick

theorem Reacts.handlePeerAllUserInfoResponse (ptrRes : PeerAllUserInfoResponse) :
    c.Reacts (c.handlePeerAllUserInfoResponse ptrRes, []) added := by
  have hnone : ∀ x ∈ ([] : List IMMsg), c.Sends x := fun x hx => by cases hx
  unfold CClientDlg.handlePeerAllUserInfoResponse
  split
  · have hgrows : Grows c { c with listFriends := c.listFriends ++ ptrRes.msgData } :=
      ⟨rfl, List.prefix_append _ _, List.prefix_rfl⟩
    unfold updateFriendsList
    split
    · next hpage =>
      refine Reacts.of_lists h rfl rfl rfl ⟨rfl, hgrows.listFriends, List.prefix_rfl⟩ (fun d => ?_)
        h.listboxGroups hnone
      rw [List.mem_append, h.listboxFriends d, and_iff_right hpage, and_iff_right hpage]
      exact or_iff_right_of_imp fun hd => List.mem_append_left _ hd
    · next hpage =>
      refine Reacts.of_lists h rfl rfl rfl hgrows (fun d => ?_) h.listboxGroups hnone
      rw [h.listboxFriends d]
      exact iff_of_false (fun hd => hpage hd.1) fun hd => hpage hd.1
  · exact Reacts.of_eq h rfl rfl rfl rfl rfl rfl rfl rfl hnone

theorem Reacts.handleGroupAllInfoResponse (ptrRes : GroupAllResponse) :
    c.Reacts (c.handleGroupAllInfoResponse ptrRes, []) added := by
  have hnone : ∀ x ∈ ([] : List IMMsg), c.Sends x := fun x hx => by cases hx
  unfold CClientDlg.handleGroupAllInfoResponse
  split
  · have hgrows : Grows c { c with listGroupInfo := c.listGroupInfo ++ ptrRes.msgData } :=
      ⟨rfl, List.prefix_rfl, List.prefix_append _ _⟩
    dsimp only
    split
    · next hpage =>
      refine Reacts.of_lists h rfl rfl rfl ⟨rfl, List.prefix_rfl, hgrows.listGroupInfo⟩ h.listboxFriends
        (.inr ⟨hpage, fun d => ?_⟩) hnone
      rw [updateGroupMembers, List.mem_append]
      exact or_iff_right_of_imp fun hd => List.mem_append_left _ (h.mem_listGroupInfo hd)
    · next hpage =>
      exact Reacts.of_lists h rfl rfl rfl hgrows h.listboxFriends
        (.inl (h.listboxGroups.resolve_right fun hall => hpage hall.1)) hnone
  · exact Reacts.of_eq h rfl rfl rfl rfl rfl rfl rfl rfl hnone

/-- The members that are shown are those that are known, as both are replaced. -/
theorem Reacts.handleGroupMemberResponse (ptrRes : GroupMemberResponse) :
    c.Reacts (c.handleGroupMemberResponse ptrRes, []) added := by
  have hnone : ∀ x ∈ ([] : List IMMsg), c.Sends x := fun x hx => by cases hx
  unfold CClientDlg.handleGroupMemberResponse
  split
  · generalize hc' : CClientDlg.setDlgGroupChat _ _ _ = c'
    have hgrows : Grows c c' := hc' ▸ ⟨rfl, List.prefix_rfl, List.prefix_rfl⟩
    have hlog : c.Extends c' added := .of_chatLog_eq fun w => by
      rw [← hc', chatLog_setDlgGroupChat]
      split
      · next hw =>
        rw [hw, chatLog]
        cases c.mapdlgGroupChat ptrRes.groupId <;> rfl
      · cases w <;> rfl
    subst hc'
    refine ⟨⟨h.chat, fun g dlg hdlg => ?_, h.log_extends hgrows hlog, h.listboxFriends, h.listboxGroups⟩,
      hgrows, hlog, hnone⟩
    rw [mapdlgGroupChat_setDlgGroupChat] at hdlg
    change _ ∧ _ ∧ _ = (Function.update c.allGroupMember ptrRes.groupId (some ptrRes.msgData) g).getD []
    split at hdlg
    · next hg =>
      obtain ⟨dlg, hold, rfl⟩ := Option.map_eq_some_iff.1 hdlg
      rw [hg, Function.update_self]
      obtain ⟨hinfo, hid, -⟩ := h.group _ dlg hold
      exact ⟨hinfo, hid, rfl⟩
    · next hg =>
      rw [Function.update_of_ne hg]
      exact h.group g dlg hdlg
  · exact Reacts.of_eq h rfl rfl rfl rfl rfl rfl rfl rfl hnone

/-- **A message that comes in.** -/
theorem Reacts.receive {m : IMMsg} {out : CClientDlg × List IMMsg} (hout : c.receive m = some out) :
    c.Reacts out m.msgData?.toList := by
  rcases receive_cases hout with rfl | rfl | ⟨ptrRes, rfl, rfl⟩ | ⟨ptrRes, rfl, rfl⟩ |
    ⟨ptrRes, rfl, rfl⟩ | ⟨ptrRes, rfl, rfl⟩
  · exact Reacts.of_eq h rfl rfl rfl rfl rfl rfl rfl rfl fun x hx => by cases hx
  · refine Reacts.of_eq h rfl rfl rfl rfl rfl rfl rfl rfl ?_
    simp [doInitFirstRequest, Sends]
  · exact Reacts.handleMsgData h ptrRes
  · exact Reacts.handlePeerAllUserInfoResponse h ptrRes
  · exact Reacts.handleGroupAllInfoResponse h ptrRes
  · exact Reacts.handleGroupMemberResponse h ptrRes

/-! ### The user -/

/-- A text that is sent from the window of a friend. -/
theorem Reacts.onBtnSendChat {dlg : DlgChat} (hdlg : c.mapdlgChat u = some dlg) (strMessage : Bytes) :
    c.Reacts (c.onBtnSendChat u dlg strMessage) [] := by
  obtain ⟨hfriend, hid⟩ := h.chat u dlg hdlg
  unfold CClientDlg.onBtnSendChat
  split
  · next hne =>
    refine Reacts.setDlgChat h (fun d hd => ?_) (.setDlgChat (.inr ?_)) fun x hx => ?_
    · obtain rfl := Option.some.inj hd
      exact ⟨hfriend, hid⟩
    · refine ⟨[.own c.userData.nickName strMessage], ?_, fun nick m hm => ?_, List.Sublist.refl _⟩
      · rw [chatLog, hdlg]
        rfl
      · cases List.mem_singleton.1 hm
    · obtain rfl := List.mem_singleton.1 hx
      exact ⟨rfl, hne, .inl ⟨rfl, dlg.userData, hfriend, rfl⟩⟩
  · exact Reacts.of_eq h rfl rfl rfl rfl rfl rfl rfl rfl fun x hx => by cases hx

/-- A text that is sent from the window of a group. -/
theorem Reacts.onBtnSendGroupChat {dlg : DlgGroupChat} (hdlg : c.mapdlgGroupChat g = some dlg)
    (strMessage : Bytes) : c.Reacts (c.onBtnSendGroupChat g dlg strMessage) [] := by
  obtain ⟨hgroup, hid, hmembers⟩ := h.group g dlg hdlg
  unfold CClientDlg.onBtnSendGroupChat
  split
  · next hne =>
    refine Reacts.setDlgGroupChat h (fun d hd => ?_) (.setDlgGroupChat (.inr ?_)) fun x hx => ?_
    · obtain rfl := Option.some.inj hd
      exact ⟨hgroup, hid, hmembers⟩
    · refine ⟨[.own c.userData.nickName strMessage], ?_, fun nick m hm => ?_, List.Sublist.refl _⟩
      · rw [chatLog, hdlg]
        rfl
      · cases List.mem_singleton.1 hm
    · obtain rfl := List.mem_singleton.1 hx
      exact ⟨rfl, hne, .inr ⟨rfl, dlg.groupInfo, hgroup, rfl⟩⟩
  · exact Reacts.of_eq h rfl rfl rfl rfl rfl rfl rfl rfl fun x hx => by cases hx

/-- **What the user does.** -/
theorem Reacts.input {x : Input} {out : CClientDlg × List IMMsg} (hout : c.input x = some out) :
    c.Reacts out [] := by
  have hnone : ∀ m ∈ ([] : List IMMsg), c.Sends m := fun m hm => by cases hm
  cases x with
  | time nowtime =>
    obtain rfl := Option.some.inj hout
    exact Reacts.of_eq h rfl rfl rfl rfl rfl rfl rfl rfl hnone
  | initDialog =>
    obtain rfl := Option.some.inj hout
    refine Reacts.of_eq h rfl rfl rfl rfl rfl rfl rfl rfl ?_
    simp [onInitDialog, Sends]
  | createDlgFriends =>
    obtain ⟨hpage, hout⟩ := Option.ite_none_left_eq_some.1 hout
    obtain rfl := Option.some.inj hout
    refine Reacts.of_lists h rfl rfl rfl ⟨rfl, List.prefix_rfl, List.prefix_rfl⟩ (fun d => ?_)
      h.listboxGroups hnone
    change d ∈ c.listboxFriends ++ c.listFriends ↔ true = true ∧ d ∈ c.listFriends
    rw [List.mem_append, h.listboxFriends d, and_iff_right rfl]
    exact or_iff_right_of_imp And.right
  | createDlgGroups =>
    obtain ⟨hpage, hout⟩ := Option.ite_none_right_eq_some.1 hout
    obtain rfl := Option.some.inj hout
    exact Reacts.of_lists h rfl rfl rfl ⟨rfl, List.prefix_rfl, List.prefix_rfl⟩ h.listboxFriends
      (h.listboxGroups.imp_right fun hall => ⟨rfl, hall.2⟩) hnone
  | lbnDblclkFriends i =>
    obtain ⟨d, hd, rfl⟩ := Option.map_eq_some_iff.1 hout
    have hmem := ((h.listboxFriends d).1 (List.mem_of_getElem? hd)).2
    refine Reacts.setDlgChat h (fun dlg hdlg => ?_) (.setDlgChat (.inl rfl)) hnone
    obtain rfl := Option.some.inj hdlg
    exact ⟨hmem, rfl⟩
  | lbnDblclkGroups i =>
    obtain ⟨d, hd, rfl⟩ := Option.map_eq_some_iff.1 hout
    have hmem := h.mem_listGroupInfo (List.mem_of_getElem? hd)
    refine Reacts.setDlgGroupChat h (fun dlg hdlg => ?_) (.setDlgGroupChat (.inl rfl)) fun m hm => ?_
    · obtain rfl := Option.some.inj hdlg
      exact ⟨hmem, rfl, rfl⟩
    · obtain rfl := List.mem_singleton.1 hm
      exact ⟨rfl, d, hmem, rfl⟩
  | closeDlgChat userId =>
    obtain ⟨dlg, -, rfl⟩ := Option.map_eq_some_iff.1 hout
    exact Reacts.setDlgChat h (fun d hd => by cases hd) (.setDlgChat (.inl rfl)) hnone
  | btnSendChat userId strMessage =>
    obtain ⟨dlg, hdlg, rfl⟩ := Option.map_eq_some_iff.1 hout
    exact Reacts.onBtnSendChat h hdlg strMessage
  | btnSendGroupChat groupId strMessage =>
    obtain ⟨dlg, hdlg, rfl⟩ := Option.map_eq_some_iff.1 hout
    exact Reacts.onBtnSendGroupChat h hdlg strMessage

end Handlers

/-! ## Where the lists come from -/

/-- All that a client has in its lists has come in. -/
structure FromServer (c : CClientDlg) (received : List IMMsg) : Prop where
  listFriends : ∀ d ∈ c.listFriends, ∃ ptrRes : PeerAllUserInfoResponse,
    (⟨.peerAllUserInfoResponse, ptrRes⟩ : IMMsg) ∈ received ∧ d ∈ ptrRes.msgData
  listGroupInfo : ∀ d ∈ c.listGroupInfo, ∃ ptrRes : GroupAllResponse,
    (⟨.groupAllResponse, ptrRes⟩ : IMMsg) ∈ received ∧ d ∈ ptrRes.msgData
  allGroupMember : ∀ g members, c.allGroupMember g = some members → ∃ ptrRes : GroupMemberResponse,
    (⟨.groupMemberResponse, ptrRes⟩ : IMMsg) ∈ received ∧ ptrRes.groupId = g ∧ ptrRes.msgData = members

theorem FromServer.of_eq {received : List IMMsg} (h : c.FromServer received)
    (hfriends : c'.listFriends = c.listFriends) (hgroups : c'.listGroupInfo = c.listGroupInfo)
    (hmembers : c'.allGroupMember = c.allGroupMember) : c'.FromServer received where
  listFriends d hd := h.listFriends d (hfriends ▸ hd)
  listGroupInfo d hd := h.listGroupInfo d (hgroups ▸ hd)
  allGroupMember g members hg := h.allGroupMember g members (hmembers ▸ hg)

theorem FromServer.append {received : List IMMsg} (h : c.FromServer received) (ms : List IMMsg) :
    c.FromServer (received ++ ms) where
  listFriends d hd := by
    obtain ⟨ptrRes, hres, hmem⟩ := h.listFriends d hd
    exact ⟨ptrRes, List.mem_append_left _ hres, hmem⟩
  listGroupInfo d hd := by
    obtain ⟨ptrRes, hres, hmem⟩ := h.listGroupInfo d hd
    exact ⟨ptrRes, List.mem_append_left _ hres, hmem⟩
  allGroupMember g members hg := by
    obtain ⟨ptrRes, hres, hmem⟩ := h.allGroupMember g members hg
    exact ⟨ptrRes, List.mem_append_left _ hres, hmem⟩

/-- The user does not change the lists, and the page of the groups only by creating it. -/
theorem lists_input {x : Input} {out : CClientDlg × List IMMsg} (hout : c.input x = some out) :
    (out.1.listFriends = c.listFriends ∧ out.1.listGroupInfo = c.listGroupInfo ∧
      out.1.allGroupMember = c.allGroupMember) ∧ out.1.listboxGroups = c.listboxGroups ∧
        (x ≠ .createDlgGroups → out.1.dlgGroups = c.dlgGroups) := by
  have hrfl : (c.listFriends = c.listFriends ∧ c.listGroupInfo = c.listGroupInfo ∧
      c.allGroupMember = c.allGroupMember) ∧ c.listboxGroups = c.listboxGroups ∧
        (x ≠ .createDlgGroups → c.dlgGroups = c.dlgGroups) := ⟨⟨rfl, rfl, rfl⟩, rfl, fun _ => rfl⟩
  cases x with
  | time nowtime =>
    obtain rfl := Option.some.inj hout
    exact hrfl
  | initDialog =>
    obtain rfl := Option.some.inj hout
    exact hrfl
  | createDlgFriends =>
    obtain ⟨-, hout⟩ := Option.ite_none_left_eq_some.1 hout
    obtain rfl := Option.some.inj hout
    exact hrfl
  | createDlgGroups =>
    obtain ⟨-, hout⟩ := Option.ite_none_right_eq_some.1 hout
    obtain rfl := Option.some.inj hout
    exact ⟨hrfl.1, rfl, fun hx => absurd rfl hx⟩
  | btnSendChat userId strMessage =>
    obtain ⟨dlg, -, rfl⟩ := Option.map_eq_some_iff.1 hout
    unfold onBtnSendChat
    split <;> exact hrfl
  | btnSendGroupChat groupId strMessage =>
    obtain ⟨dlg, -, rfl⟩ := Option.map_eq_some_iff.1 hout
    unfold onBtnSendGroupChat
    split <;> exact hrfl
  | _ =>
    obtain ⟨d, -, rfl⟩ := Option.map_eq_some_iff.1 hout
    exact hrfl

theorem FromServer.input {received : List IMMsg} (h : c.FromServer received) {x : Input}
    {out : CClientDlg × List IMMsg} (hout : c.input x = some out) : out.1.FromServer received := by
  obtain ⟨⟨hfriends, hgroups, hmembers⟩, -⟩ := lists_input hout
  exact h.of_eq hfriends hgroups hmembers

/-- What is shown is not what the client has. -/
theorem lists_updateFriendsList (c : CClientDlg) :
    c.updateFriendsList.listFriends = c.listFriends ∧
      c.updateFriendsList.listGroupInfo = c.listGroupInfo ∧
        c.updateFriendsList.allGroupMember = c.allGroupMember := by
  unfold updateFriendsList
  split <;> exact ⟨rfl, rfl, rfl⟩

theorem lists_handleMsgData (c : CClientDlg) (m : MsgData) :
    (c.handleMsgData m).listFriends = c.listFriends ∧
      (c.handleMsgData m).listGroupInfo = c.listGroupInfo ∧
        (c.handleMsgData m).allGroupMember = c.allGroupMember := by
  rcases c.handleMsgData_cases m with heq | heq | ⟨w, nick, -, -, heq⟩ <;> rw [heq]
  · exact ⟨rfl, rfl, rfl⟩
  · exact ⟨rfl, rfl, rfl⟩
  · cases w <;> exact ⟨rfl, rfl, rfl⟩

/-- **Only responses with lists do**, by what is in them. -/
theorem FromServer.receive {received : List IMMsg} (h : c.FromServer received) {m : IMMsg}
    {out : CClientDlg × List IMMsg} (hout : c.receive m = some out) :
    out.1.FromServer (received ++ [m]) := by
  have hlast : m ∈ received ++ [m] := List.mem_append_right _ (List.mem_singleton_self m)
  have hsame : c.FromServer (received ++ [m]) := h.append [m]
  rcases receive_cases hout with rfl | rfl | ⟨ptrRes, rfl, rfl⟩ | ⟨ptrRes, rfl, rfl⟩ |
    ⟨ptrRes, rfl, rfl⟩ | ⟨ptrRes, rfl, rfl⟩
  · exact hsame
  · exact hsame
  · obtain ⟨hfriends, hgroups, hmembers⟩ := c.lists_handleMsgData ptrRes
    exact hsame.of_eq hfriends hgroups hmembers
  · dsimp only
    unfold handlePeerAllUserInfoResponse
    split
    · have hnew : FromServer { c with listFriends := c.listFriends ++ ptrRes.msgData }
          (received ++ [⟨.peerAllUserInfoResponse, ptrRes⟩]) := by
        refine ⟨fun d hd => ?_, hsame.listGroupInfo, hsame.allGroupMember⟩
        rcases List.mem_append.1 hd with hd | hd
        · exact hsame.listFriends d hd
        · exact ⟨ptrRes, hlast, hd⟩
      obtain ⟨hfriends, hgroups, hmembers⟩ :=
        lists_updateFriendsList { c with listFriends := c.listFriends ++ ptrRes.msgData }
      exact hnew.of_eq hfriends hgroups hmembers
    · exact hsame
  · dsimp only
    unfold handleGroupAllInfoResponse
    split
    · have hnew : FromServer { c with listGroupInfo := c.listGroupInfo ++ ptrRes.msgData }
          (received ++ [⟨.groupAllResponse, ptrRes⟩]) := by
        refine ⟨hsame.listFriends, fun d hd => ?_, hsame.allGroupMember⟩
        rcases List.mem_append.1 hd with hd | hd
        · exact hsame.listGroupInfo d hd
        · exact ⟨ptrRes, hlast, hd⟩
      dsimp only
      split
      · exact hnew.of_eq rfl rfl rfl
      · exact hnew
    · exact hsame
  · dsimp only
    unfold handleGroupMemberResponse
    split
    · refine ⟨hsame.listFriends, hsame.listGroupInfo, fun g members hg => ?_⟩
      change Function.update c.allGroupMember ptrRes.groupId (some ptrRes.msgData) g = some members at hg
      by_cases hid : g = ptrRes.groupId
      · subst hid
        rw [Function.update_self] at hg
        exact ⟨ptrRes, hlast, rfl, Option.some.inj hg⟩
      · rw [Function.update_of_ne hid] at hg
        exact hsame.allGroupMember g members hg
    · exact hsame

/-! ## Runs -/

/-- The messages that a window shows. -/
def shown (c : CClientDlg) (w : WindowId) : List MsgData := (c.chatLog w).filterMap LogEntry.msg?

/-- A dialog of `me` with the messages that have come in and those that were sent: what is shown has come
in, and what was sent may be sent. -/
structure Sound (me : MessageServer.UserData) (c : CClientDlg) (received sent : List IMMsg) : Prop where
  userData : c.userData = me
  consistent : c.Consistent
  lists : c.FromServer received
  shown : ∀ w, (c.shown w).Sublist (received.filterMap IMMsg.msgData?)
  sent : ∀ m ∈ sent, c.Sends m

theorem sound_new (me : MessageServer.UserData) : Sound me (new me) [] [] where
  userData := rfl
  consistent := by
    refine ⟨fun _ _ h => ?_, fun _ _ h => ?_, fun w nick m hm => ?_, fun d => ?_, .inl rfl⟩
    · cases h
    · cases h
    · cases w <;> cases hm
    · exact iff_of_false (fun hd => by cases hd) fun hd => by cases hd.1
  lists := by
    refine ⟨fun d hd => ?_, fun d hd => ?_, fun g members hg => ?_⟩
    · cases hd
    · cases hd
    · cases hg
  shown w := by cases w <;> exact .slnil
  sent m hm := by cases hm

theorem Extends.shown (h : c.Extends c' added) (w : WindowId) :
    (c'.shown w).Sublist (c.shown w ++ added) := by
  unfold CClientDlg.shown
  rcases h w with hnil | ⟨es, hes, -, hsub⟩
  · rw [hnil]
    exact List.nil_sublist _
  · rw [hes, List.filterMap_append]
    exact hsub.append_left _

/-- **One step.** -/
theorem Sound.react {me : MessageServer.UserData} {received sent : List IMMsg}
    (h : Sound me c received sent) {out : CClientDlg × List IMMsg} {ms : List IMMsg}
    (hout : c.Reacts out (ms.filterMap IMMsg.msgData?)) (hlists : out.1.FromServer (received ++ ms)) :
    Sound me out.1 (received ++ ms) (sent ++ out.2) where
  userData := hout.grows.userData.trans h.userData
  consistent := hout.consistent
  lists := hlists
  shown w := by
    rw [List.filterMap_append]
    exact (hout.log.shown w).trans ((h.shown w).append_right _)
  sent m hm := by
    rcases List.mem_append.1 hm with hm | hm
    · exact (h.sent m hm).mono hout.grows
    · exact (hout.sends m hm).mono hout.grows

theorem Sound.input {me : MessageServer.UserData} {received sent : List IMMsg}
    (h : Sound me c received sent) {x : Input} {out : CClientDlg × List IMMsg}
    (hout : c.input x = some out) : Sound me out.1 received (sent ++ out.2) := by
  have hlists := h.lists.input hout
  rw [← List.append_nil received] at hlists ⊢
  exact h.react (Reacts.input h.consistent hout) hlists

theorem Sound.receive {me : MessageServer.UserData} {received sent : List IMMsg}
    (h : Sound me c received sent) {m : IMMsg} {out : CClientDlg × List IMMsg}
    (hout : c.receive m = some out) : Sound me out.1 (received ++ [m]) (sent ++ out.2) := by
  have hadded : [m].filterMap IMMsg.msgData? = m.msgData?.toList := by
    cases hm : m.msgData? <;> simp [hm]
  refine h.react ?_ (h.lists.receive hout)
  rw [hadded]
  exact Reacts.receive h.consistent hout

/-- A message that comes in leaves the page of the groups as it is, or adds all groups to it. -/
theorem groups_receive {m : IMMsg} {out : CClientDlg × List IMMsg} (hout : c.receive m = some out) :
    out.1.dlgGroups = c.dlgGroups ∧
      (out.1.listGroupInfo = c.listGroupInfo ∧ out.1.listboxGroups = c.listboxGroups ∨
        (c.dlgGroups = true → out.1.listboxGroups = c.listboxGroups ++ out.1.listGroupInfo)) := by
  rcases receive_cases hout with rfl | rfl | ⟨ptrRes, rfl, rfl⟩ | ⟨ptrRes, rfl, rfl⟩ |
    ⟨ptrRes, rfl, rfl⟩ | ⟨ptrRes, rfl, rfl⟩
  · exact ⟨rfl, .inl ⟨rfl, rfl⟩⟩
  · exact ⟨rfl, .inl ⟨rfl, rfl⟩⟩
  · dsimp only
    rcases c.handleMsgData_cases ptrRes with heq | heq | ⟨w, nick, -, -, heq⟩ <;> rw [heq]
    · exact ⟨rfl, .inl ⟨rfl, rfl⟩⟩
    · exact ⟨rfl, .inl ⟨rfl, rfl⟩⟩
    · cases w <;> exact ⟨rfl, .inl ⟨rfl, rfl⟩⟩
  · dsimp only
    unfold handlePeerAllUserInfoResponse updateFriendsList
    split
    · split <;> exact ⟨rfl, .inl ⟨rfl, rfl⟩⟩
    · exact ⟨rfl, .inl ⟨rfl, rfl⟩⟩
  · dsimp only
    unfold handleGroupAllInfoResponse
    split
    · dsimp only
      split
      · exact ⟨rfl, .inr fun _ => rfl⟩
      · next hpage => exact ⟨rfl, .inr fun h => absurd h hpage⟩
    · exact ⟨rfl, .inl ⟨rfl, rfl⟩⟩
  · dsimp only
    unfold handleGroupMemberResponse
    split <;> exact ⟨rfl, .inl ⟨rfl, rfl⟩⟩

/-- What happens to a client: the user does something, or a message comes in. -/
inductive Event
  | input (x : Input)
  | receive (m : IMMsg)

/-- A dialog with the messages that have come in and those that were sent. `groupsBefore`: the groups there
were when the page of the groups was created. -/
structure Record where
  dlg : CClientDlg
  received : List IMMsg
  sent : List IMMsg
  groupsBefore : List GroupInfo

def Record.new (me : MessageServer.UserData) : Record := ⟨CClientDlg.new me, [], [], []⟩

def Record.step (s : Record) : Event → Option Record
  | .input x => (s.dlg.input x).map fun out =>
    ⟨out.1, s.received, s.sent ++ out.2,
      if x = .createDlgGroups then s.dlg.listGroupInfo else s.groupsBefore⟩
  | .receive m => (s.dlg.receive m).map fun out => ⟨out.1, s.received ++ [m], s.sent ++ out.2, s.groupsBefore⟩

/-- The page of the groups shows all groups, or none; then no group has come since it was created. -/
def Record.ShowsGroups (s : Record) : Prop :=
  s.dlg.dlgGroups = true → (∀ d, d ∈ s.dlg.listboxGroups ↔ d ∈ s.dlg.listGroupInfo) ∨
    s.dlg.listboxGroups = [] ∧ s.dlg.listGroupInfo = s.groupsBefore

theorem Sound.step {me : MessageServer.UserData} {s s' : Record} {e : Event}
    (h : Sound me s.dlg s.received s.sent) (hstep : s.step e = some s') :
    Sound me s'.dlg s'.received s'.sent := by
  cases e with
  | input x =>
    obtain ⟨out, hout, rfl⟩ := Option.map_eq_some_iff.1 hstep
    exact h.input hout
  | receive m =>
    obtain ⟨out, hout, rfl⟩ := Option.map_eq_some_iff.1 hstep
    exact h.receive hout

theorem Record.ShowsGroups.step {s s' : Record} {e : Event} (h : s.ShowsGroups)
    (hconsistent : s.dlg.Consistent) (hstep : s.step e = some s') : s'.ShowsGroups := by
  intro hpage
  cases e with
  | input x =>
    obtain ⟨out, hout, rfl⟩ := Option.map_eq_some_iff.1 hstep
    obtain ⟨⟨-, hgroups, -⟩, hbox, hsame⟩ := lists_input hout
    dsimp only at hpage ⊢
    rw [hgroups, hbox]
    by_cases hx : x = .createDlgGroups
    · obtain ⟨⟨-, hnot⟩, -⟩ := Option.ite_none_right_eq_some.1 (hx ▸ hout)
      refine .inr ⟨hconsistent.listboxGroups.resolve_right fun hall => ?_, (if_pos hx).symm⟩
      rw [hnot] at hall
      cases hall.1
    · rw [if_neg hx]
      exact h ((hsame hx).symm.trans hpage)
  | receive m =>
    obtain ⟨out, hout, rfl⟩ := Option.map_eq_some_iff.1 hstep
    obtain ⟨hsame, hgroups⟩ := groups_receive hout
    have hold : s.dlg.dlgGroups = true := hsame.symm.trans hpage
    rcases hgroups with ⟨hgroups, hbox⟩ | hadded
    · dsimp only
      rw [hgroups, hbox]
      exact h hold
    · refine .inl fun d => ?_
      dsimp only
      rw [hadded hold, List.mem_append]
      refine or_iff_right_of_imp fun hd => ?_
      exact (Reacts.receive hconsistent hout).grows.listGroupInfo.subset (hconsistent.mem_listGroupInfo hd)

end CClientDlg

end MutexIM.Client
