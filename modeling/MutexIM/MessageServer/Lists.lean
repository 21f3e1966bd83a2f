import MutexIM.MessageServer.Unread

/-!
# The lists a client asks for

After the handshake a client asks for its unread messages, its friends, its groups and their members.
Each response has a list and a count, and the client's handlers use a response only if these agree.

* `onAllUsersInfoRequest` and `onAllGroupRequest` count the ids of a set, and add an entry for each of
  them that has a hash. `onGroupMemberRequest` counts and adds rows of one reply.
* `ListRequest.accepted_iff`: whatever Redis holds, the responses to a request are used exactly if
  no id is without a hash, as far as 32 bits can tell.
-/

namespace MutexIM.MessageServer

open Bytes Codec

/-! ## The messages -/

/-- `IMChat.PeerAllUserInfoRequest`. -/
structure PeerAllUserInfoRequest where
  timestamp : UInt64
  userId : Bytes

/-- `IMChat.UserData`. -/
structure UserData where
  onlineStatus : UInt32 := 0
  timestamp : UInt64 := 0
  userId : Bytes := []
  name : Bytes := []
  nickName : Bytes := []
  imageUrl : Bytes := []
  position : Bytes := []
  email : Bytes := []
  sex : UInt32 := 0
  deriving DecidableEq

/-- `IMChat.PeerAllUserInfoResponse`. -/
structure PeerAllUserInfoResponse where
  timestamp : UInt64
  friendsCount : UInt32
  userId : Bytes
  msgData : List UserData
  deriving DecidableEq

/-- `IMChat.GroupAllRequest`. -/
structure GroupAllRequest where
  timestamp : UInt64
  userId : Bytes

/-- `IMChat.GroupInfo`. -/
structure GroupInfo where
  groupId : Bytes := []
  groupName : Bytes := []
  imageUrl : Bytes := []
  deriving DecidableEq

/-- `IMChat.GroupAllResponse`. -/
structure GroupAllResponse where
  timestamp : UInt64
  groupCount : UInt32
  userId : Bytes
  msgData : List GroupInfo
  deriving DecidableEq

/-- `IMChat.GroupMembeRequest`. -/
structure GroupMembeRequest where
  timestamp : UInt64
  groupId : Bytes
  userId : Bytes

/-- `IMChat.GroupMemberInfo`. -/
structure GroupMemberInfo where
  userId : Bytes
  nickName : Bytes
  imageUrl : Bytes
  onlineStatus : UInt32
  deriving DecidableEq

/-- `IMChat.GroupMemberResponse`. -/
structure GroupMemberResponse where
  timestamp : UInt64
  memberCount : UInt32
  userId : Bytes
  groupId : Bytes
  msgData : List GroupMemberInfo
  deriving DecidableEq

/-- How a handler ends: it sends nothing, it sends a response, or its behaviour is undefined. -/
inductive Outcome (α : Type)
  | silent
  | sent (response : α)
  | undefined
  deriving DecidableEq

/-! ## Friends and groups -/

/-- A field of the hash `user:<userId>` and its value, both C strings. -/
def UserData.setField (d : UserData) (field value : Bytes) : UserData :=
  if ascii "useId" = field then { d with userId := value }
  else if ascii "username" = field then { d with name := value }
  else if ascii "nickName" = field then { d with nickName := value }
  else if ascii "imageurl" = field then { d with imageUrl := value }
  else if ascii "email" = field then { d with email := value }
  else if ascii "sex" = field then { d with sex := UInt32.ofInt (atoi value) }
  else if ascii "onlineStatus" = field then { d with onlineStatus := UInt32.ofInt (atoi value) }
  else if ascii "position" = field then { d with position := value }
  else d

/-- A field of the hash `group:<groupId>` and its value. -/
def GroupInfo.setField (d : GroupInfo) (field value : Bytes) : GroupInfo :=
  if ascii "groupId" = field then { d with groupId := value }
  else if ascii "groupName" = field then { d with groupName := value }
  else if ascii "imageUrl" = field then { d with imageUrl := value }
  else d

section Entries

variable {α : Type} (setField : α → Bytes → Bytes → α) (new : α)

/-- The entry that is added for a reply, if it is an array with elements. -/
def entryOf (reply : Reply) : Option α :=
  if reply.elements.length ≠ 0 then
    some ((Reply.pairs reply.elements).foldl (fun d e => setField d (cstr e.1.bytes) (cstr e.2.bytes)) new)
  else none

/-- The entries for the hashes of some ids. -/
def entriesOf (r : Redis) (keyName : Bytes) (ids : List Bytes) : List α :=
  (ids.map fun x => CRedis.hgetallReply r (keyName ++ x)).filterMap (entryOf setField new)

end Entries

/-- `Server::onAllUsersInfoRequest`. -/
def onAllUsersInfoRequest (r : Redis) (ptrRequest : PeerAllUserInfoRequest) (nowtime : UInt64) :
    Outcome PeerAllUserInfoResponse :=
  let vecFriends := CRedis.smembers r (ascii "friendsSet:" ++ ptrRequest.userId)
  if vecFriends.length ≠ 0 then
    .sent
      { msgData := entriesOf UserData.setField {} r (ascii "user:") vecFriends
        friendsCount := UInt32.ofNat vecFriends.length
        userId := ptrRequest.userId
        timestamp := nowtime }
  else .silent

/-- `Server::onAllGroupRequest`. It reads the second entry before it sends. -/
def onAllGroupRequest (r : Redis) (ptrRequest : GroupAllRequest) (nowtime : UInt64) :
    Outcome GroupAllResponse :=
  let vecGroups := CRedis.smembers r (ascii "groupSet:" ++ ptrRequest.userId)
  if vecGroups.length ≠ 0 then
    let response : GroupAllResponse :=
      { msgData := entriesOf GroupInfo.setField {} r (ascii "group:") vecGroups
        groupCount := UInt32.ofNat vecGroups.length
        userId := ptrRequest.userId
        timestamp := nowtime }
    if 1 < response.msgData.length then .sent response else .undefined
  else .silent

/-! ## The members of a group -/

/-- The patterns of the command for the members of a group. -/
def memberPatterns : List Bytes :=
  [ascii "#", ascii "user:*->nickName", ascii "user:*->imageurl", ascii "online:*",
    ascii "user:*->onlineStatus"]

/-- The entry for a row. -/
def memberInfo : Reply × Reply × Reply × Reply × Reply → Option GroupMemberInfo
  | (userId, nickName, imageUrl, online, onlineStatus) =>
    userId.text.bind fun userId => nickName.text.bind fun nickName => imageUrl.text.bind fun imageUrl =>
      -- a member without a server is offline
      if online.bytes.length ≠ 0 then
        onlineStatus.text.map fun status => ⟨userId, nickName, imageUrl, UInt32.ofInt (atoi status)⟩
      else some ⟨userId, nickName, imageUrl, UInt32.ofInt (-1)⟩

/-- `Server::onGroupMemberRequest`. -/
def onGroupMemberRequest (order : Keyspace.NumericOrder) (r : Redis) (ptrRequest : GroupMembeRequest)
    (nowtime : UInt64) : Outcome GroupMemberResponse :=
  let reply := CRedis.sortGets r order (ascii "groupMember:" ++ ptrRequest.groupId) memberPatterns
  let response : GroupMemberResponse :=
    { msgData := [], memberCount := 0
      groupId := ptrRequest.groupId, userId := ptrRequest.userId, timestamp := nowtime }
  if reply.elements.length ≠ 0 then
    match (Reply.rows reply.elements).mapM memberInfo with
    | some msgData =>
      .sent { response with
        msgData := msgData, memberCount := UInt32.ofNat (reply.elements.length / 5) }
    | none => .undefined
  else .sent response

/-! ## What the client uses -/

/-- The requests that are answered with a list. -/
inductive ListRequest
  | unreadMsg (ptrRequest : UnreadMsgRequest)
  | peerAllUserInfo (ptrRequest : PeerAllUserInfoRequest)
  | groupAll (ptrRequest : GroupAllRequest)
  | groupMembe (ptrRequest : GroupMembeRequest)

/-- The responses with a list. -/
inductive ListResponse
  | unreadMsg (ptrRes : UnreadMsgResponse)
  | peerAllUserInfo (ptrRes : PeerAllUserInfoResponse)
  | groupAll (ptrRes : GroupAllResponse)
  | groupMember (ptrRes : GroupMemberResponse)

/-- The condition of the client's handler: the count is the number of entries, as an `int`. -/
def ListResponse.Used : ListResponse → Prop
  | unreadMsg ptrRes => ptrRes.msgCount = UInt32.ofNat ptrRes.msgData.length
  | peerAllUserInfo ptrRes => ptrRes.friendsCount = UInt32.ofNat ptrRes.msgData.length
  | groupAll ptrRes => ptrRes.groupCount = UInt32.ofNat ptrRes.msgData.length
  | groupMember ptrRes => ptrRes.memberCount = UInt32.ofNat ptrRes.msgData.length

instance : (q : ListResponse) → Decidable q.Used
  | .unreadMsg ptrRes => inferInstanceAs (Decidable (ptrRes.msgCount = _))
  | .peerAllUserInfo ptrRes => inferInstanceAs (Decidable (ptrRes.friendsCount = _))
  | .groupAll ptrRes => inferInstanceAs (Decidable (ptrRes.groupCount = _))
  | .groupMember ptrRes => inferInstanceAs (Decidable (ptrRes.memberCount = _))

/-- There is a hash at the key. -/
def HasHash (r : Redis) (key : Bytes) : Prop := (r.keys.hashAt (cstr key)).entries ≠ []

instance (r : Redis) (key : Bytes) : Decidable (HasHash r key) := inferInstanceAs (Decidable (¬_))

/-- The ids that have a hash. -/
def found (r : Redis) (keyName : Bytes) (ids : List Bytes) : List Bytes :=
  ids.filter fun x => HasHash r (keyName ++ x)

/-- The ids that have none. -/
def lacking (r : Redis) (keyName : Bytes) (ids : List Bytes) : List Bytes :=
  ids.filter fun x => ¬HasHash r (keyName ++ x)

/-- The friends of a user, and the groups. -/
def friendsOf (r : Redis) (userId : Bytes) : List Bytes :=
  r.keys.members (cstr (ascii "friendsSet:" ++ userId))

def groupsOf (r : Redis) (userId : Bytes) : List Bytes :=
  r.keys.members (cstr (ascii "groupSet:" ++ userId))

namespace ListRequest

/-- The server sends the response to the request. -/
def Answers (order : Keyspace.NumericOrder) (r : Redis) : ListRequest → ListResponse → Prop
  | unreadMsg ptrRequest, .unreadMsg response => ∃ sv conn nowtime s,
    ((onUnreadMsgRequest order sv r conn ptrRequest nowtime).1.manager.sessions s).sent =
      (sv.manager.sessions s).sent ++ [.unreadMsgResponse response]
  | peerAllUserInfo ptrRequest, .peerAllUserInfo response =>
    ∃ nowtime, onAllUsersInfoRequest r ptrRequest nowtime = .sent response
  | groupAll ptrRequest, .groupAll response =>
    ∃ nowtime, onAllGroupRequest r ptrRequest nowtime = .sent response
  | groupMembe ptrRequest, .groupMember response =>
    ∃ nowtime, onGroupMemberRequest order r ptrRequest nowtime = .sent response
  | _, _ => False

/-- The client uses what the server sends. -/
def Accepted (order : Keyspace.NumericOrder) (r : Redis) (q : ListRequest) : Prop :=
  ∀ response, q.Answers order r response → response.Used

/-- No friend and no group is without a hash, as far as 32 bits can tell. With less than two groups
that have one, the response is not sent. -/
def Complete (r : Redis) : ListRequest → Prop
  | unreadMsg _ => True
  | peerAllUserInfo ptrRequest =>
    2 ^ 32 ∣ (lacking r (ascii "user:") (friendsOf r ptrRequest.userId)).length
  | groupAll ptrRequest =>
    (found r (ascii "group:") (groupsOf r ptrRequest.userId)).length < 2 ∨
      2 ^ 32 ∣ (lacking r (ascii "group:") (groupsOf r ptrRequest.userId)).length
  | groupMembe _ => True

end ListRequest

/-! ## Counts and entries -/

section Counts

variable {order : Keyspace.NumericOrder} {r : Redis}

theorem ofNat_add_eq_iff {m k : ℕ} : UInt32.ofNat (m + k) = UInt32.ofNat m ↔ 2 ^ 32 ∣ k := by
  rw [← UInt32.toNat_inj, UInt32.toNat_ofNat', UInt32.toNat_ofNat']
  omega

/-- A reply with elements is one about a hash. -/
theorem isSome_entryOf {α : Type} (setField : α → Bytes → Bytes → α) (new : α) (key : Bytes) :
    (entryOf setField new (CRedis.hgetallReply r key)).isSome = decide (HasHash r key) := by
  have hiff : (CRedis.hgetallReply r key).elements.length ≠ 0 ↔ HasHash r key := by
    rw [Ne, List.length_eq_zero_iff, CRedis.elements_hgetallReply_eq_nil]
    exact Iff.rfl
  unfold entryOf
  split
  · next h => exact (decide_eq_true (hiff.1 h)).symm
  · next h => exact (decide_eq_false (mt hiff.2 h)).symm

/-- An entry is added for each id that has a hash. -/
theorem length_entriesOf {α : Type} (setField : α → Bytes → Bytes → α) (new : α) (keyName : Bytes)
    (ids : List Bytes) :
    (entriesOf setField new r keyName ids).length = (found r keyName ids).length := by
  rw [entriesOf, found, List.length_filterMap_eq_countP, List.countP_map,
    ← List.countP_eq_length_filter]
  exact congrArg (List.countP · ids) (funext fun x => isSome_entryOf setField new _)

/-- **The ids are counted, and the hashes added**: these agree if no id is without a hash. -/
theorem ofNat_length_eq_iff {α : Type} (setField : α → Bytes → Bytes → α) (new : α) (keyName : Bytes)
    (ids : List Bytes) :
    UInt32.ofNat ids.length = UInt32.ofNat (entriesOf setField new r keyName ids).length ↔
      2 ^ 32 ∣ (lacking r keyName ids).length := by
  have hsplit : ids.length = (found r keyName ids).length + (lacking r keyName ids).length := by
    have := List.length_eq_length_filter_add (l := ids) fun x => HasHash r (keyName ++ x)
    simpa [found, lacking] using this
  rw [length_entriesOf, hsplit, ofNat_add_eq_iff]

theorem onAllUsersInfoRequest_eq (ptrRequest : PeerAllUserInfoRequest) (nowtime : UInt64) :
    onAllUsersInfoRequest r ptrRequest nowtime =
      if (friendsOf r ptrRequest.userId).length ≠ 0 then
        .sent ⟨nowtime, UInt32.ofNat (friendsOf r ptrRequest.userId).length, ptrRequest.userId,
          entriesOf UserData.setField {} r (ascii "user:") (friendsOf r ptrRequest.userId)⟩
      else .silent := by
  rw [onAllUsersInfoRequest, CRedis.smembers_eq]
  rfl

theorem onAllGroupRequest_eq (ptrRequest : GroupAllRequest) (nowtime : UInt64) :
    onAllGroupRequest r ptrRequest nowtime =
      if (groupsOf r ptrRequest.userId).length ≠ 0 then
        if 1 < (found r (ascii "group:") (groupsOf r ptrRequest.userId)).length then
          .sent ⟨nowtime, UInt32.ofNat (groupsOf r ptrRequest.userId).length, ptrRequest.userId,
            entriesOf GroupInfo.setField {} r (ascii "group:") (groupsOf r ptrRequest.userId)⟩
        else .undefined
      else .silent := by
  rw [onAllGroupRequest, CRedis.smembers_eq, ← length_entriesOf GroupInfo.setField {}]
  rfl

/-- Friends. -/
theorem accepted_peerAllUserInfo (ptrRequest : PeerAllUserInfoRequest) :
    (ListRequest.peerAllUserInfo ptrRequest).Accepted order r ↔
      (ListRequest.peerAllUserInfo ptrRequest).Complete r := by
  have hcount := ofNat_length_eq_iff (r := r) UserData.setField {} (ascii "user:")
    (friendsOf r ptrRequest.userId)
  constructor
  · intro h
    by_cases hnil : (friendsOf r ptrRequest.userId).length = 0
    · rw [ListRequest.Complete, List.length_eq_zero_iff.1 hnil]
      exact dvd_zero _
    · have hsent := (onAllUsersInfoRequest_eq (r := r) ptrRequest 0).trans (if_pos hnil)
      exact hcount.1 (h (.peerAllUserInfo _) ⟨0, hsent⟩)
  · rintro h (response | response | response | response) hanswer
    case peerAllUserInfo =>
      obtain ⟨nowtime, hsent⟩ := hanswer
      rw [onAllUsersInfoRequest_eq] at hsent
      split at hsent
      · cases hsent
        exact hcount.2 h
      · cases hsent
    all_goals exact hanswer.elim

/-- Groups. The response is not sent if there are less than two entries. -/
theorem accepted_groupAll (ptrRequest : GroupAllRequest) :
    (ListRequest.groupAll ptrRequest).Accepted order r ↔
      (ListRequest.groupAll ptrRequest).Complete r := by
  have hcount := ofNat_length_eq_iff (r := r) GroupInfo.setField {} (ascii "group:")
    (groupsOf r ptrRequest.userId)
  constructor
  · intro h
    by_cases htwo : (found r (ascii "group:") (groupsOf r ptrRequest.userId)).length < 2
    · exact .inl htwo
    · have hle : (found r (ascii "group:") (groupsOf r ptrRequest.userId)).length ≤
          (groupsOf r ptrRequest.userId).length := List.length_filter_le _ _
      have hsent := (onAllGroupRequest_eq (r := r) ptrRequest 0).trans
        ((if_pos (by omega)).trans (if_pos (by omega)))
      exact .inr (hcount.1 (h (.groupAll _) ⟨0, hsent⟩))
  · rintro h (response | response | response | response) hanswer
    case groupAll =>
      obtain ⟨nowtime, hsent⟩ := hanswer
      rw [onAllGroupRequest_eq] at hsent
      split at hsent
      · split at hsent
        · next htwo =>
          cases hsent
          exact hcount.2 (h.resolve_left (by omega))
        · cases hsent
      · cases hsent
    all_goals exact hanswer.elim

theorem length_of_mapM {α β : Type} {f : α → Option β} {l : List α} {l' : List β}
    (h : l.mapM f = some l') : l'.length = l.length := by
  induction l generalizing l' with
  | nil =>
    obtain rfl := Option.some.inj h
    rfl
  | cons a l ih =>
    rw [List.mapM_cons] at h
    obtain ⟨b, -, h⟩ := Option.bind_eq_some_iff.1 h
    obtain ⟨bs, hbs, h⟩ := Option.bind_eq_some_iff.1 h
    obtain rfl := Option.some.inj h
    rw [List.length_cons, List.length_cons, ih hbs]

/-- Members: a row is counted, and added. -/
theorem accepted_groupMembe (ptrRequest : GroupMembeRequest) :
    (ListRequest.groupMembe ptrRequest).Accepted order r := by
  rintro (response | response | response | response) hanswer
  case groupMember =>
    obtain ⟨nowtime, hsent⟩ := hanswer
    rw [onGroupMemberRequest] at hsent
    split at hsent
    · split at hsent
      · next msgData hrows =>
        cases hsent
        rw [ListResponse.Used, length_of_mapM hrows, Reply.length_rows]
      · cases hsent
    · cases hsent
      rfl
  all_goals exact hanswer.elim

/-- Unread messages. -/
theorem accepted_unreadMsg (ptrRequest : UnreadMsgRequest) :
    (ListRequest.unreadMsg ptrRequest).Accepted order r := by
  rintro (response | response | response | response) hanswer
  case unreadMsg =>
    obtain ⟨sv, conn, nowtime, s, hsent⟩ := hanswer
    rw [onUnreadMsgRequest_eq] at hsent
    split at hsent
    · rw [ConnectionManager.sent_send] at hsent
      split at hsent
      · obtain rfl := ChatMsg.unreadMsgResponse.inj
          (List.singleton_inj.1 (List.append_cancel_left hsent))
        rfl
      · exact absurd (List.append_cancel_left hsent).symm (List.cons_ne_nil _ _)
    · exact absurd (List.self_eq_append_right.1 hsent) (List.cons_ne_nil _ _)
  all_goals exact hanswer.elim

end Counts

namespace ListRequest

/-- **When the client uses the lists it is sent**: whatever Redis holds, every response to a request is
used exactly if no id is without a hash. -/
theorem accepted_iff (order : Keyspace.NumericOrder) (r : Redis) (q : ListRequest) :
    q.Accepted order r ↔ q.Complete r := by
  cases q with
  | unreadMsg ptrRequest => exact iff_of_true (accepted_unreadMsg ptrRequest) trivial
  | peerAllUserInfo ptrRequest => exact accepted_peerAllUserInfo ptrRequest
  | groupAll ptrRequest => exact accepted_groupAll ptrRequest
  | groupMembe ptrRequest => exact iff_of_true (accepted_groupMembe ptrRequest) trivial

/-- `u` has the friend `v`, of whom nothing is known. -/
def befriended : Redis where
  keys k := if k = ascii "friendsSet:u" then some (.set (.singleton (ascii "v"))) else none
  published := []

/-- **One friend, and no entry.** -/
theorem not_accepted_befriended :
    onAllUsersInfoRequest befriended ⟨0, ascii "u"⟩ 0 = .sent ⟨0, 1, ascii "u", []⟩ ∧
      ∀ order, ¬(peerAllUserInfo ⟨0, ascii "u"⟩).Accepted order befriended := by
  have hsent : onAllUsersInfoRequest befriended ⟨0, ascii "u"⟩ 0 = .sent ⟨0, 1, ascii "u", []⟩ := by
    decide +kernel
  refine ⟨hsent, fun order h => ?_⟩
  have hused := h (.peerAllUserInfo ⟨0, 1, ascii "u", []⟩) ⟨0, hsent⟩
  revert hused
  decide

end ListRequest

end MutexIM.MessageServer
