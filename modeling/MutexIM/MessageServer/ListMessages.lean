import MutexIM.Codec.Generated
import MutexIM.MessageServer.Lists

/-!
# The generated classes of the lists

The classes for the messages of `Lists`, some of which embed a message for each entry.

* `IMType.generated`, `IMType.lawful`: the classes of all messages between a client and the message server.
* `imPool` is the pool of these; it has the chat messages in it.
-/

namespace MutexIM.MessageServer

open Bytes Codec ProtoWire

/-! ## The entries -/

/-- `IMChat::UserData`. -/
def UserData.generated : MessageType UserData where
  descriptors :=
    [.varint 1, .varint 2, .bytes 3, .bytes 4, .bytes 5, .bytes 6, .bytes 7, .bytes 8, .varint 9]
  fields m :=
    putVarint 1 (zigZagEncode m.onlineStatus) ++ putVarint 2 m.timestamp.toNat ++ putBytes 3 m.userId ++
      putBytes 4 m.name ++ putBytes 5 m.nickName ++ putBytes 6 m.imageUrl ++ putBytes 7 m.position ++
      putBytes 8 m.email ++ putVarint 9 (zigZagEncode m.sex)
  ofFields fs :=
    { onlineStatus := zigZagDecode (lastOf 1 Value.varint? 0 fs)
      timestamp := UInt64.ofNat (lastOf 2 Value.varint? 0 fs)
      userId := lastOf 3 Value.bytes? [] fs
      name := lastOf 4 Value.bytes? [] fs
      nickName := lastOf 5 Value.bytes? [] fs
      imageUrl := lastOf 6 Value.bytes? [] fs
      position := lastOf 7 Value.bytes? [] fs
      email := lastOf 8 Value.bytes? [] fs
      sex := zigZagDecode (lastOf 9 Value.varint? 0 fs) }
  byteSize m :=
    sint32FieldSize m.onlineStatus + int64FieldSize m.timestamp + stringFieldSize m.userId +
      stringFieldSize m.name + stringFieldSize m.nickName + stringFieldSize m.imageUrl +
      stringFieldSize m.position + stringFieldSize m.email + sint32FieldSize m.sex
  mergeFrom m other :=
    { onlineStatus := mergeNumber m.onlineStatus other.onlineStatus
      timestamp := mergeNumber m.timestamp other.timestamp
      userId := mergeString m.userId other.userId
      name := mergeString m.name other.name
      nickName := mergeString m.nickName other.nickName
      imageUrl := mergeString m.imageUrl other.imageUrl
      position := mergeString m.position other.position
      email := mergeString m.email other.email
      sex := mergeNumber m.sex other.sex }

/-- `IMChat::GroupInfo`. -/
def GroupInfo.generated : MessageType GroupInfo where
  descriptors := [.bytes 2, .bytes 3, .bytes 4]
  fields m := putBytes 2 m.groupId ++ putBytes 3 m.groupName ++ putBytes 4 m.imageUrl
  ofFields fs :=
    { groupId := lastOf 2 Value.bytes? [] fs
      groupName := lastOf 3 Value.bytes? [] fs
      imageUrl := lastOf 4 Value.bytes? [] fs }
  byteSize m := stringFieldSize m.groupId + stringFieldSize m.groupName + stringFieldSize m.imageUrl
  mergeFrom m other :=
    { groupId := mergeString m.groupId other.groupId
      groupName := mergeString m.groupName other.groupName
      imageUrl := mergeString m.imageUrl other.imageUrl }

/-- `IMChat::GroupMemberInfo`. -/
def GroupMemberInfo.generated : MessageType GroupMemberInfo where
  descriptors := [.bytes 2, .bytes 3, .bytes 4, .varint 5]
  fields m :=
    putBytes 2 m.userId ++ putBytes 3 m.nickName ++ putBytes 4 m.imageUrl ++
      putVarint 5 (signExtend m.onlineStatus)
  ofFields fs :=
    { userId := lastOf 2 Value.bytes? [] fs
      nickName := lastOf 3 Value.bytes? [] fs
      imageUrl := lastOf 4 Value.bytes? [] fs
      onlineStatus := UInt32.ofNat (lastOf 5 Value.varint? 0 fs) }
  byteSize m :=
    stringFieldSize m.userId + stringFieldSize m.nickName + stringFieldSize m.imageUrl +
      int32FieldSize m.onlineStatus
  mergeFrom m other :=
    { userId := mergeString m.userId other.userId
      nickName := mergeString m.nickName other.nickName
      imageUrl := mergeString m.imageUrl other.imageUrl
      onlineStatus := mergeNumber m.onlineStatus other.onlineStatus }

theorem UserData.lawful : UserData.generated.Lawful where
  wellFormed := by decide
  own m _ := by
    have hD : WellFormed UserData.generated.descriptors := by decide
    simp only [generated, List.forall_mem_append]
    exact ⟨⟨⟨⟨⟨⟨⟨⟨own_sint32 hD (i := 0) rfl _, own_int64 hD (i := 1) rfl _⟩,
      own_putBytes hD (i := 2) rfl _⟩, own_putBytes hD (i := 3) rfl _⟩,
      own_putBytes hD (i := 4) rfl _⟩, own_putBytes hD (i := 5) rfl _⟩,
      own_putBytes hD (i := 6) rfl _⟩, own_putBytes hD (i := 7) rfl _⟩,
      own_sint32 hD (i := 8) rfl _⟩
  ofFields_stored fs gs h := by
    simp only [generated, lastOf_varint_stored h (i := 0) rfl, lastOf_varint_stored h (i := 1) rfl,
      lastOf_bytes_stored h (i := 2) rfl, lastOf_bytes_stored h (i := 3) rfl,
      lastOf_bytes_stored h (i := 4) rfl, lastOf_bytes_stored h (i := 5) rfl,
      lastOf_bytes_stored h (i := 6) rfl, lastOf_bytes_stored h (i := 7) rfl,
      lastOf_varint_stored h (i := 8) rfl]
  ofFields_append fs m _ := by simp [generated, lastOf_append]
  mergeFrom_new m := by simp [generated, MessageType.new, lastOf, occurrences]
  byteSize_eq m := by simp [MessageType.serialize, generated, Nat.add_assoc]

theorem GroupInfo.lawful : GroupInfo.generated.Lawful where
  wellFormed := by decide
  own m _ := by
    have hD : WellFormed GroupInfo.generated.descriptors := by decide
    simp only [generated, List.forall_mem_append]
    exact ⟨⟨own_putBytes hD (i := 0) rfl _, own_putBytes hD (i := 1) rfl _⟩,
      own_putBytes hD (i := 2) rfl _⟩
  ofFields_stored fs gs h := by
    simp only [generated, lastOf_bytes_stored h (i := 0) rfl, lastOf_bytes_stored h (i := 1) rfl,
      lastOf_bytes_stored h (i := 2) rfl]
  ofFields_append fs m _ := by simp [generated, lastOf_append]
  mergeFrom_new m := by simp [generated, MessageType.new, lastOf, occurrences]
  byteSize_eq m := by simp [MessageType.serialize, generated, Nat.add_assoc]

theorem GroupMemberInfo.lawful : GroupMemberInfo.generated.Lawful where
  wellFormed := by decide
  own m _ := by
    have hD : WellFormed GroupMemberInfo.generated.descriptors := by decide
    simp only [generated, List.forall_mem_append]
    exact ⟨⟨⟨own_putBytes hD (i := 0) rfl _, own_putBytes hD (i := 1) rfl _⟩,
      own_putBytes hD (i := 2) rfl _⟩, own_int32 hD (i := 3) rfl _⟩
  ofFields_stored fs gs h := by
    simp only [generated, lastOf_bytes_stored h (i := 0) rfl, lastOf_bytes_stored h (i := 1) rfl,
      lastOf_bytes_stored h (i := 2) rfl, lastOf_varint_stored h (i := 3) rfl]
  ofFields_append fs m _ := by simp [generated, lastOf_append]
  mergeFrom_new m := by simp [generated, MessageType.new, lastOf, occurrences]
  byteSize_eq m := by simp [MessageType.serialize, generated, Nat.add_assoc]

/-! ## Requests and responses

A message that is embedded may have groups one level less deep. -/

/-- `IMChat::PeerAllUserInfoRequest`. -/
def PeerAllUserInfoRequest.generated : MessageType PeerAllUserInfoRequest where
  descriptors := [.varint 1, .bytes 2]
  fields m := putVarint 1 m.timestamp.toNat ++ putBytes 2 m.userId
  ofFields fs :=
    { timestamp := UInt64.ofNat (lastOf 1 Value.varint? 0 fs)
      userId := lastOf 2 Value.bytes? [] fs }
  byteSize m := int64FieldSize m.timestamp + stringFieldSize m.userId
  mergeFrom m other :=
    { timestamp := mergeNumber m.timestamp other.timestamp
      userId := mergeString m.userId other.userId }

/-- `IMChat::PeerAllUserInfoResponse`. -/
def PeerAllUserInfoResponse.generated : MessageType PeerAllUserInfoResponse where
  descriptors := [.varint 1, .varint 2, .bytes 3, .messages 4 (UserData.generated.parse 99)]
  fields m :=
    putVarint 1 m.timestamp.toNat ++ putVarint 2 (signExtend m.friendsCount) ++ putBytes 3 m.userId ++
      putMessages 4 UserData.generated.serialize m.msgData
  ofFields fs :=
    { timestamp := UInt64.ofNat (lastOf 1 Value.varint? 0 fs)
      friendsCount := UInt32.ofNat (lastOf 2 Value.varint? 0 fs)
      userId := lastOf 3 Value.bytes? [] fs
      msgData := occurrences 4 (Value.message? (UserData.generated.parse 99)) fs }
  byteSize m :=
    int64FieldSize m.timestamp + int32FieldSize m.friendsCount + stringFieldSize m.userId +
      repeatedSize UserData.generated.messageSize m.msgData
  mergeFrom m other :=
    { msgData := m.msgData ++ other.msgData
      timestamp := mergeNumber m.timestamp other.timestamp
      friendsCount := mergeNumber m.friendsCount other.friendsCount
      userId := mergeString m.userId other.userId }

/-- `IMChat::GroupAllRequest`. -/
def GroupAllRequest.generated : MessageType GroupAllRequest where
  descriptors := [.varint 1, .bytes 2]
  fields m := putVarint 1 m.timestamp.toNat ++ putBytes 2 m.userId
  ofFields fs :=
    { timestamp := UInt64.ofNat (lastOf 1 Value.varint? 0 fs)
      userId := lastOf 2 Value.bytes? [] fs }
  byteSize m := int64FieldSize m.timestamp + stringFieldSize m.userId
  mergeFrom m other :=
    { timestamp := mergeNumber m.timestamp other.timestamp
      userId := mergeString m.userId other.userId }

/-- `IMChat::GroupAllResponse`. -/
def GroupAllResponse.generated : MessageType GroupAllResponse where
  descriptors := [.varint 1, .varint 2, .bytes 3, .messages 4 (GroupInfo.generated.parse 99)]
  fields m :=
    putVarint 1 m.timestamp.toNat ++ putVarint 2 (signExtend m.groupCount) ++ putBytes 3 m.userId ++
      putMessages 4 GroupInfo.generated.serialize m.msgData
  ofFields fs :=
    { timestamp := UInt64.ofNat (lastOf 1 Value.varint? 0 fs)
      groupCount := UInt32.ofNat (lastOf 2 Value.varint? 0 fs)
      userId := lastOf 3 Value.bytes? [] fs
      msgData := occurrences 4 (Value.message? (GroupInfo.generated.parse 99)) fs }
  byteSize m :=
    int64FieldSize m.timestamp + int32FieldSize m.groupCount + stringFieldSize m.userId +
      repeatedSize GroupInfo.generated.messageSize m.msgData
  mergeFrom m other :=
    { msgData := m.msgData ++ other.msgData
      timestamp := mergeNumber m.timestamp other.timestamp
      groupCount := mergeNumber m.groupCount other.groupCount
      userId := mergeString m.userId other.userId }

/-- `IMChat::GroupMembeRequest`. -/
def GroupMembeRequest.generated : MessageType GroupMembeRequest where
  descriptors := [.varint 1, .bytes 2, .bytes 3]
  fields m := putVarint 1 m.timestamp.toNat ++ putBytes 2 m.groupId ++ putBytes 3 m.userId
  ofFields fs :=
    { timestamp := UInt64.ofNat (lastOf 1 Value.varint? 0 fs)
      groupId := lastOf 2 Value.bytes? [] fs
      userId := lastOf 3 Value.bytes? [] fs }
  byteSize m := int64FieldSize m.timestamp + stringFieldSize m.groupId + stringFieldSize m.userId
  mergeFrom m other :=
    { timestamp := mergeNumber m.timestamp other.timestamp
      groupId := mergeString m.groupId other.groupId
      userId := mergeString m.userId other.userId }

/-- `IMChat::GroupMemberResponse`. -/
def GroupMemberResponse.generated : MessageType GroupMemberResponse where
  descriptors :=
    [.varint 1, .varint 2, .bytes 3, .bytes 4, .messages 5 (GroupMemberInfo.generated.parse 99)]
  fields m :=
    putVarint 1 m.timestamp.toNat ++ putVarint 2 (signExtend m.memberCount) ++ putBytes 3 m.userId ++
      putBytes 4 m.groupId ++ putMessages 5 GroupMemberInfo.generated.serialize m.msgData
  ofFields fs :=
    { timestamp := UInt64.ofNat (lastOf 1 Value.varint? 0 fs)
      memberCount := UInt32.ofNat (lastOf 2 Value.varint? 0 fs)
      userId := lastOf 3 Value.bytes? [] fs
      groupId := lastOf 4 Value.bytes? [] fs
      msgData := occurrences 5 (Value.message? (GroupMemberInfo.generated.parse 99)) fs }
  byteSize m :=
    int64FieldSize m.timestamp + int32FieldSize m.memberCount + stringFieldSize m.userId +
      stringFieldSize m.groupId + repeatedSize GroupMemberInfo.generated.messageSize m.msgData
  mergeFrom m other :=
    { msgData := m.msgData ++ other.msgData
      timestamp := mergeNumber m.timestamp other.timestamp
      memberCount := mergeNumber m.memberCount other.memberCount
      userId := mergeString m.userId other.userId
      groupId := mergeString m.groupId other.groupId }

theorem PeerAllUserInfoRequest.lawful : PeerAllUserInfoRequest.generated.Lawful where
  wellFormed := by decide
  own m _ := by
    have hD : WellFormed PeerAllUserInfoRequest.generated.descriptors := by decide
    simp only [generated, List.forall_mem_append]
    exact ⟨own_int64 hD (i := 0) rfl _, own_putBytes hD (i := 1) rfl _⟩
  ofFields_stored fs gs h := by
    simp only [generated, lastOf_varint_stored h (i := 0) rfl, lastOf_bytes_stored h (i := 1) rfl]
  ofFields_append fs m _ := by simp [generated, lastOf_append]
  mergeFrom_new m := by simp [generated, MessageType.new, lastOf, occurrences]
  byteSize_eq m := by simp [MessageType.serialize, generated]

theorem PeerAllUserInfoResponse.lawful : PeerAllUserInfoResponse.generated.Lawful where
  wellFormed := by decide
  own m h := by
    have hread : ∀ d ∈ m.msgData, UserData.generated.parse 99 (UserData.generated.serialize d) = some d :=
      UserData.lawful.parse_embedded h
    have hD : WellFormed PeerAllUserInfoResponse.generated.descriptors := by decide
    simp only [generated, List.forall_mem_append]
    exact ⟨⟨⟨own_int64 hD (i := 0) rfl _, own_int32 hD (i := 1) rfl _⟩,
      own_putBytes hD (i := 2) rfl _⟩, own_putMessages hD (i := 3) rfl hread⟩
  ofFields_stored fs gs h := by
    simp only [generated, lastOf_varint_stored h (i := 0) rfl, lastOf_varint_stored h (i := 1) rfl,
      lastOf_bytes_stored h (i := 2) rfl, occurrences_message_stored h (i := 3) rfl]
  ofFields_append fs m h := by
    have hread : ∀ d ∈ m.msgData, UserData.generated.parse 99 (UserData.generated.serialize d) = some d :=
      UserData.lawful.parse_embedded h
    simp [generated, lastOf_append, occurrences_putMessages hread]
  mergeFrom_new m := by simp [generated, MessageType.new, lastOf, occurrences]
  byteSize_eq m := by
    simp [MessageType.serialize, generated, UserData.lawful.length_encodeFields_putMessages,
      Nat.add_assoc]

theorem GroupAllRequest.lawful : GroupAllRequest.generated.Lawful where
  wellFormed := by decide
  own m _ := by
    have hD : WellFormed GroupAllRequest.generated.descriptors := by decide
    simp only [generated, List.forall_mem_append]
    exact ⟨own_int64 hD (i := 0) rfl _, own_putBytes hD (i := 1) rfl _⟩
  ofFields_stored fs gs h := by
    simp only [generated, lastOf_varint_stored h (i := 0) rfl, lastOf_bytes_stored h (i := 1) rfl]
  ofFields_append fs m _ := by simp [generated, lastOf_append]
  mergeFrom_new m := by simp [generated, MessageType.new, lastOf, occurrences]
  byteSize_eq m := by simp [MessageType.serialize, generated]

theorem GroupAllResponse.lawful : GroupAllResponse.generated.Lawful where
  wellFormed := by decide
  own m h := by
    have hread : ∀ d ∈ m.msgData, GroupInfo.generated.parse 99 (GroupInfo.generated.serialize d) = some d :=
      GroupInfo.lawful.parse_embedded h
    have hD : WellFormed GroupAllResponse.generated.descriptors := by decide
    simp only [generated, List.forall_mem_append]
    exact ⟨⟨⟨own_int64 hD (i := 0) rfl _, own_int32 hD (i := 1) rfl _⟩,
      own_putBytes hD (i := 2) rfl _⟩, own_putMessages hD (i := 3) rfl hread⟩
  ofFields_stored fs gs h := by
    simp only [generated, lastOf_varint_stored h (i := 0) rfl, lastOf_varint_stored h (i := 1) rfl,
      lastOf_bytes_stored h (i := 2) rfl, occurrences_message_stored h (i := 3) rfl]
  ofFields_append fs m h := by
    have hread : ∀ d ∈ m.msgData, GroupInfo.generated.parse 99 (GroupInfo.generated.serialize d) = some d :=
      GroupInfo.lawful.parse_embedded h
    simp [generated, lastOf_append, occurrences_putMessages hread]
  mergeFrom_new m := by simp [generated, MessageType.new, lastOf, occurrences]
  byteSize_eq m := by
    simp [MessageType.serialize, generated, GroupInfo.lawful.length_encodeFields_putMessages,
      Nat.add_assoc]

theorem GroupMembeRequest.lawful : GroupMembeRequest.generated.Lawful where
  wellFormed := by decide
  own m _ := by
    have hD : WellFormed GroupMembeRequest.generated.descriptors := by decide
    simp only [generated, List.forall_mem_append]
    exact ⟨⟨own_int64 hD (i := 0) rfl _, own_putBytes hD (i := 1) rfl _⟩,
      own_putBytes hD (i := 2) rfl _⟩
  ofFields_stored fs gs h := by
    simp only [generated, lastOf_varint_stored h (i := 0) rfl, lastOf_bytes_stored h (i := 1) rfl,
      lastOf_bytes_stored h (i := 2) rfl]
  ofFields_append fs m _ := by simp [generated, lastOf_append]
  mergeFrom_new m := by simp [generated, MessageType.new, lastOf, occurrences]
  byteSize_eq m := by simp [MessageType.serialize, generated, Nat.add_assoc]

theorem GroupMemberResponse.lawful : GroupMemberResponse.generated.Lawful where
  wellFormed := by decide
  own m h := by
    have hread : ∀ d ∈ m.msgData,
      GroupMemberInfo.generated.parse 99 (GroupMemberInfo.generated.serialize d) = some d :=
      GroupMemberInfo.lawful.parse_embedded h
    have hD : WellFormed GroupMemberResponse.generated.descriptors := by decide
    simp only [generated, List.forall_mem_append]
    exact ⟨⟨⟨⟨own_int64 hD (i := 0) rfl _, own_int32 hD (i := 1) rfl _⟩,
      own_putBytes hD (i := 2) rfl _⟩, own_putBytes hD (i := 3) rfl _⟩,
      own_putMessages hD (i := 4) rfl hread⟩
  ofFields_stored fs gs h := by
    simp only [generated, lastOf_varint_stored h (i := 0) rfl, lastOf_varint_stored h (i := 1) rfl,
      lastOf_bytes_stored h (i := 2) rfl, lastOf_bytes_stored h (i := 3) rfl,
      occurrences_message_stored h (i := 4) rfl]
  ofFields_append fs m h := by
    have hread : ∀ d ∈ m.msgData,
      GroupMemberInfo.generated.parse 99 (GroupMemberInfo.generated.serialize d) = some d :=
      GroupMemberInfo.lawful.parse_embedded h
    simp [generated, lastOf_append, occurrences_putMessages hread]
  mergeFrom_new m := by simp [generated, MessageType.new, lastOf, occurrences]
  byteSize_eq m := by
    simp [MessageType.serialize, generated, GroupMemberInfo.lawful.length_encodeFields_putMessages,
      Nat.add_assoc]

/-! ## The pool -/

/-- The message types between a client and the message server. -/
inductive IMType
  | chat (d : ChatType)
  | userData
  | peerAllUserInfoRequest
  | peerAllUserInfoResponse
  | groupAllRequest
  | groupInfo
  | groupAllResponse
  | groupMembeRequest
  | groupMemberInfo
  | groupMemberResponse
  deriving DecidableEq

namespace IMType

/-- The messages of a type. -/
def Message : IMType → Type
  | chat d => d.Message
  | userData => UserData
  | peerAllUserInfoRequest => PeerAllUserInfoRequest
  | peerAllUserInfoResponse => PeerAllUserInfoResponse
  | groupAllRequest => GroupAllRequest
  | groupInfo => GroupInfo
  | groupAllResponse => GroupAllResponse
  | groupMembeRequest => GroupMembeRequest
  | groupMemberInfo => GroupMemberInfo
  | groupMemberResponse => GroupMemberResponse

/-- The class of a type. -/
def generated : (d : IMType) → MessageType d.Message
  | chat d => d.generated
  | userData => UserData.generated
  | peerAllUserInfoRequest => PeerAllUserInfoRequest.generated
  | peerAllUserInfoResponse => PeerAllUserInfoResponse.generated
  | groupAllRequest => GroupAllRequest.generated
  | groupInfo => GroupInfo.generated
  | groupAllResponse => GroupAllResponse.generated
  | groupMembeRequest => GroupMembeRequest.generated
  | groupMemberInfo => GroupMemberInfo.generated
  | groupMemberResponse => GroupMemberResponse.generated

theorem lawful : (d : IMType) → d.generated.Lawful
  | chat d => d.lawful
  | userData => UserData.lawful
  | peerAllUserInfoRequest => PeerAllUserInfoRequest.lawful
  | peerAllUserInfoResponse => PeerAllUserInfoResponse.lawful
  | groupAllRequest => GroupAllRequest.lawful
  | groupInfo => GroupInfo.lawful
  | groupAllResponse => GroupAllResponse.lawful
  | groupMembeRequest => GroupMembeRequest.lawful
  | groupMemberInfo => GroupMemberInfo.lawful
  | groupMemberResponse => GroupMemberResponse.lawful

def typeName : IMType → Bytes
  | chat d => d.typeName
  | userData => ascii "IMChat.UserData"
  | peerAllUserInfoRequest => ascii "IMChat.PeerAllUserInfoRequest"
  | peerAllUserInfoResponse => ascii "IMChat.PeerAllUserInfoResponse"
  | groupAllRequest => ascii "IMChat.GroupAllRequest"
  | groupInfo => ascii "IMChat.GroupInfo"
  | groupAllResponse => ascii "IMChat.GroupAllResponse"
  | groupMembeRequest => ascii "IMChat.GroupMembeRequest"
  | groupMemberInfo => ascii "IMChat.GroupMemberInfo"
  | groupMemberResponse => ascii "IMChat.GroupMemberResponse"

def all : List IMType :=
  ChatType.all.map chat ++
    [userData, peerAllUserInfoRequest, peerAllUserInfoResponse, groupAllRequest, groupInfo,
      groupAllResponse, groupMembeRequest, groupMemberInfo, groupMemberResponse]

def find (t : Bytes) : Option IMType := all.find? fun d => d.typeName = t

theorem find_typeName (d : IMType) : find d.typeName = some d := by
  cases d with
  | chat d => cases d <;> decide
  | _ => decide

theorem typeName_of_find {t : Bytes} {d : IMType} (h : find t = some d) : d.typeName = t := by
  simpa using List.find?_some h

/-- **What the parsers accept, and what they make of it.** Every field has to be readable, and what is
embedded in a field has to be accepted by its own parser; at the end of the input it may be cut off. -/
theorem parse_iff_splits (d : IMType) (s : Bytes) (m : d.Message) :
    d.generated.parse 100 s = some m ↔ ∃ fs, Splits (embeddedIn d.generated.descriptors) s fs ∧
      (∀ f ∈ fs, ∀ e ∈ d.generated.descriptors, e.Matches f → e.accepts f.value = true) ∧
        d.generated.ofFields fs = m := by
  simp only [d.lawful.parse_eq_some_iff, readAll_iff_splits]

/-- A friend in a response whose length says more bytes than there are. -/
example : PeerAllUserInfoResponse.generated.parse 100 [34, 5, 26, 1, 97] =
    some { timestamp := 0, friendsCount := 0, userId := [], msgData := [{ userId := [97] }] } := by
  decide +kernel

/-- **Reading a serialised message behind anything that was read is `MergeFrom`**, unless a message in what was
read is cut off. -/
theorem parse_serialized_behind (d : IMType) {s : Bytes} {m other : d.Message}
    (hs : (decodeFields s).isSome) (h : d.generated.parse 100 s = some m)
    (hfits : d.generated.Fits other) :
    d.generated.parse 100 (s ++ d.generated.serialize other) = some (d.generated.mergeFrom m other) := by
  rw [decodeFields_eq] at hs
  exact d.lawful.parse_append hs h hfits

/-- Of a group that is read twice, the second name counts. -/
theorem parse_serialized_groupInfo :
    groupInfo.generated.parse 100 ([18, 1, 49] ++ groupInfo.generated.serialize ⟨[], [50], []⟩) =
      some (groupInfo.generated.mergeFrom ⟨[49], [], []⟩ ⟨[], [50], []⟩) :=
  parse_serialized_behind groupInfo (by decide +kernel)
    (show GroupInfo.generated.parse 100 [18, 1, 49] = some ⟨[49], [], []⟩ by decide +kernel)
    (show GroupInfo.generated.Fits ⟨[], [50], []⟩ by decide +kernel)

end IMType

/-- The classes of the messages between a client and the message server. -/
def imClasses : Classes where
  Desc := IMType
  Message := IMType.Message
  generated := IMType.generated
  lawful := IMType.lawful
  typeName := IMType.typeName
  find := IMType.find
  find_typeName := IMType.find_typeName
  typeName_of_find _ _ := IMType.typeName_of_find
  typeName_ne_nil d := by
    cases d with
    | chat d => cases d <;> decide
    | _ => decide
  typeName_nulFree d := by
    cases d with
    | chat d => cases d <;> decide
    | _ => decide
  length_typeName_lt d := by
    cases d with
    | chat d => cases d <;> decide
    | _ => decide

/-- Their pool. -/
abbrev imPool : Pool := imClasses.pool

/-- A message with its type, whether it can be serialised or not. -/
abbrev IMMsg := (d : IMType) × d.Message

/-- The message as one of the pool, if it can be serialised. -/
def IMMsg.packet (m : IMMsg) : Option imPool.Msg :=
  if h : m.1.generated.Fits m.2 then some ⟨m.1, m.2, h⟩ else none

/-- The message of the pool. -/
def IMMsg.ofPacket (m : imPool.Msg) : IMMsg := ⟨m.1, m.2.1⟩

/-- The message as a `MsgData`, if it is one. -/
def IMMsg.msgData? : IMMsg → Option MsgData
  | ⟨.chat .msgData, m⟩ => some m
  | _ => none

theorem IMMsg.eq_of_msgData? {x : IMMsg} {m : MsgData} (h : x.msgData? = some m) :
    x = ⟨.chat .msgData, m⟩ := by
  unfold msgData? at h
  split at h
  · rw [Option.some.inj h]
  · cases h

/-- A chat message is one of them. -/
def IMMsg.ofChat : ChatMsg → IMMsg
  | .shakeHandleReq m => ⟨.chat .shakeHandleReq, m⟩
  | .shakeHandleRes m => ⟨.chat .shakeHandleRes, m⟩
  | .msgData m => ⟨.chat .msgData, m⟩
  | .unreadMsgRequest m => ⟨.chat .unreadMsgRequest, m⟩
  | .unreadMsgResponse m => ⟨.chat .unreadMsgResponse, m⟩
  | .serverGroupMsg m => ⟨.chat .serverGroupMsg, m⟩

theorem IMMsg.ofPacket_of_packet {m : IMMsg} {p : imPool.Msg} (h : m.packet = some p) :
    IMMsg.ofPacket p = m := by
  unfold packet at h
  split at h
  · cases h
    rfl
  · cases h

end MutexIM.MessageServer
