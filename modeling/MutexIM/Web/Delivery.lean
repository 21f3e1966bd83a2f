import MutexIM.Routing.Group
import MutexIM.Web.SocketMaps

/-!
# Delivery to web clients

A web server gives messages to its clients in two ways: the `peer message` handler passes on what another
client of the server sends, and the subscriber what other servers publish.

* `peerMessageHandler_iff`: a message is given to the recipient's socket, or taken to Redis, exactly if
  the recipient has no socket and its id is not the name of a property.
* `emitted_fromId`: what is emitted of a message of a group does not say who sent it.
* `intact_iff`: the messages of a group arrive intact exactly where there is nobody they arrive at.
-/

namespace MutexIM.Web

open Bytes Codec Routing

/-! ## Messages between clients of a server -/

/-- The names of the properties that objects of the class `Map` have or inherit. -/
def mapProperties : List Bytes :=
  [ascii "constructor", ascii "size", ascii "get", ascii "set", ascii "has", ascii "delete",
    ascii "clear", ascii "entries", ascii "keys", ascii "values", ascii "forEach",
    ascii "hasOwnProperty", ascii "isPrototypeOf", ascii "propertyIsEnumerable", ascii "toLocaleString",
    ascii "toString", ascii "valueOf", ascii "__proto__", ascii "__defineGetter__",
    ascii "__defineSetter__", ascii "__lookupGetter__", ascii "__lookupSetter__"]

namespace SocketServer

variable (properties : List Bytes) (sv : SocketServer) (data : MsgData)

/-- `socket.on('peer message')`, for any string as the recipient: the server afterwards, and what sockets
are sent; `none` if the handler throws. `userIdMap[data.toId]` is a property of the map, and the entries
are none: it is `undefined`, or what the engine keeps under the name, which has no method `emit`. -/
def peerMessageHandler : Option (SocketServer × List (ℕ × MsgData)) :=
  if data.toId ∈ properties then none else some (sv.peerMessage data, [])

/-- The message is given to the recipient's socket if there is one, and else taken to Redis. -/
def peerMessageIntended : SocketServer × List (ℕ × MsgData) :=
  match sv.userIdMap data.toId with
  | some toSocket => (sv, [(toSocket, data)])
  | none => (sv.peerMessage data, [])

/-- **Which messages find their way**: whatever the maps hold, those to a recipient without a socket whose
id is not the name of a property. -/
theorem peerMessageHandler_iff :
    sv.peerMessageHandler properties data = some (sv.peerMessageIntended data) ↔
      sv.userIdMap data.toId = none ∧ data.toId ∉ properties := by
  unfold peerMessageHandler peerMessageIntended
  cases hsocket : sv.userIdMap data.toId with
  | none =>
    rw [and_iff_right rfl]
    constructor
    · intro h hmem
      rw [if_pos hmem] at h
      cases h
    · exact fun hmem => if_neg hmem
  | some toSocket =>
    refine iff_of_false (fun h => ?_) fun h => Option.some_ne_none _ h.1
    split at h
    · cases h
    · -- the handler sends nothing to a socket
      have hnil : ([] : List (ℕ × MsgData)) = [(toSocket, data)] :=
        congrArg Prod.snd (Option.some.inj h)
      cases hnil

end SocketServer

/-- A message of `v`. -/
def toRecipient (toId : String) : MsgData := ⟨0, 0, ascii "v", ascii toId, ascii "hello", chatText⟩

/-- `u` has the first socket. -/
def withUser : SocketServer :=
  ((SocketServer.start (ascii "h:1")).connection).handleShake 0 (ascii "u")

/-- A message for `u` is not given to its socket, and one for `get` stops the server. -/
theorem peerMessageHandler_withUser :
    Run SocketServer.step (fun _ _ => True) (.start (ascii "h:1"))
        [.connection, .handleShake 0 (ascii "u")] withUser ∧
      withUser.userIdMap (ascii "u") = some 0 ∧
      withUser.peerMessageHandler mapProperties (toRecipient "u") =
        some (withUser.peerMessage (toRecipient "u"), []) ∧
      (withUser.peerMessageIntended (toRecipient "u")).2 = [(0, toRecipient "u")] ∧
      withUser.peerMessageHandler mapProperties (toRecipient "get") = none :=
  ⟨.cons trivial rfl (.cons trivial rfl (.nil _)), by decide, if_neg (by decide), by decide,
    if_pos (by decide)⟩

/-! ## Messages from other servers -/

/-- What the subscriber uses of the protobuf library, of which it is known that it reads what a C++ server
has written, and of `iconv-lite`. -/
structure ReadingLibraries where
  parseServerGroupMsg : Bytes → Option ServerGroupMsg
  parseMsgData : Bytes → Option MsgData
  decode : Bytes → Bytes
  parse_serverGroupMsg : ∀ m, (ChatMsg.serverGroupMsg m).Fits →
    parseServerGroupMsg (ChatMsg.serverGroupMsg m).serialize = some m
  parse_msgData : ∀ m, (ChatMsg.msgData m).Fits →
    parseMsgData (ChatMsg.msgData m).serialize = some m

/-- The object that a client gets. A property that it does not have is `none`; the name of the time in the
schema of the web server is `timeStamp`. -/
structure NetMessage where
  userId : Option (List Bytes)
  timeStamp : Option UInt64
  sequenceNumber : Option UInt32
  fromId : Option Bytes
  toId : Option Bytes
  timestamp : Option UInt64
  msgData : Bytes
  type : Bytes
  deriving DecidableEq

variable (lib : ReadingLibraries)

/-- The object of a message of a group. -/
def groupObject (outObj : ServerGroupMsg) : NetMessage where
  userId := some outObj.userId
  timeStamp := none
  sequenceNumber := none
  fromId := none
  toId := none
  timestamp := none
  msgData := lib.decode outObj.msgData
  type := ascii "group"

/-- The object of a message between users. -/
def peerObject (outObj : MsgData) : NetMessage where
  userId := none
  timeStamp := some outObj.timestamp
  sequenceNumber := some outObj.sequenceNumber
  fromId := some outObj.fromId
  toId := some outObj.toId
  timestamp := none
  msgData := lib.decode outObj.msgData
  type := ascii "peer"

/-- `redisSub.on('message')`: what sockets are sent; `none` if the library throws. -/
def redisSubMessage (sv : SocketServer) (channel message : Bytes) : Option (List (ℕ × NetMessage)) :=
  if channel = ascii "online" then some []
  else if channel = ascii "offline" then some []
  else if channel = ascii "groupMsg:" ++ sv.g_socketStr then
    (lib.parseServerGroupMsg message).bind fun outObj =>
      -- the message inside is read, and not used
      (lib.parseMsgData outObj.msgData).map fun _outMsg =>
        outObj.userId.filterMap fun userId =>
          (sv.userIdMap userId).map fun toSocket => (toSocket, groupObject lib outObj)
  else if channel = ascii "peerMsg:" ++ sv.g_socketStr then
    (lib.parseMsgData message).map fun outObj =>
      ((sv.userIdMap outObj.toId).map fun toSocket => (toSocket, peerObject lib outObj)).toList
  else some []

/-- What `appendNetGroupMsg` uses of the object is what was sent. -/
structure NetMessage.Shows (o : NetMessage) (m : MsgData) : Prop where
  fromId : o.fromId = some m.fromId
  toId : o.toId = some m.toId
  timestamp : o.timestamp = some m.timestamp
  msgData : o.msgData = lib.decode m.msgData

/-- What `doOnlineGroupMsg` publishes for the users. -/
def publishedFor (userIds : List Bytes) (m : MsgData) : Bytes :=
  (ChatMsg.serverGroupMsg ⟨userIds, (ChatMsg.msgData m).serialize⟩).serialize

/-- The socket of each listed user that is connected is sent one object, which shows the message. -/
def Intact (sv : SocketServer) (userIds : List Bytes) (m : MsgData) : Prop :=
  ∃ emitted, redisSubMessage lib sv (ascii "groupMsg:" ++ sv.g_socketStr) (publishedFor userIds m) =
      some emitted ∧
    ∀ userId ∈ userIds, ∀ toSocket, sv.userIdMap userId = some toSocket →
      ∃ o : NetMessage, emitted.filter (fun e => e.1 = toSocket) = [(toSocket, o)] ∧ o.Shows lib m

variable {lib} {sv : SocketServer} {userIds : List Bytes} {m : MsgData}

/-- The messages for the servers that `doOnlineGroupMsg` publishes are of this form. -/
theorem exists_publishedFor {L : Layout Bytes Bytes} {server : MessageServer.Server} {r : Redis}
    {e : Bytes × Bytes}
    (he : e ∈ (doOnlineGroupMsg L server r m).2.published.drop r.published.length) :
    ∃ userIds, e.2 = publishedFor userIds m := by
  rw [doOnlineGroupMsg_published, List.drop_left] at he
  obtain ⟨i, -, he⟩ := List.mem_flatMap.1 he
  unfold bucketMsg at he
  split at he
  · cases he
  · rw [List.mem_singleton.1 he]
    exact ⟨_, rfl⟩

/-- **What is emitted**: one object for each listed user that is connected, and it is the list of the users
with the bytes of the message. -/
theorem redisSubMessage_publishedFor (hm : (ChatMsg.msgData m).Fits)
    (hfits : (ChatMsg.serverGroupMsg ⟨userIds, (ChatMsg.msgData m).serialize⟩).Fits) :
    redisSubMessage lib sv (ascii "groupMsg:" ++ sv.g_socketStr) (publishedFor userIds m) =
      some (userIds.filterMap fun userId => (sv.userIdMap userId).map fun toSocket =>
        (toSocket, groupObject lib ⟨userIds, (ChatMsg.msgData m).serialize⟩)) := by
  have honline : ascii "groupMsg:" ++ sv.g_socketStr ≠ ascii "online" := by simp [ascii]
  have hoffline : ascii "groupMsg:" ++ sv.g_socketStr ≠ ascii "offline" := by simp [ascii]
  rw [redisSubMessage, if_neg honline, if_neg hoffline, if_pos rfl, publishedFor,
    lib.parse_serverGroupMsg _ hfits, Option.bind_some, lib.parse_msgData _ hm, Option.map_some]

/-- What is emitted does not say who sent it. -/
theorem emitted_fromId {outObj : ServerGroupMsg} {e : ℕ × NetMessage}
    (h : e ∈ userIds.filterMap fun userId =>
      (sv.userIdMap userId).map fun toSocket => (toSocket, groupObject lib outObj)) :
    e.2.fromId = none := by
  obtain ⟨userId, -, he⟩ := List.mem_filterMap.1 h
  obtain ⟨toSocket, -, rfl⟩ := Option.map_eq_some_iff.1 he
  rfl

/-- **Which messages of groups arrive intact**: those for users of whom none is connected. -/
theorem intact_iff (hm : (ChatMsg.msgData m).Fits)
    (hfits : (ChatMsg.serverGroupMsg ⟨userIds, (ChatMsg.msgData m).serialize⟩).Fits) :
    Intact lib sv userIds m ↔ ∀ userId ∈ userIds, sv.userIdMap userId = none := by
  unfold Intact
  rw [redisSubMessage_publishedFor hm hfits]
  constructor
  · rintro ⟨emitted, hemitted, h⟩ userId hmem
    by_contra hsome
    obtain ⟨toSocket, hsocket⟩ := Option.ne_none_iff_exists'.1 hsome
    obtain ⟨o, ho, hshows⟩ := h userId hmem toSocket hsocket
    have hin : (toSocket, o) ∈ emitted := List.mem_of_mem_filter (ho ▸ List.mem_singleton_self _)
    rw [← Option.some.inj hemitted] at hin
    have hfrom := hshows.fromId
    rw [emitted_fromId hin] at hfrom
    cases hfrom
  · intro h
    refine ⟨_, rfl, fun userId hmem toSocket hsocket => ?_⟩
    rw [h userId hmem] at hsocket
    cases hsocket

/-! ## A group with one web client -/

/-- The libraries, with the text left as it is. -/
def sameText : ReadingLibraries where
  parseServerGroupMsg s :=
    match ChatMsg.parse .serverGroupMsg s with
    | some (.serverGroupMsg m) => some m
    | _ => none
  parseMsgData s :=
    match ChatMsg.parse .msgData s with
    | some (.msgData m) => some m
    | _ => none
  decode := id
  parse_serverGroupMsg m hm := by
    have hparse : ChatMsg.parse .serverGroupMsg (ChatMsg.serverGroupMsg m).serialize = _ :=
      ChatMsg.parse_serialize hm
    rw [hparse]
  parse_msgData m hm := by
    have hparse : ChatMsg.parse .msgData (ChatMsg.msgData m).serialize = _ := ChatMsg.parse_serialize hm
    rw [hparse]

/-- A message of `v` to the group `7`. -/
def toSeven : MsgData := ⟨5, 0, ascii "v", ascii "7", ascii "hello", groupchatText⟩

/-- The client gets the bytes of the message, and no sender, group or time. -/
theorem not_intact_withUser :
    redisSubMessage sameText withUser (ascii "groupMsg:h:1") (publishedFor [ascii "u"] toSeven) =
        some [(0, ⟨some [ascii "u"], none, none, none, none, none,
          (ChatMsg.msgData toSeven).serialize, ascii "group"⟩)] ∧
      ¬Intact sameText withUser [ascii "u"] toSeven := by
  have hsub : redisSubMessage sameText withUser (ascii "groupMsg:h:1")
      (publishedFor [ascii "u"] toSeven) = some [(0, ⟨some [ascii "u"], none, none, none, none, none,
        (ChatMsg.msgData toSeven).serialize, ascii "group"⟩)] := by decide +kernel
  refine ⟨hsub, ?_⟩
  rintro ⟨emitted, hemitted, h⟩
  obtain rfl := Option.some.inj (hsub.symm.trans hemitted)
  obtain ⟨o, ho, hshows⟩ := h (ascii "u") (List.mem_singleton_self _) 0 (by decide)
  have hin := List.mem_of_mem_filter (ho ▸ List.mem_singleton_self (0, o))
  obtain rfl := congrArg Prod.snd (List.mem_singleton.1 hin)
  cases hshows.fromId

theorem intact_nobody : Intact sameText withUser [ascii "w"] toSeven :=
  (intact_iff (by decide +kernel) (by decide +kernel)).2 (by decide)

end MutexIM.Web
