import MutexIM.MessageServer.Handshake

/-!
# The messages a user has missed

A client that has come online asks for the messages of the time it was away.

* `appendPeerMsg` takes the chat messages out of the user's list: it reads the list and deletes it.
* `doOfflineGroupMsg` keeps the messages of a group in one list, the newest first, and counts for every
  member that is not online how many it has missed.
* `appendGroupMsg` reads the messages of each group for which a number is counted, and resets the
  counts. `unreadGroups_eq` puts its loops together.
* `onUnreadMsgRequest` is the handler of the request; `onUnreadMsgRequest_eq`: what it answers.
-/

namespace MutexIM.MessageServer

open Bytes Codec

/-! ## Chat messages -/

/-- `Server::appendPeerMsg`: the number of messages, the response with them, and Redis without. -/
def appendPeerMsg (r : Redis) (ptrRequest : UnreadMsgRequest) (response : UnreadMsgResponse) :
    ℕ × UnreadMsgResponse × Redis :=
  let key := ascii "unreadMsg:" ++ ptrRequest.userId
  let unreadMsg := CRedis.lrangeBinary r key 0 (-1)
  let r := CRedis.del r key
  (unreadMsg.length, { response with msgData := response.msgData ++ unreadMsg }, r)

/-! ## Group messages -/

/-- The counter of what a user has missed in a group. -/
def unreadNumber (userId groupId : Bytes) : Bytes :=
  ascii "unreadNumber:" ++ userId ++ ascii ":" ++ groupId

/-- The first half of `Server::doOfflineGroupMsg`: the message is put in the list of the group. -/
def pushGroupMsg (r : Redis) (ptrMsg : MsgData) : Redis :=
  let serializaStr := (ChatMsg.msgData ptrMsg).serialize
  let keyGroupMsgList := ascii "groupMsg:" ++ ptrMsg.toId
  let (nGroupMsgLen, r) := CRedis.lpush r keyGroupMsgList serializaStr
  if nGroupMsgLen > 99 then CRedis.ltrim r keyGroupMsgList 0 99 else r

theorem pushGroupMsg_eq (r : Redis) (ptrMsg : MsgData) : pushGroupMsg r ptrMsg =
    CRedis.lpushKeep r (ascii "groupMsg:" ++ ptrMsg.toId) (ChatMsg.msgData ptrMsg).serialize := rfl

/-- `Server::doOfflineGroupMsg`. -/
def doOfflineGroupMsg (r : Redis) (ptrMsg : MsgData) : Redis :=
  let r := pushGroupMsg r ptrMsg
  let vecRes := CRedis.sdiff r (ascii "groupMember:" ++ ptrMsg.toId) (ascii "onlineGroup:" ++ ptrMsg.toId)
  vecRes.foldl (fun r userId => CRedis.incr r (unreadNumber userId ptrMsg.toId)) r

/-- `numberData`: the groups of the user, each with the text of its counter. -/
def numberData (order : Keyspace.NumericOrder) (r : Redis) (userId : Bytes) : List (Bytes × Bytes) :=
  CRedis.sortNumbers r order (ascii "groupSet:" ++ userId) (unreadNumber userId (ascii "*"))

/-- The first loop of `appendGroupMsg`: the lists to read, each with the index to read to. -/
def lrangeCommands (numberData : List (Bytes × Bytes)) : List (Bytes × Bytes) :=
  (numberData.filter fun e => e.2 ≠ ascii "0").map fun e => (ascii "groupMsg:" ++ e.1, e.2)

/-- The second loop: an answer is taken for every group that is not at zero. -/
def getReplies : List (Bytes × Bytes) → List Reply → List (Bytes × List Bytes)
  | e :: numberData, reply :: replies =>
    if e.2 ≠ ascii "0" then (e.1, reply.elements.map Reply.bytes) :: getReplies numberData replies
    else getReplies numberData (reply :: replies)
  | _, _ => []

/-- The third loop: the counters are set to zero. -/
def resetNumbers (r : Redis) (userId : Bytes) (numberData : List (Bytes × Bytes)) : Redis :=
  numberData.foldl (fun r e =>
    if e.2 ≠ ascii "0" then CRedis.set r (unreadNumber userId e.1) (ascii "0") else r) r

/-- The groups that are not at zero, each with the messages read. -/
def unreadGroups (order : Keyspace.NumericOrder) (r : Redis) (userId : Bytes) :
    List (Bytes × List Bytes) :=
  let numberData := numberData order r userId
  getReplies numberData ((lrangeCommands numberData).map fun c => CRedis.lrangeNumber r c.1 c.2)

/-- `Server::appendGroupMsg`. -/
def appendGroupMsg (order : Keyspace.NumericOrder) (r : Redis) (ptrRequest : UnreadMsgRequest)
    (response : UnreadMsgResponse) : ℕ × UnreadMsgResponse × Redis :=
  let messages := (unreadGroups order r ptrRequest.userId).flatMap Prod.snd
  (messages.length, { response with msgData := response.msgData ++ messages },
    resetNumbers r ptrRequest.userId (numberData order r ptrRequest.userId))

/-- `Server::onUnreadMsgRequest`. -/
def onUnreadMsgRequest (order : Keyspace.NumericOrder) (sv : Server) (r : Redis) (conn : ℕ)
    (ptrRequest : UnreadMsgRequest) (nowtime : UInt64) : Server × Redis :=
  let response : UnreadMsgResponse := { msgCount := 0, timestamp := 0, userId := [], msgData := [] }
  let (nPeerNumber, response, r) := appendPeerMsg r ptrRequest response
  let (nGroupNumber, response, r) := appendGroupMsg order r ptrRequest response
  let nMsgNumber := nPeerNumber + nGroupNumber
  if nMsgNumber ≥ 1 then
    let response := { response with
      msgCount := UInt32.ofNat nMsgNumber, userId := ptrRequest.userId, timestamp := nowtime }
    ({ sv with manager := sv.manager.send conn (.unreadMsgResponse response) }, r)
  else (sv, r)

/-- The answers are taken for the groups the commands were issued for. -/
theorem getReplies_map (numberData : List (Bytes × Bytes)) (f : Bytes × Bytes → Reply) :
    getReplies numberData ((lrangeCommands numberData).map f) =
      (numberData.filter fun e => e.2 ≠ ascii "0").map fun e =>
        (e.1, (f (ascii "groupMsg:" ++ e.1, e.2)).elements.map Reply.bytes) := by
  induction numberData with
  | nil => rfl
  | cons e numberData ih =>
    unfold lrangeCommands at ih ⊢
    by_cases he : e.2 ≠ ascii "0"
    · rw [List.filter_cons_of_pos (by simpa using he), List.map_cons, List.map_cons, getReplies,
        if_pos he, ih, List.map_cons]
    · rw [List.filter_cons_of_neg (by simpa using he), ← ih]
      cases h : ((numberData.filter fun e => e.2 ≠ ascii "0").map fun e =>
          (ascii "groupMsg:" ++ e.1, e.2)).map f with
      | nil => cases numberData <;> rfl
      | cons reply replies => rw [getReplies, if_neg he]

/-- **The three loops select the same groups.** -/
theorem unreadGroups_eq (order : Keyspace.NumericOrder) (r : Redis) (userId : Bytes) :
    unreadGroups order r userId =
      ((numberData order r userId).filter fun e => e.2 ≠ ascii "0").map fun e =>
        (e.1, (CRedis.lrangeNumber r (ascii "groupMsg:" ++ e.1) e.2).elements.map Reply.bytes) :=
  getReplies_map _ _

/-! ## The request -/

/-- The messages that are stored for a user: those of the list, and those of the groups in which some
are counted. -/
def storedFor (order : Keyspace.NumericOrder) (r : Redis) (userId : Bytes) : List Bytes :=
  r.keys.listAt (cstr (ascii "unreadMsg:" ++ userId)) ++ (unreadGroups order
    (CRedis.del r (ascii "unreadMsg:" ++ userId)) userId).flatMap Prod.snd

/-- **The request is answered** with what is stored for the user; the list is deleted, and the counters
are set to zero. -/
theorem onUnreadMsgRequest_eq (order : Keyspace.NumericOrder) (sv : Server) (r : Redis) (conn : ℕ)
    (ptrRequest : UnreadMsgRequest) (nowtime : UInt64) :
    onUnreadMsgRequest order sv r conn ptrRequest nowtime =
      (if (storedFor order r ptrRequest.userId).length ≥ 1 then
          { sv with manager := sv.manager.send conn (.unreadMsgResponse
            ⟨UInt32.ofNat (storedFor order r ptrRequest.userId).length, nowtime, ptrRequest.userId,
              storedFor order r ptrRequest.userId⟩) }
        else sv,
        resetNumbers (CRedis.del r (ascii "unreadMsg:" ++ ptrRequest.userId)) ptrRequest.userId
          (numberData order (CRedis.del r (ascii "unreadMsg:" ++ ptrRequest.userId))
            ptrRequest.userId)) := by
  simp only [onUnreadMsgRequest, appendPeerMsg, appendGroupMsg, CRedis.lrangeBinary_all, storedFor,
    List.length_append, List.nil_append]
  split <;> rfl

end MutexIM.MessageServer
