import MutexIM.MessageServer.Unread
import MutexIM.Routing.Group
import MutexIM.Routing.Tasks

/-!
# The work on group messages, command by command

A group message is handled in two parts, for the members that are online and for those that are not, and
a user who comes online asks for what it has missed. Between two Redis commands of either the commands
of other servers come in.

* `GroupStage.next`, `UnreadStage.next`: the work up to the next command, that command, and what is left
  then.
* `completes_groupMsg`, `completes_onUnreadMsgRequest`: with nothing in between this is what the handlers
  do.
-/

namespace MutexIM.Routing

open Bytes Codec MessageServer

/-! ## Stages -/

/-- What is left of `doOnlineGroupMsg` and `doOfflineGroupMsg`. -/
inductive GroupStage
  | sort | publish (messages : List (Bytes × Bytes)) | lpush | ltrim | sdiff | incr (vecRes : List Bytes)

/-- What is left of `onUnreadMsgRequest`, with the messages of the response so far. -/
inductive UnreadStage
  | lrange
  | del (msgData : List Bytes)
  | sort (msgData : List Bytes)
  | pipeline (msgData : List Bytes) (numberData commands : List (Bytes × Bytes)) (replies : List Reply)
  | set (msgData : List Bytes) (numberData : List (Bytes × Bytes))

/-- The groups whose counters have been read and are still to be reset, with what was read. -/
def UnreadStage.toReset : UnreadStage → List (Bytes × Bytes)
  | .pipeline _ numberData _ _ => numberData
  | .set _ numberData => numberData
  | _ => []

/-- A request that is being handled. -/
structure UnreadTask where
  conn : ℕ
  ptrRequest : UnreadMsgRequest
  nowtime : UInt64
  stage : UnreadStage

/-- What is published for the members on other servers. -/
def remoteMsgs (L : Layout Bytes Bytes) (sv : Server) (ptrMsg : MsgData)
    (vecStr : List (Bytes × Bytes)) : List (Bytes × Bytes) :=
  (List.range L.bucketCount).flatMap fun i =>
    bucketMsg (ChatMsg.msgData ptrMsg).serialize (L.elements (remoteMembers sv vecStr) i)

/-- The next step of `doOnlineGroupMsg` or `doOfflineGroupMsg`. -/
def GroupStage.next (L : Layout Bytes Bytes) (ptrMsg : MsgData) (sv : Server) (r : Redis) :
    GroupStage → Option GroupStage × Server × Redis
  | .sort =>
    let vecStr := CRedis.sortMultiSocket r (ascii "onlineGroup:" ++ ptrMsg.toId)
    (some (.publish (remoteMsgs L sv ptrMsg vecStr)), { sv with
      manager := sv.manager.sendUsers (.msgData ptrMsg) (localMembers sv ptrMsg.fromId vecStr) }, r)
  | .publish (e :: messages) =>
    (some (.publish messages), sv, { r with published := r.published ++ [e] })
  | .publish [] => (some .lpush, sv, r)
  | .lpush =>
    let (nGroupMsgLen, r) := CRedis.lpush r (ascii "groupMsg:" ++ ptrMsg.toId)
      (ChatMsg.msgData ptrMsg).serialize
    (some (if nGroupMsgLen > 99 then .ltrim else .sdiff), sv, r)
  | .ltrim => (some .sdiff, sv, CRedis.ltrim r (ascii "groupMsg:" ++ ptrMsg.toId) 0 99)
  | .sdiff => (some (.incr (CRedis.sdiff r (ascii "groupMember:" ++ ptrMsg.toId)
      (ascii "onlineGroup:" ++ ptrMsg.toId))), sv, r)
  | .incr (userId :: vecRes) =>
    (some (.incr vecRes), sv, CRedis.incr r (unreadNumber userId ptrMsg.toId))
  | .incr [] => (none, sv, r)

/-- The next step of `onUnreadMsgRequest`. -/
def UnreadStage.next (order : Keyspace.NumericOrder) (conn : ℕ) (ptrRequest : UnreadMsgRequest)
    (nowtime : UInt64) (sv : Server) (r : Redis) : UnreadStage → Option UnreadStage × Server × Redis
  | .lrange =>
    (some (.del (CRedis.lrangeBinary r (ascii "unreadMsg:" ++ ptrRequest.userId) 0 (-1))), sv, r)
  | .del msgData => (some (.sort msgData), sv, CRedis.del r (ascii "unreadMsg:" ++ ptrRequest.userId))
  | .sort msgData =>
    let numberData := numberData order r ptrRequest.userId
    (some (.pipeline msgData numberData (lrangeCommands numberData) []), sv, r)
  | .pipeline msgData numberData (c :: commands) replies =>
    (some (.pipeline msgData numberData commands (replies ++ [CRedis.lrangeNumber r c.1 c.2])), sv, r)
  | .pipeline msgData numberData [] replies =>
    (some (.set (msgData ++ (getReplies numberData replies).flatMap Prod.snd) numberData), sv, r)
  | .set msgData (e :: numberData) =>
    (some (.set msgData numberData), sv,
      if e.2 ≠ ascii "0" then CRedis.set r (unreadNumber ptrRequest.userId e.1) (ascii "0") else r)
  | .set msgData [] =>
    (none, if msgData.length ≥ 1 then { sv with manager := sv.manager.send conn (.unreadMsgResponse
      ⟨UInt32.ofNat msgData.length, nowtime, ptrRequest.userId, msgData⟩) } else sv, r)

/-! ## Stages with nothing in between -/

/-- The stages follow each other to the end. -/
inductive Completes {τ : Type} (next : Server → Redis → τ → Option τ × Server × Redis) :
    τ → Server → Redis → Server × Redis → Prop
  | last {t : τ} {sv sv' : Server} {r r' : Redis} (h : next sv r t = (none, sv', r')) :
      Completes next t sv r (sv', r')
  | next {t t' : τ} {sv sv₁ : Server} {r r₁ : Redis} {out : Server × Redis}
      (h : next sv r t = (some t', sv₁, r₁)) (hrest : Completes next t' sv₁ r₁ out) :
      Completes next t sv r out

section Group

variable {L : Layout Bytes Bytes} {ptrMsg : MsgData} {sv : Server} {r : Redis}

theorem completes_incr (vecRes : List Bytes) :
    Completes (GroupStage.next L ptrMsg) (.incr vecRes) sv r
      (sv, vecRes.foldl (fun r userId => CRedis.incr r (unreadNumber userId ptrMsg.toId)) r) := by
  induction vecRes generalizing r with
  | nil => exact .last rfl
  | cons userId vecRes ih => exact .next rfl ih

theorem completes_doOfflineGroupMsg :
    Completes (GroupStage.next L ptrMsg) .lpush sv r
      (sv, doOfflineGroupMsg r ptrMsg) := by
  unfold doOfflineGroupMsg pushGroupMsg
  by_cases hlen : (CRedis.lpush r (ascii "groupMsg:" ++ ptrMsg.toId)
      (ChatMsg.msgData ptrMsg).serialize).1 > 99
  · simp only [if_pos hlen]
    refine .next (by simp only [GroupStage.next, if_pos hlen]; rfl) ?_
    exact .next rfl (.next rfl (completes_incr _))
  · simp only [if_neg hlen]
    refine .next (by simp only [GroupStage.next, if_neg hlen]; rfl) ?_
    exact .next rfl (completes_incr _)

theorem completes_publish (messages : List (Bytes × Bytes)) :
    Completes (GroupStage.next L ptrMsg) (.publish messages) sv r
      (sv, doOfflineGroupMsg { r with published := r.published ++ messages } ptrMsg) := by
  induction messages generalizing r with
  | nil =>
    rw [List.append_nil]
    exact .next rfl completes_doOfflineGroupMsg
  | cons e messages ih =>
    refine .next rfl ?_
    have h : Completes (GroupStage.next L ptrMsg) (.publish messages) sv
        { r with published := r.published ++ [e] } _ := ih
    rwa [List.append_assoc, List.singleton_append] at h

/-- **A group message with nothing in between.** -/
theorem completes_groupMsg :
    Completes (GroupStage.next L ptrMsg) .sort sv r
      ((doOnlineGroupMsg L sv r ptrMsg).1,
        doOfflineGroupMsg (doOnlineGroupMsg L sv r ptrMsg).2 ptrMsg) := by
  rw [doOnlineGroupMsg_snd, doOnlineGroupMsg_fst]
  exact .next rfl (completes_publish _)

end Group

section Unread

variable {order : Keyspace.NumericOrder} {conn : ℕ} {ptrRequest : UnreadMsgRequest} {nowtime : UInt64}
  {sv : Server} {r : Redis}

/-- What is left when the messages of the response are there. -/
theorem completes_set (msgData : List Bytes) (numberData : List (Bytes × Bytes)) :
    Completes (UnreadStage.next order conn ptrRequest nowtime)
      (.set msgData numberData) sv r
      (if msgData.length ≥ 1 then { sv with manager := sv.manager.send conn (.unreadMsgResponse
          ⟨UInt32.ofNat msgData.length, nowtime, ptrRequest.userId, msgData⟩) } else sv,
        resetNumbers r ptrRequest.userId numberData) := by
  induction numberData generalizing r with
  | nil => exact .last rfl
  | cons e numberData ih => exact .next rfl ih

theorem completes_pipeline (msgData : List Bytes) (numberData commands : List (Bytes × Bytes))
    (replies : List Reply) {out : Server × Redis}
    (h : Completes (UnreadStage.next order conn ptrRequest nowtime)
      (.set (msgData ++ (getReplies numberData (replies ++
        commands.map fun c => CRedis.lrangeNumber r c.1 c.2)).flatMap Prod.snd) numberData) sv r out) :
    Completes (UnreadStage.next order conn ptrRequest nowtime)
      (.pipeline msgData numberData commands replies) sv r out := by
  induction commands generalizing replies with
  | nil =>
    rw [List.map_nil, List.append_nil] at h
    exact .next rfl h
  | cons c commands ih =>
    refine .next rfl (ih _ ?_)
    rwa [List.append_assoc, List.singleton_append]

/-- The handler, with the response and Redis written out. -/
theorem onUnreadMsgRequest_eq : onUnreadMsgRequest order sv r conn ptrRequest nowtime =
    let r' := CRedis.del r (ascii "unreadMsg:" ++ ptrRequest.userId)
    let msgData := CRedis.lrangeBinary r (ascii "unreadMsg:" ++ ptrRequest.userId) 0 (-1) ++
      (unreadGroups order r' ptrRequest.userId).flatMap Prod.snd
    (if msgData.length ≥ 1 then { sv with manager := sv.manager.send conn (.unreadMsgResponse
        ⟨UInt32.ofNat msgData.length, nowtime, ptrRequest.userId, msgData⟩) } else sv,
      resetNumbers r' ptrRequest.userId (numberData order r' ptrRequest.userId)) := by
  unfold onUnreadMsgRequest appendPeerMsg appendGroupMsg
  simp only [List.nil_append, List.length_append]
  split <;> rfl

/-- **A request with nothing in between.** -/
theorem completes_onUnreadMsgRequest : Completes (UnreadStage.next order conn ptrRequest nowtime)
    .lrange sv r (onUnreadMsgRequest order sv r conn ptrRequest nowtime) := by
  rw [onUnreadMsgRequest_eq]
  exact .next rfl (.next rfl (.next rfl (completes_pipeline _ _ _ _ (completes_set _ _))))

end Unread

end MutexIM.Routing
