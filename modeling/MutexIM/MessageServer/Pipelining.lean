import MutexIM.Foundations.Dialog
import MutexIM.MessageServer.Lists

/-!
# Handlers that pipeline

Four handlers append commands to the connection in one loop and fetch the replies in another. Here they
are dialogs, command by command, with each loop and its condition as it is written.

* `RedisCommand.exec` is the server. The replies come in the order of the commands.
* `endsInStep_handlers`: whatever Redis holds, each handler ends with no reply left, and each reply was
  fetched for the command it answers. So the handlers do what is said of them elsewhere.
-/

namespace MutexIM

open Bytes

/-- The commands of the handlers, with the arguments as they are sent. -/
inductive RedisCommand
  | lpush (key value : Bytes)
  | ltrim (key : Bytes) (start stop : ℤ)
  | sdiff (key key' : Bytes)
  | incr (key : Bytes)
  | sort (key pattern : Bytes)
  | lrange (key stop : Bytes)
  | set (key value : Bytes)
  | smembers (key : Bytes)
  | hgetall (key : Bytes)

namespace RedisCommand

/-- What the server does, and its reply; `sort k p` is `SORT k GET # GET p`, and `lrange k n` is
`LRANGE k 0 n`. -/
def exec (order : Keyspace.NumericOrder) (r : Redis) : RedisCommand → Redis × Reply
  | lpush key value => ({ r with keys := (r.keys.lpush key value).2 }, (r.keys.lpush key value).1)
  | ltrim key start stop =>
    ({ r with keys := (r.keys.ltrim key start stop).2 }, (r.keys.ltrim key start stop).1)
  | sdiff key key' => (r, r.keys.sdiff key key')
  | incr key => ({ r with keys := (r.keys.incr key).2 }, (r.keys.incr key).1)
  | sort key pattern => (r, r.keys.sortNumbers key order pattern)
  | lrange key stop =>
    (r, match Keyspace.integer stop with | some n => r.keys.lrange key 0 n | none => .error)
  | set key value => ({ r with keys := (r.keys.set key value).2 }, (r.keys.set key value).1)
  | smembers key => (r, r.keys.smembers key)
  | hgetall key => (r, r.keys.hgetall key)

end RedisCommand

namespace MessageServer

open Codec

/-- What is said to Redis. -/
abbrev RedisDialog := Dialog RedisCommand Reply

/-- `redisCommand` sends a command and waits for its reply. -/
abbrev redisCommand (c : RedisCommand) : RedisDialog Reply := .ask c

abbrev redisAppendCommand (c : RedisCommand) : RedisDialog PUnit := .issue c

abbrev redisGetReply : RedisDialog Reply := .fetch

namespace Pipelined

/-! ## The handlers -/

/-- `Server::doOfflineGroupMsg`. -/
def doOfflineGroupMsg (ptrMsg : MsgData) : RedisDialog PUnit := do
  let serializaStr := (ChatMsg.msgData ptrMsg).serialize
  let keyGroupMsgList := ascii "groupMsg:" ++ ptrMsg.toId
  let ptrReply ← redisCommand (.lpush (cstr keyGroupMsgList) serializaStr)
  (if ptrReply.number > 99 then do
    let _ ← redisCommand (.ltrim (cstr keyGroupMsgList) 0 99)
    pure ⟨⟩
  else pure ⟨⟩)
  let ptrReply ← redisCommand
    (.sdiff (cstr (ascii "groupMember:" ++ ptrMsg.toId)) (cstr (ascii "onlineGroup:" ++ ptrMsg.toId)))
  let vecRes := ptrReply.elements.map fun e => cstr e.bytes
  forM vecRes fun userId => redisAppendCommand (.incr (cstr (unreadNumber userId ptrMsg.toId)))
  forM (List.range vecRes.length) fun _ => do
    let _ ← redisGetReply
    pure ⟨⟩

/-- The elements of a reply are added to the response, and counted. -/
def addMessages (out : ℕ × UnreadMsgResponse) (ptrReply : Reply) : ℕ × UnreadMsgResponse :=
  if ptrReply.elements.length ≠ 0 then
    (out.1 + ptrReply.elements.length,
      { out.2 with msgData := out.2.msgData ++ ptrReply.elements.map Reply.bytes })
  else out

/-- The loops of `appendGroupMsg`: the lists of the groups that are not at zero are asked for, their
messages are added, and the counters are set to zero. -/
def appendGroups (userId : Bytes) (numberData : List (Bytes × Bytes)) (response : UnreadMsgResponse) :
    RedisDialog (ℕ × UnreadMsgResponse) := do
  forM numberData fun e =>
    if e.2 ≠ ascii "0" then
      redisAppendCommand (.lrange (cstr (ascii "groupMsg:" ++ e.1)) (cstr e.2))
    else pure ⟨⟩
  let out ← numberData.foldlM (fun out e =>
    if e.2 ≠ ascii "0" then do
      let ptrReply ← redisGetReply
      pure (addMessages out ptrReply)
    else pure out) (0, response)
  forM numberData fun e =>
    if e.2 ≠ ascii "0" then do
      let _ ← redisCommand (.set (cstr (unreadNumber userId e.1)) (cstr (ascii "0")))
      pure ⟨⟩
    else pure ⟨⟩
  pure out

/-- `Server::appendGroupMsg`: the number of messages, and the response with them. -/
def appendGroupMsg (ptrRequest : UnreadMsgRequest) (response : UnreadMsgResponse) :
    RedisDialog (ℕ × UnreadMsgResponse) := do
  let ptrReply ← redisCommand (.sort (cstr (ascii "groupSet:" ++ ptrRequest.userId))
    (cstr (unreadNumber ptrRequest.userId (ascii "*"))))
  let numberData := (Reply.pairs ptrReply.elements).map fun e => (e.1.bytes, e.2.bytes)
  appendGroups ptrRequest.userId numberData response

/-- The loops of `onAllUsersInfoRequest` and `onAllGroupRequest`: the entries for the ids. -/
def entries {α : Type} (setField : α → Bytes → Bytes → α) (new : α) (keyName : Bytes)
    (ids : List Bytes) : RedisDialog (List α) := do
  forM ids fun x => redisAppendCommand (.hgetall (cstr (keyName ++ x)))
  (List.range ids.length).foldlM (fun msgData _ => do
    let ptrReply ← redisGetReply
    pure (msgData ++ (entryOf setField new ptrReply).toList)) []

/-- `Server::onAllUsersInfoRequest`. -/
def onAllUsersInfoRequest (ptrRequest : PeerAllUserInfoRequest) (nowtime : UInt64) :
    RedisDialog (Outcome PeerAllUserInfoResponse) := do
  let ptrReply ← redisCommand (.smembers (cstr (ascii "friendsSet:" ++ ptrRequest.userId)))
  let vecFriends := ptrReply.elements.map Reply.bytes
  if vecFriends.length ≠ 0 then do
    let msgData ← entries UserData.setField {} (ascii "user:") vecFriends
    pure (.sent
      { msgData := msgData
        friendsCount := UInt32.ofNat vecFriends.length
        userId := ptrRequest.userId
        timestamp := nowtime })
  else pure .silent

/-- `Server::onAllGroupRequest`. -/
def onAllGroupRequest (ptrRequest : GroupAllRequest) (nowtime : UInt64) :
    RedisDialog (Outcome GroupAllResponse) := do
  let ptrReply ← redisCommand (.smembers (cstr (ascii "groupSet:" ++ ptrRequest.userId)))
  let vecGroups := ptrReply.elements.map Reply.bytes
  if vecGroups.length ≠ 0 then do
    let msgData ← entries GroupInfo.setField {} (ascii "group:") vecGroups
    let response : GroupAllResponse :=
      { msgData := msgData
        groupCount := UInt32.ofNat vecGroups.length
        userId := ptrRequest.userId
        timestamp := nowtime }
    pure (if 1 < response.msgData.length then .sent response else .undefined)
  else pure .silent

/-! ## What they do -/

section Yields

open Dialog

variable {order : Keyspace.NumericOrder} {r : Redis}

theorem yields_doOfflineGroupMsg (ptrMsg : MsgData) :
    Yields (RedisCommand.exec order) (doOfflineGroupMsg ptrMsg) (r, []) ⟨⟩
      (MessageServer.doOfflineGroupMsg r ptrMsg, []) := by
  refine .bind .ask (.bind (?_ : Yields _ _ _ ⟨⟩ (pushGroupMsg r ptrMsg, [])) ?_)
  · have hlen : (RedisCommand.exec order r (.lpush (cstr (ascii "groupMsg:" ++ ptrMsg.toId))
        (ChatMsg.msgData ptrMsg).serialize)).2.number = (CRedis.lpush r
          (ascii "groupMsg:" ++ ptrMsg.toId) (ChatMsg.msgData ptrMsg).serialize).1 := rfl
    rw [pushGroupMsg_eq, CRedis.lpushKeep_eq, ← hlen]
    by_cases hlong : (RedisCommand.exec order r (.lpush (cstr (ascii "groupMsg:" ++ ptrMsg.toId))
        (ChatMsg.msgData ptrMsg).serialize)).2.number > 99
    · rw [if_pos hlong, if_pos hlong]
      exact .bind .ask (.pure _)
    · rw [if_neg hlong, if_neg hlong]
      exact .pure _
  · refine .bind .ask (.bind (Yields.forM_issue_all _ _) ?_)
    rw [fst_execAll, List.foldl_map]
    exact Yields.forM_fetch _ (by rw [List.nil_append, length_execAll, List.length_map, List.length_range])

/-- Fields are read, and added in order. -/
theorem yields_entries {α : Type} (setField : α → Bytes → Bytes → α) (new : α) (keyName : Bytes)
    (ids : List Bytes) : Yields (RedisCommand.exec order) (entries setField new keyName ids) (r, [])
      (entriesOf setField new r keyName ids) (r, []) := by
  have hreads : ∀ c ∈ ids.map fun x => RedisCommand.hgetall (cstr (keyName ++ x)),
      (RedisCommand.exec order r c).1 = r := by
    intro c hc
    obtain ⟨x, -, rfl⟩ := List.mem_map.1 hc
    rfl
  refine .bind (Yields.forM_issue_all _ _) ?_
  rw [execAll_of_reads hreads, List.map_map]
  have hfold : entriesOf setField new r keyName ids =
      (ids.map fun x => CRedis.hgetallReply r (keyName ++ x)).foldl
        (fun msgData ptrReply => msgData ++ (entryOf setField new ptrReply).toList) [] := by
    rw [List.foldl_append_eq_append, List.nil_append, entriesOf, List.filterMap_eq_flatMap_toList,
      List.flatMap_def]
  rw [hfold]
  exact Yields.foldlM_fetch_all _ _ (by rw [List.nil_append, List.length_map, List.length_range])

theorem foldl_addMessages (replies : List Reply) (out : ℕ × UnreadMsgResponse) :
    replies.foldl addMessages out =
      (out.1 + (replies.flatMap fun ptrReply => ptrReply.elements.map Reply.bytes).length,
        { out.2 with msgData :=
          out.2.msgData ++ replies.flatMap fun ptrReply => ptrReply.elements.map Reply.bytes }) := by
  induction replies generalizing out with
  | nil => simp
  | cons ptrReply replies ih =>
    have hone : addMessages out ptrReply =
        (out.1 + ptrReply.elements.length,
          { out.2 with msgData := out.2.msgData ++ ptrReply.elements.map Reply.bytes }) := by
      unfold addMessages
      split
      · rfl
      · next hnone =>
        rw [not_not, List.length_eq_zero_iff] at hnone
        rw [hnone, List.map_nil, List.append_nil]
        rfl
    rw [List.foldl_cons, ih, hone, List.flatMap_cons, List.length_append, List.length_map, Nat.add_assoc,
      List.append_assoc]

/-- The messages of the groups that are not at zero. -/
theorem yields_appendGroups (userId : Bytes) (numberData : List (Bytes × Bytes))
    (response : UnreadMsgResponse) :
    Yields (RedisCommand.exec order) (appendGroups userId numberData response) (r, [])
      (((numberData.filter fun e => e.2 ≠ ascii "0").map fun e =>
        CRedis.lrangeNumber r (ascii "groupMsg:" ++ e.1) e.2).foldl addMessages (0, response))
      (resetNumbers r userId numberData, []) := by
  set selected := numberData.filter fun e => e.2 ≠ ascii "0" with hselected
  have hreads : ∀ c ∈ selected.map fun e =>
      RedisCommand.lrange (cstr (ascii "groupMsg:" ++ e.1)) (cstr e.2),
      (RedisCommand.exec order r c).1 = r := by
    intro c hc
    obtain ⟨x, -, rfl⟩ := List.mem_map.1 hc
    rfl
  refine .bind (Yields.forM_issue _ _ numberData) ?_
  rw [← hselected, execAll_of_reads hreads, List.map_map]
  refine .bind (Yields.foldlM_fetch _ (fun out _ ptrReply => addMessages out ptrReply)
    numberData (by rw [List.nil_append, List.length_map])) ?_
  refine .bind (Yields.forM_ask _ _ numberData) ?_
  have hreset : (execAll (RedisCommand.exec order) r ((numberData.filter fun e => e.2 ≠ ascii "0").map
      fun e => .set (cstr (unreadNumber userId e.1)) (cstr (ascii "0")))).1 =
        resetNumbers r userId numberData := by
    rw [fst_execAll, List.foldl_map, List.foldl_filter, resetNumbers]
    simp only [decide_eq_true_eq]
    rfl
  rw [hreset, List.nil_append, Yields.foldl_zip_snd (by rw [List.length_map])]
  exact .pure _

theorem yields_appendGroupMsg (ptrRequest : UnreadMsgRequest) (response : UnreadMsgResponse) :
    Yields (RedisCommand.exec order) (appendGroupMsg ptrRequest response) (r, [])
      ((MessageServer.appendGroupMsg order r ptrRequest response).1,
        (MessageServer.appendGroupMsg order r ptrRequest response).2.1)
      ((MessageServer.appendGroupMsg order r ptrRequest response).2.2, []) := by
  have hgroups : Yields (RedisCommand.exec order) _ (r, []) _ _ :=
    yields_appendGroups ptrRequest.userId (numberData order r ptrRequest.userId) response
  have hvalue : (((numberData order r ptrRequest.userId).filter fun e => e.2 ≠ ascii "0").map fun e =>
      CRedis.lrangeNumber r (ascii "groupMsg:" ++ e.1) e.2).foldl addMessages (0, response) =
        ((MessageServer.appendGroupMsg order r ptrRequest response).1,
          (MessageServer.appendGroupMsg order r ptrRequest response).2.1) := by
    rw [foldl_addMessages, Nat.zero_add, List.flatMap_map, MessageServer.appendGroupMsg,
      unreadGroups_eq, List.flatMap_map]
  rw [hvalue] at hgroups
  exact .bind .ask hgroups

theorem yields_onAllUsersInfoRequest (ptrRequest : PeerAllUserInfoRequest) (nowtime : UInt64) :
    Yields (RedisCommand.exec order) (onAllUsersInfoRequest ptrRequest nowtime) (r, [])
      (MessageServer.onAllUsersInfoRequest r ptrRequest nowtime) (r, []) :=
  .bind .ask (.ite (fun _ => .bind (yields_entries _ _ _ _) (.pure _)) fun _ => .pure _)

theorem yields_onAllGroupRequest (ptrRequest : GroupAllRequest) (nowtime : UInt64) :
    Yields (RedisCommand.exec order) (onAllGroupRequest ptrRequest nowtime) (r, [])
      (MessageServer.onAllGroupRequest r ptrRequest nowtime) (r, []) :=
  .bind .ask (.ite (fun _ => .bind (yields_entries _ _ _ _) (.pure _)) fun _ => .pure _)

end Yields

/-! ## No reply slips -/

/-- On a connection without pending replies, where commands are held back until a reply is waited for,
the handler ends with the value and again without pending replies. Each reply was fetched for the
command appended in its place, and each command that was waited for got its own. -/
def EndsInStep {α : Type} (order : Keyspace.NumericOrder) (x : RedisDialog α) (r : Redis) (a : α)
    (r' : Redis) : Prop :=
  ∃ l : Log, l.InStep ∧ x.run (Dialog.later (Dialog.numbered (RedisCommand.exec order)))
    ((r, Pipeline.empty), Log.empty) = some (a, (r', Pipeline.empty), l)

/-- **Replies stay in step with commands**, whatever Redis holds and whatever is asked. The handlers end
with what comes of one command after the other. -/
theorem endsInStep_handlers (order : Keyspace.NumericOrder) (r : Redis) :
    (∀ ptrMsg, EndsInStep order (doOfflineGroupMsg ptrMsg) r ⟨⟩
      (MessageServer.doOfflineGroupMsg r ptrMsg)) ∧
    (∀ ptrRequest response, EndsInStep order (appendGroupMsg ptrRequest response) r
      ((MessageServer.appendGroupMsg order r ptrRequest response).1,
        (MessageServer.appendGroupMsg order r ptrRequest response).2.1)
      (MessageServer.appendGroupMsg order r ptrRequest response).2.2) ∧
    (∀ ptrRequest nowtime, EndsInStep order (onAllUsersInfoRequest ptrRequest nowtime) r
      (MessageServer.onAllUsersInfoRequest r ptrRequest nowtime) r) ∧
    ∀ ptrRequest nowtime, EndsInStep order (onAllGroupRequest ptrRequest nowtime) r
      (MessageServer.onAllGroupRequest r ptrRequest nowtime) r :=
  ⟨fun ptrMsg => (yields_doOfflineGroupMsg ptrMsg).inStep,
    fun ptrRequest response => (yields_appendGroupMsg ptrRequest response).inStep,
    fun ptrRequest nowtime => (yields_onAllUsersInfoRequest ptrRequest nowtime).inStep,
    fun ptrRequest nowtime => (yields_onAllGroupRequest ptrRequest nowtime).inStep⟩

end Pipelined

end MessageServer

end MutexIM
