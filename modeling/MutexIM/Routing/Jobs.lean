import MutexIM.Foundations.Loop
import MutexIM.MessageServer.ListMessages
import MutexIM.Routing.Exchange
import MutexIM.Routing.GroupChannels
import MutexIM.Routing.GroupPaths

/-!
# All the work of a message server, command by command

The thread of a message server has one handler to do at a time, and the Redis commands of other servers come
in between any two of the handler's.

* `ListStage` is what is left of a handler that reads a set and then the hash of each member;
  `loop_users`, `loop_groups`: with nothing in between this is what the handlers of `Lists` do.
* `Job.next`: the work up to the next command, that command, what is left then, and the list that is sent.
* `Job.turn`: what a step of any handler sends and publishes, and which session it registers;
  `subscribePeerMsg_turn`, `subscribeGroupMsg_turn`: what the subscriber sends.
-/

namespace MutexIM.Routing

open Bytes Codec MessageServer

/-! ## Lists -/

/-- What is left of `onAllUsersInfoRequest` or `onAllGroupRequest`: the members of the set are to be read, or
the hashes of some of them, behind those that make up `msgData`. -/
inductive ListStage (α : Type)
  | smembers
  | hgetall (ids left : List Bytes) (msgData : List α)

/-- The next command; at the end, the ids and the entries. -/
def ListStage.next {α : Type} (setName keyName : Bytes) (setField : α → Bytes → Bytes → α) (new : α)
    (r : Redis) : ListStage α → ListStage α ⊕ (List Bytes × List α)
  | .smembers => .inl (.hgetall (CRedis.smembers r setName) (CRedis.smembers r setName) [])
  | .hgetall ids (x :: left) msgData => .inl (.hgetall ids left
      (msgData ++ (entryOf setField new (CRedis.hgetallReply r (keyName ++ x))).toList))
  | .hgetall ids [] msgData => .inr (ids, msgData)

/-- What is left of a handler, with the connection of its message. -/
inductive Job
  | task (t : Task)
  | group (ptrMsg : MsgData) (stage : GroupStage)
  | unread (t : UnreadTask)
  | users (conn : ℕ) (ptrRequest : PeerAllUserInfoRequest) (nowtime : UInt64) (stage : ListStage UserData)
  | groups (conn : ℕ) (ptrRequest : GroupAllRequest) (nowtime : UInt64) (stage : ListStage GroupInfo)
  | members (conn : ℕ) (ptrRequest : GroupMembeRequest) (nowtime : UInt64)

/-- The stages of the handlers of `PeerAllUserInfoRequest` and `GroupAllRequest`. -/
def usersNext (r : Redis) (userId : Bytes) :
    ListStage UserData → ListStage UserData ⊕ (List Bytes × List UserData) :=
  ListStage.next (ascii "friendsSet:" ++ userId) (ascii "user:") UserData.setField {} r

def groupsNext (r : Redis) (userId : Bytes) :
    ListStage GroupInfo → ListStage GroupInfo ⊕ (List Bytes × List GroupInfo) :=
  ListStage.next (ascii "groupSet:" ++ userId) (ascii "group:") GroupInfo.setField {} r

/-- The message that a handler answers with, for the ids and the entries. -/
def usersResponse (ptrRequest : PeerAllUserInfoRequest) (nowtime : UInt64) (ids : List Bytes)
    (msgData : List UserData) : PeerAllUserInfoResponse :=
  { msgData := msgData, friendsCount := UInt32.ofNat ids.length, userId := ptrRequest.userId
    timestamp := nowtime }

def groupsResponse (ptrRequest : GroupAllRequest) (nowtime : UInt64) (ids : List Bytes)
    (msgData : List GroupInfo) : GroupAllResponse :=
  { msgData := msgData, groupCount := UInt32.ofNat ids.length, userId := ptrRequest.userId
    timestamp := nowtime }

/-- `ProtobufCodec::Send` of a list on a connection. -/
def answer (sv : Server) (conn : ℕ) (m : IMMsg) : List (ℕ × IMMsg) :=
  if (sv.manager.sessions conn).isConnected then [(conn, m)] else []

/-- The messages for other servers can be serialised. -/
def Serializable (L : Layout Bytes Bytes) (sv : Server) (ptrMsg : MsgData) (vecStr : List (Bytes × Bytes)) :
    Prop :=
  ∀ i ∈ List.range L.bucketCount, L.elements (remoteMembers sv vecStr) i ≠ [] → (ChatMsg.serverGroupMsg
    ⟨(L.elements (remoteMembers sv vecStr) i).map Prod.snd, (ChatMsg.msgData ptrMsg).serialize⟩).Fits

instance (L : Layout Bytes Bytes) (sv : Server) (ptrMsg : MsgData) (vecStr : List (Bytes × Bytes)) :
    Decidable (Serializable L sv ptrMsg vecStr) := by
  unfold Serializable
  infer_instance

section Next

variable (L : Layout Bytes Bytes) (order : Keyspace.NumericOrder) (sv : Server) (r : Redis)

/-- The next step of a handler; `none` where it is undefined, or where a message for another server cannot
be serialised. -/
def Job.next : Job → Option (Option Job × Server × Redis × List (ℕ × IMMsg))
  | .task t => (t.next sv r).map fun (t, sv, r) => (t.map .task, sv, r, [])
  | .group ptrMsg stage =>
    match stage with
    | .sort =>
      if Serializable L sv ptrMsg (CRedis.sortMultiSocket r (ascii "onlineGroup:" ++ ptrMsg.toId)) then
        let (stage, sv, r) := GroupStage.next L ptrMsg sv r .sort
        some (stage.map (.group ptrMsg), sv, r, [])
      else none
    | stage =>
      let (stage, sv, r) := GroupStage.next L ptrMsg sv r stage
      some (stage.map (.group ptrMsg), sv, r, [])
  | .unread t =>
    let (stage, sv, r) := t.stage.next order t.conn t.ptrRequest t.nowtime sv r
    some (stage.map fun stage => .unread { t with stage := stage }, sv, r, [])
  | .users conn ptrRequest nowtime stage =>
    match usersNext r ptrRequest.userId stage with
    | .inl stage => some (some (.users conn ptrRequest nowtime stage), sv, r, [])
    | .inr (ids, msgData) => some (none, sv, r,
        if ids.length ≠ 0 then
          answer sv conn ⟨.peerAllUserInfoResponse, usersResponse ptrRequest nowtime ids msgData⟩
        else [])
  | .groups conn ptrRequest nowtime stage =>
    match groupsNext r ptrRequest.userId stage with
    | .inl stage => some (some (.groups conn ptrRequest nowtime stage), sv, r, [])
    | .inr (ids, msgData) =>
      if ids.length ≠ 0 then
        -- the second entry is read before the response is sent
        if 1 < msgData.length then some (none, sv, r,
          answer sv conn ⟨.groupAllResponse, groupsResponse ptrRequest nowtime ids msgData⟩)
        else none
      else some (none, sv, r, [])
  | .members conn ptrRequest nowtime =>
    match onGroupMemberRequest order r ptrRequest nowtime with
    | .sent response => some (none, sv, r, answer sv conn ⟨.groupMemberResponse, response⟩)
    | .silent => some (none, sv, r, [])
    | .undefined => none

end Next

/-- A message for a user, and one for a group. -/
def PeerMsg (m : MsgData) : Prop := m.type = chatText ∨ m.type = chatAudio

def GroupMsg (m : MsgData) : Prop := m.type = groupchatText ∨ m.type = groupchatAudio

instance (m : MsgData) : Decidable (PeerMsg m) := inferInstanceAs (Decidable (_ ∨ _))

instance (m : MsgData) : Decidable (GroupMsg m) := inferInstanceAs (Decidable (_ ∨ _))

theorem not_peerMsg_of_groupMsg {m : MsgData} (h : GroupMsg m) : ¬PeerMsg m := by
  rcases h with h | h <;> rw [PeerMsg, h] <;> decide

/-- The handler of a message that comes in on a connection; other messages have none. -/
def Job.forMessage (conn : ℕ) (nowtime : UInt64) : IMMsg → Option Job
  | ⟨.chat .shakeHandleReq, request⟩ => some (.task (.shake conn request nowtime .hgetAll))
  | ⟨.chat .msgData, (ptrMsg : MsgData)⟩ =>
    if PeerMsg ptrMsg then some (.task (.peer ptrMsg .find))
    else if GroupMsg ptrMsg then some (.group ptrMsg .sort)
    else none
  | ⟨.chat .unreadMsgRequest, ptrRequest⟩ => some (.unread ⟨conn, ptrRequest, nowtime, .lrange⟩)
  | ⟨.peerAllUserInfoRequest, ptrRequest⟩ => some (.users conn ptrRequest nowtime .smembers)
  | ⟨.groupAllRequest, ptrRequest⟩ => some (.groups conn ptrRequest nowtime .smembers)
  | ⟨.groupMembeRequest, ptrRequest⟩ => some (.members conn ptrRequest nowtime)
  | _ => none

/-- The handler holds `m_mutex`; a group message does not between its two parts. -/
def Job.locks : Job → Bool
  | .task t => t.locks
  | .group _ .lpush => false
  | _ => true

/-! ## With nothing in between -/

section Loop

variable {α : Type} {setName keyName : Bytes} {setField : α → Bytes → Bytes → α} {new : α} {r : Redis}

theorem loop_hgetall (ids left : List Bytes) (msgData : List α) :
    loop (ListStage.next setName keyName setField new r) (left.length + 1) (.hgetall ids left msgData) =
      some (ids, msgData ++ entriesOf setField new r keyName left) := by
  induction left generalizing msgData with
  | nil =>
    rw [entriesOf, List.map_nil, List.filterMap_nil, List.append_nil]
    exact loop_succ_of_inr rfl 0
  | cons x left ih =>
    have hturn : ListStage.next setName keyName setField new r (.hgetall ids (x :: left) msgData) =
        .inl (.hgetall ids left
          (msgData ++ (entryOf setField new (CRedis.hgetallReply r (keyName ++ x))).toList)) := rfl
    rw [List.length_cons, loop_succ_of_inl hturn, ih, List.append_assoc]
    have hentry : (entryOf setField new (CRedis.hgetallReply r (keyName ++ x))).toList ++
        entriesOf setField new r keyName left = entriesOf setField new r keyName (x :: left) := by
      rw [entriesOf, entriesOf, List.map_cons, List.filterMap_cons]
      cases entryOf setField new (CRedis.hgetallReply r (keyName ++ x)) <;> rfl
    rw [hentry]

/-- The members of the set, and an entry for each of them that has a hash. -/
theorem loop_smembers :
    loop (ListStage.next setName keyName setField new r) ((CRedis.smembers r setName).length + 2) .smembers =
      some (CRedis.smembers r setName, entriesOf setField new r keyName (CRedis.smembers r setName)) := by
  have hturn : ListStage.next setName keyName setField new r .smembers =
      .inl (.hgetall (CRedis.smembers r setName) (CRedis.smembers r setName) []) := rfl
  rw [loop_succ_of_inl hturn, loop_hgetall, List.nil_append]

/-- **A request for friends with nothing in between.** -/
theorem loop_users (r : Redis) (ptrRequest : PeerAllUserInfoRequest) (nowtime : UInt64) :
    ∃ fuel ids msgData, loop (usersNext r ptrRequest.userId) fuel .smembers = some (ids, msgData) ∧
      onAllUsersInfoRequest r ptrRequest nowtime =
        if ids.length ≠ 0 then .sent (usersResponse ptrRequest nowtime ids msgData) else .silent :=
  ⟨_, _, _, loop_smembers, rfl⟩

/-- **A request for groups with nothing in between.** -/
theorem loop_groups (r : Redis) (ptrRequest : GroupAllRequest) (nowtime : UInt64) :
    ∃ fuel ids msgData, loop (groupsNext r ptrRequest.userId) fuel .smembers = some (ids, msgData) ∧
      onAllGroupRequest r ptrRequest nowtime =
        if ids.length ≠ 0 then
          if 1 < msgData.length then .sent (groupsResponse ptrRequest nowtime ids msgData) else .undefined
        else .silent :=
  ⟨_, _, _, loop_smembers, rfl⟩

end Loop

/-! ## The steps of a handler -/

section Steps

variable {L : Layout Bytes Bytes} {order : Keyspace.NumericOrder} {sv sv' : Server} {r r' : Redis}
  {t' : Option Job} {answers : List (ℕ × IMMsg)}

/-- `answer` sends on its connection only. -/
theorem of_mem_answer {conn : ℕ} {m : IMMsg} {a : ℕ × IMMsg} (h : a ∈ answer sv conn m) : a = (conn, m) := by
  unfold answer at h
  split at h
  · exact List.mem_singleton.1 h
  · cases h

theorem Job.next_task {t : Task} (h : (Job.task t).next L order sv r = some (t', sv', r', answers)) :
    ∃ t₁, t.next sv r = some (t₁, sv', r') ∧ t' = t₁.map .task ∧ answers = [] := by
  obtain ⟨⟨t₁, sv₁, r₁⟩, hnext, heq⟩ := Option.map_eq_some_iff.1 h
  obtain ⟨rfl, rfl, rfl, rfl⟩ := heq
  exact ⟨t₁, hnext, rfl, rfl⟩

theorem Job.next_group {ptrMsg : MsgData} {stage : GroupStage}
    (h : (Job.group ptrMsg stage).next L order sv r = some (t', sv', r', answers)) :
    ∃ stage', stage.next L ptrMsg sv r = (stage', sv', r') ∧ t' = stage'.map (.group ptrMsg) ∧
      answers = [] ∧ (stage = .sort →
        Serializable L sv ptrMsg (CRedis.sortMultiSocket r (ascii "onlineGroup:" ++ ptrMsg.toId))) := by
  cases stage with
  | sort =>
    simp only [Job.next] at h
    split at h
    · next hfits =>
      obtain ⟨rfl, rfl, rfl, rfl⟩ := Option.some.inj h
      exact ⟨_, rfl, rfl, rfl, fun _ => hfits⟩
    · cases h
  | _ =>
    obtain ⟨rfl, rfl, rfl, rfl⟩ := Option.some.inj h
    exact ⟨_, rfl, rfl, rfl, fun hstage => by cases hstage⟩

theorem Job.next_unread {t : UnreadTask}
    (h : (Job.unread t).next L order sv r = some (t', sv', r', answers)) :
    ∃ stage', t.stage.next order t.conn t.ptrRequest t.nowtime sv r = (stage', sv', r') ∧
      t' = stage'.map (fun stage => .unread { t with stage := stage }) ∧ answers = [] := by
  obtain ⟨rfl, rfl, rfl, rfl⟩ := Option.some.inj h
  exact ⟨_, rfl, rfl, rfl⟩

/-- A handler of a list changes nothing, and sends at its end at most. -/
theorem Job.next_users {conn : ℕ} {ptrRequest : PeerAllUserInfoRequest} {nowtime : UInt64}
    {stage : ListStage UserData}
    (h : (Job.users conn ptrRequest nowtime stage).next L order sv r = some (t', sv', r', answers)) :
    sv' = sv ∧ r' = r ∧
      ((∃ stage', usersNext r ptrRequest.userId stage = .inl stage' ∧
          t' = some (.users conn ptrRequest nowtime stage') ∧ answers = []) ∨
        ∃ ids msgData, usersNext r ptrRequest.userId stage = .inr (ids, msgData) ∧ t' = none ∧
          ∀ a ∈ answers,
            a = (conn, ⟨.peerAllUserInfoResponse, usersResponse ptrRequest nowtime ids msgData⟩)) := by
  simp only [Job.next] at h
  split at h
  · next stage' hstage =>
    obtain ⟨rfl, rfl, rfl, rfl⟩ := Option.some.inj h
    exact ⟨rfl, rfl, .inl ⟨stage', hstage, rfl, rfl⟩⟩
  · next ids msgData hstage =>
    obtain ⟨rfl, rfl, rfl, rfl⟩ := Option.some.inj h
    refine ⟨rfl, rfl, .inr ⟨ids, msgData, hstage, rfl, fun a ha => ?_⟩⟩
    split at ha
    · exact of_mem_answer ha
    · cases ha

theorem Job.next_groups {conn : ℕ} {ptrRequest : GroupAllRequest} {nowtime : UInt64}
    {stage : ListStage GroupInfo}
    (h : (Job.groups conn ptrRequest nowtime stage).next L order sv r = some (t', sv', r', answers)) :
    sv' = sv ∧ r' = r ∧
      ((∃ stage', groupsNext r ptrRequest.userId stage = .inl stage' ∧
          t' = some (.groups conn ptrRequest nowtime stage') ∧ answers = []) ∨
        ∃ ids msgData, groupsNext r ptrRequest.userId stage = .inr (ids, msgData) ∧ t' = none ∧
          ∀ a ∈ answers,
            a = (conn, ⟨.groupAllResponse, groupsResponse ptrRequest nowtime ids msgData⟩)) := by
  simp only [Job.next] at h
  split at h
  · next stage' hstage =>
    obtain ⟨rfl, rfl, rfl, rfl⟩ := Option.some.inj h
    exact ⟨rfl, rfl, .inl ⟨stage', hstage, rfl, rfl⟩⟩
  · next ids msgData hstage =>
    split at h
    · split at h
      · obtain ⟨rfl, rfl, rfl, rfl⟩ := Option.some.inj h
        exact ⟨rfl, rfl, .inr ⟨ids, msgData, hstage, rfl, fun a ha => of_mem_answer ha⟩⟩
      · cases h
    · obtain ⟨rfl, rfl, rfl, rfl⟩ := Option.some.inj h
      exact ⟨rfl, rfl, .inr ⟨ids, msgData, hstage, rfl, List.forall_mem_nil _⟩⟩

theorem Job.next_members {conn : ℕ} {ptrRequest : GroupMembeRequest} {nowtime : UInt64}
    (h : (Job.members conn ptrRequest nowtime).next L order sv r = some (t', sv', r', answers)) :
    sv' = sv ∧ r' = r ∧ t' = none ∧ ∀ a ∈ answers, ∃ response,
      onGroupMemberRequest order r ptrRequest nowtime = .sent response ∧
        a = (conn, ⟨.groupMemberResponse, response⟩) := by
  simp only [Job.next] at h
  split at h
  · next response hresponse =>
    obtain ⟨rfl, rfl, rfl, rfl⟩ := Option.some.inj h
    exact ⟨rfl, rfl, rfl, fun a ha => ⟨response, hresponse, of_mem_answer ha⟩⟩
  · obtain ⟨rfl, rfl, rfl, rfl⟩ := Option.some.inj h
    exact ⟨rfl, rfl, rfl, List.forall_mem_nil _⟩
  · cases h

end Steps

/-! ## What the steps put out -/

namespace Job

/-- The sessions that the next step registers. -/
def registered (sv : Server) : Job → List (ℕ × Bytes)
  | .task t => t.registered sv
  | _ => []

/-- The chat messages and answers that the next step sends on a session. -/
def puts (sv : Server) (r : Redis) : Job → ℕ → List ChatMsg
  | .task (.peer ptrMsg .find), s =>
    if sv.manager.findUser ptrMsg.toId = some s ∧ (sv.manager.sessions s).isConnected then
      [.msgData ptrMsg]
    else []
  | .task (.shake conn _ nowtime .send), s =>
    if s = conn ∧ (sv.manager.sessions s).isConnected then [.shakeHandleRes ⟨nowtime, 0⟩] else []
  | .group ptrMsg .sort, s =>
    List.replicate ((localMembers sv ptrMsg.fromId
      (CRedis.sortMultiSocket r (ascii "onlineGroup:" ++ ptrMsg.toId))).countP fun u =>
        sv.manager.findUser u = some s ∧ (sv.manager.sessions s).isConnected) (.msgData ptrMsg)
  | .unread ⟨conn, ptrRequest, nowtime, .set msgData []⟩, s =>
    if msgData.length ≥ 1 ∧ s = conn ∧ (sv.manager.sessions s).isConnected then
      [.unreadMsgResponse ⟨UInt32.ofNat msgData.length, nowtime, ptrRequest.userId, msgData⟩]
    else []
  | _, _ => []

/-- What the next step publishes. -/
def publishes (sv : Server) : Job → List (Bytes × Bytes)
  | .task (.peer ptrMsg (.publish serverSocket)) =>
    [(cstr (ascii "peerMsg:" ++ serverSocket), (ChatMsg.msgData ptrMsg).serialize)]
  | .task (.shake _ request _ (.sadd [])) => [(ascii "online", request.userId)]
  | .task (.stop s (.srem [])) => [(ascii "offline", (sv.manager.sessions s).userId)]
  | .group _ (.publish (e :: _)) => [e]
  | _ => []

end Job

/-- What a step does to the server and to what is published. -/
structure Turn (sv : Server) (r : Redis) (sv' : Server) (r' : Redis) (registered : List (ℕ × Bytes))
    (puts : ℕ → List ChatMsg) (publishes : List (Bytes × Bytes)) : Prop where
  socket : sv'.strServerSocket = sv.strServerSocket
  users : ∀ u s, sv'.manager.findUser u = some s →
    sv.manager.findUser u = some s ∨ (s, u) ∈ registered
  sent : ∀ s, (sv'.manager.sessions s).sent = (sv.manager.sessions s).sent ++ puts s
  published : r'.published = r.published ++ publishes

namespace Turn

variable {sv sv' : Server} {r r' : Redis} {registered : List (ℕ × Bytes)}
  {puts : ℕ → List ChatMsg} {publishes : List (Bytes × Bytes)}

/-- A step that only uses Redis. -/
theorem of_redis (hputs : ∀ s, puts s = []) (h : r'.published = r.published ++ publishes) :
    Turn sv r sv r' registered puts publishes :=
  ⟨rfl, fun _ _ hu => .inl hu, fun s => by rw [hputs, List.append_nil], h⟩

/-- A step that only uses the sessions. -/
theorem of_manager {c : ConnectionManager} (hpublishes : publishes = [])
    (husers : ∀ u s, c.findUser u = some s → sv.manager.findUser u = some s ∨ (s, u) ∈ registered)
    (hsent : ∀ s, (c.sessions s).sent = (sv.manager.sessions s).sent ++ puts s) :
    Turn sv r { sv with manager := c } r registered puts publishes :=
  ⟨rfl, husers, hsent, by rw [hpublishes, List.append_nil]⟩

end Turn

section Turns

variable {L : Layout Bytes Bytes} {order : Keyspace.NumericOrder} {sv sv' : Server} {r r' : Redis}
  {t' : Option Job} {answers : List (ℕ × IMMsg)}

theorem PeerStage.turn {ptrMsg : MsgData} {stage : PeerStage} {stage' : Option PeerStage}
    (h : stage.next sv r ptrMsg = (stage', sv', r')) :
    Turn sv r sv' r' [] (Job.puts sv r (.task (.peer ptrMsg stage)))
      (Job.publishes sv (.task (.peer ptrMsg stage))) := by
  cases stage with
  | find =>
    cases hfind : sv.manager.findUser ptrMsg.toId with
    | some conn =>
      rw [PeerStage.next, hfind] at h
      obtain ⟨-, rfl, rfl⟩ := h
      refine .of_manager rfl (fun u s hu => .inl hu) fun s => ?_
      rw [ConnectionManager.sent_send, Job.puts, hfind]
      simp only [Option.some.injEq, eq_comm]
    | none =>
      rw [PeerStage.next, hfind] at h
      obtain ⟨-, rfl, rfl⟩ := h
      refine .of_redis (fun s => ?_) (List.append_nil _).symm
      rw [Job.puts, hfind]
      exact if_neg fun hs => by cases hs.1
  | publish serverSocket =>
    obtain ⟨-, rfl, rfl⟩ := h
    exact .of_redis (fun s => rfl) rfl
  | _ =>
    obtain ⟨-, rfl, rfl⟩ := h
    exact .of_redis (fun s => rfl) (List.append_nil _).symm

theorem ShakeStage.turn {conn : ℕ} {request : ShakeHandleReq} {nowtime : UInt64} {stage : ShakeStage}
    {stage' : Option ShakeStage} (h : stage.next sv r conn request nowtime = (stage', sv', r')) :
    Turn sv r sv' r' (Task.registered sv (.shake conn request nowtime stage))
      (Job.puts sv r (.task (.shake conn request nowtime stage)))
      (Job.publishes sv (.task (.shake conn request nowtime stage))) := by
  cases stage with
  | bind sessionid =>
    have heffect := (ShakeStage.effect nowtime h).sessionMap
    obtain ⟨-, rfl, rfl⟩ := h
    refine .of_manager rfl heffect fun s => ?_
    rw [ConnectionManager.apply_bindUser TcpSession.sent fun _ _ _ => rfl]
    exact (List.append_nil _).symm
  | send =>
    obtain ⟨-, rfl, rfl⟩ := h
    exact .of_manager rfl (fun u s hu => .inl hu) fun s => ConnectionManager.sent_send _
  | sadd vecStr =>
    cases vecStr with
    | nil =>
      obtain ⟨-, rfl, rfl⟩ := h
      exact .of_redis (fun s => rfl) rfl
    | cons g vecStr =>
      obtain ⟨-, rfl, rfl⟩ := h
      exact .of_redis (fun s => rfl) (List.append_nil _).symm
  | _ =>
    obtain ⟨-, rfl, rfl⟩ := h
    exact .of_redis (fun s => rfl) (List.append_nil _).symm

theorem StopStage.turn {conn : ℕ} {stage : StopStage} {stage' : Option StopStage}
    (h : stage.next sv r conn = some (stage', sv', r')) :
    Turn sv r sv' r' [] (Job.puts sv r (.task (.stop conn stage)))
      (Job.publishes sv (.task (.stop conn stage))) := by
  have heffect := (StopStage.effect h).sessionMap
  cases stage with
  | erase =>
    simp only [StopStage.next] at h
    split at h
    · obtain ⟨-, rfl, rfl⟩ := Option.some.inj h
      refine .of_manager rfl heffect fun s => ?_
      rw [ConnectionManager.apply_modify TcpSession.sent rfl]
      exact (List.append_nil _).symm
    · cases h
  | unmap =>
    simp only [StopStage.next] at h
    split at h
    · obtain ⟨-, rfl, rfl⟩ := Option.some.inj h
      exact .of_manager rfl heffect fun s => (List.append_nil _).symm
    · cases h
  | srem vecStr =>
    cases vecStr with
    | nil =>
      obtain ⟨-, rfl, rfl⟩ := Option.some.inj h
      exact .of_redis (fun s => rfl) rfl
    | cons g vecStr =>
      obtain ⟨-, rfl, rfl⟩ := Option.some.inj h
      exact .of_redis (fun s => rfl) (List.append_nil _).symm
  | _ =>
    obtain ⟨-, rfl, rfl⟩ := Option.some.inj h
    exact .of_redis (fun s => rfl) (List.append_nil _).symm

theorem findUser_sendUsers {c : ConnectionManager} {m : ChatMsg} (us : List Bytes) (u : Bytes) :
    (c.sendUsers m us).findUser u = c.findUser u := by
  induction us generalizing c with
  | nil => rfl
  | cons v us ih => exact ih.trans (ConnectionManager.sendUser_findUser v u)

theorem GroupStage.turn {ptrMsg : MsgData} {stage : GroupStage} {stage' : Option GroupStage}
    (h : stage.next L ptrMsg sv r = (stage', sv', r')) :
    Turn sv r sv' r' [] (Job.puts sv r (.group ptrMsg stage)) (Job.publishes sv (.group ptrMsg stage)) := by
  cases stage with
  | sort =>
    obtain ⟨-, rfl, rfl⟩ := h
    refine .of_manager rfl (fun u s hu => .inl ?_) fun s => ConnectionManager.sent_sendUsers _ _
    rwa [findUser_sendUsers] at hu
  | publish messages =>
    cases messages with
    | nil =>
      obtain ⟨-, rfl, rfl⟩ := h
      exact .of_redis (fun s => rfl) (List.append_nil _).symm
    | cons e messages =>
      obtain ⟨-, rfl, rfl⟩ := h
      exact .of_redis (fun s => rfl) rfl
  | incr vecRes =>
    cases vecRes with
    | nil =>
      obtain ⟨-, rfl, rfl⟩ := h
      exact .of_redis (fun s => rfl) (List.append_nil _).symm
    | cons userId vecRes =>
      obtain ⟨-, rfl, rfl⟩ := h
      exact .of_redis (fun s => rfl) (List.append_nil _).symm
  | _ =>
    obtain ⟨-, rfl, rfl⟩ := h
    exact .of_redis (fun s => rfl) (List.append_nil _).symm

theorem UnreadStage.turn {t : UnreadTask} {stage' : Option UnreadStage}
    (h : t.stage.next order t.conn t.ptrRequest t.nowtime sv r = (stage', sv', r')) :
    Turn sv r sv' r' [] (Job.puts sv r (.unread t)) (Job.publishes sv (.unread t)) := by
  obtain ⟨conn, ptrRequest, nowtime, stage⟩ := t
  cases stage with
  | set msgData numberData =>
    cases numberData with
    | nil =>
      simp only [UnreadStage.next] at h
      obtain ⟨-, rfl, rfl⟩ := h
      split
      · next hlen =>
        refine .of_manager rfl (fun u s hu => .inl hu) fun s => ?_
        rw [ConnectionManager.sent_send, Job.puts]
        simp only [hlen, true_and]
      · next hlen =>
        refine .of_redis (fun s => ?_) (List.append_nil _).symm
        exact if_neg fun hs => hlen hs.1
    | cons e numberData =>
      simp only [UnreadStage.next] at h
      obtain ⟨-, rfl, rfl⟩ := h
      refine .of_redis (fun s => rfl) ?_
      split <;> exact (List.append_nil _).symm
  | pipeline msgData numberData commands replies =>
    cases commands with
    | nil =>
      obtain ⟨-, rfl, rfl⟩ := h
      exact .of_redis (fun s => rfl) (List.append_nil _).symm
    | cons c commands =>
      obtain ⟨-, rfl, rfl⟩ := h
      exact .of_redis (fun s => rfl) (List.append_nil _).symm
  | _ =>
    obtain ⟨-, rfl, rfl⟩ := h
    exact .of_redis (fun s => rfl) (List.append_nil _).symm

/-- **A step of any handler** does to the server and to what is published what `registered`, `puts` and
`publishes` say. -/
theorem Job.turn {t : Job} (h : t.next L order sv r = some (t', sv', r', answers)) :
    Turn sv r sv' r' (t.registered sv) (t.puts sv r) (t.publishes sv) := by
  cases t with
  | task t =>
    obtain ⟨t₁, hnext, -, -⟩ := Job.next_task h
    cases t with
    | peer ptrMsg stage =>
      obtain ⟨stage', hstage, -⟩ := Task.next_peer hnext
      exact PeerStage.turn hstage
    | shake conn request nowtime stage =>
      obtain ⟨stage', hstage, -⟩ := Task.next_shake hnext
      exact ShakeStage.turn hstage
    | stop conn stage =>
      obtain ⟨stage', hstage, -⟩ := Task.next_stop hnext
      exact StopStage.turn hstage
  | group ptrMsg stage =>
    obtain ⟨stage', hstage, -⟩ := Job.next_group h
    exact GroupStage.turn hstage
  | unread t =>
    obtain ⟨stage', hstage, -⟩ := Job.next_unread h
    exact UnreadStage.turn hstage
  | users conn ptrRequest nowtime stage =>
    obtain ⟨rfl, rfl, -⟩ := Job.next_users h
    exact .of_redis (fun s => rfl) (List.append_nil _).symm
  | groups conn ptrRequest nowtime stage =>
    obtain ⟨rfl, rfl, -⟩ := Job.next_groups h
    exact .of_redis (fun s => rfl) (List.append_nil _).symm
  | members conn ptrRequest nowtime =>
    obtain ⟨rfl, rfl, -⟩ := Job.next_members h
    exact .of_redis (fun s => rfl) (List.append_nil _).symm

/-- The subscriber is handed a message for a user. -/
theorem subscribePeerMsg_turn {value : Bytes} (r : Redis) (h : subscribePeerMsg sv value = some sv') :
    ∃ m, received value = [m] ∧ Turn sv r sv' r [] (fun s =>
      if sv.manager.findUser m.toId = some s ∧ (sv.manager.sessions s).isConnected then [.msgData m]
      else []) [] := by
  unfold subscribePeerMsg at h
  split at h
  · next m hparse =>
    refine ⟨m, by rw [received, hparse], ?_⟩
    split at h
    · next conn hfind =>
      obtain rfl := Option.some.inj h
      refine .of_manager rfl (fun u s hu => .inl hu) fun s => ?_
      rw [ConnectionManager.sent_send, hfind]
      simp only [Option.some.injEq, eq_comm]
    · next hfind =>
      obtain rfl := Option.some.inj h
      refine .of_redis (fun s => ?_) (List.append_nil _).symm
      rw [hfind]
      exact if_neg fun hs => by cases hs.1
  · cases h

/-- The subscriber is handed a message for members of a group. -/
theorem subscribeGroupMsg_turn {value : Bytes} (r : Redis) (h : subscribeGroupMsg sv value = some sv') :
    ∃ m, receivedGroup value = [m] ∧ Turn sv r sv' r [] (fun s => List.replicate
      ((receivers value).countP fun u =>
        sv.manager.findUser u = some s ∧ (sv.manager.sessions s).isConnected) (.msgData m)) [] := by
  unfold subscribeGroupMsg at h
  split at h
  · next msg hgroup =>
    split at h
    · next m hparse =>
      obtain rfl := Option.some.inj h
      refine ⟨m, by rw [receivedGroup, hgroup]; dsimp only; rw [received, hparse], ?_⟩
      rw [receivers, hgroup]
      refine .of_manager rfl (fun u s hu => .inl ?_) fun s => ConnectionManager.sent_sendUsers _ _
      rwa [findUser_sendUsers] at hu
    · cases h
  · cases h

end Turns

end MutexIM.Routing
