import MutexIM.MessageServer.Presence

/-!
# The work of a message server, command by command

The handlers of a message server run on one thread, one after the other, but between two of their
Redis commands the commands of other servers come in. A `Task` is what is left of a handler:
`Task.next` is the work up to the next command, that command, and what is left then.

* `doPeerMsg` is the handler of a chat message as a whole.
* `Task.sent`, `Task.registered`, `Task.dropped`: what the next step does to messages and sessions.
* `finishes_doPeerMsg`, `finishes_onShakeHandleReq`, `finishes_stop`: a task that is not interrupted
  does what the handler does.
-/

namespace MutexIM.Routing

open Bytes Codec MessageServer

/-! ## Chat messages -/

/-- `Server::doPeerMsg`. -/
def doPeerMsg (sv : Server) (r : Redis) (ptrMsg : MsgData) : Server × Redis :=
  let serializaStr := (ChatMsg.msgData ptrMsg).serialize
  match sv.manager.findUser ptrMsg.toId with
  | some ptrConnection =>
    ({ sv with manager := sv.manager.send ptrConnection (.msgData ptrMsg) }, r)
  | none =>
    let serverSocket := CRedis.get r (ascii "online:" ++ ptrMsg.toId)
    if serverSocket ≠ [] then
      (sv, CRedis.publish r (ascii "peerMsg:" ++ serverSocket) serializaStr)
    else
      let keyUnreadList := ascii "unreadMsg:" ++ ptrMsg.toId
      let (nListLen, r) := CRedis.lpush r keyUnreadList serializaStr
      (sv, if nListLen > 99 then CRedis.ltrim r keyUnreadList 0 99 else r)

theorem doPeerMsg_eq (sv : Server) (r : Redis) (ptrMsg : MsgData) : doPeerMsg sv r ptrMsg =
    match sv.manager.findUser ptrMsg.toId with
    | some ptrConnection =>
      ({ sv with manager := sv.manager.send ptrConnection (.msgData ptrMsg) }, r)
    | none =>
      if CRedis.get r (ascii "online:" ++ ptrMsg.toId) ≠ [] then
        (sv, CRedis.publish r
          (ascii "peerMsg:" ++ CRedis.get r (ascii "online:" ++ ptrMsg.toId))
          (ChatMsg.msgData ptrMsg).serialize)
      else (sv, CRedis.lpushKeep r (ascii "unreadMsg:" ++ ptrMsg.toId)
        (ChatMsg.msgData ptrMsg).serialize) := rfl

/-- `Server::SubscribePeerMsg`; `none` for a string that is no message. -/
def subscribePeerMsg (sv : Server) (value : Bytes) : Option Server :=
  match ChatMsg.parse .msgData value with
  | some (.msgData msg) =>
    match sv.manager.findUser msg.toId with
    | some ptrConnection =>
      some { sv with manager := sv.manager.send ptrConnection (.msgData msg) }
    | none => some sv
  | _ => none

/-! ## Tasks -/

/-- What is left of `doPeerMsg`. -/
inductive PeerStage
  | find | get | publish (serverSocket : Bytes) | lpush | ltrim
  deriving DecidableEq

/-- What is left of `onShakeHandleReq`. -/
inductive ShakeStage
  | hgetAll | existsKey (sessionid : Bytes) | bind (sessionid : Bytes) | set | smembers
  | sadd (vecStr : List Bytes) | send

/-- What is left of `Connection_Manager::stop`. -/
inductive StopStage
  | erase | del | lrange | srem (vecStr : List Bytes) | unmap

/-- What is left of a handler. -/
inductive Task
  | peer (ptrMsg : MsgData) (stage : PeerStage)
  | shake (conn : ℕ) (request : ShakeHandleReq) (nowtime : UInt64) (stage : ShakeStage)
  | stop (ptrConnection : ℕ) (stage : StopStage)

/-- The next step of `doPeerMsg`. -/
def PeerStage.next (sv : Server) (r : Redis) (ptrMsg : MsgData) :
    PeerStage → Option PeerStage × Server × Redis
  | .find =>
    match sv.manager.findUser ptrMsg.toId with
    | some ptrConnection =>
      (none, { sv with manager := sv.manager.send ptrConnection (.msgData ptrMsg) }, r)
    | none => (some .get, sv, r)
  | .get =>
    let serverSocket := CRedis.get r (ascii "online:" ++ ptrMsg.toId)
    (some (if serverSocket ≠ [] then .publish serverSocket else .lpush), sv, r)
  | .publish serverSocket =>
    (none, sv, CRedis.publish r (ascii "peerMsg:" ++ serverSocket)
      (ChatMsg.msgData ptrMsg).serialize)
  | .lpush =>
    let (nListLen, r) := CRedis.lpush r (ascii "unreadMsg:" ++ ptrMsg.toId)
      (ChatMsg.msgData ptrMsg).serialize
    (if nListLen > 99 then some .ltrim else none, sv, r)
  | .ltrim => (none, sv, CRedis.ltrim r (ascii "unreadMsg:" ++ ptrMsg.toId) 0 99)

/-- The next step of `onShakeHandleReq`. -/
def ShakeStage.next (sv : Server) (r : Redis) (conn : ℕ) (request : ShakeHandleReq)
    (nowtime : UInt64) : ShakeStage → Option ShakeStage × Server × Redis
  | .hgetAll =>
    let dataMap := CRedis.hgetAll r (ascii "loginMap:" ++ request.userId)
    (some (if dataMap.entries.length ≠ 0 then
      .existsKey ((dataMap.lookup (ascii "sessionid")).getD []) else .send), sv, r)
  | .existsKey sessionid =>
    (if !CRedis.existsKey r (ascii "online:" ++ request.userId) then some (.bind sessionid)
      else none, sv, r)
  | .bind sessionid =>
    (some .set, { sv with manager := sv.manager.bindUser conn sessionid request.userId }, r)
  | .set => (some .smembers, sv, CRedis.set r (ascii "online:" ++ request.userId) sv.strServerSocket)
  | .smembers => (some (.sadd (CRedis.smembers r (ascii "groupSet:" ++ request.userId))), sv, r)
  | .sadd (g :: vecStr) =>
    (some (.sadd vecStr), sv, CRedis.sadd r (ascii "onlineGroup:" ++ g) request.userId)
  | .sadd [] => (some .send, sv, CRedis.publish r (ascii "online") request.userId)
  | .send =>
    (none, { sv with
      manager := sv.manager.send conn (.shakeHandleRes { timestamp := nowtime, result := 0 }) }, r)

/-- The next step of `Connection_Manager::stop`, for a connection of the user. -/
def StopStage.next (sv : Server) (r : Redis) (ptrConnection : ℕ) :
    StopStage → Option (Option StopStage × Server × Redis)
  | .erase =>
    if ptrConnection ∈ sv.manager.sessionSet then
      let c := { sv.manager with
        sessionSet := sv.manager.sessionSet.erase ptrConnection }.modify ptrConnection .stop
      some (if (c.sessions ptrConnection).userId ≠ [] then some .del else none,
        { sv with manager := c }, r)
    else none
  | .del => some (some .lrange, sv,
      CRedis.del r (ascii "online:" ++ (sv.manager.sessions ptrConnection).userId))
  | .lrange => some (some (.srem (CRedis.lrangeBinary r
      (ascii "groupSet:" ++ (sv.manager.sessions ptrConnection).userId) 0 (-1))), sv, r)
  | .srem (g :: vecStr) => some (some (.srem vecStr), sv,
      CRedis.srem r (ascii "onlineGroup:" ++ g) (sv.manager.sessions ptrConnection).userId)
  | .srem [] => some (some .unmap, sv,
      CRedis.publish r (ascii "offline") (sv.manager.sessions ptrConnection).userId)
  | .unmap =>
    if (sv.manager.sessions ptrConnection).userId ∈ sv.manager.sessionMap then
      some (none, { sv with manager := { sv.manager with
        sessionMap := sv.manager.sessionMap.erase (sv.manager.sessions ptrConnection).userId } }, r)
    else none

/-- The next step of a task; `none` where it is undefined. -/
def Task.next (sv : Server) (r : Redis) : Task → Option (Option Task × Server × Redis)
  | .peer ptrMsg stage =>
    some ((stage.next sv r ptrMsg).map (Option.map (.peer ptrMsg)) id)
  | .shake conn request nowtime stage =>
    some ((stage.next sv r conn request nowtime).map (Option.map (.shake conn request nowtime)) id)
  | .stop ptrConnection stage =>
    (stage.next sv r ptrConnection).map (Prod.map (Option.map (.stop ptrConnection)) id)

section Next

variable {sv sv' : Server} {r r' : Redis} {t' : Option Task}

theorem PeerStage.next_lpush (sv : Server) (r : Redis) (ptrMsg : MsgData) :
    PeerStage.lpush.next sv r ptrMsg =
      (if (CRedis.lpush r (ascii "unreadMsg:" ++ ptrMsg.toId)
          (ChatMsg.msgData ptrMsg).serialize).1 > 99 then some .ltrim else none, sv,
        (CRedis.lpush r (ascii "unreadMsg:" ++ ptrMsg.toId)
          (ChatMsg.msgData ptrMsg).serialize).2) := rfl

theorem Task.next_peer {ptrMsg : MsgData} {stage : PeerStage}
    (h : (Task.peer ptrMsg stage).next sv r = some (t', sv', r')) :
    ∃ stage', stage.next sv r ptrMsg = (stage', sv', r') ∧ t' = stage'.map (.peer ptrMsg) := by
  cases hstage : stage.next sv r ptrMsg with
  | mk stage' out =>
    rw [Task.next, hstage] at h
    cases h
    exact ⟨stage', rfl, rfl⟩

theorem Task.next_shake {conn : ℕ} {request : ShakeHandleReq} {nowtime : UInt64}
    {stage : ShakeStage} (h : (Task.shake conn request nowtime stage).next sv r =
      some (t', sv', r')) :
    ∃ stage', stage.next sv r conn request nowtime = (stage', sv', r') ∧
      t' = stage'.map (.shake conn request nowtime) := by
  cases hstage : stage.next sv r conn request nowtime with
  | mk stage' out =>
    rw [Task.next, hstage] at h
    cases h
    exact ⟨stage', rfl, rfl⟩

theorem Task.next_stop {ptrConnection : ℕ} {stage : StopStage}
    (h : (Task.stop ptrConnection stage).next sv r = some (t', sv', r')) :
    ∃ stage', stage.next sv r ptrConnection = some (stage', sv', r') ∧
      t' = stage'.map (.stop ptrConnection) := by
  rw [Task.next] at h
  obtain ⟨⟨stage', out⟩, hstage, heq⟩ := Option.map_eq_some_iff.1 h
  cases heq
  exact ⟨stage', hstage, rfl⟩

end Next

/-! ## What a step does, for the history -/

/-- The messages that a server sends when it looks for the recipient, with the sessions. -/
def sends (sv : Server) (m : MsgData) : List (ℕ × MsgData) :=
  match sv.manager.findUser m.toId with
  | some s => if (sv.manager.sessions s).isConnected then [(s, m)] else []
  | none => []

/-- The chat messages in a published string. -/
def received (value : Bytes) : List MsgData :=
  match ChatMsg.parse .msgData value with
  | some (.msgData m) => [m]
  | _ => []

namespace Task

/-- The task holds `m_mutex`. -/
def locks : Task → Bool
  | .peer _ _ => true
  | _ => false

/-- What the next step sends. -/
def sent (sv : Server) : Task → List (ℕ × MsgData)
  | .peer m .find => sends sv m
  | _ => []

/-- The session that the next step registers for a user. -/
def registered (sv : Server) : Task → List (ℕ × Bytes)
  | .shake conn request _ (.bind _) =>
    if conn ∈ sv.manager.sessionSet then [(conn, request.userId)] else []
  | _ => []

/-- What the next step drops from a list, with the key of the list. -/
def dropped (r : Redis) : Task → List (Bytes × Bytes)
  | .peer m .ltrim =>
    let key := cstr (ascii "unreadMsg:" ++ m.toId)
    ((r.keys.listAt key).drop 100).map fun value => (key, value)
  | _ => []

end Task

/-- A message whose recipient has a session on the sender's server finds it connected; one that is put
in a list has a recipient whose id is a C string. -/
def Task.Attended (sv : Server) : Task → Prop
  | .peer m .find => sv.manager.findUser m.toId ≠ none → sends sv m ≠ []
  | .peer m .lpush => NulFree m.toId
  | _ => True

instance (sv : Server) (t : Task) : Decidable (t.Attended sv) := by
  unfold Task.Attended
  split <;> infer_instance

/-! ## Tasks that are not interrupted -/

/-- The task, with nothing else happening, leads from the first state to the second. -/
inductive Finishes : Task → Server → Redis → Server → Redis → Prop
  | last {t : Task} {sv sv' : Server} {r r' : Redis} (h : t.next sv r = some (none, sv', r')) :
      Finishes t sv r sv' r'
  | next {t t' : Task} {sv sv₁ sv' : Server} {r r₁ r' : Redis}
      (h : t.next sv r = some (some t', sv₁, r₁)) (hrest : Finishes t' sv₁ r₁ sv' r') :
      Finishes t sv r sv' r'

variable {sv : Server} {r : Redis}

theorem finishes_doPeerMsg (ptrMsg : MsgData) :
    Finishes (.peer ptrMsg .find) sv r (doPeerMsg sv r ptrMsg).1 (doPeerMsg sv r ptrMsg).2 := by
  unfold doPeerMsg
  cases hfind : sv.manager.findUser ptrMsg.toId with
  | some ptrConnection =>
    exact .last (by rw [Task.next, PeerStage.next, hfind]; rfl)
  | none =>
    have hget : (Task.peer ptrMsg .find).next sv r = some (some (.peer ptrMsg .get), sv, r) := by
      rw [Task.next, PeerStage.next, hfind]
      rfl
    apply Finishes.next hget
    by_cases hsocket : CRedis.get r (ascii "online:" ++ ptrMsg.toId) ≠ []
    · have hpublish : (Task.peer ptrMsg .get).next sv r = some (some (.peer ptrMsg
          (.publish (CRedis.get r (ascii "online:" ++ ptrMsg.toId)))), sv, r) := by
        rw [Task.next, PeerStage.next, if_pos hsocket]
        rfl
      simp only [if_pos hsocket]
      exact .next hpublish (.last rfl)
    · have hlpush : (Task.peer ptrMsg .get).next sv r =
          some (some (.peer ptrMsg .lpush), sv, r) := by
        rw [Task.next, PeerStage.next, if_neg hsocket]
        rfl
      simp only [if_neg hsocket]
      apply Finishes.next hlpush
      by_cases hlen : (CRedis.lpush r (ascii "unreadMsg:" ++ ptrMsg.toId)
          (ChatMsg.msgData ptrMsg).serialize).1 > 99
      · have hltrim : (Task.peer ptrMsg .lpush).next sv r = some (some (.peer ptrMsg .ltrim), sv,
            (CRedis.lpush r (ascii "unreadMsg:" ++ ptrMsg.toId)
              (ChatMsg.msgData ptrMsg).serialize).2) := by
          simp only [Task.next, PeerStage.next, if_pos hlen]
          rfl
        simp only [if_pos hlen]
        exact .next hltrim (.last rfl)
      · simp only [if_neg hlen]
        exact .last (by simp only [Task.next, PeerStage.next, if_neg hlen]; rfl)

theorem finishes_sadd (conn : ℕ) (request : ShakeHandleReq) (nowtime : UInt64)
    (vecStr : List Bytes) :
    Finishes (.shake conn request nowtime (.sadd vecStr)) sv r
      { sv with manager := sv.manager.send conn (.shakeHandleRes ⟨nowtime, 0⟩) }
      (CRedis.publish
        (vecStr.foldl (fun r g => CRedis.sadd r (ascii "onlineGroup:" ++ g) request.userId) r)
        (ascii "online") request.userId) := by
  induction vecStr generalizing r with
  | nil => exact .next rfl (.last rfl)
  | cons g vecStr ih => exact .next rfl ih

theorem finishes_onShakeHandleReq (conn : ℕ) (request : ShakeHandleReq) (nowtime : UInt64) :
    Finishes (.shake conn request nowtime .hgetAll) sv r
      (onShakeHandleReq sv r conn request nowtime).1
      (onShakeHandleReq sv r conn request nowtime).2 := by
  unfold onShakeHandleReq
  by_cases hlogin : (CRedis.hgetAll r (ascii "loginMap:" ++ request.userId)).entries.length ≠ 0
  · have hexists : (Task.shake conn request nowtime .hgetAll).next sv r =
        some (some (.shake conn request nowtime (.existsKey (((CRedis.hgetAll r
          (ascii "loginMap:" ++ request.userId)).lookup (ascii "sessionid")).getD []))), sv, r) := by
      simp only [Task.next, ShakeStage.next, if_pos hlogin]
      rfl
    simp only [if_pos hlogin]
    apply Finishes.next hexists
    cases honline : CRedis.existsKey r (ascii "online:" ++ request.userId) with
    | false =>
      refine .next (by simp only [Task.next, ShakeStage.next, honline]; rfl) ?_
      exact .next rfl (.next rfl (.next rfl (finishes_sadd _ _ _ _)))
    | true => exact .last (by simp only [Task.next, ShakeStage.next, honline]; rfl)
  · simp only [if_neg hlogin]
    refine .next (by simp only [Task.next, ShakeStage.next, if_neg hlogin]; rfl) ?_
    exact .last rfl

theorem finishes_srem (ptrConnection : ℕ) (vecStr : List Bytes)
    (hmem : (sv.manager.sessions ptrConnection).userId ∈ sv.manager.sessionMap) :
    Finishes (.stop ptrConnection (.srem vecStr)) sv r
      { sv with manager := { sv.manager with
        sessionMap := sv.manager.sessionMap.erase (sv.manager.sessions ptrConnection).userId } }
      (CRedis.publish (vecStr.foldl (fun r g => CRedis.srem r (ascii "onlineGroup:" ++ g)
        (sv.manager.sessions ptrConnection).userId) r)
        (ascii "offline") (sv.manager.sessions ptrConnection).userId) := by
  induction vecStr generalizing r with
  | nil => exact .next rfl (.last (by simp only [Task.next, StopStage.next, if_pos hmem]; rfl))
  | cons g vecStr ih => exact .next rfl ih

theorem finishes_stop {ptrConnection : ℕ} {c' : ConnectionManager} {r' : Redis}
    (h : sv.manager.stop r ptrConnection = some (c', r')) :
    Finishes (.stop ptrConnection .erase) sv r { sv with manager := c' } r' := by
  unfold ConnectionManager.stop at h
  by_cases hs : ptrConnection ∈ sv.manager.sessionSet
  · simp only [if_pos hs] at h
    split at h
    · next huser =>
      split at h
      · next hmem =>
        obtain ⟨rfl, rfl⟩ := Prod.mk.inj (Option.some.inj h)
        refine .next (by simp only [Task.next, StopStage.next, if_pos hs, if_pos huser]; rfl) ?_
        exact .next rfl (.next rfl (finishes_srem ptrConnection _ hmem))
      · cases h
    · next huser =>
      obtain ⟨rfl, rfl⟩ := Prod.mk.inj (Option.some.inj h)
      exact .last (by simp only [Task.next, StopStage.next, if_pos hs, if_neg huser]; rfl)
  · rw [if_neg hs] at h
    cases h

end MutexIM.Routing
