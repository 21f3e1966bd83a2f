import MutexIM.MessageServer.ConnectionManager

/-!
# The handshake

A client that has logged in names its user in a `shakeHandleReq`. `onShakeHandleReq` looks for the
user's login in `loginMap:<user>`, refuses users that are online already, and otherwise binds the
connection to the user and puts the user online.

* `Binds` is the condition for it; `onShakeHandleReq_of_binds` and `onShakeHandleReq_of_not_binds`
  say what happens to the manager and to Redis in either case.
* `Server.step` puts together what happens to the connections of a server.
-/

namespace MutexIM.MessageServer

open Bytes Codec

/-- A message server: its socket, as it names itself in Redis, and its connections. -/
structure Server where
  strServerSocket : Bytes
  manager : ConnectionManager

/-- `set_SessionId`, `set_userId` and `userIdMap` for a connection. -/
def ConnectionManager.bindUser (c : ConnectionManager) (conn : ℕ) (sessionId userId : Bytes) :
    ConnectionManager :=
  (c.modify conn fun t => { t with sessionId := sessionId, userId := userId }).userIdMap userId conn

/-- What the handshake does in Redis for a user who comes online. -/
def signOn (r : Redis) (userId strServerSocket : Bytes) : Redis :=
  let r := CRedis.set r (ascii "online:" ++ userId) strServerSocket
  let vecStr := CRedis.smembers r (ascii "groupSet:" ++ userId)
  let r := vecStr.foldl (fun r g => CRedis.sadd r (ascii "onlineGroup:" ++ g) userId) r
  CRedis.publish r (ascii "online") userId

/-- `Server::onShakeHandleReq`. -/
def onShakeHandleReq (sv : Server) (r : Redis) (conn : ℕ) (request : ShakeHandleReq)
    (nowtime : UInt64) : Server × Redis :=
  let dataMap := CRedis.hgetAll r (ascii "loginMap:" ++ request.userId)
  if dataMap.entries.length ≠ 0 then
    if !CRedis.existsKey r (ascii "online:" ++ request.userId) then
      let sessionid := (dataMap.lookup (ascii "sessionid")).getD []
      let c := sv.manager.bindUser conn sessionid request.userId
      let r := signOn r request.userId sv.strServerSocket
      let response : ShakeHandleRes := { timestamp := nowtime, result := 0 }
      ({ sv with manager := c.send conn (.shakeHandleRes response) }, r)
    -- a user who is online gets no answer
    else (sv, r)
  else
    let response : ShakeHandleRes := { timestamp := 0, result := 2 }
    let response := { response with timestamp := nowtime }
    -- the result set first is overwritten
    let response := { response with result := 0 }
    ({ sv with manager := sv.manager.send conn (.shakeHandleRes response) }, r)

/-- The handshake of the user binds the connection. -/
def Binds (r : Redis) (userId : Bytes) : Prop :=
  (CRedis.hgetAll r (ascii "loginMap:" ++ userId)).entries.length ≠ 0 ∧
    CRedis.existsKey r (ascii "online:" ++ userId) = false

instance (r : Redis) (userId : Bytes) : Decidable (Binds r userId) :=
  inferInstanceAs (Decidable (_ ∧ _))

namespace ConnectionManager

variable {c : ConnectionManager} {conn s : ℕ} {sessionId userId : Bytes}

@[simp] theorem bindUser_sessionSet :
    (c.bindUser conn sessionId userId).sessionSet = c.sessionSet := by
  unfold bindUser userIdMap
  split <;> rfl

@[simp] theorem bindUser_created : (c.bindUser conn sessionId userId).created = c.created := by
  unfold bindUser userIdMap
  split <;> rfl

@[simp] theorem bindUser_sessions_self : (c.bindUser conn sessionId userId).sessions conn =
    { c.sessions conn with sessionId := sessionId, userId := userId } := by
  unfold bindUser userIdMap
  split <;> exact Function.update_self ..

theorem bindUser_sessions_of_ne (h : s ≠ conn) :
    (c.bindUser conn sessionId userId).sessions s = c.sessions s := by
  unfold bindUser userIdMap
  split <;> exact Function.update_of_ne h ..

theorem apply_bindUser {β : Type*} (g : TcpSession → β)
    (h : ∀ t sessionId userId, g { t with sessionId := sessionId, userId := userId } = g t) (s : ℕ) :
    g ((c.bindUser conn sessionId userId).sessions s) = g (c.sessions s) := by
  have hmodify := apply_modify (c := c) (s := conn)
    (f := fun t => { t with sessionId := sessionId, userId := userId }) g (h _ _ _) s
  unfold bindUser userIdMap
  split <;> exact hmodify

theorem bindUser_sessionMap : (c.bindUser conn sessionId userId).sessionMap =
    if conn ∈ c.sessionSet then c.sessionMap.insert userId conn else c.sessionMap := by
  unfold bindUser userIdMap
  split <;> simp_all

theorem findUser_bindUser_of_ne {u : Bytes} (hu : u ≠ userId) :
    (c.bindUser conn sessionId userId).findUser u = c.findUser u := by
  rw [findUser, findUser, bindUser_sessionMap]
  split
  · exact AList.lookup_insert_ne hu
  · rfl

/-- An entry is the new one or was there before. -/
theorem of_findUser_bindUser {u : Bytes}
    (h : (c.bindUser conn sessionId userId).findUser u = some s) :
    (conn ∈ c.sessionSet ∧ u = userId ∧ s = conn) ∨ c.findUser u = some s := by
  by_cases hu : u = userId
  · rw [findUser, bindUser_sessionMap] at h
    split at h
    · next hconn =>
      rw [hu, AList.lookup_insert] at h
      exact .inl ⟨hconn, hu, (Option.some.inj h).symm⟩
    · exact .inr h
  · rw [findUser_bindUser_of_ne hu] at h
    exact .inr h

end ConnectionManager

variable {sv : Server} {r : Redis} {conn : ℕ} {request : ShakeHandleReq} {nowtime : UInt64}

variable (sv conn nowtime) in
theorem onShakeHandleReq_of_binds (h : Binds r request.userId) :
    ∃ sessionid, onShakeHandleReq sv r conn request nowtime =
      (⟨sv.strServerSocket, (sv.manager.bindUser conn sessionid request.userId).send conn
          (.shakeHandleRes ⟨nowtime, 0⟩)⟩,
        signOn r request.userId sv.strServerSocket) := by
  refine ⟨((CRedis.hgetAll r (ascii "loginMap:" ++ request.userId)).lookup
    (ascii "sessionid")).getD [], ?_⟩
  rw [onShakeHandleReq, if_pos h.1, h.2]
  rfl

variable (sv conn nowtime) in
theorem onShakeHandleReq_of_not_binds (h : ¬Binds r request.userId) :
    (onShakeHandleReq sv r conn request nowtime).2 = r ∧
      ((onShakeHandleReq sv r conn request nowtime).1 = sv ∨
        (onShakeHandleReq sv r conn request nowtime).1 =
          ⟨sv.strServerSocket, sv.manager.send conn (.shakeHandleRes ⟨nowtime, 0⟩)⟩) := by
  unfold onShakeHandleReq
  by_cases hlogin : (CRedis.hgetAll r (ascii "loginMap:" ++ request.userId)).entries.length ≠ 0
  · have honline : CRedis.existsKey r (ascii "online:" ++ request.userId) = true := by
      by_contra hn
      exact h ⟨hlogin, by simpa using hn⟩
    rw [if_pos hlogin, honline]
    exact ⟨rfl, .inl rfl⟩
  · rw [if_neg hlogin]
    exact ⟨rfl, .inr rfl⟩

/-- A property of the connections that binding and sending keep is kept by the handshake. -/
theorem onShakeHandleReq_manager {p : ConnectionManager → Prop} (h : p sv.manager)
    (hbind : Binds r request.userId → ∀ sessionid,
      p (sv.manager.bindUser conn sessionid request.userId))
    (hsend : ∀ c m, p c → p (c.send conn m)) :
    p (onShakeHandleReq sv r conn request nowtime).1.manager := by
  by_cases hb : Binds r request.userId
  · obtain ⟨sessionid, heq⟩ := onShakeHandleReq_of_binds sv conn nowtime hb
    rw [heq]
    exact hsend _ _ (hbind hb sessionid)
  · rcases (onShakeHandleReq_of_not_binds sv conn nowtime hb).2 with heq | heq
    · rwa [heq]
    · rw [heq]
      exact hsend _ _ h

@[simp] theorem onShakeHandleReq_sessionSet :
    (onShakeHandleReq sv r conn request nowtime).1.manager.sessionSet = sv.manager.sessionSet :=
  onShakeHandleReq_manager (p := fun c => c.sessionSet = sv.manager.sessionSet) rfl
    (fun _ _ => ConnectionManager.bindUser_sessionSet) fun _ _ h => h

@[simp] theorem onShakeHandleReq_created :
    (onShakeHandleReq sv r conn request nowtime).1.manager.created = sv.manager.created :=
  onShakeHandleReq_manager (p := fun c => c.created = sv.manager.created) rfl
    (fun _ _ => ConnectionManager.bindUser_created) fun _ _ h => h

/-! ## The steps of a server -/

/-- What happens to a server's connections: one is accepted, a `shakeHandleReq` comes in on one, one
is stopped, all are stopped. -/
inductive Server.Event
  | accept
  | handshake (conn : ℕ) (request : ShakeHandleReq) (nowtime : UInt64)
  | disconnect (s : ℕ)
  | stopAll

/-- One event, as one step; `none` where it cannot happen or is undefined. -/
def Server.step (sv : Server) (r : Redis) : Server.Event → Option (Server × Redis)
  | .accept => some ({ sv with manager := sv.manager.handleAccept }, r)
  | .handshake conn request nowtime =>
    if conn < sv.manager.created then some (onShakeHandleReq sv r conn request nowtime) else none
  | .disconnect s =>
    (sv.manager.stop r s).map fun (manager, r) => ({ sv with manager := manager }, r)
  | .stopAll =>
    let (manager, r) := sv.manager.stopAll r
    some ({ sv with manager := manager }, r)

/-- A server that has just started. -/
def Server.start (strServerSocket : Bytes) : Server := ⟨strServerSocket, .new⟩

/-- A Redis server with nothing but the logins of some users. -/
def loggedIn (users : List Bytes) : Redis where
  keys k :=
    if k ∈ users.map (ascii "loginMap:" ++ ·) then
      some (.hash (.singleton (ascii "sessionid") (ascii "1")))
    else none
  published := []

end MutexIM.MessageServer
