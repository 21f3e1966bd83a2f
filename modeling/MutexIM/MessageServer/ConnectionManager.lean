import Mathlib.Data.Finset.Basic
import MutexIM.Codec.Messages
import MutexIM.Redis.CRedis

/-!
# Sessions and their manager

A message server keeps its connections in `Connection_Manager`: the set of the sessions, and a map
from user ids to sessions. A session is named by a number, the order in which it was created; the
session objects are kept after they were stopped.

* `TcpSession.send`, `handleRead`, `handleWrite`: what a session does with messages and with the
  results of its operations.
* `stop` takes one session out, `stopAll` all of them; both tell Redis that the users are offline.
  `stop` is `none` where it erases what is not there, which is undefined.
-/

namespace MutexIM.MessageServer

open Bytes Codec

/-! ## Sessions -/

/-- The result an operation of a socket reports. -/
inductive ErrorCode
  | success | operationAborted | other
  deriving DecidableEq

/-- A `Tcp_Session`, with its outstanding operations and, as history, the messages written to the
socket. -/
structure TcpSession where
  isConnected : Bool
  sessionId : Bytes
  userId : Bytes
  sendMessages : List ChatMsg
  pendingRead : Bool
  pendingWrites : ℕ
  sent : List ChatMsg

namespace TcpSession

variable (t : TcpSession)

/-- The constructor. -/
def new : TcpSession where
  isConnected := false
  sessionId := []
  userId := []
  sendMessages := []
  pendingRead := false
  pendingWrites := 0
  sent := []

/-- `Tcp_Session::start`, with the `read` it ends in. -/
def start : TcpSession := { t with isConnected := true, pendingRead := true }

/-- `Tcp_Session::stop`. Operations that are outstanding stay so until they report. -/
def stop : TcpSession := { t with isConnected := false }

/-- `Tcp_Session::Send` of a message's frame. -/
def send (m : ChatMsg) : TcpSession :=
  if t.isConnected then
    { t with
      sendMessages := t.sendMessages ++ [m]
      pendingWrites := t.pendingWrites + 1
      sent := t.sent ++ [m] }
  else t

/-- `Tcp_Session::handle_read`, apart from the message callback: the session, and whether
`DisconnectedCallback_` is called. -/
def handleRead : ErrorCode → TcpSession × Bool
  | .success => ({ t with pendingRead := true }, false)
  | .operationAborted => ({ t with pendingRead := false }, false)
  | .other => ({ t with pendingRead := false }, true)

/-- `Tcp_Session::handle_write`: the session, and whether `DisconnectedCallback_` is called. -/
def handleWrite : ErrorCode → TcpSession × Bool
  | .success =>
    ({ t with sendMessages := t.sendMessages.tail, pendingWrites := t.pendingWrites - 1 }, false)
  | _ => ({ t with pendingWrites := t.pendingWrites - 1 }, true)

@[simp] theorem start_userId : t.start.userId = t.userId := rfl
@[simp] theorem stop_userId : t.stop.userId = t.userId := rfl
@[simp] theorem stop_isConnected : t.stop.isConnected = false := rfl
@[simp] theorem stop_sent : t.stop.sent = t.sent := rfl

@[simp] theorem send_userId (m : ChatMsg) : (t.send m).userId = t.userId := by
  unfold send
  split <;> rfl

@[simp] theorem send_isConnected (m : ChatMsg) : (t.send m).isConnected = t.isConnected := by
  unfold send
  split
  · next h => exact h.symm ▸ rfl
  · rfl

theorem send_of_not_isConnected {m : ChatMsg} (h : t.isConnected = false) : t.send m = t := by
  rw [send, h]
  rfl

theorem send_sent {m : ChatMsg} (h : t.isConnected = true) : (t.send m).sent = t.sent ++ [m] := by
  rw [send, if_pos h]

end TcpSession

/-! ## The manager -/

/-- `Connection_Manager`, with the session objects created so far. -/
structure ConnectionManager where
  sessions : ℕ → TcpSession
  created : ℕ
  sessionSet : Finset ℕ
  sessionMap : AList fun _ : Bytes => ℕ

namespace ConnectionManager

/-- The constructor. -/
def new : ConnectionManager where
  sessions _ := .new
  created := 0
  sessionSet := ∅
  sessionMap := ∅

variable (c : ConnectionManager) (r : Redis)

/-- One session object is changed. -/
def modify (s : ℕ) (f : TcpSession → TcpSession) : ConnectionManager :=
  { c with sessions := Function.update c.sessions s (f (c.sessions s)) }

/-- `Connection_Manager::start`. -/
def start (ptrConnection : ℕ) : ConnectionManager :=
  { c with sessionSet := insert ptrConnection c.sessionSet }.modify ptrConnection .start

/-- `tcp_server::handle_accept`: the next session object is started. -/
def handleAccept : ConnectionManager := { c.start c.created with created := c.created + 1 }

/-- What `stop` and `stop_all` do in Redis for one user; `readGroups` is the command with which they
read the user's groups. -/
def signOff (readGroups : Redis → Bytes → List Bytes) (userId : Bytes) : Redis :=
  let r := CRedis.del r (ascii "online:" ++ userId)
  let vecStr := readGroups r (ascii "groupSet:" ++ userId)
  let r := vecStr.foldl (fun r g => CRedis.srem r (ascii "onlineGroup:" ++ g) userId) r
  CRedis.publish r (ascii "offline") userId

/-- `Connection_Manager::stop`. Erasing `end()` from the set or the map is undefined. -/
def stop (ptrConnection : ℕ) : Option (ConnectionManager × Redis) :=
  if ptrConnection ∈ c.sessionSet then
    let c := { c with sessionSet := c.sessionSet.erase ptrConnection }.modify ptrConnection .stop
    let userId := (c.sessions ptrConnection).userId
    if userId ≠ [] then
      let r := signOff r (CRedis.lrangeBinary · · 0 (-1)) userId
      if userId ∈ c.sessionMap then
        some ({ c with sessionMap := c.sessionMap.erase userId }, r)
      else none
    else some (c, r)
  else none

/-- The users of `m_SessionMap`, in the order of a `std::map`. -/
def users : List Bytes := c.sessionMap.keys.insertionSort fun u v => ¬v < u

/-- `Connection_Manager::stop_all`. -/
def stopAll : ConnectionManager × Redis :=
  ({ c with
      sessions := fun s => if s ∈ c.sessionSet then (c.sessions s).stop else c.sessions s
      sessionSet := ∅
      sessionMap := ∅ },
    c.users.foldl (fun r userId => signOff r CRedis.smembers userId) r)

/-- `Connection_Manager::userIdMap`, whose result no caller uses. -/
def userIdMap (userId : Bytes) (ptrConnection : ℕ) : ConnectionManager :=
  if ptrConnection ∈ c.sessionSet then
    { c with sessionMap := c.sessionMap.insert userId ptrConnection }
  else c

/-- `Connection_Manager::findUser`. -/
def findUser (userId : Bytes) : Option ℕ := c.sessionMap.lookup userId

/-- `ProtobufCodec::Send` on a session. -/
def send (s : ℕ) (m : ChatMsg) : ConnectionManager := c.modify s (·.send m)

variable {c r} {s s' : ℕ}

@[simp] theorem modify_sessions_self (f : TcpSession → TcpSession) :
    (c.modify s f).sessions s = f (c.sessions s) := Function.update_self ..

theorem modify_sessions_of_ne (h : s' ≠ s) (f : TcpSession → TcpSession) :
    (c.modify s f).sessions s' = c.sessions s' := Function.update_of_ne h ..

/-- What the change of a session leaves of it, it leaves of all sessions. -/
theorem apply_modify {β : Type*} (g : TcpSession → β) {f : TcpSession → TcpSession}
    (h : g (f (c.sessions s)) = g (c.sessions s)) (s' : ℕ) :
    g ((c.modify s f).sessions s') = g (c.sessions s') := by
  by_cases hs : s' = s
  · rw [hs, modify_sessions_self, h]
  · rw [modify_sessions_of_ne hs]

@[simp] theorem send_sessions_userId (m : ChatMsg) (s' : ℕ) :
    ((c.send s m).sessions s').userId = (c.sessions s').userId :=
  apply_modify TcpSession.userId (TcpSession.send_userId _ m) s'

@[simp] theorem send_sessions_isConnected (m : ChatMsg) (s' : ℕ) :
    ((c.send s m).sessions s').isConnected = (c.sessions s').isConnected :=
  apply_modify TcpSession.isConnected (TcpSession.send_isConnected _ m) s'

/-- **What a session has after a send.** -/
theorem sent_send (m : ChatMsg) : ((c.send s m).sessions s').sent = (c.sessions s').sent ++
    if s' = s ∧ (c.sessions s').isConnected then [m] else [] := by
  by_cases hs : s' = s
  · subst hs
    rw [send, modify_sessions_self]
    by_cases hconn : (c.sessions s').isConnected = true
    · rw [TcpSession.send_sent _ hconn, if_pos ⟨rfl, hconn⟩]
    · rw [TcpSession.send_of_not_isConnected _ (Bool.not_eq_true _ ▸ hconn), if_neg fun h => hconn h.2,
        List.append_nil]
  · rw [send, modify_sessions_of_ne hs, if_neg fun h => hs h.1, List.append_nil]

@[simp] theorem modify_created (f : TcpSession → TcpSession) :
    (c.modify s f).created = c.created := rfl

@[simp] theorem modify_sessionSet (f : TcpSession → TcpSession) :
    (c.modify s f).sessionSet = c.sessionSet := rfl

@[simp] theorem modify_sessionMap (f : TcpSession → TcpSession) :
    (c.modify s f).sessionMap = c.sessionMap := rfl

@[simp] theorem handleAccept_created : c.handleAccept.created = c.created + 1 := rfl

@[simp] theorem handleAccept_sessionSet :
    c.handleAccept.sessionSet = insert c.created c.sessionSet := rfl

@[simp] theorem handleAccept_sessionMap : c.handleAccept.sessionMap = c.sessionMap := rfl

@[simp] theorem handleAccept_sessions_created :
    c.handleAccept.sessions c.created = (c.sessions c.created).start := Function.update_self ..

theorem handleAccept_sessions_of_ne (h : s ≠ c.created) :
    c.handleAccept.sessions s = c.sessions s := Function.update_of_ne h ..

theorem apply_handleAccept {β : Type*} (g : TcpSession → β)
    (h : g (c.sessions c.created).start = g (c.sessions c.created)) (s : ℕ) :
    g (c.handleAccept.sessions s) = g (c.sessions s) :=
  apply_modify (c := { c with sessionSet := insert c.created c.sessionSet }) g h s

/-! ## What `stop` does -/

/-- The manager without a session and without its user's entry. -/
def without (c : ConnectionManager) (s : ℕ) : ConnectionManager where
  sessions := Function.update c.sessions s (c.sessions s).stop
  created := c.created
  sessionSet := c.sessionSet.erase s
  sessionMap :=
    if (c.sessions s).userId = [] then c.sessionMap else c.sessionMap.erase (c.sessions s).userId

@[simp] theorem without_sessions_self : (c.without s).sessions s = (c.sessions s).stop :=
  Function.update_self ..

theorem without_sessions_of_ne (h : s' ≠ s) : (c.without s).sessions s' = c.sessions s' :=
  Function.update_of_ne h ..

theorem apply_without {β : Type*} (g : TcpSession → β)
    (h : g (c.sessions s).stop = g (c.sessions s)) (s' : ℕ) :
    g ((c.without s).sessions s') = g (c.sessions s') := apply_modify (c := c) g h s'

@[simp] theorem without_created : (c.without s).created = c.created := rfl

@[simp] theorem without_sessionSet : (c.without s).sessionSet = c.sessionSet.erase s := rfl

/-- **`stop` has a defined effect** when the session is in the set and its user, if it has one, in the
map. -/
theorem stop_eq_some_iff {c' : ConnectionManager} {r' : Redis} :
    c.stop r s = some (c', r') ↔
      (s ∈ c.sessionSet ∧ ((c.sessions s).userId ≠ [] → (c.sessions s).userId ∈ c.sessionMap)) ∧
      c' = c.without s ∧
      r' = if (c.sessions s).userId = [] then r
        else signOff r (CRedis.lrangeBinary · · 0 (-1)) (c.sessions s).userId := by
  unfold stop without
  simp only [modify, Function.update_self, TcpSession.stop_userId]
  by_cases hs : s ∈ c.sessionSet
  · by_cases hu : (c.sessions s).userId = []
    · simp [hs, hu, eq_comm]
    · by_cases hm : (c.sessions s).userId ∈ c.sessionMap <;> simp [hs, hu, hm, eq_comm]
  · simp [hs]

theorem stop_eq_none_iff :
    c.stop r s = none ↔
      ¬(s ∈ c.sessionSet ∧ ((c.sessions s).userId ≠ [] → (c.sessions s).userId ∈ c.sessionMap)) := by
  rw [Option.eq_none_iff_forall_ne_some]
  constructor
  · intro h hs
    exact h (c.without s, _) (stop_eq_some_iff.2 ⟨hs, rfl, rfl⟩)
  · rintro h ⟨c', r'⟩ hstop
    exact h (stop_eq_some_iff.1 hstop).1

end ConnectionManager

end MutexIM.MessageServer
