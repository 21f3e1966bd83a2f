import MutexIM.MessageServer.Presence

/-!
# The answer to a handshake

The client goes on when the result of the `shakeHandleRes` is zero. `onShakeHandleReq` sends this result to
a user it has bound to the connection, and to one who has not logged in; a user who is online gets no answer.

* `Bound`: the request has bound the connection to the user.
* `truthful_iff`: when there is one answer, and its result is zero for a request that has done so.
* `untruthful`: the user is online already, or has not logged in.
-/

namespace MutexIM.MessageServer

open Bytes Codec

/-- The map leads from the user to the connection, and the key `online:<user>` was set to the socket of the
server. -/
structure Bound (sv : Server) (r : Redis) (conn : ℕ) (userId : Bytes) (out : Server × Redis) : Prop where
  findUser : out.1.manager.findUser userId = some conn
  online : out.2.keys (ascii "online:" ++ userId) = some (.str sv.strServerSocket)
  set : r.keys (ascii "online:" ++ userId) ≠ out.2.keys (ascii "online:" ++ userId)

/-- One `shakeHandleRes` is sent on the connection, whose result says whether the user was bound. -/
def Truthful (sv : Server) (r : Redis) (conn : ℕ) (request : ShakeHandleReq) (out : Server × Redis) : Prop :=
  ∃ response : ShakeHandleRes,
    (out.1.manager.sessions conn).sent =
      (sv.manager.sessions conn).sent ++ [.shakeHandleRes response] ∧
    (response.result = 0 ↔ Bound sv r conn request.userId out)

/-- The condition: the user has logged in and is not online, the id and the socket are C strings, and the
connection is connected and in the set, or is the user's already. -/
structure Shakes (sv : Server) (r : Redis) (conn : ℕ) (userId : Bytes) : Prop where
  binds : Binds r userId
  nulFree : NulFree userId ∧ NulFree sv.strServerSocket
  isConnected : (sv.manager.sessions conn).isConnected
  mapped : conn ∈ sv.manager.sessionSet ∨ sv.manager.findUser userId = some conn

variable {sv : Server} {r : Redis} {conn : ℕ} {sessionId userId : Bytes} {m : ChatMsg}

namespace ConnectionManager

variable {c : ConnectionManager}

/-- What is sent on a connection that has been bound. -/
theorem sent_bindUser_send : (((c.bindUser conn sessionId userId).send conn m).sessions conn).sent =
    (c.sessions conn).sent ++ if (c.sessions conn).isConnected then [m] else [] := by
  have hsent : ((c.bindUser conn sessionId userId).sessions conn).sent = (c.sessions conn).sent :=
    apply_bindUser TcpSession.sent (fun _ _ _ => rfl) conn
  have hconn : ((c.bindUser conn sessionId userId).sessions conn).isConnected =
      (c.sessions conn).isConnected := apply_bindUser TcpSession.isConnected (fun _ _ _ => rfl) conn
  rw [sent_send, hsent, hconn]
  simp

theorem findUser_bindUser_send :
    ((c.bindUser conn sessionId userId).send conn m).findUser userId = some conn ↔
      conn ∈ c.sessionSet ∨ c.findUser userId = some conn := by
  change (c.bindUser conn sessionId userId).sessionMap.lookup userId = some conn ↔ _
  rw [bindUser_sessionMap]
  by_cases hset : conn ∈ c.sessionSet
  · rw [if_pos hset, AList.lookup_insert]
    exact iff_of_true rfl (.inl hset)
  · rw [if_neg hset]
    exact (or_iff_right hset).symm

end ConnectionManager

theorem Binds.online_eq_none (h : Binds r userId) : r.keys (ascii "online:" ++ cstr userId) = none := by
  rw [← cstr_online]
  exact CRedis.existsKey_eq_false_iff.1 h.2

/-- **When the key `online:<user>` is set** by a handshake that binds. -/
theorem online_signOn_iff (h : Binds r userId) :
    (signOn r userId sv.strServerSocket).keys (ascii "online:" ++ userId) =
          some (.str sv.strServerSocket) ∧
        r.keys (ascii "online:" ++ userId) ≠
          (signOn r userId sv.strServerSocket).keys (ascii "online:" ++ userId) ↔
      NulFree userId ∧ NulFree sv.strServerSocket := by
  have hset : (signOn r userId sv.strServerSocket).keys (ascii "online:" ++ cstr userId) =
      some (.str (cstr sv.strServerSocket)) := signOn_online
  by_cases hu : NulFree userId
  · have hnone := h.online_eq_none
    rw [cstr_eq_self hu] at hset hnone
    rw [hset, hnone]
    constructor
    · rintro ⟨hsocket, -⟩
      obtain heq := Value.str.inj (Option.some.inj hsocket)
      exact ⟨hu, heq ▸ nulFree_cstr _⟩
    · rintro ⟨-, hsocket⟩
      rw [cstr_eq_self hsocket]
      exact ⟨rfl, nofun⟩
  · -- the key that is set ends at the zero byte
    refine iff_of_false ?_ fun h => hu h.1
    rintro ⟨-, hchange⟩
    refine hchange (signOn_of_ne (fun heq => hu ?_) (online_ne_onlineGroup _)).symm
    rw [List.append_cancel_left heq]
    exact nulFree_cstr userId

theorem append_ite_eq_iff {α : Type*} {l : List α} {p : Prop} [Decidable p] {x y : α} :
    (l ++ if p then [x] else []) = l ++ [y] ↔ p ∧ x = y := by
  rw [List.append_cancel_left_eq]
  split
  · next hp => simp [hp]
  · next hp => simp [hp]

/-- A handshake that binds the user. -/
theorem truthful_iff_of_binds (sv : Server) (conn : ℕ) (request : ShakeHandleReq) (nowtime : UInt64)
    (hb : Binds r request.userId) :
    Truthful sv r conn request (onShakeHandleReq sv r conn request nowtime) ↔
      Shakes sv r conn request.userId := by
  obtain ⟨sessionid, heq⟩ := onShakeHandleReq_of_binds sv conn nowtime hb
  have hbound : Bound sv r conn request.userId (onShakeHandleReq sv r conn request nowtime) ↔
      (conn ∈ sv.manager.sessionSet ∨ sv.manager.findUser request.userId = some conn) ∧
        NulFree request.userId ∧ NulFree sv.strServerSocket := by
    have hfind : ((sv.manager.bindUser conn sessionid request.userId).send conn
        (.shakeHandleRes ⟨nowtime, 0⟩)).findUser request.userId = some conn ↔
          conn ∈ sv.manager.sessionSet ∨ sv.manager.findUser request.userId = some conn :=
      ConnectionManager.findUser_bindUser_send
    rw [heq, ← hfind, ← online_signOn_iff hb]
    exact ⟨fun h => ⟨h.findUser, h.online, h.set⟩, fun h => ⟨h.1, h.2.1, h.2.2⟩⟩
  have hsent : ((onShakeHandleReq sv r conn request nowtime).1.manager.sessions conn).sent =
      (sv.manager.sessions conn).sent ++ if (sv.manager.sessions conn).isConnected then
        [.shakeHandleRes ⟨nowtime, 0⟩] else [] := by
    rw [heq]
    exact ConnectionManager.sent_bindUser_send
  constructor
  · rintro ⟨response, hone, hresult⟩
    rw [hsent] at hone
    obtain ⟨hconn, hresponse⟩ := append_ite_eq_iff.1 hone
    obtain rfl := ChatMsg.shakeHandleRes.inj hresponse
    obtain ⟨hmapped, hnul⟩ := hbound.1 (hresult.1 rfl)
    exact ⟨hb, hnul, hconn, hmapped⟩
  · rintro ⟨-, hnul, hconn, hmapped⟩
    refine ⟨⟨nowtime, 0⟩, ?_, iff_of_true rfl (hbound.2 ⟨hmapped, hnul⟩)⟩
    rw [hsent, if_pos hconn]

/-- A handshake that binds nobody: there is no answer, or one with the result zero. -/
theorem not_truthful_of_not_binds (sv : Server) (conn : ℕ) (request : ShakeHandleReq) (nowtime : UInt64)
    (hb : ¬Binds r request.userId) :
    ¬Truthful sv r conn request (onShakeHandleReq sv r conn request nowtime) := by
  rintro ⟨response, hone, hresult⟩
  obtain ⟨hredis, hserver | hserver⟩ := onShakeHandleReq_of_not_binds sv conn nowtime hb
  · rw [hserver] at hone
    exact absurd (List.self_eq_append_right.1 hone) (List.cons_ne_nil _ _)
  · rw [hserver, ConnectionManager.sent_send] at hone
    simp only [true_and] at hone
    obtain ⟨-, hresponse⟩ := append_ite_eq_iff.1 hone
    obtain rfl := ChatMsg.shakeHandleRes.inj hresponse
    have hset := (hresult.1 rfl).set
    rw [hredis] at hset
    exact hset rfl

/-- **When a handshake gets one truthful answer.** For every server, content of Redis, connection and
request: one `shakeHandleRes` is sent on the connection, with the result zero if and only if the request has
bound the connection to the user, exactly where the condition holds. -/
theorem truthful_iff (sv : Server) (r : Redis) (conn : ℕ) (request : ShakeHandleReq) (nowtime : UInt64) :
    Truthful sv r conn request (onShakeHandleReq sv r conn request nowtime) ↔
      Shakes sv r conn request.userId := by
  by_cases hb : Binds r request.userId
  · exact truthful_iff_of_binds sv conn request nowtime hb
  · exact iff_of_false (not_truthful_of_not_binds sv conn request nowtime hb) fun h => hb h.binds

/-- A server with one connection. -/
def oneConnection : Server := ⟨ascii "h:1", ConnectionManager.new.handleAccept⟩

/-- The user `a` has logged in and is online. -/
def onlineRedis : Redis :=
  { loggedIn [ascii "a"] with
    keys := Function.update (loggedIn [ascii "a"]).keys (ascii "online:a") (some (.str (ascii "h:2"))) }

/-- A user who is online gets no answer, and one who has not logged in is told of success. -/
theorem untruthful :
    ((onShakeHandleReq oneConnection onlineRedis 0 ⟨0, ascii "a"⟩ 0).1.manager.sessions 0).sent = [] ∧
      ¬Truthful oneConnection onlineRedis 0 ⟨0, ascii "a"⟩
        (onShakeHandleReq oneConnection onlineRedis 0 ⟨0, ascii "a"⟩ 0) ∧
      ((onShakeHandleReq oneConnection (loggedIn []) 0 ⟨0, ascii "a"⟩ 0).1.manager.sessions 0).sent =
        [.shakeHandleRes ⟨0, 0⟩] ∧
      ¬Truthful oneConnection (loggedIn []) 0 ⟨0, ascii "a"⟩
        (onShakeHandleReq oneConnection (loggedIn []) 0 ⟨0, ascii "a"⟩ 0) := by
  have hsilent : ((onShakeHandleReq oneConnection onlineRedis 0 ⟨0, ascii "a"⟩ 0).1.manager.sessions
      0).sent = [] := by decide +kernel
  have hsuccess : ((onShakeHandleReq oneConnection (loggedIn []) 0 ⟨0, ascii "a"⟩ 0).1.manager.sessions
      0).sent = [.shakeHandleRes ⟨0, 0⟩] := by decide +kernel
  refine ⟨hsilent, ?_, hsuccess, ?_⟩
  · rintro ⟨response, hone, -⟩
    rw [hsilent] at hone
    exact absurd hone (by simp)
  · rintro ⟨response, hone, hresult⟩
    rw [hsuccess] at hone
    have hfirst : (oneConnection.manager.sessions 0).sent = [] := rfl
    rw [hfirst, List.nil_append] at hone
    obtain rfl : (⟨0, 0⟩ : ShakeHandleRes) = response := by simpa using hone
    exact (hresult.1 rfl).set (by decide +kernel)

end MutexIM.MessageServer
