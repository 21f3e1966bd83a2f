import MutexIM.Codec.Messages
import MutexIM.Foundations.Pipeline
import MutexIM.Redis.CRedis

/-!
# The web server's connections

`socket.js` keeps the socket of each user in `userIdMap` and the user of each socket in `socketMap`,
and tells Redis who is online. Its Redis client does not wait for answers: the commands of a handler
are a pipeline, and what depends on an answer is done in a callback. Keys and members are sent with
their length, so that they hold any bytes.

* `handleShake`, `disconnect`, `peerMessage`: the handlers of a socket.
* `SocketCommand.exec` is the Redis server, `callback` what the callbacks do.
-/

namespace MutexIM.Web

open Bytes Codec

/-! ## Commands -/

/-- The commands issued. `smembers` reads the groups of a user who comes online or goes offline. -/
inductive SocketCommand
  | get (data : MsgData)
  | set (userId value : Bytes)
  | del (userId : Bytes)
  | publish (channel message : Bytes)
  | smembers (userId : Bytes) (online : Bool)
  | sadd (groupId userId : Bytes)
  | srem (groupId userId : Bytes)
  | lpush (toId buf : Bytes)
  | ltrim (toId : Bytes)

/-- The answers that a callback waits for. -/
inductive SocketReply
  | get (data : MsgData) (reply : Reply)
  | smembers (userId : Bytes) (online : Bool) (reply : Reply)
  | lpush (toId : Bytes) (reply : Reply)

/-- What the Redis server does with a command. -/
def SocketCommand.exec (r : Redis) : SocketCommand → Redis × Option SocketReply
  | .get data => (r, some (.get data (r.keys.get (ascii "online:" ++ data.toId))))
  | .set userId value =>
    ({ r with keys := (r.keys.set (ascii "online:" ++ userId) value).2 }, none)
  | .del userId => ({ r with keys := (r.keys.del (ascii "online:" ++ userId)).2 }, none)
  | .publish channel message =>
    ({ r with published := r.published ++ [(channel, message)] }, none)
  | .smembers userId online =>
    (r, some (.smembers userId online (r.keys.smembers (ascii "groupSet:" ++ userId))))
  | .sadd groupId userId =>
    ({ r with keys := (r.keys.sadd (ascii "onlineGroup:" ++ groupId) userId).2 }, none)
  | .srem groupId userId =>
    ({ r with keys := (r.keys.srem (ascii "onlineGroup:" ++ groupId) userId).2 }, none)
  | .lpush toId buf =>
    let (reply, keys) := r.keys.lpush (ascii "unreadMsg:" ++ toId) buf
    ({ r with keys := keys }, some (.lpush toId reply))
  | .ltrim toId => ({ r with keys := (r.keys.ltrim (ascii "unreadMsg:" ++ toId) 0 99).2 }, none)

/-! ## The server -/

/-- The web server. A socket is named by a number, the order in which it connected. -/
structure SocketServer where
  g_socketStr : Bytes
  connected : ℕ → Bool
  created : ℕ
  userIdMap : Bytes → Option ℕ
  socketMap : ℕ → Option Bytes
  redisDB : Pipeline SocketCommand SocketReply

namespace SocketServer

/-- A server that listens. -/
def start (g_socketStr : Bytes) : SocketServer where
  g_socketStr := g_socketStr
  connected _ := false
  created := 0
  userIdMap _ := none
  socketMap _ := none
  redisDB := .empty

variable (sv : SocketServer)

def issue (cs : List SocketCommand) : SocketServer := { sv with redisDB := sv.redisDB.issue cs }

@[simp]
theorem issue_nil : sv.issue [] = sv := by rw [issue, Pipeline.issue_nil]

/-- `io.on('connection')`. -/
def connection : SocketServer :=
  { sv with connected := Function.update sv.connected sv.created true, created := sv.created + 1 }

/-- `socket.on('handleShake')`. -/
def handleShake (socket : ℕ) (userId : Bytes) : SocketServer :=
  { sv with
    userIdMap := Function.update sv.userIdMap userId (some socket)
    socketMap := Function.update sv.socketMap socket (some userId) }.issue
      [.set userId sv.g_socketStr, .publish (ascii "online") userId, .smembers userId true]

/-- `socket.on('disconnect')`. -/
def disconnect (socket : ℕ) : SocketServer :=
  let sv := { sv with connected := Function.update sv.connected socket false }
  match sv.socketMap socket with
  | none => sv
  | some nowUserId =>
    { sv with
      userIdMap := Function.update sv.userIdMap nowUserId none
      socketMap := Function.update sv.socketMap socket none }.issue
        [.publish (ascii "offline") nowUserId, .del nowUserId, .smembers nowUserId false]

/-- `socket.on('peer message')`. The handler looks for the recipient's socket with
`userIdMap[data.toId]`, which is a property of the map and not an entry, and so finds none. -/
def peerMessage (data : MsgData) : SocketServer := sv.issue [.get { data with type := chatText }]

/-- The callbacks. Messages are written by a library, and `gbk` is the encoding of their text. -/
def callback (serialize : MsgData → Bytes) (gbk : Bytes → Bytes) : SocketReply → SocketServer
  | .get data (.str reply) => sv.issue
      [.publish (ascii "peerMsg:" ++ reply) (serialize { data with msgData := gbk data.msgData })]
  | .get data _ => sv.issue [.lpush data.toId (serialize data)]
  | .smembers userId true reply =>
    sv.issue (reply.elements.map fun groupId => .sadd groupId.bytes userId)
  | .smembers userId false reply =>
    sv.issue (reply.elements.map fun groupId => .srem groupId.bytes userId)
  | .lpush toId (.integer n) => if n > 99 then sv.issue [.ltrim toId] else sv
  | .lpush _ _ => sv

end SocketServer

end MutexIM.Web
