import MutexIM.Foundations.Lease
import MutexIM.Routing.Effects
import MutexIM.Web.Socket

/-!
# Message servers and web servers

Message servers and web servers put users online in the same keys. A message server asks `EXISTS`
first, then enters the user in its map and sets the key; a web server enters the user and sets the key
without asking. `Connection_Manager::stop` and the web server's `disconnect` delete the key, whatever
it names by then.

* `World.step`: the servers' handshakes and disconnects, one Redis command or one change of a map at a
  time.
* `World.lease` sees the key of a user as a register that names its holder.
* `World.Undisturbed`: a server enters a user only while the key is free and no other server is about
  to set it, and deletes the key only while it names the server itself.
-/

namespace MutexIM.Routing

open Bytes Codec MessageServer Web

/-! ## The servers -/

/-- A message server with the task of its thread. -/
structure Worker where
  server : Server
  task : Option Task

/-- Message servers and web servers on one Redis server. -/
structure World (ι κ : Type*) where
  nodes : ι → Worker
  webs : κ → SocketServer
  redis : Redis

namespace World

variable {ι κ : Type*} [DecidableEq ι] [DecidableEq κ]

/-- What happens: on a message server, a connection is accepted, a handshake comes in, a connection
fails, the thread goes on; on a web server, a socket connects, sends a handshake or a message, or goes,
Redis executes a command, a callback runs. Any program may change keys other than those of presence. -/
inductive Event (ι κ : Type*)
  | accept (i : ι)
  | shakeHandle (i : ι) (conn : ℕ) (request : ShakeHandleReq) (nowtime : UInt64)
  | disconnect (i : ι) (s : ℕ)
  | work (i : ι)
  | connection (j : κ)
  | handleShake (j : κ) (socket : ℕ) (userId : Bytes)
  | peerMessage (j : κ) (data : MsgData)
  | close (j : κ) (socket : ℕ)
  | execute (j : κ)
  | callback (j : κ)
  | other (k : Bytes) (v : Option Value)

variable (serialize : MsgData → Bytes) (gbk : Bytes → Bytes) (w : World ι κ)

/-- One message server is changed, and Redis. -/
def setNode (i : ι) (n : Worker) (r : Redis) : World ι κ :=
  { w with nodes := Function.update w.nodes i n, redis := r }

/-- One web server is changed, and Redis. -/
def setWeb (j : κ) (sv : SocketServer) (r : Redis) : World ι κ :=
  { w with webs := Function.update w.webs j sv, redis := r }

/-- The thread of a message server turns to a task. -/
def begin (i : ι) (t : Task) : Option (World ι κ) :=
  match (w.nodes i).task with
  | none => some (w.setNode i { w.nodes i with task := some t } w.redis)
  | some _ => none

def step : Event ι κ → Option (World ι κ)
  | .accept i =>
    match (w.nodes i).task with
    | none =>
      let sv := (w.nodes i).server
      some (w.setNode i ⟨{ sv with manager := sv.manager.handleAccept }, none⟩ w.redis)
    | some _ => none
  | .shakeHandle i conn request nowtime =>
    if conn < (w.nodes i).server.manager.created then
      w.begin i (.shake conn request nowtime .hgetAll)
    else none
  | .disconnect i s => w.begin i (.stop s .erase)
  | .work i =>
    (w.nodes i).task.bind fun t => (t.next (w.nodes i).server w.redis).map fun (t', sv, r) =>
      w.setNode i ⟨sv, t'⟩ r
  | .connection j => some (w.setWeb j (w.webs j).connection w.redis)
  | .handleShake j socket userId =>
    if (w.webs j).connected socket then
      some (w.setWeb j ((w.webs j).handleShake socket userId) w.redis)
    else none
  | .peerMessage j data => some (w.setWeb j ((w.webs j).peerMessage data) w.redis)
  | .close j socket =>
    if (w.webs j).connected socket then some (w.setWeb j ((w.webs j).disconnect socket) w.redis)
    else none
  | .execute j => ((w.webs j).redisDB.run SocketCommand.exec w.redis).map fun (r, p) =>
    w.setWeb j { w.webs j with redisDB := p } r
  | .callback j => (w.webs j).redisDB.next?.map fun (reply, p) =>
    w.setWeb j ({ w.webs j with redisDB := p }.callback serialize gbk reply) w.redis
  | .other k v =>
    if ascii "online:" <+: k then none
    else some { w with redis := { w.redis with keys := Function.update w.redis.keys k v } }

/-- The servers have just started. -/
def start (sockets : ι ⊕ κ → Bytes) (r : Redis) : World ι κ where
  nodes i := ⟨.start (sockets (.inl i)), none⟩
  webs j := .start (sockets (.inr j))
  redis := r

end World

/-! ## The key of a user as a lease -/

/-- The server has a connection that is registered for the user and lives. -/
def Worker.Holds (n : Worker) (u : Bytes) : Prop :=
  ∃ s, n.server.manager.findUser u = some s ∧ (n.server.manager.sessions s).isConnected = true

/-- The writes to the user's key that the server's task has to do next. -/
def Worker.ops (n : Worker) (u : Bytes) : List LeaseOp :=
  match n.task with
  | some (.shake _ request _ .set) => if request.userId = u then [.claim] else []
  | some (.stop s .del) => if (n.server.manager.sessions s).userId = u then [.release] else []
  | _ => []

/-- The write that a command is for the user's key. -/
def leaseOp (u : Bytes) : SocketCommand → Option LeaseOp
  | .set userId _ => if userId = u then some .claim else none
  | .del userId => if userId = u then some .release else none
  | _ => none

end MutexIM.Routing

namespace MutexIM.Web.SocketServer

open Bytes MutexIM.Routing

variable (sv : SocketServer)

/-- The server has a socket that is registered for the user and lives. -/
def Holds (u : Bytes) : Prop := ∃ socket, sv.userIdMap u = some socket ∧ sv.connected socket = true

/-- The writes to the user's key among the commands issued. -/
def ops (u : Bytes) : List LeaseOp := sv.redisDB.commands.filterMap (leaseOp u)

end MutexIM.Web.SocketServer

namespace MutexIM.Routing

open Bytes Codec MessageServer Web

namespace World

variable {ι κ : Type*} (sockets : ι ⊕ κ → Bytes) (w : World ι κ)

/-- The key of a user as a register. -/
def lease (u : Bytes) : Lease (ι ⊕ κ) Value where
  key := w.redis.keys (ascii "online:" ++ u)
  holds := Sum.elim (fun i => (w.nodes i).Holds u) fun j => (w.webs j).Holds u
  ops := Sum.elim (fun i => (w.nodes i).ops u) fun j => (w.webs j).ops u

/-- What a server sets a key to. -/
def names (x : ι ⊕ κ) : Value := .str (sockets x)

/-- A handshake enters the user while the user's key is free and no other server is about to set it; a
disconnect deletes the key while it is free or names the server itself. A message server's user has an
id without a zero byte, so that the key is the user's own. -/
def Undisturbed : Event ι κ → Prop
  | .work i =>
    match (w.nodes i).task with
    | some (.shake _ request _ (.bind _)) => NulFree request.userId ∧
        (w.lease request.userId).key = none ∧ (w.lease request.userId).Unclaimed (.inl i)
    | some (.stop s .del) =>
      (w.lease ((w.nodes i).server.manager.sessions s).userId).FreeFor (names sockets) (.inl i)
    | _ => True
  | .handleShake j _ userId =>
    (w.lease userId).FreeFor (names sockets) (.inr j) ∧ (w.lease userId).Unclaimed (.inr j)
  | .execute j =>
    match (w.webs j).redisDB.commands.head? with
    | some (.del userId) => (w.lease userId).FreeFor (names sockets) (.inr j)
    | _ => True
  | _ => True

end World

end MutexIM.Routing
