import MutexIM.Foundations.Channels
import MutexIM.Routing.Tasks

/-!
# The routes of a chat message

A chat message is sent to a connection of its recipient on the sender's server, published for the
server that the key `online:<user>` names, or put in the list `unreadMsg:<user>`. The choice is made
from what the sender's server sees of Redis, and the recipient may go before the message arrives.

* `Net.step` lets the servers work command by command, in any order, and the subscribers read what was
  published.
* `Net.Attended`: nothing happens that finds the recipient of a message without a connection.
-/

namespace MutexIM.Routing

open Bytes Codec MessageServer

/-! ## The servers -/

/-- A message server: the task of its thread, and how many published messages its subscriber has
seen. -/
structure Node where
  server : Server
  task : Option Task
  seen : ℕ

/-- Message servers on one Redis server. As history: the chat messages accepted, those sent with
server and session, the sessions registered for a user, and what was dropped from a list. -/
structure Net (ι : Type*) where
  nodes : ι → Node
  redis : Redis
  accepted : List MsgData
  sent : List (ι × ℕ × MsgData)
  registered : List (ι × ℕ × Bytes)
  dropped : List (Bytes × Bytes)

namespace Net

variable {ι : Type*} [DecidableEq ι]

/-- What happens: a connection is accepted, a message comes in or a connection fails and the thread
of the server turns to it, the thread goes on, the subscriber is handed a published message. -/
inductive Event (ι : Type*)
  | accept (i : ι)
  | msgData (i : ι) (m : MsgData)
  | shakeHandle (i : ι) (conn : ℕ) (request : ShakeHandleReq) (nowtime : UInt64)
  | disconnect (i : ι) (s : ℕ)
  | work (i : ι)
  | deliver (i : ι)

/-- One server is changed. -/
def setNode (w : Net ι) (i : ι) (n : Node) : Net ι := { w with nodes := Function.update w.nodes i n }

/-- The thread of a server turns to a task. -/
def begin (w : Net ι) (i : ι) (t : Task) : Option (Net ι) :=
  match (w.nodes i).task with
  | none => some (w.setNode i { w.nodes i with task := some t })
  | some _ => none

def step (w : Net ι) : Event ι → Option (Net ι)
  | .accept i =>
    match (w.nodes i).task with
    | none =>
      let sv := (w.nodes i).server
      some (w.setNode i { w.nodes i with
        server := { sv with manager := sv.manager.handleAccept } })
    | some _ => none
  | .msgData i m =>
    if (m.type = chatText ∨ m.type = chatAudio) ∧ (ChatMsg.msgData m).Fits then
      (w.begin i (.peer m .find)).map fun w => { w with accepted := w.accepted ++ [m] }
    else none
  | .shakeHandle i conn request nowtime =>
    if conn < (w.nodes i).server.manager.created then
      w.begin i (.shake conn request nowtime .hgetAll)
    else none
  | .disconnect i s => w.begin i (.stop s .erase)
  | .work i =>
    let n := w.nodes i
    n.task.bind fun t => (t.next n.server w.redis).map fun (t', sv, r) =>
      { w with
        nodes := Function.update w.nodes i { n with server := sv, task := t' }
        redis := r
        sent := w.sent ++ (t.sent n.server).map (i, ·)
        registered := w.registered ++ (t.registered n.server).map (i, ·)
        dropped := w.dropped ++ t.dropped w.redis }
  | .deliver i =>
    let n := w.nodes i
    -- `SubscribePeerMsg` waits for `m_mutex`
    if n.task.any Task.locks then none
    else match w.redis.published[n.seen]? with
    | some (channel, value) =>
      if channel = ascii "peerMsg:" ++ n.server.strServerSocket then
        (subscribePeerMsg n.server value).map fun sv =>
          { w with
            nodes := Function.update w.nodes i { n with server := sv, seen := n.seen + 1 }
            sent := w.sent ++ ((received value).flatMap (sends n.server)).map (i, ·) }
      else some (w.setNode i { n with seen := n.seen + 1 })
    | none => none

/-- The servers have just started and subscribed. -/
def start (sockets : ι → Bytes) (r : Redis) : Net ι where
  nodes i := ⟨.start (sockets i), none, r.published.length⟩
  redis := r
  accepted := []
  sent := []
  registered := []
  dropped := []

/-- A published message finds a connection of its recipient; for the tasks see `Task.Attended`. -/
def Attended (w : Net ι) : Event ι → Prop
  | .work i =>
    match (w.nodes i).task with
    | some t => t.Attended (w.nodes i).server
    | none => True
  | .deliver i =>
    match w.redis.published[(w.nodes i).seen]? with
    | some (channel, value) =>
      channel = ascii "peerMsg:" ++ (w.nodes i).server.strServerSocket →
        ∀ m ∈ received value, sends (w.nodes i).server m ≠ []
    | none => True
  | _ => True

instance (w : Net ι) (e : Event ι) : Decidable (w.Attended e) := by
  unfold Attended
  split
  · split <;> infer_instance
  · split <;> infer_instance
  · infer_instance

end Net

end MutexIM.Routing
