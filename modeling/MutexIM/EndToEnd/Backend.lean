import MutexIM.Foundations.Network
import MutexIM.Routing.Exchange
import MutexIM.Routing.Jobs

/-!
# The message servers, seen from the clients

Message servers on one Redis server take messages from clients, each on a connection of its own, and send
messages to them. What happens between is theirs: the threads handle messages command by command, the
subscribers are handed what was published, connections come and go.

* `Backend.receive`, `Backend.input`: a message that comes in from a client, and everything else.
* `emit` are the messages to clients: what was added to what their sessions have sent.
-/

namespace MutexIM.EndToEnd

open Bytes Codec MessageServer Routing

/-- The layout of hash maps and the order of `SORT`, and the server and the connection of each client. -/
structure Setting (ι : Type) (n : ℕ) where
  L : Layout Bytes Bytes
  order : Keyspace.NumericOrder
  home : Fin n → ι × ℕ
  home_injective : Function.Injective home

/-- A message server: what is left of the handler of its thread, and how many published messages its
subscriber has seen. -/
structure ServerNode where
  server : Server
  job : Option Job
  seen : ℕ

/-- Message servers on one Redis server, and the clock. As history: what Redis was before each command of a
server, and the chat messages that other programs have published. -/
structure Backend (ι : Type) where
  nodes : ι → ServerNode
  redis : Redis
  nowtime : UInt64
  past : List Redis
  foreign : List MsgData

/-- What a session has sent more. -/
def gained (sv sv' : Server) (s : ℕ) : List ChatMsg :=
  (sv'.manager.sessions s).sent.drop (sv.manager.sessions s).sent.length

theorem gained_eq {sv sv' : Server} {s : ℕ} {l : List ChatMsg}
    (h : (sv'.manager.sessions s).sent = (sv.manager.sessions s).sent ++ l) : gained sv sv' s = l := by
  rw [gained, h, List.drop_left]

namespace Backend

/-- What happens: a connection is accepted or fails, the thread of a server goes on, its subscriber is
handed a published message, another program publishes something or changes a key, the clock goes on. -/
inductive Input (ι : Type)
  | accept (i : ι)
  | disconnect (i : ι) (s : ℕ)
  | work (i : ι)
  | deliver (i : ι)
  | publish (channel value : Bytes)
  | other (k : Bytes) (v : Option Value)
  | time (nowtime : UInt64)
  deriving DecidableEq

variable {ι : Type} {n : ℕ}

/-- The servers have just started and subscribed. -/
def start (sockets : ι → Bytes) (r : Redis) : Backend ι where
  nodes i := ⟨.start (sockets i), none, r.published.length⟩
  redis := r
  nowtime := 0
  past := []
  foreign := []

variable [DecidableEq ι] (S : Setting ι n) (b : Backend ι)

def setNode (i : ι) (node : ServerNode) : Backend ι := { b with nodes := Function.update b.nodes i node }

/-- The messages to the clients of a server: what their sessions have sent, and lists. -/
def emit (i : ι) (sv sv' : Server) (answers : List (ℕ × IMMsg)) : List (Option (Fin n) × IMMsg) :=
  (List.finRange n).flatMap fun k =>
    (if (S.home k).1 = i then
      (gained sv sv' (S.home k).2).map IMMsg.ofChat ++
        (answers.filter fun a => a.1 = (S.home k).2).map Prod.snd
    else []).map (some k, ·)

/-- What a client gets of it. -/
theorem ofPeer_emit (i : ι) (sv sv' : Server) (answers : List (ℕ × IMMsg)) (k : Fin n) :
    ofPeer (some k) (emit S i sv sv' answers) =
      if (S.home k).1 = i then
        (gained sv sv' (S.home k).2).map IMMsg.ofChat ++
          (answers.filter fun a => a.1 = (S.home k).2).map Prod.snd
      else [] :=
  ofPeer_flatMap (Option.some_injective _) _ (List.nodup_finRange n) (List.mem_finRange k)

theorem of_mem_emit {i : ι} {sv sv' : Server} {answers : List (ℕ × IMMsg)} {k : Fin n} {m : IMMsg}
    (h : (some k, m) ∈ emit S i sv sv' answers) :
    (S.home k).1 = i ∧ ((∃ x ∈ gained sv sv' (S.home k).2, IMMsg.ofChat x = m) ∨
      ((S.home k).2, m) ∈ answers) := by
  rw [← mem_ofPeer, ofPeer_emit] at h
  split at h
  · next hi =>
    refine ⟨hi, (List.mem_append.1 h).imp List.mem_map.1 fun h => ?_⟩
    obtain ⟨⟨s, m⟩, ha, rfl⟩ := List.mem_map.1 h
    obtain ⟨ha, hs⟩ := List.mem_filter.1 ha
    exact of_decide_eq_true hs ▸ ha
  · cases h

/-- The thread of a server turns to a handler. -/
def begin (i : ι) (t : Option Job) : Option (Backend ι × List (Option (Fin n) × IMMsg)) :=
  match (b.nodes i).job with
  | none => some (b.setNode i { b.nodes i with job := t }, [])
  | some _ => none

/-- The state after a step of the thread. -/
def afterWork (i : ι) (t : Option Job) (sv : Server) (r : Redis) : Backend ι :=
  { b with
    nodes := Function.update b.nodes i { b.nodes i with server := sv, job := t }
    redis := r
    past := b.past ++ [b.redis] }

/-- The subscriber has seen a published message. -/
def afterDeliver (i : ι) (sv : Server) : Backend ι :=
  b.setNode i { b.nodes i with server := sv, seen := (b.nodes i).seen + 1 }

def input : Input ι → Option (Backend ι × List (Option (Fin n) × IMMsg))
  | .accept i =>
    match (b.nodes i).job with
    | none =>
      let sv := (b.nodes i).server
      some (b.setNode i { b.nodes i with server := { sv with manager := sv.manager.handleAccept } }, [])
    | some _ => none
  | .disconnect i s => b.begin i (some (.task (.stop s .erase)))
  | .work i =>
    (b.nodes i).job.bind fun t =>
      (t.next S.L S.order (b.nodes i).server b.redis).map fun (t, sv, r, answers) =>
        (b.afterWork i t sv r, emit S i (b.nodes i).server sv answers)
  | .deliver i =>
    let sv := (b.nodes i).server
    -- the subscriber waits for `m_mutex`
    if (b.nodes i).job.any Job.locks then none
    else match b.redis.published[(b.nodes i).seen]? with
    | some (channel, value) =>
      if channel = ascii "peerMsg:" ++ sv.strServerSocket then
        (subscribePeerMsg sv value).map fun sv' => (b.afterDeliver i sv', emit S i sv sv' [])
      else if channel = ascii "groupMsg:" ++ sv.strServerSocket then
        (subscribeGroupMsg sv value).map fun sv' => (b.afterDeliver i sv', emit S i sv sv' [])
      else some (b.afterDeliver i sv, [])
    | none => none
  | .publish channel value =>
    some ({ b with
      redis := { b.redis with published := b.redis.published ++ [(channel, value)] }
      foreign := b.foreign ++ (received value ++ receivedGroup value) }, [])
  | .other k v =>
    some ({ b with redis := { b.redis with keys := Function.update b.redis.keys k v } }, [])
  | .time nowtime => some ({ b with nowtime := nowtime }, [])

/-- A message comes in from a client, when the thread has nothing else to do. -/
def receive (k : Fin n) (m : IMMsg) : Option (Backend ι × List (Option (Fin n) × IMMsg)) :=
  if (S.home k).2 < (b.nodes (S.home k).1).server.manager.created then
    b.begin (S.home k).1 (Job.forMessage (S.home k).2 b.nowtime m)
  else none

/-! ## Steps -/

variable {S b} {b' : Backend ι} {ms : List (Option (Fin n) × IMMsg)} {i : ι}

theorem begin_inv {t : Option Job} (h : b.begin i t = some (b', ms)) :
    (b.nodes i).job = none ∧ b' = b.setNode i { b.nodes i with job := t } ∧ ms = [] := by
  unfold begin at h
  split at h
  · next hjob =>
    obtain ⟨rfl, rfl⟩ := Prod.mk.inj (Option.some.inj h)
    exact ⟨hjob, rfl, rfl⟩
  · cases h

theorem receive_inv {k : Fin n} {m : IMMsg} (h : b.receive S k m = some (b', ms)) :
    b.begin (S.home k).1 (Job.forMessage (S.home k).2 b.nowtime m) = some (b', ms) := by
  unfold receive at h
  split at h
  · exact h
  · cases h

theorem accept_inv (h : b.input S (.accept i) = some (b', ms)) :
    b' = b.setNode i { b.nodes i with
      server := { (b.nodes i).server with manager := (b.nodes i).server.manager.handleAccept } } ∧ ms = [] := by
  simp only [input] at h
  split at h
  · obtain ⟨rfl, rfl⟩ := Prod.mk.inj (Option.some.inj h)
    exact ⟨rfl, rfl⟩
  · cases h

theorem work_inv (h : b.input S (.work i) = some (b', ms)) :
    ∃ t t' sv r answers, (b.nodes i).job = some t ∧
      t.next S.L S.order (b.nodes i).server b.redis = some (t', sv, r, answers) ∧
        b' = b.afterWork i t' sv r ∧ ms = emit S i (b.nodes i).server sv answers := by
  obtain ⟨t, ht, hmap⟩ := Option.bind_eq_some_iff.1 h
  obtain ⟨⟨t', sv, r, answers⟩, hnext, heq⟩ := Option.map_eq_some_iff.1 hmap
  obtain ⟨rfl, rfl⟩ := Prod.mk.inj heq
  exact ⟨t, t', sv, r, answers, ht, hnext, rfl, rfl⟩

/-- The subscriber is handed the next message that was published. -/
theorem deliver_inv (h : b.input S (.deliver i) = some (b', ms)) :
    ∃ e, b.redis.published[(b.nodes i).seen]? = some e ∧
      ((e.1 = ascii "peerMsg:" ++ (b.nodes i).server.strServerSocket ∧
          ∃ sv, subscribePeerMsg (b.nodes i).server e.2 = some sv ∧
            b' = b.afterDeliver i sv ∧ ms = emit S i (b.nodes i).server sv []) ∨
        (e.1 = ascii "groupMsg:" ++ (b.nodes i).server.strServerSocket ∧
          ∃ sv, subscribeGroupMsg (b.nodes i).server e.2 = some sv ∧
            b' = b.afterDeliver i sv ∧ ms = emit S i (b.nodes i).server sv []) ∨
        b' = b.afterDeliver i (b.nodes i).server ∧ ms = []) := by
  simp only [input] at h
  split at h
  · cases h
  · split at h
    · next channel value hvalue =>
      refine ⟨(channel, value), hvalue, ?_⟩
      split at h
      · next hchannel =>
        obtain ⟨sv, hsv, heq⟩ := Option.map_eq_some_iff.1 h
        obtain ⟨rfl, rfl⟩ := Prod.mk.inj heq
        exact .inl ⟨hchannel, sv, hsv, rfl, rfl⟩
      · split at h
        · next hchannel =>
          obtain ⟨sv, hsv, heq⟩ := Option.map_eq_some_iff.1 h
          obtain ⟨rfl, rfl⟩ := Prod.mk.inj heq
          exact .inr (.inl ⟨hchannel, sv, hsv, rfl, rfl⟩)
        · obtain ⟨rfl, rfl⟩ := Prod.mk.inj (Option.some.inj h)
          exact .inr (.inr ⟨rfl, rfl⟩)
    · cases h

theorem foreign_receive {k : Fin n} {m : IMMsg} (h : b.receive S k m = some (b', ms)) :
    b'.foreign = b.foreign := by
  obtain ⟨-, rfl, -⟩ := begin_inv (receive_inv h)
  rfl

/-- What other programs have published stays so. -/
theorem foreign_subset_input {x : Input ι} (h : b.input S x = some (b', ms)) : b.foreign ⊆ b'.foreign := by
  cases x with
  | accept i =>
    obtain ⟨rfl, -⟩ := accept_inv h
    exact List.Subset.refl _
  | disconnect i s =>
    obtain ⟨-, rfl, -⟩ := begin_inv h
    exact List.Subset.refl _
  | work i =>
    obtain ⟨t, t', sv, r, answers, -, -, rfl, -⟩ := work_inv h
    exact List.Subset.refl _
  | deliver i =>
    obtain ⟨e, -, ⟨-, sv, -, rfl, -⟩ | ⟨-, sv, -, rfl, -⟩ | ⟨rfl, -⟩⟩ := deliver_inv h <;>
      exact List.Subset.refl _
  | publish channel value =>
    obtain ⟨rfl, -⟩ := Prod.mk.inj (Option.some.inj h)
    exact List.subset_append_left _ _
  | _ =>
    obtain ⟨rfl, -⟩ := Prod.mk.inj (Option.some.inj h)
    exact List.Subset.refl _

end Backend

end MutexIM.EndToEnd
